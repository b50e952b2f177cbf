/-! # Text with broken surrogate pairs

A decoded text is a list of code points.  Nearly all of them are characters; the exception is one
half of a surrogate pair that stands alone, which an escape such as `\ud800` can name although no
encoded file can hold it.  A `String` never holds such a half, so texts that may are kept apart from
strings by their type.

Such texts come from the literals that `DependencyParser._parse_at` reads, and from files in some
encodings.
-/

namespace Injection

/-- The bytes of a file or of a source. -/
abbrev Bytes := List UInt8

/-- A position of a decoded text: a character, or a surrogate half on its own (`0xD800 + h`). -/
inductive CodePoint where
  | char (c : Char)
  | half (h : Fin 0x800)
deriving DecidableEq, Repr

namespace CodePoint

/-- The number of a code point. -/
def value : CodePoint → Nat
  | .char c => c.toNat
  | .half h => 0xD800 + h.val

/-- The code point of a number: numbers in the surrogate range name halves. -/
def ofNat (n : Nat) : CodePoint :=
  if h : 0xD800 ≤ n ∧ n < 0xE000 then .half ⟨n - 0xD800, by omega⟩ else .char (Char.ofNat n)

end CodePoint

/-- A text that may hold lone surrogate halves. -/
abbrev Text := List CodePoint

namespace Text

/-- Characters as a text. -/
def ofChars (cs : List Char) : Text := cs.map .char

/-- A string as a text. -/
def ofString (s : String) : Text := ofChars s.toList

/-- The digits of `n` in base sixteen, lower case, at least `width` of them. -/
def hex (width n : Nat) : List Char :=
  let digits := Nat.toDigits 16 n
  List.replicate (width - digits.length) '0' ++ digits

/-- Show a text, each lone half by its escape `\udXXX`. -/
def shown (t : Text) : String :=
  String.ofList (t.flatMap fun
    | .char c => [c]
    | .half h => '\\' :: 'u' :: hex 4 (0xD800 + h.val))

/-- The characters of a text without lone halves. -/
def toChars? : Text → Option (List Char)
  | [] => some []
  | .char c :: t => (toChars? t).map (c :: ·)
  | .half _ :: _ => none

/-- A text without lone halves is a string. -/
def toString? (t : Text) : Option String := (toChars? t).map String.ofList

@[simp] theorem ofChars_nil : ofChars [] = [] := rfl

@[simp] theorem ofChars_cons (c : Char) (cs : List Char) :
    ofChars (c :: cs) = .char c :: ofChars cs := rfl

@[simp] theorem ofChars_append (a b : List Char) : ofChars (a ++ b) = ofChars a ++ ofChars b :=
  List.map_append

end Text

end Injection
