import Injection.Json.Reader
import Mathlib.Data.List.TakeDrop
import Mathlib.Data.Nat.Digits.Defs

/-!
# JSON texts as trees

The texts of the strict format, as syntax trees that say everything about a text: its white space,
how each character of a string is written, and the digits of its numbers.  A tree carries the proofs
that it is well formed, so that there is none for a text outside the format.

* `Value.chars` is the text of a tree, `Value.value` the value that it denotes and `Value.nesting`
  how deep its arrays and objects stand in each other.
* `Document` is a whole text: a value with white space around it.
* `Value.exists_cons` and `Value.exists_getLast?`: the characters that a value starts and ends with.

Numbers are read as the format writes them.  A whole number has at most `digitLimit` digits; a
number with a fraction or an exponent may have any number of them.
-/

namespace Injection.Json.Syntax

/-- White space between the parts of a text. -/
abbrev Space := { cs : List Char // ∀ c ∈ cs, isSpace c = true }

def noSpace : Space := ⟨[], List.forall_mem_nil _⟩

def oneSpace : Space := ⟨[' '], List.forall_mem_singleton.2 rfl⟩

/-! ## Strings -/

/-- A digit in base sixteen; letters are written in either case. -/
structure HexDigit where
  value : Fin 16
  upper : Bool
deriving DecidableEq, Repr

def HexDigit.char (d : HexDigit) : Char :=
  if d.upper then (Nat.digitChar d.value).toUpper else Nat.digitChar d.value

/-- A character that has an escape of one letter. -/
inductive Short where
  | quote
  | backslash
  | slash
  | backspace
  | formFeed
  | lineFeed
  | carriageReturn
  | tab
deriving DecidableEq, Repr

/-- What is written behind the backslash. -/
def Short.letter : Short → Char
  | .quote => '"'
  | .backslash => '\\'
  | .slash => '/'
  | .backspace => 'b'
  | .formFeed => 'f'
  | .lineFeed => 'n'
  | .carriageReturn => 'r'
  | .tab => 't'

/-- The character that is meant. -/
def Short.meaning : Short → Char
  | .quote => '"'
  | .backslash => '\\'
  | .slash => '/'
  | .backspace => '\x08'
  | .formFeed => '\x0c'
  | .lineFeed => '\n'
  | .carriageReturn => '\r'
  | .tab => '\t'

/-- Whether a character stands for itself in a string. -/
def isPlain (c : Char) : Bool := c ≠ '"' && c ≠ '\\' && 0x20 ≤ c.toNat

/-- One element of a string: a character that stands for itself, an escape of one letter, or the
escape of a number by its four digits. -/
inductive Piece where
  | plain (c : Char) (h : isPlain c = true)
  | short (s : Short)
  | unit (a b c d : HexDigit)
deriving DecidableEq

def Piece.chars : Piece → List Char
  | .plain c _ => [c]
  | .short s => ['\\', s.letter]
  | .unit a b c d => ['\\', 'u', a.char, b.char, c.char, d.char]

/-- The number of four digits. -/
def unitValue (a b c d : HexDigit) : Nat :=
  Nat.ofDigits 16 [d.value.val, c.value.val, b.value.val, a.value.val]

/-- The text of a string: a high half that is followed by a low one makes one character with it, any
other half stands alone. -/
def meaning : List Piece → Text
  | [] => []
  | .plain c _ :: ps => .char c :: meaning ps
  | .short s :: ps => .char s.meaning :: meaning ps
  | .unit a b c d :: .unit a' b' c' d' :: ps =>
    -- A second unit that does not belong to the first is looked at again: it may be a high half.
    if isHighHalf (unitValue a b c d) && isLowHalf (unitValue a' b' c' d') then
      let high := unitValue a b c d - 0xD800
      let low := unitValue a' b' c' d' - 0xDC00
      .char (Char.ofNat (0x10000 + high * 0x400 + low)) :: meaning ps
    else .ofNat (unitValue a b c d) :: meaning (.unit a' b' c' d' :: ps)
  | .unit a b c d :: ps => .ofNat (unitValue a b c d) :: meaning ps

/-- A string with its quotes. -/
def stringChars (ps : List Piece) : List Char := '"' :: (ps.flatMap Piece.chars ++ ['"'])

/-! ## Numbers -/

def digitChars (ds : List (Fin 10)) : List Char := ds.map fun d => Nat.digitChar d.val

/-- The number of a row of digits, the greatest first. -/
def decimal (ds : List (Fin 10)) : Nat := Nat.ofDigits 10 (ds.map Fin.val).reverse

/-- An exponent; `sign` says whether it has a sign, and whether that is a minus. -/
structure Exponent where
  upper : Bool
  sign : Option Bool
  digits : List (Fin 10)
  digits_ne_nil : digits ≠ []
deriving DecidableEq

def Exponent.chars (e : Exponent) : List Char :=
  (if e.upper then 'E' else 'e') ::
    ((match e.sign with
      | none => []
      | some true => ['-']
      | some false => ['+']) ++ digitChars e.digits)

def Exponent.value (e : Exponent) : Int :=
  if e.sign = some true then -(decimal e.digits : Int) else decimal e.digits

/-- A number.  No digits behind the point mean that there is no point. -/
structure Number where
  negative : Bool
  whole : List (Fin 10)
  fraction : List (Fin 10)
  exponent : Option Exponent
  whole_ne_nil : whole ≠ []
  no_leading_zero : 1 < whole.length → whole.head?.map Fin.val ≠ some 0
  length_le_of_whole : fraction = [] → exponent = none → whole.length ≤ digitLimit
deriving DecidableEq

/-- The fraction with its point. -/
def fractionChars (fraction : List (Fin 10)) : List Char :=
  if fraction = [] then [] else '.' :: digitChars fraction

def exponentChars : Option Exponent → List Char
  | none => []
  | some e => e.chars

def Number.chars (n : Number) : List Char :=
  (if n.negative then ['-'] else []) ++
    (digitChars n.whole ++ (fractionChars n.fraction ++ exponentChars n.exponent))

/-- The number that is denoted: a whole number if there is neither a fraction nor an exponent. -/
def Number.value (n : Number) : Json :=
  if n.fraction = [] ∧ n.exponent = none then
    .int (if n.negative then -(decimal n.whole : Int) else decimal n.whole)
  else
    .float (.ofDecimal n.negative (decimal (n.whole ++ n.fraction))
      ((n.exponent.map Exponent.value).getD 0 - n.fraction.length))

/-! ## Values -/

/-- The name of a field with the colon behind it. -/
structure Key where
  pieces : List Piece
  after : Space
  before : Space

def Key.chars (k : Key) : List Char := stringChars k.pieces ++ (k.after.1 ++ ':' :: k.before.1)

mutual

/-- A value. -/
inductive Value where
  | null
  | bool (b : Bool)
  | number (n : Number)
  | string (ps : List Piece)
  | emptyArray (inside : Space)
  | array (before : Space) (items : Items)
  | emptyObject (inside : Space)
  | object (before : Space) (fields : Fields)

/-- The items of an array, at least one, up to the closing bracket. -/
inductive Items where
  | last (v : Value) (after : Space)
  | next (v : Value) (after before : Space) (rest : Items)

/-- The fields of an object, at least one, up to the closing brace. -/
inductive Fields where
  | last (k : Key) (v : Value) (after : Space)
  | next (k : Key) (v : Value) (after before : Space) (rest : Fields)

end

mutual

/-- The text of a value. -/
def Value.chars : Value → List Char
  | .null => "null".toList
  | .bool true => "true".toList
  | .bool false => "false".toList
  | .number n => n.chars
  | .string ps => stringChars ps
  | .emptyArray inside => '[' :: (inside.1 ++ [']'])
  | .array before items => '[' :: (before.1 ++ items.chars)
  | .emptyObject inside => '\x7b' :: (inside.1 ++ ['\x7d'])
  | .object before fields => '\x7b' :: (before.1 ++ fields.chars)

/-- The text of the items and the closing bracket. -/
def Items.chars : Items → List Char
  | .last v after => v.chars ++ (after.1 ++ [']'])
  | .next v after before rest => v.chars ++ (after.1 ++ ',' :: (before.1 ++ rest.chars))

/-- The text of the fields and the closing brace. -/
def Fields.chars : Fields → List Char
  | .last k v after => k.chars ++ (v.chars ++ (after.1 ++ ['\x7d']))
  | .next k v after before rest =>
    k.chars ++ (v.chars ++ (after.1 ++ ',' :: (before.1 ++ rest.chars)))

end

mutual

/-- The value that is denoted; a name that is given again takes its last value. -/
def Value.value : Value → Json
  | .null => .null
  | .bool b => .bool b
  | .number n => n.value
  | .string ps => .str (meaning ps)
  | .emptyArray _ => .arr []
  | .array _ items => .arr items.values
  | .emptyObject _ => .obj []
  | .object _ fields => .obj (Assoc.ofList fields.values)

def Items.values : Items → List Json
  | .last v _ => [v.value]
  | .next v _ _ rest => v.value :: rest.values

def Fields.values : Fields → List (Text × Json)
  | .last k v _ => [(meaning k.pieces, v.value)]
  | .next k v _ _ rest => (meaning k.pieces, v.value) :: rest.values

end

mutual

/-- The greatest number of arrays and objects that stand in each other. -/
def Value.nesting : Value → Nat
  | .emptyArray _ | .emptyObject _ => 1
  | .array _ items => items.nesting + 1
  | .object _ fields => fields.nesting + 1
  | _ => 0

def Items.nesting : Items → Nat
  | .last v _ => v.nesting
  | .next v _ _ rest => max v.nesting rest.nesting

def Fields.nesting : Fields → Nat
  | .last _ v _ => v.nesting
  | .next _ v _ _ rest => max v.nesting rest.nesting

end

/-- A whole text. -/
structure Document where
  before : Space
  root : Value
  after : Space

namespace Document

def chars (t : Document) : List Char := t.before.1 ++ (t.root.chars ++ t.after.1)

def value (t : Document) : Json := t.root.value

def nesting (t : Document) : Nat := t.root.nesting

end Document

/-- A value without white space around it. -/
def Value.document (v : Value) : Document := ⟨noSpace, v, noSpace⟩

theorem Value.chars_document (v : Value) : v.document.chars = v.chars := by
  simp [document, Document.chars, noSpace]

/-! ### Brackets in brackets -/

/-- Empty brackets in `n` pairs of brackets. -/
def nestedArrays : Nat → Value
  | 0 => .emptyArray noSpace
  | n + 1 => .array noSpace (.last (nestedArrays n) noSpace)

theorem nesting_nestedArrays (n : Nat) : (nestedArrays n).nesting = n + 1 := by
  induction n with
  | zero => rfl
  | succ n ih => rw [nestedArrays, Value.nesting, Items.nesting, ih]

theorem chars_nestedArrays (n : Nat) :
    (nestedArrays n).chars = List.replicate (n + 1) '[' ++ List.replicate (n + 1) ']' := by
  induction n with
  | zero => rfl
  | succ n ih =>
      rw [nestedArrays, Value.chars, Items.chars, ih, List.replicate_succ (n := n + 1),
        List.replicate_succ' (n := n + 1)]
      simp [noSpace]

/-! ## The ends of a text -/

/-- The characters that a value starts with. -/
def isFirst (c : Char) : Bool :=
  c.isDigit || c = '-' || c = 'n' || c = 't' || c = 'f' || c = '"' || c = '[' || c = '\x7b'

/-- The characters that a value ends with. -/
def isLast (c : Char) : Bool :=
  c.isDigit || c = 'l' || c = 'e' || c = '"' || c = ']' || c = '\x7d'

theorem isDigit_digitChar (d : Fin 10) : (Nat.digitChar d).isDigit = true := by
  revert d
  decide

/-- A number starts with a digit, or with a sign and a digit. -/
theorem Number.exists_cons (n : Number) :
    ∃ c cs, n.chars = c :: cs ∧
      (c.isDigit = true ∨ c = '-' ∧ ∃ d ds, cs = d :: ds ∧ d.isDigit = true) := by
  obtain ⟨d, ds, hwhole⟩ := List.exists_cons_of_ne_nil n.whole_ne_nil
  rw [chars, hwhole]
  cases n.negative with
  | true => exact ⟨'-', _, rfl, .inr ⟨rfl, Nat.digitChar d, _, rfl, isDigit_digitChar d⟩⟩
  | false => exact ⟨Nat.digitChar d, _, rfl, .inl (isDigit_digitChar d)⟩

theorem Value.exists_cons (v : Value) : ∃ c cs, v.chars = c :: cs ∧ isFirst c = true := by
  cases v with
  | null => exact ⟨'n', _, rfl, rfl⟩
  | bool b =>
      cases b with
      | true => exact ⟨'t', _, rfl, rfl⟩
      | false => exact ⟨'f', _, rfl, rfl⟩
  | number n =>
      obtain ⟨c, cs, hchars, hc⟩ := n.exists_cons
      refine ⟨c, cs, hchars, ?_⟩
      rcases hc with hdigit | ⟨rfl, -⟩
      · simp [isFirst, hdigit]
      · rfl
  | string ps => exact ⟨'"', _, rfl, rfl⟩
  | emptyArray s => exact ⟨'[', _, rfl, rfl⟩
  | array s items => exact ⟨'[', _, rfl, rfl⟩
  | emptyObject s => exact ⟨'\x7b', _, rfl, rfl⟩
  | object s fields => exact ⟨'\x7b', _, rfl, rfl⟩

theorem Items.exists_cons (items : Items) :
    ∃ c cs, items.chars = c :: cs ∧ isFirst c = true := by
  cases items with
  | last v after =>
      obtain ⟨c, cs, hchars, hc⟩ := v.exists_cons
      exact ⟨c, _, by rw [Items.chars, hchars]; rfl, hc⟩
  | next v after before items =>
      obtain ⟨c, cs, hchars, hc⟩ := v.exists_cons
      exact ⟨c, _, by rw [Items.chars, hchars]; rfl, hc⟩

theorem Fields.exists_cons (fields : Fields) : ∃ cs, fields.chars = '"' :: cs := by
  cases fields with
  | last k v after => exact ⟨_, by rw [Fields.chars, Key.chars, stringChars]; rfl⟩
  | next k v after before fields =>
      exact ⟨_, by rw [Fields.chars, Key.chars, stringChars]; rfl⟩

theorem eq_of_isSpace {c : Char} (h : isSpace c = true) :
    c = ' ' ∨ c = '\t' ∨ c = '\n' ∨ c = '\r' := by
  simpa [isSpace, or_assoc] using h

theorem isSpace_eq_false_of_isFirst {c : Char} (h : isFirst c = true) : isSpace c = false := by
  refine Bool.eq_false_of_not_eq_true fun hspace => ?_
  rcases eq_of_isSpace hspace with rfl | rfl | rfl | rfl <;> exact absurd h (by decide)

theorem exists_getLast?_digitChars {ds : List (Fin 10)} (h : ds ≠ []) :
    ∃ c, (digitChars ds).getLast? = some c ∧ c.isDigit = true := by
  refine ⟨Nat.digitChar (ds.getLast h).val, ?_, isDigit_digitChar _⟩
  rw [digitChars, List.getLast?_map, List.getLast?_eq_some_getLast h]
  rfl

theorem Number.exists_getLast? (n : Number) :
    ∃ c, n.chars.getLast? = some c ∧ c.isDigit = true := by
  obtain ⟨w, hw, hwdigit⟩ := exists_getLast?_digitChars n.whole_ne_nil
  rw [chars, List.getLast?_append, List.getLast?_append, List.getLast?_append, hw]
  cases hexponent : n.exponent with
  | some e =>
      obtain ⟨c, hc, hdigit⟩ := exists_getLast?_digitChars e.digits_ne_nil
      exact ⟨c, by simp [exponentChars, Exponent.chars, List.getLast?_cons, hc], hdigit⟩
  | none =>
      -- The last digit is that of the last part that is there.
      by_cases hfraction : n.fraction = []
      · exact ⟨w, by simp [exponentChars, fractionChars, hfraction], hwdigit⟩
      · obtain ⟨c, hc, hdigit⟩ := exists_getLast?_digitChars hfraction
        refine ⟨c, ?_, hdigit⟩
        simp [exponentChars, fractionChars, hfraction, List.getLast?_cons, hc]

theorem Items.getLast?_chars : (items : Items) → items.chars.getLast? = some ']'
  | .last v after => by simp [Items.chars]
  | .next v after before rest => by
      simp [Items.chars, List.getLast?_cons, rest.getLast?_chars]

theorem Fields.getLast?_chars : (fields : Fields) → fields.chars.getLast? = some '\x7d'
  | .last k v after => by simp [Fields.chars]
  | .next k v after before rest => by
      simp [Fields.chars, List.getLast?_cons, rest.getLast?_chars]

theorem Value.exists_getLast? (v : Value) :
    ∃ c, v.chars.getLast? = some c ∧ isLast c = true := by
  cases v with
  | null => exact ⟨'l', rfl, rfl⟩
  | bool b => cases b <;> exact ⟨'e', rfl, rfl⟩
  | number n =>
      obtain ⟨c, hchars, hc⟩ := n.exists_getLast?
      exact ⟨c, hchars, by simp [isLast, hc]⟩
  | string ps => exact ⟨'"', by simp [chars, stringChars, List.getLast?_cons], rfl⟩
  | emptyArray s => exact ⟨']', by simp [chars, List.getLast?_cons], rfl⟩
  | array s items => exact ⟨']', by simp [chars, List.getLast?_cons, items.getLast?_chars], rfl⟩
  | emptyObject s => exact ⟨'\x7d', by simp [chars, List.getLast?_cons], rfl⟩
  | object s fields =>
      exact ⟨'\x7d', by simp [chars, List.getLast?_cons, fields.getLast?_chars], rfl⟩

/-! ## Lengths -/

/-- A string has no more elements than characters. -/
theorem length_le_flatMap_chars (ps : List Piece) :
    ps.length ≤ (ps.flatMap Piece.chars).length := by
  induction ps with
  | nil => exact le_rfl
  | cons p ps ih =>
      have hp : 1 ≤ p.chars.length := by cases p <;> simp [Piece.chars]
      rw [List.flatMap_cons, List.length_append, List.length_cons]
      omega

theorem Key.length_lt_chars (k : Key) : k.pieces.length < k.chars.length := by
  have hlength := length_le_flatMap_chars k.pieces
  simp only [Key.chars, stringChars, List.length_append, List.length_cons]
  omega

end Injection.Json.Syntax
