import Injection.Json.Basic
import Injection.Number.Shortest

/-! # Writing JSON

One line of text: a comma or colon is followed by one space.  In strings the quote, the backslash
and the controls below the space are escaped; with `Escaping.ascii` so is everything beyond the
visible ASCII characters, a character outside the basic plane as a surrogate pair.

Binary numbers are written by their shortest decimal.  The infinities have no form of their own in
the format; they are written by name.

This is how `MetadataInjector.statements` writes values: with `Escaping.ascii` for `injectAs` and
without for `injectParams`.
-/

namespace Injection.Json

/-- Which characters of a string are escaped. -/
inductive Escaping where
  | raw
  | ascii
deriving DecidableEq, Repr

/-- The escape of a number below `0x10000`. -/
def unitEscape (n : Nat) : List Char := '\\' :: 'u' :: Text.hex 4 n

/-- The escape of any code point: beyond the basic plane two units. -/
def pointEscape (n : Nat) : List Char :=
  if n < 0x10000 then unitEscape n
  else
    let m := n - 0x10000
    unitEscape (0xD800 + m / 0x400) ++ unitEscape (0xDC00 + m % 0x400)

/-- One code point of a string. -/
def printPoint (style : Escaping) (p : CodePoint) : Text :=
  if p = .char '"' then Text.ofChars ['\\', '"']
  else if p = .char '\\' then Text.ofChars ['\\', '\\']
  else if p = .char '\n' then Text.ofChars ['\\', 'n']
  else if p = .char '\r' then Text.ofChars ['\\', 'r']
  else if p = .char '\t' then Text.ofChars ['\\', 't']
  else if p.value = 8 then Text.ofChars ['\\', 'b']
  else if p.value = 12 then Text.ofChars ['\\', 'f']
  else if p.value < 0x20 then Text.ofChars (unitEscape p.value)
  else if style = .ascii && 0x7F ≤ p.value then Text.ofChars (pointEscape p.value)
  else [p]

/-- A string with its quotes. -/
def printString (style : Escaping) (s : Text) : Text :=
  .char '"' :: s.flatMap (printPoint style) ++ [.char '"']

/-- The written form of a binary number. -/
def floatText : Binary64 → String
  | .nan => "NaN"
  | .infinite negative => if negative then "-Infinity" else "Infinity"
  | x => x.text

mutual

/-- The written form of a value. -/
def print (style : Escaping) : Json → Text
  | .null => Text.ofString "null"
  | .bool b => Text.ofString (if b then "true" else "false")
  | .int n => Text.ofString (toString n)
  | .float x => Text.ofString (floatText x)
  | .str s => printString style s
  | .arr items => .char '[' :: printItems style items
  | .obj fields => .char '\x7b' :: printFields style fields

/-- The items of an array and the closing bracket. -/
def printItems (style : Escaping) : List Json → Text
  | [] => [.char ']']
  | [v] => print style v ++ [.char ']']
  | v :: vs => print style v ++ .char ',' :: .char ' ' :: printItems style vs

/-- The fields of an object and the closing brace. -/
def printFields (style : Escaping) : List (Text × Json) → Text
  | [] => [.char '\x7d']
  | [(k, v)] => printString style k ++ .char ':' :: .char ' ' :: print style v ++ [.char '\x7d']
  | (k, v) :: fs =>
    printString style k ++ .char ':' :: .char ' ' :: print style v ++
      .char ',' :: .char ' ' :: printFields style fs

end

/-- The written form with raw characters, shown as a string. -/
def shown (v : Json) : String := (print .raw v).shown

end Injection.Json
