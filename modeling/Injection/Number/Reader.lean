import Injection.Number.Binary64
import Injection.Text.Blank

/-! # Reading binary numbers

A number in a setting may be given as a text: a sign, digits with at most one point among or around
them, and an exponent; or the name of an infinity or of no number, in any case.  White space around
it does not count.  Single underscores between other characters do not count either, but then white
space does.

This is how `TransformConfig` reads `max_file_size_mb`.
-/

namespace Injection.Binary64

/-- White space of Unicode: the blanks without the ASCII separators. -/
def isSpace (c : Char) : Bool := isBlank c && !(0x1C ≤ c.toNat && c.toNat ≤ 0x1F)

def trimSpace (cs : List Char) : List Char :=
  ((cs.dropWhile isSpace).reverse.dropWhile isSpace).reverse

def isSign (c : Char) : Bool := c = '+' || c = '-'

/-- An optional sign and what follows it. -/
def readSign : List Char → Bool × List Char
  | c :: cs => if isSign c then (c = '-', cs) else (false, c :: cs)
  | [] => (false, [])

/-- An exponent that goes up to the end. -/
def readExponent : List Char → Option Int
  | [] => some 0
  | c :: cs =>
    if c = 'e' || c = 'E' then
      let (negative, ds) := readSign cs
      if ds.isEmpty || !ds.all Char.isDigit then none
      else some (if negative then -(natOfDigits ds : Int) else natOfDigits ds)
    else none

/-- A decimal without sign. -/
def readDecimal (negative : Bool) (cs : List Char) : Option Binary64 :=
  let (whole, rest) := cs.span Char.isDigit
  let (places, rest) :=
    match rest with
    | '.' :: rest => rest.span Char.isDigit
    | _ => ([], rest)
  if whole.isEmpty && places.isEmpty then none
  else
    (readExponent rest).map fun e =>
      ofDecimal negative (natOfDigits (whole ++ places)) (e - places.length)

/-- A number that takes up the whole text. -/
def readExact (cs : List Char) : Option Binary64 :=
  let (negative, rest) := readSign cs
  match String.ofList (rest.map Char.toLower) with
  | "inf" | "infinity" => some (.infinite negative)
  | "nan" => some .nan
  | _ => readDecimal negative rest

/-- Whether two underscores stand side by side. -/
def hasDoubleUnderscore : List Char → Bool
  | a :: b :: cs => (a = '_' && b = '_') || hasDoubleUnderscore (b :: cs)
  | _ => false

/-- A text without its underscores, if they stand singly between other characters. -/
def dropUnderscores? (cs : List Char) : Option (List Char) :=
  if cs.head? = some '_' || cs.getLast? = some '_' || hasDoubleUnderscore cs then none
  else some (cs.filter (· ≠ '_'))

/-- The number that a text stands for. -/
def read? (cs : List Char) : Option Binary64 :=
  match readExact (trimSpace cs) with
  | some x => some x
  | none => (dropUnderscores? cs).bind readExact

end Injection.Binary64
