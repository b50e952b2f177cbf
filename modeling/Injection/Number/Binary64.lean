/-! # Binary floating-point numbers

A number of the 64-bit binary format, kept exactly as a natural mantissa times a power of two.
Reading a decimal gives the nearest such number, a tie going to the even mantissa; what is too large
becomes infinite and what is too small becomes zero.  All arithmetic is on natural numbers.

A finite number is in normal form when its mantissa has 53 bits or its exponent is the least one;
`Binary64.ofRatio` gives numbers in normal form only.

The numbers are those of the literals that `DependencyParser._parse_at` reads, and of
`max_file_size_mb`.
-/

namespace Injection

/-- The natural number that decimal digits stand for. -/
def natOfDigits (ds : List Char) : Nat := ds.foldl (fun n d => n * 10 + (d.toNat - 48)) 0

/-- A 64-bit binary number: `± mantissa * 2 ^ exponent`, an infinity, or not a number. -/
inductive Binary64 where
  | finite (negative : Bool) (mantissa : Nat) (exponent : Int)
  | infinite (negative : Bool)
  | nan
deriving DecidableEq, Repr

namespace Binary64

/-- The least exponent of a finite number. -/
def minExponent : Int := -1074

/-- The greatest exponent of a finite number. -/
def maxExponent : Int := 971

/-- The quotient of two naturals, rounded to the nearest natural, a tie to the even one. -/
def divEven (n d : Nat) : Nat :=
  let q := n / d
  let r := n % d
  if 2 * r < d then q
  else if d < 2 * r then q + 1
  else if q % 2 = 0 then q else q + 1

/-- `n / d` scaled by `2 ^ (-e)`, as a fraction. -/
def scale (n d : Nat) (e : Int) : Nat × Nat :=
  if 0 ≤ e then (n, d * Nat.pow 2 e.toNat) else (n * Nat.pow 2 (-e).toNat, d)

/-- The exponent at which `n / d` has a mantissa of 53 bits, or the least one. -/
def exponentFor (n d : Nat) : Int :=
  let e : Int := (n.log2 : Int) - (d.log2 : Int) - 52
  let (a, b) := scale n d e
  let e := if a / b < Nat.pow 2 52 then e - 1 else e
  max e minExponent

/-- The number nearest to the fraction `n / d`. -/
def ofRatio (negative : Bool) (n d : Nat) : Binary64 :=
  if n = 0 then .finite negative 0 minExponent
  else
    let e := exponentFor n d
    let (a, b) := scale n d e
    let m := divEven a b
    let (m, e) := if m = Nat.pow 2 53 then (Nat.pow 2 52, e + 1) else (m, e)
    if maxExponent < e then .infinite negative else .finite negative m e

/-- The number of decimal digits of a natural. -/
def digitCount (n : Nat) : Nat := (Nat.toDigits 10 n).length

/-- The number nearest to `digits * 10 ^ exponent`.  Exponents far outside the range are decided by
the size of the decimal alone. -/
def ofDecimal (negative : Bool) (digits : Nat) (exponent : Int) : Binary64 :=
  let size := (digitCount digits : Int) + exponent
  if digits = 0 || size < -400 then .finite negative 0 minExponent
  else if 400 < size then .infinite negative
  else if 0 ≤ exponent then ofRatio negative (digits * Nat.pow 10 exponent.toNat) 1
  else ofRatio negative digits (Nat.pow 10 (-exponent).toNat)

/-- The number nearest to an integer, if it is in range. -/
def ofInt? (n : Int) : Option Binary64 :=
  match ofRatio (n < 0) n.natAbs 1 with
  | .infinite _ => none
  | x => some x

/-- Whether the number is zero, of either sign. -/
def isZero : Binary64 → Bool
  | .finite _ m _ => m = 0
  | _ => false

/-- Whether the fraction `n / d` is greater than the number; nothing is greater than `nan`. -/
def ltRatio (x : Binary64) (n d : Nat) : Bool :=
  match x with
  | .nan => false
  | .infinite negative => negative
  | .finite negative m e =>
    if m = 0 then 0 < n
    else if negative then true
    else
      let (a, b) := scale n d e
      m * b < a

end Binary64

end Injection
