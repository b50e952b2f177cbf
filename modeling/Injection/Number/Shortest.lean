import Injection.Number.Binary64

/-! # Shortest decimals

The decimal with the fewest digits that reads back as a given binary number, and of several such
decimals the nearest one.  A decimal reads back exactly when it lies in the rounding interval of the
number, whose ends belong to it when the mantissa is even.  For one digit, two digits, and so on,
only the two neighbours of the number on the grid of that many digits can be the nearest point of
the grid, so only those are tried.

The written form uses these digits: positional notation while the decimal point stands from three
places before the first digit to sixteen places behind it, and an exponent of at least two digits
elsewhere.

This is how `MetadataInjector.statements` writes numbers.
-/

namespace Injection

/-- A decimal `digits * 10 ^ exponent`. -/
structure Decimal where
  digits : Nat
  exponent : Int
deriving DecidableEq, Repr

namespace Decimal

/-- Drop zeros at the end of the digits, at most `fuel` of them. -/
def strip : Nat → Decimal → Decimal
  | 0, d => d
  | fuel + 1, d =>
    if d.digits ≠ 0 ∧ d.digits % 10 = 0 then strip fuel ⟨d.digits / 10, d.exponent + 1⟩ else d

end Decimal

namespace Binary64

/-- A positive number and its rounding interval over one denominator. -/
structure Interval where
  low : Nat
  value : Nat
  high : Nat
  denominator : Nat
  closed : Bool
deriving DecidableEq, Repr

/-- The rounding interval of `m * 2 ^ e`: halfway to each neighbour.  Below a power of two the
neighbours are twice as close. -/
def interval (m : Nat) (e : Int) : Interval :=
  let below := if m = Nat.pow 2 52 ∧ minExponent < e then 1 else 2
  let unit : Nat := if 0 ≤ e - 2 then Nat.pow 2 (e - 2).toNat else 1
  let denominator : Nat := if 0 ≤ e - 2 then 1 else Nat.pow 2 (2 - e).toNat
  ⟨(4 * m - below) * unit, 4 * m * unit, (4 * m + 2) * unit, denominator, m % 2 = 0⟩

namespace Interval

/-- Where the decimal point stands: `10 ^ (p - 1) ≤ value < 10 ^ p`. -/
def point (i : Interval) : Int :=
  if i.denominator ≤ i.value then (digitCount (i.value / i.denominator) : Int)
  else 1 - (digitCount (i.denominator / i.value) : Int)

/-- Multiply a numerator by `10 ^ (-s)`, the denominator taking the negative powers. -/
def onGrid (i : Interval) (s : Int) : Interval :=
  if 0 ≤ s then { i with denominator := i.denominator * Nat.pow 10 s.toNat }
  else
    let f := Nat.pow 10 (-s).toNat
    { i with low := i.low * f, value := i.value * f, high := i.high * f }

/-- Whether the whole number `c` lies in the interval. -/
def holds (i : Interval) (c : Nat) : Bool :=
  let x := c * i.denominator
  if i.closed then i.low ≤ x && x ≤ i.high else i.low < x && x < i.high

/-- The nearer of the two whole numbers around the value that lie in the interval, if any does; a
tie goes to the even one. -/
def nearest? (i : Interval) : Option Nat :=
  let a := i.value / i.denominator
  let r := i.value % i.denominator
  if r = 0 then some a
  else
    match i.holds a, i.holds (a + 1) with
    | true, true =>
      if 2 * r < i.denominator then some a
      else if i.denominator < 2 * r then some (a + 1)
      else if a % 2 = 0 then some a else some (a + 1)
    | true, false => some a
    | false, true => some (a + 1)
    | false, false => none

/-- The first grid with a hit, from `k` digits on. -/
def search (i : Interval) (p : Int) : Nat → Nat → Decimal
  | 0, k => ⟨(i.onGrid (p - k)).value / (i.onGrid (p - k)).denominator, p - k⟩
  | fuel + 1, k =>
    match (i.onGrid (p - k)).nearest? with
    | some c => ⟨c, p - k⟩
    | none => search i p fuel (k + 1)

end Interval

/-- The shortest decimal of `m * 2 ^ e`; seventeen digits always suffice. -/
def shortest (m : Nat) (e : Int) : Decimal :=
  if m = 0 then ⟨0, 0⟩
  else
    let i := interval m e
    (i.search i.point 17 1).strip 17

/-- How a finite number is written from its digits and the place of the decimal point. -/
def layout (ds : List Char) (point : Int) : List Char :=
  if -4 < point ∧ point ≤ 16 then
    if point ≤ 0 then '0' :: '.' :: List.replicate (-point).toNat '0' ++ ds
    else if ds.length ≤ point.toNat then
      ds ++ List.replicate (point.toNat - ds.length) '0' ++ ['.', '0']
    else ds.take point.toNat ++ '.' :: ds.drop point.toNat
  else
    let exponent := point - 1
    let mark := if exponent < 0 then '-' else '+'
    let digits := Nat.toDigits 10 exponent.natAbs
    let digits := if digits.length < 2 then '0' :: digits else digits
    match ds with
    | [d] => d :: 'e' :: mark :: digits
    | d :: rest => d :: '.' :: rest ++ 'e' :: mark :: digits
    | [] => []

/-- The shortest written form. -/
def text : Binary64 → String
  | .nan => "nan"
  | .infinite negative => if negative then "-inf" else "inf"
  | .finite negative m e =>
    let d := shortest m e
    let ds := Nat.toDigits 10 d.digits
    let point : Int := if m = 0 then 1 else ds.length + d.exponent
    let body := layout ds point
    String.ofList (if negative then '-' :: body else body)

end Binary64

end Injection
