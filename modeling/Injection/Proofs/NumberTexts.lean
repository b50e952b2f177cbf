import Injection.Proofs.JsonWriting

/-!
# Written binary numbers

The written form of a finite binary number is a number of the format.

* `Interval.denominator_le_onGrid`: on a grid of at least one digit, the number is not less than
  one, so that no digit of its decimal is lost (`shortest_digits_pos`).
* **`exists_number_text`**: the digits in their layout are a number with a fraction or an exponent,
  and without zeros in front.
-/

namespace Injection

namespace Binary64

/-! ## The digits are not zero -/

theorem lt_pow_digitCount (n : Nat) : n < 10 ^ digitCount n :=
  (Nat.length_toDigits_le_iff (by decide) (List.length_pos_iff.2 Nat.toDigits_ne_nil)).1 le_rfl

theorem pow_le_of_lt_digitCount {n k : Nat} (hn : 0 < n) (hk : k < digitCount n) : 10 ^ k ≤ n := by
  rcases Nat.eq_zero_or_pos k with rfl | hpos
  · exact (Nat.pow_zero 10).trans_le hn
  · refine Nat.le_of_not_lt fun hlt => ?_
    exact absurd ((Nat.length_toDigits_le_iff (by decide) hpos).2 hlt) (Nat.not_le.2 hk)

namespace Interval

variable {i : Interval} (hvalue : 0 < i.value) (hdenominator : 0 < i.denominator)
include hvalue hdenominator

/-- On a grid of at least one digit the number is not less than one. -/
theorem denominator_le_onGrid {s : Int} (hs : s < i.point) :
    0 < (i.onGrid s).denominator ∧ (i.onGrid s).denominator ≤ (i.onGrid s).value := by
  rw [point] at hs
  rw [onGrid]
  split at hs
  · next hle =>
      have hquotient := Nat.div_pos hle hdenominator
      split
      · next hpos =>
          have hpow := pow_le_of_lt_digitCount hquotient (k := s.toNat) (by omega)
          refine ⟨Nat.mul_pos hdenominator (Nat.pow_pos (by decide)), ?_⟩
          calc i.denominator * 10 ^ s.toNat
              ≤ i.denominator * (i.value / i.denominator) := Nat.mul_le_mul_left _ hpow
            _ ≤ i.value := Nat.mul_div_le _ _
      · exact ⟨hdenominator, hle.trans (Nat.le_mul_of_pos_right _ (Nat.pow_pos (by decide)))⟩
  · -- The number is less than one, and the grid begins with its first digit.
    have hcount : 0 < digitCount (i.denominator / i.value) :=
      List.length_pos_iff.2 Nat.toDigits_ne_nil
    rw [if_neg (by omega)]
    refine ⟨hdenominator, ?_⟩
    calc i.denominator
        ≤ i.value * (i.denominator / i.value + 1) := (Nat.lt_mul_div_succ _ hvalue).le
      _ ≤ i.value * 10 ^ digitCount (i.denominator / i.value) :=
          Nat.mul_le_mul_left _ (lt_pow_digitCount _)
      _ ≤ i.value * 10 ^ (-s).toNat :=
          Nat.mul_le_mul_left _ (Nat.pow_le_pow_right (by decide) (by omega))

end Interval

theorem Interval.nearest?_pos {i : Interval} (hdenominator : 0 < i.denominator)
    (hle : i.denominator ≤ i.value) {c : Nat} (h : i.nearest? = some c) : 0 < c := by
  have hquotient := Nat.div_pos hle hdenominator
  unfold nearest? at h
  dsimp only at h
  split_ifs at h
  · cases h
    exact hquotient
  repeat' split at h
  all_goals
    cases h
    try omega

theorem Interval.search_pos {i : Interval} (hvalue : 0 < i.value)
    (hdenominator : 0 < i.denominator) {fuel k : Nat} (hk : 0 < k) :
    0 < (i.search i.point fuel k).digits := by
  induction fuel generalizing k with
  | zero =>
      obtain ⟨hpos, hle⟩ := denominator_le_onGrid hvalue hdenominator (s := i.point - k) (by omega)
      exact Nat.div_pos hle hpos
  | succ fuel ih =>
      obtain ⟨hpos, hle⟩ := denominator_le_onGrid hvalue hdenominator (s := i.point - k) (by omega)
      rw [search]
      split
      · next hnearest => exact nearest?_pos hpos hle hnearest
      · exact ih (Nat.succ_pos k)

theorem digits_strip_pos {fuel : Nat} {d : Decimal} (h : 0 < d.digits) :
    0 < (d.strip fuel).digits := by
  induction fuel generalizing d with
  | zero => exact h
  | succ fuel ih =>
      rw [Decimal.strip]
      split
      · refine ih ?_
        dsimp only
        omega
      · exact h

theorem shortest_digits_pos {m : Nat} (hm : m ≠ 0) (e : Int) : 0 < (shortest m e).digits := by
  have hpow : ∀ n, 0 < Nat.pow 2 n := fun n => Nat.pow_pos (by decide)
  have hvalue : 0 < (interval m e).value := by
    refine Nat.mul_pos (by omega) ?_
    split
    · exact hpow _
    · exact Nat.one_pos
  have hdenominator : 0 < (interval m e).denominator := by
    show 0 < if 0 ≤ e - 2 then 1 else Nat.pow 2 (2 - e).toNat
    split
    · exact Nat.one_pos
    · exact hpow _
  rw [shortest, if_neg hm]
  exact digits_strip_pos (Interval.search_pos hvalue hdenominator Nat.one_pos)

end Binary64

/-! ## The layout of the digits -/

namespace Json.Syntax

def signChars (negative : Bool) : List Char := if negative then ['-'] else []

theorem exists_number_of_fraction (negative : Bool) (whole fraction : List (Fin 10))
    (e : Option Exponent) (hwhole : whole ≠ [])
    (hlead : 1 < whole.length → whole.head?.map Fin.val ≠ some 0) (hfraction : fraction ≠ []) :
    ∃ k : Number, k.chars = signChars negative ++
      (digitChars whole ++ '.' :: (digitChars fraction ++ exponentChars e)) := by
  refine ⟨⟨negative, whole, fraction, e, hwhole, hlead, fun h => absurd h hfraction⟩, ?_⟩
  simp [Number.chars, signChars, fractionChars, hfraction]

theorem digitChars_append (a b : List (Fin 10)) :
    digitChars (a ++ b) = digitChars a ++ digitChars b := List.map_append

theorem digitChars_replicate (k : Nat) :
    digitChars (List.replicate k 0) = List.replicate k '0' := List.map_replicate

/-- The exponent of a layout: a sign and at least two digits. -/
theorem exists_exponent_layout (n : Int) :
    ∃ e : Exponent, e.chars = 'e' :: (if n < 0 then '-' else '+') ::
      (if (Nat.toDigits 10 n.natAbs).length < 2 then '0' :: Nat.toDigits 10 n.natAbs
        else Nat.toDigits 10 n.natAbs) := by
  obtain ⟨es, hes, -⟩ := exists_digits n.natAbs
  have hne := ne_nil_of_digitChars hes
  have hsign : ∀ ds : List (Fin 10), (hds : ds ≠ []) →
      (Exponent.mk false (some (decide (n < 0))) ds hds).chars =
        'e' :: (if n < 0 then '-' else '+') :: digitChars ds := by
    intro ds hds
    by_cases hn : n < 0 <;> simp [Exponent.chars, hn]
  by_cases hshort : (Nat.toDigits 10 n.natAbs).length < 2
  · refine ⟨⟨false, some (decide (n < 0)), 0 :: es, List.cons_ne_nil _ _⟩, ?_⟩
    rw [hsign, if_pos hshort, ← hes]
    rfl
  · refine ⟨⟨false, some (decide (n < 0)), es, hne⟩, ?_⟩
    rw [hsign, if_neg hshort, hes]

/-- Digits in their layout are a number of the format.  Those of a positive number have no zero in
front; a zero has its point right behind it. -/
theorem exists_number_layout (negative : Bool) {n : Nat} {point : Int}
    (h : 0 < n ∨ n = 0 ∧ point = 1) :
    ∃ k : Number, k.chars = signChars negative ++ Binary64.layout (Nat.toDigits 10 n) point := by
  obtain ⟨ds, hds, -, hhead⟩ := exists_digits n
  have hne := ne_nil_of_digitChars hds
  have hlength : (Nat.toDigits 10 n).length = ds.length := by
    rw [← hds, digitChars, List.length_map]
  have hzero : n = 0 → ds.length = 1 := by
    rintro rfl
    rw [← hlength]
    rfl
  by_cases hpositional : -4 < point ∧ point ≤ 16
  · by_cases hsmall : point ≤ 0
    · obtain ⟨k, hk⟩ := exists_number_of_fraction negative [0]
        (List.replicate (-point).toNat 0 ++ ds) none (List.cons_ne_nil _ _)
        (fun hlong => absurd hlong (by decide)) (List.append_ne_nil_of_right_ne_nil _ hne)
      refine ⟨k, ?_⟩
      rw [hk, Binary64.layout, if_pos hpositional, if_pos hsmall, digitChars_append,
        digitChars_replicate, hds]
      simp [exponentChars, digitChars]
    by_cases hshort : ds.length ≤ point.toNat
    · have hlead : 1 < (ds ++ List.replicate (point.toNat - ds.length) 0).length →
          (ds ++ List.replicate (point.toNat - ds.length) 0).head?.map Fin.val ≠ some 0 := by
        intro hlong
        rw [List.head?_append_of_ne_nil _ hne]
        refine hhead (Nat.pos_of_ne_zero fun hn => ?_)
        have hone := hzero hn
        have hpoint : point = 1 := by omega
        rw [hpoint, List.length_append, List.length_replicate] at hlong
        omega
      obtain ⟨k, hk⟩ := exists_number_of_fraction negative
        (ds ++ List.replicate (point.toNat - ds.length) 0) [0] none
        (List.append_ne_nil_of_left_ne_nil hne _) hlead (List.cons_ne_nil _ _)
      refine ⟨k, ?_⟩
      rw [hk, Binary64.layout, if_pos hpositional, if_neg hsmall,
        if_pos (hlength.trans_le hshort), digitChars_append, digitChars_replicate, hds, hlength]
      simp [exponentChars, digitChars]
    · have hn : 0 < n := by omega
      have hlead : (ds.take point.toNat).head?.map Fin.val ≠ some 0 := by
        rw [List.head?_take, if_neg (by omega)]
        exact hhead hn
      obtain ⟨k, hk⟩ := exists_number_of_fraction negative (ds.take point.toNat)
        (ds.drop point.toNat) none (by simp [hne]; omega) (fun _ => hlead) (by simp; omega)
      refine ⟨k, ?_⟩
      rw [hk, Binary64.layout, if_pos hpositional, if_neg hsmall, if_neg (hlength ▸ hshort), ← hds]
      simp [exponentChars, digitChars, List.map_take, List.map_drop]
  · obtain ⟨e, he⟩ := exists_exponent_layout (point - 1)
    obtain ⟨d, rest, rfl⟩ := List.exists_cons_of_ne_nil hne
    rw [Binary64.layout, if_neg hpositional, ← hds]
    cases rest with
    | nil =>
        refine ⟨⟨negative, [d], [], some e, List.cons_ne_nil _ _,
          fun hlong => absurd hlong (Nat.lt_irrefl 1),
          fun _ hnone => absurd hnone (Option.some_ne_none e)⟩, ?_⟩
        simp [Number.chars, signChars, fractionChars, exponentChars, digitChars, he]
    | cons d' rest =>
        obtain ⟨k, hk⟩ := exists_number_of_fraction negative [d] (d' :: rest) (some e)
          (List.cons_ne_nil _ _) (fun hlong => absurd hlong (Nat.lt_irrefl 1))
          (List.cons_ne_nil _ _)
        refine ⟨k, ?_⟩
        rw [hk, exponentChars, he]
        simp [digitChars]

/-- **The written form of a finite number is a number of the format.** -/
theorem exists_number_text (negative : Bool) (m : Nat) (e : Int) :
    ∃ k : Number, k.chars = (floatText (.finite negative m e)).toList := by
  obtain ⟨k, hk⟩ : ∃ k : Number, k.chars = signChars negative ++
      Binary64.layout (Nat.toDigits 10 (Binary64.shortest m e).digits)
        (if m = 0 then 1 else (Nat.toDigits 10 (Binary64.shortest m e).digits).length +
          (Binary64.shortest m e).exponent) := by
    refine exists_number_layout negative ?_
    by_cases hm : m = 0
    · exact .inr ⟨by rw [hm]; rfl, if_pos hm⟩
    · exact .inl (Binary64.shortest_digits_pos hm e)
  refine ⟨k, ?_⟩
  rw [hk, floatText, Binary64.text, String.toList_ofList]
  · cases negative <;> rfl
  · simp
  · simp

end Json.Syntax

end Injection
