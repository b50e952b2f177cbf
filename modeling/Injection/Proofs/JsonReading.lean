import Injection.Proofs.JsonSyntax
import Mathlib.Data.List.Induction

/-!
# Reading what the format writes

The reader takes the text of every syntax tree for the value that the tree denotes, whatever comes
behind it, unless the tree is nested too deeply.

* `Ends`: what comes behind a text does not go on with it.
* `readString_pieces`, `readNumber_chars`: one lemma for each kind of leaf.
* `Reads` says what reading a tree gives at a depth: its value if that is deep enough, and else a
  complaint about the depth.  `Value.reads` proves it by induction on the tree.
* **`Document.read_chars`** and **`Document.read_chars_of_deep`**: reading a whole text.
-/

namespace Injection

/-- The text `cs` does not start with a character of the kind `p`. -/
def Ends (p : Char → Bool) (cs : List Char) : Prop := ∀ c ∈ cs.head?, p c = false

namespace Ends

variable {p : Char → Bool} {a b : List Char}

@[simp] theorem nil : Ends p [] := by
  intro c hc
  cases hc

@[simp] theorem cons_iff {c : Char} {cs : List Char} : Ends p (c :: cs) ↔ p c = false := by
  simp [Ends]

theorem takeWhile_eq_nil (h : Ends p b) : b.takeWhile p = [] := by
  cases b with
  | nil => rfl
  | cons c cs => rw [List.takeWhile_cons_of_neg (by simpa using cons_iff.1 h)]

theorem dropWhile_eq_self (h : Ends p b) : b.dropWhile p = b := by
  cases b with
  | nil => rfl
  | cons c cs => rw [List.dropWhile_cons_of_neg (by simpa using cons_iff.1 h)]

theorem of_dropWhile (p : Char → Bool) (cs : List Char) : Ends p (cs.dropWhile p) := by
  intro c hc
  have hhead := List.head?_dropWhile_not p cs
  rw [Option.mem_def.1 hc] at hhead
  simpa using hhead

theorem takeWhile_append (ha : ∀ c ∈ a, p c = true) (hb : Ends p b) :
    (a ++ b).takeWhile p = a := by
  rw [List.takeWhile_append_of_pos ha, hb.takeWhile_eq_nil, List.append_nil]

theorem dropWhile_append (ha : ∀ c ∈ a, p c = true) (hb : Ends p b) :
    (a ++ b).dropWhile p = b := by
  rw [List.dropWhile_append_of_pos ha, hb.dropWhile_eq_self]

theorem span_append (ha : ∀ c ∈ a, p c = true) (hb : Ends p b) : (a ++ b).span p = (a, b) := by
  rw [List.span_eq_takeWhile_dropWhile, takeWhile_append ha hb, dropWhile_append ha hb]

end Ends

namespace Json.Syntax

/-- White space is skipped up to what is none. -/
theorem skipSpace_append (s : Space) {b : List Char} (h : Ends isSpace b) :
    skipSpace (s.1 ++ b) = b :=
  Ends.dropWhile_append s.2 h

theorem skipSpace_cons (s : Space) {c : Char} (cs : List Char) (h : isSpace c = false) :
    skipSpace (s.1 ++ c :: cs) = c :: cs :=
  skipSpace_append s (Ends.cons_iff.2 h)

/-! ## Strings -/

theorem hexDigit?_char (d : HexDigit) : hexDigit? d.char = some d.value.val := by
  obtain ⟨value, upper⟩ := d
  revert value upper
  decide

theorem unit?_digits (a b c d : HexDigit) {cs : List Char} (h : cs ≠ []) :
    unit? (a.char :: b.char :: c.char :: d.char :: cs) = some (unitValue a b c d, cs) := by
  obtain ⟨e, es, rfl⟩ := List.exists_cons_of_ne_nil h
  simp only [unit?, hexDigit?_char, Option.pure_def, Option.bind_eq_bind, Option.bind_some,
    unitValue, Nat.ofDigits_cons, Nat.ofDigits_nil]
  congr 2
  omega

variable {opening cs rest : List Char} {fuel : Nat}

theorem readString_plain {c : Char} (h : isPlain c = true) :
    readString opening (fuel + 1) (c :: cs) =
      consPoint (.char c) (readString opening fuel cs) := by
  simp only [isPlain, ne_eq, decide_not, Bool.and_eq_true, Bool.not_eq_true',
    decide_eq_false_iff_not, decide_eq_true_eq] at h
  obtain ⟨⟨hquote, hslash⟩, hcontrol⟩ := h
  conv_lhs => unfold readString
  rw [if_neg hquote, if_neg hslash, if_neg (by omega)]

theorem readString_short (s : Short) :
    readString opening (fuel + 1) ('\\' :: s.letter :: cs) =
      consPoint (.char s.meaning) (readString opening fuel cs) := by
  cases s <;> rfl

/-- Two halves that belong together are read as one character. -/
theorem readString_pair {a b c d a' b' c' d' : HexDigit} (hcs : cs ≠ [])
    (hhigh : isHighHalf (unitValue a b c d) = true)
    (hlow : isLowHalf (unitValue a' b' c' d') = true) :
    readString opening (fuel + 1)
        ((Piece.unit a b c d).chars ++ ((Piece.unit a' b' c' d').chars ++ cs)) =
      consPoint (.char (Char.ofNat (0x10000 + (unitValue a b c d - 0xD800) * 0x400 +
        (unitValue a' b' c' d' - 0xDC00)))) (readString opening fuel cs) := by
  simp only [Piece.chars, List.cons_append, List.nil_append]
  rw [readString, if_neg (by decide), if_pos rfl]
  simp only [unit?_digits a b c d (List.cons_ne_nil _ _), unit?_digits a' b' c' d' hcs, hhigh, hlow,
    if_true]

/-- A unit is read on its own unless it is a high half with a low one behind it. -/
theorem readString_unit {a b c d : HexDigit} (hcs : cs ≠ [])
    (hnext : isHighHalf (unitValue a b c d) = true → ∀ es, cs = '\\' :: 'u' :: es →
      ∃ m behind, unit? es = some (m, behind) ∧ isLowHalf m = false) :
    readString opening (fuel + 1) ((Piece.unit a b c d).chars ++ cs) =
      consPoint (.ofNat (unitValue a b c d)) (readString opening fuel cs) := by
  simp only [Piece.chars, List.cons_append, List.nil_append]
  rw [readString, if_neg (by decide), if_pos rfl]
  simp only [unit?_digits a b c d hcs]
  by_cases hhigh : isHighHalf (unitValue a b c d) = true
  · rw [if_pos hhigh]
    split
    · rename_i es
      obtain ⟨m, behind, hm, hlow⟩ := hnext hhigh es rfl
      simp [hm, hlow]
    · rfl
  · rw [if_neg hhigh]

/-- Only a unit starts with a backslash and the letter `u`. -/
theorem ne_unit_of_pieces {ps : List Piece} (h : ∀ a b c d qs, ps ≠ .unit a b c d :: qs)
    (es : List Char) : ps.flatMap Piece.chars ++ '"' :: rest ≠ '\\' :: 'u' :: es := by
  cases ps with
  | nil => simp
  | cons p qs =>
      cases p with
      | plain c hc =>
          have hslash : c ≠ '\\' := by
            rintro rfl
            exact absurd hc (by decide)
          simp [Piece.chars, hslash]
      | short s => cases s <;> simp [Piece.chars, Short.letter]
      | unit a b c d => exact absurd rfl (h a b c d qs)

theorem readString_pieces (opening : List Char) (ps : List Piece) (rest : List Char) {fuel : Nat}
    (h : ps.length < fuel) :
    readString opening fuel (ps.flatMap Piece.chars ++ '"' :: rest) = .ok (meaning ps, rest) := by
  obtain ⟨fuel, rfl⟩ : ∃ k, fuel = k + 1 := ⟨fuel - 1, by omega⟩
  -- The recursion of `meaning` looks at two units at once, as the reader does.
  induction ps using meaning.induct generalizing fuel with
  | case1 => rfl
  | case2 c hc ps ih =>
      rw [List.length_cons] at h
      obtain ⟨fuel, rfl⟩ : ∃ k, fuel = k + 1 := ⟨fuel - 1, by omega⟩
      rw [List.flatMap_cons, List.append_assoc, Piece.chars, List.singleton_append,
        readString_plain hc, ih fuel (by omega)]
      rfl
  | case3 s ps ih =>
      rw [List.length_cons] at h
      obtain ⟨fuel, rfl⟩ : ∃ k, fuel = k + 1 := ⟨fuel - 1, by omega⟩
      rw [List.flatMap_cons, List.append_assoc, Piece.chars, List.cons_append,
        List.singleton_append, readString_short, ih fuel (by omega)]
      rfl
  | case4 a b c d a' b' c' d' ps hpair ih =>
      simp only [List.length_cons] at h
      obtain ⟨fuel, rfl⟩ : ∃ k, fuel = k + 1 := ⟨fuel - 1, by omega⟩
      obtain ⟨hhigh, hlow⟩ := Bool.and_eq_true_iff.1 hpair
      rw [List.flatMap_cons, List.flatMap_cons, List.append_assoc, List.append_assoc,
        readString_pair (by simp) hhigh hlow, ih fuel (by omega), meaning, if_pos hpair]
      rfl
  | case5 a b c d a' b' c' d' ps hpair ih =>
      simp only [List.length_cons] at h
      obtain ⟨fuel, rfl⟩ : ∃ k, fuel = k + 1 := ⟨fuel - 1, by omega⟩
      rw [List.flatMap_cons, List.append_assoc, readString_unit (by simp) ?_,
        ih fuel (by simpa using h), meaning, if_neg hpair]
      · rfl
      · -- What follows is a whole unit, so the reader's look ahead does not fail.
        intro hhigh es hes
        have hlow : isLowHalf (unitValue a' b' c' d') = false := by simpa [hhigh] using hpair
        simp only [List.flatMap_cons, Piece.chars, List.cons_append, List.nil_append,
          List.cons.injEq, true_and] at hes
        subst hes
        exact ⟨_, _, unit?_digits a' b' c' d' (by simp), hlow⟩
  | case6 a b c d ps hps ih =>
      rw [List.length_cons] at h
      obtain ⟨fuel, rfl⟩ : ∃ k, fuel = k + 1 := ⟨fuel - 1, by omega⟩
      rw [List.flatMap_cons, List.append_assoc, readString_unit (by simp) ?_, ih fuel (by omega)]
      · rw [meaning]
        · rfl
        · exact hps
      · intro hhigh es hes
        exact absurd hes (ne_unit_of_pieces hps es)

/-! ## Numbers -/

/-- Whether a number may go on with `c`. -/
def continuesNumber (c : Char) : Bool := c.isDigit || c = '.' || c = 'e' || c = 'E'

theorem isDigit_of_mem_digitChars (ds : List (Fin 10)) : ∀ c ∈ digitChars ds, c.isDigit = true := by
  intro c hc
  obtain ⟨d, -, rfl⟩ := List.mem_map.1 hc
  exact isDigit_digitChar d

theorem toNat_digitChar (d : Fin 10) : (Nat.digitChar d).toNat - 48 = d := by
  revert d
  decide

theorem natOfDigits_digitChars (ds : List (Fin 10)) : natOfDigits (digitChars ds) = decimal ds := by
  induction ds using List.reverseRecOn with
  | nil => rfl
  | append_singleton ds d ih =>
      have hstep : natOfDigits (digitChars (ds ++ [d])) = natOfDigits (digitChars ds) * 10 + d := by
        simp [natOfDigits, digitChars, toNat_digitChar]
      have hdecimal : decimal (ds ++ [d]) = d + 10 * decimal ds := by
        simp [decimal, Nat.ofDigits_cons]
      omega

theorem val_eq_zero_of_digitChar {d : Fin 10} (h : Nat.digitChar d = '0') : d.val = 0 := by
  revert d
  decide

theorem digitChar_ne_sign (d : Fin 10) : Nat.digitChar d ≠ '-' ∧ Nat.digitChar d ≠ '+' := by
  revert d
  decide

theorem wholeDigits_append (n : Number) {tail : List Char} (h : Ends Char.isDigit tail) :
    wholeDigits (digitChars n.whole ++ tail) = some (digitChars n.whole, tail) := by
  obtain ⟨d, ds, hwhole⟩ := List.exists_cons_of_ne_nil n.whole_ne_nil
  by_cases hzero : d.val = 0
  · -- A zero is read alone, and no digit follows it.
    have hone : ds = [] := by
      by_contra hds
      refine n.no_leading_zero ?_ (by simp [hwhole, hzero])
      rw [hwhole, List.length_cons]
      have hpos := List.length_pos_iff.2 hds
      omega
    have hchars : digitChars n.whole = ['0'] := by
      rw [hwhole, hone, digitChars, List.map_singleton, hzero]
      rfl
    rw [hchars]
    rfl
  · have hspan := Ends.span_append (isDigit_of_mem_digitChars n.whole) h
    rw [hwhole] at hspan ⊢
    have hhead : digitChars (d :: ds) ++ tail = Nat.digitChar d :: (digitChars ds ++ tail) := rfl
    rw [hhead] at hspan ⊢
    rw [wholeDigits, if_pos (isDigit_digitChar d), hspan]
    exact fun hd => hzero (val_eq_zero_of_digitChar hd)

theorem fractionDigits_append (fraction : List (Fin 10)) {tail : List Char}
    (hdigit : Ends Char.isDigit tail) (hpoint : Ends (· = '.') tail) :
    fractionDigits (fractionChars fraction ++ tail) = (digitChars fraction, tail) := by
  cases fraction with
  | nil =>
      rw [fractionChars, if_pos rfl, List.nil_append, fractionDigits.eq_def]
      split
      · simp at hpoint
      · rfl
  | cons d ds =>
      have hspan := Ends.span_append (isDigit_of_mem_digitChars (d :: ds)) hdigit
      have hhead : digitChars (d :: ds) ++ tail = Nat.digitChar d :: (digitChars ds ++ tail) := rfl
      rw [fractionChars, if_neg (List.cons_ne_nil d ds), List.cons_append]
      rw [hhead] at hspan ⊢
      rw [fractionDigits, if_pos (isDigit_digitChar d), hspan]

theorem exponent?_eq_none {cs : List Char} (h : Ends (fun c => c = 'e' || c = 'E') cs) :
    exponent? cs = none := by
  cases cs with
  | nil => rfl
  | cons c cs =>
      rw [Ends.cons_iff] at h
      rw [exponent?.eq_def]
      simp only [h, Bool.false_eq_true, if_false]

theorem exponent?_append (e : Exponent) {tail : List Char} (h : Ends Char.isDigit tail) :
    exponent? (e.chars ++ tail) = some (e.value, tail) := by
  obtain ⟨d, ds, hdigits⟩ := List.exists_cons_of_ne_nil e.digits_ne_nil
  have hmark : ((if e.upper then 'E' else 'e') = 'e' || (if e.upper then 'E' else 'e') = 'E') := by
    cases e.upper <;> rfl
  have hspan : (digitChars e.digits ++ tail).span Char.isDigit =
      (Nat.digitChar d :: digitChars ds, tail) := by
    rw [Ends.span_append (isDigit_of_mem_digitChars e.digits) h, hdigits]
    rfl
  have hvalue : natOfDigits (Nat.digitChar d :: digitChars ds) = decimal e.digits := by
    rw [← natOfDigits_digitChars, hdigits]
    rfl
  have hhead : digitChars e.digits ++ tail = Nat.digitChar d :: (digitChars ds ++ tail) := by
    rw [hdigits]
    rfl
  rw [hhead] at hspan
  rw [Exponent.chars, Exponent.value, List.cons_append, List.append_assoc, hhead]
  cases hsign : e.sign with
  | some minus =>
      cases minus with
      | false =>
          rw [List.cons_append, List.nil_append, exponent?, if_pos hmark, hspan]
          simp [hvalue]
      | true =>
          rw [List.cons_append, List.nil_append, exponent?, if_pos hmark, hspan]
          simp [hvalue]
  | none =>
      -- Without a sign the third branch is taken, since a digit is neither sign.
      obtain ⟨hminus, hplus⟩ := digitChar_ne_sign d
      rw [List.nil_append, exponent?, if_pos hmark, hspan]
      · simp [hvalue]
      · intro xs hxs
        exact hminus (List.cons.inj hxs).1
      · intro xs hxs
        exact hplus (List.cons.inj hxs).1

/-- What may follow a number follows each of its parts. -/
theorem ends_of_continuesNumber {cs : List Char} (h : Ends continuesNumber cs) :
    Ends Char.isDigit cs ∧ Ends (· = '.') cs ∧ Ends (fun c => c = 'e' || c = 'E') cs := by
  cases cs with
  | nil => simp
  | cons c cs =>
      simp only [Ends.cons_iff, continuesNumber, Bool.or_eq_false_iff] at h ⊢
      exact ⟨h.1.1.1, h.1.1.2, h.1.2, h.2⟩

theorem exponent?_exponentChars (e : Option Exponent) (h : Ends continuesNumber rest) :
    exponent? (exponentChars e ++ rest) = e.map fun e => (e.value, rest) := by
  obtain ⟨hdigit, -, hmark⟩ := ends_of_continuesNumber h
  cases e with
  | none => exact exponent?_eq_none hmark
  | some e => exact exponent?_append e hdigit

theorem ends_exponentChars (e : Option Exponent) (h : Ends continuesNumber rest) :
    Ends Char.isDigit (exponentChars e ++ rest) ∧ Ends (· = '.') (exponentChars e ++ rest) := by
  obtain ⟨hdigit, hpoint, -⟩ := ends_of_continuesNumber h
  cases e with
  | none => exact ⟨hdigit, hpoint⟩
  | some e =>
      simp only [exponentChars, Exponent.chars, List.cons_append, Ends.cons_iff]
      cases e.upper <;> exact ⟨rfl, rfl⟩

theorem ends_fractionChars (fraction : List (Fin 10)) {tail : List Char}
    (h : Ends Char.isDigit tail) : Ends Char.isDigit (fractionChars fraction ++ tail) := by
  rw [fractionChars]
  split
  · exact h
  · rw [List.cons_append, Ends.cons_iff]
    rfl

/-- A number is read by reading its parts one after the other. -/
theorem readNumber_chars (n : Number) (h : Ends continuesNumber rest) :
    readNumber (n.chars ++ rest) = .ok (n.value, rest) := by
  obtain ⟨hdigit, hpoint⟩ := ends_exponentChars n.exponent h
  have hwhole := wholeDigits_append n (ends_fractionChars n.fraction hdigit)
  have hfraction := fractionDigits_append n.fraction hdigit hpoint
  have hexponent := exponent?_exponentChars n.exponent h
  obtain ⟨d, ds, hdigits⟩ := List.exists_cons_of_ne_nil n.whole_ne_nil
  rw [readNumber.eq_def]
  split
  rename_i negative body hparts
  -- The sign is taken off first; a number without one starts with a digit, never with a minus.
  obtain ⟨rfl, rfl⟩ : negative = n.negative ∧ body = digitChars n.whole ++
      (fractionChars n.fraction ++ (exponentChars n.exponent ++ rest)) := by
    rw [Number.chars] at hparts
    by_cases hnegative : n.negative = true
    · rw [if_pos hnegative] at hparts
      cases hparts
      exact ⟨hnegative.symm, by simp⟩
    · rw [if_neg hnegative, hdigits] at hparts
      split at hparts
      · rename_i hcons
        exact absurd (List.cons.inj hcons).1 (digitChar_ne_sign d).1
      · cases hparts
        exact ⟨(Bool.eq_false_of_not_eq_true hnegative).symm, by simp [hdigits]⟩
  simp only [hwhole, hfraction, hexponent]
  have happend : digitChars n.whole ++ digitChars n.fraction =
      digitChars (n.whole ++ n.fraction) := List.map_append.symm
  rw [happend, natOfDigits_digitChars, natOfDigits_digitChars, Number.value]
  cases hnone : n.exponent with
  | some e => simp [digitChars]
  | none =>
      by_cases hnil : n.fraction = []
      · have hle := n.length_le_of_whole hnil hnone
        simp [hnil, hle, digitChars, exponentChars]
      · simp [hnil, digitChars, exponentChars]

/-! ## Values and rows of values -/

theorem after?_eq_none {w : String} {x c : Char} {xs : List Char} (hw : w.toList = x :: xs)
    (hc : c ≠ x) : after? w (c :: cs) = none := by
  rw [after?, hw, List.isPrefixOf_cons_cons, if_neg (by simp [Ne.symm hc])]

/-- Neither a digit nor a sign starts one of the words. -/
theorem readAtom_eq_readNumber (names : Names) {c : Char} (hc : c.isDigit = true ∨ c = '-')
    (hname : after? "-Infinity" (c :: cs) = none) :
    readAtom names (c :: cs) = readNumber (c :: cs) := by
  have hne : ∀ x : Char, x.isDigit = false → x ≠ '-' → c ≠ x := by
    rintro x hx hxminus rfl
    rcases hc with hdigit | hminus
    · exact Bool.false_ne_true (hx.symm.trans hdigit)
    · exact hxminus hminus
  simp only [readAtom, after?_eq_none (w := "null") rfl (hne 'n' rfl (by decide)),
    after?_eq_none (w := "true") rfl (hne 't' rfl (by decide)),
    after?_eq_none (w := "false") rfl (hne 'f' rfl (by decide)),
    after?_eq_none (w := "NaN") rfl (hne 'N' rfl (by decide)),
    after?_eq_none (w := "Infinity") rfl (hne 'I' rfl (by decide)), hname]

theorem readAtom_number (names : Names) (n : Number) (h : Ends continuesNumber rest) :
    readAtom names (n.chars ++ rest) = .ok (n.value, rest) := by
  rw [← readNumber_chars n h]
  obtain ⟨c, cs, hchars, hc⟩ := n.exists_cons
  rw [hchars, List.cons_append]
  rcases hc with hdigit | ⟨rfl, d, ds, rfl, hd⟩
  · refine readAtom_eq_readNumber names (.inl hdigit) (after?_eq_none rfl ?_)
    rintro rfl
    cases hdigit
  · refine readAtom_eq_readNumber names (.inr rfl) ?_
    have hne : d ≠ 'I' := by
      rintro rfl
      cases hd
    have hword : "-Infinity".toList = '-' :: 'I' :: "nfinity".toList := rfl
    rw [after?, hword, List.cons_append, List.isPrefixOf_cons_cons, List.isPrefixOf_cons_cons,
      if_neg (by simp [Ne.symm hne])]

/-- What reading a tree with the given nesting gives, when arrays and objects may be nested `depth`
deep: its value with the characters behind it, or a complaint about the depth. -/
def Reads {α : Type} (nesting depth : Nat) (r : Reading α) (a : α) (rest : List Char) : Prop :=
  (nesting ≤ depth → r = .ok (a, rest)) ∧ (depth < nesting → ∃ n, r = .error (.depth n))

namespace Reads

variable {α β : Type} {nesting depth : Nat} {r : Reading α} {a : α}

theorem of_ok (h : r = .ok (a, rest)) : Reads 0 depth r a rest :=
  ⟨fun _ => h, fun hdepth => absurd hdepth (Nat.not_lt_zero depth)⟩

/-- Changing the value changes nothing else. -/
theorem map (h : Reads nesting depth r a rest) (f : α → β) :
    Reads nesting depth (r.map fun x => (f x.1, x.2)) (f a) rest := by
  refine ⟨fun hle => ?_, fun hlt => ?_⟩
  · rw [h.1 hle]
    rfl
  · obtain ⟨n, hn⟩ := h.2 hlt
    exact ⟨n, by rw [hn]; rfl⟩

/-- Nothing is nested in what may not be nested itself. -/
theorem of_depth {n : Nesting} (h : r = .error (.depth n)) : Reads (nesting + 1) 0 r a rest :=
  ⟨fun hle => absurd hle (Nat.not_succ_le_zero nesting), fun _ => ⟨n, h⟩⟩

theorem succ (h : Reads nesting depth r a rest) : Reads (nesting + 1) (depth + 1) r a rest :=
  ⟨fun hle => h.1 (Nat.le_of_succ_le_succ hle), fun hlt => h.2 (Nat.lt_of_succ_lt_succ hlt)⟩

/-- A row that ends with what is read. -/
theorem last {t : Reading β} {b : β} {behind : List Char} (h : Reads nesting depth r a behind)
    (herror : ∀ f, r = .error f → t = .error f) (hok : r = .ok (a, behind) → t = .ok (b, rest)) :
    Reads nesting depth t b rest := by
  refine ⟨fun hle => hok (h.1 hle), fun hlt => ?_⟩
  obtain ⟨n, hn⟩ := h.2 hlt
  exact ⟨n, herror _ hn⟩

/-- A row that goes on behind what is read: the first complaint counts. -/
theorem next {s t : Reading β} {b : β} {behind : List Char} {f : β → β} {others : Nat}
    (h : Reads nesting depth r a behind) (hs : Reads others depth s b rest)
    (herror : ∀ f, r = .error f → t = .error f)
    (hok : r = .ok (a, behind) → t = s.map fun x => (f x.1, x.2)) :
    Reads (max nesting others) depth t (f b) rest := by
  have hmap := hs.map f
  refine ⟨fun hle => ?_, fun hlt => ?_⟩
  · rw [hok (h.1 (le_trans (le_max_left _ _) hle))]
    exact hmap.1 (le_trans (le_max_right _ _) hle)
  · -- If what is read first fits, one of the others does not.
    by_cases hfits : nesting ≤ depth
    · rw [hok (h.1 hfits)]
      exact hmap.2 ((lt_max_iff.1 hlt).resolve_left (Nat.not_lt.2 hfits))
    · obtain ⟨n, hn⟩ := h.2 (Nat.lt_of_not_le hfits)
      exact ⟨n, herror _ hn⟩

end Reads

variable {names : Names} {depth : Nat}

theorem readItems_error {f : Fault} (h : readValue names depth fuel cs = .error f) :
    readItems names depth (fuel + 1) cs = .error f := by
  rw [readItems, h]
  rfl

theorem readItems_last {v : Json} {behind : List Char}
    (h : readValue names depth fuel cs = .ok (v, behind))
    (hclose : skipSpace behind = ']' :: rest) :
    readItems names depth (fuel + 1) cs = .ok ([v], rest) := by
  rw [readItems, h]
  simp only [bind, Except.bind, hclose]

theorem readItems_next {v : Json} {behind : List Char}
    (h : readValue names depth fuel cs = .ok (v, behind))
    (hcomma : skipSpace behind = ',' :: rest) :
    readItems names depth (fuel + 1) cs =
      (readItems names depth fuel (skipSpace rest)).map fun x => (v :: x.1, x.2) := by
  rw [readItems, h]
  simp only [bind, Except.bind, hcomma]
  cases readItems names depth fuel (skipSpace rest) <;> rfl

theorem Key.chars_append (k : Key) (cs : List Char) :
    k.chars ++ cs = '"' :: (k.pieces.flatMap Piece.chars ++
      '"' :: (k.after.1 ++ ':' :: (k.before.1 ++ cs))) := by
  simp [Key.chars, stringChars]

section Fields

variable {k : Key} (hkey : k.pieces.length < fuel) (hcs : Ends isSpace cs)
include hkey hcs

theorem readFields_error {f : Fault} (h : readValue names depth fuel cs = .error f) :
    readFields names depth (fuel + 1) (k.chars ++ cs) = .error f := by
  rw [k.chars_append, readFields]
  simp only [bind, Except.bind, readString_pieces _ _ _ hkey, skipSpace_append k.before hcs,
    skipSpace_cons k.after (c := ':') _ rfl, h]

theorem readFields_last {v : Json} {behind : List Char}
    (h : readValue names depth fuel cs = .ok (v, behind))
    (hclose : skipSpace behind = '\x7d' :: rest) :
    readFields names depth (fuel + 1) (k.chars ++ cs) = .ok ([(meaning k.pieces, v)], rest) := by
  rw [k.chars_append, readFields]
  simp only [bind, Except.bind, readString_pieces _ _ _ hkey, skipSpace_append k.before hcs,
    skipSpace_cons k.after (c := ':') _ rfl, h, hclose]

theorem readFields_next {v : Json} {behind : List Char}
    (h : readValue names depth fuel cs = .ok (v, behind))
    (hcomma : skipSpace behind = ',' :: rest) :
    readFields names depth (fuel + 1) (k.chars ++ cs) =
      (readFields names depth fuel (skipSpace rest)).map fun x =>
        ((meaning k.pieces, v) :: x.1, x.2) := by
  rw [k.chars_append, readFields]
  simp only [bind, Except.bind, readString_pieces _ _ _ hkey, skipSpace_append k.before hcs,
    skipSpace_cons k.after (c := ':') _ rfl, h, hcomma]
  cases readFields names depth fuel (skipSpace rest) <;> rfl

end Fields

theorem ends_space_append (s : Space) (h : Ends continuesNumber rest) :
    Ends continuesNumber (s.1 ++ rest) := by
  obtain ⟨cs, hcs⟩ := s
  cases cs with
  | nil => exact h
  | cons c cs =>
      rw [List.cons_append, Ends.cons_iff]
      rcases eq_of_isSpace (hcs c (List.mem_cons_self ..)) with rfl | rfl | rfl | rfl <;> rfl

/-- A value starts with no white space. -/
theorem Value.ends_isSpace (v : Value) (cs : List Char) : Ends isSpace (v.chars ++ cs) := by
  obtain ⟨c, cs', hchars, hc⟩ := v.exists_cons
  rw [hchars, List.cons_append, Ends.cons_iff]
  exact isSpace_eq_false_of_isFirst hc

theorem Items.ends_isSpace (items : Items) (cs : List Char) :
    Ends isSpace (items.chars ++ cs) := by
  obtain ⟨c, cs', hchars, hc⟩ := items.exists_cons
  rw [hchars, List.cons_append, Ends.cons_iff]
  exact isSpace_eq_false_of_isFirst hc

theorem Fields.ends_isSpace (fields : Fields) (cs : List Char) :
    Ends isSpace (fields.chars ++ cs) := by
  obtain ⟨cs', hchars⟩ := fields.exists_cons
  rw [hchars, List.cons_append, Ends.cons_iff]
  rfl

theorem readValue_atom {c : Char} (h : c.isDigit = true ∨ c = '-') :
    readValue names depth (fuel + 1) (c :: cs) = readAtom names (c :: cs) := by
  have hne : c ≠ '"' ∧ c ≠ '[' ∧ c ≠ '\x7b' := by
    refine ⟨?_, ?_, ?_⟩ <;>
    · rintro rfl
      revert h
      decide
  rw [readValue.eq_def]
  simp only [hne, if_false]

theorem readValue_string (ps : List Piece) (h : ps.length < fuel) :
    readValue names depth (fuel + 1) (stringChars ps ++ rest) = .ok (.str (meaning ps), rest) := by
  have hchars : stringChars ps ++ rest = '"' :: (ps.flatMap Piece.chars ++ '"' :: rest) := by
    simp [stringChars]
  rw [hchars, readValue.eq_def]
  simp only [if_true, readString_pieces _ _ _ h]
  rfl

/-- The opening bracket is followed by items, which start with no closing one. -/
theorem readValue_bracket (before : Space) {c : Char} (hspace : isSpace c = false)
    (hclose : c ≠ ']') (cs : List Char) :
    readValue names (depth + 1) (fuel + 1) ('[' :: (before.1 ++ c :: cs)) =
      (readItems names depth fuel (c :: cs)).map fun x => (.arr x.1, x.2) := by
  rw [readValue, if_neg (by decide), if_pos rfl]
  simp only [skipSpace_cons before _ hspace]
  split
  · next h => exact absurd (List.cons.inj h).1 hclose
  · rfl

theorem readValue_array (items : Items) (before : Space) (rest : List Char) :
    readValue names (depth + 1) (fuel + 1) ('[' :: (before.1 ++ (items.chars ++ rest))) =
      (readItems names depth fuel (items.chars ++ rest)).map fun x => (.arr x.1, x.2) := by
  obtain ⟨c, cs, hchars, hc⟩ := items.exists_cons
  rw [hchars, List.cons_append]
  refine readValue_bracket before (isSpace_eq_false_of_isFirst hc) ?_ _
  rintro rfl
  cases hc

theorem readValue_brace (before : Space) (cs : List Char) :
    readValue names (depth + 1) (fuel + 1) ('\x7b' :: (before.1 ++ '"' :: cs)) =
      (readFields names depth fuel ('"' :: cs)).map fun x => (.obj (Assoc.ofList x.1), x.2) := by
  rw [readValue, if_neg (by decide), if_neg (by decide), if_pos rfl]
  simp only [skipSpace_cons before _ (c := '"') rfl]
  rfl

theorem readValue_object (fields : Fields) (before : Space) (rest : List Char) :
    readValue names (depth + 1) (fuel + 1) ('\x7b' :: (before.1 ++ (fields.chars ++ rest))) =
      (readFields names depth fuel (fields.chars ++ rest)).map fun x =>
        (.obj (Assoc.ofList x.1), x.2) := by
  obtain ⟨cs, hchars⟩ := fields.exists_cons
  rw [hchars, List.cons_append, readValue_brace]

/-! ## Trees

The fuel is the induction's only side condition.  A value hands one less to its items, and these one
less to each value, while both have a bracket or a separator less in front of them: twice the length
of the text is always enough.
-/

mutual

/-- Reading the text of a value, whatever comes behind it that is no part of a number. -/
theorem Value.reads (names : Names) : (v : Value) → ∀ (depth fuel : Nat) (rest : List Char),
    2 * v.chars.length ≤ fuel + 1 → Ends continuesNumber rest →
    Reads v.nesting depth (readValue names depth (fuel + 1) (v.chars ++ rest)) v.value rest
  | .null => fun _ _ _ _ _ => Reads.of_ok rfl
  | .bool true => fun _ _ _ _ _ => Reads.of_ok rfl
  | .bool false => fun _ _ _ _ _ => Reads.of_ok rfl
  | .number n => by
      intro depth fuel rest _ hrest
      obtain ⟨c, cs, hchars, hc⟩ := n.exists_cons
      refine Reads.of_ok ?_
      rw [Value.chars, Value.value, ← readAtom_number names n hrest, hchars]
      exact readValue_atom (hc.imp_right And.left)
  | .string ps => by
      intro depth fuel rest hfuel _
      have hlength := length_le_flatMap_chars ps
      simp only [Value.chars, stringChars, List.length_cons, List.length_append] at hfuel
      exact Reads.of_ok (readValue_string ps (by omega))
  | .emptyArray inside => by
      intro depth fuel rest _ _
      cases depth with
      | zero => exact Reads.of_depth rfl
      | succ depth =>
          refine (Reads.of_ok ?_).succ
          rw [Value.chars, List.cons_append, List.append_assoc, List.singleton_append, readValue,
            if_neg (by decide), if_pos rfl]
          simp only [skipSpace_cons inside rest (c := ']') rfl]
          rfl
  | .array before items => by
      intro depth fuel rest hfuel _
      simp only [Value.chars, List.length_cons, List.length_append] at hfuel
      cases depth with
      | zero => exact Reads.of_depth rfl
      | succ depth =>
          rw [Value.chars, List.cons_append, List.append_assoc, readValue_array]
          exact ((items.reads names depth fuel rest (by omega)).map Json.arr).succ
  | .emptyObject inside => by
      intro depth fuel rest _ _
      cases depth with
      | zero => exact Reads.of_depth rfl
      | succ depth =>
          refine (Reads.of_ok ?_).succ
          rw [Value.chars, List.cons_append, List.append_assoc, List.singleton_append, readValue,
            if_neg (by decide), if_neg (by decide), if_pos rfl]
          simp only [skipSpace_cons inside rest (c := '\x7d') rfl]
          rfl
  | .object before fields => by
      intro depth fuel rest hfuel _
      simp only [Value.chars, List.length_cons, List.length_append] at hfuel
      cases depth with
      | zero => exact Reads.of_depth rfl
      | succ depth =>
          rw [Value.chars, List.cons_append, List.append_assoc, readValue_object]
          exact ((fields.reads names depth fuel rest (by omega)).map
            fun fs => Json.obj (Assoc.ofList fs)).succ

theorem Items.reads (names : Names) : (items : Items) → ∀ (depth fuel : Nat) (rest : List Char),
    2 * items.chars.length + 1 ≤ fuel →
    Reads items.nesting depth (readItems names depth fuel (items.chars ++ rest)) items.values rest
  | .last v after => by
      intro depth fuel rest hfuel
      simp only [Items.chars, List.length_append, List.length_cons] at hfuel
      obtain ⟨fuel, rfl⟩ : ∃ k, fuel = k + 2 := ⟨fuel - 2, by omega⟩
      have hv := v.reads names depth fuel (after.1 ++ ']' :: rest) (by omega)
        (ends_space_append after (Ends.cons_iff.2 rfl))
      have hchars : (Items.last v after).chars ++ rest = v.chars ++ (after.1 ++ ']' :: rest) := by
        simp [Items.chars]
      rw [hchars]
      exact hv.last (fun f hf => readItems_error hf) fun hok =>
        readItems_last hok (skipSpace_cons after rest rfl)
  | .next v after before items => by
      intro depth fuel rest hfuel
      simp only [Items.chars, List.length_append, List.length_cons] at hfuel
      obtain ⟨fuel, rfl⟩ : ∃ k, fuel = k + 2 := ⟨fuel - 2, by omega⟩
      have hv := v.reads names depth fuel (after.1 ++ ',' :: (before.1 ++ (items.chars ++ rest)))
        (by omega) (ends_space_append after (Ends.cons_iff.2 rfl))
      have hitems := items.reads names depth (fuel + 1) rest (by omega)
      have hchars : (Items.next v after before items).chars ++ rest =
          v.chars ++ (after.1 ++ ',' :: (before.1 ++ (items.chars ++ rest))) := by
        simp [Items.chars]
      rw [hchars]
      refine hv.next (f := (v.value :: ·)) hitems (fun f hf => readItems_error hf) fun hok => ?_
      rw [readItems_next hok (skipSpace_cons after _ rfl),
        skipSpace_append before (items.ends_isSpace rest)]

theorem Fields.reads (names : Names) : (fields : Fields) → ∀ (depth fuel : Nat) (rest : List Char),
    2 * fields.chars.length + 1 ≤ fuel →
    Reads fields.nesting depth (readFields names depth fuel (fields.chars ++ rest))
      fields.values rest
  | .last k v after => by
      intro depth fuel rest hfuel
      have hlength := k.length_lt_chars
      simp only [Fields.chars, List.length_append, List.length_cons] at hfuel
      obtain ⟨fuel, rfl⟩ : ∃ k, fuel = k + 2 := ⟨fuel - 2, by omega⟩
      have hv := v.reads names depth fuel (after.1 ++ '\x7d' :: rest) (by omega)
        (ends_space_append after (Ends.cons_iff.2 rfl))
      have hkey : k.pieces.length < fuel + 1 := by omega
      have hspace := v.ends_isSpace (after.1 ++ '\x7d' :: rest)
      have hchars : (Fields.last k v after).chars ++ rest =
          k.chars ++ (v.chars ++ (after.1 ++ '\x7d' :: rest)) := by
        simp [Fields.chars]
      rw [hchars]
      exact hv.last (fun f hf => readFields_error hkey hspace hf) fun hok =>
        readFields_last hkey hspace hok (skipSpace_cons after rest rfl)
  | .next k v after before fields => by
      intro depth fuel rest hfuel
      have hlength := k.length_lt_chars
      simp only [Fields.chars, List.length_append, List.length_cons] at hfuel
      obtain ⟨fuel, rfl⟩ : ∃ k, fuel = k + 2 := ⟨fuel - 2, by omega⟩
      have hv := v.reads names depth fuel (after.1 ++ ',' :: (before.1 ++ (fields.chars ++ rest)))
        (by omega) (ends_space_append after (Ends.cons_iff.2 rfl))
      have hfields := fields.reads names depth (fuel + 1) rest (by omega)
      have hkey : k.pieces.length < fuel + 1 := by omega
      have hspace := v.ends_isSpace (after.1 ++ ',' :: (before.1 ++ (fields.chars ++ rest)))
      have hchars : (Fields.next k v after before fields).chars ++ rest =
          k.chars ++ (v.chars ++ (after.1 ++ ',' :: (before.1 ++ (fields.chars ++ rest)))) := by
        simp [Fields.chars]
      rw [hchars]
      refine hv.next (f := ((meaning k.pieces, v.value) :: ·)) hfields
        (fun f hf => readFields_error hkey hspace hf) fun hok => ?_
      rw [readFields_next hkey hspace hok (skipSpace_cons after _ rfl),
        skipSpace_append before (fields.ends_isSpace rest)]

end

namespace Document

variable (t : Document)

theorem ends_byteOrderMark : Ends (· = '\ufeff') t.chars := by
  obtain ⟨⟨space, hspace⟩, v, after⟩ := t
  cases space with
  | nil =>
      obtain ⟨c, cs, hchars, hc⟩ := v.exists_cons
      simp only [chars, hchars, List.nil_append, List.cons_append, Ends.cons_iff]
      rw [decide_eq_false_iff_not]
      rintro rfl
      cases hc
  | cons c cs =>
      simp only [chars, List.cons_append, Ends.cons_iff]
      rcases eq_of_isSpace (hspace c (List.mem_cons_self ..)) with rfl | rfl | rfl | rfl <;> rfl

/-- The value in a text is read with the white space behind it left. -/
theorem reads_root (names : Names) (depth : Nat) :
    Reads t.nesting depth
      (readValue names depth (2 * t.chars.length + 1) (skipSpace t.chars))
      t.value t.after.1 := by
  rw [chars, skipSpace_append t.before (t.root.ends_isSpace _)]
  refine t.root.reads names depth _ _ ?_ ?_
  · simp only [List.length_append]
    omega
  · simpa using ends_space_append t.after Ends.nil

/-- When only white space is left, a text is read as the value in it. -/
theorem read_eq_map (names : Names) (depth : Nat)
    (h : ∀ v rest, readValue names depth (2 * t.chars.length + 1) (skipSpace t.chars) =
      .ok (v, rest) → skipSpace rest = []) :
    read names depth t.chars =
      (readValue names depth (2 * t.chars.length + 1) (skipSpace t.chars)).map Prod.fst := by
  rw [read.eq_def]
  split
  · rename_i hmark
    have hend := t.ends_byteOrderMark
    rw [hmark, Ends.cons_iff] at hend
    cases hend
  · cases hread : readValue names depth (2 * t.chars.length + 1) (skipSpace t.chars) with
    | error f => rfl
    | ok x => simp only [h x.1 x.2 hread, Except.map]

theorem read_chars (names : Names) {depth : Nat} (h : t.nesting ≤ depth) :
    read names depth t.chars = .ok t.value := by
  have hread := (t.reads_root names depth).1 h
  rw [read_eq_map, hread]
  · rfl
  · intro v rest hok
    cases hread.symm.trans hok
    simpa using skipSpace_append t.after Ends.nil

theorem read_chars_of_deep (names : Names) {depth : Nat} (h : depth < t.nesting) :
    ∃ n, read names depth t.chars = .error (.depth n) := by
  obtain ⟨n, hn⟩ := (t.reads_root names depth).2 h
  refine ⟨n, ?_⟩
  rw [read_eq_map, hn]
  · rfl
  · intro v rest hok
    cases hn.symm.trans hok

end Document

namespace Value

variable (v : Value)

theorem read_chars (names : Names) {depth : Nat} (h : v.nesting ≤ depth) :
    read names depth v.chars = .ok v.value := by
  rw [← chars_document]
  exact v.document.read_chars names h

theorem read_chars_of_deep (names : Names) {depth : Nat} (h : depth < v.nesting) :
    ∃ n, read names depth v.chars = .error (.depth n) := by
  rw [← chars_document]
  exact v.document.read_chars_of_deep names h

end Value

end Json.Syntax

end Injection
