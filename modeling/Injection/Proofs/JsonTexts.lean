import Injection.Proofs.JsonReading
import Mathlib.Data.List.TakeWhile

/-!
# The reader accepts nothing but the format

What the reader accepts is the text of a syntax tree, and what it returns is the value that the tree
denotes.  Each reading function is inverted on its own; a success says what the characters were that
it took.

* `exists_pieces_of_readString` and `exists_number_of_readNumber`: the leaves.
* `ValueStep`, `ItemsStep` and `FieldsStep`: what one step of the reader comes to.
* `Inverted.all`: values and rows of values, by induction on the fuel, since each of the three
  functions calls the others with less of it.
* **`read_eq_ok_iff`**: with the opposite direction, a text is read exactly when it is that of a
  document that is not nested too deeply.
* `depth_lt_of_read`: a text is given up for its depth only if it opens more arrays and objects
  than the reader goes into.
-/

namespace Injection.Json.Syntax

theorem exists_space (cs : List Char) : ∃ s : Space, cs = s.1 ++ skipSpace cs :=
  ⟨⟨cs.takeWhile isSpace, fun _ hc => List.mem_takeWhile_imp hc⟩,
    List.takeWhile_append_dropWhile.symm⟩

/-! ## Strings -/

theorem exists_hexDigit {c : Char} {n : Nat} (h : hexDigit? c = some n) :
    ∃ d : HexDigit, d.char = c ∧ d.value.val = n := by
  have hrange : c.toNat < 128 := by
    by_contra hlarge
    have hdigit : c.isDigit = false := by
      refine Bool.eq_false_of_not_eq_true fun hdigit => hlarge ?_
      simp only [Char.isDigit, Bool.and_eq_true, decide_eq_true_eq] at hdigit
      exact (UInt32.le_iff_toNat_le.1 hdigit.2).trans_lt (by decide)
    have hbound : ∀ d : Char, d.toNat < 128 → ¬ c ≤ d := by
      intro d hd hle
      exact hlarge ((UInt32.le_iff_toNat_le.1 hle).trans_lt hd)
    simp [hexDigit?, hdigit, hbound 'f' (by decide), hbound 'F' (by decide)] at h
  have hall : ∀ k : Fin 128, ∀ n ∈ hexDigit? (Char.ofNat k), ∃ v : Fin 16, ∃ u : Bool,
      HexDigit.char ⟨v, u⟩ = Char.ofNat k ∧ v.val = n := by decide
  obtain ⟨v, u, hchar, hvalue⟩ := hall ⟨c.toNat, hrange⟩ n (by simpa using h)
  exact ⟨⟨v, u⟩, by simpa using hchar, hvalue⟩

/-- Four digits are read, and something stands behind them. -/
theorem exists_of_unit? {cs rest : List Char} {n : Nat} (h : unit? cs = some (n, rest)) :
    ∃ a b c d : HexDigit, cs = a.char :: b.char :: c.char :: d.char :: rest ∧ rest ≠ [] ∧
      unitValue a b c d = n := by
  match cs with
  | [] | [_] | [_, _] | [_, _, _] | [_, _, _, _] => simp [unit?] at h
  | a :: b :: c :: d :: e :: tail =>
      simp only [unit?, Option.bind_eq_bind, Option.pure_def, Option.bind_eq_some_iff,
        Option.some.injEq, Prod.mk.injEq] at h
      obtain ⟨a', ha, b', hb, c', hc, d', hd, hn, rfl⟩ := h
      obtain ⟨a, rfl, rfl⟩ := exists_hexDigit ha
      obtain ⟨b, rfl, rfl⟩ := exists_hexDigit hb
      obtain ⟨c, rfl, rfl⟩ := exists_hexDigit hc
      obtain ⟨d, rfl, rfl⟩ := exists_hexDigit hd
      refine ⟨a, b, c, d, rfl, List.cons_ne_nil e tail, ?_⟩
      rw [← hn]
      simp only [unitValue, Nat.ofDigits_cons, Nat.ofDigits_nil]
      omega

theorem exists_of_consPoint {p : CodePoint} {r : Reading Text} {s : Text} {rest : List Char}
    (h : consPoint p r = .ok (s, rest)) : ∃ s', r = .ok (s', rest) ∧ s = p :: s' := by
  cases r with
  | error f => cases h
  | ok x =>
      cases h
      exact ⟨x.1, rfl, rfl⟩

/-- A unit that does not make a pair with what follows stands for itself. -/
theorem meaning_unit {a b c d : HexDigit} {ps : List Piece}
    (h : isHighHalf (unitValue a b c d) = true → ∀ a' b' c' d' qs, ps = .unit a' b' c' d' :: qs →
      isLowHalf (unitValue a' b' c' d') = false) :
    meaning (.unit a b c d :: ps) = .ofNat (unitValue a b c d) :: meaning ps := by
  cases ps with
  | nil => rfl
  | cons q qs =>
      cases q with
      | plain c hc => rfl
      | short s => rfl
      | unit a' b' c' d' =>
          rw [meaning, if_neg]
          rw [Bool.and_eq_true]
          rintro ⟨hhigh, hlow⟩
          rw [h hhigh a' b' c' d' qs rfl] at hlow
          cases hlow

theorem simpleEscape?_eq_some {c d : Char} (h : simpleEscape? c = some d) :
    ∃ s : Short, s.letter = c ∧ s.meaning = d := by
  unfold simpleEscape? at h
  split at h <;> cases h
  · exact ⟨.quote, rfl, rfl⟩
  · exact ⟨.backslash, rfl, rfl⟩
  · exact ⟨.slash, rfl, rfl⟩
  · exact ⟨.backspace, rfl, rfl⟩
  · exact ⟨.formFeed, rfl, rfl⟩
  · exact ⟨.lineFeed, rfl, rfl⟩
  · exact ⟨.carriageReturn, rfl, rfl⟩
  · exact ⟨.tab, rfl, rfl⟩

/-- The escape of a number, and what follows it.  A high half looks at the next escape: a low half
is taken with it, any other unit is left to be read again. -/
theorem exists_pieces_of_unit {opening tail rest : List Char} {fuel : Nat} {s : Text}
    {a b c d : HexDigit} (hrest : ∀ {cs s}, readString opening fuel cs = .ok (s, rest) →
      ∃ ps, cs = ps.flatMap Piece.chars ++ '"' :: rest ∧ meaning ps = s)
    (h : readString opening (fuel + 1) ((Piece.unit a b c d).chars ++ tail) = .ok (s, rest)) :
    ∃ ps, (Piece.unit a b c d).chars ++ tail = ps.flatMap Piece.chars ++ '"' :: rest ∧
      meaning ps = s := by
  have hne : tail ≠ [] := by
    rintro rfl
    simp [Piece.chars, readString, unit?] at h
  simp only [Piece.chars, List.cons_append, List.nil_append] at h
  rw [readString, if_neg (by decide), if_pos rfl] at h
  simp only [unit?_digits a b c d hne] at h
  -- A unit on its own, for each of the ways in which it is not a half of a pair.
  have hsingle : ∀ {r}, consPoint (.ofNat (unitValue a b c d)) (readString opening fuel tail) = r →
      r = .ok (s, rest) →
      (isHighHalf (unitValue a b c d) = true → ∀ es, tail = '\\' :: 'u' :: es →
        ∃ m behind, unit? es = some (m, behind) ∧ isLowHalf m = false) →
      ∃ ps, (Piece.unit a b c d).chars ++ tail = ps.flatMap Piece.chars ++ '"' :: rest ∧
        meaning ps = s := by
    rintro r rfl hr hnext
    obtain ⟨s', hs', rfl⟩ := exists_of_consPoint hr
    obtain ⟨ps, rfl, rfl⟩ := hrest hs'
    refine ⟨.unit a b c d :: ps, by simp, meaning_unit ?_⟩
    rintro hhigh a' b' c' d' qs rfl
    obtain ⟨m, behind, hm, hlow⟩ := hnext hhigh _ rfl
    have hne : qs.flatMap Piece.chars ++ '"' :: rest ≠ [] := by simp
    have hunit := unit?_digits a' b' c' d' hne
    have hm' : some (unitValue a' b' c' d', _) = some (m, behind) := hunit.symm.trans hm
    cases hm'
    exact hlow
  split at h
  · next hhigh =>
    split at h
    · next es =>
        split at h
        · cases h
        · next m tail' hunit =>
            obtain ⟨a', b', c', d', rfl, -, rfl⟩ := exists_of_unit? hunit
            split at h
            · next hlow =>
                obtain ⟨s', hs', rfl⟩ := exists_of_consPoint h
                obtain ⟨ps, rfl, rfl⟩ := hrest hs'
                refine ⟨.unit a b c d :: .unit a' b' c' d' :: ps, by simp [Piece.chars], ?_⟩
                rw [meaning, if_pos (by rw [hhigh, hlow]; rfl)]
            · next hlow =>
                refine hsingle rfl h fun _ es hes => ?_
                cases hes
                exact ⟨_, _, hunit, Bool.eq_false_of_not_eq_true hlow⟩
    · next hne =>
        exact hsingle rfl h fun _ es hes => absurd hes (hne es)
  · next hhigh => exact hsingle rfl h fun hhigh' => absurd hhigh' hhigh

/-- What is read behind an opening quote is a row of pieces up to the closing one. -/
theorem exists_pieces_of_readString {opening cs rest : List Char} {fuel : Nat} {s : Text}
    (h : readString opening fuel cs = .ok (s, rest)) :
    ∃ ps, cs = ps.flatMap Piece.chars ++ '"' :: rest ∧ meaning ps = s := by
  induction fuel generalizing cs s with
  | zero =>
      rw [readString] at h
      cases h
  | succ fuel ih =>
      cases cs with
      | nil =>
          rw [readString] at h
          cases h
      | cons c cs =>
          have hread := h
          rw [readString.eq_def] at h
          dsimp only at h
          split at h
          · next hquote =>
              cases h
              exact ⟨[], by rw [hquote]; rfl, rfl⟩
          split at h
          · next hbackslash =>
              subst hbackslash
              split at h
              · cases h
              · next ds =>
                  split at h
                  · cases h
                  · next n tail hunit =>
                      obtain ⟨a, b, c, d, rfl, -, -⟩ := exists_of_unit? hunit
                      exact exists_pieces_of_unit ih hread
              · next e ds hne =>
                  split at h
                  · next d hd =>
                      obtain ⟨s', hs', rfl⟩ := exists_of_consPoint h
                      obtain ⟨ps, rfl, rfl⟩ := ih hs'
                      obtain ⟨x, rfl, rfl⟩ := simpleEscape?_eq_some hd
                      exact ⟨.short x :: ps, rfl, rfl⟩
                  · cases h
          split at h
          · cases h
          · next hquote hbackslash hcontrol =>
              obtain ⟨s', hs', rfl⟩ := exists_of_consPoint h
              obtain ⟨ps, rfl, rfl⟩ := ih hs'
              have hplain : isPlain c = true := by
                simp [isPlain, hquote, hbackslash]
                omega
              exact ⟨.plain c hplain :: ps, rfl, rfl⟩

/-! ## Numbers -/

theorem exists_digitChars {ds : List Char} (h : ∀ c ∈ ds, c.isDigit = true) :
    ∃ fs : List (Fin 10), digitChars fs = ds := by
  induction ds with
  | nil => exact ⟨[], rfl⟩
  | cons c ds ih =>
      obtain ⟨hc, hds⟩ := List.forall_mem_cons.1 h
      obtain ⟨fs, rfl⟩ := ih hds
      have hrange : 48 ≤ c.toNat ∧ c.toNat ≤ 57 := by
        simp only [Char.isDigit, Bool.and_eq_true, decide_eq_true_eq] at hc
        exact ⟨UInt32.le_iff_toNat_le.1 hc.1, UInt32.le_iff_toNat_le.1 hc.2⟩
      have hall : ∀ k : Fin 10, Nat.digitChar k = Char.ofNat (48 + k) := by decide
      refine ⟨⟨c.toNat - 48, by omega⟩ :: fs, ?_⟩
      show Nat.digitChar (c.toNat - 48) :: digitChars fs = c :: digitChars fs
      rw [hall ⟨c.toNat - 48, by omega⟩]
      show Char.ofNat (48 + (c.toNat - 48)) :: digitChars fs = _
      rw [Nat.add_sub_cancel' hrange.1, Char.ofNat_toNat]

/-- A run of digits and what is behind it. -/
theorem exists_of_span (cs : List Char) :
    ∃ fs : List (Fin 10), (cs.span Char.isDigit).1 = digitChars fs ∧
      cs = digitChars fs ++ (cs.span Char.isDigit).2 := by
  rw [List.span_eq_takeWhile_dropWhile]
  have hdigit : ∀ c ∈ cs.takeWhile Char.isDigit, c.isDigit = true := fun c hc =>
    List.mem_takeWhile_imp hc
  obtain ⟨fs, hfs⟩ := exists_digitChars hdigit
  refine ⟨fs, hfs.symm, ?_⟩
  rw [hfs]
  exact List.takeWhile_append_dropWhile.symm

theorem exists_of_wholeDigits {cs whole rest : List Char}
    (h : wholeDigits cs = some (whole, rest)) :
    ∃ ws : List (Fin 10), whole = digitChars ws ∧ cs = digitChars ws ++ rest ∧ ws ≠ [] ∧
      (1 < ws.length → ws.head?.map Fin.val ≠ some 0) := by
  unfold wholeDigits at h
  split at h
  · cases h
    exact ⟨[0], rfl, rfl, List.cons_ne_nil _ _, fun hlong => absurd hlong (by decide)⟩
  · next c cs hzero =>
      split at h
      · next hdigit =>
          obtain ⟨ws, hwhole, hcs⟩ := exists_of_span (c :: cs)
          have hspan := Option.some.inj h
          rw [hspan] at hwhole hcs
          have hne : ws ≠ [] := by
            rintro rfl
            rw [List.span_eq_takeWhile_dropWhile, List.takeWhile_cons_of_pos hdigit] at hspan
            have := (congrArg Prod.fst hspan).trans hwhole
            cases this
          refine ⟨ws, hwhole, hcs, hne, fun _ hhead => ?_⟩
          -- The first digit is the first character, which is no zero.
          obtain ⟨w, ws', rfl⟩ := List.exists_cons_of_ne_nil hne
          have hc : c = Nat.digitChar w := (List.cons.inj hcs).1
          simp only [List.head?_cons, Option.map_some, Option.some.injEq] at hhead
          refine hzero (hc.trans ?_)
          rw [hhead]
          rfl
      · cases h
  · cases h

theorem exists_of_fractionDigits (cs : List Char) :
    ∃ fs : List (Fin 10), (fractionDigits cs).1 = digitChars fs ∧
      cs = fractionChars fs ++ (fractionDigits cs).2 := by
  unfold fractionDigits
  split
  · next c cs =>
      split
      · next hdigit =>
          obtain ⟨fs, hfraction, hcs⟩ := exists_of_span (c :: cs)
          refine ⟨fs, hfraction, ?_⟩
          have hne : fs ≠ [] := by
            rintro rfl
            rw [List.span_eq_takeWhile_dropWhile, List.takeWhile_cons_of_pos hdigit] at hfraction
            cases hfraction
          rw [fractionChars, if_neg hne, List.cons_append, ← hcs]
      · exact ⟨[], rfl, rfl⟩
  · exact ⟨[], rfl, rfl⟩

/-- The digits of an exponent behind its mark and sign. -/
theorem exists_exponent {ds digits rest : List Char} (upper : Bool) (sign : Option Bool)
    (hspan : ds.span Char.isDigit = (digits, rest)) (hne : digits ≠ []) :
    ∃ e : Exponent, e.upper = upper ∧ e.sign = sign ∧ decimal e.digits = natOfDigits digits ∧
      ds = digitChars e.digits ++ rest := by
  obtain ⟨fs, hdigits, hds⟩ := exists_of_span ds
  rw [hspan] at hdigits hds
  obtain rfl : digits = digitChars fs := hdigits
  have hfs : fs ≠ [] := by
    rintro rfl
    exact hne rfl
  exact ⟨⟨upper, sign, fs, hfs⟩, rfl, rfl, (natOfDigits_digitChars fs).symm, hds⟩

theorem exists_of_exponent? {cs rest : List Char} {n : Int} (h : exponent? cs = some (n, rest)) :
    ∃ e : Exponent, e.value = n ∧ cs = e.chars ++ rest := by
  cases cs with
  | nil => cases h
  | cons c ds =>
      by_cases hmark : (c = 'e' || c = 'E') = true
      · obtain ⟨upper, rfl⟩ : ∃ upper : Bool, c = if upper then 'E' else 'e' := by
          rw [Bool.or_eq_true, decide_eq_true_eq, decide_eq_true_eq] at hmark
          rcases hmark with rfl | rfl
          · exact ⟨false, rfl⟩
          · exact ⟨true, rfl⟩
        -- One case for each of the signs, and one for none.
        by_cases hminus : ∃ xs, ds = '-' :: xs
        · obtain ⟨xs, rfl⟩ := hminus
          rw [exponent?, if_pos hmark] at h
          split at h
          · cases h
          · next digits after hne hspan =>
              cases h
              obtain ⟨e, rfl, hsign, hvalue, rfl⟩ := exists_exponent upper (some true) hspan hne
              exact ⟨e, by simp [Exponent.value, hsign, hvalue], by simp [Exponent.chars, hsign]⟩
        by_cases hplus : ∃ xs, ds = '+' :: xs
        · obtain ⟨xs, rfl⟩ := hplus
          rw [exponent?, if_pos hmark] at h
          split at h
          · cases h
          · next digits after hne hspan =>
              cases h
              obtain ⟨e, rfl, hsign, hvalue, rfl⟩ := exists_exponent upper (some false) hspan hne
              exact ⟨e, by simp [Exponent.value, hsign, hvalue], by simp [Exponent.chars, hsign]⟩
        rw [exponent?, if_pos hmark] at h
        · split at h
          · cases h
          · next digits after hne hspan =>
              cases h
              obtain ⟨e, rfl, hsign, hvalue, rfl⟩ := exists_exponent upper none hspan hne
              exact ⟨e, by simp [Exponent.value, hsign, hvalue], by simp [Exponent.chars, hsign]⟩
        · exact fun xs hxs => hminus ⟨xs, hxs⟩
        · exact fun xs hxs => hplus ⟨xs, hxs⟩
      · rw [exponent?.eq_def] at h
        simp only [hmark, Bool.false_eq_true, if_false, reduceCtorEq] at h

theorem exists_number_of_readNumber {cs rest : List Char} {v : Json}
    (h : readNumber cs = .ok (v, rest)) : ∃ n : Number, cs = n.chars ++ rest ∧ n.value = v := by
  rw [readNumber.eq_def] at h
  split at h
  next negative body hparts =>
  obtain rfl : cs = (if negative then ['-'] else []) ++ body := by
    split at hparts <;> cases hparts <;> rfl
  split at h
  · cases h
  next whole tail hwhole =>
  obtain ⟨ws, rfl, rfl, hne, hzero⟩ := exists_of_wholeDigits hwhole
  split at h
  next fraction tail' hfraction =>
  obtain ⟨fs, hfs, htail⟩ := exists_of_fractionDigits tail
  rw [hfraction] at hfs htail
  obtain rfl : fraction = digitChars fs := hfs
  obtain rfl : tail = fractionChars fs ++ tail' := htail
  have hdigits : natOfDigits (digitChars ws ++ digitChars fs) = decimal (ws ++ fs) := by
    rw [← natOfDigits_digitChars, digitChars, digitChars, ← List.map_append]
    rfl
  have hlength : (digitChars fs).length = fs.length := List.length_map _
  split at h
  · next e behind hexponent =>
      obtain ⟨x, rfl, rfl⟩ := exists_of_exponent? hexponent
      cases h
      refine ⟨⟨negative, ws, fs, some x, hne, hzero,
        fun _ hnone => absurd hnone (Option.some_ne_none x)⟩, ?_, ?_⟩
      · simp [Number.chars, exponentChars]
      · simp [Number.value, hdigits, hlength]
  split at h
  · next hempty =>
      obtain rfl : fs = [] := by simpa [digitChars] using hempty
      split at h
      · cases h
      · next hlimit =>
          cases h
          refine ⟨⟨negative, ws, [], none, hne, hzero, fun _ _ => ?_⟩, ?_, ?_⟩
          · simpa [digitChars] using hlimit
          · simp [Number.chars, exponentChars, fractionChars]
          · simp [Number.value, natOfDigits_digitChars]
  · next hfilled =>
      cases h
      have hfs : fs ≠ [] := by
        rintro rfl
        exact hfilled rfl
      refine ⟨⟨negative, ws, fs, none, hne, hzero, fun hnil => absurd hnil hfs⟩, ?_, ?_⟩
      · simp [Number.chars, exponentChars]
      · simp [Number.value, hdigits, hfs, hlength]

/-! ## Values -/

theorem eq_append_of_after? {w : String} {cs rest : List Char} (h : after? w cs = some rest) :
    cs = w.toList ++ rest := by
  rw [after?] at h
  split at h
  · next hprefix =>
      obtain ⟨tail, rfl⟩ := List.isPrefixOf_iff_prefix.1 hprefix
      cases h
      rw [← String.length_toList, List.drop_left]
  · cases h

theorem exists_value_of_readAtom {cs rest : List Char} {v : Json}
    (h : readAtom .refuse cs = .ok (v, rest)) :
    ∃ t : Value, cs = t.chars ++ rest ∧ t.value = v ∧ t.nesting = 0 := by
  unfold readAtom at h
  split at h
  · next hnull =>
      cases h
      exact ⟨.null, eq_append_of_after? hnull, rfl, rfl⟩
  split at h
  · next htrue =>
      cases h
      exact ⟨.bool true, eq_append_of_after? htrue, rfl, rfl⟩
  split at h
  · next hfalse =>
      cases h
      exact ⟨.bool false, eq_append_of_after? hfalse, rfl, rfl⟩
  -- The three names are refused.
  split at h
  · cases h
  split at h
  · cases h
  split at h
  · cases h
  obtain ⟨n, rfl, rfl⟩ := exists_number_of_readNumber h
  exact ⟨.number n, rfl, rfl, rfl⟩

/-- Whether `c` opens an array or an object. -/
def isOpening (c : Char) : Bool := c = '[' || c = '\x7b'

/-- What reading a value with more fuel comes to. -/
inductive ValueStep (fuel : Nat) : Nat → List Char → Reading Json → Prop
  | string {depth : Nat} {cs : List Char} :
      ValueStep fuel depth ('"' :: cs)
        ((readString ('"' :: cs) fuel cs).map fun x => (.str x.1, x.2))
  | emptyArray {depth : Nat} {cs rest : List Char} (hclose : skipSpace cs = ']' :: rest) :
      ValueStep fuel (depth + 1) ('[' :: cs) (.ok (.arr [], rest))
  | array {depth : Nat} {cs : List Char} :
      ValueStep fuel (depth + 1) ('[' :: cs)
        ((readItems .refuse depth fuel (skipSpace cs)).map fun x => (.arr x.1, x.2))
  | emptyObject {depth : Nat} {cs rest : List Char} (hclose : skipSpace cs = '\x7d' :: rest) :
      ValueStep fuel (depth + 1) ('\x7b' :: cs) (.ok (.obj [], rest))
  | object {depth : Nat} {cs : List Char} :
      ValueStep fuel (depth + 1) ('\x7b' :: cs)
        ((readFields .refuse depth fuel (skipSpace cs)).map
          fun x => (.obj (Assoc.ofList x.1), x.2))
  | deep {c : Char} {cs : List Char} {n : Nesting} (hopen : isOpening c = true) :
      ValueStep fuel 0 (c :: cs) (.error (.depth n))
  | atom {depth : Nat} {cs : List Char} : ValueStep fuel depth cs (readAtom .refuse cs)
  | complaint {depth : Nat} {cs : List Char} {what : Complaint} {left : Nat} :
      ValueStep fuel depth cs (.error (.at what left))

theorem readValue_step (depth fuel : Nat) (cs : List Char) :
    ValueStep fuel depth cs (readValue .refuse depth (fuel + 1) cs) := by
  rw [readValue.eq_def]
  cases cs with
  | nil => exact .complaint
  | cons c cs =>
      dsimp only
      split
      · next hquote =>
          subst hquote
          exact .string
      split
      · next hbracket =>
          subst hbracket
          cases depth with
          | zero => exact .deep rfl
          | succ depth =>
              dsimp only
              split
              · next hclose => exact .emptyArray hclose
              · exact .array
      split
      · next hbrace =>
          subst hbrace
          cases depth with
          | zero => exact .deep rfl
          | succ depth =>
              dsimp only
              split
              · next hclose => exact .emptyObject hclose
              · exact .object
      · exact .atom

/-- What reading the items of an array with more fuel comes to. -/
inductive ItemsStep (depth fuel : Nat) (cs : List Char) :
    Except Fault (List Json × List Char) → Prop
  | value {f : Fault} (h : readValue .refuse depth fuel cs = .error f) :
      ItemsStep depth fuel cs (.error f)
  | last {v : Json} {behind rest : List Char}
      (h : readValue .refuse depth fuel cs = .ok (v, behind))
      (hclose : skipSpace behind = ']' :: rest) : ItemsStep depth fuel cs (.ok ([v], rest))
  | next {v : Json} {behind tail : List Char}
      (h : readValue .refuse depth fuel cs = .ok (v, behind))
      (hcomma : skipSpace behind = ',' :: tail) :
      ItemsStep depth fuel cs
        ((readItems .refuse depth fuel (skipSpace tail)).map fun x => (v :: x.1, x.2))
  | complaint {what : Complaint} {left : Nat} : ItemsStep depth fuel cs (.error (.at what left))

theorem readItems_step (depth fuel : Nat) (cs : List Char) :
    ItemsStep depth fuel cs (readItems .refuse depth (fuel + 1) cs) := by
  cases h : readValue .refuse depth fuel cs with
  | error f =>
      rw [readItems_error h]
      exact .value h
  | ok x =>
      rw [readItems, h]
      simp only [bind, Except.bind]
      split
      · next hclose => exact .last h hclose
      · next tail hcomma =>
          have hnext := ItemsStep.next h hcomma
          cases hitems : readItems .refuse depth fuel (skipSpace tail) with
          | error f => simpa [hitems, Except.map] using hnext
          | ok y => simpa [hitems, Except.map] using hnext
      · exact .complaint

/-- What reading the fields of an object with more fuel comes to. -/
inductive FieldsStep (depth fuel : Nat) (cs : List Char) :
    Except Fault (List (Text × Json) × List Char) → Prop
  | key {tail : List Char} {f : Fault} (hquote : cs = '"' :: tail)
      (hkey : readString cs fuel tail = .error f) : FieldsStep depth fuel cs (.error f)
  | value {k : Key} {tail : List Char} {f : Fault} (hkey : cs = k.chars ++ tail)
      (h : readValue .refuse depth fuel tail = .error f) : FieldsStep depth fuel cs (.error f)
  | last {k : Key} {tail behind rest : List Char} {v : Json} (hkey : cs = k.chars ++ tail)
      (h : readValue .refuse depth fuel tail = .ok (v, behind))
      (hclose : skipSpace behind = '\x7d' :: rest) :
      FieldsStep depth fuel cs (.ok ([(meaning k.pieces, v)], rest))
  | next {k : Key} {tail behind tail' : List Char} {v : Json} (hkey : cs = k.chars ++ tail)
      (h : readValue .refuse depth fuel tail = .ok (v, behind))
      (hcomma : skipSpace behind = ',' :: tail') :
      FieldsStep depth fuel cs ((readFields .refuse depth fuel (skipSpace tail')).map
        fun x => ((meaning k.pieces, v) :: x.1, x.2))
  | complaint {what : Complaint} {left : Nat} : FieldsStep depth fuel cs (.error (.at what left))

theorem readFields_step (depth fuel : Nat) (cs : List Char) :
    FieldsStep depth fuel cs (readFields .refuse depth (fuel + 1) cs) := by
  rw [readFields.eq_def]
  dsimp only
  split
  · next tail =>
      cases hname : readString ('"' :: tail) fuel tail with
      | error f => exact .key rfl hname
      | ok x =>
          obtain ⟨name, behind⟩ := x
          obtain ⟨ps, rfl, rfl⟩ := exists_pieces_of_readString hname
          obtain ⟨after, hafter⟩ := exists_space behind
          simp only [bind, Except.bind]
          split
          · next tail hcolon =>
              obtain ⟨before, hbefore⟩ := exists_space tail
              have hkey : '"' :: (ps.flatMap Piece.chars ++ '"' :: behind) =
                  Key.chars ⟨ps, after, before⟩ ++ skipSpace tail := by
                conv_lhs => rw [hafter, hcolon, hbefore]
                simp [Key.chars, stringChars]
              cases h : readValue .refuse depth fuel (skipSpace tail) with
              | error f => exact .value hkey h
              | ok x =>
                  dsimp only
                  split
                  · next hclose => exact .last hkey h hclose
                  · next tail' hcomma =>
                      have hnext := FieldsStep.next hkey h hcomma
                      cases hfields : readFields .refuse depth fuel (skipSpace tail') with
                      | error f => simpa [hfields, Except.map] using hnext
                      | ok y => simpa [hfields, Except.map] using hnext
                  · exact .complaint
          · exact .complaint
  · exact .complaint

/-- What a reading function with the given fuel accepts comes from trees. -/
structure Inverted (fuel : Nat) : Prop where
  value : ∀ {depth : Nat} {cs rest : List Char} {v : Json},
    readValue .refuse depth fuel cs = .ok (v, rest) →
      ∃ t : Value, cs = t.chars ++ rest ∧ t.value = v ∧ t.nesting ≤ depth
  items : ∀ {depth : Nat} {cs rest : List Char} {vs : List Json},
    readItems .refuse depth fuel cs = .ok (vs, rest) →
      ∃ t : Items, cs = t.chars ++ rest ∧ t.values = vs ∧ t.nesting ≤ depth
  fields : ∀ {depth : Nat} {cs rest : List Char} {fs : List (Text × Json)},
    readFields .refuse depth fuel cs = .ok (fs, rest) →
      ∃ t : Fields, cs = t.chars ++ rest ∧ t.values = fs ∧ t.nesting ≤ depth

namespace Inverted

variable {fuel depth : Nat} {cs rest : List Char}

theorem zero : Inverted 0 where
  value h := by
    rw [readValue] at h
    cases h
  items h := by
    rw [readItems] at h
    cases h
  fields h := by
    rw [readFields] at h
    cases h

theorem exists_of_map {α β : Type} {r : Reading α} {f : α → β} {b : β}
    (h : (r.map fun x => (f x.1, x.2)) = .ok (b, rest)) : ∃ a, r = .ok (a, rest) ∧ f a = b := by
  cases r with
  | error e => cases h
  | ok x =>
      cases h
      exact ⟨x.1, rfl, rfl⟩

theorem succ_value (h : Inverted fuel) {v : Json}
    (hread : readValue .refuse depth (fuel + 1) cs = .ok (v, rest)) :
    ∃ t : Value, cs = t.chars ++ rest ∧ t.value = v ∧ t.nesting ≤ depth := by
  have hstep := readValue_step depth fuel cs
  rw [hread] at hstep
  generalize hr : (Except.ok (v, rest) : Reading Json) = r at hstep
  cases hstep with
  | string =>
      obtain ⟨s, hs, rfl⟩ := exists_of_map hr.symm
      obtain ⟨ps, rfl, rfl⟩ := exists_pieces_of_readString hs
      exact ⟨.string ps, by simp [Value.chars, stringChars], rfl, Nat.zero_le depth⟩
  | @emptyArray depth cs _ hclose =>
      cases hr
      obtain ⟨s, hs⟩ := exists_space cs
      refine ⟨.emptyArray s, ?_, rfl, Nat.succ_le_succ (Nat.zero_le depth)⟩
      rw [hs, hclose]
      simp [Value.chars]
  | @array depth cs =>
      obtain ⟨vs, hvs, rfl⟩ := exists_of_map hr.symm
      obtain ⟨t, hchars, rfl, hnesting⟩ := h.items hvs
      obtain ⟨s, hs⟩ := exists_space cs
      refine ⟨.array s t, ?_, rfl, Nat.succ_le_succ hnesting⟩
      rw [hs, hchars]
      simp [Value.chars]
  | @emptyObject depth cs _ hclose =>
      cases hr
      obtain ⟨s, hs⟩ := exists_space cs
      refine ⟨.emptyObject s, ?_, rfl, Nat.succ_le_succ (Nat.zero_le depth)⟩
      rw [hs, hclose]
      simp [Value.chars]
  | @object depth cs =>
      obtain ⟨fs, hfs, rfl⟩ := exists_of_map (f := fun fs => Json.obj (Assoc.ofList fs)) hr.symm
      obtain ⟨t, hchars, rfl, hnesting⟩ := h.fields hfs
      obtain ⟨s, hs⟩ := exists_space cs
      refine ⟨.object s t, ?_, rfl, Nat.succ_le_succ hnesting⟩
      rw [hs, hchars]
      simp [Value.chars]
  | deep | complaint => cases hr
  | atom =>
      obtain ⟨t, hchars, rfl, hnesting⟩ := exists_value_of_readAtom hr.symm
      exact ⟨t, hchars, rfl, hnesting.trans_le (Nat.zero_le depth)⟩

theorem succ_items (h : Inverted fuel) {vs : List Json}
    (hread : readItems .refuse depth (fuel + 1) cs = .ok (vs, rest)) :
    ∃ t : Items, cs = t.chars ++ rest ∧ t.values = vs ∧ t.nesting ≤ depth := by
  have hstep := readItems_step depth fuel cs
  rw [hread] at hstep
  generalize hr : (Except.ok (vs, rest) : Except Fault _) = r at hstep
  cases hstep with
  | value | complaint => cases hr
  | @last v behind _ hv hclose =>
      cases hr
      obtain ⟨t, rfl, rfl, hnesting⟩ := h.value hv
      obtain ⟨after, hafter⟩ := exists_space behind
      refine ⟨.last t after, ?_, rfl, hnesting⟩
      rw [hafter, hclose]
      simp [Items.chars]
  | @next v behind tail hv hcomma =>
      obtain ⟨ws, hitems, rfl⟩ := exists_of_map hr.symm
      obtain ⟨t, rfl, rfl, hnesting⟩ := h.value hv
      obtain ⟨ts, hchars, rfl, hothers⟩ := h.items hitems
      obtain ⟨after, hafter⟩ := exists_space behind
      obtain ⟨before, hbefore⟩ := exists_space tail
      refine ⟨.next t after before ts, ?_, rfl, max_le hnesting hothers⟩
      rw [hafter, hcomma, hbefore, hchars]
      simp [Items.chars]

theorem succ_fields (h : Inverted fuel) {fs : List (Text × Json)}
    (hread : readFields .refuse depth (fuel + 1) cs = .ok (fs, rest)) :
    ∃ t : Fields, cs = t.chars ++ rest ∧ t.values = fs ∧ t.nesting ≤ depth := by
  have hstep := readFields_step depth fuel cs
  rw [hread] at hstep
  generalize hr : (Except.ok (fs, rest) : Except Fault _) = r at hstep
  cases hstep with
  | key | value | complaint => cases hr
  | @last k tail behind _ v hkey hv hclose =>
      cases hr
      obtain ⟨t, rfl, rfl, hnesting⟩ := h.value hv
      obtain ⟨after, hafter⟩ := exists_space behind
      refine ⟨.last k t after, ?_, rfl, hnesting⟩
      rw [hkey, hafter, hclose]
      simp [Fields.chars]
  | @next k tail behind tail' v hkey hv hcomma =>
      obtain ⟨gs, hfields, rfl⟩ := exists_of_map hr.symm
      obtain ⟨t, rfl, rfl, hnesting⟩ := h.value hv
      obtain ⟨ts, hchars, rfl, hothers⟩ := h.fields hfields
      obtain ⟨after, hafter⟩ := exists_space behind
      obtain ⟨before, hbefore⟩ := exists_space tail'
      refine ⟨.next k t after before ts, ?_, rfl, max_le hnesting hothers⟩
      rw [hkey, hafter, hcomma, hbefore, hchars]
      simp [Fields.chars]

theorem all : (fuel : Nat) → Inverted fuel
  | 0 => zero
  | fuel + 1 => ⟨(all fuel).succ_value, (all fuel).succ_items, (all fuel).succ_fields⟩

end Inverted

/-- **The reader accepts exactly the format.**  A text is read exactly when it is that of a document
which is nested no deeper than the reader goes, and what is read is the value of the document. -/
theorem read_eq_ok_iff (depth : Nat) (cs : List Char) (v : Json) :
    read .refuse depth cs = .ok v ↔
      ∃ t : Document, t.chars = cs ∧ t.value = v ∧ t.nesting ≤ depth := by
  constructor
  · intro h
    rw [read.eq_def] at h
    split at h
    · cases h
    split at h
    · cases h
    next w behind hread =>
    split at h
    · next hspace =>
        cases h
        obtain ⟨t, hchars, rfl, hnesting⟩ := (Inverted.all _).value hread
        obtain ⟨before, hbefore⟩ := exists_space cs
        obtain ⟨after, hafter⟩ := exists_space behind
        refine ⟨⟨before, t, after⟩, ?_, rfl, hnesting⟩
        rw [hspace, List.append_nil] at hafter
        rw [hbefore, hchars, hafter]
        rfl
    · cases h
  · rintro ⟨t, rfl, rfl, hnesting⟩
    exact t.read_chars .refuse hnesting

/-! ## Texts that are nested too deeply -/

theorem error_of_consPoint {p : CodePoint} {r : Reading Text} {f : Fault}
    (h : consPoint p r = .error f) : r = .error f := by
  cases r with
  | error e => exact h
  | ok x => cases h

theorem readString_ne_depth {opening cs : List Char} {fuel : Nat} {n : Nesting} :
    readString opening fuel cs ≠ .error (.depth n) := by
  intro h
  fun_induction readString opening fuel cs <;>
    first | cases h | exact absurd (error_of_consPoint h) ‹_›

theorem readNumber_ne_depth {cs : List Char} {n : Nesting} :
    readNumber cs ≠ .error (.depth n) := by
  intro h
  rw [readNumber.eq_def] at h
  dsimp only at h
  split at h
  · cases h
  split at h
  · cases h
  split at h
  · split at h <;> cases h
  · cases h

theorem readAtom_ne_depth {cs : List Char} {n : Nesting} :
    readAtom .refuse cs ≠ .error (.depth n) := by
  intro h
  unfold readAtom readName at h
  repeat' split at h
  all_goals first | cases h | exact readNumber_ne_depth h

theorem countP_skipSpace_le (cs : List Char) :
    (skipSpace cs).countP isOpening ≤ cs.countP isOpening :=
  (List.dropWhile_sublist _).countP_le

theorem countP_behind_le {front behind tail : List Char} {c : Char}
    (h : skipSpace behind = c :: tail) :
    (skipSpace tail).countP isOpening ≤ (front ++ behind).countP isOpening := by
  have htail : (c :: tail).Sublist (front ++ behind) :=
    h ▸ (List.dropWhile_sublist _).trans (List.sublist_append_right front behind)
  have hskip : (skipSpace tail).Sublist (c :: tail) :=
    (List.dropWhile_sublist _).trans (List.sublist_cons_self c tail)
  exact (hskip.trans htail).countP_le

/-- Where a reading function complains about the depth, more values are opened than it may go
into. -/
structure Opened (fuel : Nat) : Prop where
  value : ∀ {depth : Nat} {cs : List Char} {n : Nesting},
    readValue .refuse depth fuel cs = .error (.depth n) → depth < cs.countP isOpening
  items : ∀ {depth : Nat} {cs : List Char} {n : Nesting},
    readItems .refuse depth fuel cs = .error (.depth n) → depth < cs.countP isOpening
  fields : ∀ {depth : Nat} {cs : List Char} {n : Nesting},
    readFields .refuse depth fuel cs = .error (.depth n) → depth < cs.countP isOpening

namespace Opened

variable {fuel depth : Nat} {cs : List Char} {n : Nesting}

theorem zero : Opened 0 where
  value h := by
    rw [readValue] at h
    cases h
  items h := by
    rw [readItems] at h
    cases h
  fields h := by
    rw [readFields] at h
    cases h

theorem error_of_map {α β : Type} {r : Except Fault α} {f : α → β} {e : Fault}
    (h : r.map f = .error e) : r = .error e := by
  cases r with
  | error e' =>
      cases h
      rfl
  | ok x => cases h

theorem succ_value (h : Opened fuel)
    (hread : readValue .refuse depth (fuel + 1) cs = .error (.depth n)) :
    depth < cs.countP isOpening := by
  have hstep := readValue_step depth fuel cs
  rw [hread] at hstep
  generalize hr : (Except.error (Fault.depth n) : Reading Json) = r at hstep
  cases hstep with
  | string => exact absurd (error_of_map hr.symm) readString_ne_depth
  | emptyArray | emptyObject | complaint => cases hr
  | @array depth cs =>
      have hitems := (h.items (error_of_map hr.symm)).trans_le (countP_skipSpace_le cs)
      rw [List.countP_cons_of_pos rfl]
      exact Nat.succ_lt_succ hitems
  | @object depth cs =>
      have hfields := (h.fields (error_of_map hr.symm)).trans_le (countP_skipSpace_le cs)
      rw [List.countP_cons_of_pos rfl]
      exact Nat.succ_lt_succ hfields
  | deep hopen =>
      rw [List.countP_cons_of_pos hopen]
      exact Nat.succ_pos _
  | atom => exact absurd hr.symm readAtom_ne_depth

theorem succ_items (h : Opened fuel)
    (hread : readItems .refuse depth (fuel + 1) cs = .error (.depth n)) :
    depth < cs.countP isOpening := by
  have hstep := readItems_step depth fuel cs
  rw [hread] at hstep
  generalize hr : (Except.error (Fault.depth n) : Except Fault _) = r at hstep
  cases hstep with
  | value hv =>
      cases hr
      exact h.value hv
  | last | complaint => cases hr
  | next hv hcomma =>
      obtain ⟨t, rfl, -, -⟩ := (Inverted.all fuel).value hv
      have hitems := h.items (error_of_map hr.symm)
      exact hitems.trans_le (countP_behind_le hcomma)

theorem succ_fields (h : Opened fuel)
    (hread : readFields .refuse depth (fuel + 1) cs = .error (.depth n)) :
    depth < cs.countP isOpening := by
  have hstep := readFields_step depth fuel cs
  rw [hread] at hstep
  generalize hr : (Except.error (Fault.depth n) : Except Fault _) = r at hstep
  cases hstep with
  | key hquote hkey =>
      cases hr
      exact absurd hkey readString_ne_depth
  | value hkey hv =>
      cases hr
      rw [hkey, List.countP_append]
      exact (h.value hv).trans_le (Nat.le_add_left ..)
  | last | complaint => cases hr
  | next hkey hv hcomma =>
      obtain ⟨t, rfl, -, -⟩ := (Inverted.all fuel).value hv
      have hfields := h.fields (error_of_map hr.symm)
      rw [hkey, ← List.append_assoc]
      exact hfields.trans_le (countP_behind_le hcomma)

theorem all : (fuel : Nat) → Opened fuel
  | 0 => zero
  | fuel + 1 => ⟨(all fuel).succ_value, (all fuel).succ_items, (all fuel).succ_fields⟩

end Opened

/-- A text that is given up for its depth opens more arrays and objects than the reader goes
into. -/
theorem depth_lt_of_read {depth : Nat} {cs : List Char} {n : Nesting}
    (h : read .refuse depth cs = .error (.depth n)) : depth < cs.countP isOpening := by
  rw [read.eq_def] at h
  split at h
  · cases h
  split at h
  · next hread =>
      cases h
      exact ((Opened.all _).value hread).trans_le (countP_skipSpace_le cs)
  split at h <;> cases h

end Injection.Json.Syntax
