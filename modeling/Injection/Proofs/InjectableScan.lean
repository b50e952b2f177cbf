import Injection.Directive.Injectable
import Injection.Proofs.JsonReading
import Mathlib.Data.List.TakeWhile

/-!
# The first injectable directive

The search for the injectable directive passes over a whole token when something is glued to its
end.  What it finds is said here without a search.

* `Injectable.StandsAt`: a position with the token and no identifier character behind it.
* `Injectable.AliasRun`: the alias in the text behind a token.
* `scan_append`: text in which no directive starts changes nothing for what is behind it.  No
  directive is passed over, since the token holds its first character once
  (`scan_append_of_at_notMem`).
* **`scan_decided_by_first`**: the least position at which a directive stands decides the answer.
-/

namespace Injection.Injectable

/-- A directive stands at position `i`: the token is there, and no identifier character is glued to
its end. -/
structure StandsAt (cs : List Char) (i : Nat) : Prop where
  holds : token <+: cs.drop i
  ends : Ends isWordChar (cs.drop (i + token.length))

/-- Behind exactly one space or tab at the front of `rest` stands `name`: ASCII letters and digits,
at least one, and as many as there are. -/
structure AliasRun (rest name : List Char) : Prop where
  chars : ∃ gap tail, isGap gap = true ∧ rest = gap :: (name ++ tail) ∧ Ends Char.isAlphanum tail
  ne_nil : name ≠ []
  alphanum : ∀ c ∈ name, c.isAlphanum = true

variable {cs rest name : List Char} {i : Nat}

/-! ## The alias -/

theorem aliasOf_eq_some (h : AliasRun rest name) : aliasOf rest = some (String.ofList name) := by
  obtain ⟨⟨gap, tail, hgap, rfl, htail⟩, hne, halphanum⟩ := h
  rw [aliasOf, if_pos hgap, Ends.takeWhile_append halphanum htail]
  cases name with
  | nil => exact absurd rfl hne
  | cons c name => rfl

theorem aliasRun_of_aliasOf {word : String} (h : aliasOf rest = some word) :
    AliasRun rest word.toList := by
  cases rest with
  | nil => cases h
  | cons gap cs =>
      rw [aliasOf] at h
      split at h
      · next hgap =>
          split at h
          · cases h
          · next hne =>
              cases h
              rw [String.toList_ofList]
              exact ⟨⟨gap, _, hgap, by rw [List.takeWhile_append_dropWhile], .of_dropWhile _ cs⟩,
                hne, fun c hc => List.mem_takeWhile_imp hc⟩
      · cases h

/-- The alias is the run of letters and digits behind exactly one space or tab. -/
theorem aliasOf_eq_some_iff {word : String} :
    aliasOf rest = some word ↔ AliasRun rest word.toList := by
  refine ⟨aliasRun_of_aliasOf, fun h => ?_⟩
  rw [aliasOf_eq_some h, String.ofList_toList]

/-! ## Steps of the search -/

/-- Characters that are passed over count no more. -/
theorem scanFrom_eq_drop (skip : Nat) (cs : List Char) :
    scanFrom skip cs = scan (cs.drop skip) := by
  induction cs generalizing skip with
  | nil => cases skip <;> rfl
  | cons c cs ih =>
      cases skip with
      | zero => rfl
      | succ skip => rw [scanFrom, ih, List.drop_succ_cons]

theorem scan_cons_of_not_token {c : Char} (h : ¬ token <+: c :: cs) : scan (c :: cs) = scan cs := by
  have hnone : afterToken? token (c :: cs) = none := by
    rw [afterToken?, if_neg (by simpa using h)]
  rw [scan, scanFrom]
  simp only [hnone]
  rfl

/-- A token decides the answer, or the search goes on behind it. -/
theorem scan_token_append (rest : List Char) :
    scan (token ++ rest) = if startsWithWord rest then scan rest else some ⟨aliasOf rest⟩ := by
  have htoken : token ++ rest = '@' :: (token.tail ++ rest) := rfl
  have hafter : afterToken? token ('@' :: (token.tail ++ rest)) = some rest := by
    rw [← htoken, afterToken?, if_pos (by simp), List.drop_left]
  have hbehind : scanFrom (token.length - 1) (token.tail ++ rest) = scan rest := by
    rw [scanFrom_eq_drop, ← List.length_tail, List.drop_left]
  rw [htoken, scan, scanFrom]
  simp only [hafter, hbehind]

theorem startsWithWord_eq_false_iff : startsWithWord rest = false ↔ Ends isWordChar rest := by
  cases rest with
  | nil => simp [startsWithWord]
  | cons c cs => simp [startsWithWord]

/-- Text without the first character of the token is passed over. -/
theorem scan_append_of_at_notMem {front : List Char} (h : '@' ∉ front) (cs : List Char) :
    scan (front ++ cs) = scan cs := by
  induction front with
  | nil => rfl
  | cons c front ih =>
      rw [List.mem_cons, not_or] at h
      have hnone : ¬ token <+: c :: (front ++ cs) := by
        intro htoken
        have hat : token = '@' :: token.tail := rfl
        rw [hat] at htoken
        exact h.1 (List.cons_prefix_cons.1 htoken).1
      rw [List.cons_append, scan_cons_of_not_token hnone, ih h.2]

/-! ## Positions -/

theorem standsAt_append_iff (front cs : List Char) (i : Nat) :
    StandsAt (front ++ cs) (front.length + i) ↔ StandsAt cs i := by
  have hdrop (k : Nat) : (front ++ cs).drop (front.length + k) = cs.drop k :=
    List.drop_length_add_append ..
  constructor
  · rintro ⟨hholds, hends⟩
    rw [hdrop] at hholds
    rw [Nat.add_assoc, hdrop] at hends
    exact ⟨hholds, hends⟩
  · rintro ⟨hholds, hends⟩
    refine ⟨by rwa [hdrop], by rwa [Nat.add_assoc, hdrop]⟩

/-- The text from a directive on. -/
theorem StandsAt.scan_drop (h : StandsAt cs i) :
    scan (cs.drop i) = some ⟨aliasOf (cs.drop (i + token.length))⟩ := by
  obtain ⟨rest, hrest⟩ := h.holds
  have hbehind : cs.drop (i + token.length) = rest := by
    rw [← List.drop_drop, ← hrest, List.drop_left]
  have hends := h.ends
  rw [hbehind] at hends ⊢
  rw [← hrest, scan_token_append, if_neg]
  rw [startsWithWord_eq_false_iff.2 hends]
  exact Bool.false_ne_true

/-- A token at the front with something glued to it is passed over. -/
theorem scan_token_append_of_glued (h : ¬ StandsAt (token ++ rest) 0) :
    scan (token ++ rest) = scan rest := by
  rw [scan_token_append, if_pos]
  by_contra hends
  refine h ⟨List.prefix_append .., ?_⟩
  rw [Nat.zero_add, List.drop_left]
  exact startsWithWord_eq_false_iff.1 (Bool.eq_false_of_not_eq_true hends)

/-- The token holds its first character once. -/
theorem at_notMem_of_token_eq {c : Char} {front inside : List Char}
    (h : token = c :: front ++ inside) : '@' ∉ inside := by
  have htail : token.tail = front ++ inside := by
    rw [h]
    rfl
  intro hmem
  have hmem : '@' ∈ token.tail := htail ▸ List.mem_append_right front hmem
  exact absurd hmem (by decide)

/-- **Nothing in front of the first directive matters.**  A token with something glued to it is
passed over as a whole, but no directive starts inside of it. -/
theorem scan_append {front : List Char} (h : ∀ i < front.length, ¬ StandsAt (front ++ cs) i) :
    scan (front ++ cs) = scan cs := by
  -- A token may be passed over at once, so the induction is on the length and not on the list.
  induction hlength : front.length using Nat.strong_induction_on generalizing front with
  | h n ih =>
  subst hlength
  cases front with
  | nil => rfl
  | cons c front =>
      -- The rest of the text in front is text in front without a directive as well.
      have hlater {passed later : List Char} (hfront : c :: front = passed ++ later)
          (hne : passed ≠ []) : scan (later ++ cs) = scan cs := by
        have hsizes := congrArg List.length hfront
        rw [List.length_append] at hsizes
        have hpos := List.length_pos_iff.2 hne
        refine ih later.length (by omega) (fun i hi hstands => ?_) rfl
        refine h (passed.length + i) (by omega) ?_
        rw [hfront, List.append_assoc]
        exact (standsAt_append_iff passed (later ++ cs) i).2 hstands
      by_cases htoken : token <+: c :: front ++ cs
      · obtain ⟨rest, hrest⟩ := htoken
        have hglued : ¬ StandsAt (token ++ rest) 0 := hrest ▸ h 0 (Nat.zero_lt_succ _)
        rw [← hrest, scan_token_append_of_glued hglued]
        rcases List.append_eq_append_iff.1 hrest with
          ⟨later, hfront, rfl⟩ | ⟨inside, htoken, rfl⟩
        · exact hlater hfront (by decide)
        · -- The token ends behind the text in front, and no other starts in the part that is left.
          rw [scan_append_of_at_notMem (at_notMem_of_token_eq htoken)]
      · have hfront : c :: front = [c] ++ front := rfl
        rw [List.cons_append] at htoken ⊢
        rw [scan_cons_of_not_token htoken, hlater hfront (List.cons_ne_nil c [])]

/-- The least position at which a directive stands decides. -/
theorem scan_of_first (h : StandsAt cs i) (hfirst : ∀ j < i, ¬ StandsAt cs j) :
    scan cs = some ⟨aliasOf (cs.drop (i + token.length))⟩ := by
  have hfront : scan (cs.take i ++ cs.drop i) = scan (cs.drop i) := by
    refine scan_append fun j hj => ?_
    rw [List.take_append_drop]
    exact hfirst j (hj.trans_le (List.length_take_le i cs))
  rw [List.take_append_drop] at hfront
  rw [hfront, h.scan_drop]

theorem scan_eq_none (h : ∀ i, ¬ StandsAt cs i) : scan cs = none := by
  have hfront : scan (cs ++ []) = scan [] := scan_append fun i _ => by
    rw [List.append_nil]
    exact h i
  rw [List.append_nil] at hfront
  exact hfront

theorem exists_standsAt_of_scan {d : Injectable} (h : scan cs = some d) : ∃ i, StandsAt cs i := by
  by_contra hnone
  rw [scan_eq_none (not_exists.1 hnone)] at h
  cases h

/-- Tokens with something glued to them are passed over, however many there are. -/
theorem scan_glued_append {words : List (List Char)}
    (h : ∀ w ∈ words, w ≠ [] ∧ ∀ c ∈ w, isWordChar c = true) (cs : List Char) :
    scan (words.flatMap (token ++ ·) ++ cs) = scan cs := by
  induction words with
  | nil => rfl
  | cons w words ih =>
      obtain ⟨⟨hne, hword⟩, hwords⟩ := List.forall_mem_cons.1 h
      have hat : '@' ∉ w := fun hmem => absurd (hword '@' hmem) (by decide)
      obtain ⟨c, w', rfl⟩ := List.exists_cons_of_ne_nil hne
      have hglued : startsWithWord (c :: w' ++ (words.flatMap (token ++ ·) ++ cs)) = true :=
        hword c (List.mem_cons_self ..)
      rw [List.flatMap_cons, List.append_assoc, List.append_assoc, scan_token_append,
        if_pos hglued, scan_append_of_at_notMem hat, ih hwords]

/-- **The first directive decides.**  There is an answer exactly when a directive stands somewhere.
It is that of the least position at which one stands: its alias is the run of letters and digits
behind exactly one space or tab, if there is one.  Text in front in which no directive starts
changes nothing, and so do tokens with something glued to them, however many there are. -/
theorem scan_decided_by_first (cs : List Char) :
    ((scan cs).isSome = true ↔ ∃ i, StandsAt cs i) ∧
      (∀ i, StandsAt cs i → (∀ j < i, ¬ StandsAt cs j) →
        ∃ d, scan cs = some d ∧
          ∀ word : String, d.alias? = some word ↔
            AliasRun (cs.drop (i + token.length)) word.toList) ∧
      (∀ front, (∀ i < front.length, ¬ StandsAt (front ++ cs) i) →
        scan (front ++ cs) = scan cs) ∧
      ∀ words : List (List Char), (∀ w ∈ words, w ≠ [] ∧ ∀ c ∈ w, isWordChar c = true) →
        scan (words.flatMap (token ++ ·) ++ cs) = scan cs := by
  refine ⟨⟨fun h => ?_, ?_⟩, ?_, fun front => scan_append, fun words h => scan_glued_append h cs⟩
  · obtain ⟨d, hd⟩ := Option.isSome_iff_exists.1 h
    exact exists_standsAt_of_scan hd
  · intro h
    by_contra hnone
    obtain ⟨i, hi, hfirst⟩ : ∃ i, StandsAt cs i ∧ ∀ j < i, ¬ StandsAt cs j := by
      classical exact ⟨Nat.find h, Nat.find_spec h, fun j hj => Nat.find_min h hj⟩
    rw [scan_of_first hi hfirst] at hnone
    exact hnone rfl
  · intro i hi hfirst
    exact ⟨_, scan_of_first hi hfirst, fun word => aliasOf_eq_some_iff⟩

example : scan "@injectables @injectable_@injectable\tFoo9-x @injectable".toList =
    some ⟨some "Foo9"⟩ := rfl

end Injection.Injectable
