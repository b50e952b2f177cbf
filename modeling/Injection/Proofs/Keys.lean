import Injection.Assoc
import Mathlib.Data.List.Basic
import Mathlib.Data.List.Induction
import Mathlib.Data.Prod.Basic

/-!
# Keys that are given again

Giving a key a value changes that value in its place, or adds the key at the end.  A list of keys
that is built so has each key once, at the place where it was first given.

* `exists_append_of_lookup` and `assign_eq_append`: what giving a value does to the list, for a key
  that is there and for a new one.
* `ofList_eq_self`: distinct keys are listed as they are given.
* `ofList_map`: a key that is given again with its value keeps its first place.
-/

namespace Injection.Assoc

variable {κ β : Type} [BEq κ] {k : κ} {b c : β} {xs : List (κ × β)}

/-- What is listed was listed before, or is what was given. -/
theorem mem_of_mem_assign {x : κ × β} (h : x ∈ assign k b xs) : x = (k, b) ∨ x ∈ xs := by
  induction xs with
  | nil => exact Or.inl (List.mem_singleton.1 h)
  | cons y ys ih =>
      unfold assign at h
      split at h
      · rcases List.mem_cons.1 h with rfl | h
        · exact Or.inl rfl
        · exact Or.inr (List.mem_cons_of_mem y h)
      · rcases List.mem_cons.1 h with rfl | h
        · exact Or.inr List.mem_cons_self
        · exact (ih h).imp_right (List.mem_cons_of_mem y)

theorem ofList_concat (xs : List (κ × β)) (x : κ × β) :
    ofList (xs ++ [x]) = assign x.1 x.2 (ofList xs) := List.foldl_concat ..

theorem mem_of_mem_ofList {x : κ × β} (h : x ∈ ofList xs) : x ∈ xs := by
  induction xs using List.reverseRecOn with
  | nil => exact h
  | append_singleton xs y ih =>
      rw [ofList_concat] at h
      rcases mem_of_mem_assign h with rfl | h
      · exact List.mem_append_right xs List.mem_cons_self
      · exact List.mem_append_left [y] (ih h)

variable [LawfulBEq κ]

/-! ## The list behind an assignment -/

/-- A key that is there keeps its place. -/
theorem exists_append_of_lookup (h : xs.lookup k = some c) :
    ∃ front behind, xs = front ++ (k, c) :: behind ∧
      ∀ b, assign k b xs = front ++ (k, b) :: behind := by
  induction xs with
  | nil => cases h
  | cons x xs ih =>
      obtain ⟨j, d⟩ := x
      by_cases hj : j = k
      · subst hj
        rw [List.lookup_cons, beq_self_eq_true] at h
        cases h
        exact ⟨[], xs, rfl, fun b => by rw [assign, if_pos (beq_self_eq_true j), List.nil_append]⟩
      · have hk : (k == j) = false := beq_eq_false_iff_ne.2 (Ne.symm hj)
        rw [List.lookup_cons, hk] at h
        obtain ⟨front, behind, rfl, hassign⟩ := ih h
        refine ⟨(j, d) :: front, behind, rfl, fun b => ?_⟩
        rw [assign, if_neg (by simpa using hj), hassign, List.cons_append]

/-- A new key comes last. -/
theorem assign_eq_append (h : xs.lookup k = none) : assign k b xs = xs ++ [(k, b)] := by
  induction xs with
  | nil => rfl
  | cons x xs ih =>
      obtain ⟨j, c⟩ := x
      rw [assign]
      by_cases hj : j = k
      · subst hj
        rw [List.lookup_cons, beq_self_eq_true] at h
        cases h
      · have hk : (k == j) = false := beq_eq_false_iff_ne.2 (Ne.symm hj)
        rw [List.lookup_cons, hk] at h
        rw [if_neg (by simpa using hj), ih h, List.cons_append]

/-- A key whose value is found is listed. -/
theorem mem_map_fst_of_lookup (h : xs.lookup k = some c) : k ∈ xs.map (·.1) := by
  obtain ⟨front, behind, rfl, -⟩ := exists_append_of_lookup h
  simp

/-- Giving a key the value that it has changes nothing. -/
theorem assign_eq_self (h : xs.lookup k = some b) : assign k b xs = xs := by
  obtain ⟨front, behind, hxs, hassign⟩ := exists_append_of_lookup h
  rw [hassign, ← hxs]

/-- Giving a value to a key that is there changes no keys. -/
theorem map_fst_assign (h : xs.lookup k = some c) : (assign k b xs).map (·.1) = xs.map (·.1) := by
  obtain ⟨front, behind, rfl, hassign⟩ := exists_append_of_lookup h
  rw [hassign, List.map_append, List.map_append]
  rfl

/-- Of two values given to a key the second one stays. -/
theorem assign_assign (k : κ) (b c : β) (xs : List (κ × β)) :
    assign k c (assign k b xs) = assign k c xs := by
  induction xs with
  | nil => simp [assign]
  | cons x xs ih =>
      obtain ⟨j, d⟩ := x
      rw [assign]
      split
      · next hj => simp [assign, hj]
      · next hj => simp [assign, hj, ih]

/-! ## Keys that have a value -/

/-- A key has a value if looking it up gives one. -/
theorem has_eq_isSome_lookup (k : κ) (xs : List (κ × β)) : has k xs = (xs.lookup k).isSome := by
  induction xs with
  | nil => rfl
  | cons x xs ih =>
      obtain ⟨j, b⟩ := x
      rw [List.lookup_cons]
      by_cases hk : k = j
      · subst hk
        simp [has]
      · have hjk : (j == k) = false := beq_eq_false_iff_ne.2 (Ne.symm hk)
        have hkj : (k == j) = false := beq_eq_false_iff_ne.2 hk
        rw [hkj, ← ih]
        simp [has, hjk]

theorem has_assign_self (k : κ) (b : β) (xs : List (κ × β)) : has k (assign k b xs) = true := by
  rw [has_eq_isSome_lookup, lookup_assign_self]
  rfl

theorem has_assign_of_ne {k j : κ} (h : j ≠ k) (b : β) (xs : List (κ × β)) :
    has j (assign k b xs) = has j xs := by
  rw [has_eq_isSome_lookup, has_eq_isSome_lookup, lookup_assign_of_ne h]

/-- Giving a value to one key takes none from another. -/
theorem has_assign_of_has {j : κ} (k : κ) (b : β) {xs : List (κ × β)} (h : has j xs = true) :
    has j (assign k b xs) = true := by
  by_cases hj : j = k
  · rw [hj]
    exact has_assign_self k b xs
  · rw [has_assign_of_ne hj, h]

/-- A value that is found was there before, or is the one that was given. -/
theorem of_lookup_assign {k j : κ} {b x : β} {xs : List (κ × β)}
    (h : (assign k b xs).lookup j = some x) : b = x ∨ xs.lookup j = some x := by
  by_cases hj : j = k
  · subst hj
    rw [lookup_assign_self] at h
    exact .inl (Option.some.inj h)
  · rw [lookup_assign_of_ne hj] at h
    exact .inr h

/-! ## Lists that are given one by one -/

/-- Distinct keys are listed as they are given. -/
theorem ofList_eq_self (h : (xs.map (·.1)).Nodup) : ofList xs = xs := by
  induction xs using List.reverseRecOn with
  | nil => rfl
  | append_singleton xs x ih =>
      rw [List.map_append, List.map_singleton, List.nodup_append] at h
      obtain ⟨hxs, -, hx⟩ := h
      have hnew : xs.lookup x.1 = none := by
        rw [List.lookup_eq_none_iff]
        intro p hp
        exact bne_iff_ne.2 (hx p.1 (List.mem_map_of_mem hp) x.1 (List.mem_singleton_self _)).symm
      rw [ofList_concat, ih hxs, assign_eq_append hnew]

variable {α : Type} [DecidableEq α] {f : α → κ × β}

/-- An element at the end is erased if it is there already. -/
theorem eraseDups_concat (xs : List α) (x : α) :
    (xs ++ [x]).eraseDups = if x ∈ xs then xs.eraseDups else xs.eraseDups ++ [x] := by
  rw [List.eraseDups_append]
  split_ifs with hx
  · simp [List.removeAll, hx]
  · simp [List.removeAll, hx, List.eraseDups_cons]

theorem lookup_map (hf : Function.Injective fun x => (f x).1) (ys : List α) (x : α) :
    (ys.map f).lookup (f x).1 = if x ∈ ys then some (f x).2 else none := by
  induction ys with
  | nil => rfl
  | cons y ys ih =>
      rw [List.map_cons, ← Prod.mk.eta (p := f y), List.lookup_cons]
      by_cases hxy : x = y
      · subst hxy
        simp
      · have hne : ((f x).1 == (f y).1) = false := beq_eq_false_iff_ne.2 fun h => hxy (hf h)
        rw [hne, ih]
        simp [hxy]

/-- Keys that are given with one value each are listed at their first places. -/
theorem ofList_map (hf : Function.Injective fun x => (f x).1) (xs : List α) :
    ofList (xs.map f) = xs.eraseDups.map f := by
  induction xs using List.reverseRecOn with
  | nil => rfl
  | append_singleton xs x ih =>
      have hlookup := lookup_map hf xs.eraseDups x
      simp only [List.mem_eraseDups] at hlookup
      rw [List.map_append, List.map_singleton, ofList_concat, ih, eraseDups_concat]
      by_cases hx : x ∈ xs
      · rw [if_pos hx] at hlookup ⊢
        rw [assign_eq_self hlookup]
      · rw [if_neg hx] at hlookup ⊢
        rw [assign_eq_append hlookup, List.map_append]
        rfl

end Injection.Assoc
