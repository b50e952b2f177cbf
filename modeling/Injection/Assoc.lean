/-! # Lists of keys with values

A list of pairs in which every key has one value.  Keys are listed in the order in which they were
first given; a later value for a key takes the place of the earlier one.

The tables of `AliasMap`, `LanguageRegistry` and `DIContainer` are such lists.
-/

namespace Injection.Assoc

variable {κ β : Type} [BEq κ]

/-- Give a key its value: a key that is there keeps its place, a new one comes last. -/
def assign (k : κ) (b : β) : List (κ × β) → List (κ × β)
  | [] => [(k, b)]
  | (j, c) :: rest => if j == k then (k, b) :: rest else (j, c) :: assign k b rest

/-- The list that giving the values one after the other makes. -/
def ofList (xs : List (κ × β)) : List (κ × β) := xs.foldl (fun acc x => assign x.1 x.2 acc) []

/-- Whether a key has a value. -/
def has (k : κ) (xs : List (κ × β)) : Bool := xs.any (·.1 == k)

theorem lookup_assign_self [LawfulBEq κ] (k : κ) (b : β) (xs : List (κ × β)) :
    (assign k b xs).lookup k = some b := by
  induction xs with
  | nil => simp [assign]
  | cons x rest ih =>
    unfold assign
    split
    · simp
    · next h =>
      have hk : (k == x.1) = false := by
        rw [beq_eq_false_iff_ne]
        intro e
        exact h (by rw [e]; exact beq_self_eq_true _)
      rw [List.lookup_cons, hk]
      exact ih

theorem lookup_assign_of_ne [LawfulBEq κ] {k j : κ} (h : j ≠ k) (b : β) (xs : List (κ × β)) :
    (assign k b xs).lookup j = xs.lookup j := by
  have hj : (j == k) = false := beq_eq_false_iff_ne.mpr h
  induction xs with
  | nil => simp [assign, List.lookup_cons, hj]
  | cons x rest ih =>
    unfold assign
    split
    · next hx =>
      have hx : x.1 = k := eq_of_beq hx
      rw [List.lookup_cons, List.lookup_cons, hj, hx, hj]
    · rw [List.lookup_cons, List.lookup_cons, ih]

end Injection.Assoc
