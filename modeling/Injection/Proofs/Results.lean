import Injection.Act
import Mathlib.Data.List.Forall2

/-!
# Results of computations

When a computation with a log has a result, and what it is: of one that is mapped, of one behind an
entry, and of steps in sequence.  Of a computation on a state `Act.final` keeps the state and the
result, and forgets the log.
-/

namespace Injection

namespace Logged

variable {ε α β : Type}

theorem result_bind_return (x : Logged ε α) (f : α → β) :
    (x >>= fun a => pure (f a)).result = x.result.map f := by
  rw [result_bind]
  cases x.result <;> rfl

theorem result_bind_return_eq_ok_iff {x : Logged ε α} {f : α → β} {b : β} :
    (x >>= fun a => pure (f a)).result = .ok b ↔ ∃ a, x.result = .ok a ∧ f a = b := by
  rw [result_bind_return]
  cases x.result with
  | error e =>
      constructor
      · intro h
        cases h
      · rintro ⟨a, h, -⟩
        cases h
  | ok a =>
      constructor
      · intro h
        exact ⟨a, rfl, Except.ok.inj h⟩
      · rintro ⟨a, h, rfl⟩
        cases h
        rfl

/-- Writing an entry does not matter to the result. -/
theorem result_write_bind (level : Level) (message : String) (x : Logged ε β) :
    (write level message >>= fun _ => x).result = x.result := by
  rw [result_bind, result_write]
  rfl

end Logged

namespace Act

variable {σ ε ε' α β : Type} {x : Act σ ε α} {f : α → Act σ ε β} {s t : σ}

/-- The state that a computation leaves, and its result. -/
def final (x : Act σ ε α) (s : σ) : σ × Except ε α := ((x s).1, (x s).2.result)

theorem final_bind_ok {a : α} (h : x.final s = (t, .ok a)) : (x >>= f).final s = (f a).final t := by
  obtain ⟨rfl, hresult⟩ := Prod.mk.inj h
  rw [final, bind_run_ok hresult]
  rfl

theorem final_bind_error {e : ε} (h : x.final s = (t, .error e)) :
    (x >>= f).final s = (t, .error e) := by
  obtain ⟨rfl, hresult⟩ := Prod.mk.inj h
  rw [final, bind_run_error hresult]

@[simp] theorem final_ofLogged (x : Logged ε α) (s : σ) : (ofLogged x).final s = (s, x.result) :=
  rfl

@[simp] theorem final_ofExcept (x : Except ε α) (s : σ) : (ofExcept x).final s = (s, x) := rfl

@[simp] theorem final_attempt (x : Act σ ε α) (s : σ) :
    (attempt x : Act σ ε' (Except ε α)).final s = ((x.final s).1, .ok (x.final s).2) := rfl

end Act

/-- Two steps succeed if the first one does and the second one behind it. -/
theorem bind_eq_ok_iff {ε α β : Type} {x : Except ε α} {f : α → Except ε β} {b : β} :
    (x >>= f) = .ok b ↔ ∃ a, x = .ok a ∧ f a = .ok b := by
  cases x with
  | error e => exact iff_of_false (by rintro ⟨⟩) (by rintro ⟨_, ⟨⟩, -⟩)
  | ok a =>
      refine ⟨fun h => ⟨a, rfl, h⟩, ?_⟩
      rintro ⟨_, ⟨⟩, h⟩
      exact h

/-- Two steps fail if the first one does, or the second one behind it. -/
theorem of_bind_eq_error {ε α β : Type} {x : Except ε α} {g : α → Except ε β} {f : ε}
    (h : (x >>= g) = .error f) : x = .error f ∨ ∃ a, x = .ok a ∧ g a = .error f := by
  cases x with
  | error e =>
      cases h
      exact .inl rfl
  | ok a => exact .inr ⟨a, rfl, h⟩

/-- A result that was mapped and is there came from a result. -/
theorem exists_of_map_eq_ok {ε α β : Type} {r : Except ε α} {f : α → β} {b : β}
    (h : r.map f = .ok b) : ∃ a, r = .ok a ∧ f a = b := by
  cases r with
  | error e => cases h
  | ok a => exact ⟨a, rfl, Except.ok.inj h⟩

/-- Related lists have partners for all their members. -/
theorem exists_of_forall₂ {α β : Type} {R : α → β → Prop} {as : List α} {bs : List β}
    (h : List.Forall₂ R as bs) : (∀ a ∈ as, ∃ b ∈ bs, R a b) ∧ ∀ b ∈ bs, ∃ a ∈ as, R a b := by
  induction h with
  | nil => simp
  | cons hab _ ih =>
      refine ⟨List.forall_mem_cons.2 ⟨⟨_, List.mem_cons_self, hab⟩, fun a ha => ?_⟩,
        List.forall_mem_cons.2 ⟨⟨_, List.mem_cons_self, hab⟩, fun b hb => ?_⟩⟩
      · obtain ⟨b, hb, hR⟩ := ih.1 a ha
        exact ⟨b, List.mem_cons_of_mem _ hb, hR⟩
      · obtain ⟨a, ha, hR⟩ := ih.2 b hb
        exact ⟨a, List.mem_cons_of_mem _ ha, hR⟩

/-- The results of steps in sequence are those of the steps, one for each. -/
theorem mapM_eq_ok_iff_forall₂ {ε α β : Type} {f : α → Except ε β} {xs : List α} {ys : List β} :
    xs.mapM f = .ok ys ↔ List.Forall₂ (fun x y => f x = .ok y) xs ys := by
  induction xs generalizing ys with
  | nil =>
      rw [List.mapM_nil, List.forall₂_nil_left_iff]
      exact ⟨fun h => (Except.ok.inj h).symm, fun h => congrArg Except.ok h.symm⟩
  | cons x xs ih =>
      rw [List.mapM_cons, List.forall₂_cons_left_iff]
      simp only [← ih]
      cases hx : f x with
      | error e => exact iff_of_false nofun (by rintro ⟨y, zs, ⟨⟩, -, -⟩)
      | ok y =>
          cases hxs : xs.mapM f with
          | error e => exact iff_of_false nofun (by rintro ⟨y, zs, -, ⟨⟩, -⟩)
          | ok zs =>
              constructor
              · rintro ⟨⟩
                exact ⟨y, zs, rfl, rfl, rfl⟩
              · rintro ⟨_, _, ⟨⟩, ⟨⟩, rfl⟩
                rfl

/-- Steps in sequence have results exactly when every step has one. -/
theorem exists_mapM_eq_ok_iff {ε α β : Type} {f : α → Except ε β} {xs : List α} :
    (∃ ys, xs.mapM f = .ok ys) ↔ ∀ x ∈ xs, ∃ y, f x = .ok y := by
  simp only [mapM_eq_ok_iff_forall₂]
  constructor
  · rintro ⟨ys, h⟩ x hx
    obtain ⟨y, -, hy⟩ := (exists_of_forall₂ h).1 x hx
    exact ⟨y, hy⟩
  · intro h
    induction xs with
    | nil => exact ⟨[], .nil⟩
    | cons x xs ih =>
        obtain ⟨⟨y, hy⟩, hxs⟩ := List.forall_mem_cons.1 h
        obtain ⟨ys, hys⟩ := ih hxs
        exact ⟨y :: ys, .cons hy hys⟩

/-- A result that passes a test is there. -/
theorem exists_of_toOption_any {ε α : Type} {r : Except ε α} {p : α → Bool}
    (h : r.toOption.any p = true) : ∃ a, r = .ok a ∧ p a = true := by
  cases r with
  | error e => cases h
  | ok a => exact ⟨a, rfl, h⟩

end Injection
