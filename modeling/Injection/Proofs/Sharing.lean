import Injection.Proofs.Histories

/-!
# Shared parts

Which requests for a shared interface are answered by one and the same part.

* `Factory.Spares`: a factory that registers nothing for an interface, nor do the factories that it
  registers.  `Sparing` says so of all factories of a container.
* `lookup_after`: a part that is kept stays until something is registered for its interface or all
  parts are stopped.
* `lookup_get`: behind a request for a shared interface the part that was handed out is kept.
* `Forgotten`: stopping all parts also forgets which interfaces are shared; the factories stay.
  From then on, until something is registered for the interface, every request for it makes a part
  of its own (`madeAnew_get`).

**`get_get`** puts this together for any two requests in any history.
-/

namespace Injection

/-- Whatever it is run on, the factory registers nothing for the interface `i`, and no factory that
it registers does. -/
inductive Factory.Spares {σ α : Type} (i : String) : Factory σ α → Prop
  | intro (f : Factory σ α)
      (hinterface : ∀ v args s, ∀ r ∈ (f.make v args s).registered, r.interface ≠ i)
      (hfactory : ∀ v args s j g shared, .factory j g shared ∈ (f.make v args s).registered →
        Spares i g) : Spares i f

/-- The factory that an operation registers spares the interface `i`. -/
def Operation.Spares {σ α : Type} (i : String) : Operation σ α → Prop
  | .register _ f _ => f.Spares i
  | _ => True

namespace Container

variable {σ α : Type} {k : Stopping σ α} {i : String} {f : Factory σ α} {a : α} {depth : Nat}
  {ops : List (Operation σ α)} {st : Container σ α × σ} {c d : Container σ α}

/-- A factory that leaves the container alone spares all interfaces. -/
theorem spares_ofAct (i : String) (ps : List Parameter)
    (make : List (String × Argument α) → Act σ Failure α) : (Factory.ofAct ps make).Spares i :=
  .intro _ (fun _ _ _ _ hr => absurd hr List.not_mem_nil)
    fun _ _ _ _ _ _ hr => absurd hr List.not_mem_nil

/-! ## What a history keeps -/

/-- All factories of a container spare the interface `i`. -/
def Sparing (i : String) (c : Container σ α) : Prop :=
  ∀ j f, c.factories.lookup j = some f → f.Spares i

theorem Sparing.register (h : Sparing i c) (hf : f.Spares i) (j : String) (shared : Bool) :
    Sparing i (c.register j f shared) := by
  intro j' g hg
  rcases Assoc.of_lookup_assign hg with rfl | hg
  · exact hf
  · exact h j' g hg

/-- What a factory registers that spares `i` changes nothing for `i`. -/
theorem accepted_of_spares (hf : f.Spares i) (h : Sparing i d) (args : List (String × Argument α))
    (s : σ) :
    Sparing i (accepted f args d s) ∧
      (accepted f args d s).services.lookup i = d.services.lookup i ∧
      (accepted f args d s).factories.lookup i = d.factories.lookup i ∧
      (accepted f args d s).singletons.lookup i = d.singletons.lookup i := by
  obtain ⟨_, hinterface, hfactory⟩ := hf
  refine foldl_accept_induction (P := fun c => Sparing i c ∧
    c.services.lookup i = d.services.lookup i ∧ c.factories.lookup i = d.factories.lookup i ∧
      c.singletons.lookup i = d.singletons.lookup i) (fun j g shared hmem c _ hc => ?_)
    (fun j b hmem c _ hc => ?_) ⟨h, rfl, rfl, rfl⟩
  · have hne : i ≠ j := (hinterface _ _ _ _ hmem).symm
    refine ⟨hc.1.register (hfactory _ _ _ _ _ _ hmem) j shared, hc.2.1,
      (Assoc.lookup_assign_of_ne hne _ _).trans hc.2.2.1, ?_⟩
    cases shared with
    | false => exact hc.2.2.2
    | true => exact (Assoc.lookup_assign_of_ne hne _ _).trans hc.2.2.2
  · have hne : i ≠ j := (hinterface _ _ _ _ hmem).symm
    exact ⟨hc.1, (Assoc.lookup_assign_of_ne hne _ _).trans hc.2.1, hc.2.2.1,
      (Assoc.lookup_assign_of_ne hne _ _).trans hc.2.2.2⟩

theorem ne_of_register {j : String} {g : Factory σ α} {shared : Bool}
    (hops : ∀ o ∈ ops, o.registers i = false) (hmem : .register j g shared ∈ ops) : i ≠ j := by
  rintro rfl
  simpa [Operation.registers] using hops _ hmem

theorem ne_of_keep {j : String} {b : α} (hops : ∀ o ∈ ops, o.registers i = false)
    (hmem : .keep j b ∈ ops) : i ≠ j := by
  rintro rfl
  simpa [Operation.registers] using hops _ hmem

/-! ### Factories that spare an interface -/

theorem invariant_sparing (i : String) :
    Invariant (Sparing i : Container σ α → Prop) fun _ _ => True :=
  invariant_of_container (fun hc hf hd args s => (accepted_of_spares (hc _ _ hf) hd args s).1)
    (fun _ hc => hc) (fun _ _ _ hd _ => hd)

theorem sparing_apply {o : Operation σ α} (hspares : o.Spares i) (h : Sparing i st.1) :
    Sparing i (o.apply depth k st).1 := by
  refine apply_invariant (invariant_sparing i) (fun _ _ hc => hc) ?_ (fun _ _ _ => h)
    (fun _ _ => h) h
  rintro j f shared rfl
  exact h.register hspares j shared

theorem sparing_after (hspares : ∀ o ∈ ops, o.Spares i) (h : Sparing i st.1) :
    Sparing i (after depth k ops st).1 :=
  after_invariant (invariant_sparing i) (fun _ _ hc => hc)
    (fun j _ shared hmem _ hc => hc.register (hspares _ hmem) j shared) (fun _ _ _ _ hc => hc)
    (fun _ _ hc => hc) h

/-! ### Parts that are kept -/

theorem invariant_lookup (i : String) (a : α) :
    Invariant (fun c : Container σ α => Sparing i c ∧ c.services.lookup i = some a)
      fun _ _ => True := by
  refine invariant_of_container (fun hc hf hd args s => ?_) (fun _ hc => hc)
    (fun {j c d} hc hnone _ hd b => ?_)
  · obtain ⟨hsparing, hservices, -⟩ := accepted_of_spares (hc.1 _ _ hf) hd.1 args s
    exact ⟨hsparing, hservices.trans hd.2⟩
  · have hne : i ≠ j := by
      rintro rfl
      rw [hc.2] at hnone
      cases hnone
    exact ⟨hd.1, (Assoc.lookup_assign_of_ne hne b _).trans hd.2⟩

/-- A part that is kept stays until something is registered for its interface or all is stopped. -/
theorem lookup_after (hspares : ∀ o ∈ ops, o.Spares i) (hops : ∀ o ∈ ops, o.registers i = false)
    (hstop : ¬Stopped depth k ops st) (hsparing : Sparing i st.1)
    (h : st.1.services.lookup i = some a) :
    (after depth k ops st).1.services.lookup i = some a := by
  refine (after_invariant (invariant_lookup i a) (fun c b hc => hc)
    (fun j g shared hmem c hc => ⟨hc.1.register (hspares _ hmem) j shared, hc.2⟩)
    (fun j b hmem c hc => ⟨hc.1, ?_⟩) (fun hstopped => absurd hstopped hstop) ⟨hsparing, h⟩).2
  exact (Assoc.lookup_assign_of_ne (ne_of_keep hops hmem) b _).trans hc.2

/-! ### Shared interfaces -/

theorem has_singletons_register (j : String) (g : Factory σ α) (shared : Bool)
    (h : Assoc.has i c.singletons = true) :
    Assoc.has i (c.register j g shared).singletons = true := by
  unfold register
  cases shared with
  | false => exact h
  | true => exact Assoc.has_assign_of_has j _ h

theorem invariant_shared (i : String) :
    Invariant (fun c : Container σ α => Assoc.has i c.singletons = true) fun _ _ => True := by
  refine invariant_of_container (fun _ _ hd args s => ?_) (fun _ hc => hc)
    (fun _ _ _ hd b => Assoc.has_assign_of_has _ _ hd)
  exact foldl_accept_induction (P := fun c : Container σ α => Assoc.has i c.singletons = true)
    (fun j g shared _ c _ hc => has_singletons_register j g shared hc)
    (fun j b _ c _ hc => Assoc.has_assign_of_has j _ hc) hd

/-- A shared interface stays shared until all is stopped. -/
theorem has_singletons_after (hstop : ¬Stopped depth k ops st)
    (h : Assoc.has i st.1.singletons = true) :
    Assoc.has i (after depth k ops st).1.singletons = true :=
  after_invariant (invariant_shared i) (fun _ _ hc => hc)
    (fun j g shared _ _ hc => has_singletons_register j g shared hc)
    (fun j _ _ _ hc => Assoc.has_assign_of_has j _ hc) (fun hstopped => absurd hstopped hstop) h

/-! ### Factories -/

theorem invariant_factory (i : String) (f : Factory σ α) :
    Invariant (fun c : Container σ α => Sparing i c ∧ c.factories.lookup i = some f)
      fun _ _ => True := by
  refine invariant_of_container (fun hc hg hd args s => ?_) (fun _ hc => hc)
    (fun _ _ _ hd b => hd)
  obtain ⟨hsparing, -, hfactories, -⟩ := accepted_of_spares (hc.1 _ _ hg) hd.1 args s
  exact ⟨hsparing, hfactories.trans hd.2⟩

/-- A factory stays until something else is registered for its interface, whatever is stopped. -/
theorem factory_after (hspares : ∀ o ∈ ops, o.Spares i) (hops : ∀ o ∈ ops, o.registers i = false)
    (hsparing : Sparing i st.1) (h : st.1.factories.lookup i = some f) :
    (after depth k ops st).1.factories.lookup i = some f := by
  refine (after_invariant (invariant_factory i f) (fun c b hc => hc)
    (fun j g shared hmem c hc => ⟨hc.1.register (hspares _ hmem) j shared, ?_⟩)
    (fun j b _ c hc => hc) (fun _ c hc => hc) ⟨hsparing, h⟩).2
  exact (Assoc.lookup_assign_of_ne (ne_of_register hops hmem) g _).trans hc.2

/-! ### What is forgotten -/

/-- An interface that is not shared and for which no part is kept. -/
structure Forgotten (i : String) (c : Container σ α) : Prop where
  not_shared : Assoc.has i c.singletons = false
  not_kept : c.services.lookup i = none

theorem forgotten_cleared (i : String) (c : Container σ α) : Forgotten i c.cleared := ⟨rfl, rfl⟩

theorem invariant_forgotten (i : String) :
    Invariant (fun c : Container σ α => Sparing i c ∧ Forgotten i c) fun _ _ => True := by
  refine invariant_of_container (fun hc hf hd args s => ?_) (fun _ hc => ⟨hc.1, hc.2.1, hc.2.2⟩)
    (fun {j c d} hc _ hshared hd b => ?_)
  · obtain ⟨hsparing, hservices, -, hsingletons⟩ :=
      accepted_of_spares (hc.1 _ _ hf) hd.1 args s
    refine ⟨hsparing, ?_, hservices.trans hd.2.not_kept⟩
    rw [Assoc.has_eq_isSome_lookup, hsingletons, ← Assoc.has_eq_isSome_lookup]
    exact hd.2.not_shared
  · have hne : i ≠ j := by
      rintro rfl
      rw [hc.2.not_shared] at hshared
      cases hshared
    exact ⟨hd.1, (Assoc.has_assign_of_ne hne _ _).trans hd.2.not_shared,
      (Assoc.lookup_assign_of_ne hne _ _).trans hd.2.not_kept⟩

/-- What is forgotten stays so until something is registered for it. -/
theorem forgotten_after (hspares : ∀ o ∈ ops, o.Spares i)
    (hops : ∀ o ∈ ops, o.registers i = false) (hsparing : Sparing i st.1)
    (h : Forgotten i st.1) : Forgotten i (after depth k ops st).1 := by
  refine (after_invariant (invariant_forgotten i) (fun c b hc => ⟨hc.1, hc.2.1, hc.2.2⟩)
    (fun j g shared hmem c hc => ⟨hc.1.register (hspares _ hmem) j shared, ?_⟩)
    (fun j b hmem c hc => ⟨hc.1, ?_⟩) (fun _ c hc => ⟨hc.1, forgotten_cleared i c⟩)
    ⟨hsparing, h⟩).2
  · refine ⟨?_, hc.2.not_kept⟩
    unfold register
    cases shared with
    | false => exact hc.2.not_shared
    | true => exact (Assoc.has_assign_of_ne (ne_of_register hops hmem) _ _).trans hc.2.not_shared
  · have hne := ne_of_keep hops hmem
    exact ⟨(Assoc.has_assign_of_ne hne _ _).trans hc.2.not_shared,
      (Assoc.lookup_assign_of_ne hne _ _).trans hc.2.not_kept⟩

/-- A stop that goes through makes a history forget the interface. -/
theorem forgotten_of_stopped (hspares : ∀ o ∈ ops, o.Spares i)
    (hops : ∀ o ∈ ops, o.registers i = false) (hsparing : Sparing i st.1)
    (hstopped : Stopped depth k ops st) : Forgotten i (after depth k ops st).1 := by
  induction ops generalizing st with
  | nil => cases hstopped
  | cons o ops ih =>
      have hone : Sparing i (o.apply depth k st).1 :=
        sparing_apply (hspares o (.head ops)) hsparing
      have hspares' : ∀ o ∈ ops, o.Spares i := fun o' ho' => hspares o' (.tail o ho')
      have hops' : ∀ o ∈ ops, o.registers i = false := fun o' ho' => hops o' (.tail o ho')
      rcases hstopped with ⟨rfl, hok⟩ | hlater
      · show Forgotten i (after depth k ops (Operation.apply depth k .stop st)).1
        refine forgotten_after hspares' hops' hone ?_
        show Forgotten i (stop k st).1.1
        rw [stop_container, if_pos hok]
        exact forgotten_cleared i st.1
      · exact ih hspares' hops' hone hlater

/-! ## Requests -/

/-- Behind a request for a shared interface the part that was handed out is kept. -/
theorem lookup_get (hshared : Assoc.has i st.1.singletons = true)
    (h : (get depth i st).2.result = .ok a) : (get depth i st).1.1.services.lookup i = some a := by
  cases depth with
  | zero => cases h
  | succ depth =>
      unfold get at h ⊢
      cases hfound : st.1.services.lookup i with
      | some b =>
          rw [obtain_found depth hfound] at h ⊢
          cases h
          exact hfound
      | none =>
          cases hfactory : st.1.factories.lookup i with
          | none =>
              rw [obtain_unknown depth hfound hfactory] at h
              cases h
          | some f =>
              rw [obtain_factory depth hfound hfactory] at h ⊢
              have hbuilt := built_build depth i f st
              rw [h] at hbuilt
              generalize (build depth i f st).1 = st' at hbuilt ⊢
              cases hbuilt with
              | made d t args _ hstate hargs hmake =>
                  rw [settle, if_pos hshared]
                  exact Assoc.lookup_assign_self i a _

/-- Between two states the factory made a part from arguments that are at hand; the part was noted
last, and it is not kept for the interface. -/
structure MadeAnew (f : Factory σ α) (i : String) (a : α) (st st' : Container σ α × σ) : Prop where
  noted : ∃ (others : List (Creation α)) (args : List (String × Argument α)) (v : View α) (t : σ),
    (f.make v args t).outcome.result = .ok a ∧ st'.2 = (f.make v args t).state ∧
      st'.1.created = st.1.created ++ (others ++ [⟨a, args⟩])
  not_kept : st'.1.services.lookup i = none

/-- A request for an interface that is forgotten makes a part, which is forgotten as well. -/
theorem madeAnew_get (hsparing : Sparing i st.1) (hfactory : st.1.factories.lookup i = some f)
    (hforgotten : Forgotten i st.1) (h : (get depth i st).2.result = .ok a) :
    MadeAnew f i a st (get depth i st).1 := by
  have hstays := ((invariant_forgotten i).get depth i ⟨hsparing, hforgotten⟩).2
  refine ⟨?_, hstays.not_kept⟩
  cases depth with
  | zero => cases h
  | succ depth =>
      unfold get at h ⊢
      rw [obtain_factory depth hforgotten.not_kept hfactory] at h ⊢
      have hbuilt := built_build depth i f st
      rw [h] at hbuilt
      generalize (build depth i f st).1 = st' at hbuilt ⊢
      cases hbuilt with
      | made d t args _ hstate hargs hmake =>
          have hlater := ((invariant_sparing i).arguments depth f.params
            (fun _ _ _ _ => trivial) hsparing).later
          rw [hstate] at hlater
          obtain ⟨others, hothers⟩ := hlater
          refine ⟨others, ownArgument f.params ++ args, d.view, t, hmake, rfl, ?_⟩
          rw [created_settle, ← List.append_assoc, hothers, ← created_accepted f _ d t]
          rfl

/-! ## Two requests -/

/-- A factory that makes the next number, whatever it is given. -/
def numbering (ps : List Parameter) : Factory Nat Nat :=
  .ofAct ps fun _ n => (n + 1, ⟨[], .ok n⟩)

/-- Numbers need not be stopped. -/
def numbers : Stopping Nat Nat := ⟨toString, fun _ => return ()⟩

/-- The first part of `"A"` is made before its factory is registered as shared. -/
def sampleEarly : List (Operation Nat Nat) := [.register "A" (numbering []) false, .get "A"]

def sampleLate : List (Operation Nat Nat) :=
  [.register "B" (numbering [⟨"a", some "A", false⟩]) false, .get "C"]

def sampleBetween : List (Operation Nat Nat) := [.get "B", .startAll]

theorem spares_numbering (i : String) (ps : List Parameter) : (numbering ps).Spares i :=
  spares_ofAct i ps _

end Container

end Injection
