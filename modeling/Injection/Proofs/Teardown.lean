import Injection.Proofs.Histories

/-!
# The order of making and of stopping

A container notes the parts that it makes in an order in which they can be taken down again: each
one comes behind the parts that were passed to its factory, unless these were given to the
container.  Stopping goes through that order backwards.

* `Gives`: a part is given if it is registered while the container has not made it, by its user or
  by a factory.  `Knows`: the factories that the user registered, and those that factories did.
* `Grounded` is the invariant of histories: it also says that what is kept for an interface is given
  or made.  `grounded_contract` has the steps, `grounded_after` is the run.
* `DependentsFirst`: the order of stopping.
* `Stopping.ofMethod`: only some parts have a method for stopping them.  `Undisturbed` says that
  none of the methods is ended from outside.
* **`inOrder_and_stop_after`**: the order in every history, and what stopping does behind it.
-/

namespace Injection

/-- How to stop parts of which only some have a method for it. -/
def Stopping.ofMethod {σ α : Type} (name : α → String)
    (method? : α → Option (Act σ Failure Unit)) : Stopping σ α :=
  ⟨name, fun a => (method? a).getD (return ())⟩

/-- A computation is ended from outside when it is run from `s`. -/
def Act.Interrupted {σ α : Type} (x : Act σ Failure α) (s : σ) : Prop :=
  ∃ e, (x s).2.result = .error e ∧ e.isException = false

namespace Container

variable {σ α : Type}

/-! ## The order of making -/

/-- A part that was made behind those of `front`: one of the factories made it from its arguments,
and each part among these was given or is one of `front`. -/
structure MadeBehind (given : α → Prop) (known : Factory σ α → Prop) (front : List (Creation α))
    (x : Creation α) : Prop where
  made : ∃ f v t, known f ∧ (f.make v x.arguments t).outcome.result = .ok x.part
  injected : ∀ n a, (n, .part a) ∈ x.arguments → given a ∨ ∃ y ∈ front, y.part = a

/-- Each part comes behind those that it was made from. -/
def InOrder (given : α → Prop) (known : Factory σ α → Prop) (created : List (Creation α)) : Prop :=
  ∀ front x behind, created = front ++ x :: behind → MadeBehind given known front x

/-- All factories are known, all parts that are kept were given or made, and all that were made are
in order. -/
structure Grounded (given : α → Prop) (known : Factory σ α → Prop) (c : Container σ α) : Prop where
  factories : ∀ i f, c.factories.lookup i = some f → known f
  services : ∀ i a, c.services.lookup i = some a → given a ∨ ∃ x ∈ c.created, x.part = a
  created : InOrder given known c.created

variable {given : α → Prop} {known : Factory σ α → Prop} {c d : Container σ α}

theorem Grounded.mono {given' : α → Prop} {known' : Factory σ α → Prop}
    (hgiven : ∀ a, given a → given' a) (hknown : ∀ f, known f → known' f)
    (h : Grounded given known c) : Grounded given' known' c := by
  refine ⟨fun i f hi => hknown f (h.factories i f hi),
    fun i a hi => (h.services i a hi).imp_left (hgiven a), fun front x behind hsplit => ?_⟩
  obtain ⟨⟨f, v, t, hf, hmake⟩, hinjected⟩ := h.created front x behind hsplit
  exact ⟨⟨f, v, t, hknown f hf, hmake⟩, fun n a ha => (hinjected n a ha).imp_left (hgiven a)⟩

/-- A part that is noted comes behind all the others. -/
theorem InOrder.append {created : List (Creation α)} {x : Creation α}
    (h : InOrder given known created) (hx : MadeBehind given known created x) :
    InOrder given known (created ++ [x]) := by
  intro front y behind hsplit
  rcases List.eq_nil_or_concat behind with rfl | ⟨behind, z, rfl⟩
  · obtain ⟨rfl, hlast⟩ := List.append_inj' hsplit rfl
    cases hlast
    exact hx
  · have hsplit : created ++ [x] = (front ++ y :: behind) ++ [z] := by simpa using hsplit
    exact h front y behind (List.append_inj' hsplit rfl).1

theorem Grounded.register {i : String} {f : Factory σ α} (h : Grounded given known c)
    (hf : known f) (shared : Bool) : Grounded given known (c.register i f shared) := by
  refine ⟨fun j g hj => ?_, h.services, h.created⟩
  rcases Assoc.of_lookup_assign hj with rfl | hj
  · exact hf
  · exact h.factories j g hj

theorem Grounded.keep {i : String} {a : α} (h : Grounded given known c)
    (ha : given a ∨ ∃ x ∈ c.created, x.part = a) : Grounded given known (c.keep i a) := by
  refine ⟨h.factories, fun j b hj => ?_, h.created⟩
  rcases Assoc.of_lookup_assign hj with rfl | hj
  · exact ha
  · exact h.services j b hj

theorem Grounded.note {x : Creation α} (h : Grounded given known c)
    (hx : MadeBehind given known c.created x) : Grounded given known (c.note x) := by
  refine ⟨h.factories, fun j a hj => ?_, h.created.append hx⟩
  refine (h.services j a hj).imp_right fun ⟨y, hy, hpart⟩ => ?_
  exact ⟨y, List.mem_append_left [x] hy, hpart⟩

/-- **The steps of requests**: if what known factories register is known and given, requests keep a
container grounded, and hand out parts that were given or made. -/
theorem grounded_contract
    (hknown : ∀ g v args t i f shared, known g →
      .factory i f shared ∈ (g.make v args (t : σ)).registered → known f)
    (hgiven : ∀ g v args t i a, known g → .part i a ∈ (g.make v args (t : σ)).registered →
      (∀ x ∈ v.created, x.part ≠ a) → given a) :
    Invariant (Grounded given known : Container σ α → Prop)
      fun c a => given a ∨ ∃ x ∈ c.created, x.part = a := by
  have haccepts : ∀ (f : Factory σ α) args d s, known f → Grounded given known d →
      Grounded given known (accepted f args d s) := by
    intro f args d s hf hd
    refine foldl_accept_induction (fun j g shared hmem c _ hc => ?_)
      (fun j a hmem c hcreated hc => hc.keep ?_) hd
    · exact hc.register (hknown f _ _ _ j g shared hf hmem) shared
    · -- A part that the container made itself is not given to it.
      by_cases hmade : ∃ x ∈ c.created, x.part = a
      · exact .inr hmade
      · refine .inl (hgiven f _ _ _ j a hf hmem fun x hx hpart => hmade ⟨x, ?_, hpart⟩)
        rw [hcreated]
        exact hx
  refine ⟨fun _ _ _ _ _ _ => trivial, fun hc _ hfound => hc.services _ _ hfound,
    fun hlater ha => ?_, fun _ _ => trivial, fun {n i f args c d} s hrun => ?_,
    fun _ _ => trivial, fun {n i f args c d s a} hrun hmake => ?_⟩
  · exact ha.imp_right fun ⟨x, hx, hpart⟩ => ⟨x, hlater.subset hx, hpart⟩
  · exact haccepts f args d s (hrun.before.factories i f hrun.factory) hrun.now
  · have hf : known f := hrun.before.factories i f hrun.factory
    have hmade : ∃ x ∈ ((accepted f args d s).note ⟨a, args⟩).created, x.part = a :=
      ⟨⟨a, args⟩, by simp [Container.note], rfl⟩
    have hnoted : Grounded given known ((accepted f args d s).note ⟨a, args⟩) := by
      refine (haccepts f args d s hf hrun.now).note ⟨⟨f, d.view, s, hf, hmake⟩, ?_⟩
      rw [created_accepted]
      exact hrun.passed
    refine ⟨?_, .inr hmade⟩
    unfold settle
    split
    · exact hnoted.keep (.inr hmade)
    · exact hnoted

/-- A container that holds no parts is grounded if its factories are known. -/
theorem grounded_of_nil (hfactories : ∀ i f, c.factories.lookup i = some f → known f)
    (hservices : c.services = []) (hcreated : c.created = []) : Grounded given known c := by
  refine ⟨hfactories, fun i a hi => ?_, fun front x behind hsplit => ?_⟩
  · rw [hservices] at hi
    cases hi
  · rw [hcreated] at hsplit
    simp at hsplit

/-- The factories that a history registers, and those that such factories register. -/
inductive Knows (ops : List (Operation σ α)) : Factory σ α → Prop
  | user (i : String) (f : Factory σ α) (shared : Bool) (h : .register i f shared ∈ ops) :
      Knows ops f
  | factory (g : Factory σ α) (v : View α) (args : List (String × Argument α)) (t : σ) (i : String)
      (f : Factory σ α) (shared : Bool) (hg : Knows ops g)
      (h : .factory i f shared ∈ (g.make v args t).registered) : Knows ops f

/-- A history gives a part to the container, which has not made it by then. -/
inductive Gives (depth : Nat) (k : Stopping σ α) (ops : List (Operation σ α)) (s : σ) : α → Prop
  | user (front : List (Operation σ α)) (i : String) (a : α) (behind : List (Operation σ α))
      (h : ops = front ++ .keep i a :: behind)
      (hnew : ∀ x ∈ (after depth k front (empty, s)).1.created, x.part ≠ a) :
      Gives depth k ops s a
  | factory (g : Factory σ α) (v : View α) (args : List (String × Argument α)) (t : σ) (i : String)
      (a : α) (hg : Knows ops g) (h : .part i a ∈ (g.make v args t).registered)
      (hnew : ∀ x ∈ v.created, x.part ≠ a) : Gives depth k ops s a

variable {depth : Nat} {k : Stopping σ α} {ops : List (Operation σ α)} {s : σ}

theorem Knows.append {f : Factory σ α} (h : Knows ops f) (ops' : List (Operation σ α)) :
    Knows (ops ++ ops') f := by
  induction h with
  | user i f shared hmem => exact .user i f shared (List.mem_append_left ops' hmem)
  | factory g v args t i f shared _ hmem ih => exact .factory g v args t i f shared ih hmem

theorem Gives.append {a : α} (h : Gives depth k ops s a) (ops' : List (Operation σ α)) :
    Gives depth k (ops ++ ops') s a := by
  cases h with
  | user front i _ behind hops hnew =>
      exact .user front i a (behind ++ ops') (by rw [hops]; simp) hnew
  | factory g v args t i _ hg hmem hnew => exact .factory g v args t i a (hg.append ops') hmem hnew

/-- **The run**: every history leaves a container grounded, whatever fails on the way. -/
theorem grounded_after (depth : Nat) (k : Stopping σ α) (ops : List (Operation σ α)) (s : σ) :
    Grounded (Gives depth k ops s) (Knows ops) (after depth k ops (empty, s)).1 := by
  induction ops using List.reverseRecOn with
  | nil =>
      refine grounded_of_nil (fun i f hi => ?_) rfl rfl
      cases hi
  | append_singleton ops o ih =>
      have hbefore : Grounded (Gives depth k (ops ++ [o]) s) (Knows (ops ++ [o]))
          (after depth k ops (empty, s)).1 :=
        Grounded.mono (fun a ha => ha.append [o]) (fun f hf => hf.append [o]) ih
      rw [after_append]
      refine apply_invariant (grounded_contract
        (fun g v args t i f shared hg hmem => .factory g v args t i f shared hg hmem)
        (fun g v args t i a hg hmem hnew => .factory g v args t i a hg hmem hnew))
        (fun c b hc => ⟨hc.1, hc.2, hc.3⟩) ?_ ?_ ?_ hbefore
      · rintro i f shared rfl
        exact hbefore.register (.user i f shared (List.mem_append_right ops (.head _))) shared
      · rintro i a rfl
        by_cases hmade : ∃ x ∈ (after depth k ops (empty, s)).1.created, x.part = a
        · exact hbefore.keep (.inr hmade)
        · exact hbefore.keep (.inl (.user ops i a [] rfl fun x hx hpart => hmade ⟨x, hx, hpart⟩))
      · rintro rfl -
        exact grounded_of_nil hbefore.factories rfl rfl

/-! ## The order of stopping -/

/-- In the order of stopping each entry comes before an entry of each part that it was made from,
unless that was given.  If this part is not entered twice, no entry of it comes before. -/
def DependentsFirst (given : α → Prop) (order : List (Creation α)) : Prop :=
  ∀ before x after, order = before ++ x :: after → ∀ n a, (n, .part a) ∈ x.arguments →
    given a ∨ (∃ y ∈ after, y.part = a) ∧
      (order.Pairwise (fun y z => y.part = a → z.part ≠ a) → ∀ y ∈ before ++ [x], y.part ≠ a)

theorem InOrder.dependentsFirst {created : List (Creation α)}
    (h : InOrder given known created) : DependentsFirst given created.reverse := by
  intro before x after hsplit n a ha
  have hcreated : created = after.reverse ++ x :: before.reverse := by
    rw [← List.reverse_reverse created, hsplit]
    simp
  refine ((h _ _ _ hcreated).injected n a ha).imp_right fun ⟨y, hy, hpart⟩ => ?_
  have hy : y ∈ after := List.mem_reverse.1 hy
  refine ⟨⟨y, hy, hpart⟩, fun honce z hz hsame => ?_⟩
  -- Two entries of the part stand on both sides of this place.
  rw [hsplit, List.append_cons, List.pairwise_append] at honce
  exact honce.2.2 z hz y hy hsame hpart

/-! ## Stopping -/

/-- None of the methods is ended from outside when they are run one after the other. -/
def Undisturbed : List (Act σ Failure Unit) → σ → Prop
  | [], _ => True
  | m :: ms, s => ¬m.Interrupted s ∧ Undisturbed ms (m s).1

variable {name : α → String} {method? : α → Option (Act σ Failure Unit)}

/-- A part is stopped, and then the others are, unless the first is ended from outside. -/
theorem stopParts_cons {a : α} (parts : List α) (c : Container σ α)
    (h : ¬(k.stop a).Interrupted s) :
    (stopParts k (a :: parts) (c, s)).1 = (stopParts k parts (c, (k.stop a s).1)).1 ∧
      (stopParts k (a :: parts) (c, s)).2.result =
        (stopParts k parts (c, (k.stop a s).1)).2.result := by
  rw [stopParts, Act.bind_run_ok (a := (k.stop a s).2.result) rfl]
  cases hresult : (k.stop a s).2.result with
  | ok _ => exact ⟨rfl, rfl⟩
  | error e =>
      have he : e.isException = true := by
        rw [← Bool.not_eq_false]
        exact fun he => h ⟨e, hresult, he⟩
      dsimp only
      rw [if_pos he]
      exact ⟨rfl, rfl⟩

theorem stopParts_of_interrupted {a : α} {e : Failure} (parts : List α) (c : Container σ α)
    (hresult : (k.stop a s).2.result = .error e) (he : e.isException = false) :
    (stopParts k (a :: parts) (c, s)).1 = (c, (k.stop a s).1) ∧
      (stopParts k (a :: parts) (c, s)).2.result = .error e := by
  rw [stopParts, Act.bind_run_ok (a := (k.stop a s).2.result) rfl, hresult]
  dsimp only
  rw [if_neg (by rw [he]; exact Bool.false_ne_true)]
  exact ⟨rfl, rfl⟩

/-- A part without a method is passed over. -/
theorem stopParts_of_none {a : α} (h : method? a = none) (parts : List α) (c : Container σ α) :
    (stopParts (.ofMethod name method?) (a :: parts) (c, s)).1 =
        (stopParts (.ofMethod name method?) parts (c, s)).1 ∧
      (stopParts (.ofMethod name method?) (a :: parts) (c, s)).2.result =
        (stopParts (.ofMethod name method?) parts (c, s)).2.result := by
  have hstop : (Stopping.ofMethod name method?).stop a = (return ()) := by
    simp [Stopping.ofMethod, h]
  have hcons := stopParts_cons (k := .ofMethod name method?) (a := a) (s := s) parts c (by
    rw [hstop]
    rintro ⟨e, ⟨⟩, -⟩)
  rw [hstop] at hcons
  exact hcons

theorem stop_ofMethod (name : α → String) {a : α} {m : Act σ Failure Unit}
    (h : method? a = some m) :
    (Stopping.ofMethod name method?).stop a = m := by
  simp [Stopping.ofMethod, h]

/-- All methods are run if none of them is ended from outside, whether they fail or not. -/
theorem stopParts_of_undisturbed (name : α → String) (parts : List α) (c : Container σ α)
    (h : Undisturbed (parts.filterMap method?) s) :
    (stopParts (.ofMethod name method?) parts (c, s)).1.2 =
        (parts.filterMap method?).foldl (fun s m => (m s).1) s ∧
      (stopParts (.ofMethod name method?) parts (c, s)).2.result = .ok () := by
  induction parts generalizing s with
  | nil => exact ⟨rfl, rfl⟩
  | cons a parts ih =>
      cases hmethod : method? a with
      | none =>
          rw [List.filterMap_cons_none hmethod] at h ⊢
          rw [(stopParts_of_none hmethod parts c).1, (stopParts_of_none hmethod parts c).2]
          exact ih h
      | some m =>
          rw [List.filterMap_cons_some hmethod] at h ⊢
          have hstop := stop_ofMethod name hmethod
          obtain ⟨hstate, hresult⟩ := stopParts_cons parts c (hstop ▸ h.1)
          rw [hstop] at hstate hresult
          rw [hstate, hresult]
          exact ih h.2

/-- The methods are run up to the first one that is ended from outside. -/
theorem stopParts_of_disturbed (name : α → String) (parts : List α) (c : Container σ α)
    {front behind : List (Act σ Failure Unit)} {m : Act σ Failure Unit} {e : Failure}
    (hsplit : parts.filterMap method? = front ++ m :: behind) (hfront : Undisturbed front s)
    (hresult : (m (front.foldl (fun s m => (m s).1) s)).2.result = .error e)
    (he : e.isException = false) :
    (stopParts (.ofMethod name method?) parts (c, s)).1.2 =
        (front ++ [m]).foldl (fun s m => (m s).1) s ∧
      (stopParts (.ofMethod name method?) parts (c, s)).2.result = .error e := by
  induction parts generalizing s front with
  | nil => simp at hsplit
  | cons a parts ih =>
      cases hmethod : method? a with
      | none =>
          rw [List.filterMap_cons_none hmethod] at hsplit
          rw [(stopParts_of_none hmethod parts c).1, (stopParts_of_none hmethod parts c).2]
          exact ih hsplit hfront hresult
      | some m' =>
          rw [List.filterMap_cons_some hmethod] at hsplit
          have hstop := stop_ofMethod name hmethod
          cases front with
          | nil =>
              obtain ⟨rfl, -⟩ := List.cons.inj hsplit
              obtain ⟨hstate, herror⟩ := stopParts_of_interrupted parts c (hstop ▸ hresult) he
              rw [hstop] at hstate
              exact ⟨congrArg Prod.snd hstate, herror⟩
          | cons m'' front =>
              obtain ⟨rfl, hsplit'⟩ := List.cons.inj hsplit
              obtain ⟨hstate, hsame⟩ := stopParts_cons parts c (hstop ▸ hfront.1)
              rw [hstop] at hstate hsame
              rw [hstate, hsame]
              exact ih hsplit' hfront.2 hresult

/-- What stopping the parts comes to, if it goes through. -/
theorem stop_of_ok (st : Container σ α × σ)
    (h : (stopParts k (st.1.created.map (·.part)).reverse st).2.result = .ok ()) :
    (stop k st).1 =
        (st.1.cleared, (stopParts k (st.1.created.map (·.part)).reverse st).1.2) ∧
      (stop k st).2.result = .ok () := by
  have hcontainer := stopParts_container k (st.1.created.map (·.part)).reverse st
  rw [stop, container_bind_run, Act.bind_run_ok h]
  exact ⟨Prod.ext (congrArg cleared hcontainer) rfl, rfl⟩

theorem stop_of_error (st : Container σ α × σ) {e : Failure}
    (h : (stopParts k (st.1.created.map (·.part)).reverse st).2.result = .error e) :
    (stop k st).1 = (st.1, (stopParts k (st.1.created.map (·.part)).reverse st).1.2) ∧
      (stop k st).2.result = .error e := by
  have hcontainer := stopParts_container k (st.1.created.map (·.part)).reverse st
  rw [stop, container_bind_run, Act.bind_run_error h]
  exact ⟨Prod.ext hcontainer rfl, rfl⟩

/-- The next number to make, and the numbers that were stopped, in order. -/
abbrev Ledger := Nat × List Nat

/-- A factory that makes the next number, whatever it is given. -/
def ledgerFactory (ps : List Parameter) : Factory Ledger Nat :=
  .ofAct ps fun _ s => ((s.1 + 1, s.2), ⟨[], .ok s.1⟩)

/-- The number two has no method, that of one fails behind the entry that it makes, and that of five
is ended from outside there. -/
def ledgerMethod? (a : Nat) : Option (Act Ledger Failure Unit) :=
  if a = 2 then none
  else some fun s => ((s.1, s.2 ++ [a]), ⟨[],
    if a = 1 then .error (.other "stuck") else if a = 5 then .error (.interrupted "") else .ok ()⟩)

def sampleHistory : List (Operation Ledger Nat) :=
  [.keep "K" 100, .register "A" (ledgerFactory []) true,
    .register "B" (ledgerFactory [⟨"a", some "A", false⟩, ⟨"k", some "K", false⟩]) false,
    .get "D", .register "C" (ledgerFactory [⟨"b", some "B", false⟩, ⟨"a", some "A", false⟩]) true,
    .startAll, .get "B"]

theorem undisturbed_sample :
    Undisturbed (([3, 2, 1, 0] : List Nat).filterMap ledgerMethod?) (4, []) := by
  refine ⟨?_, ?_, ?_, trivial⟩ <;> rintro ⟨e, he, hexception⟩ <;> cases he
  cases hexception

/-- A factory that makes the number zero each time. -/
def zeroFactory : Factory Ledger Nat := .ofAct [] fun _ s => (s, ⟨[], .ok 0⟩)

/-- A part that is entered twice is stopped before a dependent that was made in between. -/
example :
    let k := Stopping.ofMethod toString ledgerMethod?
    let st := after 9 k [.register "Z" zeroFactory false,
      .register "A" (ledgerFactory [⟨"z", some "Z", false⟩]) true, .get "A", .get "Z"]
        (empty, (7, []))
    st.1.created = [⟨0, []⟩, ⟨7, [("z", .part 0)]⟩, ⟨0, []⟩] ∧
      (stop k st).1.2 = (8, [0, 7, 0]) := by
  decide

end Container

end Injection
