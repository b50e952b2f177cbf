import Injection.Proofs.Sharing
import Injection.Proofs.Teardown
import Mathlib.Data.List.Perm.Subperm

/-!
# Requests that fail

A request for a part fails when nothing is registered for the interface, or when a factory fails:
that of the interface, or one of those that it needs.  Parts of shared interfaces that were made on
the way stay, all that was there before stays as it was, and the interface itself is left without a
part.

A factory that registers something with the container changes it by that, also if it fails.  So what
is said of one interface is said for factories that spare it, and what is said of all is said for
factories that leave the container alone (`Factory.LeavesAlone`).

* `Needs` and `Acyclic`: no factory needs, through others, what it is about to make.
* `Way`: the interfaces that are being made when another one is asked for.  Without circles they are
  all different, so that there is room for them if there is room for all factories.
* `Grown`: what a container becomes while what an interface needs is made.  `grown_contract` has the
  steps.
* **`failed_get`**: what a request that fails leaves behind, and what it fails with.
-/

namespace Injection

/-- Whatever it is run on, the factory registers nothing. -/
def Factory.LeavesAlone {σ α : Type} (f : Factory σ α) : Prop :=
  ∀ v args s, (f.make v args s).registered = []

theorem Factory.LeavesAlone.spares {σ α : Type} {f : Factory σ α} (h : f.LeavesAlone)
    (i : String) : f.Spares i := by
  refine .intro f (fun v args s r hr => ?_) (fun v args s j g shared hr => ?_) <;>
  · rw [h] at hr
    cases hr

namespace Container

variable {σ α : Type} {fs : List (String × Factory σ α)} {i j : String} {f : Factory σ α} {a : α}
  {c d : Container σ α} {st : Container σ α × σ} {depth : Nat}

/-! ## What a factory needs -/

/-- The factory of `i` asks for the interface `j`. -/
def Needs (fs : List (String × Factory σ α)) (i j : String) : Prop :=
  ∃ f, fs.lookup i = some f ∧ ∃ p ∈ f.params, asked? p = some j

/-- No interface needs itself, not even through others. -/
def Acyclic (fs : List (String × Factory σ α)) : Prop := ∀ i, ¬Relation.TransGen (Needs fs) i i

/-- Interfaces can be ranked so that a factory asks for interfaces of lower ranks only. -/
theorem acyclic_of_rank (rank : String → Nat)
    (h : ∀ x ∈ fs, ∀ p ∈ x.2.params, (asked? p).all (fun j => rank j < rank x.1) = true) :
    Acyclic fs := by
  have hstep : ∀ i j, Needs fs i j → rank j < rank i := by
    rintro i j ⟨f, hf, p, hp, hasked⟩
    obtain ⟨front, behind, rfl, -⟩ := Assoc.exists_append_of_lookup hf
    have hlower := h (i, f) (by simp) p hp
    rw [hasked] at hlower
    simpa using hlower
  have hlower : ∀ i j, Relation.TransGen (Needs fs) i j → rank j < rank i := by
    intro i j hneeds
    induction hneeds with
    | single hneeds => exact hstep _ _ hneeds
    | tail _ hneeds ih => exact Nat.lt_trans (hstep _ _ hneeds) ih
  exact fun i hcircle => Nat.lt_irrefl _ (hlower i i hcircle)

/-- The interfaces of `path`, `i` among them, are being made when there is a request for `j` with
room `n`, out of `depth` in all: each of them needs `j`. -/
structure Way (fs : List (String × Factory σ α)) (i : String) (depth : Nat) (path : List String)
    (n : Nat) (j : String) : Prop where
  mem : i ∈ path
  nodup : path.Nodup
  known : ∀ k ∈ path, k ∈ fs.map (·.1)
  leads : ∀ k ∈ path, Relation.TransGen (Needs fs) k j
  room : path.length + n = depth

namespace Way

variable {path : List String} {n : Nat}

theorem single {f : Factory σ α} (hfactory : fs.lookup i = some f) (hneeds : Needs fs i j)
    (n : Nat) :
    Way fs i (n + 1) [i] n j where
  mem := List.mem_singleton_self i
  nodup := by simp
  known := by simpa using Assoc.mem_map_fst_of_lookup hfactory
  leads := by simpa using Relation.TransGen.single hneeds
  room := Nat.add_comm 1 n

/-- The way goes on to what the factory of `j` asks for. -/
theorem cons {k : String} (hacyclic : Acyclic fs) (h : Way fs i depth path (n + 1) j)
    (hneeds : Needs fs j k) : Way fs i depth (j :: path) n k := by
  obtain ⟨f, hf, -⟩ := id hneeds
  have hroom := h.room
  refine ⟨List.mem_cons_of_mem j h.mem,
    List.nodup_cons.2 ⟨fun hj => hacyclic j (h.leads j hj), h.nodup⟩, ?_, ?_,
    by rw [List.length_cons]; omega⟩
  · exact List.forall_mem_cons.2 ⟨Assoc.mem_map_fst_of_lookup hf, h.known⟩
  · exact List.forall_mem_cons.2 ⟨.single hneeds, fun k hk => (h.leads k hk).tail hneeds⟩

/-- There are no more interfaces on the way than there are factories. -/
theorem depth_le (h : Way fs i depth path 0 j) : depth ≤ fs.length := by
  have hle : path.length ≤ (fs.map (·.1)).length :=
    (List.subperm_of_subset h.nodup h.known).length_le
  rw [List.length_map] at hle
  exact h.room ▸ hle

end Way

/-! ## What is kept -/

/-- A part is kept for an interface, in one of the two tables. -/
def Keeps (c : Container σ α) (i : String) (a : α) : Prop :=
  c.services.lookup i = some a ∨ c.singletons.lookup i = some (some a)

/-- A part between two states of a container: the interface `j` is shared, `i` needs it, and its own
factory made the part, which was noted. -/
structure MadeFor (i j : String) (a : α) (c d : Container σ α) : Prop where
  needed : Relation.TransGen (Needs c.factories) i j
  shared : Assoc.has j c.singletons = true
  noted : ∃ new x f v t, d.created = c.created ++ new ∧ x ∈ new ∧ x.part = a ∧
    c.factories.lookup j = some f ∧ (f.make v x.arguments t).outcome.result = .ok a

theorem MadeFor.later {d' : Container σ α} (h : MadeFor i j a c d)
    (hcreated : d.created <+: d'.created) : MadeFor i j a c d' := by
  obtain ⟨new, x, f, v, t, hnew, hx, hmade⟩ := h.noted
  obtain ⟨more, hmore⟩ := hcreated
  refine ⟨h.needed, h.shared, new ++ more, x, f, v, t, ?_, List.mem_append_left more hx, hmade⟩
  rw [← hmore, hnew, List.append_assoc]

/-- A part of a shared interface is at hand as well. -/
def Paired (c : Container σ α) : Prop :=
  ∀ j a, c.singletons.lookup j = some (some a) → c.services.lookup j = some a

theorem Paired.keep (h : Paired c) (i : String) (a : α) : Paired (c.keep i a) := by
  intro j b hj
  by_cases hji : j = i
  · subst hji
    have hab : some a = some b :=
      Option.some.inj ((Assoc.lookup_assign_self j (some a) _).symm.trans hj)
    rw [← hab]
    exact Assoc.lookup_assign_self j a _
  · have hbefore := (Assoc.lookup_assign_of_ne hji (some a) _).symm.trans hj
    exact (Assoc.lookup_assign_of_ne hji a _).trans (h j b hbefore)

theorem Paired.register (h : Paired c) (i : String) (f : Factory σ α) (shared : Bool) :
    Paired (c.register i f shared) := by
  cases shared with
  | false => exact h
  | true =>
      intro j b hj
      by_cases hji : j = i
      · subst hji
        have hnone := (Assoc.lookup_assign_self j none c.singletons).symm.trans hj
        cases hnone
      · exact h j b ((Assoc.lookup_assign_of_ne hji none _).symm.trans hj)

theorem paired_after (depth : Nat) (k : Stopping σ α) (ops : List (Operation σ α)) (s : σ) :
    Paired (after depth k ops (empty, s)).1 := by
  have hinvariant : Invariant (Paired : Container σ α → Prop) fun _ _ => True :=
    invariant_of_container
      (fun _ _ hd _ _ => foldl_accept_induction (fun j g shared _ _ _ hc => hc.register j g shared)
        (fun j b _ _ _ hc => hc.keep j b) hd)
      (fun _ hc => hc) (fun {i _ _} _ _ _ hd a => hd.keep i a)
  refine after_invariant hinvariant (fun c b hc => hc)
    (fun i f shared _ c hc => hc.register i f shared) (fun i a _ c hc => hc.keep i a) ?_ ?_
  · rintro - c - j a ⟨⟩
  · rintro j a ⟨⟩

/-! ## What a request leaves -/

/-- What a container becomes while what `i` needs is made. -/
structure Grown (i : String) (c d : Container σ α) : Prop where
  factories : d.factories = c.factories
  created : c.created <+: d.created
  services : ∀ j a, c.services.lookup j = some a → d.services.lookup j = some a
  singletons : ∀ j a, c.singletons.lookup j = some (some a) →
    d.singletons.lookup j = some (some a)
  shared : ∀ j, Assoc.has j d.singletons = Assoc.has j c.singletons
  paired : Paired d
  added : ∀ j a, d.services.lookup j = some a → c.services.lookup j = some a ∨ MadeFor i j a c d

theorem Grown.refl (i : String) (hpaired : Paired c) : Grown i c c :=
  ⟨rfl, List.prefix_rfl, fun _ _ h => h, fun _ _ h => h, fun _ => rfl, hpaired,
    fun _ _ h => .inl h⟩

theorem Grown.note (h : Grown i c d) (x : Creation α) : Grown i c (d.note x) :=
  ⟨h.factories, h.created.trans (List.prefix_append _ _), h.services, h.singletons, h.shared,
    h.paired, fun j a hj => (h.added j a hj).imp_right fun hmade =>
      hmade.later (List.prefix_append _ _)⟩

/-- A part is kept for an interface that had none. -/
theorem Grown.keep (h : Grown i c d) (hpaired : Paired c) (hnone : c.services.lookup j = none)
    (hmade : MadeFor i j a c d) : Grown i c (d.keep j a) := by
  have hne : ∀ k b, c.services.lookup k = some b → k ≠ j := by
    rintro k b hk rfl
    rw [hnone] at hk
    cases hk
  refine ⟨h.factories, h.created, fun k b hk => ?_, fun k b hk => ?_, fun k => ?_,
    h.paired.keep j a, fun k b hk => ?_⟩
  · exact (Assoc.lookup_assign_of_ne (hne k b hk) a _).trans (h.services k b hk)
  · exact (Assoc.lookup_assign_of_ne (hne k b (hpaired k b hk)) (some a) _).trans
      (h.singletons k b hk)
  · rw [← h.shared k]
    by_cases hkj : k = j
    · subst hkj
      rw [h.shared k, hmade.shared]
      exact Assoc.has_assign_self k _ _
    · exact Assoc.has_assign_of_ne hkj _ _
  · by_cases hkj : k = j
    · subst hkj
      obtain rfl : a = b := Option.some.inj ((Assoc.lookup_assign_self k a _).symm.trans hk)
      exact .inr ⟨hmade.needed, hmade.shared, hmade.noted⟩
    · exact (h.added k b ((Assoc.lookup_assign_of_ne hkj a _).symm.trans hk)).imp_right
        fun hmade => ⟨hmade.needed, hmade.shared, hmade.noted⟩

/-! ## What a request fails with -/

/-- What a known factory registers is known. -/
theorem accepted_known {known : Factory σ α → Prop}
    (hknown : ∀ g v args t i f shared, known g →
      .factory i f shared ∈ (g.make v args (t : σ)).registered → known f) (hf : known f)
    (h : ∀ j g, d.factories.lookup j = some g → known g) (args : List (String × Argument α))
    (s : σ) : ∀ j g, (accepted f args d s).factories.lookup j = some g → known g := by
  refine foldl_accept_induction (P := fun c => ∀ j g, c.factories.lookup j = some g → known g)
    (fun j g shared hmem c _ hc k g' hg' => ?_) (fun j b _ c _ hc => hc) h
  rcases Assoc.of_lookup_assign hg' with rfl | hg'
  · exact hknown f _ _ _ j _ shared hf hmem
  · exact hc k g' hg'

/-- How the failure of a factory for `j` surfaces: an error of a service as it is, any other
exception as the error that a part could not be made, and what is ended from outside as it is. -/
inductive Surfaces (j : String) : Failure → Failure → Prop
  | service (e : ServiceError) : Surfaces j (.service e) (.service e)
  | other (cause : Failure) (e : ServiceError) (hother : ∀ e', cause ≠ .service e')
      (hexception : cause.isException = true)
      (hcode : e.report.code = "INSTANCE_CREATION_FAILED")
      (hmessage : e.message = s!"Failed to create instance of {j}: {cause.message}") :
      Surfaces j cause (.service e)
  | interrupted (cause : Failure) (hexception : cause.isException = false) :
      Surfaces j cause cause

theorem surfaces_wrap (j : String) (cause : Failure) : Surfaces j cause (wrap j cause) := by
  cases cause with
  | service e => exact .service e
  | interrupted message => exact .interrupted _ rfl
  | _ => exact .other _ _ (by rintro e' ⟨⟩) rfl rfl rfl

/-- The last thing that happened to the state outside is that the factory of an interface failed;
`ran` says which factory that can be. -/
def FailedLast (ran : String → Factory σ α → Prop) (s : σ) (e : Failure) : Prop :=
  ∃ j f v args t cause, ran j f ∧ (f.make v args t).state = s ∧
    (f.make v args t).outcome.result = .error cause ∧ Surfaces j cause e

/-- The factory of `i`, or of an interface that `i` needs. -/
def NeededFactory (fs : List (String × Factory σ α)) (i j : String) (f : Factory σ α) : Prop :=
  Relation.ReflTransGen (Needs fs) i j ∧ fs.lookup j = some f

/-- A request for `i` failed: a factory did, or there was no room for what `i` needs. -/
def FailedOrDeep (depth : Nat) (fs : List (String × Factory σ α)) (i : String) (s : σ)
    (e : Failure) : Prop :=
  FailedLast (NeededFactory fs i) s e ∨ e = .endless ∧ depth ≤ fs.length

/-- A request fails by one of the factories that are known, or because there is no room for it. -/
theorem known_contract {known : Factory σ α → Prop}
    (hknown : ∀ g v args t i f shared, known g →
      .factory i f shared ∈ (g.make v args (t : σ)).registered → known f) :
    Contract (fun _ _ => True)
      (fun c : Container σ α => ∀ j f, c.factories.lookup j = some f → known f)
      (fun _ (_ : α) => True)
      (fun st e => FailedLast (fun _ f => known f) st.2 e ∨ e = .endless) where
  asked _ _ _ _ _ _ := trivial
  found _ _ _ := trivial
  stays _ _ := trivial
  endless _ _ := .inr rfl
  accepts s hrun := accepted_known hknown (hrun.before _ _ hrun.factory) hrun.now _ s
  fails {n i f args c d s e} hrun hmake :=
    .inl ⟨i, f, d.view, args, s, e, hrun.before i f hrun.factory, rfl, hmake, surfaces_wrap i e⟩
  makes {n i f args c d s a} hrun hmake := by
    have hafter := accepted_known hknown (hrun.before i f hrun.factory) hrun.now args s
    refine ⟨?_, trivial⟩
    unfold settle
    split <;> exact hafter

/-- A factory that leaves the container alone changes nothing by its run. -/
theorem accepted_of_leavesAlone (h : f.LeavesAlone) (args : List (String × Argument α))
    (c : Container σ α) (s : σ) : accepted f args c s = c := by
  rw [accepted, h]
  rfl

/-- **The steps of the requests within one for `i`**, if the factories leave the container alone and
need each other without circles: the container grows, and nothing is kept for `i`. -/
theorem grown_contract (depth : Nat) (i : String) (hacyclic : Acyclic c.factories)
    (halone : ∀ j f, c.factories.lookup j = some f → f.LeavesAlone) (hpaired : Paired c) :
    Contract (fun n j => ∃ path, Way c.factories i depth path n j)
      (fun d => Grown i c d ∧ d.services.lookup i = none) (fun _ (_ : α) => True)
      (fun st e => FailedOrDeep depth c.factories i st.2 e) where
  asked := by
    rintro d n j k f p ⟨hgrown, -⟩ ⟨path, hway⟩ - hfactory hp hasked
    rw [hgrown.factories] at hfactory
    exact ⟨_, hway.cons hacyclic ⟨f, hfactory, p, hp, hasked⟩⟩
  found _ _ _ := trivial
  stays _ _ := trivial
  endless := by
    rintro d s j - ⟨path, hway⟩
    exact .inr ⟨rfl, hway.depth_le⟩
  accepts := by
    intro n j f args d₀ d s hrun
    have hfactory := hrun.factory
    rw [hrun.before.1.factories] at hfactory
    rw [accepted_of_leavesAlone (halone j f hfactory)]
    exact hrun.now
  fails := by
    intro n j f args d₀ d s e hrun hmake
    have hfactory := hrun.factory
    rw [hrun.before.1.factories] at hfactory
    obtain ⟨path, hway⟩ := hrun.asked
    exact .inl ⟨j, f, d.view, args, s, e, ⟨(hway.leads i hway.mem).to_reflTransGen, hfactory⟩, rfl,
      hmake, surfaces_wrap j e⟩
  makes := by
    intro n j f args d₀ d s a hrun hmake
    have hfactory := hrun.factory
    rw [hrun.before.1.factories] at hfactory
    obtain ⟨path, hway⟩ := hrun.asked
    have hneeded := hway.leads i hway.mem
    have hnoted : Grown i c (d.note ⟨a, args⟩) := hrun.now.1.note _
    rw [accepted_of_leavesAlone (halone j f hfactory)]
    refine ⟨?_, trivial⟩
    unfold settle
    split
    · next hshared =>
        have hnone : c.services.lookup j = none := by
          by_contra hsome
          obtain ⟨b, hb⟩ := Option.ne_none_iff_exists'.1 hsome
          have hkept := hrun.not_kept
          rw [hrun.before.1.services j b hb] at hkept
          cases hkept
        have hne : i ≠ j := by
          rintro rfl
          exact hacyclic i hneeded
        obtain ⟨new, hnew⟩ := hrun.now.1.created
        refine ⟨hnoted.keep hpaired hnone ⟨hneeded, by rw [← hrun.before.1.shared, hshared],
          new ++ [⟨a, args⟩], ⟨a, args⟩, f, d.view, s, ?_, by simp, rfl, hfactory, hmake⟩,
          (Assoc.lookup_assign_of_ne hne a _).trans hrun.now.2⟩
        rw [← List.append_assoc, hnew]
        rfl
    · exact ⟨hnoted, hrun.now.2⟩

/-- What a request for `i` that failed leaves of a container. -/
structure Unfilled (i : String) (c d : Container σ α) : Prop where
  factories : d.factories = c.factories
  services : ∀ j a, c.services.lookup j = some a → d.services.lookup j = some a
  singletons : ∀ j a, c.singletons.lookup j = some (some a) →
    d.singletons.lookup j = some (some a)
  not_kept : ∀ a, ¬d.Keeps i a
  added : ∀ j a, d.Keeps j a → c.Keeps j a ∨ MadeFor i j a c d

theorem Grown.unfilled (h : Grown i c d) (hnone : d.services.lookup i = none) :
    Unfilled i c d := by
  -- Whatever is kept at all is at hand.
  have hkept : ∀ j a, d.Keeps j a → d.services.lookup j = some a :=
    fun j a hkeeps => hkeeps.elim id (h.paired j a)
  refine ⟨h.factories, h.services, h.singletons, fun a ha => ?_,
    fun j a hj => (h.added j a (hkept j a hj)).imp_left .inl⟩
  have hsome := hkept i a ha
  rw [hnone] at hsome
  cases hsome

/-- A request that fails behind the lookup of its factory. -/
theorem unfilled_build {e : Failure} (hacyclic : Acyclic st.1.factories)
    (halone : ∀ j f, st.1.factories.lookup j = some f → f.LeavesAlone) (hpaired : Paired st.1)
    (hnone : st.1.services.lookup i = none) (hfactory : st.1.factories.lookup i = some f)
    (he : (build depth i f st).2.result = .error e) :
    Unfilled i st.1 (build depth i f st).1.1 ∧
      FailedOrDeep (depth + 1) st.1.factories i (build depth i f st).1.2 e := by
  have hargs := (grown_contract (depth + 1) i hacyclic halone hpaired).arguments depth f.params
    (fun p hp j hj => ⟨[i], .single hfactory ⟨f, hfactory, p, hp, hj⟩ depth⟩)
    ⟨.refl i hpaired, hnone⟩
  have hbuilt := built_build depth i f st
  rw [he] at hbuilt
  generalize (build depth i f st).1 = st' at hbuilt ⊢
  obtain ⟨⟨hgrown, hleft⟩, -, -, hfailure⟩ := hargs
  cases hbuilt with
  | unsupplied d t e hstate herror =>
      rw [hstate] at hgrown hleft hfailure
      exact ⟨hgrown.unfilled hleft, hfailure e herror⟩
  | failed d t args cause hstate hok hmake =>
      rw [hstate] at hgrown hleft
      rw [accepted_of_leavesAlone (halone i f hfactory)]
      exact ⟨hgrown.unfilled hleft,
        .inl ⟨i, f, d.view, _, t, cause, ⟨.refl, hfactory⟩, rfl, hmake, surfaces_wrap i cause⟩⟩

/-- A factory that fails at even numbers, and makes the next number otherwise. -/
def flaky : Factory Nat Nat :=
  .ofAct [] fun _ n => (n + 1, ⟨[], if n % 2 = 0 then .error (.other "even") else .ok n⟩)

/-- A factory that asks for `"A"` and then for `"B"`. -/
def pairing : Factory Nat Nat := numbering [⟨"a", some "A", false⟩, ⟨"b", some "B", false⟩]

def flakyHistory : List (Operation Nat Nat) :=
  [.keep "K" 100, .register "A" (numbering []) true, .register "B" flaky true,
    .register "C" pairing true]

theorem acyclic_flaky : Acyclic (after 9 numbers flakyHistory (empty, 1)).1.factories :=
  acyclic_of_rank (fun i => if i = "C" then 1 else 0) (by decide)

theorem leavesAlone_flaky (j : String) (f : Factory Nat Nat)
    (h : (after 9 numbers flakyHistory (empty, 1)).1.factories.lookup j = some f) :
    f.LeavesAlone := by
  obtain ⟨front, behind, hsplit, -⟩ := Assoc.exists_append_of_lookup h
  have hmem : (j, f) ∈ (after 9 numbers flakyHistory (empty, 1)).1.factories :=
    hsplit ▸ List.mem_append_right front (.head behind)
  have hall : ∀ x ∈ [("A", numbering []), ("B", flaky), ("C", pairing)], x.2.LeavesAlone := by
    simp only [List.forall_mem_cons]
    exact ⟨fun _ _ _ => rfl, fun _ _ _ => rfl, fun _ _ _ => rfl, List.forall_mem_nil _⟩
  exact hall (j, f) hmem

/-- A factory that registers another one for `"B"` before it fails. -/
def meddling : Factory Nat Nat :=
  ⟨[], fun _ _ n => ⟨n, [.factory "B" (numbering []) false], .fail (.other "late")⟩⟩

/-- A request that fails leaves what a factory registered on the way. -/
example :
    let st := after 9 numbers [.register "A" meddling true] (empty, 0)
    (get 9 "A" st).2.result = .error (.service (.creationFailed "A" "late")) ∧
      (get 9 "A" st).1.1.factories.map (·.1) = ["A", "B"] :=
  ⟨rfl, rfl⟩

end Container

end Injection
