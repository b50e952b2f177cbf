import Injection.Container.Basic
import Injection.Proofs.Keys
import Mathlib.Logic.Relation

/-!
# Histories of containers

A container changes by the operations of its users, one after the other: registrations, requests,
the start and the stop of all parts.  Within a request it changes by what its factories register, by
noting a part that was made, and by keeping such a part for a shared interface.

What holds of all requests is stated once, as a contract: `P` holds of the container at every
moment, `Q` of each part that is handed out, and `E` of each failure.

* `Contract`: a rule for each of the things that can happen within a request.
* `Contract.obtain`: the rules carry over to a request with all the requests within it.  The
  induction is on the room for these.
* `Invariant` is a contract for requests of all kinds, and `after_invariant` carries it through
  histories.
-/

namespace Injection

namespace Container

variable {σ α : Type}

/-! ## The parts of a request -/

variable {st : Container σ α × σ} {i j : String} {f : Factory σ α} {a : α}
  {args : List (String × Argument α)} {c d : Container σ α} {s : σ}

/-- The interface that a parameter asks for; the container itself is asked for by name. -/
def asked? (p : Parameter) : Option String := if p.name = ownName then none else p.type?

/-- What a container answers when nothing is registered for an interface. -/
def noFactory (i : String) : Failure :=
  .service (.dependency s!"No factory registered for {i}" (some i))

/-- The container behind a run of a factory. -/
def accepted (f : Factory σ α) (args : List (String × Argument α)) (c : Container σ α) (s : σ) :
    Container σ α :=
  (f.make c.view args s).registered.foldl accept c

/-- What looks at the container first is run on the container that is there. -/
theorem container_bind_run {β : Type} (f : Container σ α → Task σ α β) (st : Container σ α × σ) :
    (container >>= f) st = f st.1 st := rfl

theorem bind_return_run {β γ : Type} (x : Task σ α β) (f : β → γ) (st : Container σ α × σ) :
    (x >>= fun b => return f b) st = ((x st).1, ⟨(x st).2.log, (x st).2.result.map f⟩) := by
  cases hresult : (x st).2.result with
  | error e => rw [Act.bind_run_error hresult]; rfl
  | ok b =>
      rw [Act.bind_run_ok hresult]
      simp [Except.map]

/-- A parameter that asks for nothing, or for what is not registered, gets no argument. -/
theorem arguments_skip {ask : String → Task σ α α} {p : Parameter} (ps : List Parameter)
    (h : ∀ j, asked? p = some j → st.1.isRegistered j = false) :
    arguments ask (p :: ps) st = arguments ask ps st := by
  rw [arguments, ← asked?]
  cases hasked : asked? p with
  | none => rfl
  | some j =>
      dsimp only
      rw [container_bind_run, h j hasked, if_neg Bool.false_ne_true]

/-- A parameter that asks for what is registered gets the part that is obtained for it. -/
theorem arguments_ask {ask : String → Task σ α α} {p : Parameter} (ps : List Parameter)
    (hasked : asked? p = some j) (h : st.1.isRegistered j = true) :
    arguments ask (p :: ps) st = (ask j >>= fun a =>
      arguments ask ps >>= fun rest => return (p.name, .part a) :: rest) st := by
  rw [arguments, ← asked?, hasked]
  dsimp only
  rw [container_bind_run, if_pos h]

theorem create_error {e : Failure} (h : (f.make c.view args s).outcome.result = .error e) :
    create i f args (c, s) = ((accepted f args c s, (f.make c.view args s).state),
      ⟨(f.make c.view args s).outcome.log ++ [], .error (wrap i e)⟩) := by
  unfold create
  rw [Act.bind_run_ok (a := (f.make c.view args s).outcome.result) rfl, h]
  rfl

theorem create_ok (h : (f.make c.view args s).outcome.result = .ok a) :
    create i f args (c, s) =
      (((accepted f args c s).note ⟨a, args⟩, (f.make c.view args s).state),
        ⟨(f.make c.view args s).outcome.log ++ [], .ok a⟩) := by
  unfold create
  rw [Act.bind_run_ok (a := (f.make c.view args s).outcome.result) rfl, h]
  rfl

/-- The container itself is no part. -/
theorem not_mem_ownArgument (ps : List Parameter) (n : String) :
    (n, Argument.part a) ∉ ownArgument ps := by
  unfold ownArgument
  split <;> simp

/-- A part that is at hand is handed out, and nothing else happens. -/
theorem obtain_found (depth : Nat) (hfound : st.1.services.lookup i = some a) :
    Container.obtain (depth + 1) i st = (st, ⟨[], .ok a⟩) := by
  rw [Container.obtain, container_bind_run, hfound]
  rfl

/-- Without a part and a factory a request fails at once. -/
theorem obtain_unknown (depth : Nat) (hnone : st.1.services.lookup i = none)
    (hfactory : st.1.factories.lookup i = none) :
    Container.obtain (depth + 1) i st = (st, ⟨[], .error (noFactory i)⟩) := by
  rw [Container.obtain, container_bind_run, hnone, hfactory]
  rfl

/-- Make a part for `i` by the factory `f`: obtain what it asks for, run it on that, and keep the
part if `i` is shared. -/
def build (depth : Nat) (i : String) (f : Factory σ α) : Task σ α α := do
  let c ← container
  let args ← arguments (Container.obtain depth) f.params
  let a ← create i f (ownArgument f.params ++ args)
  if Assoc.has i c.singletons then update (·.keep i a)
  return a

/-- A request that comes to the factory makes a part by it. -/
theorem obtain_factory (depth : Nat) (hnone : st.1.services.lookup i = none)
    (hfactory : st.1.factories.lookup i = some f) :
    Container.obtain (depth + 1) i st = build depth i f st := by
  rw [Container.obtain, container_bind_run, hnone, hfactory, build, container_bind_run]

theorem isRegistered_eq_false_iff :
    c.isRegistered i = false ↔ c.services.lookup i = none ∧ c.factories.lookup i = none := by
  rw [isRegistered, Bool.or_eq_false_iff, Assoc.has_eq_isSome_lookup, Assoc.has_eq_isSome_lookup,
    Option.isSome_eq_false_iff, Option.isSome_eq_false_iff, Option.isNone_iff_eq_none,
    Option.isNone_iff_eq_none]

/-- A request for which nothing is registered fails at once. -/
theorem get_of_unregistered (depth : Nat) (h : st.1.isRegistered i = false) :
    get (depth + 1) i st = (st, ⟨[], .error (noFactory i)⟩) :=
  obtain_unknown depth (isRegistered_eq_false_iff.1 h).1 (isRegistered_eq_false_iff.1 h).2

/-- Keep a part for a shared interface. -/
def settle (shared : Bool) (i : String) (a : α) (c : Container σ α) : Container σ α :=
  if shared then c.keep i a else c

/-- **All that making a part can do**: the arguments fail, the factory fails on them, or it makes a
part, which is noted, and kept if the interface is shared. -/
inductive Built (depth : Nat) (i : String) (f : Factory σ α) (st : Container σ α × σ) :
    Container σ α × σ → Except Failure α → Prop
  | unsupplied (d : Container σ α) (t : σ) (e : Failure)
      (hstate : (arguments (Container.obtain depth) f.params st).1 = (d, t))
      (hargs : (arguments (Container.obtain depth) f.params st).2.result = .error e) :
      Built depth i f st (d, t) (.error e)
  | failed (d : Container σ α) (t : σ) (args : List (String × Argument α)) (e : Failure)
      (hstate : (arguments (Container.obtain depth) f.params st).1 = (d, t))
      (hargs : (arguments (Container.obtain depth) f.params st).2.result = .ok args)
      (hmake : (f.make d.view (ownArgument f.params ++ args) t).outcome.result = .error e) :
      Built depth i f st (accepted f (ownArgument f.params ++ args) d t,
        (f.make d.view (ownArgument f.params ++ args) t).state) (.error (wrap i e))
  | made (d : Container σ α) (t : σ) (args : List (String × Argument α)) (a : α)
      (hstate : (arguments (Container.obtain depth) f.params st).1 = (d, t))
      (hargs : (arguments (Container.obtain depth) f.params st).2.result = .ok args)
      (hmake : (f.make d.view (ownArgument f.params ++ args) t).outcome.result = .ok a) :
      Built depth i f st
        (settle (Assoc.has i st.1.singletons) i a
          ((accepted f (ownArgument f.params ++ args) d t).note ⟨a, ownArgument f.params ++ args⟩),
          (f.make d.view (ownArgument f.params ++ args) t).state) (.ok a)

theorem built_build (depth : Nat) (i : String) (f : Factory σ α) (st : Container σ α × σ) :
    Built depth i f st (build depth i f st).1 (build depth i f st).2.result := by
  rw [build, container_bind_run]
  cases hargs : (arguments (Container.obtain depth) f.params st).2.result with
  | error e =>
      rw [Act.bind_run_error hargs]
      exact .unsupplied _ _ e rfl hargs
  | ok args =>
      rw [Act.bind_run_ok hargs]
      cases hstate : (arguments (Container.obtain depth) f.params st).1 with
      | mk d t =>
          dsimp only
          cases hmake : (f.make d.view (ownArgument f.params ++ args) t).outcome.result with
          | error e =>
              rw [Act.bind_run_error (e := wrap i e) (by rw [create_error hmake]),
                create_error hmake]
              exact .failed d t args e hstate hargs hmake
          | ok a =>
              rw [Act.bind_run_ok (a := a) (by rw [create_ok hmake]), create_ok hmake]
              have hmade := Built.made (i := i) d t args a hstate hargs hmake
              cases hshared : Assoc.has i st.1.singletons <;>
              · rw [hshared] at hmade
                exact hmade

/-! ## What factories register -/

/-- Nothing is made by accepting registrations. -/
theorem created_foldl_accept (rs : List (Registration (Factory σ α) α)) (c : Container σ α) :
    (rs.foldl accept c).created = c.created := by
  induction rs generalizing c with
  | nil => rfl
  | cons r rs ih =>
      rw [List.foldl_cons, ih]
      cases r <;> rfl

theorem created_accepted (f : Factory σ α) (args : List (String × Argument α))
    (c : Container σ α) (s : σ) : (accepted f args c s).created = c.created :=
  created_foldl_accept _ c

theorem created_settle (shared : Bool) (i : String) (a : α) (c : Container σ α) :
    (settle shared i a c).created = c.created := by
  cases shared <;> rfl

/-- A property that each of the registrations keeps is kept by all of them. -/
theorem foldl_accept_induction {P : Container σ α → Prop}
    {rs : List (Registration (Factory σ α) α)}
    (hfactory : ∀ j g shared, .factory j g shared ∈ rs → ∀ c, c.created = d.created → P c →
      P (c.register j g shared))
    (hpart : ∀ j b, .part j b ∈ rs → ∀ c, c.created = d.created → P c → P (c.keep j b)) (h : P d) :
    P (rs.foldl accept d) := by
  suffices hall : ∀ c, c.created = d.created → P c → P (rs.foldl accept c) from hall d rfl h
  clear h
  induction rs with
  | nil => exact fun c _ hc => hc
  | cons r rs ih =>
      intro c hcreated hc
      refine ih (fun j g shared hmem => hfactory j g shared (.tail r hmem))
        (fun j b hmem => hpart j b (.tail r hmem)) _ ?_ ?_
      · rw [← hcreated]
        cases r <;> rfl
      · cases r with
        | factory j g shared => exact hfactory j g shared (.head rs) c hcreated hc
        | part j b => exact hpart j b (.head rs) c hcreated hc

/-! ## Contracts -/

/-- A factory is run within a request for `i` that found the container `c`, on arguments that are
collected by now; `d` is the container at this moment. -/
structure Run (asks : Nat → String → Prop) (P : Container σ α → Prop)
    (Q : Container σ α → α → Prop) (n : Nat) (i : String) (f : Factory σ α)
    (args : List (String × Argument α)) (c d : Container σ α) : Prop where
  asked : asks (n + 1) i
  before : P c
  not_kept : c.services.lookup i = none
  factory : c.factories.lookup i = some f
  now : P d
  later : c.created <+: d.created
  passed : ∀ m a, (m, .part a) ∈ args → Q d a

/-- What holds of requests: `P` of the container, `Q` of the parts that are handed out and `E` of
what is left behind a failure; `asks n i` says that there may be a request for `i` with room `n`. -/
structure Contract (asks : Nat → String → Prop) (P : Container σ α → Prop)
    (Q : Container σ α → α → Prop) (E : Container σ α × σ → Failure → Prop) : Prop where
  asked {c : Container σ α} {n : Nat} {i j : String} {f : Factory σ α} {p : Parameter} (hc : P c)
    (hi : asks (n + 1) i) (hnone : c.services.lookup i = none)
    (hfactory : c.factories.lookup i = some f) (hp : p ∈ f.params) (hasked : asked? p = some j) :
    asks n j
  found {c : Container σ α} {n : Nat} {i : String} {a : α} (hc : P c) (hi : asks (n + 1) i)
    (hfound : c.services.lookup i = some a) : Q c a
  stays {c d : Container σ α} {a : α} (hlater : c.created <+: d.created) (ha : Q c a) : Q d a
  endless {c : Container σ α} {s : σ} {i : String} (hc : P c) (hi : asks 0 i) : E (c, s) .endless
  accepts {n : Nat} {i : String} {f : Factory σ α} {args : List (String × Argument α)}
    {c d : Container σ α} (s : σ) (hrun : Run asks P Q n i f args c d) : P (accepted f args d s)
  fails {n : Nat} {i : String} {f : Factory σ α} {args : List (String × Argument α)}
    {c d : Container σ α} {s : σ} {e : Failure} (hrun : Run asks P Q n i f args c d)
    (hmake : (f.make d.view args s).outcome.result = .error e) :
    E (accepted f args d s, (f.make d.view args s).state) (wrap i e)
  makes {n : Nat} {i : String} {f : Factory σ α} {args : List (String × Argument α)}
    {c d : Container σ α} {s : σ} {a : α} (hrun : Run asks P Q n i f args c d)
    (hmake : (f.make d.view args s).outcome.result = .ok a) :
    P (settle (Assoc.has i c.singletons) i a ((accepted f args d s).note ⟨a, args⟩)) ∧
      Q ((accepted f args d s).note ⟨a, args⟩) a

/-- What is left of `c` behind a computation, by a contract. -/
structure Meets {β : Type} (P : Container σ α → Prop) (Q : Container σ α → β → Prop)
    (E : Container σ α × σ → Failure → Prop) (c : Container σ α) (st : Container σ α × σ)
    (r : Except Failure β) : Prop where
  container : P st.1
  later : c.created <+: st.1.created
  answer : ∀ b, r = .ok b → Q st.1 b
  failure : ∀ e, r = .error e → E st e

namespace Contract

variable {asks : Nat → String → Prop} {P : Container σ α → Prop} {Q : Container σ α → α → Prop}
  {E : Container σ α × σ → Failure → Prop} {n : Nat}

/-- Collecting arguments, if each request for one of them meets the contract. -/
theorem arguments_of_ask (h : Contract asks P Q E) {ask : String → Task σ α α}
    {ps : List Parameter}
    (hask : ∀ p ∈ ps, ∀ j, asked? p = some j → ∀ st : Container σ α × σ, P st.1 →
      st.1.isRegistered j = true → Meets P Q E st.1 (ask j st).1 (ask j st).2.result)
    (hst : P st.1) :
    Meets P (fun c args => ∀ m a, (m, Argument.part a) ∈ args → Q c a) E st.1
      (arguments ask ps st).1 (arguments ask ps st).2.result := by
  induction ps generalizing st with
  | nil =>
      refine ⟨hst, List.prefix_rfl, ?_, ?_⟩
      · rintro args ⟨⟩ m a hmem
        cases hmem
      · rintro e ⟨⟩
  | cons p ps ih =>
      have hrest : ∀ st : Container σ α × σ, P st.1 →
          Meets P (fun c args => ∀ m a, (m, Argument.part a) ∈ args → Q c a) E st.1
            (Container.arguments ask ps st).1 (Container.arguments ask ps st).2.result :=
        fun _ hst => ih (fun q hq => hask q (List.mem_cons_of_mem p hq)) hst
      by_cases hasked : ∃ j, asked? p = some j ∧ st.1.isRegistered j = true
      · obtain ⟨j, hj, hregistered⟩ := hasked
        obtain ⟨hfirst, hprefix, hpart, hfailure⟩ :=
          hask p List.mem_cons_self j hj st hst hregistered
        rw [arguments_ask ps hj hregistered]
        cases hresult : (ask j st).2.result with
        | error e =>
            rw [Act.bind_run_error hresult]
            refine ⟨hfirst, hprefix, ?_, ?_⟩
            · rintro args ⟨⟩
            · rintro e' ⟨⟩
              exact hfailure e hresult
        | ok a =>
            rw [Act.bind_run_ok hresult, bind_return_run]
            obtain ⟨hcontainer, hlater, hargs, hfailure⟩ := hrest _ hfirst
            refine ⟨hcontainer, hprefix.trans hlater, fun args hok m b hmem => ?_, fun e he => ?_⟩
            · cases hresult' : (arguments ask ps (ask j st).1).2.result with
              | error e =>
                  rw [hresult'] at hok
                  cases hok
              | ok rest =>
                  rw [hresult'] at hok
                  cases hok
                  -- The part that was obtained first stays what it was.
                  rcases List.mem_cons.1 hmem with heq | hmem
                  · cases heq
                    exact h.stays hlater (hpart a hresult)
                  · exact hargs rest hresult' m b hmem
            · cases hresult' : (arguments ask ps (ask j st).1).2.result with
              | error e' =>
                  rw [hresult'] at he
                  cases he
                  exact hfailure e hresult'
              | ok rest =>
                  rw [hresult'] at he
                  cases he
      · rw [arguments_skip ps fun j hj => by
          rw [← Bool.not_eq_true]
          exact fun h => hasked ⟨j, hj, h⟩]
        exact hrest st hst

/-- Making a part, if collecting the arguments meets the contract. -/
theorem build_of_arguments (h : Contract asks P Q E) (hst : P st.1) (hi : asks (n + 1) i)
    (hnone : st.1.services.lookup i = none) (hfactory : st.1.factories.lookup i = some f)
    (hargs : Meets P (fun c args => ∀ m a, (m, Argument.part a) ∈ args → Q c a) E st.1
      (arguments (Container.obtain n) f.params st).1
      (arguments (Container.obtain n) f.params st).2.result) :
    Meets P Q E st.1 (build n i f st).1 (build n i f st).2.result := by
  obtain ⟨hcontainer, hlater, hpassed, hfailure⟩ := hargs
  have hbuilt := built_build n i f st
  generalize (build n i f st).1 = st', (build n i f st).2.result = r at hbuilt ⊢
  have hrun : ∀ d t args, (arguments (Container.obtain n) f.params st).1 = (d, t) →
      (arguments (Container.obtain n) f.params st).2.result = .ok args →
      Run asks P Q n i f (ownArgument f.params ++ args) st.1 d := by
    intro d t args hstate hok
    rw [hstate] at hcontainer hlater hpassed
    refine ⟨hi, hst, hnone, hfactory, hcontainer, hlater, fun m a hmem => ?_⟩
    rcases List.mem_append.1 hmem with hown | hmem
    · exact absurd hown (not_mem_ownArgument _ _)
    · exact hpassed args hok m a hmem
  cases hbuilt with
  | unsupplied d t e hstate herror =>
      rw [hstate] at hcontainer hlater hfailure
      refine ⟨hcontainer, hlater, ?_, ?_⟩
      · rintro a ⟨⟩
      · rintro e' ⟨⟩
        exact hfailure e herror
  | failed d t args e hstate hok hmake =>
      have hrun := hrun d t args hstate hok
      refine ⟨h.accepts t hrun, ?_, ?_, ?_⟩
      · rw [created_accepted]
        exact hrun.later
      · rintro a ⟨⟩
      · rintro e' ⟨⟩
        exact h.fails hrun hmake
  | made d t args a hstate hok hmake =>
      have hrun := hrun d t args hstate hok
      obtain ⟨hafter, hpart⟩ := h.makes hrun hmake
      refine ⟨hafter, ?_, ?_, ?_⟩
      · rw [created_settle]
        refine hrun.later.trans ?_
        rw [← created_accepted f (ownArgument f.params ++ args) d t]
        exact List.prefix_append _ _
      · rintro a' ⟨⟩
        exact h.stays ((created_settle ..).symm ▸ List.prefix_rfl) hpart
      · rintro e' ⟨⟩

/-- **A request meets the contract** with all the requests within it. -/
theorem obtain (h : Contract asks P Q E) (hst : P st.1) (hi : asks n i)
    (hregistered : st.1.isRegistered i = true) :
    Meets P Q E st.1 (Container.obtain n i st).1 (Container.obtain n i st).2.result := by
  induction n generalizing i st with
  | zero =>
      refine ⟨hst, List.prefix_rfl, ?_, ?_⟩
      · rintro a ⟨⟩
      · rintro e ⟨⟩
        exact h.endless hst hi
  | succ n ih =>
      cases hfound : st.1.services.lookup i with
      | some a =>
          rw [obtain_found n hfound]
          refine ⟨hst, List.prefix_rfl, ?_, ?_⟩
          · rintro a' ⟨⟩
            exact h.found hst hi hfound
          · rintro e ⟨⟩
      | none =>
          cases hfactory : st.1.factories.lookup i with
          | none =>
              rw [isRegistered_eq_false_iff.2 ⟨hfound, hfactory⟩] at hregistered
              cases hregistered
          | some f =>
              rw [obtain_factory n hfound hfactory]
              refine h.build_of_arguments hst hi hfound hfactory
                (h.arguments_of_ask (fun p hp j hj st' hst' hregistered' => ?_) hst)
              exact ih hst' (h.asked hst hi hfound hfactory hp hj) hregistered'

/-- Collecting the arguments of a factory meets the contract. -/
theorem arguments (h : Contract asks P Q E) (n : Nat) (ps : List Parameter)
    (hps : ∀ p ∈ ps, ∀ j, asked? p = some j → asks n j) (hst : P st.1) :
    Meets P (fun c args => ∀ m a, (m, Argument.part a) ∈ args → Q c a) E st.1
      (Container.arguments (Container.obtain n) ps st).1
      (Container.arguments (Container.obtain n) ps st).2.result :=
  h.arguments_of_ask (fun p hp j hj _ hst' => h.obtain hst' (hps p hp j hj)) hst

end Contract

/-- A contract for all requests that says nothing about failures. -/
abbrev Invariant (P : Container σ α → Prop) (Q : Container σ α → α → Prop) : Prop :=
  Contract (fun _ _ => True) P Q fun _ _ => True

/-- An invariant that says nothing about parts: it is kept by what factories register, by notes, and
by keeping parts for shared interfaces. -/
theorem invariant_of_container {P : Container σ α → Prop}
    (haccepted : ∀ {i f c d}, P c → c.factories.lookup i = some f → P d → ∀ args (s : σ),
      P (accepted f args d s))
    (hnote : ∀ {c} x, P c → P (c.note x))
    (hkeep : ∀ {i c d}, P c → c.services.lookup i = none → Assoc.has i c.singletons = true → P d →
      ∀ a, P (d.keep i a)) : Invariant P fun _ _ => True where
  asked _ _ _ _ _ _ := trivial
  found _ _ _ := trivial
  stays _ _ := trivial
  endless _ _ := trivial
  accepts s hrun := haccepted hrun.before hrun.factory hrun.now _ s
  fails _ _ := trivial
  makes {n i f args c d s a} hrun _ := by
    have hnoted : P ((accepted f args d s).note ⟨a, args⟩) :=
      hnote _ (haccepted hrun.before hrun.factory hrun.now args s)
    refine ⟨?_, trivial⟩
    unfold settle
    split
    · next hshared => exact hkeep hrun.before hrun.not_kept hshared hnoted a
    · exact hnoted

variable {P : Container σ α → Prop} {Q : Container σ α → α → Prop} {depth : Nat}

/-- An invariant holds behind every request. -/
theorem Invariant.get (h : Invariant P Q) (depth : Nat) (i : String) (hst : P st.1) :
    P (get depth i st).1.1 := by
  cases hregistered : st.1.isRegistered i with
  | true => exact (h.obtain hst trivial hregistered).container
  | false =>
      cases depth with
      | zero => exact hst
      | succ depth =>
          rw [get_of_unregistered depth hregistered]
          exact hst

theorem Invariant.fill (h : Invariant P Q) (depth : Nat) (is : List String) (hst : P st.1) :
    P (fill depth is st).1.1 := by
  induction is generalizing st with
  | nil => exact hst
  | cons i is ih =>
      rw [Container.fill, container_bind_run]
      rcases st.1.singletons.lookup i with _ | _ | a
      · exact ih hst
      · -- Only an interface that is waiting for its part is asked for.
        dsimp only
        cases hresult : (Container.get depth i st).2.result with
        | error e =>
            rw [Act.bind_run_error hresult]
            exact h.get depth i hst
        | ok a =>
            rw [Act.bind_run_ok hresult]
            exact ih (h.get depth i hst)
      · exact ih hst

theorem Invariant.startAll (h : Invariant P Q) (hstarted : ∀ c b, P c → P { c with started := b })
    (hst : P st.1) : P (startAll depth st).1.1 := by
  rw [Container.startAll, container_bind_run]
  split
  · exact hst
  · have hfill := h.fill depth (st.1.singletons.map (·.1)) hst
    cases hresult : (Container.fill depth (st.1.singletons.map (·.1)) st).2.result with
    | error e =>
        rw [Act.bind_run_error hresult]
        exact hfill
    | ok _ =>
        rw [Act.bind_run_ok hresult]
        exact hstarted _ true hfill

/-! ## Stopping -/

/-- A container without parts; the factories stay. -/
def cleared (c : Container σ α) : Container σ α :=
  { c with services := [], singletons := [], created := [], started := false }

/-- Stopping parts does nothing to the container. -/
theorem stopParts_container (k : Stopping σ α) (parts : List α) (st : Container σ α × σ) :
    (stopParts k parts st).1.1 = st.1 := by
  induction parts generalizing st with
  | nil => rfl
  | cons a parts ih =>
      unfold stopParts
      rw [Act.bind_run_ok (a := (k.stop a st.2).2.result) rfl]
      cases (k.stop a st.2).2.result with
      | ok _ => exact ih _
      | error e =>
          dsimp only
          split
          · exact ih _
          · rfl

/-- Stopping goes through, and then nothing is left, or it is ended from outside, and then the
container stays as it was. -/
theorem stop_container (k : Stopping σ α) (st : Container σ α × σ) :
    (stop k st).1.1 = if (stop k st).2.result.isOk then st.1.cleared else st.1 := by
  have hcontainer := stopParts_container k (st.1.created.map (·.part)).reverse st
  rw [stop, container_bind_run]
  cases hresult : (stopParts k (st.1.created.map (·.part)).reverse st).2.result with
  | error e =>
      rw [Act.bind_run_error hresult]
      exact hcontainer
  | ok _ =>
      rw [Act.bind_run_ok hresult]
      exact congrArg cleared hcontainer

end Container

/-! ## Operations -/

/-- What a user can do with a container. -/
inductive Operation (σ α : Type) where
  | register (interface : String) (f : Factory σ α) (shared : Bool)
  | keep (interface : String) (a : α)
  | get (interface : String)
  | startAll
  | stop

namespace Operation

variable {σ α : Type}

/-- The container and the state outside it behind an operation, whether that fails or not. -/
def apply (depth : Nat) (k : Stopping σ α) :
    Operation σ α → Container σ α × σ → Container σ α × σ
  | .register i f shared, (c, s) => (c.register i f shared, s)
  | .keep i a, (c, s) => (c.keep i a, s)
  | .get i, st => (Container.get depth i st).1
  | .startAll, st => (Container.startAll depth st).1
  | .stop, st => (Container.stop k st).1

/-- Whether an operation registers a factory or a part for the interface `i`. -/
def registers (i : String) : Operation σ α → Bool
  | .register j _ _ | .keep j _ => j = i
  | _ => false

end Operation

namespace Container

variable {σ α : Type}

/-- The container and the state outside it behind a history. -/
def after (depth : Nat) (k : Stopping σ α) (ops : List (Operation σ α))
    (st : Container σ α × σ) : Container σ α × σ :=
  ops.foldl (fun st o => o.apply depth k st) st

theorem after_append (depth : Nat) (k : Stopping σ α) (ops ops' : List (Operation σ α))
    (st : Container σ α × σ) :
    after depth k (ops ++ ops') st = after depth k ops' (after depth k ops st) :=
  List.foldl_append

/-- One of the stops in a history goes through. -/
def Stopped (depth : Nat) (k : Stopping σ α) :
    List (Operation σ α) → Container σ α × σ → Prop
  | [], _ => False
  | o :: ops, st =>
    (o = .stop ∧ (stop k st).2.result.isOk = true) ∨ Stopped depth k ops (o.apply depth k st)

variable {P : Container σ α → Prop} {Q : Container σ α → α → Prop} {depth : Nat}
  {k : Stopping σ α}

/-- Without a stop none goes through. -/
theorem not_stopped_of_not_mem {ops : List (Operation σ α)} (h : .stop ∉ ops)
    (st : Container σ α × σ) : ¬Stopped depth k ops st := by
  induction ops generalizing st with
  | nil => exact id
  | cons o ops ih =>
      rintro (⟨rfl, -⟩ | hstopped)
      · exact h (.head ops)
      · exact ih (fun hmem => h (.tail o hmem)) _ hstopped

/-- An invariant is kept by an operation, if it is by a registration and a stop. -/
theorem apply_invariant {o : Operation σ α} {st : Container σ α × σ} (hinvariant : Invariant P Q)
    (hstarted : ∀ c b, P c → P { c with started := b })
    (hregister : ∀ i f shared, o = .register i f shared → P (st.1.register i f shared))
    (hkeep : ∀ i a, o = .keep i a → P (st.1.keep i a))
    (hstop : o = .stop → (stop k st).2.result.isOk = true → P st.1.cleared) (h : P st.1) :
    P (o.apply depth k st).1 := by
  cases o with
  | register i f shared => exact hregister i f shared rfl
  | keep i a => exact hkeep i a rfl
  | get i => exact hinvariant.get depth i h
  | startAll => exact hinvariant.startAll hstarted h
  | stop =>
      show P (stop k st).1.1
      rw [stop_container]
      split
      · next hok => exact hstop rfl hok
      · exact h

/-- **Invariants of histories.**  What requests keep, and each registration and stop in a history,
is kept by the whole history. -/
theorem after_invariant {ops : List (Operation σ α)} (hinvariant : Invariant P Q)
    (hstarted : ∀ c b, P c → P { c with started := b })
    (hregister : ∀ i f shared, .register i f shared ∈ ops → ∀ c, P c → P (c.register i f shared))
    (hkeep : ∀ i a, .keep i a ∈ ops → ∀ c, P c → P (c.keep i a))
    {st : Container σ α × σ} (hstop : Stopped depth k ops st → ∀ c, P c → P c.cleared)
    (h : P st.1) : P (after depth k ops st).1 := by
  induction ops generalizing st with
  | nil => exact h
  | cons o ops ih =>
      refine ih (fun i f shared hmem => hregister i f shared (.tail o hmem))
        (fun i a hmem => hkeep i a (.tail o hmem)) (fun hlater => hstop (.inr hlater)) ?_
      refine apply_invariant hinvariant hstarted ?_ ?_ ?_ h
      · rintro i f shared rfl
        exact hregister i f shared (.head ops) st.1 h
      · rintro i a rfl
        exact hkeep i a (.head ops) st.1 h
      · rintro rfl hok
        exact hstop (.inl ⟨rfl, hok⟩) st.1 h

end Container

end Injection
