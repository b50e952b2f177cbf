import Injection.Proofs.Demands
import Injection.Proofs.ResolvedAliases

/-!
# Directives for parameters that are not there

A pass that refuses such directives and one that lets them through, side by side.

* `Demand.unknown` are the names that the directives for a demand speak of and its target lacks.
* `Record.heeds_build`: a record is refused for the sake of these names, or it is the same.
* **`text_under_policies`**: a transform under each of the three policies.
-/

namespace Injection

/-- The names that directives speak of and that are none of the parameters, if there are parameters
at all. -/
def Signature.unknown (depth : Nat) (s : Signature) : List String :=
  if s.params.isEmpty then []
  else
    match (Dependency.parse depth s.directives).result with
    | .ok ds => (ds.map (·.param)).eraseDups.filter fun n => !s.params.contains n
    | .error _ => []

namespace Demand

variable (depth : Nat) (source : Bytes) (q : Demand)

/-- The names that the directives for the target speak of and that it lacks. -/
def unknown : List String :=
  match Signature.ofTarget? source q.target q.comment with
  | some s => s.unknown depth
  | none => []

/-- Whether a directive names a parameter that the target lacks. -/
def offends : Bool := !(q.unknown depth source).isEmpty

/-- The failure for the sake of which a demand is refused. -/
def failure : Failure := .ofTransform (.unknownDependency q.identifier (q.unknown depth source))

/-- The failure of a demand that is refused under a policy. -/
def refusal? (policy : UnknownPolicy) : Option Failure :=
  if policy = .error ∧ q.offends depth source then some (q.failure depth source) else none

theorem findSome?_refusal? (policy : UnknownPolicy) (qs : List Demand) :
    qs.findSome? (·.refusal? depth source policy) =
      if policy = .error then
        (qs.find? (·.offends depth source)).map (·.failure depth source)
      else none := by
  induction qs with
  | nil => simp
  | cons q qs ih =>
      rw [List.findSome?_cons, List.find?_cons, ih, refusal?]
      cases q.offends depth source <;> by_cases hpolicy : policy = .error <;> simp [hpolicy]

end Demand

/-! ## Records under two policies -/

section TwoPolicies

variable (policy : UnknownPolicy) {lenient : UnknownPolicy} (hlenient : lenient ≠ .error)
  {depth : Nat} {source : Bytes}
include hlenient

theorem Record.heeds_checkUnknown (depth : Nat) (source : Bytes) (q : Demand) :
    Heeds (·.refusal? depth source policy) [q]
      (checkUnknown policy q.identifier (q.unknown depth source)).result
      (checkUnknown lenient q.identifier (q.unknown depth source)).result := by
  have hlenient' : (checkUnknown lenient q.identifier (q.unknown depth source)).result = .ok () :=
    checkUnknown_eq_ok fun herror => absurd herror hlenient
  rw [hlenient']
  cases hunknown : q.unknown depth source with
  | nil =>
      refine .of_none ?_ rfl
      simp [Demand.refusal?, Demand.offends, hunknown]
  | cons name names =>
      cases policy with
      | error =>
          refine .of_some ?_ rfl
          simp [Demand.refusal?, Demand.offends, Demand.failure, hunknown]
      | warn => exact .of_none rfl rfl
      | ignore => exact .of_none rfl rfl

theorem Record.heeds_paramsOf {s : Signature} {q : Demand}
    (hq : q.unknown depth source = s.unknown depth) :
    Heeds (·.refusal? depth source policy) [q] (paramsOf depth policy q.identifier s).result
      (paramsOf depth lenient q.identifier s).result := by
  have hcheck := heeds_checkUnknown policy hlenient depth source q
  have hknown : q.unknown depth source = [] → q.refusal? depth source policy = none := by
    intro hnil
    simp [Demand.refusal?, Demand.offends, hnil]
  unfold paramsOf
  by_cases hparams : s.params.isEmpty = true
  · rw [if_pos hparams, if_pos hparams]
    exact .of_none (hknown (by rw [hq, Signature.unknown, if_pos hparams])) rfl
  · rw [Signature.unknown, if_neg hparams] at hq
    rw [if_neg hparams, if_neg hparams, Logged.result_bind, Logged.result_bind, Aliases.resolve,
      Logged.result_bind_return]
    -- The directives are read in the same way; what is unknown is looked at behind that.
    cases hparse : (Dependency.parse depth s.directives).result with
    | error e => exact .of_none (hknown (by rw [hq, hparse])) rfl
    | ok ds =>
        rw [hparse] at hq
        simp only [hq, ← Aliases.unknown_complete_ofDependencies] at hcheck
        exact hcheck.map _

theorem Record.heeds_build (depth : Nat) (source : Bytes) (identifier : String) (target : Tree)
    (comment : List Char) (directive : Injectable) (line : Int) :
    Heeds (·.refusal? depth source policy) [⟨identifier, target, comment⟩]
      (build depth source policy identifier target comment directive line).result
      (build depth source lenient identifier target comment directive line).result := by
  unfold build
  cases hsignature : Signature.ofTarget? source target comment with
  | none =>
      refine .of_none ?_ rfl
      simp [Demand.refusal?, Demand.offends, Demand.unknown, hsignature]
  | some s =>
      have hq : Demand.unknown depth source ⟨identifier, target, comment⟩ = s.unknown depth := by
        simp only [Demand.unknown, hsignature]
      exact (heeds_paramsOf policy hlenient hq).map _

theorem Marked.heedsRecords_policies (c : Context) :
    HeedsRecords (·.refusal? c.depth c.source policy) c policy lenient c.depth c.depth :=
  fun _ _ _ => Record.heeds_build policy hlenient _ _ _ _ _ _ _

end TwoPolicies

/-! ## Sources -/

namespace Transform

/-- **A transform under each policy.**  With a warning and without one the outcome is the same, and
so is the failure.  To refuse unknown names is to fail for the first demand whose directives name a
parameter that its target lacks, and to differ in nothing else. -/
theorem text_under_policies (host : Host) (r : Registry) (s : TransformSettings)
    (source language file : String) :
    let result policy :=
      (text host r { s with unknownDependency := policy } source language file).result
    let refused? :=
      (demands host r { s with unknownDependency := .warn } source language file).find?
        (·.offends host.depth (Utf8.encodeString source))
    result .warn = result .ignore ∧
      (∀ o, result .error = .ok o → result .warn = .ok o) ∧
      (∀ e, result .error = .error e → result .warn = .error e ∨
        ∃ q, refused? = some q ∧ e = q.failure host.depth (Utf8.encodeString source)) ∧
      (∀ q, refused? = some q → result .error =
        .error (q.failure host.depth (Utf8.encodeString source))) ∧
      (refused? = none → result .error = result .warn) := by
  have hwarn : UnknownPolicy.warn ≠ .error := by decide
  have hheeds : ∀ policy, Heeds (·.refusal? host.depth (Utf8.encodeString source) policy)
      (demands host r { s with unknownDependency := .warn } source language file)
      (text host r { s with unknownDependency := policy } source language file).result
      (text host r { s with unknownDependency := .warn } source language file).result := by
    intro policy
    have hrecords := Marked.heedsRecords_policies policy hwarn
      (context host.depth { s with unknownDependency := .warn } source)
    exact heeds_text hrecords r language file
  have hignore := hheeds .ignore
  have herror := hheeds .error
  unfold Heeds at hignore herror
  rw [Demand.findSome?_refusal?, if_neg (by decide)] at hignore
  rw [Demand.findSome?_refusal?, if_pos rfl] at herror
  dsimp only
  refine ⟨hignore.symm, ?_⟩
  rw [herror]
  cases hrefused : (demands host r { s with unknownDependency := .warn } source language
    file).find? (·.offends host.depth (Utf8.encodeString source)) with
  | none => exact ⟨fun o h => h, fun e h => .inl h, nofun, fun _ => rfl⟩
  | some q =>
      refine ⟨nofun, ?_, ?_, nofun⟩
      · rintro e ⟨⟩
        exact .inr ⟨q, rfl, rfl⟩
      · rintro q' ⟨⟩
        rfl

/-- `classBytes` with a directive for `q`, which is no parameter of the class. -/
def unknownBytes : Bytes := classBytes.set 102 113

-- The class is the demand that is refused.
example :
    ((Pass.demands ⟨unknownBytes, .warn, "uid", 980⟩ [] (Site.allStatements classTree)).find?
      (·.offends 980 unknownBytes)).map (fun q => (q.identifier, q.unknown 980 unknownBytes)) =
        some ("C", ["q"]) := by decide +kernel

end Transform

end Injection
