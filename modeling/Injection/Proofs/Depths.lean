import Injection.Proofs.Demands

/-!
# Reading with less room

A transform that is called from further within has less room for the values that it reads.  Either
this makes no difference at all, or a default is nested too deeply.

* `Shallow` relates the results with less room and with more of it.
* `Json.Syntax.shallow_value` follows the reader, by induction on its fuel; above it there is one
  lemma for each function, up to a record.
* **`Transform.text_inner`**: a transform that the service calls from within itself.
-/

namespace Injection

/-! ## Results with less room -/

/-- The result `r` is `r'`, or it is a failure for the lack of room. -/
def Shallow {ε α : Type} (deep : ε → Prop) (r r' : Except ε α) : Prop :=
  r = r' ∨ ∃ e, deep e ∧ r = .error e

namespace Shallow

variable {ε α β : Type} {deep : ε → Prop} {r r' : Except ε α}

protected theorem rfl : Shallow deep r r := .inl rfl

theorem bind {f g : α → Except ε β} (h : Shallow deep r r')
    (hrest : ∀ a, Shallow deep (f a) (g a)) : Shallow deep (r.bind f) (r'.bind g) := by
  rcases h with rfl | ⟨e, he, rfl⟩
  · cases r with
    | error e => exact .rfl
    | ok a => exact hrest a
  · exact .inr ⟨e, he, rfl⟩

theorem map (h : Shallow deep r r') (f : α → β) : Shallow deep (r.map f) (r'.map f) := by
  rcases h with rfl | ⟨e, he, rfl⟩
  · exact .rfl
  · exact .inr ⟨e, he, rfl⟩

end Shallow

/-! ## The reader of values -/

namespace Json.Syntax

/-- A text nests values too deeply. -/
def IsDeep (f : Fault) : Prop := ∃ n, f = .depth n

mutual

theorem shallow_value (names : Names) : ∀ (fuel : Nat) {d d' : Nat} (_ : d ≤ d') (cs : List Char),
    Shallow IsDeep (readValue names d fuel cs) (readValue names d' fuel cs)
  | 0, _, _, _, cs => .inl (by rw [readValue, readValue])
  | _ + 1, _, _, _, [] => .inl (by rw [readValue, readValue])
  | fuel + 1, 0, d', _, c :: cs => by
      -- Without any room arrays and objects are given up at once; nothing else asks for room.
      rw [readValue.eq_def, readValue.eq_def names d']
      dsimp only
      split
      · exact .rfl
      · split
        · exact .inr ⟨_, ⟨_, rfl⟩, rfl⟩
        · split
          · exact .inr ⟨_, ⟨_, rfl⟩, rfl⟩
          · exact .rfl
  | fuel + 1, d + 1, 0, h, c :: cs => absurd h (Nat.not_succ_le_zero d)
  | fuel + 1, d + 1, d' + 1, h, c :: cs => by
      -- What is inside an array or an object is read with one level less on both sides.
      have h := Nat.le_of_succ_le_succ h
      rw [readValue, readValue]
      split
      · exact .rfl
      · split
        · dsimp only
          split
          · exact .rfl
          · exact (shallow_items names fuel h _).map _
        · split
          · dsimp only
            split
            · exact .rfl
            · exact (shallow_fields names fuel h _).map _
          · exact .rfl

theorem shallow_items (names : Names) : ∀ (fuel : Nat) {d d' : Nat} (_ : d ≤ d') (cs : List Char),
    Shallow IsDeep (readItems names d fuel cs) (readItems names d' fuel cs)
  | 0, _, _, _, cs => .inl (by rw [readItems, readItems])
  | fuel + 1, d, d', h, cs => by
      rw [readItems, readItems]
      refine (shallow_value names fuel h cs).bind fun a => ?_
      dsimp only
      split
      · exact .rfl
      · exact (shallow_items names fuel h _).bind fun _ => .rfl
      · exact .rfl

theorem shallow_fields (names : Names) : ∀ (fuel : Nat) {d d' : Nat} (_ : d ≤ d') (cs : List Char),
    Shallow IsDeep (readFields names d fuel cs) (readFields names d' fuel cs)
  | 0, _, _, _, cs => .inl (by rw [readFields, readFields])
  | fuel + 1, d, d', h, cs => by
      rw [readFields.eq_def, readFields.eq_def]
      dsimp only
      split
      · refine Shallow.bind .rfl fun a => ?_
        split
        · refine (shallow_value names fuel h _).bind fun b => ?_
          split
          · exact .rfl
          · exact (shallow_fields names fuel h _).bind fun _ => .rfl
          · exact .rfl
        · exact .rfl
      · exact .rfl

end

theorem shallow_read (names : Names) {d d' : Nat} (h : d ≤ d') (cs : List Char) :
    Shallow IsDeep (read names d cs) (read names d' cs) := by
  unfold read
  split
  · exact .rfl
  · rcases shallow_value names (2 * cs.length + 1) h (skipSpace cs) with heq | ⟨e, he, heq⟩
    · rw [heq]
      exact .rfl
    · rw [heq]
      exact .inr ⟨e, he, rfl⟩

end Json.Syntax

/-! ## Directives and records -/

/-- A default is nested too deeply. -/
def Failure.IsDeep (f : Failure) : Prop := ∃ n, f = .tooDeep n

variable {d d' : Nat} (hle : d ≤ d')
include hle

namespace Dependency

theorem Finding.shallow_read (f : Finding) :
    Shallow Failure.IsDeep (f.read d).result (f.read d').result := by
  cases f with
  | noProvider param => exact .rfl
  | dependency param provider literal? =>
      cases literal? with
      | none => exact .rfl
      | some literal =>
          rw [read, read]
          rcases Json.Syntax.shallow_read .refuse hle literal.toList with heq | ⟨-, ⟨n, rfl⟩, heq⟩
          · rw [heq]
            exact .rfl
          · rw [heq]
            exact .inr ⟨_, ⟨n, rfl⟩, rfl⟩

theorem shallow_readAll (fs : List Finding) :
    Shallow Failure.IsDeep (readAll d fs).result (readAll d' fs).result := by
  induction fs with
  | nil => exact .rfl
  | cons f fs ih =>
      simp only [readAll, Logged.result_bind]
      exact (f.shallow_read hle).bind fun _ => ih.bind fun _ => .rfl

end Dependency

namespace Record

theorem shallow_paramsOf (policy : UnknownPolicy) (target : String) (s : Signature) :
    Shallow Failure.IsDeep (paramsOf d policy target s).result
      (paramsOf d' policy target s).result := by
  unfold paramsOf Aliases.resolve
  split
  · exact .rfl
  · simp only [Logged.result_bind]
    exact ((Dependency.shallow_readAll hle _).bind fun _ => .rfl).bind fun _ => .rfl

end Record

omit hle

/-- The failure of a demand for the lack of room. -/
def Demand.tooDeep? (depth : Nat) (source : Bytes) (policy : UnknownPolicy) (q : Demand) :
    Option Failure :=
  match Signature.ofTarget? source q.target q.comment with
  | none => none
  | some s =>
    match (Record.paramsOf depth policy q.identifier s).result with
    | .error (.tooDeep n) => some (.tooDeep n)
    | _ => none

theorem Demand.isDeep_of_tooDeep? {depth : Nat} {source : Bytes} {policy : UnknownPolicy}
    {q : Demand} {f : Failure} (h : q.tooDeep? depth source policy = some f) : f.IsDeep := by
  unfold tooDeep? at h
  split at h
  · cases h
  · split at h
    · next n _ =>
        cases h
        exact ⟨n, rfl⟩
    · cases h

/-- Records are refused for the lack of room alone. -/
theorem Marked.heedsRecords_depths (hle : d ≤ d') (c : Context) (policy : UnknownPolicy) :
    HeedsRecords (·.tooDeep? d c.source policy) c policy policy d d' := by
  intro m identifier target
  have hparams := fun s => Record.shallow_paramsOf hle policy identifier s
  unfold record Record.build
  simp only [Context.under]
  cases hsignature : Signature.ofTarget? c.source target m.comment with
  | none => exact .of_none (by simp only [Demand.tooDeep?, hsignature]) rfl
  | some s =>
      have hheeds : Heeds (·.tooDeep? d c.source policy) [⟨identifier, target, m.comment⟩]
          (Record.paramsOf d policy identifier s).result
          (Record.paramsOf d' policy identifier s).result := by
        by_cases hdeep : ∃ n, (Record.paramsOf d policy identifier s).result = .error (.tooDeep n)
        · obtain ⟨n, hn⟩ := hdeep
          exact .of_some (by simp only [Demand.tooDeep?, hsignature, hn]) hn
        · have heq : (Record.paramsOf d policy identifier s).result =
              (Record.paramsOf d' policy identifier s).result := by
            rcases hparams s with heq | ⟨-, ⟨n, rfl⟩, heq⟩
            · exact heq
            · exact absurd ⟨n, heq⟩ hdeep
          refine .of_none ?_ heq
          simp only [Demand.tooDeep?, hsignature]
          split
          · next n hn => exact absurd ⟨n, hn⟩ hdeep
          · rfl
      exact hheeds.map _

/-! ## Transforms -/

/-- **A transform with room for one call less** gives the same, or a default is nested too deeply
for it. -/
theorem Transform.text_inner (host : Host) (r : Registry) (s : TransformSettings)
    (source language file : String) :
    Shallow Failure.IsDeep (text host.inner r s source language file).result
      (text host r s source language file).result := by
  have hrecords := Marked.heedsRecords_depths (Nat.sub_le host.depth 1)
    (context host.depth s source) s.unknownDependency
  rcases (heeds_text hrecords r language file).eq_or_exists with heq | ⟨q, -, f, hf, heq⟩
  · exact .inl heq
  · exact .inr ⟨f, Demand.isDeep_of_tooDeep? hf, heq⟩

end Injection
