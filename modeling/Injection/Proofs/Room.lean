import Injection.Pass
import Injection.Proofs.JsonTexts
import Injection.Proofs.Keys
import Injection.Proofs.Results

/-!
# Room for what was read

A default is read where there is room for `depth` arrays and objects in each other, so its value is
nested no deeper (`Json.nesting_le_of_read`).  In a record two objects stand around it
(`Record.nesting_params_le`), and where a pass writes the record there is room for both and one
more.  So a pass never fails for want of room to write: a change always has its statements
(`Marked.record_bind_changeOf`), which `Marked.annotation` gives.
-/

namespace Injection

/-! ## Values -/

namespace Json

theorem nestingItems_le_iff {vs : List Json} {n : Nat} :
    nestingItems vs ≤ n ↔ ∀ v ∈ vs, v.nesting ≤ n := by
  induction vs with
  | nil => simp [nestingItems]
  | cons v vs ih => rw [nestingItems, Nat.max_le, ih, List.forall_mem_cons]

theorem nestingFields_le_iff {fs : List (Text × Json)} {n : Nat} :
    nestingFields fs ≤ n ↔ ∀ f ∈ fs, f.2.nesting ≤ n := by
  induction fs with
  | nil => simp [nestingFields]
  | cons f fs ih => rw [nestingFields, Nat.max_le, ih, List.forall_mem_cons]

end Json

namespace Json.Syntax

mutual

/-- What a tree denotes is nested no deeper than the tree. -/
theorem Value.nesting_value_le : (t : Value) → t.value.nesting ≤ t.nesting
  | .null | .bool _ | .string _ => le_rfl
  | .number n => by
      rw [Value.value, Number.value]
      split <;> exact Nat.zero_le _
  | .emptyArray _ | .emptyObject _ => le_rfl
  | .array _ items => by
      rw [Value.value, Json.nesting, Value.nesting]
      exact Nat.succ_le_succ (nestingItems_le_iff.2 items.nesting_values_le)
  | .object _ fields => by
      rw [Value.value, Json.nesting, Value.nesting]
      refine Nat.succ_le_succ (nestingFields_le_iff.2 fun f hf => ?_)
      exact fields.nesting_values_le f (Assoc.mem_of_mem_ofList hf)

theorem Items.nesting_values_le : (t : Items) → ∀ v ∈ t.values, v.nesting ≤ t.nesting
  | .last v _ => List.forall_mem_singleton.2 v.nesting_value_le
  | .next v _ _ rest => List.forall_mem_cons.2
      ⟨v.nesting_value_le.trans (le_max_left _ _),
        fun w hw => (rest.nesting_values_le w hw).trans (le_max_right _ _)⟩

theorem Fields.nesting_values_le : (t : Fields) → ∀ f ∈ t.values, f.2.nesting ≤ t.nesting
  | .last _ v _ => List.forall_mem_singleton.2 v.nesting_value_le
  | .next _ v _ _ rest => List.forall_mem_cons.2
      ⟨v.nesting_value_le.trans (le_max_left _ _),
        fun f hf => (rest.nesting_values_le f hf).trans (le_max_right _ _)⟩

end

end Json.Syntax

/-- What is read is nested no deeper than there was room for. -/
theorem Json.nesting_le_of_read {depth : Nat} {cs : List Char} {v : Json}
    (h : read .refuse depth cs = .ok v) : v.nesting ≤ depth := by
  obtain ⟨t, -, rfl, hdepth⟩ := (Syntax.read_eq_ok_iff depth cs v).1 h
  exact t.root.nesting_value_le.trans hdepth

/-! ## Directives and aliases -/

variable {depth : Nat}

namespace Dependency

/-- The default, if there is one, is nested at most `depth` deep. -/
def Within (depth : Nat) (d : Dependency) : Prop := ∀ v ∈ d.default, v.nesting ≤ depth

theorem Finding.within_of_read {f : Finding} {d : Dependency}
    (h : (f.read depth).result = .ok (some d)) : d.Within depth := by
  cases f with
  | noProvider param => cases h
  | dependency param provider literal? =>
      cases literal? with
      | none =>
          cases h
          rintro v ⟨⟩
      | some literal =>
          unfold Finding.read at h
          dsimp only at h
          split at h
          · next v hread =>
              cases h
              rintro w ⟨⟩
              exact Json.nesting_le_of_read hread
          · cases h
          · cases h

theorem within_of_readAll {fs : List Finding} {ds : List Dependency}
    (h : (readAll depth fs).result = .ok ds) : ∀ d ∈ ds, d.Within depth := by
  induction fs generalizing ds with
  | nil =>
      cases h
      exact List.forall_mem_nil _
  | cons f fs ih =>
      rw [readAll, Logged.result_bind_eq_ok_iff] at h
      obtain ⟨d?, hread, h⟩ := h
      rw [Logged.result_bind_eq_ok_iff] at h
      obtain ⟨rest, hrest, h⟩ := h
      cases h
      refine List.forall_mem_append.2 ⟨fun d hd => ?_, ih hrest⟩
      rw [Option.mem_toList] at hd
      exact Finding.within_of_read (hread.trans (congrArg _ hd))

end Dependency

namespace Aliases

/-- The defaults of all aliases are nested at most `depth` deep. -/
def Within (depth : Nat) (m : Aliases) : Prop :=
  ∀ e ∈ m.entries, ∀ v ∈ e.2.default, v.nesting ≤ depth

theorem Within.set {m : Aliases} (h : m.Within depth) (name : String) {a : Alias}
    (ha : ∀ v ∈ a.default, v.nesting ≤ depth) : (m.set name a).Within depth := by
  intro e he
  rcases Assoc.mem_of_mem_assign he with rfl | he
  · exact ha
  · exact h e he

theorem Within.foldl {α : Type} {step : Aliases → α → Aliases} {as : List α}
    (hstep : ∀ m a, a ∈ as → m.Within depth → (step m a).Within depth) {m : Aliases}
    (h : m.Within depth) : (as.foldl step m).Within depth := by
  induction as generalizing m with
  | nil => exact h
  | cons a as ih =>
      exact ih (fun m b hb => hstep m b (List.mem_cons_of_mem a hb))
        (hstep m a List.mem_cons_self h)

theorem within_of_resolve {cs : List Char} {params : List String} {m : Aliases}
    (h : (resolve depth cs params).result = .ok m) : m.Within depth := by
  rw [resolve, Logged.result_bind_eq_ok_iff] at h
  obtain ⟨ds, hds, h⟩ := h
  cases h
  have hgiven : (ofDependencies ds).Within depth := by
    refine Within.foldl (fun m d hd hm => hm.set _ ?_) (List.forall_mem_nil _)
    exact Dependency.within_of_readAll hds d hd
  refine Within.foldl (fun m p _ hm => ?_) hgiven
  split
  · exact hm
  · refine hm.set p fun v hv => ?_
    cases hv

/-- An alias is an object around its default. -/
theorem nesting_toJson_le {a : Alias} (h : ∀ v ∈ a.default, v.nesting ≤ depth) :
    a.toJson.nesting ≤ depth + 1 := by
  obtain ⟨source, default?⟩ := a
  cases default? with
  | none => simp [Alias.toJson, Json.record, Json.nesting, Json.nestingFields, Json.ofString]
  | some v =>
      simpa [Alias.toJson, Json.record, Json.nesting, Json.nestingFields, Json.ofString]
        using h v rfl

/-- The fields of parameters are their names with their aliases. -/
theorem exists_of_mem_forParameters {m : Aliases} {params : List String}
    {fields : List (Text × Json)} (h : m.forParameters params = .ok fields) {f : Text × Json}
    (hf : f ∈ fields) : ∃ p a, m.get? p = some a ∧ f = (Text.ofString p, Alias.toJson a) := by
  unfold forParameters at h
  obtain ⟨pairs, hpairs, rfl⟩ := exists_of_map_eq_ok h
  obtain ⟨p, -, hp⟩ :=
    (exists_of_forall₂ (mapM_eq_ok_iff_forall₂.1 hpairs)).2 _ (Assoc.mem_of_mem_ofList hf)
  split at hp
  · next a ha =>
      cases hp
      exact ⟨p, a, ha, rfl⟩
  · cases hp

theorem nestingFields_le {m : Aliases} (h : m.Within depth) {params : List String}
    {fields : List (Text × Json)} (hfields : m.forParameters params = .ok fields) :
    Json.nestingFields fields ≤ depth + 1 := by
  refine Json.nestingFields_le_iff.2 fun f hf => ?_
  obtain ⟨p, a, ha, rfl⟩ := exists_of_mem_forParameters hfields hf
  obtain ⟨front, behind, hentries, -⟩ := Assoc.exists_append_of_lookup ha
  refine nesting_toJson_le (h (p, a) ?_)
  rw [hentries]
  exact List.mem_append_cons_self

end Aliases

/-! ## Records -/

namespace Record

theorem nestingFields_le_of_paramsOf {policy : UnknownPolicy} {target : String} {s : Signature}
    {fields : List (Text × Json)} (h : (paramsOf depth policy target s).result = .ok fields) :
    Json.nestingFields fields ≤ depth + 1 := by
  unfold paramsOf at h
  split at h
  · cases h
    exact Nat.zero_le _
  · rw [Logged.result_bind_eq_ok_iff] at h
    obtain ⟨aliases, haliases, h⟩ := h
    rw [Logged.result_bind_eq_ok_iff] at h
    obtain ⟨_, -, h⟩ := h
    cases h
    cases hfields : aliases.forParameters s.params with
    | error e => exact Nat.zero_le _
    | ok fields => exact Aliases.nestingFields_le (Aliases.within_of_resolve haliases) hfields

/-- The parameters of a record are two objects around the defaults. -/
theorem nesting_params_le {source : Bytes} {policy : UnknownPolicy} {identifier : String}
    {target : Tree} {comment : List Char} {directive : Injectable} {line : Int} {r : Record}
    (h : (build depth source policy identifier target comment directive line).result =
      .ok (some r)) : r.params.nesting ≤ depth + 2 := by
  unfold build at h
  split at h
  · rw [Logged.result_write_bind] at h
    cases h
  · obtain ⟨fields, hfields, hr⟩ := Logged.result_bind_return_eq_ok_iff.1 h
    cases hr
    exact Nat.succ_le_succ (nestingFields_le_of_paramsOf hfields)

/-- Statements are written wherever there is room for the parameters. -/
theorem statements_eq_ok {room : Nat} {r : Record} (h : r.params.nesting ≤ room) :
    r.statements room = .ok r.texts := by
  rw [statements, if_neg]
  simp [Nat.not_lt.2 h]

end Record

/-! ## Changes -/

namespace Marked

variable (c : Context) (m : Marked)

/-- The statements of a record as they go behind the statement. -/
def annotation (r : Record) : Text := Record.joined (m.indent c) (Layout.newline c.source) r.texts

variable {c m} {identifier : String} {target : Tree}

/-- There is room for the record of a statement. -/
theorem render_of_record {r : Record}
    (h : (m.record c identifier target).result = .ok (some r)) :
    m.render c r = .ok (m.annotation c r) := by
  have hroom : r.params.nesting ≤ c.room :=
    (Record.nesting_params_le h).trans (Nat.le_succ (c.depth + 2))
  rw [render, Record.render, Record.statements_eq_ok hroom]
  rfl

/-- A record that a statement has is written. -/
theorem changeOf_of_record {record? : Option Record}
    (h : (m.record c identifier target).result = .ok record?) (edits : Text → List Edit) :
    m.changeOf c edits record? = pure (record?.map fun r => ⟨edits (m.annotation c r), r⟩) := by
  cases record? with
  | none => rfl
  | some r =>
      rw [changeOf, render_of_record h]
      rfl

/-- The change of a statement is its record with edits that put the statements there. -/
theorem record_bind_changeOf (edits : Text → List Edit) :
    m.record c identifier target >>= m.changeOf c edits =
      m.record c identifier target >>= fun record? =>
        pure (record?.map fun r => ⟨edits (m.annotation c r), r⟩) := by
  cases h : (m.record c identifier target).result with
  | error e => rw [Logged.bind_of_error h, Logged.bind_of_error h]
  | ok record? => rw [Logged.bind_of_ok h, Logged.bind_of_ok h, changeOf_of_record h]

theorem annotate_eq (c : Context) (m : Marked) (identifier : String) (target : Tree) :
    m.annotate c identifier target =
      if m.site.isAnnotated c.source identifier then do
        Logged.write .debug s!"'{identifier}' already carries injection metadata"
        return none
      else do
        let record? ← m.record c identifier target
        return record?.map fun r => ⟨[Edit.insertAfter m.node (m.annotation c r)], r⟩ := by
  rw [annotate, record_bind_changeOf]

theorem defaultChange_eq (c : Context) (m : Marked) (identifier : String) (target : Tree) :
    m.defaultChange c identifier target = do
      let record? ← m.record c identifier target
      return record?.map fun r => ⟨m.defaultEdits c identifier target (m.annotation c r), r⟩ :=
  record_bind_changeOf _

theorem namedChange_eq (c : Context) (m : Marked) (identifier : String) (names : List String)
    (declaration target : Tree) :
    m.namedChange c (identifier :: names) declaration target = do
      let record? ← m.record c identifier target
      return record?.map fun r =>
        ⟨m.namedEdits c (identifier :: names) declaration (m.annotation c r), r⟩ :=
  record_bind_changeOf _

end Marked

end Injection
