import Injection.Proofs.Changes

/-!
# Statements that a pass leaves alone

A visit leaves a statement alone when it is not marked, or when there is a reason to do so although
it is marked (`Site.Idle`).  The names that are taken by then do not matter to whether a visit makes
a change: they only matter to the names that it makes up.
-/

namespace Injection

namespace Tree

/-- Whether a node is something that can be injectable. -/
def isTarget (t : Tree) : Bool := t.isClass || t.isFunction

/-- An export in which nothing can be made injectable. -/
def ExportIdle (t : Tree) : Prop :=
  if t.children.any (·.kind = .defaultKeyword) then
    ∀ target, (t.childAt? "declaration").or (t.childAt? "value") = some target →
      target.kind.isExportable = true →
        (target.childAt? "name" = none ∧ target.kind = .abstractClassDeclaration) ∨
          target.isTarget = false
  else
    ∀ declaration, t.childAt? "declaration" = some declaration →
      if declaration.kind.isVariableDeclaration then
        (∀ d ∈ declaration.declarators,
          ((d.childAt? "name").filter (·.kind = .identifier)).isSome = true) ∧
        ∀ value, declaration.declarators.head?.bind (·.childAt? "value") = some value →
          value.isTarget = false
      else
        declaration.kind.isDeclaration = true →
          (declaration.childAt? "name").isSome = true ∧ declaration.isTarget = false

end Tree

theorem Signature.ofTarget?_eq_none_iff (source : Bytes) (t : Tree) (comment : List Char) :
    ofTarget? source t comment = none ↔ t.isTarget = false := by
  unfold ofTarget? Tree.isTarget
  cases t.isClass <;> cases t.isFunction <;> simp

namespace Record

variable {depth : Nat} {source : Bytes} {policy : UnknownPolicy} {identifier : String}
  {target : Tree} {comment : List Char} {directive : Injectable} {line : Int}

/-- There is no record of a node that is no target. -/
theorem build_eq_ok_none_iff :
    (build depth source policy identifier target comment directive line).result = .ok none ↔
      target.isTarget = false := by
  rw [← Signature.ofTarget?_eq_none_iff source target comment]
  unfold build
  cases Signature.ofTarget? source target comment with
  | none => exact iff_of_true rfl rfl
  | some s =>
      refine iff_of_false (fun h => ?_) (Option.some_ne_none s)
      obtain ⟨params, -, hnone⟩ := Logged.result_bind_return_eq_ok_iff.1 h
      cases hnone

/-- Whether unknown names are let through does not depend on the target. -/
theorem result_checkUnknown {a b : String} {unknown : List String}
    (h : (checkUnknown policy a unknown).result = .ok ()) :
    (checkUnknown policy b unknown).result = .ok () := by
  unfold checkUnknown at h ⊢
  split
  · rfl
  · next hunknown =>
      rw [if_neg hunknown] at h
      cases policy with
      | warn => rfl
      | ignore => rfl
      | error => cases h

theorem result_paramsOf {a b : String} {s : Signature} {ps : List (Text × Json)}
    (h : (paramsOf depth policy a s).result = .ok ps) :
    (paramsOf depth policy b s).result = .ok ps := by
  unfold paramsOf at h ⊢
  split
  · next hempty =>
      rw [if_pos hempty] at h
      exact h
  · next hempty =>
      rw [if_neg hempty, Logged.result_bind_eq_ok_iff] at h
      obtain ⟨aliases, haliases, h⟩ := h
      rw [Logged.result_bind_eq_ok_iff] at h
      obtain ⟨_, hcheck, h⟩ := h
      rw [Logged.result_bind_eq_ok_iff]
      refine ⟨aliases, haliases, ?_⟩
      rw [Logged.result_bind_eq_ok_iff]
      exact ⟨(), result_checkUnknown hcheck, h⟩

/-- Whether there is a record does not depend on the identifier. -/
theorem exists_build {r : Record} (other : String)
    (h : (build depth source policy identifier target comment directive line).result =
      .ok (some r)) :
    ∃ r', (build depth source policy other target comment directive line).result =
      .ok (some r') := by
  unfold build at h ⊢
  cases hsignature : Signature.ofTarget? source target comment with
  | none =>
      rw [hsignature] at h
      simp only [Logged.result_write_bind] at h
      cases h
  | some s =>
      rw [hsignature] at h
      obtain ⟨params, hparams, -⟩ := Logged.result_bind_return_eq_ok_iff.1 h
      exact ⟨_, Logged.result_bind_return_eq_ok_iff.2 ⟨params, result_paramsOf hparams, rfl⟩⟩

end Record

namespace Site

/-- A statement that is left alone even if it is marked. -/
def Idle (c : Context) (s : Site) : Prop :=
  if s.node.kind = .exportStatement then s.node.ExportIdle
  else if s.node.kind.isVariableDeclaration then
    ∀ name value, s.node.declarators.head?.bind Marked.binding? = some (name, value) →
      s.isAnnotated c.source (name.text c.source) = true ∨ value.isTarget = false
  else
    s.node.kind.isDeclaration = true → ∀ name, s.node.childAt? "name" = some name →
      s.isAnnotated c.source (name.text c.source) = true ∨ s.node.isTarget = false

end Site

/-! ## Reasons to leave a statement alone -/

namespace Marked

variable {c : Context} {m : Marked} {identifier : String} {target : Tree}

theorem record_eq_ok_none_iff :
    (m.record c identifier target).result = .ok none ↔ target.isTarget = false :=
  Record.build_eq_ok_none_iff

/-- A record that is turned into a change is there exactly when the change is. -/
theorem result_record_map_eq_ok_none_iff (c : Context) (m : Marked) (identifier : String)
    (target : Tree) (f : Record → Change) :
    (m.record c identifier target >>= fun record? => pure (record?.map f)).result = .ok none ↔
      target.isTarget = false := by
  rw [Logged.result_bind_return, ← record_eq_ok_none_iff (c := c) (m := m)]
  cases (m.record c identifier target).result with
  | error e => simp [Except.map]
  | ok record? => cases record? <;> simp [Except.map]

theorem annotate_eq_ok_none_iff :
    (m.annotate c identifier target).result = .ok none ↔
      m.site.isAnnotated c.source identifier = true ∨ target.isTarget = false := by
  rw [annotate_eq]
  split
  · next h => exact iff_of_true rfl (Or.inl h)
  · next h =>
      rw [result_record_map_eq_ok_none_iff]
      exact ⟨Or.inr, fun hor => hor.resolve_left h⟩

theorem variableChange_eq_ok_none_iff :
    (m.variableChange c).result = .ok none ↔
      ∀ name value, m.node.declarators.head?.bind binding? = some (name, value) →
        m.site.isAnnotated c.source (name.text c.source) = true ∨ value.isTarget = false := by
  unfold variableChange
  cases m.node.declarators.head?.bind binding? with
  | none =>
      rw [Logged.result_write_bind]
      exact iff_of_true rfl (by rintro _ _ ⟨⟩)
  | some pair =>
      rw [annotate_eq_ok_none_iff]
      constructor
      · rintro h _ _ ⟨⟩
        exact h
      · intro h
        exact h pair.1 pair.2 rfl

theorem declarationChange_eq_ok_none_iff :
    (m.declarationChange c).result = .ok none ↔
      ∀ name, m.node.childAt? "name" = some name →
        m.site.isAnnotated c.source (name.text c.source) = true ∨ m.node.isTarget = false := by
  unfold declarationChange
  cases m.node.childAt? "name" with
  | none => exact iff_of_true rfl (by rintro _ ⟨⟩)
  | some name =>
      rw [annotate_eq_ok_none_iff]
      constructor
      · rintro h _ ⟨⟩
        exact h
      · intro h
        exact h name rfl

theorem defaultChange_eq_ok_none_iff :
    (m.defaultChange c identifier target).result = .ok none ↔ target.isTarget = false := by
  rw [defaultChange_eq]
  exact result_record_map_eq_ok_none_iff c m identifier target _

/-- Names that are passed along do not matter to whether there is a change. -/
theorem result_pair_eq_ok_none_iff {ε : Type} {x : Logged ε (Option Change)}
    {taken : List String} :
    (∃ taken', (x >>= fun change? => pure (taken, change?)).result = .ok (taken', none)) ↔
      x.result = .ok none := by
  rw [Logged.result_bind_return]
  cases x.result with
  | error e => simp [Except.map]
  | ok change? => simp [Except.map]

theorem defaultExport_eq_ok_none_iff {taken : List String} :
    (∃ taken', (m.defaultExport c taken target).result = .ok (taken', none)) ↔
      (target.kind.isExportable = true →
        (target.childAt? "name" = none ∧ target.kind = .abstractClassDeclaration) ∨
          target.isTarget = false) := by
  unfold defaultExport
  cases hexportable : target.kind.isExportable with
  | false => exact iff_of_true ⟨taken, rfl⟩ (by rintro ⟨⟩)
  | true =>
      simp only [Bool.not_true, Bool.false_eq_true, if_false, forall_true_left]
      cases target.childAt? "name" with
      | some name =>
          rw [result_pair_eq_ok_none_iff, defaultChange_eq_ok_none_iff]
          simp
      | none =>
          by_cases habstract : target.kind = .abstractClassDeclaration
          · simp only [habstract, if_true]
            exact iff_of_true ⟨taken, rfl⟩ (Or.inl ⟨trivial, trivial⟩)
          · simp only [habstract, if_false]
            rw [result_pair_eq_ok_none_iff, defaultChange_eq_ok_none_iff]
            simp

theorem declaratorName_eq_ok_iff {source : Bytes} {d : Tree} :
    (∃ name, declaratorName source d = .ok name) ↔
      ((d.childAt? "name").filter (·.kind = .identifier)).isSome = true := by
  unfold declaratorName
  cases (d.childAt? "name").filter (·.kind = .identifier) with
  | none => simp
  | some name => simp

theorem namedChange_eq_ok_none_iff {names : List String} {declaration : Tree} :
    (m.namedChange c names declaration target).result = .ok none ↔
      names = [] ∨ target.isTarget = false := by
  cases names with
  | nil => exact iff_of_true rfl (Or.inl rfl)
  | cons identifier rest =>
      rw [namedChange_eq, result_record_map_eq_ok_none_iff]
      simp

/-- An export of bindings is left alone when each of them has a name and the value of the first one
is no target. -/
theorem namedExport_of_bindings {declaration : Tree}
    (hkind : declaration.kind.isVariableDeclaration = true) :
    (m.namedExport c declaration).result = .ok none ↔
      (∀ d ∈ declaration.declarators,
        ((d.childAt? "name").filter (·.kind = .identifier)).isSome = true) ∧
      ∀ value, declaration.declarators.head?.bind (·.childAt? "value") = some value →
        value.isTarget = false := by
  have hnames : (∀ d ∈ declaration.declarators,
      ((d.childAt? "name").filter (·.kind = .identifier)).isSome = true) ↔
        ∃ names, declaration.declarators.mapM (declaratorName c.source) = .ok names := by
    rw [exists_mapM_eq_ok_iff]
    simp only [declaratorName_eq_ok_iff]
  unfold namedExport
  rw [if_pos hkind, hnames, Logged.result_bind_eq_ok_iff, Logged.result_ofExcept]
  cases hmap : declaration.declarators.mapM (declaratorName c.source) with
  | error e => exact iff_of_false (by rintro ⟨_, ⟨⟩, -⟩) (by rintro ⟨⟨_, ⟨⟩⟩, -⟩)
  | ok names =>
      have hlength := (mapM_eq_ok_iff_forall₂.1 hmap).length_eq
      cases hvalue : declaration.declarators.head?.bind (·.childAt? "value") with
      | none => exact iff_of_true ⟨names, rfl, rfl⟩ ⟨⟨names, rfl⟩, by rintro _ ⟨⟩⟩
      | some value =>
          -- there is a value, so there is a declarator, and so a name
          have hne : names ≠ [] := by
            intro hnil
            rw [hnil, List.length_nil] at hlength
            rw [List.length_eq_zero_iff.1 hlength] at hvalue
            cases hvalue
          constructor
          · rintro ⟨_, ⟨⟩, h⟩
            refine ⟨⟨names, rfl⟩, ?_⟩
            rintro _ ⟨⟩
            exact (namedChange_eq_ok_none_iff.1 h).resolve_left hne
          · rintro ⟨-, h⟩
            exact ⟨names, rfl, namedChange_eq_ok_none_iff.2 (Or.inr (h value rfl))⟩

theorem namedExport_eq_ok_none_iff {declaration : Tree} :
    (m.namedExport c declaration).result = .ok none ↔
      if declaration.kind.isVariableDeclaration then
        (∀ d ∈ declaration.declarators,
          ((d.childAt? "name").filter (·.kind = .identifier)).isSome = true) ∧
        ∀ value, declaration.declarators.head?.bind (·.childAt? "value") = some value →
          value.isTarget = false
      else
        declaration.kind.isDeclaration = true →
          (declaration.childAt? "name").isSome = true ∧ declaration.isTarget = false := by
  by_cases hvariable : declaration.kind.isVariableDeclaration = true
  · rw [if_pos hvariable]
    exact namedExport_of_bindings hvariable
  · unfold namedExport
    rw [if_neg hvariable, if_neg hvariable]
    split
    · next hdeclaration =>
        cases declaration.childAt? "name" with
        | none => simp [hdeclaration]
        | some name =>
            rw [namedChange_eq_ok_none_iff]
            simp [hdeclaration]
    · next hdeclaration => exact iff_of_true rfl (by intro h; exact absurd h hdeclaration)

theorem exportChange_eq_ok_none_iff {taken : List String} :
    (∃ taken', (m.exportChange c taken).result = .ok (taken', none)) ↔ m.node.ExportIdle := by
  unfold exportChange Tree.ExportIdle
  dsimp only
  split
  · cases (m.node.childAt? "declaration").or (m.node.childAt? "value") with
    | none => exact iff_of_true ⟨taken, rfl⟩ (by rintro _ ⟨⟩)
    | some target =>
        simp only [Option.some.injEq, forall_eq']
        exact defaultExport_eq_ok_none_iff
  · cases m.node.childAt? "declaration" with
    | none => exact iff_of_true ⟨taken, rfl⟩ (by rintro _ ⟨⟩)
    | some declaration =>
        simp only [Option.some.injEq, forall_eq']
        rw [result_pair_eq_ok_none_iff]
        exact namedExport_eq_ok_none_iff

/-- A marked statement is left alone exactly when it is idle. -/
theorem change_eq_ok_none_iff {taken : List String} :
    (∃ taken', (m.change c taken).result = .ok (taken', none)) ↔ m.site.Idle c := by
  unfold change Site.Idle
  rw [show m.site.node = m.node from rfl]
  split
  · exact exportChange_eq_ok_none_iff
  · split
    · rw [result_pair_eq_ok_none_iff]
      exact variableChange_eq_ok_none_iff
    · split
      · next hdeclaration =>
          rw [result_pair_eq_ok_none_iff, declarationChange_eq_ok_none_iff]
          exact ⟨fun h _ => h, fun h => h hdeclaration⟩
      · next hdeclaration =>
          exact iff_of_true ⟨taken, rfl⟩ (by intro h; exact absurd h hdeclaration)

/-- The names taken do not matter to whether a default export is changed. -/
theorem exists_defaultExport {taken taken' : List String} {ch : Change} (other : List String)
    (h : (m.defaultExport c taken target).result = .ok (taken', some ch)) :
    ∃ ts ch', (m.defaultExport c other target).result = .ok (ts, some ch') := by
  obtain ⟨hexportable, identifier, hname, hchange⟩ := defaultExport_eq_ok_some h
  have hall : ∀ id, ∃ ch', (m.defaultChange c id target).result = .ok (some ch') := by
    intro id
    obtain ⟨r, hr⟩ := Record.exists_build id (defaultChange_eq_ok_some hchange).1
    exact ⟨⟨m.defaultEdits c id target (m.annotation c r), r⟩, by
      rw [defaultChange_eq, Logged.result_bind_return]
      exact congrArg (Except.map _) hr⟩
  unfold defaultExport
  simp only [hexportable, Bool.not_true, Bool.false_eq_true, if_false]
  cases hchild : target.childAt? "name" with
  | some name =>
      obtain ⟨ch', hch'⟩ := hall (name.text c.source)
      exact ⟨other, ch', by rw [Logged.result_bind_return, hch']; rfl⟩
  | none =>
      have habstract : target.kind ≠ .abstractClassDeclaration := by
        rcases hname with ⟨name, hsome, -⟩ | ⟨-, habstract⟩
        · rw [hchild] at hsome
          cases hsome
        · exact habstract
      obtain ⟨ch', hch'⟩ := hall (Fresh.name other c.uidBase)
      simp only [habstract, if_false]
      exact ⟨Fresh.name other c.uidBase :: other, ch', by
        rw [Logged.result_bind_return, hch']; rfl⟩

/-- A change that only passes the names taken along is made whatever they are. -/
theorem exists_change_of_passed {x : Logged Failure (Option Change)} {taken taken' : List String}
    {ch : Change} (other : List String)
    (h : (x >>= fun change? => pure (taken, change?)).result = .ok (taken', some ch)) :
    ∃ ts ch', (x >>= fun change? => pure (other, change?)).result = .ok (ts, some ch') := by
  obtain ⟨change?, hchange, hpair⟩ := Logged.result_bind_return_eq_ok_iff.1 h
  cases hpair
  refine ⟨other, ch, ?_⟩
  rw [Logged.result_bind_return, hchange]
  rfl

theorem exists_exportChange {taken taken' : List String} {ch : Change} (other : List String)
    (h : (m.exportChange c taken).result = .ok (taken', some ch)) :
    ∃ ts ch', (m.exportChange c other).result = .ok (ts, some ch') := by
  unfold exportChange at h ⊢
  dsimp only at h ⊢
  split at h
  · next hdefault =>
      rw [if_pos hdefault]
      cases htarget : (m.node.childAt? "declaration").or (m.node.childAt? "value") with
      | none =>
          rw [htarget] at h
          cases h
      | some target =>
          rw [htarget] at h
          exact exists_defaultExport other h
  · next hdefault =>
      rw [if_neg hdefault]
      cases hdeclaration : m.node.childAt? "declaration" with
      | none =>
          rw [hdeclaration] at h
          cases h
      | some declaration =>
          rw [hdeclaration] at h
          exact exists_change_of_passed other h

/-- The names taken do not matter to whether a marked statement is changed. -/
theorem exists_change {taken taken' : List String} {ch : Change} (other : List String)
    (h : (m.change c taken).result = .ok (taken', some ch)) :
    ∃ ts ch', (m.change c other).result = .ok (ts, some ch') := by
  unfold change at h ⊢
  split at h
  · next hkind =>
      rw [if_pos hkind]
      exact exists_exportChange other h
  · next hkind =>
      rw [if_neg hkind]
      split at h
      · next hvariable =>
          rw [if_pos hvariable]
          exact exists_change_of_passed other h
      · next hvariable =>
          rw [if_neg hvariable]
          split at h
          · next hdeclaration =>
              rw [if_pos hdeclaration]
              exact exists_change_of_passed other h
          · cases h

end Marked

namespace Site

/-- Whether a visit leaves a statement alone. -/
def quiet (c : Context) (s : Site) : Bool :=
  match (Pass.visit c [] s).result with
  | .ok (_, none) => true
  | _ => false

/-- A statement is left alone exactly when it is idle or not marked, whatever names are taken. -/
theorem visit_eq_ok_none_iff {c : Context} {s : Site} {taken : List String} :
    (∃ taken', (Pass.visit c taken s).result = .ok (taken', none)) ↔
      ∀ m, s.marked? c.source = some m → s.Idle c := by
  unfold Pass.visit
  cases hm : s.marked? c.source with
  | none => exact iff_of_true ⟨taken, rfl⟩ (by rintro _ ⟨⟩)
  | some m =>
      rw [Marked.change_eq_ok_none_iff, site_of_marked hm]
      simp

theorem quiet_iff {c : Context} {s : Site} :
    s.quiet c = true ↔ ∀ m, s.marked? c.source = some m → s.Idle c := by
  rw [← @visit_eq_ok_none_iff c s []]
  unfold quiet
  split
  · next taken' h => exact iff_of_true rfl ⟨taken', h⟩
  · next h => exact iff_of_false Bool.false_ne_true fun ⟨taken', hnone⟩ => h taken' hnone

/-- The names taken do not matter to whether a visit leaves a statement alone. -/
theorem quiet_iff_visit {c : Context} {s : Site} (taken : List String) :
    s.quiet c = true ↔ ∃ taken', (Pass.visit c taken s).result = .ok (taken', none) := by
  rw [quiet_iff, visit_eq_ok_none_iff]

/-- The names taken do not matter to whether a visit changes a statement. -/
theorem exists_visit {c : Context} {s : Site} {taken taken' : List String} {ch : Change}
    (other : List String) (h : (Pass.visit c taken s).result = .ok (taken', some ch)) :
    ∃ ts ch', (Pass.visit c other s).result = .ok (ts, some ch') := by
  unfold Pass.visit at h ⊢
  cases hm : s.marked? c.source with
  | none =>
      rw [hm] at h
      cases h
  | some m =>
      rw [hm] at h
      exact Marked.exists_change other h

end Site
end Injection
