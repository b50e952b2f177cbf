import Injection.Proofs.Room
import Injection.Proofs.TreeOrder

/-!
# What a pass changes

A pass visits the statements one after the other.  `Marked.Shape` says all that a visit can do to a
marked statement; `shape_of_visit` reads it off a visit that makes a change, and
`visits_of_changes` puts the visits together.
-/

namespace Injection

namespace Site

theorem site_of_marked {source : Bytes} {s : Site} {m : Marked} (h : s.marked? source = some m) :
    m.site = s := by
  unfold marked? at h
  cases hcomment : s.leadingComment with
  | none =>
      rw [hcomment] at h
      cases h
  | some c =>
      rw [hcomment] at h
      obtain ⟨d, -, rfl⟩ := Option.map_eq_some_iff.1 h
      rfl

end Site

namespace Marked

/-- The names that an exported declaration declares: those of its declarators, of which the first
one has a value, or its own.  `target` is what the first name stands for. -/
inductive Declares (source : Bytes) (declaration : Tree) : List String → Tree → Prop where
  | bindings {names : List String} {value : Tree}
      (hkind : declaration.kind.isVariableDeclaration = true)
      (hnames : declaration.declarators.mapM (declaratorName source) = .ok names)
      (hvalue : declaration.declarators.head?.bind (·.childAt? "value") = some value) :
      Declares source declaration names value
  | itself {name : Tree} (hkind : declaration.kind.isDeclaration = true)
      (hname : declaration.childAt? "name" = some name) :
      Declares source declaration [name.text source] declaration

/-- What the change of a marked statement can be. -/
inductive Shape (c : Context) (m : Marked) (ch : Change) : Prop where
  /-- Statements behind a declaration that carries its own name. -/
  | declared (name : Tree) (hkind : m.node.kind.isDeclaration = true)
      (hname : m.node.childAt? "name" = some name)
      (hfresh : m.site.isAnnotated c.source (name.text c.source) = false)
      (hrecord : (m.record c (name.text c.source) m.node).result = .ok (some ch.record))
      (hedits : ch.edits = [Edit.insertAfter m.node (m.annotation c ch.record)])
  /-- Statements behind a variable declaration. -/
  | bound (name value : Tree) (hkind : m.node.kind.isVariableDeclaration = true)
      (hbinding : m.node.declarators.head?.bind binding? = some (name, value))
      (hfresh : m.site.isAnnotated c.source (name.text c.source) = false)
      (hrecord : (m.record c (name.text c.source) value).result = .ok (some ch.record))
      (hedits : ch.edits = [Edit.insertAfter m.node (m.annotation c ch.record)])
  /-- A default export that becomes a declaration. -/
  | exportedDefault (identifier : String) (target : Tree) (hkind : m.node.kind = .exportStatement)
      (hdefault : m.node.children.any (·.kind = .defaultKeyword) = true)
      (htarget : (m.node.childAt? "declaration").or (m.node.childAt? "value") = some target)
      (hexportable : target.kind.isExportable = true)
      (hname : (∃ name, target.childAt? "name" = some name ∧ identifier = name.text c.source) ∨
        target.childAt? "name" = none ∧ target.kind ≠ .abstractClassDeclaration)
      (hrecord : (m.record c identifier target).result = .ok (some ch.record))
      (hedits : ch.edits = m.defaultEdits c identifier target (m.annotation c ch.record))
  /-- An export of a declaration that becomes that declaration. -/
  | exportedNamed (identifier : String) (names : List String) (declaration target : Tree)
      (hkind : m.node.kind = .exportStatement)
      (hdefault : m.node.children.any (·.kind = .defaultKeyword) = false)
      (hdeclaration : m.node.childAt? "declaration" = some declaration)
      (hdeclares : Declares c.source declaration (identifier :: names) target)
      (hrecord : (m.record c identifier target).result = .ok (some ch.record))
      (hedits : ch.edits =
        m.namedEdits c (identifier :: names) declaration (m.annotation c ch.record))

theorem annotate_eq_ok_some {c : Context} {m : Marked} {identifier : String} {target : Tree}
    {ch : Change} (h : (m.annotate c identifier target).result = .ok (some ch)) :
    m.site.isAnnotated c.source identifier = false ∧
      (m.record c identifier target).result = .ok (some ch.record) ∧
      ch.edits = [Edit.insertAfter m.node (m.annotation c ch.record)] := by
  rw [annotate_eq] at h
  split at h
  · rw [Logged.result_write_bind] at h
    cases h
  · next hfresh =>
      obtain ⟨record?, hrecord, hchange⟩ := Logged.result_bind_return_eq_ok_iff.1 h
      obtain ⟨r, rfl, rfl⟩ := Option.map_eq_some_iff.1 hchange
      exact ⟨Bool.eq_false_of_not_eq_true hfresh, hrecord, rfl⟩

theorem defaultChange_eq_ok_some {c : Context} {m : Marked} {identifier : String} {target : Tree}
    {ch : Change} (h : (m.defaultChange c identifier target).result = .ok (some ch)) :
    (m.record c identifier target).result = .ok (some ch.record) ∧
      ch.edits = m.defaultEdits c identifier target (m.annotation c ch.record) := by
  rw [defaultChange_eq] at h
  obtain ⟨record?, hrecord, hchange⟩ := Logged.result_bind_return_eq_ok_iff.1 h
  obtain ⟨r, rfl, rfl⟩ := Option.map_eq_some_iff.1 hchange
  exact ⟨hrecord, rfl⟩

theorem namedChange_eq_ok_some {c : Context} {m : Marked} {names : List String}
    {declaration target : Tree} {ch : Change}
    (h : (m.namedChange c names declaration target).result = .ok (some ch)) :
    ∃ identifier rest, names = identifier :: rest ∧
      (m.record c identifier target).result = .ok (some ch.record) ∧
      ch.edits = m.namedEdits c names declaration (m.annotation c ch.record) := by
  cases names with
  | nil => cases h
  | cons identifier rest =>
      rw [namedChange_eq] at h
      obtain ⟨record?, hrecord, hchange⟩ := Logged.result_bind_return_eq_ok_iff.1 h
      obtain ⟨r, rfl, rfl⟩ := Option.map_eq_some_iff.1 hchange
      exact ⟨identifier, rest, rfl, hrecord, rfl⟩

theorem defaultExport_eq_ok_some {c : Context} {m : Marked} {target : Tree}
    {taken taken' : List String} {ch : Change}
    (h : (m.defaultExport c taken target).result = .ok (taken', some ch)) :
    target.kind.isExportable = true ∧ ∃ identifier,
      ((∃ name, target.childAt? "name" = some name ∧ identifier = name.text c.source) ∨
        target.childAt? "name" = none ∧ target.kind ≠ .abstractClassDeclaration) ∧
      (m.defaultChange c identifier target).result = .ok (some ch) := by
  unfold defaultExport at h
  cases hexportable : target.kind.isExportable with
  | false =>
      simp only [hexportable, Bool.not_false, if_true, Logged.result_write_bind] at h
      cases h
  | true =>
      simp only [hexportable, Bool.not_true, Bool.false_eq_true, if_false] at h
      refine ⟨rfl, ?_⟩
      cases hname : target.childAt? "name" with
      | some name =>
          simp only [hname] at h
          obtain ⟨change?, hchange, hpair⟩ := Logged.result_bind_return_eq_ok_iff.1 h
          cases hpair
          exact ⟨name.text c.source, Or.inl ⟨name, rfl, rfl⟩, hchange⟩
      | none =>
          -- it gets a fresh name, unless it is an abstract class, which cannot become a constant
          simp only [hname] at h
          by_cases hkind : target.kind = .abstractClassDeclaration
          · simp only [hkind, if_true, Logged.result_write_bind] at h
            cases h
          · simp only [hkind, if_false] at h
            obtain ⟨change?, hchange, hpair⟩ := Logged.result_bind_return_eq_ok_iff.1 h
            cases hpair
            exact ⟨_, Or.inr ⟨rfl, hkind⟩, hchange⟩

theorem namedExport_eq_ok_some {c : Context} {m : Marked} {declaration : Tree} {ch : Change}
    (h : (m.namedExport c declaration).result = .ok (some ch)) :
    ∃ identifier names target, Declares c.source declaration (identifier :: names) target ∧
      (m.record c identifier target).result = .ok (some ch.record) ∧
      ch.edits =
        m.namedEdits c (identifier :: names) declaration (m.annotation c ch.record) := by
  unfold namedExport at h
  by_cases hvariable : declaration.kind.isVariableDeclaration = true
  · rw [if_pos hvariable, Logged.result_bind_eq_ok_iff] at h
    obtain ⟨names, hnames, h⟩ := h
    rw [Logged.result_ofExcept] at hnames
    cases hmap : declaration.declarators.mapM (declaratorName c.source) with
    | error e =>
        rw [hmap] at hnames
        cases hnames
    | ok found =>
        rw [hmap] at hnames
        cases hnames
        cases hvalue : declaration.declarators.head?.bind (·.childAt? "value") with
        | none =>
            rw [hvalue] at h
            cases h
        | some value =>
            rw [hvalue] at h
            obtain ⟨identifier, rest, rfl, hrecord, hedits⟩ := namedChange_eq_ok_some h
            exact ⟨identifier, rest, value, .bindings hvariable hmap hvalue, hrecord, hedits⟩
  · rw [if_neg hvariable] at h
    by_cases hdeclaration : declaration.kind.isDeclaration = true
    · rw [if_pos hdeclaration] at h
      cases hname : declaration.childAt? "name" with
      | none =>
          rw [hname] at h
          cases h
      | some name =>
          rw [hname] at h
          obtain ⟨identifier, rest, hcons, hrecord, hedits⟩ := namedChange_eq_ok_some h
          cases hcons
          exact ⟨_, [], declaration, .itself hdeclaration hname, hrecord, hedits⟩
    · rw [if_neg hdeclaration, Logged.result_write_bind] at h
      cases h

theorem shape_of_exportChange {c : Context} {m : Marked} {taken taken' : List String} {ch : Change}
    (hkind : m.node.kind = .exportStatement)
    (h : (m.exportChange c taken).result = .ok (taken', some ch)) : Shape c m ch := by
  unfold exportChange at h
  cases hdefault : m.node.children.any (·.kind = .defaultKeyword) with
  | true =>
      simp only [hdefault, if_true] at h
      cases htarget : (m.node.childAt? "declaration").or (m.node.childAt? "value") with
      | none =>
          rw [htarget] at h
          cases h
      | some target =>
          rw [htarget] at h
          obtain ⟨hexportable, identifier, hname, hchange⟩ := defaultExport_eq_ok_some h
          obtain ⟨hrecord, hedits⟩ := defaultChange_eq_ok_some hchange
          exact .exportedDefault identifier target hkind hdefault htarget hexportable hname hrecord
            hedits
  | false =>
      simp only [hdefault, Bool.false_eq_true, if_false] at h
      cases hdeclaration : m.node.childAt? "declaration" with
      | none =>
          rw [hdeclaration] at h
          cases h
      | some declaration =>
          rw [hdeclaration] at h
          obtain ⟨change?, hchange, hpair⟩ := Logged.result_bind_return_eq_ok_iff.1 h
          cases hpair
          obtain ⟨identifier, names, target, hdeclares, hrecord, hedits⟩ :=
            namedExport_eq_ok_some hchange
          exact .exportedNamed identifier names declaration target hkind hdefault hdeclaration
            hdeclares hrecord hedits

/-- A change of a marked statement has one of the four shapes. -/
theorem shape_of_change {c : Context} {m : Marked} {taken taken' : List String} {ch : Change}
    (h : (m.change c taken).result = .ok (taken', some ch)) : Shape c m ch := by
  unfold change at h
  split at h
  · next hkind => exact shape_of_exportChange hkind h
  · split at h
    · next hkind =>
        obtain ⟨change?, hchange, hpair⟩ := Logged.result_bind_return_eq_ok_iff.1 h
        cases hpair
        unfold variableChange at hchange
        cases hbinding : m.node.declarators.head?.bind binding? with
        | none =>
            rw [hbinding] at hchange
            simp only [Logged.result_write_bind] at hchange
            cases hchange
        | some pair =>
            obtain ⟨name, value⟩ := pair
            rw [hbinding] at hchange
            obtain ⟨hfresh, hrecord, hedits⟩ := annotate_eq_ok_some hchange
            exact .bound name value hkind hbinding hfresh hrecord hedits
    · split at h
      · next hkind =>
          obtain ⟨change?, hchange, hpair⟩ := Logged.result_bind_return_eq_ok_iff.1 h
          cases hpair
          unfold declarationChange at hchange
          cases hname : m.node.childAt? "name" with
          | none =>
              rw [hname] at hchange
              cases hchange
          | some name =>
              rw [hname] at hchange
              obtain ⟨hfresh, hrecord, hedits⟩ := annotate_eq_ok_some hchange
              exact .declared name hkind hname hfresh hrecord hedits
      · cases h

end Marked

namespace Pass

/-- What a visit that makes a change does. -/
theorem shape_of_visit {c : Context} {taken taken' : List String} {s : Site} {ch : Change}
    (h : (visit c taken s).result = .ok (taken', some ch)) :
    ∃ m, s.marked? c.source = some m ∧ m.site = s ∧ m.Shape c ch := by
  unfold visit at h
  cases hm : s.marked? c.source with
  | none =>
      rw [hm] at h
      cases h
  | some m =>
      rw [hm] at h
      exact ⟨m, rfl, Site.site_of_marked hm, Marked.shape_of_change h⟩

/-- The visits of a pass, each with its change if it makes one, up to the first that fails. -/
def visits (c : Context) : List String → List Site → List (Site × Option Change)
  | _, [] => []
  | taken, s :: ss =>
      match (visit c taken s).result with
      | .ok (taken, change?) => (s, change?) :: visits c taken ss
      | .error _ => []

/-- The statements that a pass changes, with their changes. -/
def changed (vs : List (Site × Option Change)) : List (Site × Change) :=
  vs.filterMap fun v => v.2.map (v.1, ·)

/-- The changes of a run are those of its visits, and every statement is visited. -/
theorem visits_of_changes {c : Context} {taken : List String} {ss : List Site} {chs : List Change}
    (h : (changes c taken ss).result = .ok chs) :
    (changed (visits c taken ss)).map (·.2) = chs ∧ (visits c taken ss).map (·.1) = ss := by
  induction ss generalizing taken chs with
  | nil =>
      cases h
      exact ⟨rfl, rfl⟩
  | cons s ss ih =>
      rw [changes, Logged.result_bind_eq_ok_iff] at h
      obtain ⟨⟨taken', change?⟩, hvisit, h⟩ := h
      obtain ⟨rest, hrest, rfl⟩ := Logged.result_bind_return_eq_ok_iff.1 h
      obtain ⟨hchanges, hsites⟩ := ih hrest
      rw [visits]
      simp only [hvisit, List.map_cons, hsites, and_true]
      rw [← hchanges]
      cases change? with
      | none => rfl
      | some ch => rfl

/-- Every visit of a run succeeded. -/
theorem exists_visit_of_mem {c : Context} {taken : List String} {ss : List Site}
    {v : Site × Option Change} (h : v ∈ visits c taken ss) :
    v.1 ∈ ss ∧ ∃ before after, (visit c before v.1).result = .ok (after, v.2) := by
  induction ss generalizing taken with
  | nil => cases h
  | cons s ss ih =>
      rw [visits] at h
      split at h
      · next taken' change? hvisit =>
          rcases List.mem_cons.1 h with rfl | h
          · exact ⟨List.mem_cons_self, taken, taken', hvisit⟩
          · obtain ⟨hmem, hresult⟩ := ih h
            exact ⟨List.mem_cons_of_mem s hmem, hresult⟩
      · cases h

theorem mem_changed {vs : List (Site × Option Change)} {s : Site} {ch : Change} :
    (s, ch) ∈ changed vs ↔ (s, some ch) ∈ vs := by
  unfold changed
  rw [List.mem_filterMap]
  constructor
  · rintro ⟨⟨t, change?⟩, hmem, hmap⟩
    obtain ⟨d, rfl, hpair⟩ := Option.map_eq_some_iff.1 hmap
    cases hpair
    exact hmem
  · intro hmem
    exact ⟨(s, some ch), hmem, rfl⟩

/-- The statements changed stand in the order in which they are visited. -/
theorem sublist_changed (vs : List (Site × Option Change)) :
    ((changed vs).map (·.1)).Sublist (vs.map (·.1)) := by
  induction vs with
  | nil => exact List.Sublist.slnil
  | cons v vs ih =>
      obtain ⟨s, change?⟩ := v
      cases change? with
      | none => exact ih.cons s
      | some ch => exact ih.cons_cons s

end Pass
end Injection
