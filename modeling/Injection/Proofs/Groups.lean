import Injection.Proofs.Changes
import Injection.Proofs.Splice

/-!
# The edits of a change

A change of a pass makes one group of edits.  A declaration gets one insertion behind it.  An export
gets its front, up to what it exports, replaced, and one insertion behind what it exports.
`group_of_visit` reads this off a visit.

All edits of a group lie in the statement changed (`Group.within`), between characters
(`Group.onBoundaries`), and none of them reaches into the statements inside it
(`Group.clear_inner`).
-/

namespace Injection

namespace Kind

/-- What can be exported is no keyword of an export, no export, and nothing that holds
statements. -/
theorem ne_of_exported {k : Kind}
    (h : k.isDeclaration = true ∨ k.isVariableDeclaration = true ∨ k.isExportable = true) :
    k.isExportMark = false ∧ k ≠ .exportStatement ∧ k.isContainer = false := by
  cases k with
  | program | statementBlock | exportStatement | decorator | exportKeyword | defaultKeyword =>
      simp [isDeclaration, isFunctionDeclaration, isClassDeclaration, isVariableDeclaration,
        isExportable, isFunctionExpression] at h
  | _ => exact ⟨rfl, by simp, rfl⟩

end Kind

namespace Tree

/-- What an export exports is the first child under its field. -/
theorem target_of_exportParts (t : Tree) :
    t.exportParts?.map (·.target) = t.childAt? t.exportField := by
  have hfind : t.childAt? t.exportField = (t.children.dropWhile (!t.isTargetOf ·)).head? :=
    List.find?_eq_head?_dropWhile_not t.isTargetOf t.children
  rw [hfind, exportParts?]
  split
  · next hnil => rw [hnil]; rfl
  · next target back hcons => rw [hcons]; rfl

/-- What an export exports is one of its children. -/
theorem target_mem {t : Tree} {p : ExportParts} (h : t.exportParts? = some p) :
    p.target ∈ t.children := by
  rw [(children_of_exportParts h).1]
  simp

/-- The field of a default export holds its declaration or else its value. -/
theorem childAt_exportField_of_default {t : Tree}
    (h : t.children.any (·.kind = .defaultKeyword) = true) :
    t.childAt? t.exportField = (t.childAt? "declaration").or (t.childAt? "value") := by
  unfold exportField
  rw [h, Bool.and_true]
  cases hdeclaration : t.childAt? "declaration" with
  | none => rfl
  | some d =>
      change t.childAt? "declaration" = _
      rw [hdeclaration]
      rfl

/-- The field of any other export holds its declaration. -/
theorem childAt_exportField_of_named {t : Tree}
    (h : t.children.any (·.kind = .defaultKeyword) = false) :
    t.childAt? t.exportField = t.childAt? "declaration" := by
  unfold exportField
  rw [h, Bool.and_false]
  rfl

/-- The end of a child cuts through none of the children. -/
theorem WellFormed.stop_cuts_none {source : Bytes} {t x : Tree} (h : t.WellFormed source)
    (hx : x ∈ t.children) (y : Tree) (hy : y ∈ t.children) :
    y.label.stop ≤ x.label.stop ∨ x.label.stop ≤ y.label.start := by
  have hbounds := (h.child hx).sound.bounds
  rcases eq_or_apart h.sound.ordered hy hx with rfl | hle | hle
  · exact Or.inl (Nat.le_refl _)
  · exact Or.inl (hle.trans hbounds)
  · exact Or.inr hle

/-- A keyword of an export starts before what is exported. -/
theorem WellFormed.mark_le_target {source : Bytes} {t k : Tree} {p : ExportParts}
    (h : t.WellFormed source) (hkind : t.kind = .exportStatement) (hp : t.exportParts? = some p)
    (htarget : p.target.kind.isExportMark = false) (hk : k ∈ t.children)
    (hmark : k.kind.isExportMark = true) :
    k.label.start ≤ p.target.label.start := by
  obtain ⟨hchildren, -, -⟩ := children_of_exportParts hp
  have hordered := h.sound.ordered
  have hbounds := (h.child hk).sound.bounds
  rw [hchildren] at hordered hk
  rcases List.mem_append.1 hk with hfront | hrest
  · have := (List.pairwise_append.1 hordered).2.2 k hfront p.target List.mem_cons_self
    omega
  · rcases List.mem_cons.1 hrest with rfl | hback
    · exact absurd hmark (by rw [htarget]; exact Bool.false_ne_true)
    · exact absurd hmark (by rw [h.sound.marked hkind p hp k hback]; exact Bool.false_ne_true)

/-- Where the keyword of an export starts. -/
def exportStart (t : Tree) : Nat :=
  ((t.children.find? (·.kind = .exportKeyword)).getD t).label.start

/-- Whether an export of `target` becomes a constant: it is a default export, and an abstract class
is no expression. -/
def becomesConstant (t target : Tree) : Bool :=
  t.children.any (·.kind = .defaultKeyword) && target.kind ≠ .abstractClassDeclaration

/-- Where an export of `target` gets its new front. -/
def frontPlace (t target : Tree) : Nat :=
  if t.becomesConstant target then t.label.start else t.exportStart

/-- Where text goes behind what an export exports. -/
def textPlace (t target : Tree) : Nat :=
  match t.children.getLast? with
  | some last =>
      if last.kind = .semicolon && target.label.stop ≤ last.label.start then last.label.stop
      else target.label.stop
  | none => target.label.stop

end Tree

namespace Marked

theorem tail_eq_textPlace (m : Marked) (inner : Tree) :
    (m.tail inner).1 = m.node.textPlace inner := by
  unfold tail Tree.textPlace
  cases m.node.children.getLast? with
  | none => rfl
  | some last =>
      dsimp only
      split_ifs
      · rfl
      · rfl

/-- Text behind `inner` goes to its end, or to the end of a semicolon that ends the statement. -/
theorem tail_cases (m : Marked) (inner : Tree) :
    (m.tail inner).1 = inner.label.stop ∨
      ∃ last ∈ m.node.children, inner.label.stop ≤ last.label.start ∧
        (m.tail inner).1 = last.label.stop := by
  unfold tail
  cases hlast : m.node.children.getLast? with
  | none => exact Or.inl rfl
  | some last =>
      dsimp only
      split_ifs with hsemicolon
      · rw [Bool.and_eq_true, decide_eq_true_eq, decide_eq_true_eq] at hsemicolon
        exact Or.inr ⟨last, List.mem_of_getLast? hlast, hsemicolon.2, rfl⟩
      · exact Or.inl rfl

/-- Where text behind a child goes: not before its end, not behind the statement, and through none
of the children. -/
theorem tail_of_child {source : Bytes} {m : Marked} {inner : Tree}
    (h : m.node.WellFormed source) (hinner : inner ∈ m.node.children) :
    inner.label.stop ≤ (m.tail inner).1 ∧ (m.tail inner).1 ≤ m.node.label.stop ∧
      Utf8.isBoundary source (m.tail inner).1 = true ∧
      ∀ y ∈ m.node.children,
        y.label.stop ≤ (m.tail inner).1 ∨ (m.tail inner).1 ≤ y.label.start := by
  rcases m.tail_cases inner with htail | ⟨last, hlast, hle, htail⟩
  · rw [htail]
    exact ⟨Nat.le_refl _, (h.sound.inside inner hinner).2, (h.child hinner).sound.boundaries.2,
      h.stop_cuts_none hinner⟩
  · have hbounds := (h.child hlast).sound.bounds
    rw [htail]
    exact ⟨hle.trans hbounds, (h.sound.inside last hlast).2, (h.child hlast).sound.boundaries.2,
      h.stop_cuts_none hlast⟩

/-- The keyword of an export is one of its children, or the export itself. -/
theorem exportKeyword_cases (m : Marked) :
    m.exportKeyword = m.node ∨
      (m.exportKeyword ∈ m.node.children ∧ m.exportKeyword.kind = .exportKeyword) := by
  unfold exportKeyword
  cases hfind : m.node.children.find? (·.kind = .exportKeyword) with
  | none => exact Or.inl rfl
  | some k =>
      have hkind := List.find?_some hfind
      exact Or.inr ⟨List.mem_of_find?_eq_some hfind, of_decide_eq_true hkind⟩

/-- The edits of a default export of an abstract class, which stays a declaration. -/
theorem defaultEdits_of_abstract {c : Context} {m : Marked} {identifier : String} {target : Tree}
    {statements : Text} (h : target.kind = .abstractClassDeclaration) :
    m.defaultEdits c identifier target statements =
      [replace m.exportKeyword.label.start target.label.start [],
        replace (m.tail target).1 (m.tail target).1
          (statements ++ Text.ofString (m.lineBreak c ++ s!"export default {identifier};"))] := by
  simp only [defaultEdits, h, if_true]
  rfl

/-- The edits of any other default export, which becomes a constant. -/
theorem defaultEdits_of_expression {c : Context} {m : Marked} {identifier : String} {target : Tree}
    {statements : Text} (h : target.kind ≠ .abstractClassDeclaration) :
    m.defaultEdits c identifier target statements =
      [replace m.node.label.start target.label.start
          (Text.ofString (s!"const {identifier} = " ++ m.decorators c)),
        replace (m.tail target).1 (m.tail target).1
          (Text.ofString (m.tail target).2 ++ statements ++
            Text.ofString (m.lineBreak c ++ s!"export default {identifier};"))] := by
  simp only [defaultEdits, h, if_false]

end Marked

namespace Pass

/-- The statements of a record as they go behind a statement. -/
def rendered (c : Context) (s : Site) (r : Record) : Text :=
  Record.joined (Layout.indentation c.source s.node.label.start) (Layout.newline c.source) r.texts

/-- The group of edits that a change of a statement makes. -/
inductive Group (c : Context) (s : Site) (ch : Change) : Prop where
  /-- The statements of the record, right behind a declaration. -/
  | plain
      (hkind : s.node.kind.isDeclaration = true ∨ s.node.kind.isVariableDeclaration = true)
      (hedits : ch.edits =
        [⟨s.node.label.stop, s.node.label.stop, rendered c s ch.record⟩])
  /-- A new front of an export, and the statements of the record behind what it exports. -/
  | exported (p : Tree.ExportParts) (start place : Nat) (head before after : Text)
      (hkind : s.node.kind = .exportStatement)
      (hparts : s.node.exportParts? = some p)
      (hstart : start = s.node.label.start ∨
        ∃ k ∈ s.node.children, k.kind = .exportKeyword ∧ start = k.label.start)
      (hfront : start ≤ p.target.label.start)
      (hplace : p.target.label.stop ≤ place ∧ place ≤ s.node.label.stop)
      (hboundary : Utf8.isBoundary c.source place = true)
      (hcut : ∀ y ∈ s.node.children, y.label.stop ≤ place ∨ place ≤ y.label.start)
      (hedits : ch.edits =
        [⟨start, p.target.label.start, head⟩,
          ⟨place, place, before ++ rendered c s ch.record ++ after⟩])
      (hfrom : start = s.node.frontPlace p.target)
      (hat : place = s.node.textPlace p.target)
      (htarget : p.target.kind.isDeclaration = true ∨
        p.target.kind.isVariableDeclaration = true ∨ p.target.kind.isExportable = true)

/-- A keyword of an export that is replaced with what follows it. -/
theorem front_of_exportKeyword {source : Bytes} {m : Marked} {p : Tree.ExportParts}
    (h : m.node.WellFormed source) (hkind : m.node.kind = .exportStatement)
    (hparts : m.node.exportParts? = some p) (hmark : p.target.kind.isExportMark = false)
    (hmem : p.target ∈ m.node.children) :
    (m.exportKeyword.label.start = m.node.label.start ∨
      ∃ k ∈ m.node.children, k.kind = .exportKeyword ∧
        m.exportKeyword.label.start = k.label.start) ∧
      m.exportKeyword.label.start ≤ p.target.label.start := by
  rcases m.exportKeyword_cases with hself | ⟨hk, hkeyword⟩
  · rw [hself]
    exact ⟨Or.inl rfl, (h.sound.inside p.target hmem).1⟩
  · exact ⟨Or.inr ⟨_, hk, hkeyword, rfl⟩,
      h.mark_le_target hkind hparts hmark hk (by rw [hkeyword]; rfl)⟩

/-- What an export exports, among its children. -/
theorem exists_exportParts {t target : Tree} (h : t.childAt? t.exportField = some target) :
    ∃ p, t.exportParts? = some p ∧ p.target = target ∧ target ∈ t.children := by
  rw [← t.target_of_exportParts] at h
  obtain ⟨p, hp, rfl⟩ := Option.map_eq_some_iff.1 h
  exact ⟨p, hp, rfl, Tree.target_mem hp⟩

/-- The kind of what declares names. -/
theorem kind_of_declares {source : Bytes} {declaration target : Tree} {names : List String}
    (h : Marked.Declares source declaration names target) :
    declaration.kind.isDeclaration = true ∨ declaration.kind.isVariableDeclaration = true ∨
      declaration.kind.isExportable = true := by
  cases h with
  | bindings hkind => exact Or.inr (Or.inl hkind)
  | itself hkind => exact Or.inl hkind

/-- A change of a marked statement makes a group of edits. -/
theorem group_of_shape {c : Context} {m : Marked} {ch : Change}
    (h : m.node.WellFormed c.source) (hshape : m.Shape c ch) : Group c m.site ch := by
  cases hshape with
  | declared name hkind hname hfresh hrecord hedits => exact .plain (Or.inl hkind) hedits
  | bound name value hkind hbinding hfresh hrecord hedits => exact .plain (Or.inr hkind) hedits
  | exportedDefault identifier target hkind hdefault htarget hexportable hname hrecord hedits =>
      rw [← Tree.childAt_exportField_of_default hdefault] at htarget
      obtain ⟨p, hparts, rfl, hmem⟩ := exists_exportParts htarget
      obtain ⟨hle, hbound, hboundary, hcut⟩ := Marked.tail_of_child h hmem
      obtain ⟨hkeyword, hfront⟩ := front_of_exportKeyword h hkind hparts
        (Kind.ne_of_exported (Or.inr (Or.inr hexportable))).1 hmem
      -- an abstract class stays a declaration, so only what is in front of it goes
      by_cases habstract : p.target.kind = .abstractClassDeclaration
      · rw [Marked.defaultEdits_of_abstract habstract] at hedits
        have hdeclaration : m.node.becomesConstant p.target = false := by
          simp [Tree.becomesConstant, habstract]
        exact .exported p _ _ [] [] _ hkind hparts hkeyword hfront ⟨hle, hbound⟩ hboundary hcut
          hedits (if_neg (Bool.eq_false_iff.1 hdeclaration)).symm (m.tail_eq_textPlace _)
          (Or.inr (Or.inr hexportable))
      · rw [Marked.defaultEdits_of_expression habstract] at hedits
        have hconstant : m.node.becomesConstant p.target = true := by
          simpa [Tree.becomesConstant, habstract] using hdefault
        exact .exported p _ _ _ _ _ hkind hparts (Or.inl rfl) (h.sound.inside _ hmem).1
          ⟨hle, hbound⟩ hboundary hcut hedits (if_pos hconstant).symm (m.tail_eq_textPlace _)
          (Or.inr (Or.inr hexportable))
  | exportedNamed identifier names declaration target hkind hdefault hdeclaration hdeclares hrecord
      hedits =>
      rw [← Tree.childAt_exportField_of_named hdefault] at hdeclaration
      obtain ⟨p, hparts, rfl, hmem⟩ := exists_exportParts hdeclaration
      obtain ⟨hle, hbound, hboundary, hcut⟩ := Marked.tail_of_child h hmem
      obtain ⟨hkeyword, hfront⟩ := front_of_exportKeyword h hkind hparts
        (Kind.ne_of_exported (kind_of_declares hdeclares)).1 hmem
      have hdeclaration : m.node.becomesConstant p.target = false := by
        rw [Tree.becomesConstant, hdefault, Bool.false_and]
      exact .exported p _ _ [] [] _ hkind hparts hkeyword hfront ⟨hle, hbound⟩ hboundary hcut hedits
        (if_neg (Bool.eq_false_iff.1 hdeclaration)).symm (m.tail_eq_textPlace _)
        (kind_of_declares hdeclares)

/-- A visit that makes a change makes a group of edits. -/
theorem group_of_visit {c : Context} {taken taken' : List String} {s : Site} {ch : Change}
    (hwf : s.node.WellFormed c.source) (h : (visit c taken s).result = .ok (taken', some ch)) :
    Group c s ch := by
  obtain ⟨m, -, rfl, hshape⟩ := shape_of_visit h
  exact group_of_shape hwf hshape

namespace Group

variable {c : Context} {s t : Site} {ch ch' : Change} {e f : Edit}

/-- The edits of a group lie in the statement. -/
theorem within (hwf : s.node.WellFormed c.source) (hgroup : Group c s ch) (he : e ∈ ch.edits) :
    (s.node.label.start : Int) ≤ e.start ∧ e.start ≤ e.stop ∧ e.stop ≤ s.node.label.stop := by
  have hbounds := hwf.sound.bounds
  cases hgroup with
  | plain hkind hedits =>
      rw [hedits, List.mem_singleton] at he
      subst he
      exact ⟨Int.ofNat_le.2 hbounds, Int.le_refl _, Int.le_refl _⟩
  | exported p start place head before after hkind hparts hstart hfront hplace hboundary hcut
      hedits =>
      have hmem := Tree.target_mem hparts
      have hinside := hwf.sound.inside _ hmem
      have htarget := (hwf.child hmem).sound.bounds
      have hle : s.node.label.start ≤ start := by
        rcases hstart with rfl | ⟨k, hk, -, rfl⟩
        · exact Nat.le_refl _
        · exact (hwf.sound.inside k hk).1
      rw [hedits, List.mem_cons, List.mem_singleton] at he
      rcases he with rfl | rfl
      · dsimp only
        omega
      · dsimp only
        omega

/-- The bounds of the edits of a group are boundaries. -/
theorem onBoundaries (hwf : s.node.WellFormed c.source) (hgroup : Group c s ch)
    (he : e ∈ ch.edits) : e.OnBoundaries c.source := by
  cases hgroup with
  | plain hkind hedits =>
      rw [hedits, List.mem_singleton] at he
      subst he
      exact ⟨hwf.sound.boundaries.2, hwf.sound.boundaries.2⟩
  | exported p start place head before after hkind hparts hstart hfront hplace hboundary hcut
      hedits =>
      rw [hedits, List.mem_cons, List.mem_singleton] at he
      rcases he with rfl | rfl
      · refine ⟨?_, (hwf.child (Tree.target_mem hparts)).sound.boundaries.1⟩
        rcases hstart with rfl | ⟨k, hk, -, rfl⟩
        · exact hwf.sound.boundaries.1
        · exact (hwf.child hk).sound.boundaries.1
      · exact ⟨hboundary, hboundary⟩

/-- The edits of one group are clear of each other. -/
theorem pairwise_clear (hwf : s.node.WellFormed c.source) (hgroup : Group c s ch) :
    ch.edits.Pairwise Edit.Clear := by
  cases hgroup with
  | plain hkind hedits =>
      rw [hedits]
      exact List.pairwise_singleton _ _
  | exported p start place head before after hkind hparts hstart hfront hplace hboundary hcut
      hedits =>
      have htarget := (hwf.child (Tree.target_mem hparts)).sound.bounds
      rw [hedits, List.pairwise_pair]
      exact Or.inl (by dsimp only; omega)

end Group
end Pass
end Injection
