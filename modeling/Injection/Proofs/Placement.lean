import Injection.Proofs.Disjoint
import Injection.Proofs.Kept

/-!
# Where the edits of a pass lie

A pass changes statements, and the edits of a change lie in its statement.  So a node that is not
part of an export that is changed encloses the edits that reach into it: they belong to changes of
statements inside of it (`Encloses`).  What holds of the nodes of a tree whose edits have been
applied, and of a copy of a decorator, is put together in `Placement`.
-/

namespace Injection

namespace Site

/-- The sites of a list are the ways to cut it at a node. -/
theorem mem_ofList {s : Site} {before ts : List Tree} :
    s ∈ ofList before ts ↔
      ∃ xs, ts = xs ++ s.node :: s.after ∧ s.before = xs.reverse ++ before := by
  induction ts generalizing before with
  | nil =>
      refine iff_of_false List.not_mem_nil ?_
      rintro ⟨xs, h, -⟩
      exact absurd h.symm (by simp)
  | cons t ts ih =>
      rw [ofList, List.mem_cons, ih]
      constructor
      · rintro (rfl | ⟨xs, rfl, hbefore⟩)
        · exact ⟨[], rfl, rfl⟩
        · exact ⟨t :: xs, rfl, by rw [hbefore, List.reverse_cons, List.append_assoc]; rfl⟩
      · rintro ⟨xs, hts, hbefore⟩
        cases xs with
        | nil =>
            cases hts
            exact Or.inl (by cases s; cases hbefore; rfl)
        | cons x xs =>
            cases hts
            refine Or.inr ⟨xs, rfl, ?_⟩
            rw [hbefore, List.reverse_cons, List.append_assoc]
            rfl

theorem mem_children {s : Site} {t : Tree} :
    s ∈ children t ↔ t.children = s.before.reverse ++ s.node :: s.after := by
  rw [children, mem_ofList]
  constructor
  · rintro ⟨xs, hts, hbefore⟩
    rw [hts, hbefore, List.append_nil, List.reverse_reverse]
  · intro hts
    exact ⟨s.before.reverse, hts, by rw [List.reverse_reverse, List.append_nil]⟩

end Site

namespace Tree

variable {t x : Tree} {before after : List Tree}

theorem mem_of_split (h : t.children = before.reverse ++ x :: after) : x ∈ t.children := by
  rw [h]
  simp

/-- The cut one child further. -/
theorem split_next (h : t.children = before.reverse ++ x :: after) :
    t.children = (x :: before).reverse ++ after := by
  rw [h, List.reverse_cons, List.append_assoc]
  rfl

theorem after_of_split {after' : List Tree} (h : t.children = before.reverse ++ x :: after)
    (h' : t.children = before.reverse ++ x :: after') : after = after' :=
  (List.cons.inj (List.append_cancel_left (h.symm.trans h'))).2

end Tree

namespace Site

/-- The statements of a container are the ways to cut its children at a statement. -/
theorem mem_statements_iff {s : Site} {t : Tree} :
    s ∈ statements t ↔
      t.children = s.before.reverse ++ s.node :: s.after ∧ s.node.isStatement = true := by
  rw [statements, List.mem_filter, mem_children]
  rfl

theorem isStatement_of_mem {s : Site} {t : Tree} (h : s ∈ allStatements t) :
    s.node.isStatement = true := by
  obtain ⟨y, -, -, hs⟩ := mem_allStatements_iff.1 h
  exact (mem_statements_iff.1 hs).2

/-- The statements of a node of a tree are statements of the tree. -/
theorem mem_allStatements_of_mem {s : Site} {t y : Tree} (hy : y ∈ t.preorder)
    (h : s ∈ allStatements y) : s ∈ allStatements t := by
  obtain ⟨z, hz, hs⟩ := mem_allStatements_iff.1 h
  exact mem_allStatements_iff.2 ⟨z, Tree.mem_preorder_trans hy hz, hs⟩

/-- Two ways to cut a list: the one cut is in front of the other one, at it, or behind it. -/
theorem cut_cases {a b c d : List Tree} {x y : Tree} (h : a ++ x :: b = c ++ y :: d) :
    x ∈ c ∨ (a = c ∧ x = y ∧ b = d) ∨ x ∈ d := by
  rcases List.append_eq_append_iff.1 h with ⟨as, rfl, htail⟩ | ⟨cs, rfl, htail⟩
  · cases as with
    | nil =>
        cases htail
        exact Or.inr (Or.inl ⟨by simp, rfl, rfl⟩)
    | cons z zs =>
        cases htail
        exact Or.inl (by simp)
  · cases cs with
    | nil =>
        cases htail
        exact Or.inr (Or.inl ⟨by simp, rfl, rfl⟩)
    | cons z zs =>
        cases htail
        exact Or.inr (Or.inr (by simp))

end Site

namespace Tree

theorem mem_preorder_child {root t x : Tree} (ht : t ∈ root.preorder) (hx : x ∈ t.children) :
    x ∈ root.preorder :=
  mem_preorder_trans ht (mem_preorder_of_mem_children hx x.mem_preorder_self)

/-- The nodes of a tree lie in its bounds. -/
theorem WellFormed.inside_of_mem {source : Bytes} {t : Tree} (h : t.WellFormed source) :
    ∀ n ∈ t.preorder, t.label.start ≤ n.label.start ∧ n.label.stop ≤ t.label.stop := by
  induction t using Tree.induction with
  | node l cs ih =>
      intro n hn
      rw [preorder_node, List.mem_cons, List.mem_flatMap] at hn
      rcases hn with rfl | ⟨c, hc, hn⟩
      · exact ⟨Nat.le_refl _, Nat.le_refl _⟩
      · have hinside := h.sound.inside c hc
        have := ih c hc (h.child hc) n hn
        omega

end Tree

namespace Edit

theorem pairwise_of_chained {es : List Edit} {cursor : Nat} (h : Chained cursor es)
    (hes : ∀ e ∈ es, e.first ≤ e.last) :
    (∀ e ∈ es, cursor ≤ e.first) ∧ es.Pairwise fun e f => e.last ≤ f.first := by
  induction es generalizing cursor with
  | nil => exact ⟨fun _ h => absurd h List.not_mem_nil, List.Pairwise.nil⟩
  | cons e es ih =>
      obtain ⟨hcursor, hrest⟩ := h
      have he := hes e List.mem_cons_self
      obtain ⟨hfirst, hpairs⟩ := ih hrest fun f hf => hes f (List.mem_cons_of_mem e hf)
      refine ⟨?_, List.pairwise_cons.2 ⟨hfirst, hpairs⟩⟩
      intro f hf
      rcases List.mem_cons.1 hf with rfl | hf
      · exact hcursor
      · have := hfirst f hf
        omega

/-- Edits that were applied do not overlap. -/
theorem Applied.apart {source out : Bytes} {es : List Edit} (h : Applied source es out)
    {e f : Edit} (he : e ∈ es) (hf : f ∈ es) (hne : e ≠ f) :
    e.last ≤ f.first ∨ f.last ≤ e.first := by
  have hpairs := (pairwise_of_chained h.chained fun e he =>
    first_le_last (h.inRange e (mem_ordered.1 he))).2
  have hsymm : (ordered es).Pairwise fun e f => e.last ≤ f.first ∨ f.last ≤ e.first :=
    hpairs.imp Or.inl
  have : Std.Symm fun e f : Edit => e.last ≤ f.first ∨ f.last ≤ e.first := ⟨fun _ _ => Or.symm⟩
  exact hsymm.forall (mem_ordered.2 he) (mem_ordered.2 hf) hne

end Edit

namespace Output

/-- A change that a pass made of a statement. -/
def Makes (o : Output) (s : Site) (ch : Change) : Prop :=
  (∃ taken taken', (Pass.visit o.context taken s).result = .ok (taken', some ch)) ∧
    ∀ e ∈ ch.edits, e ∈ o.edits

/-- **The output of a pass over a tree.** -/
structure Produced (o : Output) (root : Tree) : Prop where
  text : ∃ cs, o.context.source = Utf8.encodeChars cs
  wellFormed : root.WellFormed o.context.source
  lexical : ∀ n ∈ root.preorder, n.Lexical o.context.source
  applied : Edit.Applied o.context.source o.edits o.bytes
  edits : ∀ e ∈ o.edits, ∃ s ∈ Site.allStatements root, ∃ ch, o.Makes s ch ∧ e ∈ ch.edits
  changes : ∀ s ∈ Site.allStatements root, o.change? s ≠ none → ∃ ch, o.Makes s ch
  quiet : ∀ s ∈ Site.allStatements root, o.change? s = none → s.quiet o.context = true

/-- All edits that reach into a node belong to changes of statements inside of it. -/
def Encloses (o : Output) (t : Tree) : Prop :=
  ∀ e ∈ o.edits, e.last ≤ t.label.start ∨ t.label.stop ≤ e.first ∨
    ∃ s ∈ Site.allStatements t, ∃ ch, o.Makes s ch ∧ e ∈ ch.edits

variable {o : Output} {root : Tree}

theorem isStatement_of_change {s : Site} (h : o.change? s ≠ none) : s.node.isStatement = true := by
  by_contra hno
  rw [change?, if_neg hno] at h
  exact h rfl

/-- A statement of which a pass made a change is one that it changes. -/
theorem Makes.change_ne_none {s : Site} {ch : Change} (h : o.Makes s ch)
    (hs : s.node.isStatement = true) : o.change? s ≠ none := by
  obtain ⟨taken, taken', hvisit⟩ := h.1
  obtain ⟨ts, ch', hvisit'⟩ := Site.exists_visit [] hvisit
  rw [change?, if_pos hs, hvisit']
  exact Option.some_ne_none ch'

/-- A child of a container that is changed is a statement of the tree. -/
theorem mem_allStatements_of_change {t x : Tree} {before after : List Tree} (ht : t ∈ root.preorder)
    (hkind : t.kind.isContainer = true) (hsplit : t.children = before.reverse ++ x :: after)
    (h : o.change? ⟨before, x, after⟩ ≠ none) :
    (⟨before, x, after⟩ : Site) ∈ Site.allStatements root :=
  Site.mem_allStatements_iff.2
    ⟨t, ht, hkind, Site.mem_statements_iff.2 ⟨hsplit, isStatement_of_change h⟩⟩

/-- The edits of a change lie in its statement. -/
theorem Makes.within {s : Site} {ch : Change} (h : o.Makes s ch)
    (hwf : s.node.WellFormed o.context.source) {e : Edit} (he : e ∈ ch.edits) :
    s.node.label.start ≤ e.first ∧ e.first ≤ e.last ∧ e.last ≤ s.node.label.stop := by
  obtain ⟨taken, taken', hvisit⟩ := h.1
  have hwithin := (Pass.group_of_visit hwf hvisit).within hwf he
  unfold Edit.first Edit.last
  omega

/-- Which edits reach into a node: those of changes of its children, if it is a container, and those
of changes inside its children. -/
theorem Encloses.cases (h : o.Encloses root) (hwf : root.WellFormed o.context.source) {e : Edit}
    (he : e ∈ o.edits) :
    e.last ≤ root.label.start ∨ root.label.stop ≤ e.first ∨
      ∃ before y after, root.children = before.reverse ++ y :: after ∧
        (y.label.start ≤ e.first ∧ e.first ≤ e.last ∧ e.last ≤ y.label.stop) ∧
        ∃ ch, e ∈ ch.edits ∧
          ((root.kind.isContainer = true ∧ y.isStatement = true ∧ o.Makes ⟨before, y, after⟩ ch) ∨
            (∃ s ∈ Site.allStatements y, o.Makes s ch) ∧ e.last < y.label.stop) := by
  rcases h e he with hbefore | hbehind | ⟨s, hs, ch, hmakes, hch⟩
  · exact Or.inl hbefore
  · exact Or.inr (Or.inl hbehind)
  · refine Or.inr (Or.inr ?_)
    have hnode := Site.node_mem_preorder hs
    have hwithin := hmakes.within (hwf.of_mem hnode) hch
    obtain ⟨l, cs⟩ := root
    rcases Site.mem_allStatements_node.1 hs with ⟨hcontainer, hs⟩ | ⟨y, hy, hs⟩
    · obtain ⟨hsplit, hstatement⟩ := Site.mem_statements_iff.1 hs
      exact ⟨s.before, s.node, s.after, hsplit, hwithin, ch, hch,
        Or.inl ⟨hcontainer, hstatement, hmakes⟩⟩
    · obtain ⟨xs, ys, hsplit⟩ := List.append_of_mem hy
      have hbounds := (hwf.child hy).bounds_of_mem (hwf.sound.nested y hy) hs
      refine ⟨xs.reverse, y, ys, by rw [List.reverse_reverse]; exact hsplit, by omega, ch, hch,
        Or.inr ⟨⟨s, hs, hmakes⟩, by omega⟩⟩

theorem beside_of_split {source : Bytes} {t x : Tree} {before after : List Tree}
    (hwf : t.WellFormed source) (hsplit : t.children = before.reverse ++ x :: after) :
    (∀ y ∈ before, y.label.stop ≤ x.label.start) ∧ ∀ y ∈ after, x.label.stop ≤ y.label.start := by
  have hordered := hwf.sound.ordered
  rw [hsplit, List.pairwise_append, List.pairwise_cons] at hordered
  obtain ⟨-, ⟨hafter, -⟩, hbefore⟩ := hordered
  refine ⟨fun y hy => ?_, hafter⟩
  exact hbefore y (List.mem_reverse.2 hy) x List.mem_cons_self

/-- Which edits reach into a child of a node: those of its own change and those of changes inside of
it. -/
theorem Encloses.at_child {t x : Tree} {before after : List Tree} (h : o.Encloses t)
    (hwf : t.WellFormed o.context.source)
    (hsplit : t.children = before.reverse ++ x :: after) {e : Edit} (he : e ∈ o.edits) :
    e.last ≤ x.label.start ∨ x.label.stop ≤ e.first ∨
      (∃ ch, e ∈ ch.edits ∧ t.kind.isContainer = true ∧ x.isStatement = true ∧
        o.Makes ⟨before, x, after⟩ ch) ∨
      ∃ s ∈ Site.allStatements x, ∃ ch, o.Makes s ch ∧ e ∈ ch.edits := by
  have hx := Tree.mem_of_split hsplit
  have hinside := hwf.sound.inside x hx
  obtain ⟨hfront, hback⟩ := beside_of_split hwf hsplit
  rcases h.cases hwf he with hlast | hfirst | ⟨before', y, after', hsplit', hy, ch, hch, hmakes⟩
  · exact Or.inl (hlast.trans hinside.1)
  · exact Or.inr (Or.inl (hinside.2.trans hfirst))
  · rcases Site.cut_cases (hsplit'.symm.trans hsplit) with hyb | ⟨hbefore, rfl, rfl⟩ | hya
    · exact Or.inl (hy.2.2.trans (hfront y (List.mem_reverse.1 hyb)))
    · rw [List.reverse_inj.1 hbefore] at hmakes
      refine Or.inr (Or.inr ?_)
      rcases hmakes with hown | ⟨⟨s, hs, hmakes⟩, -⟩
      · exact Or.inl ⟨ch, hch, hown⟩
      · exact Or.inr ⟨s, hs, ch, hmakes, hch⟩
    · exact Or.inr (Or.inl ((hback y hya).trans hy.1))

theorem Encloses.child {t x : Tree} (h : o.Encloses t) (hwf : t.WellFormed o.context.source)
    (hkind : t.kind.isContainer = false) (hx : x ∈ t.children) : o.Encloses x := by
  obtain ⟨xs, ys, hsplit⟩ := List.append_of_mem hx
  rw [← xs.reverse_reverse] at hsplit
  intro e he
  rcases h.at_child hwf hsplit he with hlast | hfirst | ⟨ch, -, hcontainer, -⟩ | hinside
  · exact Or.inl hlast
  · exact Or.inr (Or.inl hfirst)
  · rw [hkind] at hcontainer
    cases hcontainer
  · exact Or.inr (Or.inr hinside)

/-- A declaration that is changed gets its statements behind it. -/
theorem Makes.stop_le_first {s : Site} {ch : Change} (h : o.Makes s ch)
    (hwf : s.node.WellFormed o.context.source) (hkind : s.node.kind ≠ .exportStatement) {e : Edit}
    (he : e ∈ ch.edits) : s.node.label.stop ≤ e.first := by
  obtain ⟨taken, taken', hvisit⟩ := h.1
  cases Pass.group_of_visit hwf hvisit with
  | plain _ hedits =>
      rw [hedits, List.mem_singleton] at he
      subst he
      exact Nat.le_refl _
  | exported _ _ _ _ _ _ hexport => exact absurd hexport hkind

theorem Encloses.statement {t x : Tree} {before after : List Tree} (h : o.Encloses t)
    (hwf : t.WellFormed o.context.source) (hsplit : t.children = before.reverse ++ x :: after)
    (hchange : o.change? ⟨before, x, after⟩ = none ∨ x.kind ≠ .exportStatement) :
    o.Encloses x := by
  have hx := Tree.mem_of_split hsplit
  intro e he
  rcases h.at_child hwf hsplit he with hlast | hfirst | ⟨ch, hch, -, hstatement, hmakes⟩ | hinside
  · exact Or.inl hlast
  · exact Or.inr (Or.inl hfirst)
  · rcases hchange with hnone | hkind
    · exact absurd hnone (hmakes.change_ne_none hstatement)
    · exact Or.inr (Or.inl (hmakes.stop_le_first (hwf.child hx) hkind hch))
  · exact Or.inr (Or.inr hinside)

/-- The edits of a change of an export. -/
theorem Makes.edits_of_export {s : Site} {ch : Change} {p : Tree.ExportParts} (h : o.Makes s ch)
    (hwf : s.node.WellFormed o.context.source) (hkind : s.node.kind = .exportStatement)
    (hparts : s.node.exportParts? = some p) :
    (∃ head text, ch.edits =
      [⟨s.node.frontPlace p.target, p.target.label.start, head⟩,
        ⟨s.node.textPlace p.target, s.node.textPlace p.target, text⟩]) ∧
      (s.node.frontPlace p.target ≤ p.target.label.start ∧
        p.target.label.stop ≤ s.node.textPlace p.target) ∧
      (p.target.kind.isDeclaration = true ∨ p.target.kind.isVariableDeclaration = true ∨
        p.target.kind.isExportable = true) := by
  obtain ⟨taken, taken', hvisit⟩ := h.1
  cases Pass.group_of_visit hwf hvisit with
  | plain hplain =>
      exact absurd hkind (Kind.ne_of_exported (hplain.imp_right Or.inl)).2.1
  | exported p' start place head before after _ hparts' _ hfront hplace _ _ hedits hfrom hat
      htarget =>
      rw [hparts] at hparts'
      cases hparts'
      subst hfrom hat
      exact ⟨⟨_, _, hedits⟩, ⟨hfront, hplace.1⟩, htarget⟩

/-- What an export that is changed exports encloses its edits, and so do the decorators in front of
the keyword of an export that becomes a declaration. -/
theorem Encloses.part {t x z : Tree} {before after : List Tree} {p : Tree.ExportParts}
    (h : o.Encloses t) (hwf : t.WellFormed o.context.source)
    (hsplit : t.children = before.reverse ++ x :: after) (hkind : x.kind = .exportStatement)
    (hparts : x.exportParts? = some p) (hz : z ∈ x.children)
    (hpart : z = p.target ∨ (x.becomesConstant p.target = false ∧ z.label.stop ≤ x.exportStart)) :
    o.Encloses z := by
  have hx := Tree.mem_of_split hsplit
  have hwfx := hwf.child hx
  have hinside := hwfx.sound.inside z hz
  intro e he
  rcases h.at_child hwf hsplit he with hlast | hfirst | ⟨ch, hch, -, -, hmakes⟩ |
    ⟨s, hs, ch, hmakes, hch⟩
  · exact Or.inl (by omega)
  · exact Or.inr (Or.inl (by omega))
  · obtain ⟨⟨head, text, hedits⟩, ⟨hfront, hplace⟩, -⟩ := hmakes.edits_of_export hwfx hkind hparts
    dsimp only at hedits hfront hplace
    -- the new front ends where the target starts, and the text goes behind the target
    have htarget := (hwfx.child (Tree.target_mem hparts)).sound.bounds
    rw [hedits, List.mem_cons, List.mem_singleton] at hch
    rcases hpart with rfl | ⟨hdeclaration, hstop⟩
    · rcases hch with rfl | rfl
      · exact Or.inl (Nat.le_refl _)
      · exact Or.inr (Or.inl hplace)
    · have hstart : x.frontPlace p.target = x.exportStart := by
        rw [Tree.frontPlace, hdeclaration, if_neg Bool.false_ne_true]
      refine Or.inr (Or.inl ?_)
      rcases hch with rfl | rfl
      · change z.label.stop ≤ x.frontPlace p.target
        omega
      · change z.label.stop ≤ x.textPlace p.target
        omega
  · -- a change inside the export is one inside `z` or inside a child beside it
    obtain ⟨y, hy, hsy⟩ := Site.exists_child_of_mem (by rw [hkind]; rfl) hs
    have hbounds := (hwfx.child hy).bounds_of_mem (hwfx.sound.nested y hy) hsy
    have hwithin := hmakes.within (hwfx.of_mem (Site.node_mem_preorder hs)) hch
    rcases Tree.eq_or_apart hwfx.sound.ordered hy hz with rfl | hle | hle
    · exact Or.inr (Or.inr ⟨s, hsy, ch, hmakes, hch⟩)
    · exact Or.inl (by omega)
    · exact Or.inr (Or.inl (by omega))

/-- A child of a node covers something. -/
theorem Produced.nonempty_child (h : o.Produced root) {t x : Tree} (ht : t ∈ root.preorder)
    (hx : x ∈ t.children) : x.label.start < x.label.stop :=
  (h.lexical x (Tree.mem_preorder_child ht hx)).nonempty
    ((h.wellFormed.of_mem ht).sound.nested x hx)

/-- Some edit of a change lies behind the start of its statement. -/
theorem Produced.exists_edit_behind (h : o.Produced root) {s : Site} {ch : Change}
    (hs : s ∈ Site.allStatements root) (hmakes : o.Makes s ch) :
    ∃ e ∈ ch.edits, s.node.label.start < e.first := by
  have hnode := Site.node_mem_preorder hs
  have hwf := h.wellFormed.of_mem hnode
  obtain ⟨taken, taken', hvisit⟩ := hmakes.1
  cases Pass.group_of_visit hwf hvisit with
  | plain hkind hedits =>
      refine ⟨_, by rw [hedits]; exact List.mem_singleton_self _, ?_⟩
      refine (h.lexical _ hnode).nonempty ?_
      intro hprogram
      obtain ⟨-, -, hcontainer⟩ := Kind.ne_of_exported (hkind.imp_right Or.inl)
      rw [hprogram] at hcontainer
      cases hcontainer
  | exported p start place head text after hkind hparts hstart hfront hplace hboundary hcut
      hedits =>
      have hmem := Tree.target_mem hparts
      have hinside := hwf.sound.inside _ hmem
      have htarget := h.nonempty_child hnode hmem
      refine ⟨_, by rw [hedits]; exact List.mem_cons_of_mem _ (List.mem_singleton_self _), ?_⟩
      change s.node.label.start < place
      omega

/-- Nothing inside a decorator of an export that becomes a constant is changed: the decorator is
replaced as a whole. -/
theorem Produced.untouched_of_decorator (h : o.Produced root) {s : Site} {p : Tree.ExportParts}
    (hs : s ∈ Site.allStatements root) (hchange : o.change? s ≠ none)
    (hkind : s.node.kind = .exportStatement) (hparts : s.node.exportParts? = some p)
    (hconstant : s.node.becomesConstant p.target = true) {d : Tree} (hd : d ∈ s.node.children)
    (hdecorator : d.kind = .decorator) : ∀ s' ∈ Site.allStatements d, o.change? s' = none := by
  intro s' hs'
  by_contra hne
  have hnode := Site.node_mem_preorder hs
  have hwf := h.wellFormed.of_mem hnode
  have hsroot := Site.mem_allStatements_of_mem (Tree.mem_preorder_child hnode hd) hs'
  obtain ⟨ch, hmakes⟩ := h.changes s hs hchange
  obtain ⟨ch', hmakes'⟩ := h.changes s' hsroot hne
  obtain ⟨⟨head, text, hedits⟩, ⟨hfront, hplace⟩, htarget⟩ :=
    hmakes.edits_of_export hwf hkind hparts
  have hmem := Tree.target_mem hparts
  have hmark := (Kind.ne_of_exported htarget).1
  have hle := hwf.mark_le_target hkind hparts hmark hd (by rw [hdecorator]; rfl)
  have hnonempty := h.nonempty_child hnode hmem
  have hstop : d.label.stop ≤ p.target.label.start := by
    rcases Tree.eq_or_apart hwf.sound.ordered hd hmem with rfl | hle' | hle'
    · rw [hdecorator] at hmark
      cases hmark
    · exact hle'
    · omega
  obtain ⟨e, he, hbehind⟩ := h.exists_edit_behind hsroot hmakes'
  have hbounds := (hwf.child hd).bounds_of_mem (hwf.sound.nested d hd) hs'
  have hwithin := hmakes'.within (h.wellFormed.of_mem (Site.node_mem_preorder hsroot)) he
  have hinside := hwf.sound.inside d hd
  -- the new front of the export would overlap the edit inside the decorator
  let front : Edit := ⟨s.node.frontPlace p.target, p.target.label.start, head⟩
  have hfrontmem : front ∈ o.edits := hmakes.2 front (by rw [hedits]; exact List.mem_cons_self)
  have hfirst : front.first = s.node.label.start := by
    change s.node.frontPlace p.target = s.node.label.start
    rw [Tree.frontPlace, if_pos hconstant]
  have hlast : front.last = p.target.label.start := rfl
  have hne' : front ≠ e := by
    rintro rfl
    omega
  have := h.applied.apart hfrontmem (hmakes'.2 e he) hne'
  omega

/-! ## Between two children -/

/-- A comment that a source has holds no statements. -/
theorem Produced.allStatements_comment (h : o.Produced root) {x : Tree} (hx : x ∈ root.preorder)
    (hkind : x.kind = .comment) : Site.allStatements x = [] := by
  have hbare := isBareComment_iff.1 ((h.lexical x hx).comments hkind)
  obtain ⟨l, cs⟩ := x
  obtain rfl : cs = [] := hbare.2.1
  rw [Site.allStatements_node]
  have hcontainer : l.kind.isContainer = false := by
    rw [show l.kind = .comment from hkind]
    rfl
  rw [hcontainer]
  rfl

/-- No edit lies between a node and a comment behind it, but those of a change of the node. -/
theorem Produced.gap (h : o.Produced root) {t x y : Tree} {before after : List Tree}
    (ht : t ∈ root.preorder) (henclosed : o.Encloses t)
    (hsplit : t.children = before.reverse ++ x :: y :: after) (hy : y.kind = .comment) {e : Edit}
    (he : e ∈ o.edits) :
    (∃ ch, e ∈ ch.edits ∧ x.isStatement = true ∧ o.Makes ⟨before, x, y :: after⟩ ch) ∨
      (e.first < x.label.stop ∧ e.last ≤ x.label.stop) ∨ y.label.start < e.first := by
  have hwf := h.wellFormed.of_mem ht
  have hsplit' := Tree.split_next hsplit
  have hxmem := Tree.mem_of_split hsplit
  have hymem := Tree.mem_of_split hsplit'
  have hx := h.nonempty_child ht hxmem
  have hynonempty := h.nonempty_child ht hymem
  have hxinside := hwf.sound.inside x hxmem
  have hyinside := hwf.sound.inside y hymem
  have hrange := Edit.first_le_last (h.applied.inRange e he)
  obtain ⟨hfront, hback⟩ := beside_of_split hwf hsplit
  obtain ⟨-, hbehind⟩ := beside_of_split hwf hsplit'
  rcases henclosed.cases hwf he with
    hlast | hfirst | ⟨before', z, after', hz, hbounds, ch, hch, hown⟩
  · exact Or.inr (Or.inl (by omega))
  · exact Or.inr (Or.inr (by omega))
  · rcases Site.cut_cases (hz.symm.trans hsplit) with hzb | ⟨hbefore, rfl, rfl⟩ | hza
    · have := hfront z (List.mem_reverse.1 hzb)
      exact Or.inr (Or.inl (by omega))
    · rw [List.reverse_inj.1 hbefore] at hown
      rcases hown with ⟨-, hstatement, hmakes⟩ | ⟨-, hlast⟩
      · exact Or.inl ⟨ch, hch, hstatement, hmakes⟩
      · exact Or.inr (Or.inl (by omega))
    · rcases List.mem_cons.1 hza with rfl | hza
      · -- a comment is no statement and holds none
        rcases hown with ⟨-, hstatement, -⟩ | ⟨⟨s, hs, -⟩, -⟩
        · simp [Tree.isStatement, hy] at hstatement
        · rw [h.allStatements_comment (Tree.mem_preorder_child ht hymem) hy] at hs
          cases hs
      · have := hbehind z hza
        exact Or.inr (Or.inr (by omega))

/-! ## Nodes whose bounds are moved -/

/-- **What is known of nodes whose bounds are moved by `mv`.**  The nodes are those with `J`. -/
structure Placement (o : Output) (root : Tree) (mv : Move) (J : Tree → Prop) : Prop where
  node : ∀ {t : Tree}, J t → t ∈ root.preorder
  /-- What holds no statement that is changed has the same text again. -/
  text : ∀ {t : Tree}, J t → t.label.start < t.label.stop →
    (∀ s ∈ Site.allStatements t, o.change? s = none) →
      Edit.within (mv.start t.label.start, mv.stop t.label.stop) o.bytes =
        Edit.within (t.label.start, t.label.stop) o.context.source
  child : ∀ {t x : Tree}, J t → t.kind.isContainer = false → x ∈ t.children → J x
  statement : ∀ {t x : Tree} {before after : List Tree}, J t →
    t.children = before.reverse ++ x :: after →
    o.change? ⟨before, x, after⟩ = none ∨ x.kind ≠ .exportStatement → J x
  /-- An export that is changed is there in parts. -/
  part : ∀ {t x z : Tree} {before after : List Tree} {p : Tree.ExportParts}, J t →
    t.children = before.reverse ++ x :: after → x.kind = .exportStatement →
    x.exportParts? = some p → z ∈ x.children →
    z = p.target ∨ (x.becomesConstant p.target = false ∧ z.label.stop ≤ x.exportStart) → J z
  /-- A comment is on the row of the node in front of it if it was. -/
  gap : ∀ {t x y : Tree} {before after : List Tree}, J t →
    t.children = before.reverse ++ x :: y :: after → y.kind = .comment →
    o.change? ⟨before, x, y :: after⟩ = none →
    (x.label.stopRow = y.label.startRow ↔
      Edit.rowAt o.bytes (mv.stop x.label.stop) = Edit.rowAt o.bytes (mv.start y.label.start))
  /-- Nothing is changed in a copy. -/
  moves : ∀ {t x : Tree} {before after : List Tree}, J t → t.kind.isContainer = true →
    t.children = before.reverse ++ x :: after → o.change? ⟨before, x, after⟩ ≠ none →
    mv = .ofEdits o.edits
  /-- A comment is on the row of what was put in behind the node in front of it, if it was on the
  row of that node. -/
  textGap : ∀ {t x y : Tree} {before after : List Tree}, J t → t.kind.isContainer = true →
    t.children = before.reverse ++ x :: y :: after → y.kind = .comment →
    o.change? ⟨before, x, y :: after⟩ ≠ none →
    (x.label.stopRow = y.label.startRow ↔
      Edit.rowAt o.bytes (Edit.startMoved o.edits x.label.stop) =
        Edit.rowAt o.bytes (mv.start y.label.start))

/-- The rows of a node and of a comment behind it, by offsets. -/
theorem Produced.rows_iff (h : o.Produced root) {t x y : Tree} {before after : List Tree}
    (ht : t ∈ root.preorder) (hsplit : t.children = before.reverse ++ x :: y :: after) :
    (x.label.stopRow = y.label.startRow ↔
      Edit.rowAt o.context.source x.label.stop = Edit.rowAt o.context.source y.label.start) ∧
      x.label.stop ≤ y.label.start ∧ y.label.start ≤ o.context.source.length := by
  have hxmem := Tree.mem_of_split hsplit
  have hymem := Tree.mem_of_split (Tree.split_next hsplit)
  have hwf := h.wellFormed.of_mem ht
  obtain ⟨-, hback⟩ := beside_of_split hwf hsplit
  refine ⟨?_, hback y List.mem_cons_self,
    Utf8.le_length_of_isBoundary (hwf.child hymem).sound.boundaries.1⟩
  rw [(h.lexical x (Tree.mem_preorder_child ht hxmem)).rows.2,
    (h.lexical y (Tree.mem_preorder_child ht hymem)).rows.1]

/-- **Nodes that enclose their edits are moved by the edits.** -/
theorem Produced.placement (h : o.Produced root) :
    o.Placement root (.ofEdits o.edits) fun t => t ∈ root.preorder ∧ o.Encloses t where
  node := And.left
  text := by
    rintro t ⟨ht, henclosed⟩ hnonempty huntouched
    have hwf := h.wellFormed.of_mem ht
    refine h.applied.within_of_still hnonempty
      (Utf8.le_length_of_isBoundary hwf.sound.boundaries.2) ?_
    intro e he
    rcases henclosed e he with hlast | hfirst | ⟨s, hs, ch, hmakes, -⟩
    · exact Or.inl hlast
    · exact Or.inr hfirst
    · exact absurd (huntouched s hs) (hmakes.change_ne_none (Site.isStatement_of_mem hs))
  child := fun ⟨ht, henclosed⟩ hkind hx =>
    ⟨Tree.mem_preorder_child ht hx, henclosed.child (h.wellFormed.of_mem ht) hkind hx⟩
  statement := fun ⟨ht, henclosed⟩ hsplit hchange =>
    ⟨Tree.mem_preorder_child ht (Tree.mem_of_split hsplit),
      henclosed.statement (h.wellFormed.of_mem ht) hsplit hchange⟩
  part := fun ⟨ht, henclosed⟩ hsplit hkind hparts hz hpart =>
    ⟨Tree.mem_preorder_child (Tree.mem_preorder_child ht (Tree.mem_of_split hsplit)) hz,
      henclosed.part (h.wellFormed.of_mem ht) hsplit hkind hparts hz hpart⟩
  gap := by
    rintro t x y before after ⟨ht, henclosed⟩ hsplit hy hnone
    obtain ⟨hrows, hle, hbound⟩ := h.rows_iff ht hsplit
    rw [hrows]
    refine h.applied.rowAt_stop_start hle hbound fun e he => ?_
    rcases h.gap ht henclosed hsplit hy he with ⟨ch, -, hstatement, hmakes⟩ | hgap
    · exact absurd hnone (hmakes.change_ne_none hstatement)
    · exact hgap
  moves := fun _ _ _ _ => rfl
  textGap := by
    rintro t x y before after ⟨ht, henclosed⟩ - hsplit hy -
    obtain ⟨hrows, hle, hbound⟩ := h.rows_iff ht hsplit
    rw [hrows]
    refine h.applied.rowAt_start_start hle hbound fun e he => ?_
    rcases h.gap ht henclosed hsplit hy he with ⟨ch, hch, -, hmakes⟩ | hfirst | hbehind
    · have hx := Tree.mem_of_split hsplit
      exact Or.inl (hmakes.within ((h.wellFormed.of_mem ht).child hx) hch).2.2
    · exact Or.inl hfirst.2
    · exact Or.inr hbehind

/-- Ranges inside a node are found again in a copy of it. -/
theorem within_copy {source out : Bytes} {d d' : Tree} (hd : d.label.stop ≤ source.length)
    (hsame : Edit.within (d'.label.start, d'.label.stop) out =
      Edit.within (d.label.start, d.label.stop) source) {a b : Nat} (ha : d.label.start ≤ a)
    (hb : b ≤ d.label.stop) :
    Edit.within (a - d.label.start + d'.label.start, b - d.label.start + d'.label.start) out =
      Edit.within (a, b) source := by
  have hlength := congrArg List.length hsame
  rw [Edit.length_within hd] at hlength
  have hle : (Edit.within (d'.label.start, d'.label.stop) out).length ≤
      d'.label.stop - d'.label.start := List.length_take_le _ _
  by_cases hab : a ≤ b
  · have hcopy := @Edit.within_within out d'.label.start d'.label.stop (a - d.label.start)
      (b - d.label.start) (by omega)
    have hself := @Edit.within_within source d.label.start d.label.stop (a - d.label.start)
      (b - d.label.start) (by omega)
    rw [hsame, hself] at hcopy
    rw [Nat.add_comm (a - _), Nat.add_comm (b - _), ← hcopy]
    congr 2
    · omega
    · omega
  · have hempty (bs : Bytes) (i j : Nat) (hij : j ≤ i) : Edit.within (i, j) bs = [] := by
      rw [Edit.within, Nat.sub_eq_zero_of_le hij, List.take_zero]
    rw [hempty _ _ _ (by omega), hempty _ _ _ (by omega)]

/-- **The nodes of a decorator are moved with a copy of it.** -/
theorem Produced.placement_copy (h : o.Produced root) {d d' : Tree} (hd : d ∈ root.preorder)
    (hsame : Edit.within (d'.label.start, d'.label.stop) o.bytes =
      Edit.within (d.label.start, d.label.stop) o.context.source)
    (huntouched : ∀ s ∈ Site.allStatements d, o.change? s = none) :
    o.Placement root (.ofCopy d d') fun t => t ∈ d.preorder where
  node := Tree.mem_preorder_trans hd
  text := by
    intro t ht _ _
    have hwf := h.wellFormed.of_mem hd
    obtain ⟨hstart, hstop⟩ := hwf.inside_of_mem t ht
    exact within_copy (Utf8.le_length_of_isBoundary hwf.sound.boundaries.2) hsame hstart hstop
  child := fun ht _ hx => Tree.mem_preorder_child ht hx
  statement := fun ht hsplit _ => Tree.mem_preorder_child ht (Tree.mem_of_split hsplit)
  part := fun ht hsplit _ _ hz _ =>
    Tree.mem_preorder_child (Tree.mem_preorder_child ht (Tree.mem_of_split hsplit)) hz
  gap := by
    intro t x y before after ht hsplit _ _
    have hwf := h.wellFormed.of_mem hd
    have hxmem : x ∈ d.preorder := Tree.mem_preorder_child ht (Tree.mem_of_split hsplit)
    have hymem : y ∈ d.preorder :=
      Tree.mem_preorder_child ht (Tree.mem_of_split (Tree.split_next hsplit))
    have hxinside := hwf.inside_of_mem x hxmem
    have hyinside := hwf.inside_of_mem y hymem
    have hx := (hwf x hxmem).bounds
    have hy := (hwf y hymem).bounds
    obtain ⟨hrows, hle, hbound⟩ := h.rows_iff (Tree.mem_preorder_trans hd ht) hsplit
    have hcopy := within_copy (Utf8.le_length_of_isBoundary hwf.sound.boundaries.2) hsame
      (a := x.label.stop) (b := y.label.start) (by omega) (by omega)
    have hle' : x.label.stop - d.label.start + d'.label.start ≤
        y.label.start - d.label.start + d'.label.start := by omega
    rw [hrows, Edit.rowAt_eq_iff hle, ← hcopy, ← Edit.rowAt_eq_iff hle']
    rfl
  moves := fun ht hkind hsplit hchange =>
    absurd (huntouched _ (mem_allStatements_of_change ht hkind hsplit hchange)) hchange
  textGap := by
    intro t x y before after ht hkind hsplit _ hchange
    exact absurd (huntouched _ (mem_allStatements_of_change ht hkind hsplit hchange)) hchange

end Output
end Injection
