import Injection.Pass
import Injection.Proofs.Utf8
import Mathlib.Data.List.TakeWhile

/-!
# The order of nodes and statements

* `walk_eq_preorder`: the stack yields the nodes in preorder.
* `allStatements_node`: the statements of a tree are those of its root, if that is a container, and
  then those of its children, child by child.
* `WellFormed` is what is asked of the reader of a source: ranges are nested and in order, bounds
  lie between characters, a block ends with its own brace, and what is exported stands behind the
  marks of its export.
* `pairwise_placed`: of two statements visited one after the other, the second one lies behind the
  first one, or in front of it with room between them, or inside it.
-/

namespace Injection
namespace Tree

/-- Induction over trees, with the hypothesis for all children. -/
@[elab_as_elim]
theorem induction {P : Tree → Prop}
    (node : ∀ (l : Label) (cs : List Tree), (∀ c ∈ cs, P c) → P (.node l cs)) : ∀ t, P t
  | .node l cs => node l cs fun c _ => induction node c

theorem forestPreorder_eq_flatMap (ts : List Tree) : forestPreorder ts = ts.flatMap preorder := by
  induction ts with
  | nil => rfl
  | cons t ts ih => rw [forestPreorder, List.flatMap_cons, ih]

@[simp] theorem preorder_node (l : Label) (cs : List Tree) :
    (node l cs).preorder = node l cs :: cs.flatMap preorder := by
  rw [preorder, forestPreorder_eq_flatMap]

theorem forestPreorder_append (ts us : List Tree) :
    forestPreorder (ts ++ us) = forestPreorder ts ++ forestPreorder us := by
  rw [forestPreorder_eq_flatMap, forestPreorder_eq_flatMap, forestPreorder_eq_flatMap,
    List.flatMap_append]

theorem forestSize_append (ts us : List Tree) :
    forestSize (ts ++ us) = forestSize ts + forestSize us := by
  induction ts with
  | nil => simp [forestSize]
  | cons t ts ih =>
      rw [List.cons_append, forestSize, forestSize, ih]
      omega

/-- A stack whose trees have at most `fuel` nodes is worked off in preorder. -/
theorem walkFrom_eq_forestPreorder {fuel : Nat} {stack : List Tree}
    (h : forestSize stack ≤ fuel) : walkFrom fuel stack = forestPreorder stack := by
  induction fuel generalizing stack with
  | zero =>
      cases stack with
      | nil => rfl
      | cons t ts =>
          obtain ⟨l, cs⟩ := t
          simp only [forestSize, size] at h
          omega
  | succ fuel ih =>
      cases stack with
      | nil => rfl
      | cons t ts =>
          obtain ⟨l, cs⟩ := t
          have hrest : forestSize (cs ++ ts) ≤ fuel := by
            rw [forestSize_append]
            simp only [forestSize, size] at h
            omega
          rw [walkFrom, forestPreorder, preorder, List.cons_append, ← forestPreorder_append]
          exact congrArg (node l cs :: ·) (ih hrest)

/-- The stack yields every node once, in preorder. -/
theorem walk_eq_preorder (t : Tree) : t.walk = t.preorder := by
  have h := @walkFrom_eq_forestPreorder (forestSize [t]) [t] (Nat.le_refl _)
  simpa [walk, forestSize, forestPreorder] using h

theorem mem_preorder_self (t : Tree) : t ∈ t.preorder := by
  cases t
  simp

theorem mem_preorder_of_mem_children {t c n : Tree} (hc : c ∈ t.children)
    (hn : n ∈ c.preorder) : n ∈ t.preorder := by
  obtain ⟨l, cs⟩ := t
  rw [preorder_node]
  exact List.mem_cons_of_mem _ (List.mem_flatMap.2 ⟨c, hc, hn⟩)

/-- The nodes of a node of a tree are nodes of the tree. -/
theorem mem_preorder_trans {t y n : Tree} (hy : y ∈ t.preorder) (hn : n ∈ y.preorder) :
    n ∈ t.preorder := by
  induction t using Tree.induction with
  | node l cs ih =>
      rw [preorder_node, List.mem_cons, List.mem_flatMap] at hy
      rcases hy with rfl | ⟨c, hc, hy⟩
      · exact hn
      · exact mem_preorder_of_mem_children hc (ih c hc hy)

end Tree

namespace Site

/-- The statements of a tree: those of its root and those of its children. -/
theorem allStatements_node (l : Label) (cs : List Tree) :
    allStatements (.node l cs) =
      (if l.kind.isContainer then statements (.node l cs) else []) ++ cs.flatMap allStatements := by
  have hchildren : (cs.flatMap Tree.preorder).filter (·.kind.isContainer) =
      cs.flatMap fun c => c.walk.filter (·.kind.isContainer) := by
    rw [List.filter_flatMap]
    simp only [Tree.walk_eq_preorder]
  unfold allStatements
  rw [Tree.walk_eq_preorder, Tree.preorder_node, List.filter_cons, hchildren]
  have hkind : (Tree.node l cs).kind = l.kind := rfl
  rw [hkind]
  split_ifs
  · rw [List.flatMap_cons, List.flatMap_assoc]
  · rw [List.nil_append, List.flatMap_assoc]

theorem mem_allStatements_node {l : Label} {cs : List Tree} {s : Site} :
    s ∈ allStatements (.node l cs) ↔
      (l.kind.isContainer = true ∧ s ∈ statements (.node l cs)) ∨
        ∃ c ∈ cs, s ∈ allStatements c := by
  rw [allStatements_node, List.mem_append, List.mem_flatMap]
  split_ifs with h
  · simp [h]
  · simp [h]

/-- The statements of a tree are those of its containers. -/
theorem mem_allStatements_iff {t : Tree} {s : Site} :
    s ∈ allStatements t ↔ ∃ y ∈ t.preorder, y.kind.isContainer = true ∧ s ∈ statements y := by
  unfold allStatements
  simp only [List.mem_flatMap, List.mem_filter, Tree.walk_eq_preorder, and_assoc]

theorem map_node_ofList (before ts : List Tree) : (ofList before ts).map node = ts := by
  induction ts generalizing before with
  | nil => rfl
  | cons t ts ih => rw [ofList, List.map_cons, ih]

/-- The site of a statement: it is a named child of its container and no comment. -/
theorem mem_statements {container : Tree} {s : Site} (h : s ∈ statements container) :
    s.node ∈ container.children ∧ s.node.label.named = true ∧ s.node.kind ≠ .comment := by
  rw [statements, List.mem_filter] at h
  obtain ⟨hmem, hprop⟩ := h
  rw [Bool.and_eq_true, decide_eq_true_eq] at hprop
  refine ⟨?_, hprop⟩
  rw [← map_node_ofList [] container.children]
  exact List.mem_map_of_mem hmem

/-- The statements of a container stand in the order of its children. -/
theorem pairwise_statements {container : Tree} {R : Tree → Tree → Prop}
    (h : container.children.Pairwise R) :
    (statements container).Pairwise fun s t => R s.node t.node := by
  rw [← map_node_ofList [] container.children, List.pairwise_map] at h
  exact h.sublist List.filter_sublist

end Site

/-! ## Well-formed trees -/

namespace Kind

/-- What stands in front of the thing that an export exports. -/
def isExportMark : Kind → Bool
  | .decorator | .exportKeyword | .defaultKeyword => true
  | _ => false

end Kind

namespace Tree

/-- What an export consists of. -/
structure ExportParts where
  front : List Tree
  /-- What is exported. -/
  target : Tree
  back : List Tree

/-- The field that holds what an export exports: a default export may hold a value in place of a
declaration. -/
def exportField (t : Tree) : String :=
  if (t.childAt? "declaration").isNone && t.children.any (·.kind = .defaultKeyword) then "value"
  else "declaration"

/-- Whether a node is what its parent, an export, exports. -/
def isTargetOf (t child : Tree) : Bool := child.label.field = some t.exportField

/-- The parts of an export that exports something of its own. -/
def exportParts? (t : Tree) : Option ExportParts :=
  match t.children.dropWhile (!t.isTargetOf ·) with
  | [] => none
  | target :: back => some ⟨t.children.takeWhile (!t.isTargetOf ·), target, back⟩

/-- Whether a node is the brace that ends a block. -/
def closesBlock (t : Tree) : Bool :=
  t.kind = .other "\x7d" && !t.label.named && t.label.start < t.label.stop

/-- What is asked of a node of a source. -/
structure Sound (source : Bytes) (t : Tree) : Prop where
  bounds : t.label.start ≤ t.label.stop
  inside : ∀ c ∈ t.children, t.label.start ≤ c.label.start ∧ c.label.stop ≤ t.label.stop
  ordered : t.children.Pairwise fun a b => a.label.stop ≤ b.label.start
  /-- No character of the source crosses the bounds. -/
  boundaries : Utf8.isBoundary source t.label.start = true ∧
    Utf8.isBoundary source t.label.stop = true
  /-- Only a root is a program. -/
  nested : ∀ c ∈ t.children, c.kind ≠ .program
  /-- A block ends with its own brace; only comments may stand behind that. -/
  closed : t.kind = .statementBlock →
    (t.children.reverse.dropWhile (·.kind = .comment)).head?.any closesBlock = true
  declared : t.kind.isVariableDeclaration = true → t.declarators ≠ []
  /-- Decorators and keywords stand in front of what is exported. -/
  marked : t.kind = .exportStatement →
    ∀ p ∈ t.exportParts?, ∀ x ∈ p.back, x.kind.isExportMark = false

/-- A tree all of whose nodes are sound. -/
def WellFormed (source : Bytes) (t : Tree) : Prop := ∀ n ∈ t.preorder, n.Sound source

/-- An export has no block in front of what it exports, so none in a decorator. -/
def FreeFront (t : Tree) : Prop :=
  t.kind = .exportStatement →
    ∀ p ∈ t.exportParts?, ∀ x ∈ p.front, ∀ y ∈ x.preorder, y.kind ≠ .statementBlock

/-- All blocks inside exports are at or behind what is exported. -/
def BlocksBehindTargets (t : Tree) : Prop := ∀ n ∈ t.preorder, n.FreeFront

instance (source : Bytes) (t : Tree) : Decidable (t.Sound source) :=
  decidable_of_iff
    (t.label.start ≤ t.label.stop ∧
      (∀ c ∈ t.children, t.label.start ≤ c.label.start ∧ c.label.stop ≤ t.label.stop) ∧
      (t.children.Pairwise fun a b => a.label.stop ≤ b.label.start) ∧
      (Utf8.isBoundary source t.label.start = true ∧
        Utf8.isBoundary source t.label.stop = true) ∧
      (∀ c ∈ t.children, c.kind ≠ .program) ∧
      (t.kind = .statementBlock →
        (t.children.reverse.dropWhile (·.kind = .comment)).head?.any closesBlock = true) ∧
      (t.kind.isVariableDeclaration = true → t.declarators.isEmpty = false) ∧
      (t.kind = .exportStatement →
        ∀ p ∈ t.exportParts?, ∀ x ∈ p.back, x.kind.isExportMark = false))
    ⟨fun ⟨h1, h2, h3, h4, h5, h6, h7, h8⟩ =>
      ⟨h1, h2, h3, h4, h5, h6, fun h => by simpa using h7 h, h8⟩,
     fun h => ⟨h.bounds, h.inside, h.ordered, h.boundaries, h.nested, h.closed,
      fun hk => by simpa using h.declared hk, h.marked⟩⟩

instance (source : Bytes) (t : Tree) : Decidable (t.WellFormed source) :=
  inferInstanceAs (Decidable (∀ n ∈ t.preorder, n.Sound source))

instance (t : Tree) : Decidable t.FreeFront :=
  inferInstanceAs (Decidable (t.kind = .exportStatement →
    ∀ p ∈ t.exportParts?, ∀ x ∈ p.front, ∀ y ∈ x.preorder, y.kind ≠ .statementBlock))

instance (t : Tree) : Decidable t.BlocksBehindTargets :=
  inferInstanceAs (Decidable (∀ n ∈ t.preorder, n.FreeFront))

theorem WellFormed.sound {source : Bytes} {t : Tree} (h : t.WellFormed source) : t.Sound source :=
  h t t.mem_preorder_self

theorem WellFormed.child {source : Bytes} {t c : Tree} (h : t.WellFormed source)
    (hc : c ∈ t.children) : c.WellFormed source :=
  fun n hn => h n (mem_preorder_of_mem_children hc hn)

/-- Every node of a well-formed tree is the root of one. -/
theorem WellFormed.of_mem {source : Bytes} {t n : Tree} (h : t.WellFormed source)
    (hn : n ∈ t.preorder) : n.WellFormed source :=
  fun m hm => h m (mem_preorder_trans hn hm)

/-- The parts of an export put together. -/
theorem children_of_exportParts {t : Tree} {p : ExportParts} (h : t.exportParts? = some p) :
    t.children = p.front ++ p.target :: p.back ∧ p.target.label.field = some t.exportField ∧
      ∀ x ∈ p.front, x.label.field ≠ some t.exportField := by
  unfold exportParts? at h
  split at h
  · cases h
  · next target back hdrop =>
      cases h
      refine ⟨?_, ?_, ?_⟩
      · rw [← hdrop, List.takeWhile_append_dropWhile]
      · have hhead := List.head?_dropWhile_not (fun c => !t.isTargetOf c) t.children
        rw [hdrop] at hhead
        simpa [isTargetOf] using hhead
      · intro x hx
        simpa [isTargetOf] using List.mem_takeWhile_imp hx

end Tree

/-! ## Where statements lie -/

/-- Where a statement lies to one that was visited before it: behind it, or in front of it with
room between them, or inside it. -/
def Site.Placed (s t : Site) : Prop :=
  s.node.label.stop ≤ t.node.label.start ∨ t.node.label.stop < s.node.label.start ∨
    t ∈ Site.allStatements s.node

namespace Tree

/-- Two members of a list in order are equal, or one of them is in front of the other. -/
theorem eq_or_apart {cs : List Tree} (h : cs.Pairwise fun a b => a.label.stop ≤ b.label.start)
    {a b : Tree} (ha : a ∈ cs) (hb : b ∈ cs) :
    a = b ∨ a.label.stop ≤ b.label.start ∨ b.label.stop ≤ a.label.start := by
  induction cs with
  | nil => cases ha
  | cons x xs ih =>
      obtain ⟨hx, hxs⟩ := List.pairwise_cons.1 h
      rcases List.mem_cons.1 ha with rfl | ha'
      · rcases List.mem_cons.1 hb with rfl | hb'
        · exact Or.inl rfl
        · exact Or.inr (Or.inl (hx b hb'))
      · rcases List.mem_cons.1 hb with rfl | hb'
        · exact Or.inr (Or.inr (hx a ha'))
        · exact ih hxs ha' hb'

/-- A statement of a block ends before the brace of the block starts. -/
theorem Sound.stop_lt_of_mem {source : Bytes} {t c : Tree} (h : t.Sound source)
    (hkind : t.kind = .statementBlock) (hc : c ∈ t.children) (hnamed : c.label.named = true)
    (hcomment : c.kind ≠ .comment) : c.label.stop < t.label.stop := by
  have hclosed := h.closed hkind
  have happend := List.takeWhile_append_dropWhile (p := fun x : Tree => decide (x.kind = .comment))
    (l := t.children.reverse)
  cases hdrop : t.children.reverse.dropWhile (·.kind = .comment) with
  | nil =>
      rw [hdrop] at hclosed
      cases hclosed
  | cons brace front =>
      rw [hdrop] at hclosed happend
      have hbrace : brace.label.named = false ∧ brace.label.start < brace.label.stop := by
        simp only [List.head?_cons, Option.any_some, closesBlock, Bool.and_eq_true,
          Bool.not_eq_true', decide_eq_true_eq] at hclosed
        exact ⟨hclosed.1.2, hclosed.2⟩
      have hmem : brace ∈ t.children := by
        rw [← List.mem_reverse, ← happend]
        simp
      have hinside := (h.inside brace hmem).2
      have hordered := List.pairwise_reverse.2 h.ordered
      rw [← List.mem_reverse, ← happend] at hc
      rw [← happend] at hordered
      -- behind the brace there are only comments, and the brace has no name
      rcases List.mem_append.1 hc with hback | hfront
      · have hkind := List.mem_takeWhile_imp hback
        exact absurd (of_decide_eq_true hkind) hcomment
      · rcases List.mem_cons.1 hfront with rfl | hfront
        · rw [hbrace.1] at hnamed
          cases hnamed
        · have := (List.pairwise_cons.1 (List.pairwise_append.1 hordered).2.1).1 c hfront
          omega

/-- The statements inside a node other than a root end before it does. -/
theorem WellFormed.bounds_of_mem {source : Bytes} {t : Tree} (h : t.WellFormed source)
    (hkind : t.kind ≠ .program) {s : Site} (hs : s ∈ Site.allStatements t) :
    t.label.start ≤ s.node.label.start ∧ s.node.label.stop < t.label.stop := by
  induction t using Tree.induction with
  | node l cs ih =>
      have hsound := h.sound
      rcases Site.mem_allStatements_node.1 hs with ⟨hcontainer, hs⟩ | ⟨c, hc, hs⟩
      · obtain ⟨hmem, hnamed, hcomment⟩ := Site.mem_statements hs
        -- a container is a root or a block
        have hblock : (Tree.node l cs).kind = .statementBlock := by
          change l.kind ≠ .program at hkind
          change l.kind = .statementBlock
          unfold Kind.isContainer at hcontainer
          split at hcontainer
          · contradiction
          · assumption
          · cases hcontainer
        exact ⟨(hsound.inside _ hmem).1, hsound.stop_lt_of_mem hblock hmem hnamed hcomment⟩
      · have hinside := hsound.inside c hc
        have := ih c hc (h.child hc) (hsound.nested c hc) hs
        omega

/-- **Where the statements of a tree lie to each other**, in the order in which they are visited. -/
theorem WellFormed.pairwise_placed {source : Bytes} {t : Tree} (h : t.WellFormed source) :
    (Site.allStatements t).Pairwise Site.Placed := by
  induction t using Tree.induction with
  | node l cs ih =>
      have hsound := h.sound
      have hordered : cs.Pairwise fun a b => a.label.stop ≤ b.label.start := hsound.ordered
      have hbounds (c : Tree) (hc : c ∈ cs) (s : Site) (hs : s ∈ Site.allStatements c) :=
        (h.child hc).bounds_of_mem (hsound.nested c hc) hs
      rw [Site.allStatements_node, List.pairwise_append]
      refine ⟨?_, ?_, ?_⟩
      · split_ifs
        · exact (Site.pairwise_statements hsound.ordered).imp Or.inl
        · exact List.Pairwise.nil
      · rw [List.pairwise_flatMap]
        refine ⟨fun c hc => ih c hc (h.child hc), ?_⟩
        refine hordered.imp_of_mem ?_
        intro c d hc hd hcd s hs t ht
        have h1 := hbounds c hc s hs
        have h2 := hbounds d hd t ht
        exact Or.inl (by omega)
      · -- a statement of this container, and one of a container inside one of the children
        intro s hs t ht
        have hmem : s.node ∈ cs := by
          split_ifs at hs
          · exact (Site.mem_statements hs).1
          · cases hs
        obtain ⟨c, hc, ht⟩ := List.mem_flatMap.1 ht
        have hbound := hbounds c hc t ht
        rcases eq_or_apart hordered hmem hc with rfl | hle | hle
        · exact Or.inr (Or.inr ht)
        · exact Or.inl (by omega)
        · exact Or.inr (Or.inl (by omega))

end Tree
end Injection
