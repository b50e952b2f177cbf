import Injection.Proofs.Groups
import Injection.Proofs.Whole

/-!
# The edits of a pass do not overlap

Edits are collected container by container, outer containers first, and sorted by their starts
before they are applied.  Of two statements the later one lies behind the earlier one, in front of
it or inside it, and in each case their groups of edits are clear of each other
(`Group.clear_of_placed`).  So all edits of a pass are clear of each other, and the source with them
applied is text again (`exists_output_of_run`).
-/

namespace Injection

namespace Site

/-- Statements of a node that is no container are those of its children. -/
theorem exists_child_of_mem {t : Tree} {s : Site} (hkind : t.kind.isContainer = false)
    (hs : s ∈ allStatements t) : ∃ x ∈ t.children, s ∈ allStatements x := by
  obtain ⟨l, cs⟩ := t
  rcases mem_allStatements_node.1 hs with ⟨hcontainer, -⟩ | hchild
  · have hnot : l.kind.isContainer = false := hkind
    rw [hnot] at hcontainer
    cases hcontainer
  · exact hchild

/-- Statements are nodes of the tree. -/
theorem node_mem_preorder {t : Tree} {s : Site} (hs : s ∈ allStatements t) :
    s.node ∈ t.preorder := by
  obtain ⟨y, hy, -, hs⟩ := mem_allStatements_iff.1 hs
  exact Tree.mem_preorder_trans hy
    (Tree.mem_preorder_of_mem_children (mem_statements hs).1 s.node.mem_preorder_self)

end Site

namespace Tree

/-- No node inside a node other than a root is a root. -/
theorem WellFormed.kind_ne_program {source : Bytes} {t : Tree} (h : t.WellFormed source)
    (hkind : t.kind ≠ .program) : ∀ y ∈ t.preorder, y.kind ≠ .program := by
  induction t using Tree.induction with
  | node l cs ih =>
      intro y hy
      rw [preorder_node, List.mem_cons, List.mem_flatMap] at hy
      rcases hy with rfl | ⟨x, hx, hy⟩
      · exact hkind
      · exact ih x hx (h.child hx) (h.sound.nested x hx) y hy

end Tree

namespace Pass
namespace Group

variable {c : Context} {s t : Site} {ch ch' : Change} {e f : Edit}

/-- There are no statements in front of what an export exports. -/
theorem target_le_of_mem {n x : Tree} {p : Tree.ExportParts} (hwf : n.WellFormed c.source)
    (hblocks : n.FreeFront) (hkind : n.kind = .exportStatement)
    (hparts : n.exportParts? = some p) (hx : x ∈ n.children) (ht : t ∈ Site.allStatements x) :
    p.target.label.start ≤ x.label.start := by
  obtain ⟨hchildren, -, -⟩ := Tree.children_of_exportParts hparts
  have hordered := hwf.sound.ordered
  have hbounds := (hwf.child (Tree.target_mem hparts)).sound.bounds
  rw [hchildren] at hordered
  have hx' := hx
  rw [hchildren] at hx'
  rcases List.mem_append.1 hx' with hfront | hrest
  · -- a container in front of the target would be a root or a block
    obtain ⟨y, hy, hcontainer, -⟩ := Site.mem_allStatements_iff.1 ht
    have hprogram := (hwf.child hx).kind_ne_program (hwf.sound.nested x hx) y hy
    have hblock := hblocks hkind p hparts x hfront y hy
    unfold Kind.isContainer at hcontainer
    split at hcontainer
    · contradiction
    · contradiction
    · cases hcontainer
  · rcases List.mem_cons.1 hrest with rfl | hback
    · exact Nat.le_refl _
    · have := (List.pairwise_cons.1 (List.pairwise_append.1 hordered).2.1).1 x hback
      omega

/-- The edits of a statement are clear of those of the statements inside it. -/
theorem clear_inner (hwf : s.node.WellFormed c.source)
    (hblocks : s.node.FreeFront)
    (hgroup : Group c s ch) (ht : t ∈ Site.allStatements s.node)
    (hin : (t.node.label.start : Int) ≤ f.start ∧ f.start ≤ f.stop ∧ f.stop ≤ t.node.label.stop)
    (he : e ∈ ch.edits) : e.Clear f := by
  cases hgroup with
  | plain hkind hedits =>
      have hprogram : s.node.kind ≠ .program := by
        intro hprogram
        rw [hprogram] at hkind
        rcases hkind with h | h <;> cases h
      have hbounds := hwf.bounds_of_mem hprogram ht
      rw [hedits, List.mem_singleton] at he
      subst he
      exact Or.inr ⟨by dsimp only; omega, by dsimp only; omega⟩
  | exported p start place head before after hkind hparts hstart hfront hplace hboundary hcut
      hedits =>
      obtain ⟨x, hx, ht⟩ := Site.exists_child_of_mem (by rw [hkind]; rfl) ht
      have htarget := target_le_of_mem hwf hblocks hkind hparts hx ht
      have hbounds := (hwf.child hx).bounds_of_mem (hwf.sound.nested x hx) ht
      rw [hedits, List.mem_cons, List.mem_singleton] at he
      rcases he with rfl | rfl
      · exact Or.inl (by dsimp only; omega)
      · -- the text goes to one side of the child that holds the statement
        rcases hcut x hx with hle | hle
        · exact Or.inr ⟨by dsimp only; omega, by dsimp only; omega⟩
        · exact Or.inl (by dsimp only; omega)

/-- The edits of a statement are clear of those of a statement visited after it. -/
theorem clear_of_placed (hwf : s.node.WellFormed c.source) (hwf' : t.node.WellFormed c.source)
    (hblocks : s.node.FreeFront)
    (hgroup : Group c s ch) (hgroup' : Group c t ch') (hplaced : s.Placed t)
    (he : e ∈ ch.edits) (hf : f ∈ ch'.edits) : e.Clear f := by
  have hin := hgroup'.within hwf' hf
  have hout := hgroup.within hwf he
  rcases hplaced with hbehind | hbefore | hinner
  · exact Or.inl (by omega)
  · exact Or.inr ⟨by omega, by omega⟩
  · exact hgroup.clear_inner hwf hblocks hinner hin he

end Group

variable {c : Context} {root : Tree}

/-- The changes of a run are groups of edits of some of the statements, in their order. -/
theorem exists_groups_of_changes {taken : List String} {chs : List Change}
    (hwf : root.WellFormed c.source)
    (h : (changes c taken (Site.allStatements root)).result = .ok chs) :
    ∃ groups : List (Site × Change), groups.map (·.2) = chs ∧
      (groups.map (·.1)).Sublist (Site.allStatements root) ∧
      ∀ g ∈ groups, g.1.node ∈ root.preorder ∧ Group c g.1 g.2 := by
  obtain ⟨hchanges, hsites⟩ := visits_of_changes h
  refine ⟨changed (visits c taken (Site.allStatements root)), hchanges, ?_, ?_⟩
  · have hsublist := sublist_changed (visits c taken (Site.allStatements root))
    rwa [hsites] at hsublist
  · rintro ⟨s, ch⟩ hmem
    obtain ⟨hs, before, after, hvisit⟩ := exists_visit_of_mem (mem_changed.1 hmem)
    have hnode := Site.node_mem_preorder hs
    exact ⟨hnode, group_of_visit (hwf.of_mem hnode) hvisit⟩

/-- The edits of all groups of a run are clear of each other. -/
theorem pairwise_clear_edits {taken : List String} {chs : List Change}
    (hwf : root.WellFormed c.source) (hblocks : root.BlocksBehindTargets)
    (h : (changes c taken (Site.allStatements root)).result = .ok chs) :
    (edits chs).Pairwise Edit.Clear := by
  obtain ⟨groups, rfl, hsublist, hgroups⟩ := exists_groups_of_changes hwf h
  have hplaced : groups.Pairwise fun g h => g.1.Placed h.1 :=
    List.pairwise_map.1 (hwf.pairwise_placed.sublist hsublist)
  rw [edits, List.flatMap_map, List.pairwise_flatMap]
  constructor
  · rintro ⟨s, ch⟩ hmem
    obtain ⟨hnode, hgroup⟩ := hgroups _ hmem
    exact hgroup.pairwise_clear (hwf.of_mem hnode)
  · refine hplaced.imp_of_mem ?_
    rintro ⟨s, ch⟩ ⟨t, ch'⟩ hmem hmem' hst e he f hf
    obtain ⟨hnode, hgroup⟩ := hgroups _ hmem
    obtain ⟨hnode', hgroup'⟩ := hgroups _ hmem'
    exact hgroup.clear_of_placed (hwf.of_mem hnode) (hwf.of_mem hnode') (hblocks _ hnode) hgroup'
      hst he hf

/-- An edit of a run belongs to the group of a statement. -/
theorem exists_group_of_mem_edits {taken : List String} {chs : List Change}
    (hwf : root.WellFormed c.source)
    (h : (changes c taken (Site.allStatements root)).result = .ok chs) {e : Edit}
    (he : e ∈ edits chs) :
    ∃ s ch, e ∈ ch.edits ∧ s.node.WellFormed c.source ∧ Group c s ch := by
  obtain ⟨groups, rfl, -, hgroups⟩ := exists_groups_of_changes hwf h
  obtain ⟨ch, hch, he⟩ := List.mem_flatMap.1 he
  obtain ⟨⟨s, ch⟩, hmem, rfl⟩ := List.mem_map.1 hch
  obtain ⟨hnode, hgroup⟩ := hgroups _ hmem
  exact ⟨s, ch, he, hwf.of_mem hnode, hgroup⟩

/-- The bounds of the edits of a run are offsets of the source. -/
theorem inRange_of_mem_edits {taken : List String} {chs : List Change}
    (hwf : root.WellFormed c.source)
    (h : (changes c taken (Site.allStatements root)).result = .ok chs) {e : Edit}
    (he : e ∈ edits chs) : e.InRange c.source.length := by
  obtain ⟨s, ch, he, hnode, hgroup⟩ := exists_group_of_mem_edits hwf h he
  have hwithin := hgroup.within hnode he
  have hstop := Utf8.le_length_of_isBoundary hnode.sound.boundaries.2
  exact ⟨by omega, hwithin.2.1, by omega⟩

/-- The texts of a run are whole when the defaults of its records are. -/
theorem whole_of_mem_edits {taken : List String} {ss : List Site} {chs : List Change}
    (h : (changes c taken ss).result = .ok chs)
    (hdefaults : ∀ ch ∈ chs, ∀ d ∈ ch.record.defaults, d.whole = true) {e : Edit}
    (he : e ∈ edits chs) : e.text.whole = true := by
  obtain ⟨rfl, -⟩ := visits_of_changes h
  obtain ⟨ch, hch, he⟩ := List.mem_flatMap.1 he
  have hrecord := hdefaults ch hch
  obtain ⟨⟨s, ch⟩, hmem, rfl⟩ := List.mem_map.1 hch
  obtain ⟨-, before, after, hvisit⟩ := exists_visit_of_mem (mem_changed.1 hmem)
  obtain ⟨m, -, -, hshape⟩ := shape_of_visit hvisit
  exact hshape.whole hrecord e he

/-- The edits of a run are applied, and the result is the splice. -/
theorem apply_edits_of_run {chs : List Change} (hwf : root.WellFormed c.source)
    (hblocks : root.BlocksBehindTargets) (hrun : (run c root).result = .ok chs)
    (hdefaults : ∀ ch ∈ chs, ∀ d ∈ ch.record.defaults, d.whole = true) :
    Edit.apply c.source (edits chs) =
      .ok (Edit.splice c.source 0 (Edit.ordered (edits chs))) := by
  have hrange : ∀ e ∈ edits chs, e.InRange c.source.length := fun e he =>
    inRange_of_mem_edits hwf hrun he
  have hpairs := Edit.pairwise_ordered_of_clear (fun e he => (hrange e he).ordered)
    (pairwise_clear_edits hwf hblocks hrun)
  refine (Edit.apply_eq_ok_iff hrange _).2 ⟨?_, ?_, rfl⟩
  · exact Edit.chained_of_pairwise (fun e _ => Nat.zero_le _) hpairs
  · exact fun e he => Edit.encodes_of_whole (whole_of_mem_edits hrun hdefaults he)

/-- Edits of a run that have been applied to a text make a text. -/
theorem exists_decode_of_apply {source : List Char} {chs : List Change} {out : Bytes}
    (hsource : c.source = Utf8.encodeChars source) (hwf : root.WellFormed c.source)
    (hrun : (run c root).result = .ok chs) (hout : Edit.apply c.source (edits chs) = .ok out) :
    ∃ cs, Utf8.decode out = .ok cs := by
  obtain ⟨hchain, hencodes, rfl⟩ :=
    (Edit.apply_eq_ok_iff (fun e he => inRange_of_mem_edits hwf hrun he) out).1 hout
  have hbounds : ∀ e ∈ Edit.ordered (edits chs), e.OnBoundaries c.source := by
    intro e he
    obtain ⟨s, ch, he, hnode, hgroup⟩ :=
      exists_group_of_mem_edits hwf hrun (Edit.mem_ordered.1 he)
    exact hgroup.onBoundaries hnode he
  rw [hsource] at hbounds ⊢
  obtain ⟨cs, hcs⟩ := Edit.exists_splice_eq_encodeChars (Utf8.isBoundary_zero source) hchain hbounds
    (fun e he => hencodes e (Edit.mem_ordered.1 he))
  exact ⟨cs, (Utf8.decode_eq_ok_iff _ cs).2 hcs⟩

/-- **The edits of a pass can be applied.**  When a pass over a well-formed tree is done, all its
edits are applied, however the statements changed are nested or follow each other, and the result is
encoded text.  No block may stand in front of what an export exports, and no default may hold a lone
half of a surrogate pair. -/
theorem exists_output_of_run (source : String) (policy : UnknownPolicy) (uidBase : String)
    (depth : Nat) (root : Tree) (chs : List Change)
    (hwf : root.WellFormed (Utf8.encodeString source))
    (hblocks : root.BlocksBehindTargets)
    (hrun : (run ⟨Utf8.encodeString source, policy, uidBase, depth⟩ root).result = .ok chs)
    (hdefaults : ∀ ch ∈ chs, ∀ d ∈ ch.record.defaults, d.whole = true) :
    ∃ out cs, Edit.apply (Utf8.encodeString source) (edits chs) = .ok out ∧
      Utf8.decode out = .ok cs := by
  let c : Context := ⟨Utf8.encodeString source, policy, uidBase, depth⟩
  have hout := apply_edits_of_run (c := c) hwf hblocks hrun hdefaults
  obtain ⟨cs, hcs⟩ := exists_decode_of_apply (c := c) (Utf8.encodeString_eq source) hwf hrun hout
  exact ⟨_, cs, hout, hcs⟩

/-- A default export of a function with a class inside, both injectable. -/
def nestedSource : String :=
  "/** @injectable */\nexport default function f() \x7b\n  /** @injectable */\n  class A \x7b\x7d\n\x7d"

/-- The encoding of `nestedSource`. -/
def nestedBytes : Bytes :=
  [47, 42, 42, 32, 64, 105, 110, 106, 101, 99, 116, 97, 98, 108, 101, 32, 42, 47, 10, 101, 120,
    112, 111, 114, 116, 32, 100, 101, 102, 97, 117, 108, 116, 32, 102, 117, 110, 99, 116, 105,
    111, 110, 32, 102, 40, 41, 32, 123, 10, 32, 32, 47, 42, 42, 32, 64, 105, 110, 106, 101, 99,
    116, 97, 98, 108, 101, 32, 42, 47, 10, 32, 32, 99, 108, 97, 115, 115, 32, 65, 32, 123, 125,
    10, 125]

/-- The tree of `nestedSource`. -/
def nestedTree : Tree :=
  .node ⟨.program, true, false, 0, 84, 0, 4, none, 0⟩ [
    .node ⟨.comment, true, false, 0, 18, 0, 0, none, 1⟩ [],
    .node ⟨.exportStatement, true, false, 19, 84, 1, 4, none, 2⟩ [
      .node ⟨.exportKeyword, false, false, 19, 25, 1, 1, none, 3⟩ [],
      .node ⟨.defaultKeyword, false, false, 26, 33, 1, 1, none, 4⟩ [],
      .node ⟨.functionDeclaration, true, false, 34, 84, 1, 4, some "declaration", 5⟩ [
        .node ⟨.function, false, false, 34, 42, 1, 1, none, 6⟩ [],
        .node ⟨.identifier, true, false, 43, 44, 1, 1, some "name", 7⟩ [],
        .node ⟨.formalParameters, true, false, 44, 46, 1, 1, some "parameters", 8⟩ [
          .node ⟨.other "(", false, false, 44, 45, 1, 1, none, 9⟩ [],
          .node ⟨.other ")", false, false, 45, 46, 1, 1, none, 10⟩ []],
        .node ⟨.statementBlock, true, false, 47, 84, 1, 4, some "body", 11⟩ [
          .node ⟨.other "\x7b", false, false, 47, 48, 1, 1, none, 12⟩ [],
          .node ⟨.comment, true, false, 51, 69, 2, 2, none, 13⟩ [],
          .node ⟨.classDeclaration, true, false, 72, 82, 3, 3, none, 14⟩ [
            .node ⟨.classExpression, false, false, 72, 77, 3, 3, none, 15⟩ [],
            .node ⟨.identifier, true, false, 78, 79, 3, 3, some "name", 16⟩ [],
            .node ⟨.other "class_body", true, false, 80, 82, 3, 3, some "body", 17⟩ [
              .node ⟨.other "\x7b", false, false, 80, 81, 3, 3, none, 18⟩ [],
              .node ⟨.other "\x7d", false, false, 81, 82, 3, 3, none, 19⟩ []]],
          .node ⟨.other "\x7d", false, false, 83, 84, 4, 4, none, 20⟩ []]]]]

theorem encodeString_nestedSource : Utf8.encodeString nestedSource = nestedBytes :=
  (Utf8.encodeString_ofList _).trans rfl

theorem exists_output_of_nested :
    ∃ chs out cs,
      (run ⟨Utf8.encodeString nestedSource, .error, "uid", 980⟩ nestedTree).result = .ok chs ∧
      chs.length = 2 ∧ Edit.apply (Utf8.encodeString nestedSource) (edits chs) = .ok out ∧
      Utf8.decode out = .ok cs := by
  have hcheck : (run ⟨nestedBytes, .error, "uid", 980⟩ nestedTree).result.toOption.any (fun chs =>
      decide (chs.length = 2 ∧ ∀ ch ∈ chs, ∀ d ∈ ch.record.defaults, d.whole = true)) = true := by
    decide +kernel
  rw [← encodeString_nestedSource] at hcheck
  obtain ⟨chs, hrun, hprops⟩ := exists_of_toOption_any hcheck
  obtain ⟨hlength, hdefaults⟩ := of_decide_eq_true hprops
  obtain ⟨out, cs, hout, hcs⟩ := exists_output_of_run nestedSource .error "uid" 980 nestedTree chs
    (by rw [encodeString_nestedSource]; decide +kernel) (by decide +kernel) hrun hdefaults
  exact ⟨chs, out, cs, hrun, hlength, hout, hcs⟩

end Pass
end Injection
