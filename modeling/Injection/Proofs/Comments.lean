import Injection.Proofs.Exports
import Injection.Proofs.Leading
import Injection.Proofs.Pieces

/-!
# What becomes of comments

Edits put text between the nodes of a source, and replace the front of an export.  So a comment is
met by an edit only if it stands in the front of an export that is rewritten, behind the place where
the new front starts.  It is lost there, unless it stands in a decorator of an export that becomes a
constant: the decorators are written again.

* `WellFormed.nested_or_apart`: two nodes of a tree are nested, or one is in front of the other.
* `follow_comments`: the comments of a tree follow each other.
* `Group.exported_of_meets`: which edit can meet a comment.
* `head_of_constant`: the new front of a constant, with its decorators.
* **`comments_of_text`**: which comments of a source are met by an edit, and that all that are not
  lost stand in the output, in order.
-/

namespace Injection

namespace Tree

/-- The bytes that a node covers. -/
def range (t : Tree) : Nat × Nat := (t.label.start, t.label.stop)

/-- The comments of a tree in order.  A comment is a token. -/
def comments (t : Tree) : List Tree :=
  t.preorder.filter fun n => n.kind = .comment && n.children.isEmpty

/-- Whether a node is replaced with the front of an export: it stands between the place where the
new front starts and what is exported. -/
def replaces (t k : Tree) : Bool :=
  t.kind = .exportStatement && t.exportParts?.any fun p =>
    t.frontPlace p.target ≤ k.label.start && k.label.stop ≤ p.target.label.start

/-- Whether a node stands in a decorator that is written again: the decorators of an export that
becomes a constant are. -/
def repeats (t k : Tree) : Bool :=
  t.exportParts?.any (fun p => t.becomesConstant p.target) && t.children.any fun d =>
    d.kind = .decorator && d.label.start ≤ k.label.start && k.label.stop ≤ d.label.stop

/-- Whether a node is lost when an export is rewritten. -/
def loses (t k : Tree) : Bool := t.replaces k && !t.repeats k

variable {source : Bytes} {t n k : Tree}

theorem mem_comments :
    k ∈ t.comments ↔ k ∈ t.preorder ∧ k.kind = .comment ∧ k.children = [] := by
  simp [comments, List.mem_filter]

theorem comments_node (l : Label) (cs : List Tree) :
    (node l cs).comments =
      (if l.kind = .comment && cs.isEmpty then [node l cs] else []) ++ cs.flatMap comments := by
  have hself : ((node l cs).kind = .comment && (node l cs).children.isEmpty) =
      (l.kind = .comment && cs.isEmpty) := rfl
  rw [comments, preorder_node, List.filter_cons, List.filter_flatMap, hself]
  split
  · rfl
  · rfl

/-- A node of a tree is the root or a node of one of its children. -/
theorem eq_or_mem_child (h : n ∈ t.preorder) : n = t ∨ ∃ x ∈ t.children, n ∈ x.preorder := by
  obtain ⟨l, cs⟩ := t
  rwa [preorder_node, List.mem_cons, List.mem_flatMap] at h

/-- Two nodes of a well-formed tree are nested, or one of them is in front of the other. -/
theorem WellFormed.nested_or_apart (h : t.WellFormed source) (hn : n ∈ t.preorder)
    (hk : k ∈ t.preorder) :
    k ∈ n.preorder ∨ n ∈ k.preorder ∨ k.label.stop ≤ n.label.start ∨
      n.label.stop ≤ k.label.start := by
  induction t using Tree.induction with
  | node l cs ih =>
      rcases eq_or_mem_child hn with rfl | ⟨x, hx, hnx⟩
      · exact .inl hk
      rcases eq_or_mem_child hk with rfl | ⟨y, hy, hky⟩
      · exact .inr (.inl hn)
      have hxn := (h.child hx).inside_of_mem n hnx
      have hyk := (h.child hy).inside_of_mem k hky
      have hordered : cs.Pairwise fun a b => a.label.stop ≤ b.label.start := h.sound.ordered
      rcases eq_or_apart hordered hx hy with rfl | hle | hle
      · exact ih x hx (h.child hx) hnx hky
      · exact .inr (.inr (.inr (by omega)))
      · exact .inr (.inr (.inl (by omega)))

/-- A comment lies inside a child of a node that is none, or it is in front of the node or behind
it. -/
theorem WellFormed.child_or_apart (h : t.WellFormed source) (hn : n ∈ t.preorder)
    (hkind : n.kind ≠ .comment) (hk : k ∈ t.comments) :
    (∃ x ∈ n.children, k ∈ x.preorder) ∨ k.label.stop ≤ n.label.start ∨
      n.label.stop ≤ k.label.start := by
  obtain ⟨hk, hcomment, htoken⟩ := mem_comments.1 hk
  rcases h.nested_or_apart hn hk with hin | hin | hapart
  · rcases eq_or_mem_child hin with rfl | hchild
    · exact absurd hcomment hkind
    · exact .inl hchild
  · -- a token has nothing inside
    rcases eq_or_mem_child hin with rfl | ⟨x, hx, -⟩
    · exact absurd hcomment hkind
    · rw [htoken] at hx
      cases hx
  · exact .inr hapart

/-- Children of a well-formed tree follow each other. -/
theorem WellFormed.follow_children (h : t.WellFormed source) {cs : List Tree}
    (hcs : cs.Sublist t.children) : Edit.Follow (cs.map range) := by
  constructor
  · rw [List.pairwise_map]
    exact h.sound.ordered.sublist hcs
  · intro r hr
    obtain ⟨x, hx, rfl⟩ := List.mem_map.1 hr
    exact (h.child (hcs.subset hx)).sound.bounds

/-- The comments of a well-formed tree follow each other. -/
theorem WellFormed.follow_comments (h : t.WellFormed source) :
    Edit.Follow (t.comments.map range) := by
  constructor
  · rw [List.pairwise_map]
    induction t using Tree.induction with
    | node l cs ih =>
        rw [comments_node]
        split_ifs with htoken
        · obtain rfl : cs = [] := by
            simpa using (Bool.and_eq_true_iff.1 htoken).2
          exact List.pairwise_singleton _ _
        · have hordered : cs.Pairwise fun a b => a.label.stop ≤ b.label.start := h.sound.ordered
          rw [List.nil_append, List.pairwise_flatMap]
          refine ⟨fun x hx => ih x hx (h.child hx), hordered.imp_of_mem ?_⟩
          intro x y hx hy hxy k hk j hj
          have hxk := (h.child hx).inside_of_mem k (mem_comments.1 hk).1
          have hyj := (h.child hy).inside_of_mem j (mem_comments.1 hj).1
          simp only [range]
          omega
  · intro r hr
    obtain ⟨k, hk, rfl⟩ := List.mem_map.1 hr
    exact (h k (mem_comments.1 hk).1).bounds

end Tree

namespace Pass

variable {c : Context} {root k : Tree} {s : Site} {ch : Change} {e : Edit}

theorem Group.kind_ne_comment (h : Group c s ch) : s.node.kind ≠ .comment := by
  intro hcomment
  cases h with
  | plain hkind =>
      rw [hcomment] at hkind
      rcases hkind with h | h <;> cases h
  | exported _ _ _ _ _ _ hkind =>
      rw [hcomment] at hkind
      cases hkind

/-- A comment that an edit meets is replaced with the front of an export. -/
theorem Group.exported_of_meets (hwf : root.WellFormed c.source) (hs : s.node ∈ root.preorder)
    (hgroup : Group c s ch) (he : e ∈ ch.edits) (hk : k ∈ root.comments)
    (hmeets : e.first < k.label.stop ∧ k.label.start < e.last) :
    ch.edits.head? = some e ∧ s.node.replaces k = true := by
  have hnode := hwf.of_mem hs
  have hwithin := hgroup.within hnode he
  obtain ⟨x, hx, hkx⟩ : ∃ x ∈ s.node.children, k ∈ x.preorder := by
    refine (hwf.child_or_apart hs hgroup.kind_ne_comment hk).resolve_right ?_
    unfold Edit.first Edit.last at hmeets
    omega
  have hinside := (hnode.child hx).inside_of_mem k hkx
  have hbounds := hnode.sound.inside x hx
  cases hgroup with
  | plain hkind hedits =>
      rw [hedits, List.mem_singleton] at he
      subst he
      simp only [Edit.first, Edit.last, Int.toNat_natCast] at hmeets
      omega
  | exported p start place head before after hkind hparts hstart hfront hplace hboundary hcut
      hedits hfrom =>
      have htarget := Tree.target_mem hparts
      have hordered := hnode.sound.ordered
      rw [hedits, List.mem_cons, List.mem_singleton] at he
      rcases he with rfl | rfl
      · simp only [Edit.first, Edit.last, Int.toNat_natCast] at hmeets
        have hstop : k.label.stop ≤ p.target.label.start := by
          have hsound := (hnode.child htarget).sound.bounds
          rcases Tree.eq_or_apart hordered hx htarget with rfl | hle | hle <;> omega
        have hlow : start ≤ k.label.start := by
          rcases hstart with rfl | ⟨keyword, hkeyword, -, rfl⟩
          · omega
          · have hsound := (hnode.child hkeyword).sound.bounds
            rcases Tree.eq_or_apart hordered hx hkeyword with rfl | hle | hle <;> omega
        refine ⟨by rw [hedits]; rfl, ?_⟩
        simp [Tree.replaces, hkind, hparts, ← hfrom, hlow, hstop]
      · simp only [Edit.first, Edit.last, Int.toNat_natCast] at hmeets
        rcases hcut x hx with hle | hle <;> omega

/-- A comment that is replaced with the front of an export is met by an edit. -/
theorem Group.exists_meets (hgroup : Group c s ch) (hk : s.node.replaces k = true)
    (hne : k.label.start < k.label.stop) :
    ∃ e ∈ ch.edits, e.first < k.label.stop ∧ k.label.start < e.last := by
  simp only [Tree.replaces, Bool.and_eq_true, decide_eq_true_eq, Option.any_eq_true] at hk
  obtain ⟨hexport, p, hparts, hlow, hhigh⟩ := hk
  cases hgroup with
  | plain hkind =>
      rw [hexport] at hkind
      rcases hkind with h | h <;> cases h
  | exported p' start place head before after _ hparts' _ _ _ _ _ hedits hfrom =>
      obtain rfl : p' = p := Option.some.inj (hparts'.symm.trans hparts)
      refine ⟨_, by rw [hedits]; exact List.mem_cons_self, ?_⟩
      simp only [Edit.first, Edit.last, Int.toNat_natCast]
      omega

/-- The decorators of an export, each with a blank behind it, encoded. -/
theorem encodeString_decoratorText {source : List Char} {t : Tree}
    (hwf : t.WellFormed (Utf8.encodeChars source)) :
    Utf8.encodeString (t.decoratorText (Utf8.encodeChars source)) =
      ((t.children.filter (·.kind = .decorator)).map Tree.range).flatMap fun d =>
        Edit.within d (Utf8.encodeChars source) ++ [32] := by
  have htext : ∀ d ∈ t.children.filter (·.kind = .decorator),
      Utf8.encodeChars (d.text (Utf8.encodeChars source) ++ " ").toList =
        Edit.within d.range (Utf8.encodeChars source) ++ [32] := by
    intro d hd
    rw [String.toList_append, Utf8.encodeChars_append, Tree.text, String.toList_ofList,
      (hwf.child (List.mem_of_mem_filter hd)).encodeChars_chars]
    rfl
  rw [Utf8.encodeString_eq, Tree.decoratorText, String.toList_join, List.flatMap_map,
    List.flatMap_map, Utf8.encodeChars, List.flatMap_assoc]
  exact List.flatMap_congr htext

/-- The new front of an export that becomes a constant ends with its decorators. -/
theorem head_of_constant {taken taken' : List String} {source : List Char} {p : Tree.ExportParts}
    (hsource : c.source = Utf8.encodeChars source) (hwf : s.node.WellFormed c.source)
    (h : (visit c taken s).result = .ok (taken', some ch)) (hkind : s.node.kind = .exportStatement)
    (hparts : s.node.exportParts? = some p) (hconstant : s.node.becomesConstant p.target = true)
    (he : ch.edits.head? = some e) :
    ∃ front, e.bytes = front ++
      ((s.node.children.filter (·.kind = .decorator)).map Tree.range).flatMap fun d =>
        Edit.within d c.source ++ [32] := by
  simp only [Tree.becomesConstant, Bool.and_eq_true, decide_eq_true_eq] at hconstant
  obtain ⟨hdefault, hexpression⟩ := hconstant
  obtain ⟨clause, hclause, -⟩ := reexported_of_visit hwf hkind h
  cases hclause with
  | named _ _ _ hnamed =>
      rw [hdefault] at hnamed
      cases hnamed
  | abstractClass target _ _ _ htarget habstract =>
      rw [← Tree.childAt_exportField_of_default hdefault] at htarget
      obtain ⟨p', hparts', rfl, -⟩ := exists_exportParts htarget
      obtain rfl : p' = p := Option.some.inj (hparts'.symm.trans hparts)
      exact absurd habstract hexpression
  | constant target terminator place _ _ _ _ _ hedits =>
      rw [hedits] at he
      cases he
      refine ⟨Utf8.encodeString s!"const {ch.record.target} = ", ?_⟩
      rw [Edit.bytes_of_encode ((Utf8.encode_eq_ok_iff _ _).2 ⟨_, rfl, rfl⟩), String.toList_append,
        Utf8.encodeChars_append]
      rw [hsource] at hwf ⊢
      rw [← encodeString_decoratorText hwf]
      rfl

/-- The text of an edit holds the comments that the edit meets, if none of them is lost. -/
theorem holds_of_meets {taken taken' : List String} {source : List Char} {ks : List Tree}
    (hsource : c.source = Utf8.encodeChars source) (hwf : root.WellFormed c.source)
    (hs : s.node ∈ root.preorder) (h : (visit c taken s).result = .ok (taken', some ch))
    (he : e ∈ ch.edits) (hks : ks.Sublist root.comments)
    (hmeets : ∀ k ∈ ks, e.first < k.label.stop ∧ k.label.start < e.last)
    (hkept : ∀ k ∈ ks, s.node.loses k = false) :
    Edit.Holds ((ks.map Tree.range).map (Edit.within · c.source)) e.bytes := by
  have hnode := hwf.of_mem hs
  have hexported : ∀ k ∈ ks, ch.edits.head? = some e ∧ s.node.replaces k = true := fun k hk =>
    (group_of_visit hnode h).exported_of_meets hwf hs he (hks.subset hk) (hmeets k hk)
  have hrepeats : ∀ k ∈ ks, s.node.repeats k = true := by
    intro k hk
    have hlost := hkept k hk
    simpa [Tree.loses, (hexported k hk).2] using hlost
  cases hcase : ks with
  | nil => exact .nil _
  | cons k rest =>
      rw [← hcase]
      have hk : k ∈ ks := hcase ▸ List.mem_cons_self
      obtain ⟨hhead, hreplaces⟩ := hexported k hk
      have hrepeated := hrepeats k hk
      simp only [Tree.replaces, Tree.repeats, Bool.and_eq_true, decide_eq_true_eq,
        Option.any_eq_true] at hreplaces hrepeated
      obtain ⟨p, hparts, hconstant⟩ := hrepeated.1
      obtain ⟨front, hbytes⟩ := head_of_constant hsource hnode h hreplaces.1 hparts hconstant hhead
      rw [hbytes]
      refine (Edit.holds_copies (hnode.follow_children List.filter_sublist)
        (hwf.follow_comments.sublist (hks.map _)) ?_ [32]).append_left front
      intro r hr
      obtain ⟨k, hk, rfl⟩ := List.mem_map.1 hr
      have hrepeated := hrepeats k hk
      simp only [Tree.repeats, Bool.and_eq_true, List.any_eq_true, decide_eq_true_eq] at hrepeated
      obtain ⟨-, d, hd, ⟨hdecorator, hlow⟩, hhigh⟩ := hrepeated
      exact ⟨d.range, List.mem_map_of_mem (List.mem_filter.2 ⟨hd, by simpa using hdecorator⟩), hlow,
        hhigh⟩

/-- The changes of a pass come from visits of nodes of the tree. -/
theorem visit_of_mem_changed {taken : List String} {g : Site × Change}
    (h : g ∈ changed (visits c taken (Site.allStatements root))) :
    g.1.node ∈ root.preorder ∧
      ∃ before after, (visit c before g.1).result = .ok (after, some g.2) := by
  obtain ⟨hs, hvisit⟩ := exists_visit_of_mem (mem_changed.1 h)
  exact ⟨Site.node_mem_preorder hs, hvisit⟩

theorem mem_edits_iff {made : List (Site × Change)} :
    e ∈ edits (made.map (·.2)) ↔ ∃ g ∈ made, e ∈ g.2.edits := by
  rw [edits, List.flatMap_map, List.mem_flatMap]

end Pass

namespace Transform

/-- **Comments.**  When a transform of a well-formed tree returns, an edit meets a comment of the
source if and only if the comment is replaced with the front of an export that is rewritten.  All
comments but those that are lost there, outside decorators that are written again, stand in the
output with all their bytes, in the order of the source. -/
theorem comments_of_text (host : Host) (r : Registry) (s : TransformSettings)
    (source language file : String) (root : Tree) (o : Outcome)
    (hroot : tree host r (Utf8.encodeString source) language file = .ok root)
    (hwf : root.WellFormed (Utf8.encodeString source))
    (h : (text host r s source language file).result = .ok o) :
    ∃ made : List (Site × Change),
      made = Pass.changed (Pass.visits (context host.depth s source)
        (root.identifiers (Utf8.encodeString source)) (Site.allStatements root)) ∧
      Edit.apply (Utf8.encodeString source) (Pass.edits (made.map (·.2))) =
        .ok (Utf8.encodeString o.output) ∧
      (∀ k ∈ root.comments, k.label.start < k.label.stop →
        ((∃ e ∈ Pass.edits (made.map (·.2)), e.first < k.label.stop ∧ k.label.start < e.last) ↔
          ∃ g ∈ made, g.1.node.replaces k = true)) ∧
      Edit.Holds
        (((root.comments.filter fun k => made.all fun g => !g.1.node.loses k).map Tree.range).map
          (Edit.within · (Utf8.encodeString source)))
        (Utf8.encodeString o.output) := by
  obtain ⟨vs, rfl, -, hrun, -, houtput⟩ := exists_visits_of_text hroot h
  refine ⟨_, rfl, houtput, ?_, ?_⟩
  · intro k hk hne
    constructor
    · rintro ⟨e, he, hmeets⟩
      obtain ⟨g, hg, he⟩ := Pass.mem_edits_iff.1 he
      obtain ⟨hnode, before, after, hvisit⟩ := Pass.visit_of_mem_changed hg
      have hgroup := Pass.group_of_visit (hwf.of_mem hnode) hvisit
      exact ⟨g, hg, (hgroup.exported_of_meets hwf hnode he hk hmeets).2⟩
    · rintro ⟨g, hg, hreplaces⟩
      obtain ⟨hnode, before, after, hvisit⟩ := Pass.visit_of_mem_changed hg
      have hgroup := Pass.group_of_visit (c := context host.depth s source) (hwf.of_mem hnode)
        hvisit
      obtain ⟨e, he, hmeets⟩ := hgroup.exists_meets hreplaces hne
      exact ⟨e, Pass.mem_edits_iff.2 ⟨g, hg, he⟩, hmeets⟩
  · obtain ⟨-, -, hsplice⟩ := (Edit.apply_eq_ok_iff (fun e he =>
      Pass.inRange_of_mem_edits (c := context host.depth s source) hwf hrun he) _).1 houtput
    rw [hsplice]
    refine Edit.holds_splice (hwf.follow_comments.sublist (List.filter_sublist.map _)) ?_ ?_
    · intro r hr
      obtain ⟨k, hk, rfl⟩ := List.mem_map.1 hr
      have hsound := hwf k (Tree.mem_comments.1 (List.mem_of_mem_filter hk)).1
      exact ⟨Nat.zero_le _, Utf8.le_length_of_isBoundary hsound.boundaries.2⟩
    · intro e he mid hmid hmeets
      obtain ⟨g, hg, he⟩ := Pass.mem_edits_iff.1 (Edit.mem_ordered.1 he)
      obtain ⟨hnode, before, after, hvisit⟩ := Pass.visit_of_mem_changed hg
      obtain ⟨ks, hks, rfl⟩ := List.sublist_map_iff.1 hmid
      refine Pass.holds_of_meets (c := context host.depth s source) (Utf8.encodeString_eq source)
        hwf hnode
        hvisit he (hks.trans List.filter_sublist) (fun k hk => ?_) fun k hk => ?_
      · exact hmeets k.range (List.mem_map_of_mem hk)
      · have hkept := (List.mem_filter.1 (hks.subset hk)).2
        simpa using List.all_eq_true.1 hkept g hg

/-- An export with a comment behind the keyword. -/
def frontedSource : String := "/** @injectable */\nexport /* c */ function f() \x7b\x7d"

/-- The encoding of `frontedSource`. -/
def frontedBytes : Bytes :=
  [47, 42, 42, 32, 64, 105, 110, 106, 101, 99, 116, 97, 98, 108, 101, 32, 42, 47, 10, 101, 120,
    112, 111, 114, 116, 32, 47, 42, 32, 99, 32, 42, 47, 32, 102, 117, 110, 99, 116, 105, 111,
    110, 32, 102, 40, 41, 32, 123, 125]

/-- The tree of `frontedSource`. -/
def frontedTree : Tree :=
  .node ⟨.program, true, false, 0, 49, 0, 1, none, 0⟩ [
    .node ⟨.comment, true, false, 0, 18, 0, 0, none, 1⟩ [],
    .node ⟨.exportStatement, true, false, 19, 49, 1, 1, none, 2⟩ [
      .node ⟨.exportKeyword, false, false, 19, 25, 1, 1, none, 3⟩ [],
      .node ⟨.comment, true, false, 26, 33, 1, 1, none, 4⟩ [],
      .node ⟨.functionDeclaration, true, false, 34, 49, 1, 1, some "declaration", 5⟩ [
        .node ⟨.function, false, false, 34, 42, 1, 1, none, 6⟩ [],
        .node ⟨.identifier, true, false, 43, 44, 1, 1, some "name", 7⟩ [],
        .node ⟨.formalParameters, true, false, 44, 46, 1, 1, some "parameters", 8⟩ [
          .node ⟨.other "(", false, false, 44, 45, 1, 1, none, 9⟩ [],
          .node ⟨.other ")", false, false, 45, 46, 1, 1, none, 10⟩ []],
        .node ⟨.statementBlock, true, false, 47, 49, 1, 1, some "body", 11⟩ [
          .node ⟨.other "\x7b", false, false, 47, 48, 1, 1, none, 12⟩ [],
          .node ⟨.other "\x7d", false, false, 48, 49, 1, 1, none, 13⟩ []]]]]

/-- What becomes of `frontedSource`. -/
def frontedOutput : String :=
  "/** @injectable */\nfunction f() \x7b\x7d\nf.injectable = true;\nexport \x7b f \x7d;"

/-- The encoding of `frontedOutput`. -/
def frontedOutputBytes : Bytes :=
  [47, 42, 42, 32, 64, 105, 110, 106, 101, 99, 116, 97, 98, 108, 101, 32, 42, 47, 10, 102, 117,
    110, 99, 116, 105, 111, 110, 32, 102, 40, 41, 32, 123, 125, 10, 102, 46, 105, 110, 106, 101,
    99, 116, 97, 98, 108, 101, 32, 61, 32, 116, 114, 117, 101, 59, 10, 101, 120, 112, 111, 114,
    116, 32, 123, 32, 102, 32, 125, 59]

theorem encodeString_frontedSource : Utf8.encodeString frontedSource = frontedBytes :=
  (Utf8.encodeString_ofList _).trans rfl

theorem encodeString_frontedOutput : Utf8.encodeString frontedOutput = frontedOutputBytes :=
  (Utf8.encodeString_ofList _).trans rfl

theorem tree_fronted : tree (.common fun _ _ => frontedTree) oneGrammar
    (Utf8.encodeString frontedSource)
    "javascript" "a.js" = .ok frontedTree :=
  tree_oneGrammar rfl (Utf8.encodeString frontedSource) "a.js"

theorem wellFormed_fronted : frontedTree.WellFormed (Utf8.encodeString frontedSource) := by
  rw [encodeString_frontedSource]
  decide

theorem exists_text_of_fronted :
    ∃ o chs, (text (.common fun _ _ => frontedTree) oneGrammar .default frontedSource "javascript"
        "a.js").result = .ok o ∧ o.output = frontedOutput ∧
      (Pass.run (context 980 .default frontedSource) frontedTree).result = .ok chs := by
  have hyields : (Pass.run ⟨frontedBytes, .warn, "uid", 980⟩ frontedTree).result.toOption.any
      (yields frontedBytes frontedOutputBytes) = true := by
    decide +kernel
  rw [← encodeString_frontedSource, ← encodeString_frontedOutput] at hyields
  obtain ⟨chs, hrun, htext⟩ := exists_text_of_yields (s := .default) tree_fronted
    wellFormed_fronted (by decide) hyields
  exact ⟨_, chs, htext, rfl, hrun⟩

/-- The comment in front of the export stands in the output. -/
theorem comments_of_fronted :
    ∃ o, (text (.common fun _ _ => frontedTree) oneGrammar .default frontedSource "javascript"
        "a.js").result = .ok o ∧
      Edit.Holds [Utf8.encodeString "/** @injectable */"] (Utf8.encodeString o.output) := by
  obtain ⟨o, -, htext, -⟩ := exists_text_of_fronted
  obtain ⟨made, hmade, -, -, hholds⟩ := comments_of_text (.common fun _ _ => frontedTree) oneGrammar
    .default frontedSource "javascript" "a.js" frontedTree o tree_fronted wellFormed_fronted htext
  have hkept : ((frontedTree.comments.filter fun k => (Pass.changed (Pass.visits
      ⟨frontedBytes, .warn, "uid", 980⟩ (frontedTree.identifiers frontedBytes)
      (Site.allStatements frontedTree))).all fun g => !g.1.node.loses k).map Tree.range) =
        [(0, 18)] := rfl
  have hmade' : made = Pass.changed (Pass.visits
    ⟨Utf8.encodeString frontedSource, .warn, "uid", 980⟩
      (frontedTree.identifiers (Utf8.encodeString frontedSource))
      (Site.allStatements frontedTree)) := hmade
  rw [encodeString_frontedSource] at hmade'
  have hpiece : Utf8.encodeString "/** @injectable */" = Edit.within (0, 18) frontedBytes :=
    (Utf8.encodeString_ofList _).trans rfl
  rw [hmade', hkept, List.map_singleton, encodeString_frontedSource, ← hpiece] at hholds
  exact ⟨o, htext, hholds⟩

/-- The comment behind the keyword is met by an edit, and it is not in the output. -/
theorem comment_lost_in_front :
    ∃ o chs k e, (text (.common fun _ _ => frontedTree) oneGrammar .default frontedSource
      "javascript"
        "a.js").result = .ok o ∧
      (Pass.run (context 980 .default frontedSource) frontedTree).result = .ok chs ∧
      k ∈ frontedTree.comments ∧ k.text (Utf8.encodeString frontedSource) = "/* c */" ∧
      e ∈ Pass.edits chs ∧ e.first < k.label.stop ∧ k.label.start < e.last ∧
      ¬ Edit.within k.range (Utf8.encodeString frontedSource) <:+: Utf8.encodeString o.output := by
  obtain ⟨o, chs, htext, houtput, hrun⟩ := exists_text_of_fronted
  have hmeets : (Pass.run ⟨frontedBytes, .warn, "uid", 980⟩ frontedTree).result.toOption.any
    (fun chs =>
      (Pass.edits chs).any fun e => e.first < 33 && 26 < e.last) = true := rfl
  rw [← encodeString_frontedSource] at hmeets
  change (Pass.run (context 980 .default frontedSource) frontedTree).result.toOption.any _ = true
    at hmeets
  rw [hrun] at hmeets
  obtain ⟨e, he, hmeets⟩ := List.any_eq_true.1 hmeets
  simp only [Bool.and_eq_true, decide_eq_true_eq] at hmeets
  refine ⟨o, chs, .node ⟨.comment, true, false, 26, 33, 1, 1, none, 4⟩ [], e, htext, hrun, ?_, ?_,
    he, hmeets.1, hmeets.2, ?_⟩
  · simp [Tree.mem_comments, frontedTree, Tree.kind, Tree.label, Tree.children]
  · rw [encodeString_frontedSource]
    rfl
  · rw [houtput, encodeString_frontedSource, encodeString_frontedOutput]
    decide +kernel

end Transform
end Injection
