import Injection.Proofs.Settled

/-!
# A second pass

The output of a pass is passed over again.

* `calm_of_body`: walking over the children of a container that are there again, all statements
  settle.
* `settled_of_rereads`: so do all statements of the output.
* `rerun_eq_ok_iff`: a second transform changes nothing exactly when it leaves the statements alone
  that have a displaced comment in front.
-/

namespace Injection
namespace Output

variable {o : Output} {root : Tree} {mv : Move} {J : Tree → Prop} {c : Context}

/-! ## The walk over the output -/

/-- A statement that was left alone settles. -/
theorem Placement.settles_of_kept (hp : o.Placement root mv J) (h : o.Produced root)
    (hc : c.source = o.bytes) {container t u : Tree} {before before' ts us : List Tree}
    (hJ : J container) (hcontainer : container.kind.isContainer = true)
    (hsplit : container.children = before.reverse ++ t :: ts)
    (hfront : o.Front root mv container before before')
    (hchange : o.change? ⟨before, t, ts⟩ = none) (hkept : o.kept mv false t u = true)
    (hbody : o.body mv (t :: before) ts us = true) (hu : u.isStatement = true) :
    o.Settles root c ⟨before', u, us⟩ := by
  rcases hfront with htracks | hexposed
  · right
    have ht : t.isStatement = true := by
      obtain ⟨hkind, hnamed, -⟩ := look_of_kept hkept
      rwa [Tree.isStatement, hkind, hnamed] at hu
    have hs : (⟨before, t, ts⟩ : Site) ∈ Site.allStatements root :=
      Site.mem_allStatements_iff.2
        ⟨container, hp.node hJ, hcontainer, Site.mem_statements_iff.2 ⟨hsplit, ht⟩⟩
    rw [Site.quiet_iff, hc]
    intro m' hm'
    obtain ⟨m, hm⟩ := exists_marked_of_tracks (s := ⟨before, t, ts⟩) htracks hm'
    exact hp.idle_of_kept h hc hJ hcontainer hsplit (hp.statement hJ hsplit (Or.inl hchange)) hkept
      hbody (Site.quiet_iff.1 (h.quiet _ hs hchange) m hm)
  · exact Or.inl hexposed

/-- **The children of a container settle**, from any of them on. -/
theorem Placement.calm_of_body (hp : o.Placement root mv J) (h : o.Produced root)
    (hc : c.source = o.bytes) {container : Tree} (hJ : J container)
    (hcontainer : container.kind.isContainer = true)
    (hagain : ∀ x ∈ container.children, ∀ n ∈ x.preorder, o.SettlesAgain root c n)
    {before before' ts us : List Tree} (hsplit : container.children = before.reverse ++ ts)
    (hfront : o.Front root mv container before before')
    (hbody : o.body mv before ts us = true) : o.Calm root c before' us := by
  -- the invariant is `hfront`: what is in front tracks what was, or has a displaced comment
  induction ts generalizing before before' us with
  | nil => exact calm_of_comments (body_of_comments hbody rfl)
  | cons t ts ih =>
      have ht := Tree.mem_of_split hsplit
      have hsplit' := Tree.split_next hsplit
      by_cases hcomments : (t :: ts).all (·.kind = .comment) = true
      · exact calm_of_comments (body_of_comments hbody hcomments)
      by_cases hchange : o.change? ⟨before, t, ts⟩ = none
      · -- the child is there again
        obtain ⟨u, us, rfl, hkept, hrest⟩ := body_cons_of_none hbody hcomments hchange
        have hJt := hp.statement hJ hsplit (Or.inl hchange)
        have hfront' := hp.front_of_kept h hJ hsplit hfront hchange hkept
        refine calm_cons ?_ ?_ (ih hsplit' hfront' hrest)
        · exact hp.settles_of_kept h hc hJ hcontainer hsplit hfront hchange hkept hrest
        · exact hagain t ht t t.mem_preorder_self hp hJt hkept
      by_cases hkind : t.kind = .exportStatement
      · -- the export has become a declaration
        obtain ⟨p, u, added, x, ds, rest, hparts, rfl, hdeclares, hannotates, ⟨hx, hends⟩, hds,
          hrest⟩ := body_cons_of_export hbody hchange hkind
        have hs := mem_allStatements_of_change (hp.node hJ) hcontainer hsplit hchange
        obtain ⟨hsettled, hkind'⟩ := hp.settled_of_declares h hJ hsplit hs hchange hkind hparts
          (hagain t ht) hdeclares
        have hinert : ∀ v ∈ ds, o.Inert root c v := by
          intro v hv
          obtain ⟨d, hd, hvkind, hleaf, -⟩ := (exists_of_mem_displaces hds).1 v hv
          exact inert_of_comment
            (hvkind.trans (h.kind_of_displaced (Site.node_mem_preorder hs) hkind hd)) hleaf
        refine calm_cons (fun _ => Or.inr (quiet_of_annotates hc hannotates hkind')) hsettled
          (calm_append (inert_of_annotates hannotates) ?_)
        have hx' : o.Inert root c x := inert_of_reexports hx
        refine calm_cons (fun hstatement => hx'.1 hstatement _ _) hx'.2 (calm_append hinert ?_)
        exact ih hsplit' (hp.front_of_export h hJ hcontainer hsplit hchange hkind hparts hx hends
          hds) hrest
      · -- the declaration is there again, with assignments behind it
        have hcomment : t.kind ≠ .comment := by
          have hstatement := isStatement_of_change hchange
          simp only [Tree.isStatement, Bool.and_eq_true, decide_eq_true_eq] at hstatement
          exact hstatement.2
        obtain ⟨u, added, rest, rfl, hkept, hannotates, hends, hrest⟩ :=
          body_cons_of_plain hbody hcomment hchange hkind
        have hkind' : u.kind ≠ .exportStatement := by rwa [(look_of_kept hkept).1]
        obtain ⟨x, xs, hrev, hx, hnamed, hends⟩ := exists_last_of_annotates hannotates hends
        refine calm_cons (fun _ => Or.inr (quiet_of_annotates hc hannotates hkind')) ?_
          (calm_append (inert_of_annotates hannotates) ?_)
        · exact hagain t ht t t.mem_preorder_self hp (hp.statement hJ hsplit (Or.inr hkind)) hkept
        · refine ih hsplit' (Or.inl ?_) hrest
          rw [hrev]
          exact hp.tracks_of_text hJ hcontainer hsplit hchange hx hnamed hends

/-- **What is there again settles.** -/
theorem Produced.settlesAgain (h : o.Produced root) (hc : c.source = o.bytes) (t : Tree) :
    ∀ n ∈ t.preorder, o.SettlesAgain root c n := by
  induction t using Tree.induction with
  | node l cs ih =>
      intro n hn
      rw [Tree.preorder_node, List.mem_cons, List.mem_flatMap] at hn
      rcases hn with rfl | ⟨x, hx, hn⟩
      · intro mv J loose t' hp ht hkept
        by_cases hcontainer : l.kind.isContainer = true
        · exact (hp.calm_of_body h hc ht hcontainer ih rfl (Or.inl .nil)
            (body_of_kept hkept hcontainer)).settled
        · rw [Bool.not_eq_true] at hcontainer
          refine settled_of_children ?_ (hp.settled_of_each ht hcontainer
            (fun x hx => ih x hx x x.mem_preorder_self) (each_of_kept hkept hcontainer))
          rw [(look_of_kept hkept).1]
          exact hcontainer
      · exact ih x hx n hn

/-- All statements of the tree of an output settle. -/
theorem Produced.settled_of_rereads (h : o.Produced root) (hc : c.source = o.bytes) {root' : Tree}
    (hrereads : o.rereads root root' = true) : o.Settled root c root' := by
  simp only [rereads, Bool.and_eq_true, decide_eq_true_eq] at hrereads
  obtain ⟨⟨hkind, -⟩, hbody⟩ := hrereads
  have henclosed : o.Encloses root := by
    intro e he
    obtain ⟨s, hs, ch, hmakes, hch⟩ := h.edits e he
    exact Or.inr (Or.inr ⟨s, hs, ch, hmakes, hch⟩)
  refine (h.placement.calm_of_body h hc ⟨root.mem_preorder_self, henclosed⟩ (by rw [hkind]; rfl) ?_
    rfl (Or.inl .nil) hbody).settled
  exact fun x _ => h.settlesAgain hc x

end Output

/-! ## Two passes -/

namespace Pass

/-- A pass makes no changes exactly when it leaves every statement alone. -/
theorem changes_eq_ok_nil_iff {c : Context} {taken : List String} {ss : List Site} :
    (changes c taken ss).result = .ok [] ↔ ∀ s ∈ ss, s.quiet c = true := by
  induction ss generalizing taken with
  | nil => exact iff_of_true rfl (List.forall_mem_nil _)
  | cons s ss ih =>
      rw [changes, List.forall_mem_cons, Logged.result_bind_eq_ok_iff, Site.quiet_iff_visit taken]
      constructor
      · rintro ⟨⟨taken', change?⟩, hvisit, hrest⟩
        obtain ⟨rest, hrest', hnil⟩ := Logged.result_bind_return_eq_ok_iff.1 hrest
        obtain ⟨hnone, rfl⟩ := List.append_eq_nil_iff.1 hnil
        rw [Option.toList_eq_nil_iff] at hnone
        subst hnone
        exact ⟨⟨taken', hvisit⟩, ih.1 hrest'⟩
      · rintro ⟨⟨taken', hvisit⟩, hrest⟩
        exact ⟨(taken', none), hvisit,
          Logged.result_bind_return_eq_ok_iff.2 ⟨[], ih.2 hrest, rfl⟩⟩

end Pass

namespace Output

/-- The output of a pass over a tree. -/
def ofPass (c : Context) (root : Tree) (bytes : Bytes) : Output :=
  ⟨c, match (Pass.run c root).result with
      | .ok chs => Pass.edits chs
      | .error _ => [], bytes⟩

variable {c : Context} {root : Tree} {chs : List Change} {out : Bytes}

theorem edits_ofPass (out : Bytes) (hrun : (Pass.run c root).result = .ok chs) :
    (ofPass c root out).edits = Pass.edits chs := by
  rw [ofPass, hrun]

/-- A statement that is left alone is not changed. -/
theorem change_eq_none_of_quiet {o : Output} {s : Site} (h : s.quiet o.context = true) :
    o.change? s = none := by
  obtain ⟨taken, hvisit⟩ := (Site.quiet_iff_visit []).1 h
  rw [change?, hvisit]
  split_ifs
  · rfl
  · rfl

/-- The statements that a run changed, with their changes, make the edits of its output. -/
theorem makes_of_changed (hrun : (Pass.run c root).result = .ok chs) {s : Site} {ch : Change}
    (hmem : (s, ch) ∈ Pass.changed
      (Pass.visits c (root.identifiers c.source) (Site.allStatements root))) :
    s ∈ Site.allStatements root ∧ (ofPass c root out).Makes s ch := by
  obtain ⟨hs, before, after, hvisit⟩ := Pass.exists_visit_of_mem (Pass.mem_changed.1 hmem)
  refine ⟨hs, ⟨before, after, hvisit⟩, fun e he => ?_⟩
  rw [edits_ofPass out hrun, ← (Pass.visits_of_changes hrun).1]
  exact List.mem_flatMap.2 ⟨ch, List.mem_map.2 ⟨(s, ch), hmem, rfl⟩, he⟩

/-- A run has changed a statement or left it alone. -/
theorem makes_or_quiet_of_run (out : Bytes) (hrun : (Pass.run c root).result = .ok chs) {s : Site}
    (hs : s ∈ Site.allStatements root) :
    (∃ ch, (ofPass c root out).Makes s ch) ∨ s.quiet c = true := by
  rw [← (Pass.visits_of_changes hrun).2] at hs
  obtain ⟨⟨s, change?⟩, hmem, rfl⟩ := List.mem_map.1 hs
  obtain ⟨-, before, after, hvisit⟩ := Pass.exists_visit_of_mem hmem
  cases change? with
  | some ch => exact Or.inl ⟨ch, (makes_of_changed hrun (Pass.mem_changed.2 hmem)).2⟩
  | none => exact Or.inr ((Site.quiet_iff_visit before).2 ⟨after, hvisit⟩)

/-- A run over a well-formed tree whose edits were applied produces its output. -/
theorem produced_of_run (htext : ∃ cs, c.source = Utf8.encodeChars cs)
    (hwf : root.WellFormed c.source)
    (hlexical : ∀ n ∈ root.preorder, n.Lexical c.source) (hrun : (Pass.run c root).result = .ok chs)
    (happly : Edit.apply c.source (Pass.edits chs) = .ok out) :
    (ofPass c root out).Produced root := by
  have hedits := edits_ofPass out hrun
  have hrange : ∀ e ∈ Pass.edits chs, e.InRange c.source.length := fun e he =>
    Pass.inRange_of_mem_edits hwf hrun he
  obtain ⟨hchained, -, hout⟩ := (Edit.apply_eq_ok_iff hrange out).1 happly
  refine ⟨htext, hwf, hlexical, ⟨?_, ?_, ?_⟩, ?_, ?_, ?_⟩
  · rw [hedits]
    exact hrange
  · rw [hedits]
    exact hchained
  · rw [hedits]
    exact hout
  · intro e he
    rw [hedits, ← (Pass.visits_of_changes hrun).1] at he
    obtain ⟨ch, hch, he⟩ := List.mem_flatMap.1 he
    obtain ⟨⟨s, ch⟩, hmem, rfl⟩ := List.mem_map.1 hch
    obtain ⟨hs, hmade⟩ := makes_of_changed hrun hmem
    exact ⟨s, hs, ch, hmade, he⟩
  · intro s hs hchange
    rcases makes_or_quiet_of_run out hrun hs with hmade | hquiet
    · exact hmade
    · exact absurd (change_eq_none_of_quiet (o := ofPass c root out) hquiet) hchange
  · intro s hs hchange
    rcases makes_or_quiet_of_run out hrun hs with ⟨ch, hmade⟩ | hquiet
    · exact absurd hchange (hmade.change_ne_none (Site.isStatement_of_mem hs))
    · exact hquiet

end Output

namespace Transform

variable {host : Host} {r : Registry} {s : TransformSettings}
  {source language file : String} {root : Tree}

/-- A transform changes nothing exactly when its pass leaves every statement alone. -/
theorem text_eq_ok_self_iff
    (hroot : tree host r (Utf8.encodeString source) language file = .ok root) :
    (text host r s source language file).result = .ok ⟨source, source, language, file, []⟩ ↔
      ∀ st ∈ Site.allStatements root, st.quiet (context host.depth s source) = true := by
  rw [text_eq_ok_iff]
  constructor
  · rintro ⟨root₁, chs, out, cs, hroot₁, hrun, -, -, ho⟩
    rw [hroot] at hroot₁
    cases hroot₁
    have hnil : Pass.records chs = [] := (congrArg Outcome.records ho).symm
    have hlength := (perm_records chs).length_eq
    rw [hnil, List.length_map] at hlength
    rw [List.eq_nil_of_length_eq_zero hlength.symm] at hrun
    exact Pass.changes_eq_ok_nil_iff.1 hrun
  · intro hquiet
    have hrun : (Pass.run (context host.depth s source) root).result = .ok [] :=
      Pass.changes_eq_ok_nil_iff.2 hquiet
    have happly : Edit.apply (Utf8.encodeString source) (Pass.edits []) =
        .ok (Utf8.encodeChars source.toList) := by
      refine (Edit.apply_eq_ok_iff (List.forall_mem_nil _) _).2 ⟨?_, List.forall_mem_nil _, ?_⟩
      · simp [Edit.ordered, Edit.Chained]
      · simp [Edit.ordered, Edit.splice, Utf8.encodeString_eq]
    refine ⟨root, [], _, source.toList, hroot, hrun, happly, Utf8.decode_encodeChars _, ?_⟩
    simp [Pass.records, String.ofList_toList]

/-- The statements of the output of a transform settle. -/
theorem settles_of_text {o : Outcome} {root' : Tree}
    (htext : (text host r s source language file).result = .ok o)
    (hroot : tree host r (Utf8.encodeString source) language file = .ok root)
    (hwf : root.WellFormed (Utf8.encodeString source))
    (hlexical : ∀ n ∈ root.preorder, n.Lexical (Utf8.encodeString source))
    (hrereads : (Output.ofPass (context host.depth s source) root
      (Utf8.encodeString o.output)).rereads root root' = true) :
    (Output.ofPass (context host.depth s source) root (Utf8.encodeString o.output)).Settled root
      (context host.depth s o.output) root' := by
  obtain ⟨root₁, chs, out, cs, hroot₁, hrun, happly, hcs, rfl⟩ := text_eq_ok_iff.1 htext
  rw [hroot] at hroot₁
  cases hroot₁
  have hout : Utf8.encodeString (String.ofList cs) = out := by
    rw [Utf8.encodeString_eq, String.toList_ofList, ← (Utf8.decode_eq_ok_iff out cs).1 hcs]
  dsimp only at hrereads ⊢
  rw [hout] at hrereads ⊢
  exact (Output.produced_of_run ⟨source.toList, rfl⟩ hwf hlexical hrun happly).settled_of_rereads
    hout hrereads

/-- **A transform of the output of a transform.**  It changes nothing exactly when it leaves those
statements alone in front of which the first one displaced a comment; so it changes nothing if the
first one displaced none. -/
theorem rerun_eq_ok_iff (host : Host) (r : Registry) (s : TransformSettings)
    (source language file : String) {o : Outcome} {root root' : Tree}
    (htext : (text host r s source language file).result = .ok o)
    (hroot : tree host r (Utf8.encodeString source) language file = .ok root)
    (hwf : root.WellFormed (Utf8.encodeString source))
    (hlexical : ∀ n ∈ root.preorder, n.Lexical (Utf8.encodeString source))
    (hroot' : tree host r (Utf8.encodeString o.output) language file = .ok root')
    (hrereads : (Output.ofPass (context host.depth s source) root
      (Utf8.encodeString o.output)).rereads root root' = true) :
    ((text host r s o.output language file).result = .ok ⟨o.output, o.output, language, file, []⟩ ↔
      ∀ st ∈ Site.allStatements root',
        (Output.ofPass (context host.depth s source) root (Utf8.encodeString o.output)).exposes root
            st.before = true →
          st.quiet (context host.depth s o.output) = true) ∧
    ((∀ st ∈ Site.allStatements root, st.node.kind = .exportStatement → st.node.displaced = []) →
      (text host r s o.output language file).result =
        .ok ⟨o.output, o.output, language, file, []⟩) := by
  have hiff : (text host r s o.output language file).result =
        .ok ⟨o.output, o.output, language, file, []⟩ ↔
      ∀ st ∈ Site.allStatements root',
        (Output.ofPass (context host.depth s source) root (Utf8.encodeString o.output)).exposes root
            st.before = true →
          st.quiet (context host.depth s o.output) = true := by
    rw [text_eq_ok_self_iff hroot']
    refine ⟨fun h st hst _ => h st hst, fun h st hst => ?_⟩
    rcases settles_of_text htext hroot hwf hlexical hrereads st hst with hexposed | hquiet
    · exact h st hst hexposed
    · exact hquiet
  refine ⟨hiff, fun hnone => hiff.2 fun st hst hexposed => ?_⟩
  rw [Output.exposes_eq_false hnone] at hexposed
  cases hexposed

/-! ## Two samples -/

/-- A host that reads two texts, of which one is known. -/
def readTwo (bytes : Bytes) (t t' : Tree) : Host :=
  .common fun _ source => if source = bytes then t else t'

theorem tree_readTwo_left {bytes : Bytes} {t : Tree} (t' : Tree) {source : String}
    (hsource : Utf8.encodeString source = bytes) (herror : t.firstError?.isNone = true) :
    tree (readTwo bytes t t') oneGrammar (Utf8.encodeString source) "javascript" "a.js" =
      .ok t := by
  simp only [tree, grammar_javascript, readTwo, Host.tree_common, hsource, if_true,
    Option.isNone_iff_eq_none.1 herror]

theorem tree_readTwo_right {bytes : Bytes} (t : Tree) {t' : Tree} {source : String}
    (hsource : Utf8.encodeString source ≠ bytes) (herror : t'.firstError?.isNone = true) :
    tree (readTwo bytes t t') oneGrammar (Utf8.encodeString source) "javascript" "a.js" =
      .ok t' := by
  simp only [tree, grammar_javascript, readTwo, Host.tree_common, if_neg hsource,
    Option.isNone_iff_eq_none.1 herror]

/-- The output for `nestedSource`. -/
def nestedOutput : String :=
  "/** @injectable */\nconst f = function f() \x7b\n  /** @injectable */\n  class A \x7b\x7d\n" ++
    "  A.injectable = true;\n  A.injectNewInstance = true;\n\x7d;\nf.injectable = true;\nexport default f;"

/-- The encoding of `nestedOutput`. -/
def nestedOutputBytes : Bytes :=
  [47, 42, 42, 32, 64, 105, 110, 106, 101, 99, 116, 97, 98, 108, 101, 32, 42, 47, 10, 99, 111,
    110, 115, 116, 32, 102, 32, 61, 32, 102, 117, 110, 99, 116, 105, 111, 110, 32, 102, 40, 41,
    32, 123, 10, 32, 32, 47, 42, 42, 32, 64, 105, 110, 106, 101, 99, 116, 97, 98, 108, 101, 32,
    42, 47, 10, 32, 32, 99, 108, 97, 115, 115, 32, 65, 32, 123, 125, 10, 32, 32, 65, 46, 105,
    110, 106, 101, 99, 116, 97, 98, 108, 101, 32, 61, 32, 116, 114, 117, 101, 59, 10, 32, 32,
    65, 46, 105, 110, 106, 101, 99, 116, 78, 101, 119, 73, 110, 115, 116, 97, 110, 99, 101, 32,
    61, 32, 116, 114, 117, 101, 59, 10, 125, 59, 10, 102, 46, 105, 110, 106, 101, 99, 116, 97,
    98, 108, 101, 32, 61, 32, 116, 114, 117, 101, 59, 10, 101, 120, 112, 111, 114, 116, 32,
    100, 101, 102, 97, 117, 108, 116, 32, 102, 59]

/-- The tree of `nestedOutput`. -/
def nestedOutputTree : Tree :=
  .node ⟨.program, true, false, 0, 172, 0, 8, none, 0⟩ [
    .node ⟨.comment, true, false, 0, 18, 0, 0, none, 1⟩ [],
    .node ⟨.lexicalDeclaration, true, false, 19, 133, 1, 6, none, 2⟩ [
      .node ⟨.other "const", false, false, 19, 24, 1, 1, some "kind", 3⟩ [],
      .node ⟨.variableDeclarator, true, false, 25, 132, 1, 6, none, 4⟩ [
        .node ⟨.identifier, true, false, 25, 26, 1, 1, some "name", 5⟩ [],
        .node ⟨.other "=", false, false, 27, 28, 1, 1, none, 6⟩ [],
        .node ⟨.functionExpression, true, false, 29, 132, 1, 6, some "value", 7⟩ [
          .node ⟨.function, false, false, 29, 37, 1, 1, none, 8⟩ [],
          .node ⟨.identifier, true, false, 38, 39, 1, 1, some "name", 9⟩ [],
          .node ⟨.formalParameters, true, false, 39, 41, 1, 1, some "parameters", 10⟩ [
            .node ⟨.other "(", false, false, 39, 40, 1, 1, none, 11⟩ [],
            .node ⟨.other ")", false, false, 40, 41, 1, 1, none, 12⟩ []],
          .node ⟨.statementBlock, true, false, 42, 132, 1, 6, some "body", 13⟩ [
            .node ⟨.other "\x7b", false, false, 42, 43, 1, 1, none, 14⟩ [],
            .node ⟨.comment, true, false, 46, 64, 2, 2, none, 15⟩ [],
            .node ⟨.classDeclaration, true, false, 67, 77, 3, 3, none, 16⟩ [
              .node ⟨.classExpression, false, false, 67, 72, 3, 3, none, 17⟩ [],
              .node ⟨.identifier, true, false, 73, 74, 3, 3, some "name", 18⟩ [],
              .node ⟨.other "class_body", true, false, 75, 77, 3, 3, some "body", 19⟩ [
                .node ⟨.other "\x7b", false, false, 75, 76, 3, 3, none, 20⟩ [],
                .node ⟨.other "\x7d", false, false, 76, 77, 3, 3, none, 21⟩ []]],
            .node ⟨.expressionStatement, true, false, 80, 100, 4, 4, none, 22⟩ [
              .node ⟨.assignmentExpression, true, false, 80, 99, 4, 4, none, 23⟩ [
                .node ⟨.memberExpression, true, false, 80, 92, 4, 4, some "left", 24⟩ [
                  .node ⟨.identifier, true, false, 80, 81, 4, 4, some "object", 25⟩ [],
                  .node ⟨.other ".", false, false, 81, 82, 4, 4, none, 26⟩ [],
                  .node ⟨.propertyIdentifier, true, false, 82, 92, 4, 4, some "property", 27⟩ []],
                .node ⟨.other "=", false, false, 93, 94, 4, 4, none, 28⟩ [],
                .node ⟨.other "true", true, false, 95, 99, 4, 4, some "right", 29⟩ []],
              .node ⟨.semicolon, false, false, 99, 100, 4, 4, none, 30⟩ []],
            .node ⟨.expressionStatement, true, false, 103, 130, 5, 5, none, 31⟩ [
              .node ⟨.assignmentExpression, true, false, 103, 129, 5, 5, none, 32⟩ [
                .node ⟨.memberExpression, true, false, 103, 122, 5, 5, some "left", 33⟩ [
                  .node ⟨.identifier, true, false, 103, 104, 5, 5, some "object", 34⟩ [],
                  .node ⟨.other ".", false, false, 104, 105, 5, 5, none, 35⟩ [],
                  .node ⟨.propertyIdentifier, true, false, 105, 122, 5, 5, some "property", 36⟩ []],
                .node ⟨.other "=", false, false, 123, 124, 5, 5, none, 37⟩ [],
                .node ⟨.other "true", true, false, 125, 129, 5, 5, some "right", 38⟩ []],
              .node ⟨.semicolon, false, false, 129, 130, 5, 5, none, 39⟩ []],
            .node ⟨.other "\x7d", false, false, 131, 132, 6, 6, none, 40⟩ []]]],
      .node ⟨.semicolon, false, false, 132, 133, 6, 6, none, 41⟩ []],
    .node ⟨.expressionStatement, true, false, 134, 154, 7, 7, none, 42⟩ [
      .node ⟨.assignmentExpression, true, false, 134, 153, 7, 7, none, 43⟩ [
        .node ⟨.memberExpression, true, false, 134, 146, 7, 7, some "left", 44⟩ [
          .node ⟨.identifier, true, false, 134, 135, 7, 7, some "object", 45⟩ [],
          .node ⟨.other ".", false, false, 135, 136, 7, 7, none, 46⟩ [],
          .node ⟨.propertyIdentifier, true, false, 136, 146, 7, 7, some "property", 47⟩ []],
        .node ⟨.other "=", false, false, 147, 148, 7, 7, none, 48⟩ [],
        .node ⟨.other "true", true, false, 149, 153, 7, 7, some "right", 49⟩ []],
      .node ⟨.semicolon, false, false, 153, 154, 7, 7, none, 50⟩ []],
    .node ⟨.exportStatement, true, false, 155, 172, 8, 8, none, 51⟩ [
      .node ⟨.exportKeyword, false, false, 155, 161, 8, 8, none, 52⟩ [],
      .node ⟨.defaultKeyword, false, false, 162, 169, 8, 8, none, 53⟩ [],
      .node ⟨.identifier, true, false, 170, 171, 8, 8, some "value", 54⟩ [],
      .node ⟨.semicolon, false, false, 171, 172, 8, 8, none, 55⟩ []]]

theorem encodeString_nestedOutput : Utf8.encodeString nestedOutput = nestedOutputBytes :=
  (Utf8.encodeString_append (Utf8.encodeString_ofList _) (Utf8.encodeString_ofList _)).trans
    (by decide +kernel)

theorem rerun_of_nested :
    ∃ o, (text (readTwo Pass.nestedBytes Pass.nestedTree nestedOutputTree) oneGrammar .default
        Pass.nestedSource "javascript" "a.js").result = .ok o ∧
      o.records.length = 2 ∧
      (text (readTwo Pass.nestedBytes Pass.nestedTree nestedOutputTree) oneGrammar .default o.output
          "javascript" "a.js").result =
        .ok ⟨o.output, o.output, "javascript", "a.js", []⟩ := by
  have hroot := tree_readTwo_left (t := Pass.nestedTree) nestedOutputTree
    Pass.encodeString_nestedSource (by decide +kernel)
  have hne : Utf8.encodeString nestedOutput ≠ Pass.nestedBytes := by
    rw [encodeString_nestedOutput]
    decide +kernel
  have herror : nestedOutputTree.firstError?.isNone = true := by decide +kernel
  have hroot' := tree_readTwo_right Pass.nestedTree hne herror
  have hwf : Pass.nestedTree.WellFormed (Utf8.encodeString Pass.nestedSource) := by
    rw [Pass.encodeString_nestedSource]
    decide +kernel
  have hlexical : ∀ n ∈ Pass.nestedTree.preorder,
      n.Lexical (Utf8.encodeString Pass.nestedSource) := by
    rw [Pass.encodeString_nestedSource]
    decide +kernel
  have hrereads : (Output.ofPass (context 980 .default Pass.nestedSource) Pass.nestedTree
      (Utf8.encodeString nestedOutput)).rereads Pass.nestedTree nestedOutputTree = true := by
    have hcontext : context 980 .default Pass.nestedSource =
      ⟨Pass.nestedBytes, .warn, "uid", 980⟩ := by
      rw [context, Pass.encodeString_nestedSource]
      rfl
    rw [hcontext, encodeString_nestedOutput]
    decide +kernel
  have hcheck : (Pass.run ⟨Pass.nestedBytes, .warn, "uid", 980⟩ Pass.nestedTree).result.toOption.any
      (yields Pass.nestedBytes nestedOutputBytes) = true := by
    decide +kernel
  have htwo : (Pass.run ⟨Pass.nestedBytes, .warn, "uid", 980⟩ Pass.nestedTree).result.toOption.any
      (·.length = 2) = true := by
    decide +kernel
  rw [← Pass.encodeString_nestedSource] at htwo
  rw [← Pass.encodeString_nestedSource, ← encodeString_nestedOutput] at hcheck
  obtain ⟨chs, hrun, htext⟩ := exists_text_of_yields (s := .default) hroot hwf (by decide +kernel)
    hcheck
  obtain ⟨chs', hrun', hlength⟩ := exists_of_toOption_any htwo
  obtain rfl : chs = chs' := Except.ok.inj (hrun.symm.trans hrun')
  refine ⟨_, htext, ?_, ?_⟩
  · rw [(perm_records chs).length_eq, List.length_map]
    exact of_decide_eq_true hlength
  · exact (rerun_eq_ok_iff _ oneGrammar .default Pass.nestedSource "javascript" "a.js" htext
      hroot hwf hlexical hroot' hrereads).2 (by decide +kernel)

/-- A default export that ends with comments, and a function behind it. -/
def displacedSource : String :=
  "/** @injectable */\nexport default () => 1 /* a */ // @injectable\nfunction g() \x7b\x7d"

/-- The encoding of `displacedSource`. -/
def displacedBytes : Bytes :=
  [47, 42, 42, 32, 64, 105, 110, 106, 101, 99, 116, 97, 98, 108, 101, 32, 42, 47, 10, 101, 120,
    112, 111, 114, 116, 32, 100, 101, 102, 97, 117, 108, 116, 32, 40, 41, 32, 61, 62, 32, 49,
    32, 47, 42, 32, 97, 32, 42, 47, 32, 47, 47, 32, 64, 105, 110, 106, 101, 99, 116, 97, 98,
    108, 101, 10, 102, 117, 110, 99, 116, 105, 111, 110, 32, 103, 40, 41, 32, 123, 125]

/-- The tree of `displacedSource`. -/
def displacedTree : Tree :=
  .node ⟨.program, true, false, 0, 80, 0, 2, none, 0⟩ [
    .node ⟨.comment, true, false, 0, 18, 0, 0, none, 1⟩ [],
    .node ⟨.exportStatement, true, false, 19, 64, 1, 1, none, 2⟩ [
      .node ⟨.exportKeyword, false, false, 19, 25, 1, 1, none, 3⟩ [],
      .node ⟨.defaultKeyword, false, false, 26, 33, 1, 1, none, 4⟩ [],
      .node ⟨.arrowFunction, true, false, 34, 41, 1, 1, some "value", 5⟩ [
        .node ⟨.formalParameters, true, false, 34, 36, 1, 1, some "parameters", 6⟩ [
          .node ⟨.other "(", false, false, 34, 35, 1, 1, none, 7⟩ [],
          .node ⟨.other ")", false, false, 35, 36, 1, 1, none, 8⟩ []],
        .node ⟨.other "=>", false, false, 37, 39, 1, 1, none, 9⟩ [],
        .node ⟨.other "number", true, false, 40, 41, 1, 1, some "body", 10⟩ []],
      .node ⟨.comment, true, false, 42, 49, 1, 1, none, 11⟩ [],
      .node ⟨.comment, true, false, 50, 64, 1, 1, none, 12⟩ []],
    .node ⟨.functionDeclaration, true, false, 65, 80, 2, 2, none, 13⟩ [
      .node ⟨.function, false, false, 65, 73, 2, 2, none, 14⟩ [],
      .node ⟨.identifier, true, false, 74, 75, 2, 2, some "name", 15⟩ [],
      .node ⟨.formalParameters, true, false, 75, 77, 2, 2, some "parameters", 16⟩ [
        .node ⟨.other "(", false, false, 75, 76, 2, 2, none, 17⟩ [],
        .node ⟨.other ")", false, false, 76, 77, 2, 2, none, 18⟩ []],
      .node ⟨.statementBlock, true, false, 78, 80, 2, 2, some "body", 19⟩ [
        .node ⟨.other "\x7b", false, false, 78, 79, 2, 2, none, 20⟩ [],
        .node ⟨.other "\x7d", false, false, 79, 80, 2, 2, none, 21⟩ []]]]

/-- The output for `displacedSource`. -/
def displacedOutput : String :=
  "/** @injectable */\nconst _uid = () => 1;\n_uid.injectable = true;\n" ++
    "export default _uid; /* a */ // @injectable\nfunction g() \x7b\x7d"

/-- The encoding of `displacedOutput`. -/
def displacedOutputBytes : Bytes :=
  [47, 42, 42, 32, 64, 105, 110, 106, 101, 99, 116, 97, 98, 108, 101, 32, 42, 47, 10, 99, 111,
    110, 115, 116, 32, 95, 117, 105, 100, 32, 61, 32, 40, 41, 32, 61, 62, 32, 49, 59, 10, 95,
    117, 105, 100, 46, 105, 110, 106, 101, 99, 116, 97, 98, 108, 101, 32, 61, 32, 116, 114,
    117, 101, 59, 10, 101, 120, 112, 111, 114, 116, 32, 100, 101, 102, 97, 117, 108, 116, 32,
    95, 117, 105, 100, 59, 32, 47, 42, 32, 97, 32, 42, 47, 32, 47, 47, 32, 64, 105, 110, 106,
    101, 99, 116, 97, 98, 108, 101, 10, 102, 117, 110, 99, 116, 105, 111, 110, 32, 103, 40, 41,
    32, 123, 125]

/-- The tree of `displacedOutput`. -/
def displacedOutputTree : Tree :=
  .node ⟨.program, true, false, 0, 124, 0, 4, none, 0⟩ [
    .node ⟨.comment, true, false, 0, 18, 0, 0, none, 1⟩ [],
    .node ⟨.lexicalDeclaration, true, false, 19, 40, 1, 1, none, 2⟩ [
      .node ⟨.other "const", false, false, 19, 24, 1, 1, some "kind", 3⟩ [],
      .node ⟨.variableDeclarator, true, false, 25, 39, 1, 1, none, 4⟩ [
        .node ⟨.identifier, true, false, 25, 29, 1, 1, some "name", 5⟩ [],
        .node ⟨.other "=", false, false, 30, 31, 1, 1, none, 6⟩ [],
        .node ⟨.arrowFunction, true, false, 32, 39, 1, 1, some "value", 7⟩ [
          .node ⟨.formalParameters, true, false, 32, 34, 1, 1, some "parameters", 8⟩ [
            .node ⟨.other "(", false, false, 32, 33, 1, 1, none, 9⟩ [],
            .node ⟨.other ")", false, false, 33, 34, 1, 1, none, 10⟩ []],
          .node ⟨.other "=>", false, false, 35, 37, 1, 1, none, 11⟩ [],
          .node ⟨.other "number", true, false, 38, 39, 1, 1, some "body", 12⟩ []]],
      .node ⟨.semicolon, false, false, 39, 40, 1, 1, none, 13⟩ []],
    .node ⟨.expressionStatement, true, false, 41, 64, 2, 2, none, 14⟩ [
      .node ⟨.assignmentExpression, true, false, 41, 63, 2, 2, none, 15⟩ [
        .node ⟨.memberExpression, true, false, 41, 56, 2, 2, some "left", 16⟩ [
          .node ⟨.identifier, true, false, 41, 45, 2, 2, some "object", 17⟩ [],
          .node ⟨.other ".", false, false, 45, 46, 2, 2, none, 18⟩ [],
          .node ⟨.propertyIdentifier, true, false, 46, 56, 2, 2, some "property", 19⟩ []],
        .node ⟨.other "=", false, false, 57, 58, 2, 2, none, 20⟩ [],
        .node ⟨.other "true", true, false, 59, 63, 2, 2, some "right", 21⟩ []],
      .node ⟨.semicolon, false, false, 63, 64, 2, 2, none, 22⟩ []],
    .node ⟨.exportStatement, true, false, 65, 85, 3, 3, none, 23⟩ [
      .node ⟨.exportKeyword, false, false, 65, 71, 3, 3, none, 24⟩ [],
      .node ⟨.defaultKeyword, false, false, 72, 79, 3, 3, none, 25⟩ [],
      .node ⟨.identifier, true, false, 80, 84, 3, 3, some "value", 26⟩ [],
      .node ⟨.semicolon, false, false, 84, 85, 3, 3, none, 27⟩ []],
    .node ⟨.comment, true, false, 86, 93, 3, 3, none, 28⟩ [],
    .node ⟨.comment, true, false, 94, 108, 3, 3, none, 29⟩ [],
    .node ⟨.functionDeclaration, true, false, 109, 124, 4, 4, none, 30⟩ [
      .node ⟨.function, false, false, 109, 117, 4, 4, none, 31⟩ [],
      .node ⟨.identifier, true, false, 118, 119, 4, 4, some "name", 32⟩ [],
      .node ⟨.formalParameters, true, false, 119, 121, 4, 4, some "parameters", 33⟩ [
        .node ⟨.other "(", false, false, 119, 120, 4, 4, none, 34⟩ [],
        .node ⟨.other ")", false, false, 120, 121, 4, 4, none, 35⟩ []],
      .node ⟨.statementBlock, true, false, 122, 124, 4, 4, some "body", 36⟩ [
        .node ⟨.other "\x7b", false, false, 122, 123, 4, 4, none, 37⟩ [],
        .node ⟨.other "\x7d", false, false, 123, 124, 4, 4, none, 38⟩ []]]]

theorem encodeString_displacedSource :
    Utf8.encodeString displacedSource = displacedBytes :=
  (Utf8.encodeString_ofList _).trans rfl

theorem encodeString_displacedOutput :
    Utf8.encodeString displacedOutput = displacedOutputBytes :=
  (Utf8.encodeString_append (Utf8.encodeString_ofList _) (Utf8.encodeString_ofList _)).trans
    rfl

/-- The comment displaced marks the function behind it. -/
theorem rerun_ne_of_displaced :
    ∃ o, (text (readTwo displacedBytes displacedTree displacedOutputTree) oneGrammar .default
        displacedSource "javascript" "a.js").result = .ok o ∧
      displacedTree.WellFormed (Utf8.encodeString displacedSource) ∧
      (∀ n ∈ displacedTree.preorder, n.Lexical (Utf8.encodeString displacedSource)) ∧
      (Output.ofPass (context 980 .default displacedSource) displacedTree
        (Utf8.encodeString o.output)).rereads displacedTree displacedOutputTree = true ∧
      (text (readTwo displacedBytes displacedTree displacedOutputTree) oneGrammar .default o.output
          "javascript" "a.js").result ≠
        .ok ⟨o.output, o.output, "javascript", "a.js", []⟩ := by
  have hroot := tree_readTwo_left (t := displacedTree) displacedOutputTree
    encodeString_displacedSource (by decide +kernel)
  have hne : Utf8.encodeString displacedOutput ≠ displacedBytes := by
    rw [encodeString_displacedOutput]
    decide +kernel
  have herror : displacedOutputTree.firstError?.isNone = true := by decide +kernel
  have hroot' := tree_readTwo_right displacedTree hne herror
  have hwf : displacedTree.WellFormed (Utf8.encodeString displacedSource) := by
    rw [encodeString_displacedSource]
    decide +kernel
  have hlexical : ∀ n ∈ displacedTree.preorder,
      n.Lexical (Utf8.encodeString displacedSource) := by
    rw [encodeString_displacedSource]
    decide +kernel
  have hcontext : context 980 .default displacedSource = ⟨displacedBytes, .warn, "uid", 980⟩ := by
    rw [context, encodeString_displacedSource]
    rfl
  have hrereads : (Output.ofPass (context 980 .default displacedSource) displacedTree
      (Utf8.encodeString displacedOutput)).rereads displacedTree displacedOutputTree = true := by
    rw [hcontext, encodeString_displacedOutput]
    decide +kernel
  have hcheck : (Pass.run ⟨displacedBytes, .warn, "uid", 980⟩ displacedTree).result.toOption.any
      (yields displacedBytes displacedOutputBytes) = true := by
    decide +kernel
  have hloud : ¬ ∀ st ∈ Site.allStatements displacedOutputTree,
      st.quiet (context 980 .default displacedOutput) = true := by
    rw [context, encodeString_displacedOutput]
    decide +kernel
  rw [← encodeString_displacedSource, ← encodeString_displacedOutput] at hcheck
  obtain ⟨chs, -, htext⟩ := exists_text_of_yields (s := .default) hroot hwf (by decide +kernel)
    hcheck
  have hrerun := text_eq_ok_self_iff (s := .default) hroot'
  exact ⟨_, htext, hwf, hlexical, hrereads, fun h => hloud (hrerun.1 h)⟩

end Transform
end Injection
