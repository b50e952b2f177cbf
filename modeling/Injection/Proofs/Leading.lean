import Injection.Proofs.InjectableScan
import Injection.Proofs.Placement

/-!
# What leads a statement, when it is there again

A statement is marked by the first comment of the run in front of it, and left alone when it is
annotated.  Both depend on texts and rows.

* `chars_of_kept`: a node without changes inside has its text again.
* `Produced.untouched_of_text`: a text without the sign that starts a directive has no changes
  inside.
* `Tracks`: the siblings in front of a statement, and those in front of it when it is there again.
  As long as they track each other, the leading comments have the same text
  (`exists_marked_of_tracks`).
* `idle_of_kept`: a statement that is left alone is left alone again.
-/

namespace Injection

/-! ## Signs of a directive -/

theorem Comment.mem_of_mem_value {cs : List Char} {c : Char} (h : c ∈ Comment.value cs) :
    c ∈ cs := by
  unfold value at h
  split at h
  · unfold dropClosing at h
    split at h
    · exact List.mem_cons_of_mem _ (List.mem_cons_of_mem _ (List.mem_of_mem_take h))
    · exact List.mem_cons_of_mem _ (List.mem_cons_of_mem _ h)
  · exact List.mem_cons_of_mem _ (List.mem_cons_of_mem _ h)
  · exact h

theorem Injectable.at_mem_of_scan {cs : List Char} {d : Injectable} (h : scan cs = some d) :
    '@' ∈ cs := by
  obtain ⟨i, hi⟩ := exists_standsAt_of_scan h
  have htoken : '@' ∈ token := by decide
  exact List.mem_of_mem_drop (hi.holds.mem htoken)

namespace Tree

/-- The characters of a node depend on its range only. -/
theorem chars_eq_of_within {source out : Bytes} {t t' : Tree}
    (h : Edit.within (t'.label.start, t'.label.stop) out =
      Edit.within (t.label.start, t.label.stop) source) : t'.chars out = t.chars source := by
  simp only [Edit.within] at h
  rw [chars, chars, h]

/-- The characters of a node of well-formed source, encoded. -/
theorem WellFormed.encodeChars_chars {source : List Char} {t : Tree}
    (h : t.WellFormed (Utf8.encodeChars source)) :
    Utf8.encodeChars (t.chars (Utf8.encodeChars source)) =
      Edit.within (t.label.start, t.label.stop) (Utf8.encodeChars source) := by
  obtain ⟨hstart, hstop⟩ := h.sound.boundaries
  obtain ⟨ms, hms⟩ := Utf8.exists_slice_eq_encodeChars hstart hstop h.sound.bounds
  rw [Edit.within, hms, chars, hms, Utf8.decode_encodeChars]

/-- The characters of a node of a tree are characters of the tree. -/
theorem WellFormed.mem_chars {source : List Char} {t n : Tree}
    (h : t.WellFormed (Utf8.encodeChars source)) (hn : n ∈ t.preorder) {c : Char}
    (hc : c ∈ n.chars (Utf8.encodeChars source)) : c ∈ t.chars (Utf8.encodeChars source) := by
  obtain ⟨hstart, hstop⟩ := h.inside_of_mem n hn
  have hbounds := (h n hn).bounds
  obtain ⟨hnstart, hnstop⟩ := (h n hn).boundaries
  obtain ⟨htstart, htstop⟩ := h.sound.boundaries
  obtain ⟨as, has⟩ := Utf8.exists_slice_eq_encodeChars htstart hnstart hstart
  obtain ⟨bs, hbs⟩ := Utf8.exists_slice_eq_encodeChars hnstop htstop hstop
  have hwhole : t.chars (Utf8.encodeChars source) =
      as ++ (n.chars (Utf8.encodeChars source) ++ bs) := by
    apply Utf8.encodeChars_injective
    rw [h.encodeChars_chars, Utf8.encodeChars_append, Utf8.encodeChars_append, ← has, ← hbs,
      (h.of_mem hn).encodeChars_chars, Edit.within_append hstart (hbounds.trans hstop),
      Edit.within_append hbounds hstop]
    rfl
  rw [hwhole]
  simp [hc]

end Tree

namespace Site

/-- The leading comment is one of the siblings in front. -/
theorem mem_of_firstOfRun {found : Option Tree} {l : List Tree} {c : Tree}
    (h : firstOfRun found l = some c) : found = some c ∨ c ∈ l := by
  induction l generalizing found with
  | nil => exact Or.inl h
  | cons x xs ih =>
      rw [firstOfRun] at h
      split at h
      · rcases ih h with hx | hmem
        · cases hx
          exact Or.inr List.mem_cons_self
        · exact Or.inr (List.mem_cons_of_mem x hmem)
      · exact Or.inl h

/-- What was found before matters only if nothing else is found. -/
theorem firstOfRun_eq_or (found : Option Tree) (l : List Tree) :
    firstOfRun found l = (firstOfRun none l).or found := by
  induction l generalizing found with
  | nil => cases found <;> rfl
  | cons x xs ih =>
      rw [firstOfRun, firstOfRun]
      split
      · rw [ih (some x)]
        cases firstOfRun none xs <;> rfl
      · cases found <;> rfl

/-- A marked statement has the sign of a directive in a comment among the siblings in front. -/
theorem exists_comment_of_marked {source : Bytes} {s : Site} {m : Marked}
    (h : s.marked? source = some m) : ∃ c ∈ s.before, '@' ∈ c.chars source := by
  unfold marked? at h
  split at h
  · cases h
  · next c hc =>
      obtain ⟨d, hscan, -⟩ := Option.map_eq_some_iff.1 h
      refine ⟨c, ?_, Comment.mem_of_mem_value (Injectable.at_mem_of_scan hscan)⟩
      rcases mem_of_firstOfRun hc with hnone | hmem
      · cases hnone
      · exact hmem

end Site

namespace Output

variable {o : Output} {root : Tree} {mv : Move} {J : Tree → Prop} {c : Context}

/-! ## Texts -/

/-- A node without the sign of a directive holds no statement that is changed. -/
theorem Produced.untouched_of_text (h : o.Produced root) {t : Tree} (ht : t ∈ root.preorder)
    (htext : '@' ∉ t.chars o.context.source) :
    ∀ s ∈ Site.allStatements t, o.change? s = none := by
  intro s hs
  by_contra hchange
  obtain ⟨ch, ⟨taken, taken', hvisit⟩, -⟩ :=
    h.changes s (Site.mem_allStatements_of_mem ht hs) hchange
  -- the comment that marks a statement stands in the same container, so in the node
  obtain ⟨m, hm, -⟩ := Pass.shape_of_visit hvisit
  obtain ⟨x, hx, hsign⟩ := Site.exists_comment_of_marked hm
  obtain ⟨y, hy, -, hsy⟩ := Site.mem_allStatements_iff.1 hs
  have hxy : x ∈ y.children := by
    rw [(Site.mem_statements_iff.1 hsy).1]
    exact List.mem_append_left _ (List.mem_reverse.2 hx)
  obtain ⟨cs, hcs⟩ := h.text
  have hwf := h.wellFormed.of_mem ht
  rw [hcs] at hwf hsign htext
  exact htext (hwf.mem_chars (Tree.mem_preorder_child hy hxy) hsign)

/-- A node without changes inside has its text again. -/
theorem Placement.chars_of_kept (hp : o.Placement root mv J) (h : o.Produced root) {t t' : Tree}
    (ht : J t) (hkind : t.kind ≠ .program) (hkept : o.kept mv false t t' = true)
    (huntouched : ∀ s ∈ Site.allStatements t, o.change? s = none) :
    t'.chars o.bytes = t.chars o.context.source := by
  apply Tree.chars_eq_of_within
  rw [(start_of_kept hkept).1, (stop_of_kept hkept).1]
  exact hp.text ht ((h.lexical t (hp.node ht)).nonempty hkind) huntouched

/-- A node that spells a name has its text again. -/
theorem Placement.text_of_identifier (hp : o.Placement root mv J) (h : o.Produced root)
    {t t' : Tree} (ht : J t) (hkind : t.kind.isIdentifier = true)
    (hkept : o.kept mv false t t' = true) : t'.text o.bytes = t.text o.context.source := by
  have hprogram : t.kind ≠ .program := by
    intro hprogram
    rw [hprogram] at hkind
    cases hkind
  have hsign := (h.lexical t (hp.node ht)).names hkind
  rw [Tree.text, Tree.text,
    hp.chars_of_kept h ht hprogram hkept (h.untouched_of_text (hp.node ht) hsign)]

/-! ## Leading comments -/

/-- The siblings in front of a place, and those that are there again: up to the first one that is no
comment, their texts agree, and whether they trail what is in front of them.  The last clause says
the same of a comment that may follow. -/
inductive Tracks (o : Output) (mv : Move) (container : Tree) : List Tree → List Tree → Prop where
  | nil : Tracks o mv container [] []
  | comment {x x' : Tree} {before before' : List Tree} (hx : x.kind = .comment)
      (hx' : x'.kind = .comment) (hchars : x'.chars o.bytes = x.chars o.context.source)
      (htrails : Site.trails x' before' = Site.trails x before)
      (h : Tracks o mv container before before') :
      Tracks o mv container (x :: before) (x' :: before')
  | other {x x' : Tree} {before before' : List Tree} (hx : x.kind ≠ .comment)
      (hx' : x'.kind ≠ .comment) (hnamed : x'.label.named = x.label.named)
      (hrow : ∀ y after, container.children = before.reverse ++ x :: y :: after →
        y.kind = .comment →
        (x.label.stopRow = y.label.startRow ↔
          x'.label.stopRow = Edit.rowAt o.bytes (mv.start y.label.start))) :
      Tracks o mv container (x :: before) (x' :: before')

/-- A comment trails what is in front of it if it did. -/
theorem Tracks.trails {container y y' : Tree} {before before' after : List Tree}
    (h : o.Tracks mv container before before')
    (hsplit : container.children = before.reverse ++ y :: after) (hy : y.kind = .comment)
    (hrow : y'.label.startRow = Edit.rowAt o.bytes (mv.start y.label.start)) :
    Site.trails y' before' = Site.trails y before := by
  cases h with
  | nil => rfl
  | comment hx hx' => simp [Site.trails, hx, hx']
  | @other x x' before before' hx hx' hnamed hrows =>
      rw [List.reverse_cons, List.append_assoc] at hsplit
      have hiff := hrows y after hsplit hy
      rw [← hrow] at hiff
      simp only [Site.trails, ne_eq, hx, hx', not_false_eq_true, hnamed, hiff]

/-- The first comments of runs that track each other have the same text. -/
theorem Tracks.firstOfRun {container : Tree} {before before' : List Tree}
    (h : o.Tracks mv container before before') :
    Option.Rel (fun y y' => y'.chars o.bytes = y.chars o.context.source)
      (Site.firstOfRun none before) (Site.firstOfRun none before') := by
  induction h with
  | nil => exact Option.Rel.none
  | @comment x x' before before' hx hx' hchars htrails _ ih =>
      rw [Site.firstOfRun, Site.firstOfRun, hx, hx', htrails]
      split_ifs
      · rw [Site.firstOfRun_eq_or, @Site.firstOfRun_eq_or (some x')]
        exact or_of_rel ih (Option.Rel.some hchars)
      · exact Option.Rel.none
  | other hx hx' =>
      simp only [Site.firstOfRun, hx, hx', decide_false, Bool.false_and, Bool.false_eq_true,
        if_false]
      exact Option.Rel.none

/-- A statement is marked only if it was, when what is in front of it tracks what was. -/
theorem exists_marked_of_tracks {container : Tree} {s s' : Site} {m' : Marked}
    (h : o.Tracks mv container s.before s'.before) (hm : s'.marked? o.bytes = some m') :
    ∃ m, s.marked? o.context.source = some m := by
  unfold Site.marked? Site.leadingComment at hm ⊢
  have hfirst := h.firstOfRun
  revert hm hfirst
  generalize Site.firstOfRun none s.before = a, Site.firstOfRun none s'.before = b
  intro hm hfirst
  cases hfirst with
  | none => cases hm
  | some hchars =>
      obtain ⟨d, hscan, -⟩ := Option.map_eq_some_iff.1 hm
      rw [hchars] at hscan
      exact ⟨_, Option.map_eq_some_iff.2 ⟨d, hscan, rfl⟩⟩

/-! ## Statements that are left alone -/

theorem exists_binding_of_kept {t t' name' value' : Tree}
    (hJ : ∀ {t x : Tree}, J t → t.kind.isContainer = false → x ∈ t.children → J x) (ht : J t)
    (h : o.kept mv false t t' = true) (hkind : t.kind.isContainer = false)
    (hfree : FreeComments t)
    (hbinding : t'.declarators.head?.bind Marked.binding? = some (name', value')) :
    ∃ name value, t.declarators.head?.bind Marked.binding? = some (name, value) ∧
      (J name ∧ name.kind = .identifier ∧ o.kept mv false name name' = true) ∧
      o.kept mv false value value' = true := by
  obtain ⟨d', hd', hbound⟩ := Option.bind_eq_some_iff.1 hbinding
  obtain ⟨d, hd, hkept⟩ := head_declarators_of_kept h hkind hd'
  obtain ⟨hmem, hdkind⟩ := of_mem_declarators (List.mem_of_mem_head? hd)
  have hcontainer : d.kind.isContainer = false := by
    rw [hdkind]
    rfl
  unfold Marked.binding? at hbound
  split at hbound
  · next name₁ value₁ hname hvalue =>
      split_ifs at hbound with hidentifier
      cases hbound
      have hchild := childAt_of_kept hkept hcontainer (hfree.child hmem)
      obtain ⟨name, hname₁, hkeptn⟩ := exists_of_rel_some (hname ▸ hchild "name")
      obtain ⟨value, hvalue₁, hkeptv⟩ := exists_of_rel_some (hvalue ▸ hchild "value")
      have hid : name.kind = .identifier := (look_of_kept hkeptn).1.symm.trans hidentifier
      refine ⟨name, value, ?_, ⟨?_, hid, hkeptn⟩, hkeptv⟩
      · refine Option.bind_eq_some_iff.2 ⟨d, hd, ?_⟩
        simp only [Marked.binding?, hname₁, hvalue₁, hid, if_true]
      · exact hJ (hJ ht hkind hmem) hcontainer (List.mem_of_find?_eq_some hname₁)
  · cases hbound

/-- The first of the children of a container is kept, if it is not changed and there are not only
comments. -/
theorem body_cons_of_none {before ts us : List Tree} {t : Tree}
    (h : o.body mv before (t :: ts) us = true)
    (hcomments : ¬ (t :: ts).all (·.kind = .comment) = true)
    (hchange : o.change? ⟨before, t, ts⟩ = none) :
    ∃ u us', us = u :: us' ∧ o.kept mv false t u = true ∧
      o.body mv (t :: before) ts us' = true := by
  rw [body.eq_def] at h
  dsimp only at h
  rw [if_neg hcomments, hchange] at h
  cases us with
  | nil => cases h
  | cons u us' =>
      dsimp only at h
      rw [Bool.and_eq_true] at h
      exact ⟨u, us', rfl, h⟩

/-- The kinds of the statements that a pass changes. -/
theorem Produced.kind_of_change (h : o.Produced root) {s : Site}
    (hs : s ∈ Site.allStatements root) (hchange : o.change? s ≠ none) :
    s.node.kind = .exportStatement ∨ s.node.kind.isDeclaration = true ∨
      s.node.kind.isVariableDeclaration = true := by
  obtain ⟨ch, ⟨taken, taken', hvisit⟩, -⟩ := h.changes s hs hchange
  cases Pass.group_of_visit (h.wellFormed.of_mem (Site.node_mem_preorder hs)) hvisit with
  | plain hkind => exact Or.inr hkind
  | exported _ _ _ _ _ _ hkind => exact Or.inl hkind

/-- The next statement is there again, if it is an expression. -/
theorem Produced.nextStatement_of_body (h : o.Produced root) {container n : Tree}
    (hmem : container ∈ root.preorder) (hcontainer : container.kind.isContainer = true)
    {before ts us : List Tree} (hsplit : container.children = before.reverse ++ ts)
    (hbody : o.body mv before ts us = true) (hn : ts.find? (·.isStatement) = some n)
    (hkind : n.kind = .expressionStatement) :
    ∃ n', us.find? (·.isStatement) = some n' ∧ o.kept mv false n n' = true ∧
      ∃ before₁ after₁, container.children = before₁.reverse ++ n :: after₁ ∧
        o.change? ⟨before₁, n, after₁⟩ = none := by
  induction ts generalizing before us with
  | nil => cases hn
  | cons t ts ih =>
      have hcomments : ¬ (t :: ts).all (·.kind = .comment) = true := by
        intro hall
        have hcomment := List.all_eq_true.1 hall n (List.mem_of_find?_eq_some hn)
        rw [hkind] at hcomment
        cases hcomment
      -- a statement that is changed is found first, and it is no expression
      have hnone : o.change? ⟨before, t, ts⟩ = none := by
        by_contra hchange
        have hstatement := isStatement_of_change hchange
        rw [List.find?_cons_of_pos hstatement] at hn
        cases hn
        rcases h.kind_of_change (mem_allStatements_of_change hmem hcontainer hsplit hchange) hchange
          with hexport | hdeclaration | hvariable
        · rw [hkind] at hexport
          cases hexport
        · rw [hkind] at hdeclaration
          cases hdeclaration
        · rw [hkind] at hvariable
          cases hvariable
      obtain ⟨u, us', rfl, hkept, hbody⟩ := body_cons_of_none hbody hcomments hnone
      have hstatement : u.isStatement = t.isStatement := by
        obtain ⟨hk, hnamed, -⟩ := look_of_kept hkept
        rw [Tree.isStatement, Tree.isStatement, hk, hnamed]
      by_cases ht : t.isStatement = true
      · rw [List.find?_cons_of_pos ht] at hn
        cases hn
        exact ⟨u, List.find?_cons_of_pos (hstatement.trans ht), hkept, before, ts, hsplit, hnone⟩
      · rw [List.find?_cons_of_neg ht] at hn
        rw [List.find?_cons_of_neg (by rw [hstatement]; exact ht)]
        exact ih (Tree.split_next hsplit) hbody hn

theorem Produced.freeComments (h : o.Produced root) {t : Tree} (ht : t ∈ root.preorder) :
    FreeComments t := fun n hn hkind =>
  (isBareComment_iff.1 ((h.lexical n (Tree.mem_preorder_trans ht hn)).comments hkind)).2.2

/-- The text of a part of an assignment is there again, if it has no sign of a directive. -/
theorem Placement.text_of_kept (hp : o.Placement root mv J) (h : o.Produced root) {t t' : Tree}
    (ht : J t) (hkind : t.kind ≠ .program) (hkept : o.kept mv false t t' = true) (cs : List Char)
    (hcs : t.text o.context.source = String.ofList cs) (hsign : '@' ∉ cs) :
    t'.text o.bytes = t.text o.context.source := by
  have hchars : t.chars o.context.source = cs := String.ofList_injective hcs
  rw [Tree.text, Tree.text,
    hp.chars_of_kept h ht hkind hkept (h.untouched_of_text (hp.node ht) (by rwa [hchars]))]

/-- A statement that is annotated is annotated again. -/
theorem Placement.isAnnotated_of_body (hp : o.Placement root mv J) (h : o.Produced root)
    {container : Tree} (hJ : J container) (hcontainer : container.kind.isContainer = true)
    {before before' ts us : List Tree} {t u : Tree}
    (hsplit : container.children = before.reverse ++ t :: ts)
    (hbody : o.body mv (t :: before) ts us = true) {cs : List Char} (hsign : '@' ∉ cs)
    (hannotated : (⟨before, t, ts⟩ : Site).isAnnotated o.context.source (String.ofList cs) = true) :
    (⟨before', u, us⟩ : Site).isAnnotated o.bytes (String.ofList cs) = true := by
  unfold Site.isAnnotated at hannotated ⊢
  split at hannotated
  · next object property hmember =>
      rw [Bool.and_eq_true, decide_eq_true_eq, decide_eq_true_eq] at hannotated
      obtain ⟨n, hn, hmember⟩ := Option.bind_eq_some_iff.1 hmember
      have hkind := (assignedMember_eq_some_iff.1 hmember).1
      obtain ⟨n', hn', hkept, before₁, after₁, hsplit₁, hnone⟩ :=
        h.nextStatement_of_body (hp.node hJ) hcontainer (Tree.split_next hsplit) hbody hn hkind
      have hJn := hp.statement hJ hsplit₁ (Or.inl hnone)
      obtain ⟨object', property', hmember', ⟨⟨hJo, hko⟩, hkepto⟩, ⟨hJp, hkp⟩, hkeptp⟩ :=
        assignedMember_of_kept (J := fun t => J t ∧ t.kind ≠ .program)
          (fun ht hkind hx => ⟨hp.child ht.1 hkind hx,
            (h.wellFormed.of_mem (hp.node ht.1)).sound.nested _ hx⟩)
          hkept (h.freeComments (hp.node hJn)) ⟨hJn, by rw [hkind]; decide⟩ hmember
      have hnext : (⟨before', u, us⟩ : Site).nextStatement.bind Site.assignedMember? =
          some (object', property') := Option.bind_eq_some_iff.2 ⟨n', hn', hmember'⟩
      rw [hnext]
      have hobject := hp.text_of_kept h hJo hko hkepto cs hannotated.1 hsign
      have hproperty := hp.text_of_kept h hJp hkp hkeptp "injectable".toList
        (by rw [hannotated.2]; decide) (by decide)
      dsimp only
      rw [hobject, hproperty, hannotated.1, hannotated.2]
      simp
  · cases hannotated

/-- **A statement that is left alone is left alone again.** -/
theorem Placement.idle_of_kept (hp : o.Placement root mv J) (h : o.Produced root)
    (hc : c.source = o.bytes) {container : Tree} (hJ : J container)
    (hcontainer : container.kind.isContainer = true) {before before' ts us : List Tree}
    {t u : Tree} (hsplit : container.children = before.reverse ++ t :: ts) (ht : J t)
    (hkept : o.kept mv false t u = true) (hbody : o.body mv (t :: before) ts us = true)
    (hidle : (⟨before, t, ts⟩ : Site).Idle o.context) : (⟨before', u, us⟩ : Site).Idle c := by
  have hmem := hp.node ht
  have hfree := h.freeComments hmem
  -- the name is kept, so being annotated under it is kept
  have hname {name name' : Tree} (hJn : J name) (hid : name.kind.isIdentifier = true)
      (hkept : o.kept mv false name name' = true)
      (hannotated : (⟨before, t, ts⟩ : Site).isAnnotated o.context.source
        (name.text o.context.source) = true) :
      (⟨before', u, us⟩ : Site).isAnnotated o.bytes (name'.text o.bytes) = true := by
    rw [hp.text_of_identifier h hJn hid hkept]
    exact hp.isAnnotated_of_body h hJ hcontainer hsplit hbody
      ((h.lexical name (hp.node hJn)).names hid) hannotated
  have hkind := (look_of_kept hkept).1
  unfold Site.Idle at hidle ⊢
  dsimp only at hidle ⊢
  rw [hkind, hc]
  split_ifs with hexport hvariable
  · rw [if_pos hexport] at hidle
    exact exportIdle_of_kept hkept (by rw [hexport]; rfl) hfree hidle
  · rw [if_neg hexport, if_pos hvariable] at hidle
    intro name' value' hbinding'
    have hplain := (Kind.ne_of_exported (Or.inr (Or.inl hvariable))).2.2
    obtain ⟨name, value, hbinding, ⟨hJn, hid, hkeptn⟩, hkeptv⟩ :=
      exists_binding_of_kept hp.child ht hkept hplain hfree hbinding'
    rcases hidle name value hbinding with hannotated | htarget
    · exact Or.inl (hname hJn (by rw [hid]; rfl) hkeptn hannotated)
    · exact Or.inr ((isTarget_of_kept hkeptv).trans htarget)
  · rw [if_neg hexport, if_neg hvariable] at hidle
    intro hdeclaration name' hname'
    have hplain := (Kind.ne_of_exported (Or.inl hdeclaration)).2.2
    obtain ⟨name, hsome, hkeptn⟩ :=
      exists_of_rel_some (hname' ▸ childAt_of_kept hkept hplain hfree "name")
    have hJn := hp.child ht hplain (List.mem_of_find?_eq_some hsome)
    rcases hidle hdeclaration name hsome with hannotated | htarget
    · exact Or.inl (hname hJn ((h.lexical t hmem).declared hdeclaration name hsome) hkeptn
        hannotated)
    · exact Or.inr ((isTarget_of_kept hkept).trans htarget)

end Output
end Injection
