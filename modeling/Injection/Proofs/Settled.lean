import Injection.Proofs.Leading

/-!
# Statements that a second pass leaves alone

Every statement of the output of a pass is a statement of the source that was left alone, or one
that has been changed and is annotated now, or one that was put in.  So a second pass leaves all of
them alone, with one exception: a comment at the end of an export without a semicolon comes to stand
behind the text put in, and so in front of the next statement, which it did not lead before
(`exposes`).

* `inert_of_annotates`, `inert_of_reexports`, `quiet_of_annotates`: what was put in, and what stands
  in front of it.
* `front_of_kept`, `tracks_of_text`, `front_of_export`: what is in front of a statement, step by
  step.
* `settled_of_declares`: what is inside an export that has become a declaration.
-/

namespace Injection
namespace Output

/-- Whether a comment right in front of a place has been displaced: it stood at the end of an export
that was changed. -/
def exposes (o : Output) (root : Tree) (before : List Tree) : Bool :=
  (before.takeWhile (·.kind = .comment)).any fun x =>
    (Site.allStatements root).any fun s =>
      (o.change? s).isSome && s.node.kind = .exportStatement &&
        s.node.displaced.any fun d => x.label.start = Edit.startMoved o.edits d.label.start

/-- A statement that a second pass leaves alone, or that has a displaced comment in front. -/
def Settles (o : Output) (root : Tree) (c : Context) (s : Site) : Prop :=
  o.exposes root s.before = true ∨ s.quiet c = true

/-- A node in which all statements settle. -/
def Settled (o : Output) (root : Tree) (c : Context) (t : Tree) : Prop :=
  ∀ s ∈ Site.allStatements t, o.Settles root c s

/-- A child of a container that settles wherever it stands. -/
def Inert (o : Output) (root : Tree) (c : Context) (t : Tree) : Prop :=
  (t.isStatement = true → ∀ before after, o.Settles root c ⟨before, t, after⟩) ∧
    o.Settled root c t

/-- Children of a container, behind those in `before`, that settle with all that is inside. -/
def Calm (o : Output) (root : Tree) (c : Context) (before ts : List Tree) : Prop :=
  (∀ s ∈ Site.ofList before ts, s.node.isStatement = true → o.Settles root c s) ∧
    ∀ t ∈ ts, o.Settled root c t

variable {o : Output} {root : Tree} {mv : Move} {J : Tree → Prop} {c : Context}

theorem settled_of_leaf {t : Tree} (h : t.children = []) : o.Settled root c t := by
  intro s hs
  obtain ⟨l, cs⟩ := t
  obtain rfl : cs = [] := h
  rcases Site.mem_allStatements_node.1 hs with ⟨-, hs⟩ | ⟨x, hx, -⟩
  · cases hs
  · cases hx

theorem settled_of_flat {t : Tree} (h : t.isFlat = true) : o.Settled root c t := by
  intro s hs
  obtain ⟨y, hy, hcontainer, -⟩ := Site.mem_allStatements_iff.1 hs
  have hflat := List.all_eq_true.1 h y hy
  rw [hcontainer] at hflat
  cases hflat

theorem settled_of_children {t : Tree} (hkind : t.kind.isContainer = false)
    (h : ∀ x ∈ t.children, o.Settled root c x) : o.Settled root c t := by
  intro s hs
  obtain ⟨x, hx, hs⟩ := Site.exists_child_of_mem hkind hs
  exact h x hx s hs

theorem Calm.settled {t : Tree} (h : o.Calm root c [] t.children) : o.Settled root c t := by
  intro s hs
  obtain ⟨l, cs⟩ := t
  rcases Site.mem_allStatements_node.1 hs with ⟨-, hs⟩ | ⟨x, hx, hs⟩
  · rw [Site.statements, List.mem_filter] at hs
    exact h.1 s hs.1 hs.2
  · exact h.2 x hx s hs

theorem calm_nil {before : List Tree} : o.Calm root c before [] :=
  ⟨fun _ h => absurd h List.not_mem_nil, fun _ h => absurd h List.not_mem_nil⟩

theorem calm_cons {before ts : List Tree} {t : Tree}
    (ht : t.isStatement = true → o.Settles root c ⟨before, t, ts⟩) (hinside : o.Settled root c t)
    (h : o.Calm root c (t :: before) ts) : o.Calm root c before (t :: ts) := by
  refine ⟨?_, List.forall_mem_cons.2 ⟨hinside, h.2⟩⟩
  intro s hs
  rw [Site.ofList, List.mem_cons] at hs
  rcases hs with rfl | hs
  · exact ht
  · exact h.1 s hs

theorem calm_append {before xs ts : List Tree} (hxs : ∀ x ∈ xs, o.Inert root c x)
    (h : o.Calm root c (xs.reverse ++ before) ts) : o.Calm root c before (xs ++ ts) := by
  induction xs generalizing before with
  | nil => exact h
  | cons x xs ih =>
      rw [List.reverse_cons, List.append_assoc] at h
      obtain ⟨hx, hxs⟩ := List.forall_mem_cons.1 hxs
      exact calm_cons (fun hs => hx.1 hs before _) hx.2 (ih hxs h)

/-- A comment with nothing inside is inert. -/
theorem inert_of_comment {t : Tree} (hkind : t.kind = .comment) (hleaf : t.children = []) :
    o.Inert root c t := by
  refine ⟨fun hs => ?_, settled_of_leaf hleaf⟩
  simp [Tree.isStatement, hkind] at hs

theorem calm_of_comments {before ts : List Tree} (h : ts.all (·.isBareComment) = true) :
    o.Calm root c before ts := by
  rw [← List.append_nil ts]
  refine calm_append (fun t ht => ?_) calm_nil
  obtain ⟨hkind, hleaf, -⟩ := isBareComment_iff.1 (List.all_eq_true.1 h t ht)
  exact inert_of_comment hkind hleaf

/-! ## What has been put in -/

theorem quiet_of_idle {s : Site} (h : s.Idle c) : s.quiet c = true :=
  Site.quiet_iff.2 fun _ _ => h

theorem of_mem_annotates {u x : Tree} {added : List Tree} (h : o.annotates u added = true)
    (hx : x ∈ added) :
    x.label.named = true ∧ x.kind = .expressionStatement ∧ x.isFlat = true := by
  unfold annotates at h
  rw [Bool.and_eq_true] at h
  have hx := List.all_eq_true.1 h.1 x hx
  simp only [Bool.and_eq_true, decide_eq_true_eq] at hx
  exact ⟨hx.1.1, hx.1.2, hx.2⟩

/-- An assignment that was put in is left alone. -/
theorem inert_of_annotates {u : Tree} {added : List Tree} (h : o.annotates u added = true) :
    ∀ x ∈ added, o.Inert root c x := by
  intro x hx
  obtain ⟨-, hkind, hflat⟩ := of_mem_annotates h hx
  refine ⟨fun _ before after => Or.inr (quiet_of_idle ?_), settled_of_flat hflat⟩
  unfold Site.Idle
  dsimp only
  rw [hkind, if_neg (by decide), if_neg (by decide)]
  intro hdeclaration
  cases hdeclaration

/-- An export of names that was put in is left alone. -/
theorem inert_of_reexports {x : Tree} (h : reexports x = true) : o.Inert root c x := by
  simp only [reexports, Bool.and_eq_true, decide_eq_true_eq] at h
  obtain ⟨⟨⟨⟨-, hkind⟩, hflat⟩, hdeclaration⟩, hvalue⟩ := h
  have hnone : x.childAt? "declaration" = none := Option.isNone_iff_eq_none.1 hdeclaration
  refine ⟨fun _ before after => Or.inr (quiet_of_idle ?_), settled_of_flat hflat⟩
  unfold Site.Idle
  dsimp only
  rw [if_pos hkind]
  unfold Tree.ExportIdle
  rw [hnone, Option.none_or]
  split_ifs
  · intro target htarget hexportable
    rw [htarget, Option.all_some, hexportable] at hvalue
    cases hvalue
  · rintro declaration ⟨⟩

/-- A declaration with assignments behind it is annotated. -/
theorem exists_annotated_of_annotates {u : Tree} {added : List Tree}
    (h : o.annotates u added = true) :
    ∃ name, u.declaredName? = some name ∧ ∀ before rest,
      (⟨before, u, added ++ rest⟩ : Site).isAnnotated o.bytes (name.text o.bytes) = true := by
  have hmem (x : Tree) (hx : x ∈ added) := of_mem_annotates h hx
  unfold annotates at h
  rw [Bool.and_eq_true] at h
  obtain ⟨-, hmatch⟩ := h
  split at hmatch
  · next name object property hname hmember =>
      rw [Bool.and_eq_true, decide_eq_true_eq, decide_eq_true_eq] at hmatch
      obtain ⟨n, hn, hmember⟩ := Option.bind_eq_some_iff.1 hmember
      refine ⟨name, hname, fun before rest => ?_⟩
      -- the first of the assignments is the next statement
      have hnext : (⟨before, u, added ++ rest⟩ : Site).nextStatement = some n := by
        cases added with
        | nil => cases hn
        | cons x xs =>
            cases hn
            obtain ⟨hnamed, hstatement, -⟩ := hmem n List.mem_cons_self
            exact List.find?_cons_of_pos (by simp [hnamed, hstatement])
      unfold Site.isAnnotated
      rw [hnext, Option.bind_some, hmember]
      simp [hmatch.1, hmatch.2]
  · cases hmatch

/-- A declaration with assignments behind it is left alone. -/
theorem quiet_of_annotates (hc : c.source = o.bytes) {u : Tree} {before added rest : List Tree}
    (h : o.annotates u added = true) (hkind : u.kind ≠ .exportStatement) :
    (⟨before, u, added ++ rest⟩ : Site).quiet c = true := by
  obtain ⟨name, hname, hall⟩ := exists_annotated_of_annotates h
  have hannotated := hall before rest
  refine quiet_of_idle ?_
  unfold Site.Idle
  dsimp only
  rw [hc, if_neg hkind]
  unfold Tree.declaredName? at hname
  split_ifs with hvariable
  · rw [if_pos hvariable] at hname
    intro name' value hbinding
    rw [hbinding] at hname
    cases hname
    exact Or.inl hannotated
  · rw [if_neg hvariable] at hname
    intro _ name' hname'
    rw [hname'] at hname
    cases hname
    exact Or.inl hannotated

/-! ## What follows a changed statement -/

theorem body_of_comments {before ts us : List Tree} (h : o.body mv before ts us = true)
    (hcomments : ts.all (·.kind = .comment) = true) : us.all (·.isBareComment) = true := by
  cases ts with
  | nil => exact h
  | cons t ts =>
      rw [body.eq_def] at h
      dsimp only at h
      rwa [if_pos hcomments] at h

/-- A declaration that was changed is there again, with assignments behind it. -/
theorem body_cons_of_plain {before ts us : List Tree} {t : Tree}
    (h : o.body mv before (t :: ts) us = true) (hcomment : t.kind ≠ .comment)
    (hchange : o.change? ⟨before, t, ts⟩ ≠ none) (hkind : t.kind ≠ .exportStatement) :
    ∃ u added rest, us = u :: (added ++ rest) ∧ o.kept mv false t u = true ∧
      o.annotates u added = true ∧ added.getLast?.any (o.endsText t.label.stop) = true ∧
      o.body mv (t :: before) ts rest = true := by
  have hcomments : ¬ (t :: ts).all (·.kind = .comment) = true := by
    simp [hcomment]
  obtain ⟨ch, hch⟩ := Option.ne_none_iff_exists'.1 hchange
  rw [body.eq_def] at h
  dsimp only at h
  rw [if_neg hcomments, hch] at h
  cases us with
  | nil => cases h
  | cons u us' =>
      dsimp only at h
      rw [if_neg hkind] at h
      simp only [Bool.and_eq_true] at h
      exact ⟨u, us'.take ch.record.texts.length, us'.drop ch.record.texts.length,
        by rw [List.take_append_drop], h.1.1.1, h.1.1.2, h.1.2, h.2⟩

/-- An export that was changed has become a declaration, with assignments and an export of names
behind it, and then the comments displaced. -/
theorem body_cons_of_export {before ts us : List Tree} {t : Tree}
    (h : o.body mv before (t :: ts) us = true)
    (hchange : o.change? ⟨before, t, ts⟩ ≠ none) (hkind : t.kind = .exportStatement) :
    ∃ p u added x ds rest, t.exportParts? = some p ∧ us = u :: (added ++ x :: (ds ++ rest)) ∧
      o.declares mv t u = true ∧ o.annotates u added = true ∧
      (reexports x = true ∧ o.endsText (t.textPlace p.target) x = true) ∧
      o.displaces mv t.displaced ds = true ∧ o.body mv (t :: before) ts rest = true := by
  have hcomments : ¬ (t :: ts).all (·.kind = .comment) = true := by
    simp [hkind]
  obtain ⟨ch, hch⟩ := Option.ne_none_iff_exists'.1 hchange
  rw [body.eq_def] at h
  dsimp only at h
  rw [if_neg hcomments, hch] at h
  cases us with
  | nil => cases h
  | cons u us' =>
      dsimp only at h
      rw [if_pos hkind] at h
      simp only [Bool.and_eq_true] at h
      obtain ⟨⟨hdeclares, hannotates⟩, h⟩ := h
      split at h
      · next x rest p hdrop hparts =>
          simp only [Bool.and_eq_true] at h
          refine ⟨p, u, us'.take ch.record.texts.length, x, rest.take t.displaced.length,
            rest.drop t.displaced.length, hparts, ?_, hdeclares, hannotates, h.1.1, h.1.2, h.2⟩
          rw [List.take_append_drop, ← hdrop, List.take_append_drop]
      · cases h

/-- The comments that were displaced, one by one. -/
theorem exists_of_mem_displaces {ds us : List Tree} (h : o.displaces mv ds us = true) :
    (∀ u ∈ us, ∃ d ∈ ds, u.kind = d.kind ∧ u.children = [] ∧
      u.label.start = mv.start d.label.start) ∧ us.length = ds.length := by
  induction ds generalizing us with
  | nil =>
      rw [displaces, List.isEmpty_iff] at h
      subst h
      exact ⟨List.forall_mem_nil _, rfl⟩
  | cons d ds ih =>
      cases us with
      | nil => cases h
      | cons u us =>
          rw [displaces, Bool.and_eq_true, Bool.and_eq_true] at h
          obtain ⟨⟨htakes, hleaf⟩, h⟩ := h
          obtain ⟨hmem, hlength⟩ := ih h
          obtain ⟨⟨hkind, -⟩, ⟨hstart, -⟩, -⟩ := Move.takes_iff.1 htakes
          refine ⟨?_, by rw [List.length_cons, List.length_cons, hlength]⟩
          intro v hv
          rcases List.mem_cons.1 hv with rfl | hv
          · exact ⟨d, List.mem_cons_self, hkind, List.isEmpty_iff.1 hleaf, hstart⟩
          · obtain ⟨e, he, hprops⟩ := hmem v hv
            exact ⟨e, List.mem_cons_of_mem d he, hprops⟩

/-- What an export ends with. -/
theorem Produced.last_of_export (h : o.Produced root) {t : Tree} {p : Tree.ExportParts}
    (ht : t ∈ root.preorder) (hkind : t.kind = .exportStatement)
    (hparts : t.exportParts? = some p) :
    ∃ last, t.children.getLast? = some last ∧ last.label.stop = t.label.stop ∧
      (p.back = [] ∧ last = p.target ∨
        p.back.getLast? = some last ∧ p.target.label.stop ≤ last.label.start ∧
          last.label.start < last.label.stop) := by
  obtain ⟨-, -, hstop⟩ := (h.lexical t ht).exported hkind p hparts
  have hchildren := (Tree.children_of_exportParts hparts).1
  cases hback : p.back.getLast? with
  | none =>
      have hnil := List.getLast?_eq_none_iff.1 hback
      have hlast : t.children.getLast? = some p.target := by
        rw [hchildren, hnil, List.getLast?_concat]
      exact ⟨p.target, hlast, hstop _ hlast, Or.inl ⟨hnil, rfl⟩⟩
  | some last =>
      have hlast : t.children.getLast? = some last := by
        rw [hchildren, List.getLast?_append, List.getLast?_cons, hback]
        rfl
      have hmem := List.mem_of_getLast? hback
      have hordered := (h.wellFormed.of_mem ht).sound.ordered
      rw [hchildren, List.pairwise_append, List.pairwise_cons] at hordered
      exact ⟨last, hlast, hstop _ hlast, Or.inr ⟨rfl, hordered.2.1.1 last hmem,
        h.nonempty_child ht (List.mem_of_getLast? hlast)⟩⟩

/-- What is displaced are comments. -/
theorem Produced.kind_of_displaced (h : o.Produced root) {t d : Tree} (ht : t ∈ root.preorder)
    (hkind : t.kind = .exportStatement) (hd : d ∈ t.displaced) : d.kind = .comment := by
  unfold Tree.displaced at hd
  split at hd
  · next p hparts =>
      split_ifs at hd with hplace
      · obtain ⟨hcomments, hends, -⟩ := (h.lexical t ht).exported hkind p hparts
        obtain ⟨last, hlast, -, ⟨hnil, -⟩ | ⟨hback, hle, hnonempty⟩⟩ :=
          h.last_of_export ht hkind hparts
        · rw [hnil] at hd
          cases hd
        · rcases hends last hback with hcomment | hsemicolon
          · -- all that stands behind the target is comments
            rw [← List.dropLast_append_getLast? last hback, List.mem_append,
              List.mem_singleton] at hd
            rcases hd with hd | rfl
            · exact hcomments d hd
            · exact hcomment
          · -- text goes behind a semicolon, and that ends behind the target
            rw [Tree.textPlace, hlast] at hplace
            dsimp only at hplace
            rw [if_pos (by simp [hsemicolon, hle])] at hplace
            omega
      · cases hd
  · cases hd

/-- Text goes to the end of an export in which nothing is displaced. -/
theorem Produced.textPlace_of_displaced (h : o.Produced root) {t : Tree} {p : Tree.ExportParts}
    (ht : t ∈ root.preorder) (hkind : t.kind = .exportStatement)
    (hparts : t.exportParts? = some p) (hnil : t.displaced = []) :
    t.textPlace p.target = t.label.stop := by
  obtain ⟨last, hlast, hstop, hend⟩ := h.last_of_export ht hkind hparts
  have hplace : t.textPlace p.target = last.label.stop ∨
      t.textPlace p.target = p.target.label.stop := by
    rw [Tree.textPlace, hlast]
    dsimp only
    split_ifs
    · exact Or.inl rfl
    · exact Or.inr rfl
  rcases hplace with hplace | hplace
  · exact hplace.trans hstop
  · -- the text goes right behind the target, so what would be behind that is displaced
    rw [Tree.displaced, hparts] at hnil
    dsimp only at hnil
    rw [if_pos hplace] at hnil
    rcases hend with ⟨-, rfl⟩ | ⟨hback, -⟩
    · exact hplace.trans hstop
    · rw [hnil] at hback
      cases hback

/-! ## The siblings in front -/

/-- The siblings in front of a place track those that were there, or one of the comments among them
has been displaced. -/
def Front (o : Output) (root : Tree) (mv : Move) (container : Tree) (before before' : List Tree) :
    Prop :=
  o.Tracks mv container before before' ∨ o.exposes root before' = true

theorem exposes_cons {x : Tree} {before : List Tree} (hx : x.kind = .comment)
    (h : o.exposes root before = true) : o.exposes root (x :: before) = true := by
  unfold exposes at h ⊢
  rw [List.takeWhile_cons_of_pos (by simpa using hx), List.any_cons, h, Bool.or_true]

/-- Without exports that end with a comment nothing is displaced. -/
theorem exposes_eq_false (h : ∀ s ∈ Site.allStatements root,
    s.node.kind = .exportStatement → s.node.displaced = []) (before : List Tree) :
    o.exposes root before = false := by
  rw [exposes, List.any_eq_false]
  intro x _ hx
  obtain ⟨s, hs, hdisplaced⟩ := List.any_eq_true.1 hx
  simp only [Bool.and_eq_true, decide_eq_true_eq] at hdisplaced
  rw [h s hs hdisplaced.1.2] at hdisplaced
  cases hdisplaced.2

/-- A place behind comments that were displaced. -/
theorem exposes_of_displaced {s : Site} (hs : s ∈ Site.allStatements root)
    (hchange : o.change? s ≠ none) (hkind : s.node.kind = .exportStatement)
    {ds before : List Tree} (hds : ∀ u ∈ ds, u.kind = .comment) {u d : Tree} (hu : u ∈ ds)
    (hd : d ∈ s.node.displaced) (hstart : u.label.start = Edit.startMoved o.edits d.label.start) :
    o.exposes root (ds.reverse ++ before) = true := by
  have hrun : ∀ v ∈ ds.reverse, decide (v.kind = .comment) = true := fun v hv =>
    decide_eq_true (hds v (List.mem_reverse.1 hv))
  unfold exposes
  rw [List.takeWhile_append_of_pos hrun, List.any_eq_true]
  refine ⟨u, List.mem_append_left _ (List.mem_reverse.2 hu), ?_⟩
  rw [List.any_eq_true]
  refine ⟨s, hs, ?_⟩
  rw [Option.isSome_iff_ne_none.2 hchange, decide_eq_true hkind, Bool.true_and, Bool.true_and,
    List.any_eq_true]
  exact ⟨d, hd, decide_eq_true hstart⟩

/-- A child that was not changed goes to the siblings in front. -/
theorem Placement.front_of_kept (hp : o.Placement root mv J) (h : o.Produced root)
    {container t u : Tree} {before before' ts : List Tree} (hJ : J container)
    (hsplit : container.children = before.reverse ++ t :: ts)
    (hfront : o.Front root mv container before before')
    (hchange : o.change? ⟨before, t, ts⟩ = none) (hkept : o.kept mv false t u = true) :
    o.Front root mv container (t :: before) (u :: before') := by
  obtain ⟨hkind, hnamed, -⟩ := look_of_kept hkept
  have hJt := hp.statement hJ hsplit (Or.inl hchange)
  by_cases hcomment : t.kind = .comment
  · have hcomment' : u.kind = .comment := hkind.trans hcomment
    rcases hfront with htracks | hexposed
    · left
      refine .comment hcomment hcomment' ?_ ?_ htracks
      · refine hp.chars_of_kept h hJt (by rw [hcomment]; decide) hkept fun s hs => ?_
        rw [h.allStatements_comment (hp.node hJt) hcomment] at hs
        cases hs
      · exact htracks.trails hsplit hcomment (start_of_kept hkept).2
    · exact Or.inr (exposes_cons hcomment' hexposed)
  · left
    refine .other hcomment (by rw [hkind]; exact hcomment) hnamed ?_
    intro y after hsplit' hy
    obtain rfl := Tree.after_of_split hsplit hsplit'
    rw [(stop_of_kept hkept).2]
    exact hp.gap hJ hsplit hy hchange

/-- What was put in last behind a changed statement goes to the siblings in front. -/
theorem Placement.tracks_of_text (hp : o.Placement root mv J) {container t x : Tree}
    {before before' ts : List Tree} (hJ : J container)
    (hcontainer : container.kind.isContainer = true)
    (hsplit : container.children = before.reverse ++ t :: ts)
    (hchange : o.change? ⟨before, t, ts⟩ ≠ none) (hx : x.kind ≠ .comment)
    (hnamed : x.label.named = true) (hends : o.endsText t.label.stop x = true) :
    o.Tracks mv container (t :: before) (x :: before') := by
  have hstatement := isStatement_of_change hchange
  simp only [Tree.isStatement, Bool.and_eq_true, decide_eq_true_eq] at hstatement
  simp only [endsText, Bool.and_eq_true, decide_eq_true_eq] at hends
  refine .other hstatement.2 hx (by rw [hnamed, hstatement.1]) ?_
  intro y after hsplit' hy
  obtain rfl := Tree.after_of_split hsplit hsplit'
  rw [hends.2, hends.1]
  exact hp.textGap hJ hcontainer hsplit hy hchange

/-- The last of the assignments behind a declaration. -/
theorem exists_last_of_annotates {u : Tree} {added : List Tree} {place : Nat}
    (h : o.annotates u added = true) (hends : added.getLast?.any (o.endsText place) = true) :
    ∃ x xs, added.reverse = x :: xs ∧ x.kind ≠ .comment ∧ x.label.named = true ∧
      o.endsText place x = true := by
  cases hrev : added.reverse with
  | nil =>
      rw [List.reverse_eq_nil_iff.1 hrev] at hends
      cases hends
  | cons x xs =>
      have hlast : added.getLast? = some x := by
        rw [← List.head?_reverse, hrev]
        rfl
      rw [hlast] at hends
      obtain ⟨hnamed, hkind, -⟩ := of_mem_annotates h (List.mem_of_getLast? hlast)
      exact ⟨x, xs, rfl, by rw [hkind]; decide, hnamed, hends⟩

/-- The siblings in front, behind an export that was changed. -/
theorem Placement.front_of_export (hp : o.Placement root mv J) (h : o.Produced root)
    {container t x : Tree} {before before' ts ds : List Tree} {p : Tree.ExportParts}
    (hJ : J container) (hcontainer : container.kind.isContainer = true)
    (hsplit : container.children = before.reverse ++ t :: ts)
    (hchange : o.change? ⟨before, t, ts⟩ ≠ none) (hkind : t.kind = .exportStatement)
    (hparts : t.exportParts? = some p) (hx : reexports x = true)
    (hends : o.endsText (t.textPlace p.target) x = true)
    (hds : o.displaces mv t.displaced ds = true) :
    o.Front root mv container (t :: before) (ds.reverse ++ x :: before') := by
  have hs := mem_allStatements_of_change (hp.node hJ) hcontainer hsplit hchange
  have ht := Site.node_mem_preorder hs
  obtain ⟨hmem, hlength⟩ := exists_of_mem_displaces hds
  cases ds with
  | nil =>
      -- nothing is displaced, so the text went to the end of the export
      have hnil : t.displaced = [] := List.eq_nil_of_length_eq_zero hlength.symm
      rw [h.textPlace_of_displaced ht hkind hparts hnil] at hends
      simp only [reexports, Bool.and_eq_true, decide_eq_true_eq] at hx
      obtain ⟨⟨⟨⟨hnamed, hexport⟩, -⟩, -⟩, -⟩ := hx
      exact Or.inl (hp.tracks_of_text hJ hcontainer hsplit hchange (by rw [hexport]; decide) hnamed
        hends)
  | cons u us =>
      right
      obtain ⟨d, hd, -, -, hstart⟩ := hmem u List.mem_cons_self
      rw [hp.moves hJ hcontainer hsplit hchange] at hstart
      refine exposes_of_displaced hs hchange hkind ?_ List.mem_cons_self hd hstart
      intro v hv
      obtain ⟨e, he, hkind', -⟩ := hmem v hv
      exact hkind'.trans (h.kind_of_displaced ht hkind he)

/-! ## What an export has become -/

theorem exists_of_mem_copies {ts us : List Tree} (h : o.copies ts us = true) {u : Tree}
    (hu : u ∈ us) :
    ∃ d ∈ ts, d.kind = .decorator ∧
      Edit.within (u.label.start, u.label.stop) o.bytes =
        Edit.within (d.label.start, d.label.stop) o.context.source ∧
      o.kept (.ofCopy d u) false d u = true := by
  induction ts generalizing us with
  | nil =>
      rw [copies, List.isEmpty_iff] at h
      subst h
      cases hu
  | cons t ts ih =>
      rw [copies.eq_def] at h
      dsimp only at h
      split_ifs at h with hkind
      · cases us with
        | nil => cases h
        | cons v vs =>
            simp only [Bool.and_eq_true, decide_eq_true_eq] at h
            rcases List.mem_cons.1 hu with rfl | hu
            · exact ⟨t, List.mem_cons_self, hkind, h.1.1, h.1.2⟩
            · obtain ⟨d, hd, hprops⟩ := ih h.2 hu
              exact ⟨d, List.mem_cons_of_mem t hd, hprops⟩
      · obtain ⟨d, hd, hprops⟩ := ih h hu
        exact ⟨d, List.mem_cons_of_mem t hd, hprops⟩

theorem exists_of_mem_eachUpTo {stop : Nat} {ts us : List Tree}
    (h : o.eachUpTo mv stop ts us = true) {u : Tree} (hu : u ∈ us) :
    ∃ t ∈ ts, t.label.stop ≤ stop ∧ o.kept mv false t u = true := by
  induction ts generalizing us with
  | nil =>
      rw [eachUpTo, List.isEmpty_iff] at h
      subst h
      cases hu
  | cons t ts ih =>
      rw [eachUpTo.eq_def] at h
      dsimp only at h
      split_ifs at h with hstop
      · cases us with
        | nil => cases h
        | cons v vs =>
            rw [Bool.and_eq_true] at h
            rcases List.mem_cons.1 hu with rfl | hu
            · exact ⟨t, List.mem_cons_self, hstop, h.1⟩
            · obtain ⟨x, hx, hprops⟩ := ih h.2 hu
              exact ⟨x, List.mem_cons_of_mem t hx, hprops⟩
      · rw [List.isEmpty_iff] at h
        subst h
        cases hu

theorem exists_of_inside {loose : Bool} {p : Tree → Bool} {ts us : List Tree}
    (h : o.inside mv loose p ts us = true) :
    ∃ t, ts.find? p = some t ∧ o.each mv loose t.children us = true := by
  induction ts with
  | nil => cases h
  | cons t ts ih =>
      obtain ⟨l, cs⟩ := t
      rw [inside] at h
      split_ifs at h with hp
      · exact ⟨.node l cs, List.find?_cons_of_pos hp, h⟩
      · obtain ⟨x, hx, heach⟩ := ih h
        exact ⟨x, by rw [List.find?_cons_of_neg hp]; exact hx, heach⟩

/-- A node that settles wherever it is there again. -/
def SettlesAgain (o : Output) (root : Tree) (c : Context) (t : Tree) : Prop :=
  ∀ {mv : Move} {J : Tree → Prop} {loose : Bool} {t' : Tree}, o.Placement root mv J → J t →
    o.kept mv loose t t' = true → o.Settled root c t'

/-- Children that are there again, one by one, settle. -/
theorem Placement.settled_of_each (hp : o.Placement root mv J) {t : Tree} {loose : Bool}
    {us : List Tree} (ht : J t) (hkind : t.kind.isContainer = false)
    (hagain : ∀ x ∈ t.children, o.SettlesAgain root c x)
    (heach : o.each mv loose t.children us = true) : ∀ u ∈ us, o.Settled root c u := by
  intro u hu
  rcases exists_of_mem_each heach hu with hbare | ⟨x, hx, l, hkept⟩
  · exact settled_of_leaf (isBareComment_iff.1 hbare).2.1
  · exact hagain x hx hp (hp.child ht hkind hx) hkept

/-- The kind of what is exported by an export that is changed. -/
theorem Produced.target_of_change (h : o.Produced root) {s : Site} {p : Tree.ExportParts}
    (hs : s ∈ Site.allStatements root) (hchange : o.change? s ≠ none)
    (hkind : s.node.kind = .exportStatement) (hparts : s.node.exportParts? = some p) :
    p.target.kind.isContainer = false ∧ p.target.kind ≠ .exportStatement := by
  obtain ⟨ch, hmakes⟩ := h.changes s hs hchange
  obtain ⟨-, -, htarget⟩ := hmakes.edits_of_export
    (h.wellFormed.of_mem (Site.node_mem_preorder hs)) hkind hparts
  obtain ⟨-, hexport, hcontainer⟩ := Kind.ne_of_exported htarget
  exact ⟨hcontainer, hexport⟩

/-- What an export exports is the first child of its field. -/
theorem find_target {t : Tree} {p : Tree.ExportParts} (hparts : t.exportParts? = some p) :
    t.children.find? t.isTargetOf = some p.target := by
  have htarget := t.target_of_exportParts
  rw [hparts] at htarget
  exact htarget.symm

/-- An export that has become a constant: its value has copies of the decorators in front, and then
the children of what was exported. -/
theorem exists_of_declares_constant {t u : Tree} {p : Tree.ExportParts}
    (hparts : t.exportParts? = some p) (hconstant : t.becomesConstant p.target = true)
    (h : o.declares mv t u = true) :
    ∃ kind declarator rest name equals value, u.children = kind :: declarator :: rest ∧
      declarator.children = [name, equals, value] ∧ u.kind = .lexicalDeclaration ∧
      declarator.kind.isContainer = false ∧ value.kind.isContainer = false ∧
      (∀ x ∈ kind :: name :: equals :: rest, x.children = []) ∧
      ∃ n, o.copies t.children (value.children.take n) = true ∧
        o.inside mv true t.isTargetOf t.children (value.children.drop n) = true := by
  obtain ⟨l, cs⟩ := t
  rw [declares, hparts] at h
  dsimp only at h
  rw [if_pos hconstant] at h
  split at h
  · next kind declarator rest hchildren =>
      split at h
      · next name equals value hvalue =>
          simp only [Bool.and_eq_true, decide_eq_true_eq, Bool.not_eq_true'] at h
          obtain ⟨⟨⟨⟨⟨hlexical, hdeclarator⟩, hvalueKind⟩, hleaves⟩, hcopies⟩, hinside⟩ := h
          refine ⟨kind, declarator, rest, name, equals, value, hchildren, hvalue, hlexical,
            hdeclarator, hvalueKind, fun x hx => ?_, _, hcopies, hinside⟩
          exact List.isEmpty_iff.1 (List.all_eq_true.1 hleaves x hx)
      · cases h
  · cases h

/-- An export that has become a declaration: the decorators in front of the keyword are there, and
then the children of what was exported. -/
theorem exists_of_declares_declaration {t u : Tree} {p : Tree.ExportParts}
    (hparts : t.exportParts? = some p) (hdeclaration : ¬ t.becomesConstant p.target = true)
    (h : o.declares mv t u = true) :
    u.kind = p.target.kind ∧
      ∃ n, o.eachUpTo mv t.exportStart t.children (u.children.take n) = true ∧
        o.inside mv false t.isTargetOf t.children (u.children.drop n) = true := by
  obtain ⟨l, cs⟩ := t
  rw [declares, hparts] at h
  dsimp only at h
  rw [if_neg hdeclaration] at h
  simp only [Bool.and_eq_true, decide_eq_true_eq] at h
  exact ⟨h.1.1, _, h.1.2, h.2⟩

theorem settled_of_take_drop {us : List Tree} (n : Nat)
    (hfront : ∀ u ∈ us.take n, o.Settled root c u)
    (hback : ∀ u ∈ us.drop n, o.Settled root c u) : ∀ u ∈ us, o.Settled root c u := by
  intro u hu
  rw [← List.take_append_drop n us, List.mem_append] at hu
  rcases hu with hu | hu
  · exact hfront u hu
  · exact hback u hu

/-- A constant whose value settles, and that has leaves beside it. -/
theorem settled_of_constant {u kind declarator name equals value : Tree} {rest : List Tree}
    (hkind : u.kind.isContainer = false) (hchildren : u.children = kind :: declarator :: rest)
    (hdeclarator : declarator.kind.isContainer = false)
    (hvalue : declarator.children = [name, equals, value])
    (hleaves : ∀ x ∈ kind :: name :: equals :: rest, x.children = [])
    (hsettled : o.Settled root c value) : o.Settled root c u := by
  have hleaf (x : Tree) (hx : x ∈ kind :: name :: equals :: rest) : o.Settled root c x :=
    settled_of_leaf (hleaves x hx)
  have hinner : o.Settled root c declarator := by
    refine settled_of_children hdeclarator ?_
    rw [hvalue]
    intro y hy
    simp only [List.mem_cons, List.not_mem_nil, or_false] at hy
    rcases hy with rfl | rfl | rfl
    · exact hleaf y (by simp)
    · exact hleaf y (by simp)
    · exact hsettled
  refine settled_of_children hkind ?_
  rw [hchildren]
  intro x hx
  rcases List.mem_cons.1 hx with rfl | hx
  · exact hleaf x List.mem_cons_self
  · rcases List.mem_cons.1 hx with rfl | hx
    · exact hinner
    · exact hleaf x (by simp [hx])

/-- **What an export has become settles inside.** -/
theorem Placement.settled_of_declares (hp : o.Placement root mv J) (h : o.Produced root)
    {container t u : Tree} {before ts : List Tree} {p : Tree.ExportParts} (hJ : J container)
    (hsplit : container.children = before.reverse ++ t :: ts)
    (hs : (⟨before, t, ts⟩ : Site) ∈ Site.allStatements root)
    (hchange : o.change? ⟨before, t, ts⟩ ≠ none) (hkind : t.kind = .exportStatement)
    (hparts : t.exportParts? = some p) (hagain : ∀ n ∈ t.preorder, o.SettlesAgain root c n)
    (hdeclares : o.declares mv t u = true) :
    o.Settled root c u ∧ u.kind ≠ .exportStatement := by
  obtain ⟨hplain, hexport⟩ := h.target_of_change hs hchange hkind hparts
  have htarget := Tree.target_mem hparts
  have hJtarget := hp.part hJ hsplit hkind hparts htarget (Or.inl rfl)
  have hagain' (x : Tree) (hx : x ∈ t.children) : o.SettlesAgain root c x :=
    hagain x (Tree.mem_preorder_of_mem_children hx x.mem_preorder_self)
  -- behind what stands in front of it, there are the children of what was exported
  have hinside {loose : Bool} {us : List Tree}
      (hin : o.inside mv loose t.isTargetOf t.children us = true) :
      ∀ v ∈ us, o.Settled root c v := by
    obtain ⟨x, hx, heach⟩ := exists_of_inside hin
    rw [find_target hparts] at hx
    cases hx
    refine hp.settled_of_each hJtarget hplain (fun x hx => hagain x ?_) heach
    exact Tree.mem_preorder_child (Tree.mem_preorder_child t.mem_preorder_self htarget) hx
  by_cases hconstant : t.becomesConstant p.target = true
  · obtain ⟨kind, declarator, rest, name, equals, value, hchildren, hvalue, hlexical, hdeclarator,
      hvalueKind, hleaves, n, hcopies, hin⟩ :=
      exists_of_declares_constant hparts hconstant hdeclares
    -- the copies are not moved by the edits: each is moved as a whole
    have hdecorators (v : Tree) (hv : v ∈ value.children.take n) : o.Settled root c v := by
      obtain ⟨d, hd, hdecorator, hsame, hkept⟩ := exists_of_mem_copies hcopies hv
      have hdroot := Tree.mem_preorder_child (Site.node_mem_preorder hs) hd
      have huntouched := h.untouched_of_decorator hs hchange hkind hparts hconstant hd hdecorator
      exact hagain' d hd (h.placement_copy hdroot hsame huntouched) d.mem_preorder_self hkept
    have hsettled : o.Settled root c value :=
      settled_of_children hvalueKind (settled_of_take_drop n hdecorators (hinside hin))
    refine ⟨?_, by rw [hlexical]; decide⟩
    exact settled_of_constant (by rw [hlexical]; rfl) hchildren hdeclarator hvalue hleaves hsettled
  · obtain ⟨hkind', n, hfront, hin⟩ := exists_of_declares_declaration hparts hconstant hdeclares
    have hdecorators (v : Tree) (hv : v ∈ u.children.take n) : o.Settled root c v := by
      obtain ⟨x, hx, hstop, hkept⟩ := exists_of_mem_eachUpTo hfront hv
      have hJx := hp.part hJ hsplit hkind hparts hx
        (Or.inr ⟨Bool.eq_false_iff.2 hconstant, hstop⟩)
      exact hagain' x hx hp hJx hkept
    rw [hkind']
    refine ⟨settled_of_children (by rw [hkind']; exact hplain) ?_, hexport⟩
    exact settled_of_take_drop n hdecorators (hinside hin)

end Output
end Injection
