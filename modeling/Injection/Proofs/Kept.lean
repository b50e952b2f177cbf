import Injection.Proofs.Quiet
import Injection.Proofs.Reread

/-!
# What is kept of a node that is there again

The questions that a pass asks a statement are about the kinds, the fields and the order of nodes.
A node that is there again gives the same answers to them, since its children correspond: the child
under a field, the declarators of a declaration, the member that a statement assigns to, and the
reasons to leave an export alone.
-/

namespace Injection

theorem Move.takes_iff {mv : Move} {out : Bytes} {loose : Bool} {l l' : Label} :
    mv.takes out loose l l' = true ↔
      (l'.kind = l.kind ∧ l'.named = l.named ∧ l'.field = l.field) ∧
        (l'.start = mv.start l.start ∧ l'.startRow = Edit.rowAt out l'.start) ∧
        (loose = true ∨ l'.stop = mv.stop l.stop ∧ l'.stopRow = Edit.rowAt out l'.stop) := by
  simp only [takes, Bool.and_eq_true, Bool.or_eq_true, decide_eq_true_eq, and_assoc]

namespace Output

variable {o : Output} {mv : Move} {loose : Bool}

theorem kept_iff {t t' : Tree} :
    o.kept mv loose t t' = true ↔
      mv.takes o.bytes loose t.label t'.label = true ∧
        (if t.kind.isContainer then o.body mv [] t.children t'.children
          else o.each mv loose t.children t'.children) = true := by
  obtain ⟨l, cs⟩ := t
  rw [kept, Bool.and_eq_true]
  rfl

/-- The kind of a node that is kept, whether it is named, and its field. -/
theorem look_of_kept {t t' : Tree} (h : o.kept mv loose t t' = true) :
    t'.kind = t.kind ∧ t'.label.named = t.label.named ∧ t'.label.field = t.label.field :=
  (Move.takes_iff.1 (kept_iff.1 h).1).1

theorem start_of_kept {t t' : Tree} (h : o.kept mv loose t t' = true) :
    t'.label.start = mv.start t.label.start ∧
      t'.label.startRow = Edit.rowAt o.bytes (mv.start t.label.start) := by
  obtain ⟨-, ⟨hstart, hrow⟩, -⟩ := Move.takes_iff.1 (kept_iff.1 h).1
  exact ⟨hstart, hstart ▸ hrow⟩

theorem stop_of_kept {t t' : Tree} (h : o.kept mv false t t' = true) :
    t'.label.stop = mv.stop t.label.stop ∧
      t'.label.stopRow = Edit.rowAt o.bytes (mv.stop t.label.stop) := by
  obtain ⟨-, -, hloose | ⟨hstop, hrow⟩⟩ := Move.takes_iff.1 (kept_iff.1 h).1
  · cases hloose
  · exact ⟨hstop, hstop ▸ hrow⟩

theorem each_of_kept {t t' : Tree} (h : o.kept mv loose t t' = true)
    (hkind : t.kind.isContainer = false) : o.each mv loose t.children t'.children = true := by
  have hchildren := (kept_iff.1 h).2
  rwa [hkind, if_neg Bool.false_ne_true] at hchildren

theorem body_of_kept {t t' : Tree} (h : o.kept mv loose t t' = true)
    (hkind : t.kind.isContainer = true) : o.body mv [] t.children t'.children = true := by
  have hchildren := (kept_iff.1 h).2
  rwa [hkind, if_pos rfl] at hchildren

/-! ## Nodes one by one -/

/-- The first of some nodes is kept, unless there are only comments. -/
theorem each_cons {t : Tree} {ts us : List Tree} (h : o.each mv loose (t :: ts) us = true)
    (hcomments : ¬ (t :: ts).all (·.kind = .comment) = true) :
    ∃ u us', us = u :: us' ∧
      o.kept mv (loose && ts.all (·.kind = .comment)) t u = true ∧
      o.each mv loose ts us' = true := by
  cases us with
  | nil =>
      rw [each.eq_def] at h
      dsimp only at h
      rw [if_neg hcomments] at h
      cases h
  | cons u us' =>
      rw [each.eq_def] at h
      dsimp only at h
      rw [if_neg hcomments, Bool.and_eq_true] at h
      exact ⟨u, us', rfl, h⟩

theorem each_of_comments {ts us : List Tree} (h : o.each mv loose ts us = true)
    (hcomments : ts.all (·.kind = .comment) = true) : us.all (·.isBareComment) = true := by
  cases ts with
  | nil => exact h
  | cons t ts =>
      rw [each.eq_def] at h
      dsimp only at h
      rwa [if_pos hcomments] at h

/-- Every node is a comment, or there was one for it. -/
theorem exists_of_mem_each {ts us : List Tree} (h : o.each mv loose ts us = true) {u : Tree}
    (hu : u ∈ us) :
    u.isBareComment = true ∨ ∃ t ∈ ts, ∃ l, o.kept mv l t u = true := by
  induction ts generalizing us with
  | nil => exact Or.inl (List.all_eq_true.1 (each_of_comments h rfl) u hu)
  | cons t ts ih =>
      by_cases hcomments : (t :: ts).all (·.kind = .comment) = true
      · exact Or.inl (List.all_eq_true.1 (each_of_comments h hcomments) u hu)
      · obtain ⟨u₁, us', rfl, hkept, heach⟩ := each_cons h hcomments
        rcases List.mem_cons.1 hu with rfl | hu
        · exact Or.inr ⟨t, List.mem_cons_self, _, hkept⟩
        · rcases ih heach hu with hbare | ⟨t₁, ht₁, hkept₁⟩
          · exact Or.inl hbare
          · exact Or.inr ⟨t₁, List.mem_cons_of_mem t ht₁, hkept₁⟩

theorem isBareComment_iff {t : Tree} :
    t.isBareComment = true ↔ t.kind = .comment ∧ t.children = [] ∧ t.label.field = none := by
  simp only [Tree.isBareComment, Bool.and_eq_true, decide_eq_true_eq, List.isEmpty_iff, and_assoc]

variable {q : Kind → Bool → Option String → Bool}

/-- The first node of some look is kept, if it is no comment. -/
theorem find_of_each {ts us : List Tree} {x : Tree} (h : o.each mv false ts us = true)
    (hx : ts.find? (fun t => q t.kind t.label.named t.label.field) = some x)
    (hkind : x.kind ≠ .comment) :
    ∃ x', us.find? (fun t => q t.kind t.label.named t.label.field) = some x' ∧
      o.kept mv false x x' = true := by
  induction ts generalizing us with
  | nil => cases hx
  | cons t ts ih =>
      have hmem := List.mem_of_find?_eq_some hx
      have hcomments : ¬ (t :: ts).all (·.kind = .comment) = true := by
        intro hall
        exact hkind (of_decide_eq_true (List.all_eq_true.1 hall x hmem))
      obtain ⟨u, us', rfl, hkept, heach⟩ := each_cons h hcomments
      rw [Bool.false_and] at hkept
      have hlook : q u.kind u.label.named u.label.field = q t.kind t.label.named t.label.field := by
        obtain ⟨h1, h2, h3⟩ := look_of_kept hkept
        rw [h1, h2, h3]
      rw [List.find?_cons] at hx ⊢
      rw [hlook]
      cases ht : q t.kind t.label.named t.label.field with
      | true =>
          rw [ht] at hx
          cases hx
          exact ⟨u, rfl, hkept⟩
      | false =>
          rw [ht] at hx
          exact ih heach hx

/-- No node of some look comes up that comments do not have. -/
theorem find_none_of_each (hq : ∀ named, q .comment named none = false) {ts us : List Tree}
    (h : o.each mv false ts us = true)
    (hnone : ts.find? (fun t => q t.kind t.label.named t.label.field) = none) :
    us.find? (fun t => q t.kind t.label.named t.label.field) = none := by
  rw [List.find?_eq_none] at hnone ⊢
  intro u hu
  rcases exists_of_mem_each h hu with hbare | ⟨t, ht, l, hkept⟩
  · obtain ⟨hkind, -, hfield⟩ := isBareComment_iff.1 hbare
    rw [hkind, hfield, hq]
    exact Bool.false_ne_true
  · obtain ⟨h1, h2, h3⟩ := look_of_kept hkept
    rw [h1, h2, h3]
    exact hnone t ht

/-- The nodes of some look that comments do not have are kept. -/
theorem filter_of_each (hq : ∀ named field, q .comment named field = false) {ts us : List Tree}
    (h : o.each mv false ts us = true) :
    List.Forall₂ (fun t u => o.kept mv false t u = true)
      (ts.filter fun t => q t.kind t.label.named t.label.field)
      (us.filter fun t => q t.kind t.label.named t.label.field) := by
  -- comments are filtered out, whether they come and go or not
  have hnil (xs : List Tree) (hxs : ∀ x ∈ xs, x.kind = .comment) :
      (xs.filter fun t => q t.kind t.label.named t.label.field) = [] := by
    rw [List.filter_eq_nil_iff]
    intro x hx
    rw [hxs x hx, hq]
    exact Bool.false_ne_true
  have hnone (xs : List Tree) (hxs : xs.all (·.kind = .comment) = true) (ys : List Tree)
      (hys : o.each mv false xs ys = true) :
      (ys.filter fun t => q t.kind t.label.named t.label.field) = [] := by
    refine hnil ys fun y hy => ?_
    exact (isBareComment_iff.1 (List.all_eq_true.1 (each_of_comments hys hxs) y hy)).1
  induction ts generalizing us with
  | nil =>
      rw [hnone [] rfl us h]
      exact List.Forall₂.nil
  | cons t ts ih =>
      by_cases hcomments : (t :: ts).all (·.kind = .comment) = true
      · have hkinds : ∀ x ∈ t :: ts, x.kind = .comment := by
          simpa only [List.all_eq_true, decide_eq_true_eq] using hcomments
        rw [hnone _ hcomments us h, hnil _ hkinds]
        exact List.Forall₂.nil
      · obtain ⟨u, us', rfl, hkept, heach⟩ := each_cons h hcomments
        rw [Bool.false_and] at hkept
        obtain ⟨h1, h2, h3⟩ := look_of_kept hkept
        rw [List.filter_cons, List.filter_cons, h1, h2, h3]
        split_ifs
        · exact List.Forall₂.cons hkept (ih heach)
        · exact ih heach

/-! ## Answers to a pass -/

/-- The comments inside a node are under no fields. -/
def FreeComments (t : Tree) : Prop := ∀ n ∈ t.preorder, n.kind = .comment → n.label.field = none

theorem FreeComments.child {t c : Tree} (h : FreeComments t) (hc : c ∈ t.children) :
    FreeComments c :=
  fun n hn => h n (Tree.mem_preorder_of_mem_children hc hn)

/-- The children under a field correspond. -/
theorem childAt_of_kept {t t' : Tree} (h : o.kept mv false t t' = true)
    (hkind : t.kind.isContainer = false) (hfree : FreeComments t) (field : String) :
    Option.Rel (fun x x' => o.kept mv false x x' = true) (t.childAt? field)
      (t'.childAt? field) := by
  have heach := each_of_kept h hkind
  let q : Kind → Bool → Option String → Bool := fun _ _ f => f = some field
  cases hx : t.childAt? field with
  | none =>
      have hnone : t'.childAt? field = none :=
        find_none_of_each (q := q) (fun _ => rfl) heach hx
      rw [hnone]
      exact Option.Rel.none
  | some x =>
      have hfield : x.label.field = some field := by
        simpa using List.find?_some hx
      have hmem := List.mem_of_find?_eq_some hx
      have hcomment : x.kind ≠ .comment := by
        intro hcomment
        have hnone := (hfree.child hmem) x x.mem_preorder_self hcomment
        rw [hnone] at hfield
        cases hfield
      obtain ⟨x', hx', hkept⟩ := find_of_each (q := q) heach hx hcomment
      have hsome : t'.childAt? field = some x' := hx'
      rw [hsome]
      exact Option.Rel.some hkept

/-- The declarators correspond. -/
theorem declarators_of_kept {t t' : Tree} (h : o.kept mv false t t' = true)
    (hkind : t.kind.isContainer = false) :
    List.Forall₂ (fun x x' => o.kept mv false x x' = true) t.declarators t'.declarators := by
  let q : Kind → Bool → Option String → Bool := fun k named _ => k = .variableDeclarator && named
  have hfilter := filter_of_each (q := q) (fun _ _ => rfl) (each_of_kept h hkind)
  unfold Tree.declarators Tree.namedChildren
  rw [List.filter_filter, List.filter_filter]
  exact hfilter

/-- An export by default is one again. -/
theorem any_default_of_kept {t t' : Tree} (h : o.kept mv false t t' = true)
    (hkind : t.kind.isContainer = false) :
    t'.children.any (·.kind = .defaultKeyword) = t.children.any (·.kind = .defaultKeyword) := by
  let q : Kind → Bool → Option String → Bool := fun k _ _ => k = .defaultKeyword
  have hlength := (filter_of_each (q := q) (fun _ _ => rfl) (each_of_kept h hkind)).length_eq
  rw [Bool.eq_iff_iff, List.any_eq_true, List.any_eq_true, ← List.length_filter_pos_iff,
    ← List.length_filter_pos_iff]
  exact Eq.to_iff (congrArg (0 < ·) hlength.symm)

theorem isTarget_of_kept {t t' : Tree} (h : o.kept mv loose t t' = true) :
    t'.isTarget = t.isTarget := by
  obtain ⟨hkind, hnamed, -⟩ := look_of_kept h
  unfold Tree.isTarget Tree.isClass Tree.isFunction
  rw [hkind, hnamed]

theorem or_of_rel {R : Tree → Tree → Prop} {a b c d : Option Tree} (h : Option.Rel R a b)
    (h' : Option.Rel R c d) : Option.Rel R (a.or c) (b.or d) := by
  cases h with
  | some h => exact Option.Rel.some h
  | none => exact h'

/-- What was there of something that is there again. -/
theorem exists_of_rel_some {R : Tree → Tree → Prop} {a : Option Tree} {x' : Tree}
    (h : Option.Rel R a (some x')) : ∃ x, a = some x ∧ R x x' := by
  cases h with
  | some h => exact ⟨_, rfl, h⟩

/-- What is there again of something that was there. -/
theorem exists_of_rel {R : Tree → Tree → Prop} {a b : Option Tree} {x : Tree}
    (h : Option.Rel R a b) (hx : a = some x) : ∃ x', b = some x' ∧ R x x' := by
  subst hx
  cases h with
  | some h => exact ⟨_, rfl, h⟩

theorem isSome_of_rel {R : Tree → Tree → Prop} {a b : Option Tree} (h : Option.Rel R a b) :
    b.isSome = a.isSome := by
  cases h with
  | some => rfl
  | none => rfl

/-- The first declarators correspond. -/
theorem head_declarators_of_kept {t t' d' : Tree} (h : o.kept mv false t t' = true)
    (hkind : t.kind.isContainer = false) (hd : t'.declarators.head? = some d') :
    ∃ d, t.declarators.head? = some d ∧ o.kept mv false d d' = true := by
  have hall := declarators_of_kept h hkind
  cases hds' : t'.declarators with
  | nil =>
      rw [hds'] at hd
      cases hd
  | cons e' es' =>
      rw [hds'] at hd hall
      cases hd
      cases hds : t.declarators with
      | nil =>
          rw [hds] at hall
          cases hall
      | cons e es =>
          rw [hds] at hall
          exact ⟨e, rfl, (List.forall₂_cons.1 hall).1⟩

/-- A declarator is a child of its declaration. -/
theorem of_mem_declarators {t d : Tree} (h : d ∈ t.declarators) :
    d ∈ t.children ∧ d.kind = .variableDeclarator := by
  obtain ⟨hnamed, hkind⟩ := List.mem_filter.1 h
  exact ⟨(List.mem_filter.1 hnamed).1, of_decide_eq_true hkind⟩

/-- An export by default that is left alone is left alone again. -/
theorem defaultIdle_of_kept {target target' : Tree} (h : o.kept mv false target target' = true)
    (hfree : FreeComments target)
    (hidle : (target.childAt? "name" = none ∧ target.kind = .abstractClassDeclaration) ∨
      target.isTarget = false) :
    (target'.childAt? "name" = none ∧ target'.kind = .abstractClassDeclaration) ∨
      target'.isTarget = false := by
  rcases hidle with ⟨hname, habstract⟩ | htarget
  · have hkind : target.kind.isContainer = false := by
      rw [habstract]
      rfl
    have hrel := childAt_of_kept h hkind hfree "name"
    rw [hname] at hrel
    exact Or.inl ⟨Option.isNone_iff_eq_none.1 (by simpa using isSome_of_rel hrel),
      (look_of_kept h).1.trans habstract⟩
  · exact Or.inr ((isTarget_of_kept h).trans htarget)

/-- A declarator that binds an identifier does so again. -/
theorem identifier_of_kept {d d' : Tree} (h : o.kept mv false d d' = true)
    (hkind : d.kind = .variableDeclarator) (hfree : FreeComments d)
    (hname : ((d.childAt? "name").filter (·.kind = .identifier)).isSome = true) :
    ((d'.childAt? "name").filter (·.kind = .identifier)).isSome = true := by
  have hcontainer : d.kind.isContainer = false := by
    rw [hkind]
    rfl
  have hrel := childAt_of_kept h hcontainer hfree "name"
  revert hname hrel
  generalize d.childAt? "name" = a, d'.childAt? "name" = b
  rw [Option.isSome_filter, Option.isSome_filter]
  intro hname hrel
  cases hrel with
  | none => exact hname
  | some hkept =>
      rw [Option.any_some] at hname ⊢
      rwa [(look_of_kept hkept).1]

/-- The value of the first declarator is there again. -/
theorem value_of_kept {t t' value' : Tree} (h : o.kept mv false t t' = true)
    (hkind : t.kind.isContainer = false) (hfree : FreeComments t)
    (hvalue : t'.declarators.head?.bind (·.childAt? "value") = some value') :
    ∃ value, t.declarators.head?.bind (·.childAt? "value") = some value ∧
      o.kept mv false value value' = true := by
  obtain ⟨d', hd', hvalue'⟩ := Option.bind_eq_some_iff.1 hvalue
  obtain ⟨d, hd, hkept⟩ := head_declarators_of_kept h hkind hd'
  obtain ⟨hmem, hdkind⟩ := of_mem_declarators (List.mem_of_mem_head? hd)
  have hcontainer : d.kind.isContainer = false := by
    rw [hdkind]
    rfl
  have hrel := childAt_of_kept hkept hcontainer (hfree.child hmem) "value"
  rw [hvalue'] at hrel
  obtain ⟨value, hsome, hvalue⟩ := exists_of_rel_some hrel
  exact ⟨value, Option.bind_eq_some_iff.2 ⟨d, hd, hsome⟩, hvalue⟩

/-- An export that is left alone is left alone again. -/
theorem exportIdle_of_kept {t t' : Tree} (h : o.kept mv false t t' = true)
    (hkind : t.kind.isContainer = false) (hfree : FreeComments t) (hidle : t.ExportIdle) :
    t'.ExportIdle := by
  unfold Tree.ExportIdle at hidle ⊢
  rw [any_default_of_kept h hkind]
  have hchild := childAt_of_kept h hkind hfree
  split_ifs with hdefault
  · rw [if_pos hdefault] at hidle
    intro target' htarget' hexportable
    obtain ⟨target, htarget, hkept⟩ :=
      exists_of_rel_some (htarget' ▸ or_of_rel (hchild "declaration") (hchild "value"))
    have hmem : target ∈ t.children := by
      rcases Option.or_eq_some_iff.1 htarget with hsome | ⟨-, hsome⟩
      · exact List.mem_of_find?_eq_some hsome
      · exact List.mem_of_find?_eq_some hsome
    rw [(look_of_kept hkept).1] at hexportable
    exact defaultIdle_of_kept hkept (hfree.child hmem) (hidle target htarget hexportable)
  · rw [if_neg hdefault] at hidle
    intro declaration' hdeclaration'
    obtain ⟨declaration, hdeclaration, hkept⟩ :=
      exists_of_rel_some (hdeclaration' ▸ hchild "declaration")
    have hfree' := hfree.child (List.mem_of_find?_eq_some hdeclaration)
    have hidle := hidle declaration hdeclaration
    rw [(look_of_kept hkept).1]
    split_ifs with hvariable
    · rw [if_pos hvariable] at hidle
      have hcontainer := (Kind.ne_of_exported (Or.inr (Or.inl hvariable))).2.2
      refine ⟨?_, ?_⟩
      · intro d' hd'
        obtain ⟨d, hd, hd'⟩ := (exists_of_forall₂ (declarators_of_kept hkept hcontainer)).2 d' hd'
        obtain ⟨hmem, hdkind⟩ := of_mem_declarators hd
        exact identifier_of_kept hd' hdkind (hfree'.child hmem) (hidle.1 d hd)
      · intro value' hvalue'
        obtain ⟨value, hvalue, hkept'⟩ := value_of_kept hkept hcontainer hfree' hvalue'
        exact (isTarget_of_kept hkept').trans (hidle.2 value hvalue)
    · rw [if_neg hvariable] at hidle
      intro hdeclared
      obtain ⟨hname, htarget⟩ := hidle hdeclared
      have hcontainer := (Kind.ne_of_exported (Or.inl hdeclared)).2.2
      have hrel := childAt_of_kept hkept hcontainer hfree' "name"
      exact ⟨(isSome_of_rel hrel).trans hname, (isTarget_of_kept hkept).trans htarget⟩

theorem assignedMember_eq_some_iff {n object property : Tree} :
    Site.assignedMember? n = some (object, property) ↔
      n.kind = .expressionStatement ∧
        ∃ e, n.namedChildren.head? = some e ∧ e.kind = .assignmentExpression ∧
          ∃ left, e.childAt? "left" = some left ∧ left.kind = .memberExpression ∧
            left.childAt? "object" = some object ∧ left.childAt? "property" = some property := by
  unfold Site.assignedMember?
  constructor
  · intro h
    split_ifs at h with hkind
    split at h
    · cases h
    · next e he =>
        split_ifs at h with hassign
        split at h
        · cases h
        · next left hleft =>
            split_ifs at h with hmember
            split at h
            · next object₁ property₁ hobject hproperty =>
                cases h
                exact ⟨not_not.1 hkind, e, he, not_not.1 hassign, left, hleft, not_not.1 hmember,
                  hobject, hproperty⟩
            · cases h
  · rintro ⟨hkind, e, he, hassign, left, hleft, hmember, hobject, hproperty⟩
    simp only [hkind, he, hassign, hleft, hmember, hobject, hproperty, ne_eq, not_true_eq_false,
      if_false]

/-- The first named child is there again, if it is no comment. -/
theorem head_namedChildren_of_kept {t t' e : Tree} (h : o.kept mv false t t' = true)
    (hkind : t.kind.isContainer = false) (he : t.namedChildren.head? = some e)
    (hcomment : e.kind ≠ .comment) :
    ∃ e', t'.namedChildren.head? = some e' ∧ o.kept mv false e e' = true := by
  unfold Tree.namedChildren at he ⊢
  rw [List.head?_filter] at he ⊢
  exact find_of_each (q := fun _ named _ => named) (each_of_kept h hkind) he hcomment

/-- A statement that assigns to a member does so again, to the same member. -/
theorem assignedMember_of_kept {J : Tree → Prop}
    (hJ : ∀ {t x : Tree}, J t → t.kind.isContainer = false → x ∈ t.children → J x)
    {n n' object property : Tree} (h : o.kept mv false n n' = true) (hfree : FreeComments n)
    (hn : J n) (hm : Site.assignedMember? n = some (object, property)) :
    ∃ object' property', Site.assignedMember? n' = some (object', property') ∧
      (J object ∧ o.kept mv false object object' = true) ∧
        (J property ∧ o.kept mv false property property' = true) := by
  obtain ⟨hkind, e, he, hassign, left, hleft, hmember, hobject, hproperty⟩ :=
    assignedMember_eq_some_iff.1 hm
  have hn0 : n.kind.isContainer = false := by rw [hkind]; rfl
  have he0 : e.kind.isContainer = false := by rw [hassign]; rfl
  have hl0 : left.kind.isContainer = false := by rw [hmember]; rfl
  have hemem : e ∈ n.children :=
    (List.mem_filter.1 (List.mem_of_mem_head? he)).1
  have hlmem : left ∈ e.children := List.mem_of_find?_eq_some hleft
  have hefree := hfree.child hemem
  have hlfree := hefree.child hlmem
  have hJl : J left := hJ (hJ hn hn0 hemem) he0 hlmem
  obtain ⟨e', he', hkepte⟩ := head_namedChildren_of_kept h hn0 he (by rw [hassign]; decide)
  obtain ⟨left', hleft', hkeptl⟩ := exists_of_rel (childAt_of_kept hkepte he0 hefree "left") hleft
  obtain ⟨object', hobject', hkepto⟩ :=
    exists_of_rel (childAt_of_kept hkeptl hl0 hlfree "object") hobject
  obtain ⟨property', hproperty', hkeptp⟩ :=
    exists_of_rel (childAt_of_kept hkeptl hl0 hlfree "property") hproperty
  refine ⟨object', property', ?_, ⟨hJ hJl hl0 (List.mem_of_find?_eq_some hobject), hkepto⟩,
    hJ hJl hl0 (List.mem_of_find?_eq_some hproperty), hkeptp⟩
  exact assignedMember_eq_some_iff.2 ⟨(look_of_kept h).1.trans hkind, e', he',
    (look_of_kept hkepte).1.trans hassign, left', hleft', (look_of_kept hkeptl).1.trans hmember,
    hobject', hproperty'⟩

end Output
end Injection
