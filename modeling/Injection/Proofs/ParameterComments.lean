import Injection.Proofs.TreeOrder
import Mathlib.Data.List.Forall2
import Mathlib.Logic.Relation

/-!
# Comments among parameters

A parameter declares at most one name.  It is found by going from child to child: to the pattern of
a typed parameter, to the left side of a default, into a rest parameter.  Comments may stand among
the children everywhere, and what a parameter declares does not depend on them.

The search for the name goes to the first named child of a rest parameter, and a comment is a named
node.  So a comment that stands directly behind the dots covers the name.

* `boundName?_eq_some_iff`: the search finds the name that a parameter declares, if it is not
  covered.
* `CommentPut.declares_iff`, `CommentPut.covered`: a comment that is put in changes nothing that is
  declared; it may cover a name and uncovers none.
* **`parameterNames_put_comments`**: what comments do to the names of a list of parameters.
-/

namespace Injection

namespace Kind

/-- Nodes of parameters, and what a parameter consists of on the way to its name. -/
def holdsParameters : Kind → Bool
  | .formalParameters | .requiredParameter | .optionalParameter | .assignmentPattern
  | .restPattern => true
  | _ => false

/-- Whether the name of a parameter is to be looked for in a child with a given label. -/
def leadsTo : Kind → Label → Bool
  | .requiredParameter, l | .optionalParameter, l => l.field = some "pattern"
  | .assignmentPattern, l => l.field = some "left"
  | .restPattern, l => l.named && l.kind ≠ .comment
  | _, _ => false

theorem ne_identifier_of_leadsTo {k : Kind} {l : Label} (h : k.leadsTo l = true) :
    k ≠ .identifier := by
  rintro rfl
  cases h

/-- A comment that no field holds is never on the way to a name. -/
theorem leadsTo_comment (k : Kind) {l : Label} (hkind : l.kind = .comment)
    (hfield : l.field = none) : k.leadsTo l = false := by
  cases k <;> simp [leadsTo, hkind, hfield]

end Kind

namespace Tree

/-! ## Declared names -/

/-- The child in which the name of a parameter stands. -/
def nameChild? (t : Tree) : Option Tree := t.children.find? fun c => t.kind.leadsTo c.label

/-- The name that a parameter declares, wherever comments stand. -/
inductive Declares (source : Bytes) : Tree → String → Prop
  | plain {t : Tree} (hkind : t.kind = .identifier) : Declares source t (t.text source)
  | within {t c : Tree} {name : String} (hc : t.nameChild? = some c)
      (h : Declares source c name) : Declares source t name

/-- A parameter whose name stands in a rest parameter, behind a comment. -/
inductive Covered : Tree → Prop
  | rest {t c : Tree} (hkind : t.kind = .restPattern) (hc : t.namedChildren.head? = some c)
      (hcomment : c.kind = .comment) : Covered t
  | within {t c : Tree} (hc : t.nameChild? = some c) (h : Covered c) : Covered t

variable {source : Bytes} {t t' c : Tree} {name : String}

theorem leadsTo_of_nameChild (h : t.nameChild? = some c) : t.kind.leadsTo c.label = true := by
  simpa using List.find?_some (p := fun c : Tree => t.kind.leadsTo c.label) h

theorem mem_of_nameChild (h : t.nameChild? = some c) : c ∈ t.children := List.mem_of_find?_eq_some h

theorem declares_iff (hkind : t.kind ≠ .identifier) :
    Declares source t name ↔ ∃ c, t.nameChild? = some c ∧ Declares source c name := by
  constructor
  · intro h
    cases h with
    | plain hplain => exact absurd hplain hkind
    | within hc h => exact ⟨_, hc, h⟩
  · rintro ⟨c, hc, h⟩
    exact .within hc h

theorem declares_node_iff {l : Label} {cs : List Tree} (hkind : l.kind.holdsParameters = true) :
    Declares source (node l cs) name ↔
      ∃ c, (node l cs).nameChild? = some c ∧ Declares source c name := by
  refine declares_iff ?_
  intro hplain
  change l.kind = .identifier at hplain
  rw [hplain] at hkind
  cases hkind

theorem covered_iff :
    t.Covered ↔
      (t.kind = .restPattern ∧ ∃ c, t.namedChildren.head? = some c ∧ c.kind = .comment) ∨
        ∃ c, t.nameChild? = some c ∧ c.Covered := by
  constructor
  · intro h
    cases h with
    | rest hkind hc hcomment => exact .inl ⟨hkind, _, hc, hcomment⟩
    | within hc h => exact .inr ⟨_, hc, h⟩
  · rintro (⟨hkind, c, hc, hcomment⟩ | ⟨c, hc, h⟩)
    · exact .rest hkind hc hcomment
    · exact .within hc h

/-- A parameter declares one name at most. -/
theorem Declares.unique {other : String} (h : Declares source t name)
    (h' : Declares source t other) : name = other := by
  induction h with
  | plain hkind =>
      cases h' with
      | plain => rfl
      | within hc => exact absurd hkind (Kind.ne_identifier_of_leadsTo (leadsTo_of_nameChild hc))
  | within hc _ ih =>
      cases h' with
      | plain hkind => exact absurd hkind (Kind.ne_identifier_of_leadsTo (leadsTo_of_nameChild hc))
      | within hc' h' =>
          rw [hc] at hc'
          cases hc'
          exact ih h'

/-! ## The search -/

theorem boundNameWhere?_eq (source : Bytes) (p : Label → Bool) (ts : List Tree) :
    boundNameWhere? source p ts = (ts.find? fun t => p t.label).bind (boundName? source) := by
  induction ts with
  | nil => rfl
  | cons t ts ih =>
      rw [boundNameWhere?, List.find?_cons]
      cases h : p t.label with
      | true => simp
      | false => simpa using ih

/-- Away from rest parameters the search goes where the name stands. -/
theorem boundName?_eq (hkind : t.kind ≠ .identifier) (hrest : t.kind ≠ .restPattern) :
    boundName? source t = t.nameChild?.bind (boundName? source) := by
  obtain ⟨l, cs⟩ := t
  simp only [kind, label] at hkind hrest
  have hchild : (node l cs).nameChild? = cs.find? fun c => l.kind.leadsTo c.label := rfl
  rw [boundName?, hchild]
  split
  · contradiction
  · next h => rw [boundNameWhere?_eq, h]; rfl
  · next h => rw [boundNameWhere?_eq, h]; rfl
  · next h => rw [boundNameWhere?_eq, h]; rfl
  · contradiction
  · -- no other node has a child that leads to a name
    have hnone : (cs.find? fun c => l.kind.leadsTo c.label) = none := by
      refine List.find?_eq_none.2 fun c _ => ?_
      unfold Kind.leadsTo
      split <;> simp_all
    rw [hnone, Option.bind_none]

theorem boundName?_rest (hrest : t.kind = .restPattern) :
    boundName? source t = t.namedChildren.head?.bind (boundName? source) := by
  obtain ⟨l, cs⟩ := t
  simp only [kind, label] at hrest
  rw [boundName?, hrest]
  simp only [boundNameWhere?_eq, namedChildren, children, List.head?_filter]

theorem boundName?_comment (hcomment : t.kind = .comment) : boundName? source t = none := by
  obtain ⟨l, cs⟩ := t
  simp only [kind, label] at hcomment
  rw [boundName?, hcomment]

/-- The name of a rest parameter stands in the first named child that is no comment. -/
theorem nameChild?_rest (hrest : t.kind = .restPattern) :
    t.nameChild? = t.namedChildren.find? (·.kind ≠ .comment) := by
  rw [nameChild?, namedChildren, List.find?_filter, hrest]
  refine congrArg (List.find? · t.children) (funext fun c => ?_)
  rw [Bool.eq_iff_iff]
  simp only [Kind.leadsTo, Bool.and_eq_true, decide_eq_true_eq]
  rfl

/-- The search goes where the name stands, unless it comes upon a comment. -/
theorem boundName?_cases (source : Bytes) (hkind : t.kind ≠ .identifier) :
    (t.Covered ∧ boundName? source t = none) ∨
      boundName? source t = t.nameChild?.bind (boundName? source) := by
  by_cases hrest : t.kind = .restPattern
  case neg => exact .inr (boundName?_eq hkind hrest)
  case pos =>
    rw [boundName?_rest hrest, nameChild?_rest hrest]
    cases hnamed : t.namedChildren with
    | nil => simp
    | cons c cs =>
        by_cases hcomment : c.kind = .comment
        · refine .inl ⟨.rest hrest (by rw [hnamed, List.head?_cons]) hcomment, ?_⟩
          rw [List.head?_cons, Option.bind_some, boundName?_comment hcomment]
        · rw [List.head?_cons, List.find?_cons_of_pos (by simpa using hcomment)]
          exact .inr rfl

/-- A covered name is not found. -/
theorem Covered.boundName?_eq_none (h : t.Covered) : boundName? source t = none := by
  induction h with
  | rest hkind hc hcomment =>
      rw [boundName?_rest hkind, hc, Option.bind_some, boundName?_comment hcomment]
  | within hc _ ih =>
      have hkind := Kind.ne_identifier_of_leadsTo (leadsTo_of_nameChild hc)
      rcases boundName?_cases source hkind with ⟨-, hnone⟩ | heq
      · exact hnone
      · rw [heq, hc, Option.bind_some, ih]

/-- **What the search finds**: the name that a parameter declares, unless it is covered. -/
theorem boundName?_eq_some_iff :
    boundName? source t = some name ↔ Declares source t name ∧ ¬ t.Covered := by
  induction t using Tree.induction with
  | node l cs ih =>
      by_cases hcovered : (node l cs).Covered
      · simp [hcovered, hcovered.boundName?_eq_none]
      by_cases hkind : (node l cs).kind = .identifier
      · have hname : boundName? source (node l cs) = some ((node l cs).text source) := by
          simp only [kind, label] at hkind
          rw [boundName?, hkind]
        rw [hname]
        constructor
        · rintro ⟨⟩
          exact ⟨.plain hkind, hcovered⟩
        · rintro ⟨hdeclares, -⟩
          rw [hdeclares.unique (.plain hkind)]
      · have hsearch := (boundName?_cases source hkind).resolve_left fun h => hcovered h.1
        rw [hsearch, Option.bind_eq_some_iff, declares_iff hkind]
        constructor
        · rintro ⟨c, hc, hname⟩
          exact ⟨⟨c, hc, ((ih c (mem_of_nameChild hc)).1 hname).1⟩, hcovered⟩
        · rintro ⟨⟨c, hc, hdeclares⟩, -⟩
          exact ⟨c, hc, (ih c (mem_of_nameChild hc)).2
            ⟨hdeclares, fun h => hcovered (.within hc h)⟩⟩

/-! ## Putting comments in -/

/-- A comment is put among the children of a node of parameters, or of a node inside it on the way
to a name.  `allowed` says among the children of which nodes, and behind which of these. -/
inductive CommentPut (allowed : Label → List Tree → Prop) : Tree → Tree → Prop
  | here {l : Label} {xs ys : List Tree} {c : Tree} (hkind : l.kind.holdsParameters = true)
      (hallowed : allowed l xs) (hcomment : c.kind = .comment) (hfield : c.label.field = none) :
      CommentPut allowed (.node l (xs ++ ys)) (.node l (xs ++ c :: ys))
  | inside {l : Label} {xs ys : List Tree} {x x' : Tree} (hkind : l.kind.holdsParameters = true)
      (h : CommentPut allowed x x') :
      CommentPut allowed (.node l (xs ++ x :: ys)) (.node l (xs ++ x' :: ys))

/-- Among the children of a rest parameter only behind a named child. -/
def BehindRest (l : Label) (xs : List Tree) : Prop :=
  l.kind = .restPattern → ∃ x ∈ xs, x.label.named = true

variable {allowed : Label → List Tree → Prop} {x x' : Tree}

theorem CommentPut.label_eq (h : CommentPut allowed t t') : t'.label = t.label := by
  cases h <;> rfl

theorem find?_put {xs ys : List Tree} {p : Tree → Bool}
    (h : p c = false ∨ ∃ x ∈ xs, p x = true) :
    (xs ++ c :: ys).find? p = (xs ++ ys).find? p := by
  rw [List.find?_append, List.find?_append]
  rcases h with h | ⟨x, hx, hp⟩
  · rw [List.find?_cons_of_neg (by simp [h])]
  · obtain ⟨y, hy⟩ := Option.isSome_iff_exists.1 (List.find?_isSome.2 ⟨x, hx, hp⟩)
    rw [hy, Option.some_or, Option.some_or]

/-- A search that asks for labels goes to the same child when a child is replaced by one with its
label. -/
theorem find?_inside (p : Label → Bool) (xs ys : List Tree) (hlabel : x'.label = x.label) :
    ((xs ++ x' :: ys).find? (p ·.label) = (xs ++ x :: ys).find? (p ·.label)) ∨
      ((xs ++ x :: ys).find? (p ·.label) = some x ∧
        (xs ++ x' :: ys).find? (p ·.label) = some x') := by
  rw [List.find?_append, List.find?_append]
  cases hxs : xs.find? (p ·.label) with
  | some y => simp
  | none =>
      cases hp : p x.label with
      | true => simp [hp, hlabel]
      | false => simp [hp, hlabel]

theorem nameChild?_put {l : Label} {xs ys : List Tree} (hcomment : c.kind = .comment)
    (hfield : c.label.field = none) :
    (node l (xs ++ c :: ys)).nameChild? = (node l (xs ++ ys)).nameChild? :=
  find?_put (.inl (Kind.leadsTo_comment _ hcomment hfield))

theorem nameChild?_inside (l : Label) (xs ys : List Tree) (hlabel : x'.label = x.label) :
    (node l (xs ++ x' :: ys)).nameChild? = (node l (xs ++ x :: ys)).nameChild? ∨
      ((node l (xs ++ x :: ys)).nameChild? = some x ∧
        (node l (xs ++ x' :: ys)).nameChild? = some x') :=
  find?_inside l.kind.leadsTo xs ys hlabel

/-- A comment put in does not change what is declared. -/
theorem CommentPut.declares_iff (h : CommentPut allowed t t') :
    Declares source t' name ↔ Declares source t name := by
  induction h with
  | here hkind _ hcomment hfield =>
      rw [declares_node_iff hkind, declares_node_iff hkind, nameChild?_put hcomment hfield]
  | @inside l xs ys x x' hkind h ih =>
      rw [declares_node_iff hkind, declares_node_iff hkind]
      rcases nameChild?_inside l xs ys h.label_eq with heq | ⟨hx, hx'⟩
      · rw [heq]
      · simp [hx, hx', ih]

/-- The first named child behind a comment put in: it is the same one, or it is the comment. -/
theorem namedChildren_put (l : Label) (xs ys : List Tree) (c : Tree) :
    (node l (xs ++ c :: ys)).namedChildren.head? = (node l (xs ++ ys)).namedChildren.head? ∨
      ((node l (xs ++ c :: ys)).namedChildren.head? = some c ∧
        ∀ x ∈ xs, x.label.named = false) := by
  simp only [namedChildren, children, List.head?_filter]
  by_cases hxs : ∃ x ∈ xs, x.label.named = true
  · exact .inl (find?_put (.inr hxs))
  · have hnone : xs.find? (·.label.named) = none := by
      refine List.find?_eq_none.2 fun x hx hnamed => hxs ⟨x, hx, hnamed⟩
    cases hc : c.label.named with
    | false => exact .inl (find?_put (.inl hc))
    | true =>
        refine .inr ⟨?_, fun x hx => ?_⟩
        · rw [List.find?_append, hnone, Option.none_or]
          simp [hc]
        · simpa using List.find?_eq_none.1 hnone x hx

/-- A name that is covered stays so when the child that it stands in is replaced by one with its
label that covers it too. -/
theorem covered_inside {l : Label} {xs ys : List Tree} (hlabel : x'.label = x.label)
    (hx : x.Covered → x'.Covered)
    (h : (node l (xs ++ x :: ys)).Covered) : (node l (xs ++ x' :: ys)).Covered := by
  rcases covered_iff.1 h with ⟨hrest, d, hd, hcomment⟩ | ⟨d, hd, hcovered⟩
  · rw [namedChildren, List.head?_filter] at hd
    rcases find?_inside Label.named xs ys hlabel with heq | ⟨hfound, hfound'⟩
    · exact .rest hrest ((List.head?_filter ..).trans (heq.trans hd)) hcomment
    · obtain rfl : x = d := Option.some.inj (hfound.symm.trans hd)
      exact .rest hrest ((List.head?_filter ..).trans hfound')
        ((congrArg Label.kind hlabel).trans hcomment)
  · rcases nameChild?_inside l xs ys hlabel with heq | ⟨hfound, hfound'⟩
    · exact .within (heq.trans hd) hcovered
    · obtain rfl : x = d := Option.some.inj (hfound.symm.trans hd)
      exact .within hfound' (hx hcovered)

/-- A comment put in uncovers no name. -/
theorem CommentPut.covered (h : CommentPut allowed t t') (hcovered : t.Covered) : t'.Covered := by
  induction h with
  | @here l xs ys c hkind _ hcomment hfield =>
      rcases covered_iff.1 hcovered with ⟨hrest, d, hd, hnote⟩ | ⟨d, hd, hcovered⟩
      · rcases namedChildren_put l xs ys c with heq | ⟨hc, -⟩
        · exact .rest hrest (heq.trans hd) hnote
        · exact .rest hrest hc hcomment
      · exact .within ((nameChild?_put hcomment hfield).trans hd) hcovered
  | inside hkind h ih => exact covered_inside h.label_eq ih hcovered

/-- A comment that is not put in front of the named children of a rest parameter covers no name. -/
theorem CommentPut.covered_of_behind (h : CommentPut BehindRest t t') (hcovered : t'.Covered) :
    t.Covered := by
  induction h with
  | @here l xs ys c hkind hallowed hcomment hfield =>
      rcases covered_iff.1 hcovered with ⟨hrest, d, hd, hnote⟩ | ⟨d, hd, hcovered⟩
      · rcases namedChildren_put l xs ys c with heq | ⟨-, hxs⟩
        · exact .rest hrest (heq.symm.trans hd) hnote
        · obtain ⟨x, hx, hnamed⟩ := hallowed hrest
          rw [hxs x hx] at hnamed
          cases hnamed
      · exact .within ((nameChild?_put hcomment hfield).symm.trans hd) hcovered
  | inside hkind h ih => exact covered_inside h.label_eq.symm ih hcovered

/-! ## Any number of comments -/

/-- Comments put in one after the other. -/
def CommentsPut (allowed : Label → List Tree → Prop) : Tree → Tree → Prop :=
  Relation.ReflTransGen (CommentPut allowed)

theorem CommentsPut.label_eq (h : CommentsPut allowed t t') : t'.label = t.label := by
  induction h with
  | refl => rfl
  | tail _ hput ih => exact hput.label_eq.trans ih

theorem CommentsPut.declares_iff (h : CommentsPut allowed t t') :
    Declares source t' name ↔ Declares source t name := by
  induction h with
  | refl => exact Iff.rfl
  | tail _ hput ih => exact hput.declares_iff.trans ih

theorem CommentsPut.covered (h : CommentsPut allowed t t') (hcovered : t.Covered) :
    t'.Covered := by
  induction h with
  | refl => exact hcovered
  | tail _ hput ih => exact hput.covered ih

theorem CommentsPut.covered_of_behind (h : CommentsPut BehindRest t t')
    (hcovered : t'.Covered) : t.Covered := by
  induction h with
  | refl => exact hcovered
  | tail _ hput ih => exact ih (hput.covered_of_behind hcovered)

/-- Whether a child of a list of parameters is a parameter. -/
def isParameter (t : Tree) : Bool := t.label.named && t.kind ≠ .comment

/-- The parameters of a list of parameters. -/
def parameters (t : Tree) : List Tree := t.children.filter isParameter

theorem parameterNames_eq (hkind : t.kind = .formalParameters) :
    parameterNames source t = t.parameters.flatMap (boundNames source) := by
  have hparameters : t.namedChildren.filter (·.kind ≠ .comment) = t.parameters := by
    rw [namedChildren, List.filter_filter, parameters]
    exact List.filter_congr fun c _ => Bool.and_comm _ _
  rw [parameterNames, if_pos hkind, hparameters]

theorem forall₂_trans {α : Type} {R : α → α → Prop} (hR : ∀ {a b c}, R a b → R b c → R a c)
    {as bs cs : List α} (h : List.Forall₂ R as bs) (h' : List.Forall₂ R bs cs) :
    List.Forall₂ R as cs := by
  induction h generalizing cs with
  | nil => exact h'
  | cons hab _ ih =>
      cases h' with
      | cons hbc h' => exact .cons (hR hab hbc) (ih h')

/-- A comment put in is no parameter, or it is put into one of the parameters. -/
theorem CommentPut.parameters (h : CommentPut allowed t t') :
    List.Forall₂ (CommentsPut allowed) t.parameters t'.parameters := by
  have hrefl (ts : List Tree) : List.Forall₂ (CommentsPut allowed) ts ts :=
    List.forall₂_same.2 fun _ _ => .refl
  cases h with
  | @here l xs ys c hkind hallowed hcomment hfield =>
      have hc : ¬ c.isParameter = true := by simp [isParameter, hcomment]
      simp only [Tree.parameters, children, List.filter_append, List.filter_cons_of_neg hc]
      exact hrefl _
  | @inside l xs ys x x' hkind h =>
      have hx : x'.isParameter = x.isParameter := by
        unfold isParameter kind
        rw [h.label_eq]
      simp only [Tree.parameters, children, List.filter_append, List.filter_cons, hx]
      refine List.rel_append (hrefl _) ?_
      split
      · exact .cons (.single h) (hrefl _)
      · exact hrefl _

theorem CommentsPut.parameters (h : CommentsPut allowed t t') :
    List.Forall₂ (CommentsPut allowed) t.parameters t'.parameters := by
  induction h with
  | refl => exact List.forall₂_same.2 fun _ _ => .refl
  | tail _ hput ih => exact forall₂_trans Relation.ReflTransGen.trans ih hput.parameters

/-! ## Names in order -/

/-- The names that parameters declare, in their order; empty ones do not count. -/
inductive DeclareInOrder (source : Bytes) : List Tree → List String → Prop
  | nil : DeclareInOrder source [] []
  | name {p : Tree} {ps : List Tree} {x : String} {xs : List String} (hx : Declares source p x)
      (hne : x ≠ "") (hrest : DeclareInOrder source ps xs) :
      DeclareInOrder source (p :: ps) (x :: xs)
  | skip {p : Tree} {ps : List Tree} {xs : List String}
      (hp : ∀ x, Declares source p x → x = "") (hrest : DeclareInOrder source ps xs) :
      DeclareInOrder source (p :: ps) xs

theorem exists_declareInOrder (source : Bytes) (ps : List Tree) :
    ∃ names, DeclareInOrder source ps names := by
  induction ps with
  | nil => exact ⟨[], .nil⟩
  | cons p ps ih =>
      obtain ⟨names, hnames⟩ := ih
      by_cases hp : ∃ x, Declares source p x ∧ x ≠ ""
      · obtain ⟨x, hx, hne⟩ := hp
        exact ⟨x :: names, .name hx hne hnames⟩
      · refine ⟨names, .skip (fun x hx => ?_) hnames⟩
        by_contra hne
        exact hp ⟨x, hx, hne⟩

/-- Parameters that declare the same names declare them in the same order. -/
theorem DeclareInOrder.congr {ps ps' : List Tree} {names : List String}
    (h : DeclareInOrder source ps names)
    (hsame : List.Forall₂ (fun p p' => ∀ x, Declares source p' x ↔ Declares source p x) ps ps') :
    DeclareInOrder source ps' names := by
  induction h generalizing ps' with
  | nil =>
      cases hsame
      exact .nil
  | name hx hne _ ih =>
      cases hsame with
      | cons hp hps => exact .name ((hp _).2 hx) hne (ih hps)
  | skip hskip _ ih =>
      cases hsame with
      | cons hp hps => exact .skip (fun x hx => hskip x ((hp x).1 hx)) (ih hps)

variable {p p' : Tree} {x : String}

theorem boundNames_eq_singleton (hx : Declares source p x) (hne : x ≠ "")
    (hcovered : ¬ p.Covered) : boundNames source p = [x] := by
  rw [boundNames, boundName?_eq_some_iff.2 ⟨hx, hcovered⟩]
  simp [hne]

theorem boundNames_eq_nil (h : ∀ x, Declares source p x → x ≠ "" → p.Covered) :
    boundNames source p = [] := by
  cases hname : boundName? source p with
  | none => simp [boundNames, hname]
  | some x =>
      obtain ⟨hx, hcovered⟩ := boundName?_eq_some_iff.1 hname
      have hempty : x = "" := by
        by_contra hne
        exact hcovered (h x hx hne)
      simp [boundNames, hname, hempty]

/-- Names that are found are declared, so at most all of them are found. -/
theorem DeclareInOrder.sublist {ps : List Tree} {names : List String}
    (h : DeclareInOrder source ps names) :
    (ps.flatMap (boundNames source)).Sublist names := by
  induction h with
  | nil => exact List.Sublist.slnil
  | @name p ps x xs hx hne _ ih =>
      rw [List.flatMap_cons]
      by_cases hcovered : p.Covered
      · rw [boundNames_eq_nil fun _ _ _ => hcovered]
        exact ih.cons x
      · rw [boundNames_eq_singleton hx hne hcovered]
        exact ih.cons_cons x
  | skip hp _ ih =>
      rw [List.flatMap_cons, boundNames_eq_nil fun x hx hne => absurd (hp x hx) hne]
      exact ih

/-- All names are found if none is covered. -/
theorem DeclareInOrder.eq_iff {ps : List Tree} {names : List String}
    (h : DeclareInOrder source ps names) :
    ps.flatMap (boundNames source) = names ↔
      ∀ p ∈ ps, ∀ x, Declares source p x → x ≠ "" → ¬ p.Covered := by
  induction h with
  | nil => simp
  | @name p ps x xs hx hne hrest ih =>
      rw [List.flatMap_cons, List.forall_mem_cons, ← ih]
      by_cases hcovered : p.Covered
      · rw [boundNames_eq_nil fun _ _ _ => hcovered, List.nil_append]
        refine iff_of_false (fun heq => ?_) fun hnone => hnone.1 x hx hne hcovered
        have hlength := hrest.sublist.length_le
        rw [heq, List.length_cons] at hlength
        omega
      · rw [boundNames_eq_singleton hx hne hcovered]
        simp [hcovered]
  | skip hp hrest ih =>
      rw [List.flatMap_cons, List.forall_mem_cons, ← ih,
        boundNames_eq_nil fun x hx hne => absurd (hp x hx) hne, List.nil_append]
      exact (and_iff_right fun x hx hne => absurd (hp x hx) hne).symm

/-- What comments put into a parameter do to the names found in it. -/
theorem CommentsPut.boundNames_sublist (h : CommentsPut allowed p p') :
    (boundNames source p').Sublist (boundNames source p) := by
  by_cases hfound : ∃ x, Declares source p' x ∧ x ≠ "" ∧ ¬ p'.Covered
  · obtain ⟨x, hx, hne, hcovered⟩ := hfound
    rw [boundNames_eq_singleton hx hne hcovered,
      boundNames_eq_singleton (h.declares_iff.1 hx) hne fun hp => hcovered (h.covered hp)]
  · rw [boundNames_eq_nil fun x hx hne => by_contra fun hcovered => hfound ⟨x, hx, hne, hcovered⟩]
    exact List.nil_sublist _

theorem CommentsPut.boundNames_eq_iff (h : CommentsPut allowed p p') :
    boundNames source p' = boundNames source p ↔
      ∀ x, Declares source p x → x ≠ "" → p'.Covered → p.Covered := by
  constructor
  · intro heq x hx hne hcovered'
    by_contra hcovered
    rw [boundNames_eq_singleton hx hne hcovered, boundNames_eq_nil fun _ _ _ => hcovered'] at heq
    cases heq
  · intro hkept
    by_cases hcovered' : p'.Covered
    · rw [boundNames_eq_nil fun _ _ _ => hcovered',
        boundNames_eq_nil fun x hx hne => hkept x hx hne hcovered']
    · have hcovered : ¬ p.Covered := fun hp => hcovered' (h.covered hp)
      by_cases hfound : ∃ x, Declares source p x ∧ x ≠ ""
      · obtain ⟨x, hx, hne⟩ := hfound
        rw [boundNames_eq_singleton (h.declares_iff.2 hx) hne hcovered',
          boundNames_eq_singleton hx hne hcovered]
      · have hnone : ∀ x, Declares source p x → x ≠ "" → p.Covered := fun x hx hne =>
          absurd ⟨x, hx, hne⟩ hfound
        rw [boundNames_eq_nil hnone,
          boundNames_eq_nil fun x hx hne => h.covered (hnone x (h.declares_iff.1 hx) hne)]

theorem flatMap_sublist_of_forall₂ {α β : Type} {f : α → List β} {xs ys : List α}
    (h : List.Forall₂ (fun x y => (f y).Sublist (f x)) xs ys) :
    (ys.flatMap f).Sublist (xs.flatMap f) := by
  induction h with
  | nil => exact List.Sublist.slnil
  | cons hxy _ ih =>
      rw [List.flatMap_cons, List.flatMap_cons]
      exact hxy.append ih

/-- Lists put together from parts that got shorter are the same if no part got shorter. -/
theorem flatMap_eq_iff_of_sublist {α β : Type} {f : α → List β} {xs ys : List α}
    (h : List.Forall₂ (fun x y => (f y).Sublist (f x)) xs ys) :
    ys.flatMap f = xs.flatMap f ↔ ∀ q ∈ xs.zip ys, f q.2 = f q.1 := by
  induction h with
  | nil => simp
  | cons hxy hrest ih =>
      have hsublist := flatMap_sublist_of_forall₂ hrest
      rw [List.flatMap_cons, List.flatMap_cons, List.zip_cons_cons, List.forall_mem_cons, ← ih]
      constructor
      · intro heq
        have hlength := congrArg List.length heq
        rw [List.length_append, List.length_append] at hlength
        have hhead := hxy.length_le
        have htail := hsublist.length_le
        exact ⟨hxy.eq_of_length (by omega), hsublist.eq_of_length (by omega)⟩
      · rintro ⟨hhead, htail⟩
        rw [hhead, htail]

/-- **Comments among parameters.**  Comments put anywhere into a list of parameters leave the
parameters as many as they are and change nothing that these declare.  The names found are the names
declared, in order, exactly if no name is covered, and they are the names found before exactly if no
name got covered.  So comments change nothing, unless they are put in front of the named children of
a rest parameter. -/
theorem parameterNames_put_comments (source : Bytes) (t t' : Tree)
    (hkind : t.kind = .formalParameters) (h : CommentsPut (fun _ _ => True) t t') :
    (∃ names, DeclareInOrder source t.parameters names ∧
      DeclareInOrder source t'.parameters names ∧
      (parameterNames source t' = names ↔
        ∀ p ∈ t'.parameters, ∀ x, Declares source p x → x ≠ "" → ¬ p.Covered)) ∧
    t'.parameters.length = t.parameters.length ∧
    (parameterNames source t' = parameterNames source t ↔
      ∀ q ∈ t.parameters.zip t'.parameters, ∀ x,
        Declares source q.1 x → x ≠ "" → q.2.Covered → q.1.Covered) ∧
    (CommentsPut BehindRest t t' → parameterNames source t' = parameterNames source t) := by
  have hkind' : t'.kind = .formalParameters := (congrArg Label.kind h.label_eq).trans hkind
  have hparameters := h.parameters
  obtain ⟨names, hnames⟩ := exists_declareInOrder source t.parameters
  have hnames' : DeclareInOrder source t'.parameters names :=
    hnames.congr (hparameters.imp fun _ _ hput _ => hput.declares_iff)
  have hsame {allowed : Label → List Tree → Prop} (hput : CommentsPut allowed t t') :
      parameterNames source t' = parameterNames source t ↔
        ∀ q ∈ t.parameters.zip t'.parameters, ∀ x,
          Declares source q.1 x → x ≠ "" → q.2.Covered → q.1.Covered := by
    rw [parameterNames_eq hkind, parameterNames_eq hkind', flatMap_eq_iff_of_sublist
      (hput.parameters.imp fun _ _ hput => hput.boundNames_sublist)]
    refine forall₂_congr fun q hq => ?_
    exact (List.forall₂_zip hput.parameters hq).boundNames_eq_iff
  refine ⟨⟨names, hnames, hnames', ?_⟩, hparameters.length_eq.symm, hsame h, fun hput => ?_⟩
  · rw [parameterNames_eq hkind']
    exact hnames'.eq_iff
  · refine (hsame hput).2 fun q hq x _ _ hcovered => ?_
    exact (List.forall₂_zip hput.parameters hq).covered_of_behind hcovered

/-- A list of a parameter with a default and a rest parameter, with two comments. -/
def commentedSource : String := "(a /* c */ = 1, ...b /* d */)"

/-- The tree of `commentedSource`, with comments or without them: `inner` stands behind the name of
the first parameter, `outer` behind the last one. -/
def commentedParameters (inner outer : List Tree) : Tree :=
  .node ⟨.formalParameters, true, false, 0, 29, 0, 0, some "parameters", 0⟩ ([
    .node ⟨.other "(", false, false, 0, 1, 0, 0, none, 1⟩ [],
    .node ⟨.assignmentPattern, true, false, 1, 14, 0, 0, none, 2⟩ ([
      .node ⟨.identifier, true, false, 1, 2, 0, 0, some "left", 3⟩ []] ++ (inner ++ [
      .node ⟨.other "=", false, false, 11, 12, 0, 0, none, 5⟩ [],
      .node ⟨.other "number", true, false, 13, 14, 0, 0, some "right", 6⟩ []])),
    .node ⟨.other ",", false, false, 14, 15, 0, 0, none, 7⟩ [],
    .node ⟨.restPattern, true, false, 16, 20, 0, 0, none, 8⟩ [
      .node ⟨.other "...", false, false, 16, 19, 0, 0, none, 9⟩ [],
      .node ⟨.identifier, true, false, 19, 20, 0, 0, none, 10⟩ []]] ++ (outer ++ [
    .node ⟨.other ")", false, false, 28, 29, 0, 0, none, 12⟩ []]))

def innerNote : Tree := .node ⟨.comment, true, false, 3, 10, 0, 0, none, 4⟩ []

def outerNote : Tree := .node ⟨.comment, true, false, 21, 28, 0, 0, none, 11⟩ []

theorem commentsPut_commented {allowed : Label → List Tree → Prop}
    (h : ∀ l xs, l.kind ≠ .restPattern → allowed l xs) :
    CommentsPut allowed (commentedParameters [] [])
      (commentedParameters [innerNote] [outerNote]) := by
  have hinner : CommentPut allowed (commentedParameters [] [])
      (commentedParameters [innerNote] []) :=
    @CommentPut.inside allowed _ [_] _ _ _ rfl
      (@CommentPut.here allowed _ [_] _ innerNote rfl (h _ _ (by simp)) rfl rfl)
  have houter : CommentPut allowed (commentedParameters [innerNote] [])
      (commentedParameters [innerNote] [outerNote]) :=
    @CommentPut.here allowed _ [_, _, _, _] _ outerNote rfl (h _ _ (by simp)) rfl rfl
  exact (Relation.ReflTransGen.single hinner).tail houter

theorem parameterNames_of_commented :
    (commentedParameters [] []).kind = .formalParameters ∧
      CommentsPut (fun _ _ => True) (commentedParameters [] [])
        (commentedParameters [innerNote] [outerNote]) ∧
      parameterNames (Utf8.encodeString commentedSource)
        (commentedParameters [innerNote] [outerNote]) =
        parameterNames (Utf8.encodeString commentedSource) (commentedParameters [] []) ∧
      parameterNames (Utf8.encodeString commentedSource) (commentedParameters [] []) =
        ["a", "b"] := by
  have hput := commentsPut_commented fun _ _ _ => trivial
  have hbehind : CommentsPut BehindRest (commentedParameters [] [])
      (commentedParameters [innerNote] [outerNote]) :=
    commentsPut_commented fun _ _ hrest => fun h => absurd h hrest
  obtain ⟨-, -, -, hsame⟩ := parameterNames_put_comments (Utf8.encodeString commentedSource)
    (commentedParameters [] []) (commentedParameters [innerNote] [outerNote]) rfl hput
  refine ⟨rfl, hput, hsame hbehind, ?_⟩
  have hbytes : Utf8.encodeString commentedSource =
      [40, 97, 32, 47, 42, 32, 99, 32, 42, 47, 32, 61, 32,
      49, 44, 32, 46, 46, 46, 98, 32, 47, 42, 32, 100, 32, 42, 47, 41] :=
    (Utf8.encodeString_ofList _).trans rfl
  rw [hbytes]
  decide

/-- A function with a rest parameter, and a comment behind the dots. -/
def restSource : String := "/** @injectable */\nfunction f(... /* c */ a) \x7b\x7d"

/-- The parameters of `restSource`, with the comment or without it. -/
def restParameters (notes : List Tree) : Tree :=
  .node ⟨.formalParameters, true, false, 29, 44, 1, 1, some "parameters", 5⟩ [
    .node ⟨.other "(", false, false, 29, 30, 1, 1, none, 6⟩ [],
    .node ⟨.restPattern, true, false, 30, 43, 1, 1, none, 7⟩ ([
      .node ⟨.other "...", false, false, 30, 33, 1, 1, none, 8⟩ []] ++ (notes ++ [
      .node ⟨.identifier, true, false, 42, 43, 1, 1, none, 10⟩ []])),
    .node ⟨.other ")", false, false, 43, 44, 1, 1, none, 11⟩ []]

def restNote : Tree := .node ⟨.comment, true, false, 34, 41, 1, 1, none, 9⟩ []

/-- A comment put behind the dots of a rest parameter takes its name away. -/
theorem rest_name_lost_behind_comment :
    CommentPut (fun _ _ => True) (restParameters []) (restParameters [restNote]) ∧
      parameterNames (Utf8.encodeString restSource) (restParameters []) = ["a"] ∧
      parameterNames (Utf8.encodeString restSource) (restParameters [restNote]) = [] := by
  have hput : CommentPut (fun _ _ => True) (restParameters []) (restParameters [restNote]) :=
    @CommentPut.inside _ _ [_] _ _ _ rfl (@CommentPut.here _ _ [_] _ restNote rfl trivial rfl rfl)
  have hbytes : Utf8.encodeString restSource = [47, 42, 42, 32, 64, 105, 110, 106, 101, 99, 116, 97,
      98, 108, 101, 32, 42, 47, 10, 102, 117, 110, 99, 116, 105, 111, 110, 32, 102, 40, 46, 46, 46,
      32, 47, 42, 32, 99, 32, 42, 47, 32, 97, 41, 32, 123, 125] :=
    (Utf8.encodeString_ofList _).trans rfl
  refine ⟨hput, ?_, ?_⟩
  · rw [hbytes]
    decide
  · rw [hbytes]
    decide

end Tree
end Injection
