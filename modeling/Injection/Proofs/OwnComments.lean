import Injection.Pass
import Injection.Proofs.Utf8
import Mathlib.Data.List.TakeWhile

/-!
# The comments that a node has of its own

The run of comments in front of a node starts behind some sibling.  The nearest named sibling in
front that is no comment may end on a row on which comments of the run start: these trail it, and
the first comment of the run that does not is the one that the node has of its own.

The search for the leading comment goes backwards and asks of each comment only whether it trails
the sibling directly in front of it.  So it passes over one trailing comment at most, and over none
if a token stands in between.

* `leadingComment_eq`: what the search finds, by the first comments of the run.
* `trailing_leadingComment_iff`: it finds a trailing comment in crowded places only.
* **`leadingComment_own_iff`**: elsewhere it finds the comment that the node has of its own, and
  this one alone marks a statement and adds to the directives of a class.
-/

namespace Injection

namespace Site

/-! ## Runs of comments -/

/-- The run of comments directly in front, the first one first. -/
def run (s : Site) : List Tree := (s.before.takeWhile fun t => t.kind = .comment).reverse

/-- The siblings in front of the run, the nearest first. -/
def beforeRun (s : Site) : List Tree := s.before.dropWhile fun t => t.kind = .comment

/-- The nearest named sibling in front that is no comment. -/
def previous? (s : Site) : Option Tree :=
  s.before.find? fun t => t.label.named && t.kind ≠ .comment

/-- A comment starts on the row on which the previous sibling ends. -/
def Trailing (s : Site) (c : Tree) : Prop :=
  ∃ p, s.previous? = some p ∧ p.label.stopRow = c.label.startRow

theorem any_previous?_iff (s : Site) (c : Tree) :
    s.previous?.any (fun p => p.label.stopRow = c.label.startRow) = true ↔ s.Trailing c := by
  simp [Trailing, Option.any_eq_true]

instance (s : Site) (c : Tree) : Decidable (s.Trailing c) :=
  decidable_of_iff _ (s.any_previous?_iff c)

/-- The comment that a node has of its own: the first one of the run that is not trailing. -/
def ownComment? (s : Site) : Option Tree := s.run.find? fun c => ¬ s.Trailing c

/-- A place where a trailing comment is not seen to be one: a token stands in front of the run, or
the run has a second trailing comment behind the first one. -/
inductive Crowded (s : Site) : Prop
  | token {c t : Tree} {rest ts : List Tree} (hrun : s.run = c :: rest)
      (hbefore : s.beforeRun = t :: ts) (htoken : t.label.named = false) (hc : s.Trailing c)
  | second {c d : Tree} {rest : List Tree} (hrun : s.run = c :: d :: rest) (hc : s.Trailing c)
      (hd : s.Trailing d)

variable {s : Site} {c d : Tree} {rest : List Tree}

/-- The search looks at the sibling in front of the first comment of the run alone. -/
theorem firstOfRun_eq (found : Option Tree) (l : List Tree) :
    firstOfRun found l =
      match (l.takeWhile fun t => t.kind = .comment).reverse with
      | [] => found
      | c :: rest =>
        if trails c (l.dropWhile fun t => t.kind = .comment) then rest.head?.or found
        else some c := by
  induction l generalizing found with
  | nil => rfl
  | cons x l ih =>
      by_cases hx : x.kind = .comment
      case neg => simp [firstOfRun, hx]
      case pos =>
        have htake : ((x :: l).takeWhile fun t => t.kind = .comment).reverse =
            (l.takeWhile fun t => t.kind = .comment).reverse ++ [x] := by simp [hx]
        have hdrop : ((x :: l).dropWhile fun t => t.kind = .comment) =
            l.dropWhile fun t => t.kind = .comment := by simp [hx]
        rw [htake, hdrop]
        cases hrun : (l.takeWhile fun t => t.kind = .comment).reverse with
        | nil =>
            -- nothing but `x` is in the run, and the search ends behind it
            have hnil : (l.takeWhile fun t => t.kind = .comment) = [] :=
              List.reverse_eq_nil_iff.1 hrun
            have hself : (l.dropWhile fun t => t.kind = .comment) = l := by
              have happend := l.takeWhile_append_dropWhile (p := fun t => t.kind = .comment)
              rwa [hnil, List.nil_append] at happend
            rw [firstOfRun, hself, ih, hrun]
            cases htrails : trails x l <;> simp [hx, htrails]
        | cons c rest =>
            -- `x` has a comment in front of it, which it cannot trail
            have htrails : trails x l = false := by
              cases l with
              | nil => rfl
              | cons p l =>
                  by_cases hp : p.kind = .comment
                  · simp [trails, hp]
                  · simp [hp] at hrun
            rw [firstOfRun, htrails, ih, hrun]
            cases trails c (l.dropWhile fun t => t.kind = .comment) <;> cases rest <;> simp [hx]

theorem leadingComment_eq (s : Site) :
    s.leadingComment =
      match s.run with
      | [] => none
      | c :: rest => if trails c s.beforeRun then rest.head? else some c := by
  rw [leadingComment, firstOfRun_eq, ← run, ← beforeRun]
  cases s.run <;> simp

/-! ## Trailing comments -/

/-- The run holds comments only, so the previous sibling is in front of it. -/
theorem previous?_eq (s : Site) :
    s.previous? = s.beforeRun.find? fun t => t.label.named && t.kind ≠ .comment := by
  have hsplit : s.before = (s.before.takeWhile fun t => t.kind = .comment) ++ s.beforeRun :=
    List.takeWhile_append_dropWhile.symm
  have hrun : (s.before.takeWhile fun t => t.kind = .comment).find?
      (fun t => t.label.named && t.kind ≠ .comment) = none := by
    rw [List.find?_eq_none]
    intro t ht
    have hkind := List.mem_takeWhile_imp ht
    simp at hkind
    simp [hkind]
  rw [previous?, hsplit, List.find?_append, hrun, Option.none_or]

/-- The sibling in front of the run is no comment. -/
theorem kind_of_beforeRun {t : Tree} {ts : List Tree} (h : s.beforeRun = t :: ts) :
    t.kind ≠ .comment := by
  have hhead := List.head?_dropWhile_not (fun t : Tree => t.kind = .comment) s.before
  rw [← beforeRun, h] at hhead
  simpa using hhead

/-- The search sees that a comment is trailing if the sibling in front of the run is a named one. -/
theorem trails_beforeRun_iff :
    trails c s.beforeRun = true ↔
      s.Trailing c ∧ ∃ t ts, s.beforeRun = t :: ts ∧ t.label.named = true := by
  rw [Trailing, previous?_eq]
  cases hbefore : s.beforeRun with
  | nil => simp [trails]
  | cons t ts =>
      have hkind := kind_of_beforeRun hbefore
      by_cases hnamed : t.label.named = true
      · simp [trails, hkind, hnamed]
      · simp [trails, hnamed]

/-- A trailing comment behind a token: the search does not see it. -/
theorem crowded_of_not_trails (hrun : s.run = c :: rest) (htrails : ¬ trails c s.beforeRun = true)
    (hc : s.Trailing c) : s.Crowded := by
  cases hbefore : s.beforeRun with
  | nil =>
      obtain ⟨p, hp, -⟩ := hc
      rw [previous?_eq, hbefore] at hp
      cases hp
  | cons t ts =>
      refine .token hrun hbefore ?_ hc
      by_contra hnamed
      exact htrails (trails_beforeRun_iff.2 ⟨hc, t, ts, hbefore, by simpa using hnamed⟩)

theorem trailing_leadingComment_iff :
    (∃ c, s.leadingComment = some c ∧ s.Trailing c) ↔ s.Crowded := by
  rw [leadingComment_eq]
  constructor
  · rintro ⟨c, hleading, hc⟩
    split at hleading
    · cases hleading
    · next first rest hrun =>
        split at hleading
        · next htrails =>
            obtain ⟨hfirst, -⟩ := trails_beforeRun_iff.1 htrails
            obtain ⟨tail, rfl⟩ := List.head?_eq_some_iff.1 hleading
            exact .second hrun hfirst hc
        · next htrails =>
            cases hleading
            exact crowded_of_not_trails hrun htrails hc
  · rintro (⟨hrun, hbefore, htoken, hc⟩ | ⟨hrun, hc, hd⟩)
    · next c t rest ts =>
        refine ⟨c, ?_, hc⟩
        rw [hrun, hbefore]
        simp [trails, htoken]
    · next c d rest =>
        by_cases htrails : trails c s.beforeRun = true
        · exact ⟨d, by simp [hrun, htrails], hd⟩
        · exact ⟨c, by simp [hrun, htrails], hc⟩

theorem not_trailing_of_own (h : s.ownComment? = some c) : ¬ s.Trailing c := by
  simpa using List.find?_some h

/-- Away from crowded places the search passes over trailing comments only. -/
theorem leadingComment_of_not_crowded (h : ¬ s.Crowded) : s.leadingComment = s.ownComment? := by
  rw [leadingComment_eq, ownComment?]
  split
  · next hrun => rw [hrun, List.find?_nil]
  · next first rest hrun =>
      rw [hrun]
      split
      · next htrails =>
          obtain ⟨hfirst, -⟩ := trails_beforeRun_iff.1 htrails
          rw [List.find?_cons_of_neg (by simpa using hfirst)]
          cases hrest : rest with
          | nil => rfl
          | cons d tail =>
              have hd : ¬ s.Trailing d := fun hd => h (.second (hrest ▸ hrun) hfirst hd)
              rw [List.head?_cons, List.find?_cons_of_pos (by simpa using hd)]
      · next htrails =>
          have hfirst : ¬ s.Trailing first := fun hfirst =>
            h (crowded_of_not_trails hrun htrails hfirst)
          rw [List.find?_cons_of_pos (by simpa using hfirst)]

/-- **Own comments.**  The leading comment of a node starts on the row on which the previous sibling
ends if and only if the place is crowded; in all other places, and in no crowded one, it is the
comment that the node has of its own.  There a statement is marked by this comment alone, and a
class has the directives of its own comment and of the one of its constructor. -/
theorem leadingComment_own_iff (source : Bytes) (s : Site) :
    ((∃ c, s.leadingComment = some c ∧ s.Trailing c) ↔ s.Crowded) ∧
      (s.leadingComment = s.ownComment? ↔ ¬ s.Crowded) ∧
      (¬ s.Crowded →
        (∀ m, s.marked? source = some m ↔ ∃ c d, s.ownComment? = some c ∧
          Injectable.scan (Comment.value (c.chars source)) = some d ∧
          m = ⟨s, d, Comment.value (c.chars source)⟩) ∧
        ∀ cls comment, cls.constructorSite? source = some s →
          (Signature.ofClass source cls comment).directives = comment ++
            (s.ownComment?.map fun c => '\n' :: Comment.value (c.chars source)).getD []) := by
  refine ⟨trailing_leadingComment_iff, ⟨fun hown hcrowded => ?_, leadingComment_of_not_crowded⟩,
    fun hcrowded => ⟨fun m => ?_, fun cls comment hsite => ?_⟩⟩
  · obtain ⟨c, hleading, hc⟩ := trailing_leadingComment_iff.2 hcrowded
    exact not_trailing_of_own (hown ▸ hleading) hc
  · rw [marked?, leadingComment_of_not_crowded hcrowded]
    cases s.ownComment? with
    | none => simp
    | some c =>
        constructor
        · intro hmarked
          obtain ⟨d, hd, rfl⟩ := Option.map_eq_some_iff.1 hmarked
          exact ⟨c, d, rfl, hd, rfl⟩
        · rintro ⟨_, d, ⟨⟩, hd, rfl⟩
          exact Option.map_eq_some_iff.2 ⟨d, hd, rfl⟩
  · rw [Signature.ofClass, hsite]
    dsimp only
    rw [leadingComment_of_not_crowded hcrowded]
    cases s.ownComment? with
    | none => simp
    | some c => simp

/-- A function with a comment of its own, below a statement with a comment behind it. -/
def spacedSite : Site where
  before := [.node ⟨.comment, true, false, 15, 32, 1, 1, none, 3⟩ [],
    .node ⟨.comment, true, false, 7, 14, 0, 0, none, 2⟩ [],
    .node ⟨.expressionStatement, true, false, 0, 6, 0, 0, none, 1⟩ []]
  node := .node ⟨.functionDeclaration, true, false, 33, 48, 2, 2, none, 4⟩ []
  after := []

theorem leadingComment_of_spaced :
    ¬ spacedSite.Crowded ∧ spacedSite.leadingComment = spacedSite.ownComment? ∧
      spacedSite.leadingComment.map (·.label.number) = some 3 := by
  obtain ⟨hiff, hown, -⟩ := leadingComment_own_iff [] spacedSite
  have hcrowded : ¬ spacedSite.Crowded := by
    rw [← hiff]
    rintro ⟨c, ⟨⟩, hc⟩
    revert hc
    decide
  exact ⟨hcrowded, hown.2 hcrowded, rfl⟩

/-- Two comments behind a statement, on the row of the next one. -/
def crampedSource : String := "foo(); /* t */ /* @injectable */ function f(a)\x7b\x7d"

/-- The encoding of `crampedSource`. -/
def crampedBytes : Bytes :=
  [102, 111, 111, 40, 41, 59, 32, 47, 42, 32, 116, 32, 42, 47, 32, 47, 42, 32, 64, 105, 110, 106,
    101, 99, 116, 97, 98, 108, 101, 32, 42, 47, 32, 102, 117, 110, 99, 116, 105, 111, 110, 32,
    102, 40, 97, 41, 123, 125]

/-- The tree of `crampedSource`. -/
def crampedTree : Tree :=
  .node ⟨.program, true, false, 0, 48, 0, 0, none, 0⟩ [
    .node ⟨.expressionStatement, true, false, 0, 6, 0, 0, none, 1⟩ [
      .node ⟨.other "call_expression", true, false, 0, 5, 0, 0, none, 2⟩ [
        .node ⟨.identifier, true, false, 0, 3, 0, 0, some "function", 3⟩ [],
        .node ⟨.other "arguments", true, false, 3, 5, 0, 0, some "arguments", 4⟩ [
          .node ⟨.other "(", false, false, 3, 4, 0, 0, none, 5⟩ [],
          .node ⟨.other ")", false, false, 4, 5, 0, 0, none, 6⟩ []]],
      .node ⟨.semicolon, false, false, 5, 6, 0, 0, none, 7⟩ []],
    .node ⟨.comment, true, false, 7, 14, 0, 0, none, 8⟩ [],
    .node ⟨.comment, true, false, 15, 32, 0, 0, none, 9⟩ [],
    .node ⟨.functionDeclaration, true, false, 33, 48, 0, 0, none, 10⟩ [
      .node ⟨.function, false, false, 33, 41, 0, 0, none, 11⟩ [],
      .node ⟨.identifier, true, false, 42, 43, 0, 0, some "name", 12⟩ [],
      .node ⟨.formalParameters, true, false, 43, 46, 0, 0, some "parameters", 13⟩ [
        .node ⟨.other "(", false, false, 43, 44, 0, 0, none, 14⟩ [],
        .node ⟨.identifier, true, false, 44, 45, 0, 0, none, 15⟩ [],
        .node ⟨.other ")", false, false, 45, 46, 0, 0, none, 16⟩ []],
      .node ⟨.statementBlock, true, false, 46, 48, 0, 0, some "body", 17⟩ [
        .node ⟨.other "\x7b", false, false, 46, 47, 0, 0, none, 18⟩ [],
        .node ⟨.other "\x7d", false, false, 47, 48, 0, 0, none, 19⟩ []]]]

/-- A note behind a field, and directives for the constructor below it. -/
def notedSource : String :=
  "class B \x7b\n  x; // note\n  // @dependency \x7bz\x7d a\n  constructor(a) \x7b\x7d\n\x7d"

/-- The encoding of `notedSource`. -/
def notedBytes : Bytes :=
  [99, 108, 97, 115, 115, 32, 66, 32, 123, 10, 32, 32, 120, 59, 32, 47, 47, 32, 110, 111, 116,
    101, 10, 32, 32, 47, 47, 32, 64, 100, 101, 112, 101, 110, 100, 101, 110, 99, 121, 32, 123,
    122, 125, 32, 97, 10, 32, 32, 99, 111, 110, 115, 116, 114, 117, 99, 116, 111, 114, 40, 97,
    41, 32, 123, 125, 10, 125]

/-- The class of `notedSource`. -/
def notedClass : Tree :=
  .node ⟨.classDeclaration, true, false, 0, 67, 0, 4, none, 0⟩ [
    .node ⟨.classExpression, false, false, 0, 5, 0, 0, none, 1⟩ [],
    .node ⟨.identifier, true, false, 6, 7, 0, 0, some "name", 2⟩ [],
    .node ⟨.other "class_body", true, false, 8, 67, 0, 4, some "body", 3⟩ [
      .node ⟨.other "\x7b", false, false, 8, 9, 0, 0, none, 4⟩ [],
      .node ⟨.other "field_definition", true, false, 12, 13, 1, 1, some "member", 5⟩ [
        .node ⟨.propertyIdentifier, true, false, 12, 13, 1, 1, some "property", 6⟩ []],
      .node ⟨.semicolon, false, false, 13, 14, 1, 1, none, 7⟩ [],
      .node ⟨.comment, true, false, 15, 22, 1, 1, none, 8⟩ [],
      .node ⟨.comment, true, false, 25, 45, 2, 2, none, 9⟩ [],
      .node ⟨.methodDefinition, true, false, 48, 65, 3, 3, some "member", 10⟩ [
        .node ⟨.propertyIdentifier, true, false, 48, 59, 3, 3, some "name", 11⟩ [],
        .node ⟨.formalParameters, true, false, 59, 62, 3, 3, some "parameters", 12⟩ [
          .node ⟨.other "(", false, false, 59, 60, 3, 3, none, 13⟩ [],
          .node ⟨.identifier, true, false, 60, 61, 3, 3, none, 14⟩ [],
          .node ⟨.other ")", false, false, 61, 62, 3, 3, none, 15⟩ []],
        .node ⟨.statementBlock, true, false, 63, 65, 3, 3, some "body", 16⟩ [
          .node ⟨.other "\x7b", false, false, 63, 64, 3, 3, none, 17⟩ [],
          .node ⟨.other "\x7d", false, false, 64, 65, 3, 3, none, 18⟩ []]],
      .node ⟨.other "\x7d", false, false, 66, 67, 4, 4, none, 19⟩ []]]

theorem encodeString_crampedSource : Utf8.encodeString crampedSource = crampedBytes :=
  (Utf8.encodeString_ofList _).trans rfl

theorem encodeString_notedSource : Utf8.encodeString notedSource = notedBytes :=
  (Utf8.encodeString_ofList _).trans rfl

/-- A comment that trails another statement marks a function, and a note that trails a field hides
the directives of a constructor. -/
theorem trailing_comment_leads :
    (∃ s ∈ allStatements crampedTree, (∃ c, s.leadingComment = some c ∧ s.Trailing c) ∧
      (s.marked? (Utf8.encodeString crampedSource)).isSome = true ∧ s.ownComment? = none) ∧
    ∃ s, notedClass.constructorSite? (Utf8.encodeString notedSource) = some s ∧
      (∃ c, s.leadingComment = some c ∧ s.Trailing c) ∧
      (s.ownComment?.map (·.text (Utf8.encodeString notedSource))) =
        some "// @dependency \x7bz\x7d a" ∧
      (Signature.ofClass (Utf8.encodeString notedSource) notedClass []).directives =
        "\n note".toList := by
  rw [encodeString_crampedSource, encodeString_notedSource]
  constructor
  · have hcheck : (allStatements crampedTree).any (fun s =>
        s.leadingComment.any (fun c => s.Trailing c) && (s.marked? crampedBytes).isSome &&
          s.ownComment?.isNone) = true :=
      rfl
    obtain ⟨s, hs, hcheck⟩ := List.any_eq_true.1 hcheck
    simp only [Bool.and_eq_true, Option.any_eq_true, decide_eq_true_eq,
      Option.isNone_iff_eq_none] at hcheck
    exact ⟨s, hs, hcheck.1.1, hcheck.1.2, hcheck.2⟩
  · have hcheck : (notedClass.constructorSite? notedBytes).any (fun s =>
        s.leadingComment.any (fun c => s.Trailing c) &&
          s.ownComment?.map (·.text notedBytes) = some "// @dependency \x7bz\x7d a") = true :=
      rfl
    obtain ⟨s, hs, hcheck⟩ := (Option.any_eq_true _ _).1 hcheck
    simp only [Bool.and_eq_true, Option.any_eq_true, decide_eq_true_eq] at hcheck
    exact ⟨s, hs, hcheck.1, hcheck.2, rfl⟩

end Site

end Injection
