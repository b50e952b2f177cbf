import Injection.Proofs.DirectiveGrammar
import Injection.Proofs.ResolvedAliases

/-!
# Directives of joined comments

The directives of a class are looked for in its comment and, behind a line break, in the comment of
its constructor.  Joining two texts so joins what is read from them, as long as no brace is left
open in the first one.

* `Dependency.Closed`: the braces behind the tokens that are reached are closed in the text.
* `Consumes.join`: an occurrence of the token consumes the same with and without the joined text
  (step).  Neither the token nor blanks nor names go over a line break.
* `findings_join`: so do all of them (run), and `parse_join` says that one text is read after the
  other.
* `Alias.ofDirectives_append`: of two lists of directives the second overrides the first.
* **`parse_joined_comments`**: both together, for texts and for the record of a class.
-/

namespace Injection

/-- A list without `z` that starts in front of a `z` ends in front of it. -/
theorem prefix_of_prefix_append_cons {α : Type} {v pre post : List α} {z : α} (hz : z ∉ v)
    (h : v <+: pre ++ z :: post) : v <+: pre := by
  rcases List.prefix_or_prefix_of_prefix h (List.prefix_append pre _) with hin | ⟨s, rfl⟩
  · exact hin
  · rw [List.prefix_append_right_inj] at h
    cases s with
    | nil => rw [List.append_nil]
    | cons y s =>
        rw [(List.cons_prefix_cons.1 h).1] at hz
        exact absurd (List.mem_append_right pre (List.mem_cons_self ..)) hz

theorem Ends.append_cons_iff {p : Char → Bool} {cs b : List Char} {z : Char} (hz : p z = false) :
    Ends p (cs ++ z :: b) ↔ Ends p cs := by
  cases cs with
  | nil => simp [hz]
  | cons c cs => simp

namespace Dependency

variable {a b cs : List Char}

/-! ## Braces that are closed -/

/-- A brace at the front, behind blanks, is closed in the text. -/
def closesFront (cs : List Char) : Bool :=
  match cs.dropWhile isGap with
  | '\x7b' :: inner => (closing? 0 .plain inner).isSome
  | _ => true

/-- Every brace behind a token that is reached is closed in the text. -/
def Closed (cs : List Char) : Prop :=
  ∀ p, Reached cs p → closesFront (cs.drop (p + token.length)) = true

/-- It is enough to look at every token, reached or not. -/
theorem closed_of_all (h : (List.range cs.length).all (fun p =>
    !token.isPrefixOf (cs.drop p) || closesFront (cs.drop (p + token.length))) = true) :
    Closed cs := by
  intro p hreached
  have htoken := (reached_iff.1 hreached).1
  have hp : p < cs.length := by
    by_contra hge
    rw [List.drop_eq_nil_of_le (Nat.le_of_not_lt hge)] at htoken
    exact absurd (List.prefix_nil.1 htoken) (by decide)
  have hcheck := List.all_eq_true.1 h p (List.mem_range.2 hp)
  rw [List.isPrefixOf_iff_prefix.2 htoken] at hcheck
  exact hcheck

/-! ## One occurrence -/

theorem newline_notMem_of_gap {gap : List Char} (h : ∀ c ∈ gap, isGap c = true) : '\n' ∉ gap :=
  fun hmem => absurd (h '\n' hmem) (by decide)

theorem newline_notMem_of_identifier {name : List Char} (h : isIdentifier name = true) :
    '\n' ∉ name := by
  intro hmem
  have hword : isWordChar '\n' = true := by
    cases name with
    | nil => cases h
    | cons c cs =>
        simp only [isIdentifier, Bool.and_eq_true, List.all_eq_true] at h
        rcases List.mem_cons.1 hmem with rfl | hmem
        · exact isWordChar_of_isNameStart h.1
        · exact h.2 _ hmem
  cases hword

theorem Bodied.join {gap body behind : List Char} (h : Bodied a gap body behind) (b : List Char) :
    Bodied (a ++ b) gap body (behind ++ b) := by
  refine ⟨?_, h.blank, h.balanced⟩
  rw [h.chars]
  simp

/-- A body that starts in the first text is one of the first text, if its brace is closed there. -/
theorem exists_bodied_of_join {gap body behind : List Char} (hclosed : closesFront a = true)
    (h : Bodied (a ++ '\n' :: b) gap body behind) : ∃ body behind, Bodied a gap body behind := by
  have hnewline : '\n' ∉ gap ++ ['\x7b'] := by
    simpa using newline_notMem_of_gap h.blank
  have hfront : gap ++ ['\x7b'] <+: a ++ '\n' :: b := by
    rw [h.chars]
    exact ⟨body ++ '\x7d' :: behind, by simp⟩
  obtain ⟨inner, rfl⟩ := prefix_of_prefix_append_cons hnewline hfront
  rw [List.append_assoc, List.singleton_append] at hclosed ⊢
  rw [closesFront, Ends.dropWhile_append h.blank (Ends.cons_iff.2 rfl)] at hclosed
  obtain ⟨⟨body', behind'⟩, hclosing⟩ := Option.isSome_iff_exists.1 hclosed
  obtain ⟨rfl, hbalanced⟩ := closing?_eq_some_iff.1 hclosing
  exact ⟨body', behind', rfl, h.blank, hbalanced⟩

theorem named_join_iff {gap name : List Char} :
    (∃ rest, Named (a ++ '\n' :: b) gap name rest) ↔ ∃ rest, Named a gap name rest := by
  constructor
  · rintro ⟨rest, hchars, hblank, hne, hidentifier, hends⟩
    have hnewline : '\n' ∉ gap ++ name := by
      rw [List.mem_append, not_or]
      exact ⟨newline_notMem_of_gap hblank, newline_notMem_of_identifier hidentifier⟩
    obtain ⟨rest', rfl⟩ := prefix_of_prefix_append_cons hnewline
      (show gap ++ name <+: a ++ '\n' :: b from ⟨rest, by rw [hchars, List.append_assoc]⟩)
    have hrest : rest' ++ '\n' :: b = rest := by
      rw [List.append_assoc, List.append_assoc, List.append_cancel_left_eq,
        List.append_cancel_left_eq] at hchars
      exact hchars
    rw [← hrest, Ends.append_cons_iff rfl] at hends
    exact ⟨rest', List.append_assoc .., hblank, hne, hidentifier, hends⟩
  · rintro ⟨rest, rfl, hblank, hne, hidentifier, hends⟩
    exact ⟨rest ++ '\n' :: b, by simp, hblank, hne, hidentifier,
      (Ends.append_cons_iff rfl).2 hends⟩

/-- What an occurrence consumes does not depend on what is joined to its text. -/
theorem Consumes.join {parts : Option (List Char × List Char)} {n : Nat} (h : Consumes a parts n)
    (hclosed : closesFront a = true) (b : List Char) : Consumes (a ++ '\n' :: b) parts n := by
  cases h with
  | directive hbody hname =>
      obtain ⟨rest, hname⟩ := named_join_iff.2 ⟨_, hname⟩
      exact .directive (hbody.join ('\n' :: b)) hname
  | unnamed hbody hname =>
      refine .unnamed (hbody.join ('\n' :: b)) fun gap name rest h => ?_
      obtain ⟨rest', h⟩ := named_join_iff.1 ⟨rest, h⟩
      exact hname gap name rest' h
  | bare hbody =>
      refine .bare fun gap body behind h => ?_
      obtain ⟨body', behind', h⟩ := exists_bodied_of_join hclosed h
      exact hbody gap body' behind' h

/-- An occurrence consumes nothing behind the end of the text. -/
theorem Consumes.length_le {parts : Option (List Char × List Char)} {n : Nat}
    (h : Consumes cs parts n) : n ≤ token.length + cs.length := by
  cases h with
  | directive hbody hname =>
      rw [hbody.chars, hname.chars]
      simp only [List.length_append, List.length_cons]
      omega
  | unnamed hbody hname =>
      rw [hbody.chars]
      simp only [List.length_append, List.length_cons]
      omega
  | bare => omega

/-! ## All occurrences -/

theorem token_prefix_join_iff : token <+: a ++ '\n' :: b ↔ token <+: a :=
  ⟨prefix_of_prefix_append_cons (by decide), fun h => h.trans (List.prefix_append ..)⟩

/-- From a position where nothing is being consumed on, the search finds what is in the first text
and then what is in the second. -/
theorem findings_join_drop (hclosed : Closed a) (b : List Char) {p : Nat} (hfree : Free a p)
    (hp : p ≤ a.length) :
    findings ((a ++ '\n' :: b).drop p) = findings (a.drop p) ++ findings b := by
  induction hlength : a.length - p using Nat.strong_induction_on generalizing p with
  | h k ih =>
  subst hlength
  have hnewline : findings ('\n' :: b) = findings b := findings_cons_of_none rfl
  rcases Nat.eq_or_lt_of_le hp with rfl | hlt
  · rw [List.drop_left, List.drop_length, hnewline]
    rfl
  have hdrop {q : Nat} (hq : q ≤ a.length) : (a ++ '\n' :: b).drop q = a.drop q ++ '\n' :: b :=
    List.drop_append_of_le_length hq
  have htoken_iff : token <+: (a ++ '\n' :: b).drop p ↔ token <+: a.drop p := by
    rw [hdrop hp, token_prefix_join_iff]
  by_cases htoken : token <+: a.drop p
  · have hbehind : p + token.length ≤ a.length := by
      have hle := htoken.length_le
      rw [List.length_drop] at hle
      omega
    obtain ⟨parts, hn, -⟩ := exists_consumes (a.drop (p + token.length))
    have hfront := hclosed p (reached_iff.2 ⟨htoken, hfree⟩)
    have hn' := hn.join hfront b
    rw [← hdrop hbehind] at hn'
    -- The search goes on in the first text, or at its end: the occurrence stops short of the break.
    have hle := hn.length_le
    rw [List.length_drop] at hle
    have hpos := hn.length_token_le.trans_lt' (show 0 < token.length by decide)
    rw [Found.findings_drop htoken hn, Found.findings_drop (htoken_iff.2 htoken) hn',
      ih _ (by omega) (hfree.add htoken hn) (by omega) rfl, List.append_assoc]
  · have hlt' : p < (a ++ '\n' :: b).length := by
      rw [List.length_append]
      omega
    rw [findings_of_not_token hlt htoken,
      findings_of_not_token hlt' fun h => htoken (htoken_iff.1 h)]
    exact ih _ (by omega) (hfree.succ htoken) hlt rfl

/-- The findings of joined texts are those of the first and then those of the second. -/
theorem findings_join (hclosed : Closed a) (b : List Char) :
    findings (a ++ '\n' :: b) = findings a ++ findings b :=
  findings_join_drop hclosed b (Free.zero a) (Nat.zero_le _)

/-- Findings are read one list after the other. -/
theorem readAll_append (depth : Nat) (fs gs : List Finding) :
    readAll depth (fs ++ gs) =
      (do
        let ds ← readAll depth fs
        let es ← readAll depth gs
        return ds ++ es) := by
  induction fs with
  | nil => exact (bind_pure (readAll depth gs)).symm
  | cons f fs ih =>
      simp only [List.cons_append, readAll, ih, bind_assoc, pure_bind, List.append_assoc]

/-- One text is read after the other. -/
theorem parse_join (depth : Nat) (hclosed : Closed a) (b : List Char) :
    parse depth (a ++ '\n' :: b) =
      (do
        let ds ← parse depth a
        let es ← parse depth b
        return ds ++ es) := by
  rw [parse, findings_join hclosed, readAll_append]
  rfl

end Dependency

/-! ## The record of a class -/

/-- Of two lists of directives the second decides for the names that it has a directive for. -/
theorem Alias.ofDirectives_append (ds es : List Dependency) (name : String) :
    ofDirectives (ds ++ es) name =
      if name ∈ es.map (·.param) then ofDirectives es name else ofDirectives ds name := by
  rw [ofDirectives, List.filter_append, List.getLast?_append]
  split_ifs with h
  · obtain ⟨e, he, hname⟩ := List.mem_map.1 h
    have hne : es.filter (·.param = name) ≠ [] :=
      List.ne_nil_of_mem (List.mem_filter.2 ⟨he, by simpa using hname⟩)
    rw [ofDirectives, List.getLast?_eq_some_getLast hne]
    rfl
  · have hnone : es.filter (·.param = name) = [] :=
      List.filter_eq_nil_iff.2 fun e he => by
        simpa using fun hname => h (List.mem_map.2 ⟨e, he, hname⟩)
    rw [hnone]
    rfl

namespace Record

/-- Parameters get their aliases, unless one of the directives is for none of them and that is an
error. -/
theorem paramsOf_eq_ok_of_parse {depth : Nat} {policy : UnknownPolicy} {target : String}
    {s : Signature}
    {ds : List Dependency} (hparse : (Dependency.parse depth s.directives).result = .ok ds)
    (hknown : policy = .error → ∀ d ∈ ds, d.param ∈ s.params) :
    (paramsOf depth policy target s).result =
      .ok (s.params.eraseDups.map fun p => (Text.ofString p,
        (Alias.ofDirectives ds p).toJson)) := by
  rw [paramsOf]
  split
  · next hnone =>
      rw [List.isEmpty_iff.1 hnone]
      rfl
  · have hcheck : (checkUnknown policy target
        (((Aliases.ofDependencies ds).complete s.params).unknown s.params)).result = .ok () := by
      refine checkUnknown_eq_ok fun herror => ?_
      rw [Aliases.unknown_complete_ofDependencies, List.filter_eq_nil_iff]
      intro n hn
      obtain ⟨d, hd, rfl⟩ := List.mem_map.1 (List.mem_eraseDups.1 hn)
      simpa using hknown herror d hd
    rw [Logged.result_bind, Aliases.resolve_eq_ok hparse]
    simp only [Except.bind, Logged.result_bind, hcheck, Aliases.forParameters_complete]
    rfl

/-- The record of a class whose constructor has a comment of its own. -/
theorem result_build_of_constructor {depth : Nat} {source : Bytes} {policy : UnknownPolicy}
    {identifier : String}
    {cls c : Tree} {s : Site} {comment : List Char} {directive : Injectable} {line : Int}
    {ds : List Dependency} (hclass : cls.isClass = true)
    (hsite : cls.constructorSite? source = some s) (hlead : s.leadingComment = some c)
    (hparse : (Dependency.parse depth (comment ++ '\n' :: Comment.value (c.chars source))).result =
      .ok ds)
    (hknown : policy = .error → ∀ d ∈ ds, d.param ∈ s.node.functionParameters source) :
    (build depth source policy identifier cls comment directive line).result =
      .ok (some ⟨identifier, directive.alias?, true,
        .obj ((s.node.functionParameters source).eraseDups.map fun p =>
          (Text.ofString p, (Alias.ofDirectives ds p).toJson)), line⟩) := by
  have hsignature : Signature.ofTarget? source cls comment =
      some ⟨s.node.functionParameters source,
        comment ++ '\n' :: Comment.value (c.chars source)⟩ := by
    rw [Signature.ofTarget?, if_pos hclass, Signature.ofClass, hsite]
    simp only [hlead]
  simp only [build, hsignature]
  rw [Logged.result_bind, paramsOf_eq_ok_of_parse hparse hknown]
  simp only [Except.bind, hclass]
  rfl

end Record

namespace Dependency

/-- **Joined comments.**  If the braces of the first text are closed in it, then a text joined to it
behind a line break is read after it, and the first of the two that fails decides the failure.
Hence the record of a class takes the aliases of its parameters from the comment of the constructor
where that has a directive for the parameter, and from the comment of the class elsewhere. -/
theorem parse_joined_comments (depth : Nat) (a b : List Char) (hclosed : Closed a) :
    parse depth (a ++ '\n' :: b) =
        (do
          let ds ← parse depth a
          let es ← parse depth b
          return ds ++ es) ∧
      (∀ ds es, (parse depth a).result = .ok ds → (parse depth b).result = .ok es →
        (parse depth (a ++ '\n' :: b)).result = .ok (ds ++ es)) ∧
      (∀ e, (parse depth a).result = .error e → (parse depth (a ++ '\n' :: b)).result = .error e) ∧
      (∀ ds e, (parse depth a).result = .ok ds → (parse depth b).result = .error e →
        (parse depth (a ++ '\n' :: b)).result = .error e) ∧
      ∀ (source : Bytes) (cls c : Tree) (s : Site) (ds es : List Dependency),
        cls.isClass = true → cls.constructorSite? source = some s → s.leadingComment = some c →
        Comment.value (c.chars source) = b →
        (parse depth a).result = .ok ds → (parse depth b).result = .ok es →
        ∀ policy identifier directive line,
          (policy = .error → ∀ d ∈ ds ++ es, d.param ∈ s.node.functionParameters source) →
          (Record.build depth source policy identifier cls a directive line).result =
            .ok (some ⟨identifier, directive.alias?, true,
              .obj ((s.node.functionParameters source).eraseDups.map fun p =>
                (Text.ofString p,
                  (if p ∈ es.map (·.param) then Alias.ofDirectives es p
                    else Alias.ofDirectives ds p).toJson)), line⟩) := by
  have hresult : (parse depth (a ++ '\n' :: b)).result =
      (parse depth a).result.bind fun ds => (parse depth b).result.bind fun es =>
        .ok (ds ++ es) := by
    rw [parse_join depth hclosed b]
    simp only [Logged.result_bind, Logged.result_pure]
  have hok : ∀ ds es, (parse depth a).result = .ok ds → (parse depth b).result = .ok es →
      (parse depth (a ++ '\n' :: b)).result = .ok (ds ++ es) := by
    intro ds es hds hes
    rw [hresult, hds, hes]
    rfl
  refine ⟨parse_join depth hclosed b, hok, fun e he => ?_, fun ds e hds he => ?_, ?_⟩
  · rw [hresult, he]
    rfl
  · rw [hresult, hds, he]
    rfl
  · rintro source cls c s ds es hclass hsite hlead rfl hds hes policy identifier directive line
      hknown
    rw [Record.result_build_of_constructor hclass hsite hlead (hok ds es hds hes) hknown]
    simp only [Alias.ofDirectives_append]

open Transform

/-- The class of `classSource`. -/
def classNode : Tree := classTree.children.getD 1 classTree

/-- The comments of the class and of its constructor. -/
def classComment : List Char :=
  "* @injectable Svc @dependency \x7bx\x7d a @dependency \x7by = 1\x7d b ".toList

def constructorComment : List Char := "* @dependency \x7bz = null\x7d a ".toList

theorem closed_classComment : Closed classComment := closed_of_all (by rfl)

theorem result_parse_classComment :
    (parse 980 classComment).result = .ok [⟨"a", "x", none⟩, ⟨"b", "y", some (.int 1)⟩] := by
  have hfindings : findings classComment =
      [.dependency "a" "x" none, .dependency "b" "y" (some "1")] := by rfl
  have hone : Json.read .refuse 980 "1".toList = .ok (.int 1) := by rfl
  simp only [parse, hfindings, readAll, Finding.read, hone]
  rfl

theorem result_parse_constructorComment :
    (parse 980 constructorComment).result = .ok [⟨"a", "z", some .null⟩] := by
  have hfindings : findings constructorComment = [.dependency "a" "z" (some "null")] := by rfl
  have hnull : Json.read .refuse 980 "null".toList = .ok .null := by rfl
  simp only [parse, hfindings, readAll, Finding.read, hnull]
  rfl

/-- The comment of the constructor overrides that of the class for `a`, and leaves `b` as it is. -/
theorem parse_joined_comments_of_class :
    Closed classComment ∧
      (Record.build 980 classBytes .error "C" classNode classComment ⟨some "Svc"⟩ 2).result =
        .ok (some ⟨"C", some "Svc", true,
          .obj [(Text.ofString "a", Alias.toJson ⟨"z", some .null⟩),
            (Text.ofString "b", Alias.toJson ⟨"y", some (.int 1)⟩),
            (Text.ofString "c", Alias.toJson ⟨"c", none⟩)], 2⟩) := by
  have hcheck : (classNode.constructorSite? classBytes).any (fun s =>
      s.leadingComment.any (fun c => Comment.value (c.chars classBytes) = constructorComment) &&
        s.node.functionParameters classBytes = ["a", "b", "c", "a"]) = true := by rfl
  obtain ⟨s, hsite, hs⟩ := (Option.any_eq_true _ _).1 hcheck
  rw [Bool.and_eq_true] at hs
  obtain ⟨c, hlead, hc⟩ := (Option.any_eq_true _ _).1 hs.1
  have hparams := of_decide_eq_true hs.2
  obtain ⟨-, -, -, -, hbuild⟩ :=
    parse_joined_comments 980 classComment constructorComment closed_classComment
  have h := hbuild classBytes classNode c s _ _ rfl hsite hlead (of_decide_eq_true hc)
    result_parse_classComment result_parse_constructorComment .error "C" ⟨some "Svc"⟩ 2
    (by rw [hparams]; simp)
  rw [hparams] at h
  exact ⟨closed_classComment, h⟩

end Dependency

end Injection
