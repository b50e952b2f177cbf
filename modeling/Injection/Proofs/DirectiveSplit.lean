import Injection.Proofs.DirectiveGrammar

/-!
# Where a body is divided

A body is divided into a provider path and a default.

* `TopLevel` divides it at the first equals sign with a blank on both sides of it that is outside of
  strings and nested braces.  The parser divides it at its first equals sign.
* `TopLevel.finding_eq`: the two find the same as long as the path of the first has no equals sign.
* **`parse_divided_at_first_equals`**: what is read in the place of a directive, and that a path
  with an equals sign is never read.
-/

namespace Injection

namespace Dependency

/-! ## Trimming -/

theorem mem_of_mem_trim {c : Char} {cs : List Char} (h : c ∈ trim cs) : c ∈ cs := by
  rw [trim, List.mem_reverse] at h
  have hinner := (List.dropWhile_sublist isBlank).subset h
  exact (List.dropWhile_sublist isBlank).subset (List.mem_reverse.1 hinner)

theorem mem_dropWhile_of_mem {p : Char → Bool} {c : Char} {cs : List Char} (h : c ∈ cs)
    (hc : p c = false) : c ∈ cs.dropWhile p := by
  rw [← List.takeWhile_append_dropWhile (p := p) (l := cs), List.mem_append] at h
  refine h.resolve_left fun htake => ?_
  rw [List.mem_takeWhile_imp htake] at hc
  cases hc

theorem mem_trim_of_mem {c : Char} {cs : List Char} (h : c ∈ cs) (hc : isBlank c = false) :
    c ∈ trim cs := by
  rw [trim, List.mem_reverse]
  exact mem_dropWhile_of_mem (List.mem_reverse.2 (mem_dropWhile_of_mem h hc)) hc

/-! ## The two ways to divide a body -/

/-- A body divided at the first equals sign with a blank on both sides that is outside of strings
and nested braces. -/
inductive TopLevel (body : List Char) : List Char → Option (List Char) → Prop
  | divided {path literal : List Char} (hbody : body = path ++ (" = ".toList ++ literal))
      (hpath : Balanced path)
      (hfirst : ∀ path' literal', body = path' ++ (" = ".toList ++ literal') → Balanced path' →
        path.length ≤ path'.length) : TopLevel body path (some literal)
  | whole (h : ∀ path literal, body = path ++ (" = ".toList ++ literal) → ¬ Balanced path) :
      TopLevel body body none

theorem exists_topLevel (body : List Char) : ∃ path literal, TopLevel body path literal := by
  classical
  by_cases h : ∃ n path literal, path.length = n ∧ body = path ++ (" = ".toList ++ literal) ∧
      Balanced path
  · obtain ⟨path, literal, hlength, hbody, hpath⟩ := Nat.find_spec h
    refine ⟨path, some literal, .divided hbody hpath fun path' literal' hbody' hpath' => ?_⟩
    rw [hlength]
    exact Nat.find_min' h ⟨path', literal', rfl, hbody', hpath'⟩
  · exact ⟨body, none, .whole fun path literal hbody hpath =>
      h ⟨_, path, literal, rfl, hbody, hpath⟩⟩

namespace TopLevel

variable {body path : List Char} {literal : Option (List Char)} {d : Directive}

theorem path_prefix (h : TopLevel body path literal) : path <+: body := by
  cases h with
  | divided hbody => exact ⟨_, hbody.symm⟩
  | whole => exact List.prefix_rfl

/-- Without an equals sign in the path, the first one of the body is that of the separator. -/
theorem finding_eq (h : TopLevel body path literal) (hd : '=' ∉ d.path) (hbody : d.body = body)
    (hpath : '=' ∉ path) : d.path.all isBlank = path.all isBlank ∧
      d.finding = (Directive.mk d.start d.param path literal).finding := by
  cases h with
  | @divided path literal htext =>
      have hne : '=' ∉ path ++ [' '] := by simp [hpath]
      have heq : d = ⟨d.start, d.param, path ++ [' '], some (' ' :: literal)⟩ := by
        refine Directive.eq_of_body hd hne rfl rfl ?_
        rw [hbody, htext]
        simp [Directive.body]
      have hblank : trim (path ++ [' ']) = trim path :=
        trim_append_blank path (List.forall_mem_singleton.2 rfl)
      have htrim : trim (' ' :: literal) = trim literal := rfl
      constructor
      · rw [congrArg Directive.path heq, List.all_append]
        exact Bool.and_true _
      · rw [congrArg Directive.finding heq]
        simp only [Directive.finding, Option.map_some, hblank, htrim]
  | whole =>
      rw [← hbody] at hpath ⊢
      have heq : d = ⟨d.start, d.param, d.body, none⟩ :=
        Directive.eq_of_body hd hpath rfl rfl rfl
      exact ⟨congrArg (fun e => e.path.all isBlank) heq, congrArg Directive.finding heq⟩

/-- With one, the first equals sign of the body is in the path. -/
theorem exists_literal (h : TopLevel body path literal) (hd : '=' ∉ d.path) (hbody : d.body = body)
    (hpath : '=' ∈ path) :
    ∃ tail, d.literal = some tail ∧ body = d.path ++ '=' :: tail ∧
      d.path.length < path.length := by
  cases hliteral : d.literal with
  | none =>
      have hbare : d.body = d.path := by rw [Directive.body, hliteral]
      rw [← hbody, hbare] at h
      exact absurd (h.path_prefix.subset hpath) hd
  | some tail =>
      have htext : body = d.path ++ '=' :: tail := by rw [← hbody, Directive.body, hliteral]
      refine ⟨tail, rfl, htext, Nat.lt_of_not_le fun hle => hd ?_⟩
      have hprefix := List.prefix_of_prefix_length_le h.path_prefix ⟨_, htext.symm⟩ hle
      exact hprefix.subset hpath

end TopLevel

/-! ## The directives around a position -/

/-- The directives of a text in front of position `p` and behind it, in order. -/
structure Around (cs : List Char) (p : Nat) (front back : List Directive) : Prop where
  sorted : (front ++ back).Pairwise fun d e => d.start < e.start
  mem_front : ∀ d, d ∈ front ↔ d.start < p ∧ d.Stands cs
  mem_back : ∀ d, d ∈ back ↔ p < d.start ∧ d.Stands cs

theorem exists_cut (p : Nat) {ds : List Directive}
    (h : ds.Pairwise fun d e => d.start < e.start) :
    ∃ front back, ds = front ++ back ∧ (∀ d ∈ front, d.start < p) ∧ ∀ d ∈ back, p ≤ d.start := by
  induction ds with
  | nil => exact ⟨[], [], rfl, by simp, by simp⟩
  | cons d ds ih =>
      obtain ⟨hd, hds⟩ := List.pairwise_cons.1 h
      rcases Nat.lt_or_ge d.start p with hlt | hge
      · obtain ⟨front, back, rfl, hfront, hback⟩ := ih hds
        exact ⟨d :: front, back, rfl, List.forall_mem_cons.2 ⟨hlt, hfront⟩, hback⟩
      · exact ⟨[], d :: ds, rfl, by simp,
          List.forall_mem_cons.2 ⟨hge, fun e he => hge.trans (hd e he).le⟩⟩

/-- What is found in a text at an occurrence with a body and a name, and around it. -/
theorem exists_around {cs : List Char} {d : Directive} {n : Nat} (hreached : Reached cs d.start)
    (hn : Consumes (cs.drop (d.start + token.length)) (some (d.body, d.param)) n)
    (hd : '=' ∉ d.path) :
    ∃ front back, Around cs d.start front back ∧
      (findings cs).filter Finding.hasProvider = front.map Directive.finding ++
        ((if d.path.all isBlank then [] else [d.finding]) ++ back.map Directive.finding) := by
  obtain ⟨ds, hsorted, hmem, hfindings⟩ := exists_directives cs
  -- No other directive has its token there.
  have hhere : ∀ e : Directive, e.Stands cs → e.start = d.start → e = d := by
    intro e he hstart
    obtain ⟨m, hm⟩ := he.consumes
    rw [hstart] at hm
    have hparts := (hm.unique hn).1
    simp only [Option.some.injEq, Prod.mk.injEq] at hparts
    exact Directive.eq_of_body he.no_equals hd hstart hparts.2 hparts.1
  cases hblank : d.path.all isBlank with
  | true =>
      obtain ⟨front, back, rfl, hfront, hback⟩ := exists_cut d.start hsorted
      have hne : ∀ e ∈ back, d.start < e.start := by
        intro e he
        have hstands := (hmem e).1 (List.mem_append_right front he)
        refine Nat.lt_of_le_of_ne (hback e he) fun heq => ?_
        have hnot := hstands.not_blank
        rw [hhere e hstands heq.symm, hblank] at hnot
        cases hnot
      refine ⟨front, back, ⟨hsorted, fun e => ?_, fun e => ?_⟩, by simp [hfindings]⟩
      · rw [← hmem, List.mem_append]
        refine ⟨fun he => ⟨hfront e he, .inl he⟩, fun ⟨hlt, he⟩ => he.resolve_right fun he => ?_⟩
        have hge := hback e he
        omega
      · rw [← hmem, List.mem_append]
        refine ⟨fun he => ⟨hne e he, .inr he⟩, fun ⟨hlt, he⟩ => he.resolve_left fun he => ?_⟩
        have hlt' := hfront e he
        omega
  | false =>
      obtain ⟨front, back, rfl⟩ := List.append_of_mem ((hmem d).2 ⟨hreached, ⟨n, hn⟩, hd, hblank⟩)
      obtain ⟨hfront, hdback, hcross⟩ := List.pairwise_append.1 hsorted
      obtain ⟨hdlt, hback⟩ := List.pairwise_cons.1 hdback
      refine ⟨front, back, ⟨?_, fun e => ?_, fun e => ?_⟩, by simp [hfindings]⟩
      · exact List.pairwise_append.2
          ⟨hfront, hback, fun a ha b hb => hcross a ha b (List.mem_cons_of_mem d hb)⟩
      · rw [← hmem, List.mem_append]
        refine ⟨fun he => ⟨hcross e he d (List.mem_cons_self ..), .inl he⟩, fun ⟨hlt, he⟩ =>
          he.resolve_right fun he => ?_⟩
        rcases List.mem_cons.1 he with rfl | he
        · exact absurd hlt (Nat.lt_irrefl _)
        · have hlt' := hdlt e he
          omega
      · rw [← hmem, List.mem_append, List.mem_cons]
        refine ⟨fun he => ⟨hdlt e he, .inr (.inr he)⟩, ?_⟩
        rintro ⟨hlt, he | rfl | he⟩
        · have hlt' := hcross e he d (List.mem_cons_self ..)
          omega
        · exact absurd hlt (Nat.lt_irrefl _)
        · exact he

/-- A path with an equals sign is never read. -/
theorem provider_ne_of_mem {depth : Nat} {cs path : List Char} (hpath : '=' ∈ path)
    {rs : List Dependency}
    (h : (parse depth cs).result = .ok rs) : ∀ r ∈ rs, r.provider ≠ String.ofList (trim path) := by
  intro r hr heq
  obtain ⟨d, hd, hmeans⟩ := exists_directive_of_parse h hr
  have htrim : trim d.path = trim path := by
    have hofList := hmeans.provider.symm.trans heq
    rw [← String.toList_ofList (l := trim d.path), hofList, String.toList_ofList]
  refine hd.no_equals (mem_of_mem_trim ?_)
  rw [htrim]
  exact mem_trim_of_mem hpath rfl

/-- **A body is divided at its first equals sign**, whatever stands around that sign.  Where the
path up to the first separator outside of strings and nested braces has no equals sign, this is that
separator, and the directive is read with the path in front of it and the text behind it.  Where it
has one, the directive is read with what stands in front of that sign as its path and all the rest
as its default, or skipped if the former is blank; and no dependency is read with the whole path. -/
theorem parse_divided_at_first_equals (depth : Nat) {cs body param : List Char} {p n : Nat}
    (hreached : Reached cs p)
    (hn : Consumes (cs.drop (p + token.length)) (some (body, param)) n) :
    (∃ path literal, TopLevel body path literal) ∧
      ∀ path literal, TopLevel body path literal → path.all isBlank = false →
        ∃ front back, Around cs p front back ∧
          ('=' ∉ path → ReadAs depth cs (front ++ ⟨p, param, path, literal⟩ :: back)) ∧
          ('=' ∈ path → ∃ first tail, body = first ++ '=' :: tail ∧ '=' ∉ first ∧
            first.length < path.length ∧
            (first.all isBlank = false →
              ReadAs depth cs (front ++ ⟨p, param, first, some tail⟩ :: back)) ∧
            (first.all isBlank = true → ReadAs depth cs (front ++ back)) ∧
            ∀ rs, (parse depth cs).result = .ok rs →
              ∀ r ∈ rs, r.provider ≠ String.ofList (trim path)) := by
  refine ⟨exists_topLevel body, fun path literal htop hblank => ?_⟩
  obtain ⟨d, rfl, rfl, rfl, hd⟩ := Directive.exists_of_body p body param
  obtain ⟨front, back, haround, hfindings⟩ := exists_around hreached hn hd
  refine ⟨front, back, haround, fun hpath => .of_findings ?_, fun hpath => ?_⟩
  · obtain ⟨hdblank, hfinding⟩ := htop.finding_eq hd rfl hpath
    rw [hfindings, hdblank, hblank]
    simp [hfinding]
  · obtain ⟨tail, hliteral, hbody, hlength⟩ := htop.exists_literal hd rfl hpath
    refine ⟨d.path, tail, hbody, hd, hlength, fun hfirst => .of_findings ?_,
      fun hfirst => .of_findings ?_, fun rs => provider_ne_of_mem hpath⟩
    · rw [hfindings, hfirst, ← hliteral]
      simp
    · rw [hfindings, hfirst]
      simp

/-! ## Samples -/

/-- The text `@dependency {cfg["a{ b"] = {"k": "="}} x`. -/
def sampleText : List Char :=
  "@dependency \x7bcfg[\"a\x7b b\"] = \x7b\"k\": \"=\"\x7d\x7d x".toList

def samplePath : List Char := "cfg[\"a\x7b b\"]".toList

def sampleDefault : List Char := "\x7b\"k\": \"=\"\x7d".toList

theorem named_x : Named [' ', 'x'] [' '] ['x'] [] :=
  ⟨rfl, List.forall_mem_singleton.2 rfl, List.cons_ne_nil _ _, rfl, Ends.nil⟩

theorem consumes_sample : Consumes (sampleText.drop (0 + token.length))
    (some (samplePath ++ (" = ".toList ++ sampleDefault), ['x'])) 40 := by
  have hbody : Bodied (sampleText.drop (0 + token.length)) [' ']
      (samplePath ++ (" = ".toList ++ sampleDefault)) [' ', 'x'] :=
    bodied_iff.2 ⟨samplePath ++ (" = ".toList ++ sampleDefault) ++ ['\x7d', ' ', 'x'],
      by rfl, by rfl⟩
  exact .directive hbody named_x

theorem topLevel_sample :
    TopLevel (samplePath ++ (" = ".toList ++ sampleDefault)) samplePath (some sampleDefault) := by
  have hclosing : closing? 0 .plain (samplePath ++ ['\x7d']) = some (samplePath, []) := by rfl
  have hbalanced := (closing?_eq_some_iff.1 hclosing).2
  refine .divided rfl hbalanced fun path literal hbody _ => Nat.le_of_not_lt fun hlt => ?_
  -- No separator begins in front of the end of the path.
  have hnone : ∀ k < samplePath.length, (" = ".toList.isPrefixOf
      ((samplePath ++ (" = ".toList ++ sampleDefault)).drop k)) = false := by decide
  have hprefix := hnone path.length hlt
  rw [hbody, List.drop_left] at hprefix
  exact absurd hprefix (by simp)

theorem parse_divided_of_sample :
    Reached sampleText 0 ∧
      Consumes (sampleText.drop (0 + token.length))
        (some (samplePath ++ (" = ".toList ++ sampleDefault), ['x'])) 40 ∧
      ∃ front back, Around sampleText 0 front back ∧
        ReadAs 1 sampleText (front ++ ⟨0, ['x'], samplePath, some sampleDefault⟩ :: back) := by
  have hreached : Reached sampleText 0 := reached_iff.2 ⟨⟨_, rfl⟩, .zero _⟩
  obtain ⟨front, back, haround, hread, -⟩ :=
    (parse_divided_at_first_equals 1 hreached consumes_sample).2 _ _ topLevel_sample rfl
  exact ⟨hreached, consumes_sample, front, back, haround, hread (by decide)⟩

/-- An equals sign in a string divides the body, and what stands behind it in the string is not a
JSON text. -/
theorem parse_of_equals_in_string :
    TopLevel "cfg[\"a=b\"]".toList "cfg[\"a=b\"]".toList none ∧
      Consumes ("@dependency \x7bcfg[\"a=b\"]\x7d x".toList.drop token.length)
        (some ("cfg[\"a=b\"]".toList, ['x'])) 26 ∧
      ∀ depth, ∃ reason, (parse depth "@dependency \x7bcfg[\"a=b\"]\x7d x".toList).result =
        .error (.ofTransform (.malformedDefault "x" "b\"]" reason)) := by
  refine ⟨.whole fun path literal hbody _ => ?_, ?_, fun depth => ?_⟩
  · have hblank : ' ' ∈ "cfg[\"a=b\"]".toList := by
      rw [hbody]
      simp
    exact absurd hblank (by decide)
  · have hbody : Bodied ("@dependency \x7bcfg[\"a=b\"]\x7d x".toList.drop token.length) [' ']
        "cfg[\"a=b\"]".toList [' ', 'x'] :=
      bodied_iff.2 ⟨"cfg[\"a=b\"]\x7d x".toList, by rfl, by rfl⟩
    exact .directive hbody named_x
  · have hfindings : findings "@dependency \x7bcfg[\"a=b\"]\x7d x".toList =
        [.dependency "x" "cfg[\"a" (some "b\"]")] := by rfl
    have hread : Json.read .refuse depth "b\"]".toList = .error (.at .expectingValue 3) := by rfl
    refine ⟨Json.Fault.message "b\"]".toList (.at .expectingValue 3), ?_⟩
    simp only [parse, hfindings, readAll, Finding.read, hread, Logged.result_bind,
      Logged.result_fail]
    rfl

end Dependency

end Injection
