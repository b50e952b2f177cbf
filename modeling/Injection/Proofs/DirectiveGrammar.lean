import Injection.Proofs.DirectiveLines
import Injection.Proofs.JsonTexts
import Mathlib.Data.List.Forall2

/-!
# The grammar of dependency directives

What the parser finds in a text, said without a cursor.

* `Balanced` is the grammar of bodies, and `closing?_eq_some_iff` says that the scan for the closing
  brace accepts exactly them.
* `Bodied` and `Named` are the two halves of a directive behind its token, and `Consumes` says what
  an occurrence of the token consumes, with its body and its name when it has both.
* `Reached` are the occurrences that no earlier one consumes, and `Directive.Stands` the directives
  among them.  `Found` is the invariant of the search: `Found.pass` and `Found.occurrence` are its
  steps, and `exists_found` is a whole run.
* `Directive.Means` and `Directive.Fails`: what a directive stands for, and why it stands for
  nothing.
* **`parse_eq_grammar`**: what is read from a text, and what reading it fails with.
-/

namespace Injection

open Json.Syntax

namespace Dependency

/-! ## Bodies -/

/-- What stands behind an opening quote up to the closing one, which belongs to it.  A backslash
takes the character behind it along. -/
inductive StringRest : List Char → Prop
  | close : StringRest ['"']
  | plain {c : Char} {cs : List Char} (hquote : c ≠ '"') (hslash : c ≠ '\\') (h : StringRest cs) :
      StringRest (c :: cs)
  | escape {c : Char} {cs : List Char} (h : StringRest cs) : StringRest ('\\' :: c :: cs)

/-- The braces of a text balance each other.  Those in strings do not count, and the strings of the
text end in it. -/
inductive Balanced : List Char → Prop
  | nil : Balanced []
  | bare {c : Char} {cs : List Char} (hc : isBare c = true) (h : Balanced cs) : Balanced (c :: cs)
  | string {s cs : List Char} (hs : StringRest s) (h : Balanced cs) : Balanced ('"' :: (s ++ cs))
  | braces {inner cs : List Char} (hinner : Balanced inner) (h : Balanced cs) :
      Balanced ('\x7b' :: (inner ++ '\x7d' :: cs))

/-- The rest of a string leaves the scan outside of strings. -/
theorem StringRest.closing? {s : List Char} (h : StringRest s) (depth : Nat) (rest : List Char) :
    Dependency.closing? depth .quoted (s ++ rest) =
      (Dependency.closing? depth .plain rest).map fun r => (s ++ r.1, r.2) := by
  induction h with
  | close => simp [Dependency.closing?, Place.step]
  | plain hquote hslash h ih =>
      simp [Dependency.closing?, Place.step, hquote, hslash, ih, Function.comp_def]
  | escape h ih => simp [Dependency.closing?, Place.step, ih, Function.comp_def]

theorem Balanced.crosses {cs : List Char} (h : Balanced cs) : Crosses 0 0 cs := by
  induction h with
  | nil => exact .nil
  | bare hc h ih => exact .append (a := [_]) (.of_bare (by simp [hc])) ih
  | @string s cs hs h ih =>
      refine .append (a := '"' :: s) (fun depth rest => ?_) ih
      have hquote : Dependency.closing? depth .plain ('"' :: (s ++ rest)) =
          (Dependency.closing? depth .quoted (s ++ rest)).map fun r => ('"' :: r.1, r.2) := by
        simp [Dependency.closing?, Place.step]
      rw [Nat.add_zero, List.cons_append, hquote, hs.closing?, Option.map_map]
      rfl
  | braces hinner h hcrosses ih =>
      exact .append (a := ['\x7b']) .opening
        (.append (hcrosses.add 1) (.append (a := ['\x7d']) .closing ih))

theorem Balanced.of_bare {cs : List Char} (h : cs.all isBare = true) : Balanced cs := by
  induction cs with
  | nil => exact .nil
  | cons c cs ih =>
      rw [List.all_cons, Bool.and_eq_true] at h
      exact .bare h.1 (ih h.2)

/-- A text in which `depth` braces close that were opened in front of it, and the others balance. -/
def Closes : Nat → List Char → Prop
  | 0, cs => Balanced cs
  | depth + 1, cs => ∃ inner rest, cs = inner ++ '\x7d' :: rest ∧ Balanced inner ∧ Closes depth rest

theorem Closes.prepend {front : List Char} (hfront : ∀ cs, Balanced cs → Balanced (front ++ cs))
    {depth : Nat} {cs : List Char} (h : Closes depth cs) : Closes depth (front ++ cs) := by
  cases depth with
  | zero => exact hfront cs h
  | succ depth =>
      obtain ⟨inner, rest, rfl, hinner, hrest⟩ := h
      exact ⟨front ++ inner, rest, by rw [List.append_assoc], hfront inner hinner, hrest⟩

/-- What a body that the scan finds looks like from each of its places. -/
def ClosesFrom (depth : Nat) : Place → List Char → Prop
  | .plain, cs => Closes depth cs
  | .quoted, cs => ∃ s rest, cs = s ++ rest ∧ StringRest s ∧ Closes depth rest
  | .escaped, cs => ∃ c s rest, cs = c :: (s ++ rest) ∧ StringRest s ∧ Closes depth rest

/-- One character of a body that neither opens nor closes a brace. -/
theorem closesFrom_cons {depth : Nat} {place : Place} {c : Char} {cs : List Char}
    (hclose : ¬ (place = .plain ∧ c = '\x7d')) (hopen : ¬ (place = .plain ∧ c = '\x7b'))
    (h : ClosesFrom depth (place.step c) cs) : ClosesFrom depth place (c :: cs) := by
  cases place with
  | plain =>
      by_cases hquote : c = '"'
      · simp only [Place.step, if_pos hquote] at h
        obtain ⟨s, rest, rfl, hs, hrest⟩ := h
        rw [hquote]
        have hfront : ∀ cs, Balanced cs → Balanced ('"' :: s ++ cs) := fun _ hcs => .string hs hcs
        exact hrest.prepend hfront
      · simp only [Place.step, if_neg hquote] at h
        have hbare : isBare c = true := by simp_all [isBare]
        have hfront : ∀ cs, Balanced cs → Balanced ([c] ++ cs) := fun _ hcs => .bare hbare hcs
        exact Closes.prepend hfront h
  | quoted =>
      by_cases hslash : c = '\\'
      · simp only [Place.step, if_pos hslash] at h
        obtain ⟨d, s, rest, rfl, hs, hrest⟩ := h
        exact ⟨'\\' :: d :: s, rest, by rw [hslash]; rfl, .escape hs, hrest⟩
      by_cases hquote : c = '"'
      · simp only [Place.step, if_neg hslash, if_pos hquote] at h
        exact ⟨['"'], cs, by rw [hquote]; rfl, .close, h⟩
      · simp only [Place.step, if_neg hslash, if_neg hquote] at h
        obtain ⟨s, rest, rfl, hs, hrest⟩ := h
        exact ⟨c :: s, rest, rfl, .plain hquote hslash hs, hrest⟩
  | escaped =>
      obtain ⟨s, rest, rfl, hs, hrest⟩ := h
      exact ⟨c, s, rest, rfl, hs, hrest⟩

theorem closesFrom_of_closing? {depth : Nat} {place : Place} {cs body behind : List Char}
    (h : closing? depth place cs = some (body, behind)) :
    cs = body ++ '\x7d' :: behind ∧ ClosesFrom depth place body := by
  induction cs generalizing depth place body with
  | nil => cases h
  | cons c cs ih =>
      rw [closing?.eq_def] at h
      dsimp only at h
      split at h
      · next hclose =>
          obtain ⟨rfl, rfl⟩ := hclose
          cases depth with
          | zero =>
              cases h
              exact ⟨rfl, Balanced.nil⟩
          | succ depth =>
              obtain ⟨r, hr, heq⟩ := Option.map_eq_some_iff.1 h
              cases heq
              obtain ⟨rfl, hrest⟩ := ih hr
              exact ⟨rfl, [], r.1, rfl, .nil, hrest⟩
      split at h
      · next hopen =>
          obtain ⟨rfl, rfl⟩ := hopen
          obtain ⟨r, hr, heq⟩ := Option.map_eq_some_iff.1 h
          cases heq
          obtain ⟨rfl, inner, rest, hbody, hinner, hrest⟩ := ih hr
          refine ⟨rfl, ?_⟩
          rw [hbody]
          have hfront : ∀ cs, Balanced cs → Balanced ('\x7b' :: (inner ++ ['\x7d']) ++ cs) := by
            intro cs hcs
            simpa using Balanced.braces hinner hcs
          show Closes depth _
          simpa using hrest.prepend hfront
      · next hclose hopen =>
          obtain ⟨r, hr, heq⟩ := Option.map_eq_some_iff.1 h
          cases heq
          obtain ⟨rfl, hrest⟩ := ih hr
          exact ⟨rfl, closesFrom_cons hclose hopen hrest⟩

/-- **The scan for the closing brace accepts exactly the grammar of bodies.** -/
theorem closing?_eq_some_iff {cs body behind : List Char} :
    closing? 0 .plain cs = some (body, behind) ↔ cs = body ++ '\x7d' :: behind ∧ Balanced body := by
  constructor
  · exact closesFrom_of_closing?
  · rintro ⟨rfl, hbody⟩
    have hcrosses := hbody.crosses 0 ('\x7d' :: behind)
    simpa [closing?] using hcrosses

/-! ## What an occurrence consumes -/

/-- At the front of `cs` stand blanks and a body in braces. -/
structure Bodied (cs gap body behind : List Char) : Prop where
  chars : cs = gap ++ '\x7b' :: (body ++ '\x7d' :: behind)
  blank : ∀ c ∈ gap, isGap c = true
  balanced : Balanced body

/-- At the front of `cs` stand blanks, at least one, and an identifier that ends in front of
`rest`. -/
structure Named (cs gap name rest : List Char) : Prop where
  chars : cs = gap ++ (name ++ rest)
  blank : ∀ c ∈ gap, isGap c = true
  ne_nil : gap ≠ []
  identifier : isIdentifier name = true
  ends : Ends isWordChar rest

/-- The body and the name behind an occurrence of the token in front of `cs`, if it has both, and
the number of characters that the occurrence consumes. -/
inductive Consumes (cs : List Char) : Option (List Char × List Char) → Nat → Prop
  /-- All up to the end of the name. -/
  | directive {gap body behind gap' name rest : List Char} (hbody : Bodied cs gap body behind)
      (hname : Named behind gap' name rest) :
      Consumes cs (some (body, name))
        (token.length + gap.length + body.length + 2 + (gap'.length + name.length))
  /-- All up to the closing brace. -/
  | unnamed {gap body behind : List Char} (hbody : Bodied cs gap body behind)
      (hname : ∀ gap' name rest, ¬ Named behind gap' name rest) :
      Consumes cs none (token.length + gap.length + body.length + 2)
  /-- The token alone. -/
  | bare (hbody : ∀ gap body behind, ¬ Bodied cs gap body behind) : Consumes cs none token.length

theorem span_eq_iff {p : Char → Bool} {cs a b : List Char} :
    cs.span p = (a, b) ↔ cs = a ++ b ∧ (∀ c ∈ a, p c = true) ∧ Ends p b := by
  constructor
  · intro h
    rw [List.span_eq_takeWhile_dropWhile, Prod.mk.injEq] at h
    obtain ⟨rfl, rfl⟩ := h
    exact ⟨List.takeWhile_append_dropWhile.symm, fun c hc => List.mem_takeWhile_imp hc,
      .of_dropWhile p cs⟩
  · rintro ⟨rfl, ha, hb⟩
    exact Ends.span_append ha hb

theorem bodied_iff {cs gap body behind : List Char} :
    Bodied cs gap body behind ↔ ∃ inner, cs.span isGap = (gap, '\x7b' :: inner) ∧
      closing? 0 .plain inner = some (body, behind) := by
  constructor
  · rintro ⟨rfl, hblank, hbody⟩
    exact ⟨_, Ends.span_append hblank (Ends.cons_iff.2 rfl), closing?_eq_some_iff.2 ⟨rfl, hbody⟩⟩
  · rintro ⟨inner, hspan, hclosing⟩
    obtain ⟨rfl, hblank, -⟩ := span_eq_iff.1 hspan
    obtain ⟨rfl, hbody⟩ := closing?_eq_some_iff.1 hclosing
    exact ⟨rfl, hblank, hbody⟩

theorem paramName?_eq_some_iff {cs name : List Char} {count : Nat} :
    paramName? cs = some (name, count) ↔
      ∃ gap rest, Named cs gap name rest ∧ count = gap.length + name.length := by
  constructor
  · intro h
    obtain ⟨gap, rest, hspan⟩ : ∃ gap rest, cs.span isGap = (gap, rest) := ⟨_, _, rfl⟩
    obtain ⟨rfl, hblank, -⟩ := span_eq_iff.1 hspan
    rw [paramName?, hspan] at h
    cases gap with
    | nil => cases h
    | cons g gs =>
        cases rest with
        | nil => cases h
        | cons c rest =>
            simp only [ite_eq_iff, Option.some.injEq, Prod.mk.injEq, reduceCtorEq, and_false,
              or_false] at h
            obtain ⟨hc, rfl, rfl⟩ := h
            obtain ⟨name, behind, hname⟩ :
                ∃ name behind, (c :: rest).span isWordChar = (name, behind) := ⟨_, _, rfl⟩
            obtain ⟨hchars, hword, hends⟩ := span_eq_iff.1 hname
            have htake : (c :: rest).takeWhile isWordChar = name := by
              rw [hchars, Ends.takeWhile_append hword hends]
            have hidentifier : isIdentifier ((c :: rest).takeWhile isWordChar) = true := by
              rw [List.takeWhile_cons_of_pos (isWordChar_of_isNameStart hc)]
              simp only [isIdentifier, hc, Bool.true_and, List.all_eq_true]
              exact fun d hd => List.mem_takeWhile_imp hd
            rw [htake] at hidentifier ⊢
            exact ⟨g :: gs, behind,
              ⟨by rw [hchars], hblank, List.cons_ne_nil g gs, hidentifier, hends⟩, rfl⟩
  · rintro ⟨gap, rest, ⟨rfl, hblank, hne, hidentifier, hends⟩, rfl⟩
    exact paramName?_eq_some hblank hne hidentifier hends

/-- The parser's view of an occurrence is what the grammar says about it. -/
theorem exists_consumes (cs : List Char) :
    ∃ parts, Consumes cs parts (occurrence cs).length ∧
      (occurrence cs).finding? = parts.map fun b => finding b.1 b.2 := by
  have hbare (h : ∀ gap body behind, ¬ Bodied cs gap body behind) :
      ∃ parts, Consumes cs parts bareToken.length ∧
        bareToken.finding? = parts.map fun b => finding b.1 b.2 := ⟨none, .bare h, rfl⟩
  fun_cases occurrence cs with
  | case1 hword =>
      refine hbare fun gap body behind h => ?_
      -- Neither a blank nor a brace is part of an identifier.
      cases gap with
      | nil =>
          rw [h.chars] at hword
          cases hword
      | cons g gs =>
          rw [h.chars] at hword
          have hg := isGap_eq_false_of_isWordChar (c := g) hword
          rw [h.blank g (List.mem_cons_self ..)] at hg
          cases hg
  | case2 hword gap inner hclosing hspan =>
      refine hbare fun gap' body behind h => ?_
      obtain ⟨inner', hspan', hclosing'⟩ := bodied_iff.1 h
      rw [hspan, Prod.mk.injEq, List.cons.injEq] at hspan'
      rw [← hspan'.2.2, hclosing] at hclosing'
      cases hclosing'
  | case3 hword gap inner body behind hclosing length hnone hspan =>
      have hbody : Bodied cs gap body behind := bodied_iff.2 ⟨inner, hspan, hclosing⟩
      refine ⟨none, .unnamed hbody fun gap' name rest hname => ?_, rfl⟩
      rw [paramName?_eq_some_iff.2 ⟨gap', rest, hname, rfl⟩] at hnone
      cases hnone
  | case4 hword gap inner body behind hclosing length name count hname hspan =>
      have hbody : Bodied cs gap body behind := bodied_iff.2 ⟨inner, hspan, hclosing⟩
      obtain ⟨gap', rest, hnamed, rfl⟩ := paramName?_eq_some_iff.1 hname
      exact ⟨some (body, name), .directive hbody hnamed, rfl⟩
  | case5 hword gap rest hspan hbrace =>
      refine hbare fun gap' body behind h => ?_
      obtain ⟨inner, hspan', -⟩ := bodied_iff.1 h
      rw [hspan, Prod.mk.injEq] at hspan'
      exact hbrace inner hspan'.2

theorem Bodied.unique {cs gap gap' body body' behind behind' : List Char}
    (h : Bodied cs gap body behind) (h' : Bodied cs gap' body' behind') :
    gap = gap' ∧ body = body' ∧ behind = behind' := by
  obtain ⟨inner, hspan, hclosing⟩ := bodied_iff.1 h
  obtain ⟨inner', hspan', hclosing'⟩ := bodied_iff.1 h'
  rw [hspan] at hspan'
  cases hspan'
  rw [hclosing] at hclosing'
  cases hclosing'
  exact ⟨rfl, rfl, rfl⟩

/-- An occurrence says and consumes one thing only. -/
theorem Consumes.unique {cs : List Char} {parts parts' : Option (List Char × List Char)}
    {n n' : Nat} (h : Consumes cs parts n) (h' : Consumes cs parts' n') :
    parts = parts' ∧ n = n' := by
  cases h with
  | directive hbody hname =>
      cases h' with
      | directive hbody' hname' =>
          obtain ⟨rfl, rfl, rfl⟩ := hbody.unique hbody'
          have hparam := paramName?_eq_some_iff.2 ⟨_, _, hname, rfl⟩
          rw [paramName?_eq_some_iff.2 ⟨_, _, hname', rfl⟩] at hparam
          simp only [Option.some.injEq, Prod.mk.injEq] at hparam
          rw [← hparam.2, hparam.1]
          exact ⟨rfl, rfl⟩
      | unnamed hbody' hname' =>
          obtain ⟨rfl, rfl, rfl⟩ := hbody.unique hbody'
          exact absurd hname (hname' _ _ _)
      | bare hnone => exact absurd hbody (hnone _ _ _)
  | unnamed hbody hname =>
      cases h' with
      | directive hbody' hname' =>
          obtain ⟨rfl, rfl, rfl⟩ := hbody.unique hbody'
          exact absurd hname' (hname _ _ _)
      | unnamed hbody' hname' =>
          obtain ⟨rfl, rfl, rfl⟩ := hbody.unique hbody'
          exact ⟨rfl, rfl⟩
      | bare hnone => exact absurd hbody (hnone _ _ _)
  | bare hnone =>
      cases h' with
      | directive hbody' hname' => exact absurd hbody' (hnone _ _ _)
      | unnamed hbody' hname' => exact absurd hbody' (hnone _ _ _)
      | bare => exact ⟨rfl, rfl⟩

/-! ## The occurrences that are reached -/

/-- The token stands at position `p`, and no occurrence in front that is reached itself consumes
it. -/
def Reached (cs : List Char) (p : Nat) : Prop :=
  token <+: cs.drop p ∧ ∀ q, q < p → Reached cs q →
    ∀ parts n, Consumes (cs.drop (q + token.length)) parts n → q + n ≤ p
termination_by p

/-- No occurrence in front of position `p` that is reached goes on behind it. -/
def Free (cs : List Char) (p : Nat) : Prop :=
  ∀ q, q < p → Reached cs q →
    ∀ parts n, Consumes (cs.drop (q + token.length)) parts n → q + n ≤ p

theorem reached_iff {cs : List Char} {p : Nat} :
    Reached cs p ↔ token <+: cs.drop p ∧ Free cs p := by
  rw [Reached, Free]

theorem Consumes.length_token_le {cs : List Char} {parts : Option (List Char × List Char)} {n : Nat}
    (h : Consumes cs parts n) : token.length ≤ n := by
  cases h <;> omega

namespace Free

variable {cs : List Char} {p n : Nat} {parts : Option (List Char × List Char)}

theorem zero (cs : List Char) : Free cs 0 := fun q hq => absurd hq (Nat.not_lt_zero q)

/-- A position without a token is passed over. -/
theorem succ (h : Free cs p) (htoken : ¬ token <+: cs.drop p) : Free cs (p + 1) := by
  intro q hq hreached parts n hn
  rcases Nat.lt_succ_iff_lt_or_eq.1 hq with hlt | rfl
  · exact (h q hlt hreached parts n hn).trans (Nat.le_succ p)
  · exact absurd (reached_iff.1 hreached).1 htoken

/-- Nothing is reached inside of what a reached occurrence consumes. -/
theorem not_reached (h : Free cs p) (htoken : token <+: cs.drop p)
    (hn : Consumes (cs.drop (p + token.length)) parts n) {q : Nat} (hlt : p < q) (hq : q < p + n) :
    ¬ Reached cs q := by
  intro hreached
  have hle := (reached_iff.1 hreached).2 p hlt (reached_iff.2 ⟨htoken, h⟩) parts n hn
  omega

/-- An occurrence is passed over as far as it goes. -/
theorem add (h : Free cs p) (htoken : token <+: cs.drop p)
    (hn : Consumes (cs.drop (p + token.length)) parts n) : Free cs (p + n) := by
  intro q hq hreached parts' n' hn'
  rcases Nat.lt_trichotomy q p with hlt | rfl | hgt
  · exact (h q hlt hreached parts' n' hn').trans (Nat.le_add_right p n)
  · rw [(hn'.unique hn).2]
  · exact absurd hreached (h.not_reached htoken hn hgt hq)

end Free

/-! ## Directives -/

/-- A directive as it is spelled: where its token stands, the name of the parameter, the text in
front of the first equals sign of the body, and the text behind that sign if there is one. -/
structure Directive where
  start : Nat
  param : List Char
  path : List Char
  literal : Option (List Char)

/-- Whether a finding has a provider path. -/
def Finding.hasProvider : Finding → Bool
  | .dependency .. => true
  | .noProvider _ => false

namespace Directive

/-- What stands between the braces. -/
def body (d : Directive) : List Char :=
  match d.literal with
  | none => d.path
  | some l => d.path ++ '=' :: l

/-- The directive stands in the text: its token is reached, its parts follow, and the text in front
of the first equals sign is not blank. -/
structure Stands (d : Directive) (cs : List Char) : Prop where
  reached : Reached cs d.start
  consumes : ∃ n, Consumes (cs.drop (d.start + token.length)) (some (d.body, d.param)) n
  no_equals : '=' ∉ d.path
  not_blank : d.path.all isBlank = false

/-- What is found where a directive stands. -/
def finding (d : Directive) : Finding :=
  .dependency (String.ofList d.param) (String.ofList (trim d.path))
    (d.literal.map fun l => String.ofList (trim l))

variable {d e : Directive}

theorem span_body (h : '=' ∉ d.path) :
    d.body.span (· ≠ '=') = (d.path, (d.literal.map ('=' :: ·)).getD []) := by
  have hpath : ∀ c ∈ d.path, decide (c ≠ '=') = true := fun c hc =>
    decide_eq_true fun heq => h (heq ▸ hc)
  rw [body]
  cases d.literal with
  | none => exact span_eq_iff.2 ⟨(List.append_nil _).symm, hpath, Ends.nil⟩
  | some l => exact Ends.span_append hpath (Ends.cons_iff.2 rfl)

/-- The first equals sign divides a body in one way. -/
theorem eq_of_body (hd : '=' ∉ d.path) (he : '=' ∉ e.path) (hstart : d.start = e.start)
    (hparam : d.param = e.param) (hbody : d.body = e.body) : d = e := by
  have hspan := (span_body hd).symm.trans (hbody ▸ span_body he)
  obtain ⟨start, param, path, literal⟩ := d
  obtain ⟨start', param', path', literal'⟩ := e
  simp only [Prod.mk.injEq] at hspan
  obtain ⟨rfl, hliteral⟩ := hspan
  cases hstart
  cases hparam
  cases literal <;> cases literal' <;> simp_all

theorem exists_of_body (start : Nat) (body param : List Char) :
    ∃ d : Directive, d.start = start ∧ d.param = param ∧ d.body = body ∧ '=' ∉ d.path := by
  obtain ⟨path, rest, hspan⟩ : ∃ path rest, body.span (· ≠ '=') = (path, rest) := ⟨_, _, rfl⟩
  obtain ⟨rfl, hpath, hrest⟩ := span_eq_iff.1 hspan
  have hequals : '=' ∉ path := fun hmem => by simpa using hpath '=' hmem
  cases rest with
  | nil => exact ⟨⟨start, param, path, none⟩, rfl, rfl, (List.append_nil path).symm, hequals⟩
  | cons c l =>
      have hc : c = '=' := by simpa using hrest
      exact ⟨⟨start, param, path, some l⟩, rfl, rfl, by rw [hc]; rfl, hequals⟩

theorem finding_body (h : '=' ∉ d.path) : Dependency.finding d.body d.param =
    if d.path.all isBlank then .noProvider (String.ofList d.param) else d.finding := by
  have hempty : (trim d.path).isEmpty = d.path.all isBlank := by
    cases hblank : d.path.all isBlank with
    | false => exact List.isEmpty_eq_false_iff.2 (trim_ne_nil hblank)
    | true =>
        have htrim := trim_append_blank [] (List.all_eq_true.1 hblank)
        rw [List.nil_append] at htrim
        rw [htrim]
        rfl
  rw [Dependency.finding, span_body h, finding]
  simp only [hempty]
  cases d.literal <;> rfl

/-- The directives from an occurrence on are those at it and those behind what it consumes. -/
theorem stands_from_iff {cs : List Char} {p n : Nat} {parts : Option (List Char × List Char)}
    (hfree : Free cs p) (htoken : token <+: cs.drop p)
    (hn : Consumes (cs.drop (p + token.length)) parts n) :
    p ≤ d.start ∧ d.Stands cs ↔
      (d.start = p ∧ parts = some (d.body, d.param) ∧ '=' ∉ d.path ∧ d.path.all isBlank = false) ∨
        (p + n ≤ d.start ∧ d.Stands cs) := by
  constructor
  · rintro ⟨hle, h⟩
    rcases Nat.eq_or_lt_of_le hle with rfl | hlt
    · obtain ⟨m, hm⟩ := h.consumes
      exact .inl ⟨rfl, (hn.unique hm).1, h.no_equals, h.not_blank⟩
    · refine .inr ⟨Nat.le_of_not_lt fun hinside => ?_, h⟩
      exact hfree.not_reached htoken hn hlt hinside h.reached
  · rintro (⟨rfl, rfl, hequals, hblank⟩ | ⟨hle, h⟩)
    · exact ⟨le_rfl, reached_iff.2 ⟨htoken, hfree⟩, ⟨n, hn⟩, hequals, hblank⟩
    · exact ⟨(Nat.le_add_right p n).trans hle, h⟩

end Directive

theorem findings_of_not_token {cs : List Char} {p : Nat} (hp : p < cs.length)
    (h : ¬ token <+: cs.drop p) : findings (cs.drop p) = findings (cs.drop (p + 1)) := by
  rw [List.drop_eq_getElem_cons hp] at h ⊢
  refine findings_cons_of_none ?_
  rw [afterToken?, if_neg]
  exact fun hprefix => h (List.isPrefixOf_iff_prefix.1 hprefix)

/-- The directives that stand at position `p` and behind it, and what the search finds from there
on. -/
structure Found (cs : List Char) (p : Nat) (ds : List Directive) : Prop where
  sorted : ds.Pairwise fun d e => d.start < e.start
  mem_iff : ∀ d, d ∈ ds ↔ p ≤ d.start ∧ d.Stands cs
  findings : (findings (cs.drop p)).filter Finding.hasProvider = ds.map Directive.finding

namespace Found

variable {cs : List Char} {p n : Nat} {ds : List Directive}

theorem nil (h : cs.length ≤ p) : Found cs p [] where
  sorted := .nil
  mem_iff d := by
    refine ⟨fun hd => absurd hd List.not_mem_nil, fun ⟨hle, hd⟩ => ?_⟩
    have hprefix := (reached_iff.1 hd.reached).1
    rw [List.drop_eq_nil_of_le (h.trans hle)] at hprefix
    exact absurd (List.prefix_nil.1 hprefix) (by decide)
  findings := by
    rw [List.drop_eq_nil_of_le h]
    rfl

/-- Where no token stands, the search goes on one character further. -/
theorem pass (h : Found cs (p + 1) ds) (hp : p < cs.length) (htoken : ¬ token <+: cs.drop p) :
    Found cs p ds where
  sorted := h.sorted
  mem_iff d := by
    rw [h.mem_iff]
    refine and_congr_left fun hd => ?_
    have hne : d.start ≠ p := fun heq => htoken (heq ▸ (reached_iff.1 hd.reached).1)
    omega
  findings := by rw [findings_of_not_token hp htoken, h.findings]

/-- What is found from an occurrence on is what is found at it, and behind what it consumes. -/
theorem findings_drop {parts : Option (List Char × List Char)} (htoken : token <+: cs.drop p)
    (hn : Consumes (cs.drop (p + token.length)) parts n) :
    Dependency.findings (cs.drop p) = (parts.map fun b => finding b.1 b.2).toList ++
      Dependency.findings (cs.drop (p + n)) := by
  obtain ⟨parts', hn', hfinding⟩ := exists_consumes (cs.drop (p + token.length))
  obtain ⟨rfl, rfl⟩ := hn.unique hn'
  have hdrop : cs.drop p = token ++ cs.drop (p + token.length) := by
    rw [← List.drop_drop]
    exact (List.prefix_iff_eq_append.1 htoken).symm
  rw [hdrop, findings_token, hfinding, ← hdrop, List.drop_drop]

/-- Where the token stands, the search goes on behind what the occurrence consumes. -/
theorem occurrence {parts : Option (List Char × List Char)} (h : Found cs (p + n) ds)
    (hfree : Free cs p) (htoken : token <+: cs.drop p)
    (hn : Consumes (cs.drop (p + token.length)) parts n) : ∃ ds', Found cs p ds' := by
  have hfrom := fun d : Directive => d.stands_from_iff hfree htoken hn
  have hstep := congrArg (List.filter Finding.hasProvider) (findings_drop htoken hn)
  rw [List.filter_append, h.findings] at hstep
  cases parts with
  | none =>
      refine ⟨ds, h.sorted, fun d => ?_, hstep⟩
      rw [hfrom, h.mem_iff]
      simp
  | some parts =>
      obtain ⟨d, hstart, hparam, hbody, hequals⟩ := Directive.exists_of_body p parts.1 parts.2
      have hhere : ∀ e : Directive, e.start = p → some parts = some (e.body, e.param) →
          '=' ∉ e.path → e = d := by
        intro e hes heparts heq
        cases heparts
        exact Directive.eq_of_body heq hequals (hes.trans hstart.symm) hparam.symm hbody.symm
      rw [Option.map_some, ← hbody, ← hparam, Directive.finding_body hequals] at hstep
      cases hblank : d.path.all isBlank with
      | true =>
          rw [hblank] at hstep
          refine ⟨ds, h.sorted, fun e => ?_, hstep⟩
          rw [hfrom, h.mem_iff]
          refine ⟨.inr, ?_⟩
          rintro (⟨hes, heparts, heq, heb⟩ | hbehind)
          · rw [hhere e hes heparts heq, hblank] at heb
            cases heb
          · exact hbehind
      | false =>
          rw [hblank] at hstep
          refine ⟨d :: ds, List.pairwise_cons.2 ⟨fun e he => ?_, h.sorted⟩, fun e => ?_, hstep⟩
          · have hle := ((h.mem_iff e).1 he).1
            have hpos := hn.length_token_le.trans_lt' (show 0 < token.length by decide)
            omega
          · rw [hfrom, List.mem_cons, h.mem_iff]
            refine or_congr_left ⟨?_, fun hd => hhere e hd.1 hd.2.1 hd.2.2.1⟩
            rintro rfl
            exact ⟨hstart, by rw [hbody, hparam], hequals, hblank⟩

end Found

/-- The invariant of the search: from a position where nothing is being consumed it finds the
directives that stand there and behind, in order. -/
theorem exists_found {cs : List Char} {p : Nat} (hfree : Free cs p) : ∃ ds, Found cs p ds := by
  induction hlength : cs.length - p using Nat.strong_induction_on generalizing p with
  | h k ih =>
  subst hlength
  by_cases hend : cs.length ≤ p
  · exact ⟨[], .nil hend⟩
  by_cases htoken : token <+: cs.drop p
  · obtain ⟨parts, hn, -⟩ := exists_consumes (cs.drop (p + token.length))
    have hpos := hn.length_token_le.trans_lt' (show 0 < token.length by decide)
    obtain ⟨ds, hds⟩ := ih _ (by omega) (hfree.add htoken hn) rfl
    exact hds.occurrence hfree htoken hn
  · obtain ⟨ds, hds⟩ := ih _ (by omega) (hfree.succ htoken) rfl
    exact ⟨ds, hds.pass (Nat.lt_of_not_le hend) htoken⟩

/-- The search finds the directives that stand in a text, in order. -/
theorem exists_directives (cs : List Char) :
    ∃ ds : List Directive, ds.Pairwise (fun d e => d.start < e.start) ∧
      (∀ d, d ∈ ds ↔ d.Stands cs) ∧
      (findings cs).filter Finding.hasProvider = ds.map Directive.finding := by
  obtain ⟨ds, hsorted, hmem, hfindings⟩ := exists_found (Free.zero cs)
  exact ⟨ds, hsorted, fun d => (hmem d).trans (and_iff_right (Nat.zero_le _)), hfindings⟩

/-! ## What the directives say -/

/-- The text `l`, without the blanks around it, is a JSON text with the value `v`, and nested no
deeper than the reader goes. -/
def Decodes (depth : Nat) (l : List Char) (v : Json) : Prop :=
  ∃ t : Document, t.chars = trim l ∧ t.value = v ∧ t.nesting ≤ depth

namespace Directive

/-- The dependency that a directive stands for. -/
structure Means (depth : Nat) (d : Directive) (r : Dependency) : Prop where
  param : r.param = String.ofList d.param
  provider : r.provider = String.ofList (trim d.path)
  default : Option.Rel (Decodes depth) d.literal r.default

/-- The failures of a directive that stands for nothing.  The text behind its equals sign is no JSON
text, or it opens more values than the reader goes into and is given up. -/
inductive Fails (depth : Nat) (d : Directive) : Failure → Prop
  | malformed {l : List Char} {f : Json.Fault} (hliteral : d.literal = some l)
      (hformat : ∀ t : Document, t.chars ≠ trim l)
      (hread : Json.read .refuse depth (trim l) = .error f)
      (hdepth : ∀ n, f ≠ .depth n) :
      Fails depth d (.ofTransform (.malformedDefault (String.ofList d.param)
        (String.ofList (trim l))
        (f.message (trim l))))
  | tooDeep {l : List Char} {n : Json.Nesting} (hliteral : d.literal = some l)
      (hopening : depth < (trim l).countP isOpening)
      (hread : Json.read .refuse depth (trim l) = .error (.depth n)) : Fails depth d (.tooDeep n)

/-- The text behind the equals sign, if there is one, is a JSON text. -/
def WellFormed (d : Directive) : Prop := ∀ l ∈ d.literal, ∃ t : Document, t.chars = trim l

variable {depth : Nat} {d : Directive}

theorem WellFormed.of_means {r : Dependency} (h : d.Means depth r) : d.WellFormed := by
  intro l hl
  have hrel := h.default
  rw [Option.mem_def.1 hl] at hrel
  generalize r.default = v at hrel
  cases hrel with
  | some hdecodes =>
      obtain ⟨t, ht, -⟩ := hdecodes
      exact ⟨t, ht⟩

theorem read_finding_eq_ok_iff {x : Option Dependency} :
    (d.finding.read depth).result = .ok x ↔ ∃ r, x = some r ∧ d.Means depth r := by
  obtain ⟨start, param, path, literal⟩ := d
  cases literal with
  | none =>
      constructor
      · intro h
        cases h
        exact ⟨_, rfl, rfl, rfl, .none⟩
      · rintro ⟨⟨rparam, provider, default⟩, rfl, rfl, rfl, hdefault⟩
        cases hdefault
        rfl
  | some l =>
      simp only [finding, Option.map_some, Finding.read, String.toList_ofList]
      constructor
      · intro h
        split at h
        · next v hread =>
            cases h
            exact ⟨_, rfl, rfl, rfl, .some ((read_eq_ok_iff _ _ _).1 hread)⟩
        · cases h
        · cases h
      · rintro ⟨⟨rparam, provider, default⟩, rfl, rfl, rfl, hdefault⟩
        cases hdefault with
        | some hdecodes =>
            rw [(read_eq_ok_iff _ _ _).2 hdecodes]
            rfl

theorem read_finding_eq_error_iff {e : Failure} :
    (d.finding.read depth).result = .error e ↔ d.Fails depth e := by
  constructor
  · obtain ⟨start, param, path, literal⟩ := d
    cases literal with
    | none => rintro ⟨⟩
    | some l =>
        simp only [finding, Option.map_some, Finding.read, String.toList_ofList]
        intro h
        split at h
        · cases h
        · next n hread =>
            cases h
            exact .tooDeep rfl (depth_lt_of_read hread) hread
        · next f hdepth hread =>
            cases h
            refine .malformed rfl (fun t ht => ?_) hread fun n hn => ?_
            · -- The text of a document is read, or given up for its depth.
              rcases Nat.lt_or_ge depth t.nesting with hdeep | hfits
              · obtain ⟨n, hn⟩ := t.read_chars_of_deep .refuse hdeep
                rw [ht, hread] at hn
                cases hn
                exact hdepth n rfl
              · rw [← ht, t.read_chars .refuse hfits] at hread
                cases hread
            · exact hdepth n hn
  · rintro (⟨hliteral, -, hread, hdepth⟩ | ⟨hliteral, -, hread⟩)
    · rw [finding, hliteral]
      simp only [Option.map_some, Finding.read, String.toList_ofList, hread]
      rfl
    · rw [finding, hliteral]
      simp only [Option.map_some, Finding.read, String.toList_ofList, hread]
      rfl

end Directive

variable {depth : Nat}

/-- Findings without a provider path leave an entry in the log, and nothing else. -/
theorem result_readAll_filter (fs : List Finding) :
    (readAll depth (fs.filter Finding.hasProvider)).result = (readAll depth fs).result := by
  induction fs with
  | nil => rfl
  | cons f fs ih =>
      cases f with
      | dependency param provider literal =>
          rw [List.filter_cons_of_pos rfl, readAll, readAll, Logged.result_bind,
            Logged.result_bind]
          simp only [Logged.result_bind, ih]
      | noProvider param =>
          rw [List.filter_cons_of_neg (by simp [Finding.hasProvider]), ih, readAll,
            Logged.result_bind]
          cases h : (readAll depth fs).result with
          | error e => simp [Finding.read, h, Except.bind, Except.map]
          | ok ds => simp [Finding.read, h, Except.bind, Except.map]

theorem readAll_eq_ok_iff (ds : List Directive) (rs : List Dependency) :
    (readAll depth (ds.map Directive.finding)).result = .ok rs ↔
      List.Forall₂ (Directive.Means depth) ds rs := by
  induction ds generalizing rs with
  | nil =>
      rw [List.forall₂_nil_left_iff]
      constructor
      · rintro ⟨⟩
        rfl
      · rintro rfl
        rfl
  | cons d ds ih =>
      rw [List.map_cons, readAll, Logged.result_bind_eq_ok_iff, List.forall₂_cons_left_iff]
      constructor
      · rintro ⟨x, hx, hrest⟩
        obtain ⟨r, rfl, hr⟩ := Directive.read_finding_eq_ok_iff.1 hx
        obtain ⟨rs', hrs', hpure⟩ := (Logged.result_bind_eq_ok_iff _ _ _).1 hrest
        cases hpure
        exact ⟨r, rs', hr, (ih rs').1 hrs', rfl⟩
      · rintro ⟨r, rs', hr, hrs', rfl⟩
        refine ⟨some r, Directive.read_finding_eq_ok_iff.2 ⟨r, rfl, hr⟩, ?_⟩
        exact (Logged.result_bind_eq_ok_iff _ _ _).2 ⟨rs', (ih rs').2 hrs', rfl⟩

theorem exists_first_cons_iff {α : Type} {P Q : α → Prop} {a : α} {as : List α} :
    (∃ front x back, a :: as = front ++ x :: back ∧ (∀ y ∈ front, P y) ∧ Q x) ↔
      Q a ∨ P a ∧ ∃ front x back, as = front ++ x :: back ∧ (∀ y ∈ front, P y) ∧ Q x := by
  constructor
  · rintro ⟨front, x, back, heq, hfront, hx⟩
    cases front with
    | nil =>
        cases heq
        exact .inl hx
    | cons y front =>
        cases heq
        exact .inr ⟨hfront _ (List.mem_cons_self ..), front, x, back, rfl,
          fun z hz => hfront z (List.mem_cons_of_mem _ hz), hx⟩
  · rintro (ha | ⟨ha, front, x, back, rfl, hfront, hx⟩)
    · exact ⟨[], a, as, rfl, fun y hy => absurd hy List.not_mem_nil, ha⟩
    · exact ⟨a :: front, x, back, rfl, List.forall_mem_cons.2 ⟨ha, hfront⟩, hx⟩

/-- The first directive that stands for nothing ends the reading. -/
theorem readAll_eq_error_iff (ds : List Directive) (e : Failure) :
    (readAll depth (ds.map Directive.finding)).result = .error e ↔
      ∃ front d back, ds = front ++ d :: back ∧ (∀ d' ∈ front, ∃ r, d'.Means depth r) ∧
        d.Fails depth e := by
  induction ds with
  | nil => simp [readAll]
  | cons d ds ih =>
      have hok : ∀ x, (d.finding.read depth).result = .ok x ↔ ∃ r, x = some r ∧ d.Means depth r :=
        fun _ => Directive.read_finding_eq_ok_iff
      have herror : ∀ e, (d.finding.read depth).result = .error e ↔ d.Fails depth e :=
        fun _ => Directive.read_finding_eq_error_iff
      rw [List.map_cons, readAll, Logged.result_bind, exists_first_cons_iff, ← ih, ← herror]
      cases hread : (d.finding.read depth).result with
      | error e' =>
          have hnone : ¬ ∃ r, d.Means depth r := by
            rintro ⟨r, hr⟩
            have hr := (hok (some r)).2 ⟨r, rfl, hr⟩
            rw [hread] at hr
            cases hr
          simp [Except.bind, hnone]
      | ok x =>
          obtain ⟨r, -, hr⟩ := (hok x).1 hread
          have hsome : ∃ r, d.Means depth r := ⟨r, hr⟩
          simp only [Except.bind, reduceCtorEq, hsome, true_and, false_or, Logged.result_bind]
          cases (readAll depth (ds.map Directive.finding)).result <;> simp

theorem exists_means_of_mem {ds : List Directive} {rs : List Dependency}
    (h : List.Forall₂ (Directive.Means depth) ds rs) {r : Dependency} (hr : r ∈ rs) :
    ∃ d ∈ ds, d.Means depth r := by
  induction h with
  | nil => cases hr
  | @cons d r' ds rs hd h ih =>
      rcases List.mem_cons.1 hr with rfl | hr
      · exact ⟨d, List.mem_cons_self .., hd⟩
      · obtain ⟨e, he, hmeans⟩ := ih hr
        exact ⟨e, List.mem_cons_of_mem d he, hmeans⟩

/-- The text `cs` is read exactly as what the directives `ds` stand for, and fails exactly as the
first of them that stands for nothing. -/
structure ReadAs (depth : Nat) (cs : List Char) (ds : List Directive) : Prop where
  ok_iff : ∀ rs, (parse depth cs).result = .ok rs ↔ List.Forall₂ (Directive.Means depth) ds rs
  error_iff : ∀ e, (parse depth cs).result = .error e ↔
    ∃ front d back, ds = front ++ d :: back ∧ (∀ d' ∈ front, ∃ r, d'.Means depth r) ∧
      d.Fails depth e

theorem ReadAs.of_findings {cs : List Char} {ds : List Directive}
    (h : (findings cs).filter Finding.hasProvider = ds.map Directive.finding) :
    ReadAs depth cs ds := by
  have hresult : (parse depth cs).result = (readAll depth (ds.map Directive.finding)).result := by
    rw [← h, result_readAll_filter]
    rfl
  exact ⟨fun rs => hresult ▸ readAll_eq_ok_iff ds rs, fun e => hresult ▸ readAll_eq_error_iff ds e⟩

/-- What is read is what a directive stands for. -/
theorem exists_directive_of_parse {cs : List Char} {rs : List Dependency}
    (h : (parse depth cs).result = .ok rs) {r : Dependency} (hr : r ∈ rs) :
    ∃ d : Directive, d.Stands cs ∧ d.Means depth r := by
  obtain ⟨ds, -, hmem, hfindings⟩ := exists_directives cs
  have hmeans := ((ReadAs.of_findings hfindings).ok_iff rs).1 h
  obtain ⟨d, hd, hr⟩ := exists_means_of_mem hmeans hr
  exact ⟨d, (hmem d).1 hd, hr⟩

/-- **The parser accepts exactly its grammar.**  There is one list of the directives that stand in a
text, in the order of their positions, and the text is read as what they stand for.  As long as no
text behind an equals sign opens more values than the reader goes into, there is a complaint about a
default exactly when such a text is no JSON text. -/
theorem parse_eq_grammar (depth : Nat) (cs : List Char) :
    ∃ ds : List Directive, ds.Pairwise (fun d e => d.start < e.start) ∧
      (∀ d, d ∈ ds ↔ d.Stands cs) ∧ ReadAs depth cs ds ∧
      ((∀ d ∈ ds, ∀ l ∈ d.literal, (trim l).countP isOpening ≤ depth) →
        ((∃ param literal reason, (parse depth cs).result =
          .error (.ofTransform (.malformedDefault param literal reason))) ↔
            ∃ d ∈ ds, ¬ d.WellFormed)) := by
  obtain ⟨ds, hsorted, hmem, hfindings⟩ := exists_directives cs
  have hread : ReadAs depth cs ds := .of_findings hfindings
  refine ⟨ds, hsorted, hmem, hread, ?_⟩
  intro hshallow
  constructor
  · rintro ⟨param, literal, reason, h⟩
    obtain ⟨front, d, back, rfl, -, hfails⟩ := (hread.error_iff _).1 h
    refine ⟨d, by simp, fun hformed => ?_⟩
    cases hfails with
    | malformed hliteral hformat =>
        obtain ⟨t, ht⟩ := hformed _ hliteral
        exact hformat t ht
  · rintro ⟨d, hd, hformed⟩
    cases hparse : (parse depth cs).result with
    | ok rs =>
        have hall : List.Forall₂ (fun d r => d.WellFormed ∧ d.Means depth r) ds rs :=
          ((hread.ok_iff rs).1 hparse).imp fun d r hr => ⟨.of_means hr, hr⟩
        exact absurd (((List.forall₂_and_left _ _).1 hall).1 d hd) hformed
    | error e =>
        obtain ⟨front, d', back, rfl, -, hfails⟩ := (hread.error_iff e).1 hparse
        cases hfails with
        | malformed => exact ⟨_, _, _, rfl⟩
        | tooDeep hliteral hopening =>
            exact absurd (hshallow d' (by simp) _ hliteral) (Nat.not_le.2 hopening)

/-- The directive of a line with brackets nested in each other. -/
def nestedDirective (n : Nat) : Directive :=
  ⟨0, ['p'], ['x', ' '], some (' ' :: (nestedArrays n).chars)⟩

theorem stands_nestedDirective (n : Nat) : (nestedDirective n).Stands (written [nestedLine n]) := by
  have hbalanced : Balanced (nestedDirective n).body := by
    refine Balanced.of_bare ?_
    simp [Directive.body, nestedDirective, chars_nestedArrays, isBare]
  have htext : written [nestedLine n] =
      token ++ ([' '] ++ '\x7b' :: ((nestedDirective n).body ++ '\x7d' :: [' ', 'p'])) := by
    have hlead : "@dependency \x7bx = ".toList = token ++ [' ', '\x7b', 'x', ' ', '=', ' '] := rfl
    have hend : "\x7d p".toList = ['\x7d', ' ', 'p'] := rfl
    rw [written_nestedLine, hlead, hend]
    simp [Directive.body, nestedDirective, chars_nestedArrays]
  have hbody : Bodied ((written [nestedLine n]).drop (0 + token.length)) [' ']
      (nestedDirective n).body [' ', 'p'] := by
    refine ⟨?_, List.forall_mem_singleton.2 rfl, hbalanced⟩
    rw [htext, Nat.zero_add, List.drop_left]
  have hname : Named [' ', 'p'] [' '] ['p'] [] :=
    ⟨rfl, List.forall_mem_singleton.2 rfl, List.cons_ne_nil _ _, rfl, Ends.nil⟩
  have hreached : Reached (written [nestedLine n]) 0 := by
    refine reached_iff.2 ⟨?_, .zero _⟩
    rw [htext]
    exact List.prefix_append ..
  exact ⟨hreached, ⟨_, .directive hbody hname⟩, by simp [nestedDirective], rfl⟩

/-- Fifteen hundred brackets nested in each other are a JSON text, and the only default in theirs,
but where there is room for fewer, reading them is given up with another complaint than that about a
default. -/
theorem parse_of_brackets_nested_too_deeply :
    ∃ d : Directive, d.Stands ("@dependency \x7bx = ".toList ++ (List.replicate 1500 '[' ++
        (List.replicate 1500 ']' ++ "\x7d p".toList))) ∧ d.WellFormed ∧
      ∀ depth < 1500, ∃ n, (parse depth ("@dependency \x7bx = ".toList ++
        (List.replicate 1500 '[' ++
        (List.replicate 1500 ']' ++ "\x7d p".toList)))).result = .error (.tooDeep n) := by
  have htext := written_nestedLine 1499
  refine ⟨nestedDirective 1499, htext ▸ stands_nestedDirective 1499, fun l hl => ?_,
    fun depth hdepth => ?_⟩
  · cases hl
    refine ⟨(nestedArrays 1499).document, ?_⟩
    rw [← (nestedArrays 1499).chars_document, trim_document]
    exact (nestedArrays 1499).chars_document
  · have hdeep : depth < (nestedLine 1499).nesting := by
      have hnesting : (nestedLine 1499).nesting = 1500 := nesting_nestedArrays 1499
      rw [hnesting]
      exact hdepth
    obtain ⟨n, hn⟩ := parse_written_of_deep ⟨nestedLine 1499, .head _, hdeep⟩
    refine ⟨n, ?_⟩
    rw [← htext, hn]

end Dependency

end Injection
