import Injection.Directive.Dependency
import Injection.Proofs.JsonReading
import Mathlib.Data.List.TakeWhile

/-!
# Dependency directives line by line

A directive that is written on a line of its own is read as it was written.

* `Dependency.Crosses`: what a scan for the closing brace does on its way over a text.  A JSON value
  leaves it where it was (`crosses_value`), whatever braces, quotes and tokens its strings hold.
* `Dependency.Line` is a line with a directive and the text in front of it, `Line.dependency` what
  it says and `written` the text of many lines.
* `findings_line`: such a line is one finding, and the search goes on right behind it.
* **`parse_written_eq_ok_iff`**: the lines are read as what they say exactly when no default is
  nested deeper than the reader of JSON texts goes.
-/

namespace Injection

/-! ## Trimming -/

/-- Trimming takes the blanks around a text that starts and ends with none. -/
theorem trim_eq_of_blank {a cs b : List Char} (ha : ∀ c ∈ a, isBlank c = true)
    (hb : ∀ c ∈ b, isBlank c = true) (hfirst : Ends isBlank cs)
    (hlast : Ends isBlank cs.reverse) (hne : cs ≠ []) : trim (a ++ (cs ++ b)) = cs := by
  have hstart : Ends isBlank (cs ++ b) := by
    obtain ⟨c, rest, rfl⟩ := List.exists_cons_of_ne_nil hne
    exact Ends.cons_iff.2 (Ends.cons_iff.1 hfirst)
  have hreverse : ∀ c ∈ b.reverse, isBlank c = true := fun c hc =>
    hb c (List.mem_reverse.1 hc)
  rw [trim, Ends.dropWhile_append ha hstart, List.reverse_append,
    Ends.dropWhile_append hreverse hlast, List.reverse_reverse]

/-- Blanks behind a text are trimmed with it. -/
theorem trim_append_blank (cs : List Char) {after : List Char}
    (hafter : ∀ c ∈ after, isBlank c = true) : trim (cs ++ after) = trim cs := by
  have hreverse : ∀ c ∈ after.reverse, isBlank c = true := fun c hc =>
    hafter c (List.mem_reverse.1 hc)
  rw [trim, trim, List.dropWhile_append]
  split
  · -- All of the text is blank, and nothing is left of it with or without what is behind.
    rename_i hempty
    rw [List.isEmpty_iff.1 hempty, List.dropWhile_eq_nil_iff.2 hafter]
  · rw [List.reverse_append, List.dropWhile_append_of_pos hreverse]

theorem trim_ne_nil {cs : List Char} (h : cs.all isBlank = false) : trim cs ≠ [] := by
  intro hnil
  rw [trim, List.reverse_eq_nil_iff, List.dropWhile_eq_nil_iff] at hnil
  cases hdrop : cs.dropWhile isBlank with
  | nil =>
      rw [List.all_eq_true.2 (List.dropWhile_eq_nil_iff.1 hdrop)] at h
      cases h
  | cons d ds =>
      -- What is left after the blanks starts with a character that is none.
      have hd := List.head_dropWhile_not isBlank (l := cs) (by simp [hdrop])
      have hall := hnil d (by simp [hdrop])
      simp [hdrop, hall] at hd

namespace Dependency

open Json.Syntax

/-! ## The way to the closing brace -/

/-- A scan outside of strings passes over `cs` and is outside of strings again; `k` more braces were
open before than in the surroundings, and `l` more are open behind. -/
def Crosses (k l : Nat) (cs : List Char) : Prop :=
  ∀ (depth : Nat) (rest : List Char), closing? (depth + k) .plain (cs ++ rest) =
    (closing? (depth + l) .plain rest).map fun r => (cs ++ r.1, r.2)

/-- Whether `c` is neither a brace nor a quote. -/
def isBare (c : Char) : Bool := c ≠ '\x7b' && c ≠ '\x7d' && c ≠ '"'

namespace Crosses

variable {k l m : Nat} {a b cs : List Char}

theorem nil : Crosses k k [] := by
  intro depth rest
  simp

theorem append (ha : Crosses k l a) (hb : Crosses l m b) : Crosses k m (a ++ b) := by
  intro depth rest
  rw [List.append_assoc, ha, hb, Option.map_map]
  simp [Function.comp_def]

/-- More braces that are open all the way change nothing. -/
theorem add (h : Crosses k l cs) (m : Nat) : Crosses (k + m) (l + m) cs := by
  intro depth rest
  have hshift := h (depth + m) rest
  rwa [Nat.add_right_comm, Nat.add_assoc, Nat.add_right_comm depth m l,
    Nat.add_assoc depth l m] at hshift

theorem opening : Crosses 0 1 ['\x7b'] := by
  intro depth rest
  rfl

theorem closing : Crosses 1 0 ['\x7d'] := by
  intro depth rest
  rfl

theorem of_bare (h : cs.all isBare = true) : Crosses 0 0 cs := by
  induction cs with
  | nil => exact nil
  | cons c cs ih =>
      simp only [List.all_cons, isBare, Bool.and_eq_true, decide_eq_true_eq] at h
      refine append (a := [c]) (fun depth rest => ?_) (ih h.2)
      simp [closing?, Place.step, h.1]

theorem space (s : Space) : Crosses 0 0 s.1 := by
  refine of_bare (List.all_eq_true.2 fun c hc => ?_)
  rcases eq_of_isSpace (s.2 c hc) with rfl | rfl | rfl | rfl <;> rfl

theorem digits (ds : List (Fin 10)) : Crosses 0 0 (digitChars ds) := by
  have hbare : ∀ d : Fin 10, isBare (Nat.digitChar d) = true := by decide
  refine of_bare (List.all_eq_true.2 fun c hc => ?_)
  obtain ⟨d, -, rfl⟩ := List.mem_map.1 hc
  exact hbare d

theorem exponent (e : Exponent) : Crosses 0 0 e.chars := by
  rw [Exponent.chars]
  refine append (a := [_]) (of_bare ?_) (append (of_bare ?_) (digits e.digits))
  · cases e.upper <;> rfl
  · rcases e.sign with _ | _ | _ <;> rfl

theorem number (n : Number) : Crosses 0 0 n.chars := by
  rw [Number.chars]
  refine append (of_bare ?_) (append (digits n.whole) (append (l := 0) ?_ ?_))
  · cases n.negative <;> rfl
  · rw [fractionChars]
    split
    · exact nil
    · exact append (a := ['.']) (of_bare rfl) (digits n.fraction)
  · cases n.exponent with
    | none => exact nil
    | some e => exact exponent e

end Crosses

theorem hexDigit_char_ne (d : HexDigit) : d.char ≠ '\\' ∧ d.char ≠ '"' := by
  obtain ⟨value, upper⟩ := d
  revert value upper
  decide

/-- The pieces of a string leave the scan inside of it. -/
theorem closing?_pieces (depth : Nat) (ps : List Piece) (rest : List Char) :
    closing? depth .quoted (ps.flatMap Piece.chars ++ rest) =
      (closing? depth .quoted rest).map fun r => (ps.flatMap Piece.chars ++ r.1, r.2) := by
  induction ps with
  | nil => simp
  | cons p ps ih =>
      rw [List.flatMap_cons, List.append_assoc]
      cases p with
      | plain c hc =>
          simp only [isPlain, ne_eq, decide_not, Bool.and_eq_true, Bool.not_eq_true',
            decide_eq_false_iff_not] at hc
          simp [Piece.chars, closing?, Place.step, hc.1, ih, Function.comp_def]
      | short s => simp [Piece.chars, closing?, Place.step, ih, Function.comp_def]
      | unit a b c d =>
          simp [Piece.chars, closing?, Place.step, hexDigit_char_ne, ih, Function.comp_def]

theorem Crosses.string (ps : List Piece) : Crosses 0 0 (stringChars ps) := by
  intro depth rest
  have hchars : stringChars ps ++ rest = '"' :: (ps.flatMap Piece.chars ++ '"' :: rest) := by
    simp [stringChars]
  rw [hchars, Nat.add_zero]
  simp [closing?, Place.step, closing?_pieces, stringChars, Function.comp_def]

theorem crosses_key (k : Key) : Crosses 0 0 k.chars :=
  .append (.string k.pieces)
    (.append (.space k.after) (.append (a := [':']) (.of_bare rfl) (.space k.before)))

mutual

/-- A value leaves a scan for the closing brace where it was. -/
theorem crosses_value : (v : Value) → Crosses 0 0 v.chars
  | .null => .of_bare rfl
  | .bool true => .of_bare rfl
  | .bool false => .of_bare rfl
  | .number n => .number n
  | .string ps => .string ps
  | .emptyArray inside =>
      .append (a := ['[']) (.of_bare rfl) (.append (.space inside) (.of_bare rfl))
  | .array before items =>
      .append (a := ['[']) (.of_bare rfl) (.append (.space before) (crosses_items items))
  | .emptyObject inside =>
      .append (a := ['\x7b']) .opening (.append ((Crosses.space inside).add 1) .closing)
  | .object before fields =>
      .append (a := ['\x7b']) .opening
        (.append ((Crosses.space before).add 1) (crosses_fields fields))

theorem crosses_items : (items : Items) → Crosses 0 0 items.chars
  | .last v after => .append (crosses_value v) (.append (.space after) (.of_bare rfl))
  | .next v after before items =>
      .append (crosses_value v) (.append (.space after) (.append (a := [',']) (.of_bare rfl)
        (.append (.space before) (crosses_items items))))

/-- The fields of an object close the brace in front of them. -/
theorem crosses_fields : (fields : Fields) → Crosses 1 0 fields.chars
  | .last k v after =>
      .append ((crosses_key k).add 1) (.append ((crosses_value v).add 1)
        (.append ((Crosses.space after).add 1) .closing))
  | .next k v after before fields =>
      .append ((crosses_key k).add 1) (.append ((crosses_value v).add 1)
        (.append ((Crosses.space after).add 1) (.append (a := [','])
          ((Crosses.of_bare rfl).add 1)
          (.append ((Crosses.space before).add 1) (crosses_fields fields)))))

end

theorem crosses_document (t : Document) : Crosses 0 0 t.chars :=
  .append (.space t.before) (.append (crosses_value t.root) (.space t.after))

/-! ## Lines -/

/-- Whether `cs` is an ASCII identifier. -/
def isIdentifier : List Char → Bool
  | [] => false
  | c :: cs => isNameStart c && cs.all isWordChar

/-- A line with a directive: the text in front of it, the provider path as it is written, the text
of the default if there is one, and the name of the parameter. -/
structure Line where
  lead : List Char
  path : List Char
  literal : Option Document
  param : List Char
  not_infix_lead : ¬ token <:+: lead
  not_blank_path : path.all isBlank = false
  bare_path : path.all isBare = true
  no_equals_path : path.all (· ≠ '=') = true
  isIdentifier_param : isIdentifier param = true

namespace Line

/-- What stands between the braces. -/
def body (l : Line) : List Char :=
  match l.literal with
  | none => l.path
  | some t => l.path ++ (" = ".toList ++ t.chars)

def chars (l : Line) : List Char :=
  l.lead ++ (token ++ (" \x7b".toList ++ (l.body ++ ("\x7d ".toList ++ l.param))))

/-- What a line says. -/
def dependency (l : Line) : Dependency :=
  ⟨String.ofList l.param, String.ofList (trim l.path), l.literal.map Document.value⟩

/-- How deep the default is nested. -/
def nesting (l : Line) : Nat := (l.literal.map Document.nesting).getD 0

/-- What is found on a line: the default is the text of its value. -/
def finding (l : Line) : Finding :=
  .dependency (String.ofList l.param) (String.ofList (trim l.path))
    (l.literal.map fun t => String.ofList t.root.chars)

end Line

/-- A text of lines. -/
def written (lines : List Line) : List Char := ['\n'].intercalate (lines.map Line.chars)

/-! ## Finding the directive of a line -/

/-- Consumed characters are passed over. -/
theorem findingsFrom_eq_drop (skip : Nat) (cs : List Char) :
    findingsFrom skip cs = findings (cs.drop skip) := by
  induction cs generalizing skip with
  | nil => cases skip <;> simp [findingsFrom, findings]
  | cons c cs ih =>
      cases skip with
      | zero => rfl
      | succ skip => rw [findingsFrom, ih, List.drop_succ_cons]

theorem findings_cons_of_none {c : Char} {cs : List Char} (h : afterToken? token (c :: cs) = none) :
    findings (c :: cs) = findings cs := by
  rw [findings, findingsFrom]
  simp only [h]
  rfl

theorem length_occurrence_pos (cs : List Char) : 0 < (occurrence cs).length := by
  have htoken : 0 < token.length := by decide
  fun_cases occurrence cs with
  | case1 => exact htoken
  | case2 => exact htoken
  | case3 => dsimp only; omega
  | case4 => dsimp only; omega
  | case5 => exact htoken

theorem findings_token (cs : List Char) :
    findings (token ++ cs) = (occurrence cs).finding?.toList ++
      findings ((token ++ cs).drop (occurrence cs).length) := by
  have htoken : token ++ cs = '@' :: (token.tail ++ cs) := rfl
  have hafter : afterToken? token (token ++ cs) = some cs := by
    rw [afterToken?, if_pos (by simp), List.drop_left]
  obtain ⟨k, hk⟩ : ∃ k, (occurrence cs).length = k + 1 :=
    Nat.exists_eq_add_one.2 (length_occurrence_pos cs)
  rw [htoken] at hafter ⊢
  rw [findings, findingsFrom]
  simp only [hafter]
  rw [findingsFrom_eq_drop, hk, Nat.add_sub_cancel, List.drop_succ_cons]

/-- The token has its first character at its start alone, so that none begins in a text in front of
one and ends behind it. -/
theorem not_token_prefix_of_lead {c : Char} {lead : List Char} (h : ¬ token <:+: c :: lead)
    (cs : List Char) : ¬ token <+: c :: (lead ++ (token ++ cs)) := by
  intro htoken
  have hlead : c :: lead <+: (c :: lead) ++ (token ++ cs) := List.prefix_append ..
  rcases List.prefix_or_prefix_of_prefix htoken hlead with hin | ⟨s, hs⟩
  · exact h hin.isInfix
  · -- A token that goes on behind the text would hold the first character of the next one.
    rw [← List.cons_append, ← hs, List.prefix_append_right_inj] at htoken
    cases s with
    | nil =>
        rw [List.append_nil] at hs
        exact h ⟨[], [], by simp [hs]⟩
    | cons d s =>
        have hhead : c :: (lead ++ d :: s) = '@' :: token.tail := hs
        have hd : d = '@' := (List.cons_prefix_cons.1 htoken).1.trans (List.cons.inj hhead).1
        have htail : '@' ∈ token.tail := by
          rw [← (List.cons.inj hhead).2, hd]
          simp
        exact absurd htail (by decide)

theorem findings_lead {lead : List Char} (h : ¬ token <:+: lead) (cs : List Char) :
    findings (lead ++ (token ++ cs)) = findings (token ++ cs) := by
  induction lead with
  | nil => rfl
  | cons c lead ih =>
      have hlead : ¬ token <:+: lead := fun hin => h (hin.trans (List.suffix_cons c lead).isInfix)
      have hnone : afterToken? token (c :: (lead ++ (token ++ cs))) = none := by
        rw [afterToken?, if_neg]
        simpa using not_token_prefix_of_lead h cs
      rw [List.cons_append, findings_cons_of_none hnone, ih hlead]

theorem isWordChar_of_isNameStart {c : Char} (h : isNameStart c = true) : isWordChar c = true := by
  simp only [isNameStart, isWordChar, Char.isAlphanum, Bool.or_eq_true] at h ⊢
  tauto

theorem isGap_eq_false_of_isWordChar {c : Char} (h : isWordChar c = true) : isGap c = false := by
  refine Bool.eq_false_of_not_eq_true fun hgap => ?_
  simp only [isGap, Bool.or_eq_true, decide_eq_true_eq] at hgap
  rcases hgap with rfl | rfl <;> exact absurd h (by decide)

theorem isBlank_eq_false_of_isDigit {c : Char} (h : c.isDigit = true) : isBlank c = false := by
  have hrange : 48 ≤ c.toNat ∧ c.toNat ≤ 57 := by
    simp only [Char.isDigit, Bool.and_eq_true, decide_eq_true_eq] at h
    exact ⟨UInt32.le_iff_toNat_le.1 h.1, UInt32.le_iff_toNat_le.1 h.2⟩
  simp only [isBlank, Bool.or_eq_false_iff, Bool.and_eq_false_iff, decide_eq_false_iff_not]
  omega

theorem isBlank_eq_false_of_isFirst {c : Char} (h : isFirst c = true) : isBlank c = false := by
  simp only [isFirst, Bool.or_eq_true, decide_eq_true_eq] at h
  rcases h with ((((((h | h) | h) | h) | h) | h) | h) | h
  · exact isBlank_eq_false_of_isDigit h
  all_goals
    subst h
    rfl

theorem isBlank_eq_false_of_isLast {c : Char} (h : isLast c = true) : isBlank c = false := by
  simp only [isLast, Bool.or_eq_true, decide_eq_true_eq] at h
  rcases h with ((((h | h) | h) | h) | h) | h
  · exact isBlank_eq_false_of_isDigit h
  all_goals
    subst h
    rfl

theorem isBlank_of_mem_space (s : Space) : ∀ c ∈ s.1, isBlank c = true := by
  intro c hc
  rcases eq_of_isSpace (s.2 c hc) with rfl | rfl | rfl | rfl <;> rfl

/-- White space of the format is trimmed, and a value neither starts nor ends with a blank. -/
theorem trim_document (t : Document) : trim (' ' :: t.chars) = t.root.chars := by
  obtain ⟨c, cs, hchars, hc⟩ := t.root.exists_cons
  obtain ⟨d, hlast, hd⟩ := t.root.exists_getLast?
  refine trim_eq_of_blank (a := ' ' :: t.before.1) ?_ (isBlank_of_mem_space t.after) ?_ ?_ ?_
  · intro b hb
    rcases List.mem_cons.1 hb with rfl | hb
    · rfl
    · exact isBlank_of_mem_space t.before b hb
  · rw [hchars, Ends.cons_iff]
    exact isBlank_eq_false_of_isFirst hc
  · intro b hb
    rw [List.head?_reverse, hlast] at hb
    cases hb
    exact isBlank_eq_false_of_isLast hd
  · rw [hchars]
    exact List.cons_ne_nil c cs

/-- The parameter name behind a gap. -/
theorem paramName?_eq_some {gap param rest : List Char} (hgap : ∀ c ∈ gap, isGap c = true)
    (hne : gap ≠ []) (hparam : isIdentifier param = true) (hrest : Ends isWordChar rest) :
    paramName? (gap ++ (param ++ rest)) = some (param, gap.length + param.length) := by
  obtain ⟨g, gs, rfl⟩ := List.exists_cons_of_ne_nil hne
  cases param with
  | nil => cases hparam
  | cons c cs =>
      simp only [isIdentifier, Bool.and_eq_true, List.all_eq_true] at hparam
      have hc := isWordChar_of_isNameStart hparam.1
      have hspan : (g :: gs ++ (c :: cs ++ rest)).span isGap = (g :: gs, c :: cs ++ rest) :=
        Ends.span_append hgap (Ends.cons_iff.2 (isGap_eq_false_of_isWordChar hc))
      have hname : (c :: cs ++ rest).takeWhile isWordChar = c :: cs := by
        refine Ends.takeWhile_append (fun d hd => ?_) hrest
        rcases List.mem_cons.1 hd with rfl | hd
        · exact hc
        · exact hparam.2 d hd
      rw [paramName?, hspan]
      simp only [List.cons_append, hparam.1, if_true] at hname ⊢
      rw [hname]

namespace Line

variable (l : Line)

theorem crosses_body : Crosses 0 0 l.body := by
  have hpath : Crosses 0 0 l.path := .of_bare l.bare_path
  rw [body]
  split
  · exact hpath
  · exact hpath.append (.append (.of_bare rfl) (crosses_document _))

theorem finding_body : Dependency.finding l.body l.param = l.finding := by
  have hne : (trim l.path).isEmpty = false := by
    rw [List.isEmpty_eq_false_iff]
    exact trim_ne_nil l.not_blank_path
  have hpath : ∀ c ∈ l.path, decide (c ≠ '=') = true := List.all_eq_true.1 l.no_equals_path
  rw [Dependency.finding, body, finding]
  cases l.literal with
  | none =>
      have hspan := Ends.span_append hpath Ends.nil
      rw [List.append_nil] at hspan
      simp only [hspan, hne]
      rfl
  | some t =>
      -- The path has no equals sign, so the first one is that in front of the default.
      have hspan : (l.path ++ (" = ".toList ++ t.chars)).span (· ≠ '=') =
          (l.path ++ [' '], '=' :: ' ' :: t.chars) := by
        have hblank : ∀ c ∈ l.path ++ [' '], decide (c ≠ '=') = true := by
          intro c hc
          rcases List.mem_append.1 hc with hc | hc
          · exact hpath c hc
          · rw [List.mem_singleton.1 hc]
            rfl
        have hequals : Ends (· ≠ '=') ('=' :: ' ' :: t.chars) := Ends.cons_iff.2 rfl
        rw [← Ends.span_append hblank hequals, List.append_assoc]
        rfl
      simp only [hspan]
      rw [trim_append_blank l.path (List.forall_mem_singleton.2 rfl), hne, trim_document]
      rfl

theorem occurrence_chars {rest : List Char} (h : Ends isWordChar rest) :
    occurrence (" \x7b".toList ++ (l.body ++ ("\x7d ".toList ++ (l.param ++ rest)))) =
      ⟨some l.finding, token.length + (l.body.length + l.param.length + 4)⟩ := by
  have hspan : (" \x7b".toList ++ (l.body ++ ("\x7d ".toList ++ (l.param ++ rest)))).span isGap =
      ([' '], '\x7b' :: (l.body ++ ("\x7d ".toList ++ (l.param ++ rest)))) :=
    Ends.span_append (a := [' ']) (List.forall_mem_singleton.2 rfl) (Ends.cons_iff.2 rfl)
  -- The body leaves the scan where it was, so the brace behind it is the closing one.
  have hclosing : closing? 0 .plain (l.body ++ ("\x7d ".toList ++ (l.param ++ rest))) =
      some (l.body, ' ' :: (l.param ++ rest)) := by
    rw [l.crosses_body 0]
    simp [closing?]
  rw [occurrence, if_neg (by simp [startsWithWord, isWordChar]), hspan]
  have hname : paramName? (' ' :: (l.param ++ rest)) = some (l.param, 1 + l.param.length) :=
    paramName?_eq_some (List.forall_mem_singleton.2 rfl) (List.cons_ne_nil ' ' [])
      l.isIdentifier_param h
  simp only [hclosing, hname, l.finding_body, Occurrence.mk.injEq, true_and,
    List.length_singleton]
  omega

end Line

/-- A line is one finding, and the search goes on right behind it. -/
theorem findings_line (l : Line) {rest : List Char} (h : Ends isWordChar rest) :
    findings (l.chars ++ rest) = l.finding :: findings rest := by
  have hchars : l.chars ++ rest = l.lead ++ (token ++
      (" \x7b".toList ++ (l.body ++ ("\x7d ".toList ++ (l.param ++ rest))))) := by
    simp only [Line.chars, List.append_assoc]
  rw [hchars, findings_lead l.not_infix_lead, findings_token, l.occurrence_chars h]
  have hconsumed : token ++ (" \x7b".toList ++ (l.body ++ ("\x7d ".toList ++ (l.param ++ rest)))) =
      (token ++ (" \x7b".toList ++ (l.body ++ ("\x7d ".toList ++ l.param)))) ++ rest := by
    simp only [List.append_assoc]
  rw [hconsumed, List.drop_left']
  · rfl
  · simp
    omega

theorem written_cons_cons (l l' : Line) (lines : List Line) :
    written (l :: l' :: lines) = l.chars ++ '\n' :: written (l' :: lines) := by
  simp [written, List.intercalate_cons_cons]

theorem findings_written (lines : List Line) :
    findings (written lines) = lines.map Line.finding := by
  induction lines with
  | nil => rfl
  | cons l lines ih =>
      cases lines with
      | nil =>
          have hline := findings_line l (Ends.nil (p := isWordChar))
          simpa [written, findings, findingsFrom] using hline
      | cons l' lines =>
          have hnewline : findings ('\n' :: written (l' :: lines)) =
              findings (written (l' :: lines)) := findings_cons_of_none rfl
          rw [written_cons_cons, findings_line l (Ends.cons_iff.2 rfl), hnewline, ih]
          rfl

/-! ## Reading the defaults -/

namespace Line

variable {depth : Nat} {l : Line}

theorem read_finding (h : l.nesting ≤ depth) :
    l.finding.read depth = pure (some l.dependency) := by
  rw [finding, dependency]
  rw [nesting] at h
  cases hliteral : l.literal with
  | none => rfl
  | some t =>
      rw [hliteral] at h
      have hread := t.root.read_chars .refuse h
      simp only [Option.map_some, Finding.read, String.toList_ofList, hread]
      rfl

theorem read_finding_of_deep (h : depth < l.nesting) :
    ∃ n, l.finding.read depth = Logged.fail (.tooDeep n) := by
  rw [nesting] at h
  rw [finding]
  cases hliteral : l.literal with
  | none =>
      rw [hliteral] at h
      exact absurd h (Nat.not_lt_zero _)
  | some t =>
      rw [hliteral] at h
      obtain ⟨n, hn⟩ := t.root.read_chars_of_deep .refuse h
      refine ⟨n, ?_⟩
      simp only [Option.map_some, Finding.read, String.toList_ofList, hn]

end Line

variable {depth : Nat}

theorem readAll_findings {lines : List Line} (h : ∀ l ∈ lines, l.nesting ≤ depth) :
    readAll depth (lines.map Line.finding) = ⟨[], .ok (lines.map Line.dependency)⟩ := by
  induction lines with
  | nil => rfl
  | cons l lines ih =>
      have hl := Line.read_finding (h l (List.mem_cons_self ..))
      have hrest := ih fun l' hl' => h l' (List.mem_cons_of_mem l hl')
      rw [List.map_cons, readAll, hl, hrest]
      rfl

/-- The first default that is nested too deeply ends the reading. -/
theorem readAll_findings_of_deep {lines : List Line}
    (h : ∃ l ∈ lines, depth < l.nesting) :
    ∃ n, readAll depth (lines.map Line.finding) = ⟨[], .error (.tooDeep n)⟩ := by
  induction lines with
  | nil =>
      obtain ⟨l, hl, -⟩ := h
      cases hl
  | cons l lines ih =>
      by_cases hfits : l.nesting ≤ depth
      · obtain ⟨l', hl', hdeep⟩ := h
        rcases List.mem_cons.1 hl' with rfl | hmem
        · exact absurd hfits (Nat.not_le.2 hdeep)
        · obtain ⟨n, hn⟩ := ih ⟨l', hmem, hdeep⟩
          refine ⟨n, ?_⟩
          rw [List.map_cons, readAll, Line.read_finding hfits, hn]
          rfl
      · obtain ⟨n, hn⟩ := Line.read_finding_of_deep (Nat.lt_of_not_le hfits)
        refine ⟨n, ?_⟩
        rw [List.map_cons, readAll, hn]
        rfl

theorem parse_written {lines : List Line} (h : ∀ l ∈ lines, l.nesting ≤ depth) :
    parse depth (written lines) = ⟨[], .ok (lines.map Line.dependency)⟩ := by
  rw [parse, findings_written, readAll_findings h]

theorem parse_written_of_deep {lines : List Line} (h : ∃ l ∈ lines, depth < l.nesting) :
    ∃ n, parse depth (written lines) = ⟨[], .error (.tooDeep n)⟩ := by
  rw [parse, findings_written]
  exact readAll_findings_of_deep h

/-- **Lines are read as what they say**, in order and without an entry in the log, exactly when no
default is nested deeper than the reader of JSON texts goes, whatever depth that is; else reading
them fails for the depth of a default. -/
theorem parse_written_eq_ok_iff (depth : Nat) (lines : List Line) :
    (parse depth (written lines) = ⟨[], .ok (lines.map Line.dependency)⟩ ↔
        ∀ l ∈ lines, l.nesting ≤ depth) ∧
      ((∃ l ∈ lines, depth < l.nesting) →
        ∃ n, parse depth (written lines) = ⟨[], .error (.tooDeep n)⟩) := by
  refine ⟨⟨fun hok => ?_, parse_written⟩, parse_written_of_deep⟩
  by_contra hdeep
  push Not at hdeep
  obtain ⟨n, hn⟩ := parse_written_of_deep hdeep
  rw [hn] at hok
  cases hok

/-- The text `{"a": ["}\"@dependency {x} y", null], "\u0062":-99}`. -/
def sampleLiteral : Value :=
  .object noSpace
    (.next ⟨[.plain 'a' rfl], noSpace, oneSpace⟩
      (.array noSpace
        (.next (.string (.plain '\x7d' rfl :: .short .quote ::
            "@dependency \x7bx\x7d y".toList.pmap Piece.plain (List.all_eq_true.1 rfl)))
          noSpace oneSpace
          (.last .null noSpace)))
      noSpace oneSpace
      (.last ⟨[.unit ⟨0, false⟩ ⟨0, false⟩ ⟨6, false⟩ ⟨2, true⟩], noSpace, noSpace⟩
        (.number ⟨true, [.last 9, .last 9], [], none, by decide, by decide,
          fun _ _ => Nat.le_of_ble_eq_true rfl⟩)
        noSpace))

def sampleLines : List Line :=
  [⟨" * ".toList, "services/http".toList, some ⟨noSpace, sampleLiteral, oneSpace⟩, "client".toList,
      fun h => absurd h.length_le (by decide), rfl, rfl, rfl, rfl⟩,
    ⟨"@depend, x".toList, " y\t".toList, none, "$y".toList,
      fun h => absurd h.length_le (by decide), rfl, rfl, rfl, rfl⟩,
    ⟨[], "z".toList, some ⟨noSpace, .null, noSpace⟩, "z_1".toList,
      fun h => absurd h.length_le (by decide), rfl, rfl, rfl, rfl⟩]

theorem parse_written_of_samples :
    written sampleLines =
        " * @dependency \x7bservices/http = \x7b\"a\": [\"\x7d\\\"@dependency ".toList ++
          ("\x7bx\x7d y\", null], \"\\u0062\":-99\x7d \x7d client\n@depend, x".toList ++
            "@dependency \x7b y\t\x7d $y\n@dependency \x7bz = null\x7d z_1".toList) ∧
      parse 2 (written sampleLines) = ⟨[], .ok
        [⟨"client", "services/http", some (.obj
            [(Text.ofString "a", .arr [Json.ofString "\x7d\"@dependency \x7bx\x7d y", .null]),
              (Text.ofString "b", .int (-99))])⟩,
          ⟨"$y", "y", none⟩, ⟨"z_1", "z", some .null⟩]⟩ :=
  ⟨by rfl, (parse_written_eq_ok_iff 2 sampleLines).1.2 (by decide)⟩

/-! ## A default that is nested too deeply -/

/-- The line of a directive with such a default. -/
def nestedLine (n : Nat) : Line :=
  ⟨[], ['x'], some (nestedArrays n).document, ['p'],
    fun h => absurd h.length_le (by decide), rfl, rfl, rfl, rfl⟩

theorem written_nestedLine (n : Nat) :
    written [nestedLine n] = "@dependency \x7bx = ".toList ++ (List.replicate (n + 1) '[' ++
      (List.replicate (n + 1) ']' ++ "\x7d p".toList)) := by
  have hchars := (nestedArrays n).chars_document
  rw [chars_nestedArrays] at hchars
  rw [written, List.map_singleton, List.intercalate_singleton]
  simp only [nestedLine, Line.chars, Line.body, hchars, List.append_assoc]
  rfl

/-- A default of brackets nested in each other is a JSON text, but fifteen hundred of them are not
read where there is room for fewer. -/
theorem parse_of_nested_brackets :
    ∃ l : Line, written [l] = "@dependency \x7bx = ".toList ++ (List.replicate 1500 '[' ++
        (List.replicate 1500 ']' ++ "\x7d p".toList)) ∧
      ∀ depth < 1500, ∃ n, parse depth (written [l]) = ⟨[], .error (.tooDeep n)⟩ := by
  refine ⟨nestedLine 1499, written_nestedLine 1499, fun depth hdepth => ?_⟩
  have hnesting : (nestedLine 1499).nesting = 1500 := nesting_nestedArrays 1499
  exact parse_written_of_deep ⟨_, .head _, hdepth.trans_eq hnesting.symm⟩

end Dependency

end Injection
