import Injection.Proofs.JsonWriting
import Injection.Proofs.Records

/-!
# The statements of a record

The statements of a record hold its parameters as a JSON text, and each of them has a line of its
own.

* `Text.lines` are the lines of a text.  Texts without line breaks that are put behind line breaks
  are the lines of the whole (`Text.lines_flatMap`).
* `Record.emitted?` is the text of the parameters in statements; `emitted?_texts` says what it is in
  those of the record.
* **`Record.read_emitted_and_lines_render`**: when a record has statements, what is read from them,
  and how they stand on lines.
-/

namespace Injection

/-! ## Lines -/

namespace Text

@[simp] theorem ofString_append (s t : String) : ofString (s ++ t) = ofString s ++ ofString t := by
  rw [ofString, String.toList_append, ofChars_append]
  rfl

/-- What ends a line. -/
def breaks : List String := ["\n", "\r\n", "\r"]

/-- Whether a code point belongs to a line break. -/
def isBreak (p : CodePoint) : Bool := p = .char '\n' || p = .char '\r'

/-- The lines of a text.  A carriage return in front of a line feed ends no line of its own. -/
def lines : Text → List Text
  | [] => [[]]
  | p :: t =>
    if p = .char '\r' ∧ t.head? = some (.char '\n') then lines t
    else if isBreak p then [] :: lines t
    else (lines t).modifyHead (p :: ·)

/-- There is no line break in a text. -/
def Unbroken (t : Text) : Prop := ∀ p ∈ t, isBreak p = false

theorem Clear.unbroken {t : Text} (h : t.Clear) : t.Unbroken := by
  intro p hp
  refine Bool.eq_false_of_not_eq_true fun hbreak => ?_
  rw [isBreak, Bool.or_eq_true, decide_eq_true_eq, decide_eq_true_eq] at hbreak
  rcases hbreak with rfl | rfl <;> exact absurd (h _ hp) (by decide)

theorem lines_unbroken_append {l : Text} (h : l.Unbroken) (t : Text) :
    lines (l ++ t) = (lines t).modifyHead (l ++ ·) := by
  induction l with
  | nil => cases hlines : lines t <;> simp [hlines]
  | cons p l ih =>
      obtain ⟨hp, hl⟩ := List.forall_mem_cons.1 h
      have hreturn : p ≠ .char '\r' := by
        rintro rfl
        cases hp
      rw [List.cons_append, lines, if_neg (fun hpair => hreturn hpair.1), hp, if_neg (by decide),
        ih hl, List.modifyHead_modifyHead]
      rfl

theorem lines_break_append {newline : String} (hnewline : newline ∈ breaks) {t : Text}
    (ht : t.head? ≠ some (.char '\n')) : lines (ofString newline ++ t) = [] :: lines t := by
  have hfeed : lines (.char '\n' :: t) = [] :: lines t := by simp [lines, isBreak]
  have hreturn : lines (.char '\r' :: t) = [] :: lines t := by simp [lines, isBreak, ht]
  have hboth : lines (.char '\r' :: .char '\n' :: t) = [] :: lines t := by
    rw [lines, if_pos ⟨rfl, rfl⟩, hfeed]
  simp only [breaks, List.mem_cons, List.not_mem_nil, or_false] at hnewline
  rcases hnewline with rfl | rfl | rfl
  · exact hfeed
  · exact hboth
  · exact hreturn

/-- Texts without line breaks that are put behind line breaks are the lines of the whole. -/
theorem lines_flatMap {newline : String} (hnewline : newline ∈ breaks) {l : Text} {ls : List Text}
    (hl : l.Unbroken) (hls : ∀ k ∈ ls, k.Unbroken ∧ k ≠ []) :
    lines (l ++ ls.flatMap (ofString newline ++ ·)) = l :: ls := by
  induction ls generalizing l with
  | nil =>
      rw [lines_unbroken_append hl]
      simp [lines]
  | cons k ks ih =>
      obtain ⟨⟨hk, hne⟩, hks⟩ := List.forall_mem_cons.1 hls
      -- A carriage return must not meet a line feed of the next line.
      have hhead : (k ++ ks.flatMap (ofString newline ++ ·)).head? ≠ some (.char '\n') := by
        obtain ⟨p, k', rfl⟩ := List.exists_cons_of_ne_nil hne
        rintro ⟨⟩
        exact absurd (hk _ (List.mem_cons_self ..)) (by decide)
      rw [lines_unbroken_append hl, List.flatMap_cons, List.append_assoc,
        lines_break_append hnewline hhead, ih hk hks]
      simp

end Text

/-! ## Records -/

namespace Record

/-- The text of the parameters in a statement: what stands behind the name of the property and in
front of the semicolon. -/
def paramsText? (r : Record) (statement : Text) : Option Text :=
  (statement.dropPrefix? (Text.ofString (r.target ++ ".injectParams = "))).bind
    (·.dropSuffix? (Text.ofString ";"))

/-- The text of the parameters in statements of a record. -/
def emitted? (r : Record) (statements : List Text) : Option Text :=
  statements.findSome? r.paramsText?

theorem dropPrefix?_append_append (a l p : Text) :
    (a ++ l).dropPrefix? (a ++ p) = l.dropPrefix? p := by
  induction a with
  | nil => rfl
  | cons x a ih => rw [List.cons_append, List.cons_append, List.dropPrefix?, if_pos (by simp), ih]

theorem paramsText?_assignment (r : Record) (property : String) (value : Text) :
    r.paramsText? (r.assignment property value) =
      ((Text.ofString ("." ++ property ++ " = ") ++ value ++ Text.ofString ";").dropPrefix?
        (Text.ofString ".injectParams = ")).bind (·.dropSuffix? (Text.ofString ";")) := by
  have hassignment : r.assignment property value = Text.ofString r.target ++
      (Text.ofString ("." ++ property ++ " = ") ++ value ++ Text.ofString ";") := by
    simp only [assignment, Text.ofString_append, List.append_assoc]
  rw [paramsText?, hassignment, Text.ofString_append r.target, dropPrefix?_append_append]

theorem paramsText?_params (r : Record) (value : Text) :
    r.paramsText? (r.assignment "injectParams" value) = some value := by
  rw [paramsText?_assignment, List.append_assoc, List.dropPrefix?_append_of_beq _ (by decide),
    Option.bind_some, List.dropSuffix?_eq_some_iff]
  exact ⟨_, rfl, by decide⟩

theorem emitted?_texts (r : Record) :
    r.emitted? r.texts = if r.params.truthy then some (Json.print .raw r.params) else none := by
  have hinjectable : ∀ value, r.paramsText? (r.assignment "injectable" value) = none :=
    fun value => (r.paramsText?_assignment _ value).trans rfl
  have hinjectAs : ∀ value, r.paramsText? (r.assignment "injectAs" value) = none :=
    fun value => (r.paramsText?_assignment _ value).trans rfl
  have hnewInstance : ∀ value, r.paramsText? (r.assignment "injectNewInstance" value) = none :=
    fun value => (r.paramsText?_assignment _ value).trans rfl
  unfold emitted? texts
  cases r.injectAs <;> cases r.newInstance <;> cases r.params.truthy <;>
    simp only [List.cons_append, List.nil_append, List.findSome?_cons, List.findSome?_nil,
      hinjectable, hinjectAs, hnewInstance, paramsText?_params, if_true, if_false,
      Bool.false_eq_true]

/-- The properties that statements assign to. -/
def properties : List String := ["injectable", "injectAs", "injectNewInstance", "injectParams"]

/-- A statement assigns the written form of a value to one of the properties. -/
theorem exists_assignment {r : Record} {s : Text} (h : s ∈ r.texts) :
    ∃ property ∈ properties, ∃ style v, s = r.assignment property (Json.print style v) := by
  have htrue : Text.ofString "true" = Json.print .raw (.bool true) := rfl
  unfold texts at h
  simp only [List.mem_append, List.mem_singleton, htrue] at h
  rcases h with ((rfl | h) | h) | h
  · exact ⟨"injectable", by decide, _, _, rfl⟩
  · split at h
    · exact ⟨"injectAs", by decide, _, _, List.mem_singleton.1 h⟩
    · cases h
  · split at h
    · exact ⟨"injectNewInstance", by decide, _, _, List.mem_singleton.1 h⟩
    · cases h
  · split at h
    · exact ⟨"injectParams", by decide, _, _, List.mem_singleton.1 h⟩
    · cases h

/-- The statements of a record with a clear target are clear. -/
theorem clear_of_mem_texts {r : Record} (htarget : (Text.ofString r.target).Clear) {s : Text}
    (hs : s ∈ r.texts) : s.Clear := by
  obtain ⟨property, hproperty, style, v, rfl⟩ := exists_assignment hs
  have hclear : ∀ p ∈ properties, (Text.ofString p).Clear := by decide
  simp only [assignment, Text.ofString_append, Text.clear_append]
  exact ⟨⟨⟨⟨⟨htarget, by decide⟩, hclear property hproperty⟩, by decide⟩,
    Json.clear_print style v⟩, by decide⟩

/-- The statements of a record with a clear target are the lines of their text. -/
theorem lines_joined_texts {r : Record} (htarget : (Text.ofString r.target).Clear) {indent : String}
    (hindent : (Text.ofString indent).Unbroken) {newline : String}
    (hnewline : newline ∈ Text.breaks) :
    Text.lines (joined indent newline r.texts) = [] :: r.texts.map (Text.ofString indent ++ ·) := by
  have hjoined : joined indent newline r.texts = [] ++
      (r.texts.map (Text.ofString indent ++ ·)).flatMap (Text.ofString newline ++ ·) := by
    rw [joined, List.flatMap_map, List.nil_append]
    simp only [List.append_assoc]
  rw [hjoined, Text.lines_flatMap hnewline (List.forall_mem_nil _)]
  intro k hk
  obtain ⟨s, hs, rfl⟩ := List.mem_map.1 hk
  refine ⟨List.forall_mem_append.2 ⟨hindent, (clear_of_mem_texts htarget hs).unbroken⟩, ?_⟩
  obtain ⟨property, -, style, v, rfl⟩ := exists_assignment hs
  refine List.append_ne_nil_of_right_ne_nil _ (List.append_ne_nil_of_right_ne_nil _ ?_)
  decide

/-- There are statements, namely `texts`, unless there are parameters and no room for them. -/
theorem statements_eq_ok_iff {room : Nat} {r : Record} {ss : List Text} :
    r.statements room = .ok ss ↔
      ¬ (r.params.truthy = true ∧ room < r.params.nesting) ∧ ss = r.texts := by
  simp only [statements, Bool.and_eq_true, decide_eq_true_eq]
  split
  · next hdeep => exact iff_of_false (by rintro ⟨⟩) fun h => h.1 hdeep
  · next hroom => exact ⟨fun h => ⟨hroom, (Except.ok.inj h).symm⟩, fun h => congrArg _ h.2.symm⟩

theorem statements_eq_error_iff {room : Nat} {r : Record} :
    r.statements room = .error .tooDeepToWrite ↔
      r.params.truthy = true ∧ room < r.params.nesting := by
  simp only [statements, Bool.and_eq_true, decide_eq_true_eq]
  split
  · next hdeep => exact iff_of_true rfl hdeep
  · next hroom => exact iff_of_false (by rintro ⟨⟩) hroom

end Record

/-! ## Parameters with plain defaults -/

theorem Json.plainFields_of_forall {fs : List (Text × Json)}
    (h : ∀ f ∈ fs, f.1.whole = true ∧ f.2.plain = true) : plainFields fs = true := by
  induction fs with
  | nil => rfl
  | cons f fs ih =>
      obtain ⟨⟨hk, hv⟩, hfs⟩ := List.forall_mem_cons.1 h
      rw [plainFields, hk, hv, ih hfs]
      rfl

theorem Alias.plain_toJson {a : Alias} (h : ∀ d ∈ a.default, d.plain = true) :
    a.toJson.plain = true := by
  obtain ⟨source, default?⟩ := a
  cases default? with
  | none => simp [toJson, Json.record, Json.plain, Json.plainFields, Json.ofString]
  | some d =>
      have hne : Text.ofString "from" ≠ Text.ofString "default" := by decide
      simp [toJson, Json.record, Json.plain, Json.plainFields, Json.ofString, hne, h d rfl]

theorem Aliases.plain_toJson {m : Aliases} (hnames : m.names.Nodup)
    (hdefaults : ∀ e ∈ m.entries, ∀ d ∈ e.2.default, d.plain = true) : m.toJson.plain = true := by
  have hkeys : ((m.entries.map fun e => (e.1, e.2.toJson)).map
      fun f => (Text.ofString f.1, f.2)).map (·.1) = m.names.map Text.ofString := by
    simp [names]
  rw [toJson, Json.record, Json.plain, Bool.and_eq_true, decide_eq_true_eq, hkeys]
  refine ⟨hnames.map Text.ofString_injective, Json.plainFields_of_forall ?_⟩
  intro f hf
  rw [List.map_map] at hf
  obtain ⟨e, he, rfl⟩ := List.mem_map.1 hf
  exact ⟨Text.whole_ofString e.1, Alias.plain_toJson (hdefaults e he)⟩

theorem Aliases.truthy_toJson (m : Aliases) : m.toJson.truthy = true ↔ m.entries ≠ [] := by
  simp [toJson, Json.record, Json.truthy]

namespace Record

/-- **What the statements of a record say.**  If the defaults of the parameters are plain, the
record has statements unless there are parameters that are nested deeper than there is room to
write.  In the statements the text of the parameters, if there are any, is read back as the
parameters, unless these are nested deeper than the reader goes; then it fails for that reason.  If
there are no controls in the target, there are none in the statements, and each of them has a line
of its own. -/
theorem read_emitted_and_lines_render (room depth : Nat) (r : Record) (m : Aliases)
    (hparams : r.params = m.toJson) (hnames : m.names.Nodup)
    (hdefaults : ∀ e ∈ m.entries, ∀ d ∈ e.2.default, d.plain = true) :
    (r.statements room = .error .tooDeepToWrite ↔ m.entries ≠ [] ∧ room < r.params.nesting) ∧
      ((∃ ss, r.statements room = .ok ss) ↔ m.entries = [] ∨ r.params.nesting ≤ room) ∧
      ∀ ss, r.statements room = .ok ss →
        ((r.emitted? ss).isSome = true ↔ m.entries ≠ []) ∧
        (∀ t, r.emitted? ss = some t → ∃ cs, t = Text.ofChars cs ∧
          (r.params.nesting ≤ depth → Json.read .refuse depth cs = .ok r.params) ∧
          (depth < r.params.nesting → ∃ n, Json.read .refuse depth cs = .error (.depth n))) ∧
        ((Text.ofString r.target).Clear →
          (∀ s ∈ ss, s.Clear) ∧
            ∀ indent, (Text.ofString indent).Unbroken → ∀ newline ∈ Text.breaks,
              ∃ text, r.render room indent newline = .ok text ∧
                Text.lines text = [] :: ss.map (Text.ofString indent ++ ·)) := by
  have hplain : r.params.plain = true := hparams ▸ Aliases.plain_toJson hnames hdefaults
  have htruthy : r.params.truthy = true ↔ m.entries ≠ [] := hparams ▸ m.truthy_toJson
  refine ⟨statements_eq_error_iff.trans (and_congr_left' htruthy), ?_, fun ss hss => ?_⟩
  · simp only [statements_eq_ok_iff, exists_and_left, exists_eq, and_true, htruthy]
    rw [not_and_or, not_not, Nat.not_lt]
  · obtain ⟨-, rfl⟩ := statements_eq_ok_iff.1 hss
    refine ⟨?_, ?_, fun htarget => ⟨fun s hs => clear_of_mem_texts htarget hs, ?_⟩⟩
    · rw [← htruthy, emitted?_texts]
      cases r.params.truthy <;> simp
    · intro t ht
      rw [emitted?_texts] at ht
      split at ht
      · cases ht
        exact Json.read_print hplain .refuse depth
      · cases ht
    · intro indent hindent newline hnewline
      refine ⟨_, ?_, lines_joined_texts htarget hindent hnewline⟩
      rw [render, hss]
      rfl

/-- A class with two parameters.  There are quotes, controls and characters beyond ASCII in the
default of the first one. -/
def sampleAliases : Aliases :=
  ⟨[("b", ⟨"x.y", some (.record [("k\"\n", .arr [.null, .int (-120), .ofString "é\\\x07"]),
    ("", .obj [])])⟩), ("a", ⟨"a", none⟩)]⟩

def sampleRecord : Record := ⟨"C", some "Svc", true, sampleAliases.toJson, 3⟩

/-- The parameters of the sample. -/
def sampleText : String :=
  "\x7b\"b\": \x7b\"from\": \"x.y\", \"default\": \x7b\"k\\\"\\n\": " ++
    "[null, -120, \"é\\\\\\u0007\"], \"\": \x7b\x7d\x7d\x7d, \"a\": \x7b\"from\": \"a\"\x7d\x7d"

/-- Two objects around the object and the array of the default are the room that the sample takes.
-/
theorem read_emitted_of_sample :
    ∃ ss text, sampleRecord.statements 4 = .ok ss ∧
      sampleRecord.emitted? ss = some (Text.ofString sampleText) ∧
      Json.read .refuse 4 sampleText.toList = .ok sampleAliases.toJson ∧
      sampleRecord.render 4 "  " "\r\n" = .ok text ∧ (Text.lines text).length = 5 := by
  have hdefaults : ∀ e ∈ sampleAliases.entries, ∀ d ∈ e.2.default, d.plain = true := by
    decide
  have hemitted : sampleRecord.emitted? sampleRecord.texts = some (Text.ofString sampleText) := by
    rw [emitted?_texts]
    rfl
  obtain ⟨-, hstatements, hsays⟩ :=
    read_emitted_and_lines_render 4 4 sampleRecord sampleAliases rfl (by decide) hdefaults
  obtain ⟨ss, hss⟩ := hstatements.2 (Or.inr (by decide))
  obtain ⟨-, rfl⟩ := statements_eq_ok_iff.1 hss
  obtain ⟨-, hread, hlines⟩ := hsays _ hss
  obtain ⟨cs, hcs, hok, -⟩ := hread _ hemitted
  obtain ⟨-, hlines⟩ := hlines (by decide)
  obtain ⟨text, htext, hlines⟩ :=
    hlines "  " (Text.Clear.unbroken (by decide)) "\r\n" (by decide)
  refine ⟨_, text, hss, hemitted, ?_, htext, ?_⟩
  · have hchars : sampleText.toList = cs :=
      List.map_injective_iff.2 (fun _ _ h => CodePoint.char.inj h) hcs
    rw [hchars]
    exact hok (by decide)
  · rw [hlines]
    rfl

/-! ### Parameters that are nested too deeply -/

open Json.Syntax (nestedArrays)

theorem plain_nestedArrays (n : Nat) : (nestedArrays n).value.plain = true := by
  induction n with
  | zero => rfl
  | succ n ih =>
      rw [nestedArrays, Json.Syntax.Value.value, Json.Syntax.Items.values, Json.plain,
        Json.plainItems, ih]
      rfl

theorem nesting_value_nestedArrays (n : Nat) : (nestedArrays n).value.nesting = n + 1 := by
  induction n with
  | zero => rfl
  | succ n ih =>
      simp [nestedArrays, Json.Syntax.Value.value, Json.Syntax.Items.values, Json.nesting,
        Json.nestingItems, ih]

/-- One parameter, with a default of empty brackets in `n` pairs of brackets. -/
def nestedAliases (n : Nat) : Aliases := ⟨[("a", ⟨"a", some (nestedArrays n).value⟩)]⟩

/-- The record of a function with this parameter. -/
def nestedRecord (n : Nat) : Record := ⟨"F", none, false, (nestedAliases n).toJson, 1⟩

theorem nesting_nestedRecord (n : Nat) : (nestedRecord n).params.nesting = n + 3 := by
  simp [nestedRecord, nestedAliases, Aliases.toJson, Alias.toJson, Json.record, Json.nesting,
    Json.nestingFields, Json.ofString, nesting_value_nestedArrays]

theorem plain_nestedRecord (n : Nat) : (nestedRecord n).params.plain = true := by
  refine Aliases.plain_toJson (List.nodup_singleton _) ?_
  rintro e he d hd
  obtain rfl := List.mem_singleton.1 he
  cases hd
  exact plain_nestedArrays n

/-- Brackets are plain, but fifteen hundred of them are too many.  Where there is no room to write
them in a record there are no statements at all, and where there is, they are not read back unless
the reader has that room, too. -/
theorem read_emitted_of_nested_brackets :
    (nestedArrays 1499).value.plain = true ∧ ∀ room depth, depth < 1502 →
      (nestedRecord 1499).statements room = .error .tooDeepToWrite ∨
        ∃ ss cs n, (nestedRecord 1499).statements room = .ok ss ∧
          (nestedRecord 1499).emitted? ss = some (Text.ofChars cs) ∧
          Json.read .refuse depth cs = .error (.depth n) := by
  refine ⟨plain_nestedArrays 1499, fun room depth hdepth => ?_⟩
  have hnesting : (nestedRecord 1499).params.nesting = 1502 := nesting_nestedRecord 1499
  rcases Nat.lt_or_ge room 1502 with hroom | hroom
  · exact Or.inl (statements_eq_error_iff.2 ⟨rfl, hroom.trans_eq hnesting.symm⟩)
  · obtain ⟨cs, hcs, -, hdeep⟩ := Json.read_print (plain_nestedRecord 1499) .refuse depth
    obtain ⟨n, hn⟩ := hdeep (hdepth.trans_eq hnesting.symm)
    refine Or.inr ⟨_, cs, n, statements_eq_ok (hnesting.trans_le hroom), ?_, hn⟩
    rw [emitted?_texts, ← hcs]
    rfl

end Record

end Injection
