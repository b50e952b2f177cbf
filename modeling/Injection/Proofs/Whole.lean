import Injection.Proofs.Changes
import Injection.Proofs.Keys
import Injection.Proofs.Splice

/-!
# Texts that have an encoding

A text has an encoding exactly when it is whole, that is, when no half of a surrogate pair stands
alone in it.  Strings are whole.  What a change writes is made of strings and of the defaults of its
record, so it is whole when these are (`Shape.whole`).
-/

namespace Injection

namespace Text

/-- No half of a surrogate pair stands alone. -/
def whole (t : Text) : Bool :=
  t.all fun
    | .char _ => true
    | .half _ => false

@[simp] theorem whole_nil : whole [] = true := rfl

@[simp] theorem whole_char_cons (c : Char) (t : Text) : whole (.char c :: t) = whole t := rfl

@[simp] theorem whole_append (a b : Text) : whole (a ++ b) = (whole a && whole b) := List.all_append

@[simp] theorem whole_ofChars (cs : List Char) : whole (ofChars cs) = true := by
  induction cs with
  | nil => rfl
  | cons c cs ih => rw [ofChars_cons, whole_char_cons, ih]

@[simp] theorem whole_ofString (s : String) : whole (ofString s) = true := whole_ofChars s.toList

theorem whole_flatMap {α : Type} {xs : List α} {f : α → Text}
    (h : ∀ x ∈ xs, whole (f x) = true) : whole (xs.flatMap f) = true := by
  induction xs with
  | nil => rfl
  | cons x xs ih =>
      rw [List.flatMap_cons, whole_append, h x List.mem_cons_self,
        ih fun y hy => h y (List.mem_cons_of_mem x hy)]
      rfl

/-- A whole text is a list of characters. -/
theorem exists_eq_ofChars {t : Text} (h : t.whole = true) : ∃ cs, t = ofChars cs := by
  induction t with
  | nil => exact ⟨[], rfl⟩
  | cons p t ih =>
      cases p with
      | char c =>
          obtain ⟨cs, rfl⟩ := ih h
          exact ⟨c :: cs, rfl⟩
      | half x => cases h

end Text

namespace Edit

theorem encodes_of_whole {e : Edit} (h : e.text.whole = true) : e.Encodes := by
  obtain ⟨cs, hcs⟩ := Text.exists_eq_ofChars h
  exact ⟨Utf8.encodeChars cs, (Utf8.encode_eq_ok_iff e.text _).2 ⟨cs, hcs, rfl⟩⟩

end Edit

/-! ## Written values -/

namespace Json

mutual

/-- All strings and field names of a value are whole. -/
def whole : Json → Bool
  | .null | .bool _ | .int _ | .float _ => true
  | .str s => s.whole
  | .arr items => wholeItems items
  | .obj fields => wholeFields fields

def wholeItems : List Json → Bool
  | [] => true
  | v :: vs => whole v && wholeItems vs

def wholeFields : List (Text × Json) → Bool
  | [] => true
  | (k, v) :: fs => k.whole && whole v && wholeFields fs

end

theorem wholeFields_of_forall {fs : List (Text × Json)}
    (h : ∀ f ∈ fs, f.1.whole = true ∧ f.2.whole = true) : wholeFields fs = true := by
  induction fs with
  | nil => rfl
  | cons f fs ih =>
      obtain ⟨hk, hv⟩ := h f List.mem_cons_self
      rw [wholeFields, hk, hv, ih fun g hg => h g (List.mem_cons_of_mem f hg)]
      rfl

theorem whole_printString {style : Escaping} {s : Text} (h : s.whole = true) :
    (printString style s).whole = true := by
  have hpoints : Text.whole (s.flatMap (printPoint style)) = true := by
    obtain ⟨cs, rfl⟩ := Text.exists_eq_ofChars h
    apply Text.whole_flatMap
    intro p hp
    obtain ⟨c, -, rfl⟩ := List.mem_map.1 hp
    unfold printPoint
    split_ifs
    all_goals first | exact Text.whole_ofChars _ | rfl
  rw [printString, List.cons_append, Text.whole_char_cons, Text.whole_append, hpoints]
  rfl

mutual

/-- The written form of a whole value is whole. -/
theorem whole_print (style : Escaping) :
    ∀ v : Json, v.whole = true → (print style v).whole = true
  | .null, _ | .bool _, _ | .int _, _ | .float _, _ => by
      rw [print]
      exact Text.whole_ofString _
  | .str s, h => by
      rw [whole] at h
      rw [print]
      exact whole_printString h
  | .arr items, h => by
      rw [whole] at h
      rw [print, Text.whole_char_cons]
      exact whole_printItems style items h
  | .obj fields, h => by
      rw [whole] at h
      rw [print, Text.whole_char_cons]
      exact whole_printFields style fields h

theorem whole_printItems (style : Escaping) :
    ∀ vs : List Json, wholeItems vs = true → (printItems style vs).whole = true
  | [], _ => rfl
  | [v], h => by
      rw [wholeItems, Bool.and_eq_true] at h
      rw [printItems, Text.whole_append, whole_print style v h.1]
      rfl
  | v :: w :: vs, h => by
      rw [wholeItems, Bool.and_eq_true] at h
      rw [printItems.eq_3 style v (w :: vs) (by simp), Text.whole_append, Text.whole_char_cons,
        Text.whole_char_cons, whole_print style v h.1, whole_printItems style (w :: vs) h.2]
      rfl

theorem whole_printFields (style : Escaping) :
    ∀ fs : List (Text × Json), wholeFields fs = true → (printFields style fs).whole = true
  | [], _ => rfl
  | [(k, v)], h => by
      rw [wholeFields, Bool.and_eq_true, Bool.and_eq_true] at h
      rw [printFields]
      simp only [Text.whole_append, Text.whole_char_cons,
        whole_printString h.1.1, whole_print style v h.1.2]
      rfl
  | (k, v) :: f :: fs, h => by
      rw [wholeFields, Bool.and_eq_true, Bool.and_eq_true] at h
      rw [printFields.eq_3 style k v (f :: fs) (by simp)]
      simp only [Text.whole_append, Text.whole_char_cons,
        whole_printString h.1.1, whole_print style v h.1.2, whole_printFields style (f :: fs) h.2]
      rfl

end

end Json

/-! ## Records -/

namespace Record

/-- The defaults of the parameters. -/
def defaults (r : Record) : List Json :=
  match r.params with
  | .obj fields => fields.filterMap (·.2.field? "default")
  | _ => []

/-- The parameters of a record are names with aliases. -/
theorem params_of_build {depth : Nat} {source : Bytes} {policy : UnknownPolicy}
    {identifier : String}
    {target : Tree} {comment : List Char} {directive : Injectable} {line : Int} {r : Record}
    (h : (build depth source policy identifier target comment directive line).result =
      .ok (some r)) :
    ∃ fields, r.params = .obj fields ∧
      ∀ f ∈ fields, ∃ p a, f = (Text.ofString p, Alias.toJson a) := by
  unfold build at h
  cases hsignature : Signature.ofTarget? source target comment with
  | none =>
      rw [hsignature] at h
      simp only [Logged.result_write_bind] at h
      cases h
  | some s =>
      rw [hsignature] at h
      obtain ⟨params, hparams, hr⟩ := Logged.result_bind_return_eq_ok_iff.1 h
      cases hr
      refine ⟨params, rfl, ?_⟩
      intro f hf
      unfold paramsOf at hparams
      split at hparams
      · cases hparams
        cases hf
      · rw [Logged.result_bind_eq_ok_iff] at hparams
        obtain ⟨aliases, -, hparams⟩ := hparams
        rw [Logged.result_bind_eq_ok_iff] at hparams
        obtain ⟨_, -, hparams⟩ := hparams
        cases hfields : aliases.forParameters s.params with
        | error e =>
            rw [hfields] at hparams
            cases hparams
            cases hf
        | ok fields =>
            rw [hfields] at hparams
            cases hparams
            obtain ⟨p, a, -, hpair⟩ := Aliases.exists_of_mem_forParameters hfields hf
            exact ⟨p, a, hpair⟩

/-- An alias is whole when its default is. -/
theorem whole_alias {a : Alias} (h : ∀ d, a.toJson.field? "default" = some d → d.whole = true) :
    a.toJson.whole = true := by
  obtain ⟨provider, default?⟩ := a
  cases default? with
  | none => simp [Alias.toJson, Json.record, Json.whole, Json.wholeFields, Json.ofString]
  | some d =>
      have hne : (Text.ofString "default" == Text.ofString "from") = false := by decide
      have hd : d.whole = true := by
        apply h
        simp [Alias.toJson, Json.record, Json.field?, List.lookup_cons, hne]
      simp [Alias.toJson, Json.record, Json.whole, Json.wholeFields, Json.ofString, hd]

/-- The parameters of a record are whole when its defaults are. -/
theorem whole_params {r : Record} {fields : List (Text × Json)} (hparams : r.params = .obj fields)
    (hfields : ∀ f ∈ fields, ∃ p a, f = (Text.ofString p, Alias.toJson a))
    (h : ∀ d ∈ r.defaults, d.whole = true) : r.params.whole = true := by
  rw [hparams, Json.whole]
  apply Json.wholeFields_of_forall
  intro f hf
  obtain ⟨p, a, rfl⟩ := hfields f hf
  refine ⟨Text.whole_ofString p, whole_alias ?_⟩
  intro d hd
  apply h
  rw [defaults, hparams]
  exact List.mem_filterMap.2 ⟨_, hf, hd⟩

/-- The statements of a record with whole parameters are whole. -/
theorem whole_joined_texts {r : Record} (h : r.params.whole = true) (indent newline : String) :
    (joined indent newline r.texts).whole = true := by
  have hassignment : ∀ (property : String) (value : Text), value.whole = true →
      (r.assignment property value).whole = true := by
    intro property value hvalue
    simp [assignment, hvalue]
  have hstatements : ∀ s ∈ r.texts, s.whole = true := by
    intro s hs
    unfold texts at hs
    simp only [List.mem_append] at hs
    rcases hs with ((hs | hs) | hs) | hs
    · rw [List.mem_singleton.1 hs]
      exact hassignment _ _ (Text.whole_ofString _)
    · split at hs
      · rw [List.mem_singleton.1 hs]
        exact hassignment _ _ (Json.whole_print _ _ (Text.whole_ofString _))
      · cases hs
    · split at hs
      · rw [List.mem_singleton.1 hs]
        exact hassignment _ _ (Text.whole_ofString _)
      · cases hs
    · split at hs
      · rw [List.mem_singleton.1 hs]
        exact hassignment _ _ (Json.whole_print _ _ h)
      · cases hs
  apply Text.whole_flatMap
  intro s hs
  simp [hstatements s hs]

end Record

/-! ## Changes -/

namespace Marked

variable {c : Context} {m : Marked} {ch : Change}

/-- The record of a change comes from a target. -/
theorem Shape.exists_record (h : m.Shape c ch) :
    ∃ identifier target, (m.record c identifier target).result = .ok (some ch.record) := by
  cases h with
  | declared name _ _ _ hrecord => exact ⟨_, _, hrecord⟩
  | bound name value _ _ _ hrecord => exact ⟨_, _, hrecord⟩
  | exportedDefault identifier target _ _ _ _ _ hrecord => exact ⟨_, _, hrecord⟩
  | exportedNamed identifier names declaration target _ _ _ _ hrecord => exact ⟨_, _, hrecord⟩

/-- What a change writes is whole when the defaults of its record are. -/
theorem Shape.whole (h : m.Shape c ch) (hdefaults : ∀ d ∈ ch.record.defaults, d.whole = true) :
    ∀ e ∈ ch.edits, e.text.whole = true := by
  have hrender : (m.annotation c ch.record).whole = true := by
    obtain ⟨identifier, target, hrecord⟩ := h.exists_record
    obtain ⟨fields, hparams, hfields⟩ := Record.params_of_build hrecord
    exact Record.whole_joined_texts (Record.whole_params hparams hfields hdefaults) _ _
  cases h with
  | declared name _ _ _ _ hedits =>
      rw [hedits]
      simpa [Edit.insertAfter] using hrender
  | bound name value _ _ _ _ hedits =>
      rw [hedits]
      simpa [Edit.insertAfter] using hrender
  | exportedDefault identifier target _ _ _ _ _ _ hedits =>
      rw [hedits]
      unfold defaultEdits
      dsimp only
      split_ifs
      · simpa [replace] using hrender
      · simpa [replace] using hrender
  | exportedNamed identifier names declaration target _ _ _ _ _ hedits =>
      rw [hedits]
      simpa [namedEdits, replace] using hrender

end Marked
end Injection
