import Injection.Proofs.Room
import Injection.Transform

/-!
# What a transform fails with

A transform knows nothing of files, so of all failures only four kinds are its own: an error of the
service, values that are nested too deeply in a default, a text that cannot be encoded, and bytes
that cannot be decoded.  `Logged.FailsIn` says of a computation that all its failures have a
property; it passes through sequences, so there is one lemma for each function, in the order in
which they call each other, up to `Transform.failsIn_text`.
-/

namespace Injection

/-- Whether a failure can come from the text of a source. -/
def Failure.OfText : Failure → Prop
  | .service _ | .decode _ | .encode _ | .tooDeep _ => True
  | _ => False

namespace Logged

variable {ε α β : Type} {P : ε → Prop} {x : Logged ε α}

/-- Every failure of a computation has a property. -/
def FailsIn (P : ε → Prop) (x : Logged ε α) : Prop := ∀ e, x.result = .error e → P e

namespace FailsIn

theorem pure (a : α) : FailsIn P (Pure.pure a : Logged ε α) := by
  rintro e ⟨⟩

theorem write (level : Level) (message : String) : FailsIn P (Logged.write level message) := by
  rintro e ⟨⟩

theorem fail {e : ε} (h : P e) : FailsIn P (Logged.fail e : Logged ε α) := by
  rintro _ ⟨⟩
  exact h

theorem ofExcept {r : Except ε α} (h : ∀ e, r = .error e → P e) :
    FailsIn P (Logged.ofExcept r) := h

/-- A sequence fails as one of its parts does. -/
theorem bind {f : α → Logged ε β} (hx : FailsIn P x) (hf : ∀ a, FailsIn P (f a)) :
    FailsIn P (x >>= f) := by
  intro e he
  rw [result_bind] at he
  cases hresult : x.result with
  | error e' =>
      rw [hresult] at he
      cases he
      exact hx e hresult
  | ok a =>
      rw [hresult] at he
      exact hf a e he

/-- A result that is only passed on. -/
theorem map {f : α → β} (hx : FailsIn P x) : FailsIn P (x >>= fun a => Pure.pure (f a)) :=
  hx.bind fun _ => .pure _

/-- An entry that is written first. -/
theorem write_bind {level : Level} {message : String} {y : Logged ε β} (hy : FailsIn P y) :
    FailsIn P (Logged.write level message >>= fun _ => y) :=
  FailsIn.bind (.write level message) fun _ => hy

end FailsIn
end Logged

open Logged (FailsIn)

/-! ## Directives -/

namespace Dependency

theorem Finding.failsIn_read (depth : Nat) (f : Finding) :
    FailsIn Failure.OfText (f.read depth) := by
  cases f with
  | noProvider param => exact .write_bind (.pure _)
  | dependency param provider literal =>
      cases literal with
      | none => exact .pure _
      | some literal =>
          simp only [Finding.read]
          split
          · exact .pure _
          · exact .fail trivial
          · exact .fail trivial

theorem failsIn_readAll (depth : Nat) (fs : List Finding) :
    FailsIn Failure.OfText (readAll depth fs) := by
  induction fs with
  | nil => exact .pure _
  | cons f fs ih => exact (f.failsIn_read depth).bind fun _ => ih.map

theorem failsIn_parse (depth : Nat) (cs : List Char) :
    FailsIn Failure.OfText (parse depth cs) := failsIn_readAll depth (findings cs)

end Dependency

/-! ## Records -/

namespace Record

theorem failsIn_checkUnknown (policy : UnknownPolicy) (target : String) (unknown : List String) :
    FailsIn Failure.OfText (checkUnknown policy target unknown) := by
  unfold checkUnknown
  split
  · exact .pure _
  · cases policy with
    | error => exact .fail trivial
    | warn => exact .write _ _
    | ignore => exact .pure _

theorem failsIn_paramsOf (depth : Nat) (policy : UnknownPolicy) (target : String) (s : Signature) :
    FailsIn Failure.OfText (paramsOf depth policy target s) := by
  unfold paramsOf Aliases.resolve
  split
  · exact .pure _
  · exact (Dependency.failsIn_parse depth _).map.bind fun _ => (failsIn_checkUnknown _ _ _).map

theorem failsIn_build (depth : Nat) (source : Bytes) (policy : UnknownPolicy) (identifier : String)
    (target : Tree) (comment : List Char) (directive : Injectable) (line : Int) :
    FailsIn Failure.OfText
      (build depth source policy identifier target comment directive line) := by
  unfold build
  split
  · exact .write_bind (.pure _)
  · exact (failsIn_paramsOf depth _ _ _).map

end Record

/-! ## Statements -/

namespace Marked

variable (c : Context) (m : Marked)

theorem failsIn_record (identifier : String) (target : Tree) :
    FailsIn Failure.OfText (m.record c identifier target) := Record.failsIn_build _ _ _ _ _ _ _ _

theorem failsIn_annotate (identifier : String) (target : Tree) :
    FailsIn Failure.OfText (m.annotate c identifier target) := by
  rw [annotate_eq]
  split
  · exact .write_bind (.pure _)
  · exact (m.failsIn_record c _ _).map

theorem failsIn_declarationChange : FailsIn Failure.OfText (m.declarationChange c) := by
  unfold declarationChange
  split
  · exact .pure _
  · exact m.failsIn_annotate c _ _

theorem failsIn_variableChange : FailsIn Failure.OfText (m.variableChange c) := by
  unfold variableChange
  split
  · exact m.failsIn_annotate c _ _
  · exact .write_bind (.pure _)

theorem failsIn_defaultExport (taken : List String) (target : Tree) :
    FailsIn Failure.OfText (m.defaultExport c taken target) := by
  have hchange : ∀ identifier, FailsIn Failure.OfText (m.defaultChange c identifier target) := by
    intro identifier
    rw [defaultChange_eq]
    exact (m.failsIn_record c identifier target).map
  unfold defaultExport
  split
  · exact .write_bind (.pure _)
  · split
    · exact (hchange _).map
    · split
      · exact .write_bind (.pure _)
      · exact (hchange _).map

theorem failsIn_namedChange (names : List String) (declaration target : Tree) :
    FailsIn Failure.OfText (m.namedChange c names declaration target) := by
  cases names with
  | nil => exact .pure _
  | cons identifier names =>
      rw [namedChange_eq]
      exact (m.failsIn_record c _ _).map

theorem failsIn_namedExport (declaration : Tree) :
    FailsIn Failure.OfText (m.namedExport c declaration) := by
  unfold namedExport
  split
  · refine FailsIn.bind (.ofExcept ?_) fun names => ?_
    · intro e he
      cases hnames : declaration.declarators.mapM (declaratorName c.source) with
      | error e' =>
          rw [hnames] at he
          cases he
          trivial
      | ok names =>
          rw [hnames] at he
          cases he
    · split
      · exact .pure _
      · exact m.failsIn_namedChange c _ _ _
  · split
    · split
      · exact .fail trivial
      · exact m.failsIn_namedChange c _ _ _
    · exact .write_bind (.pure _)

theorem failsIn_exportChange (taken : List String) :
    FailsIn Failure.OfText (m.exportChange c taken) := by
  unfold exportChange
  dsimp only
  split
  · split
    · exact m.failsIn_defaultExport c taken _
    · exact .pure _
  · split
    · exact (m.failsIn_namedExport c _).map
    · exact .pure _

theorem failsIn_change (taken : List String) : FailsIn Failure.OfText (m.change c taken) := by
  unfold change
  split
  · exact m.failsIn_exportChange c taken
  · split
    · exact (m.failsIn_variableChange c).map
    · split
      · exact (m.failsIn_declarationChange c).map
      · exact .pure _

end Marked

namespace Pass

theorem failsIn_visit (c : Context) (taken : List String) (s : Site) :
    FailsIn Failure.OfText (visit c taken s) := by
  unfold visit
  split
  · exact .pure _
  · exact Marked.failsIn_change c _ taken

theorem failsIn_changes (c : Context) (taken : List String) (ss : List Site) :
    FailsIn Failure.OfText (changes c taken ss) := by
  induction ss generalizing taken with
  | nil => exact .pure _
  | cons s ss ih => exact (failsIn_visit c taken s).bind fun _ => (ih _).map

end Pass

/-! ## Sources -/

namespace Edit

/-- Edits that overlap are an error of the service, and a text may have no encoding. -/
theorem ofText_of_applyFrom {source : Bytes} {cursor : Int} {es : List Edit} {f : Failure}
    (h : applyFrom source cursor es = .error f) : f.OfText := by
  induction es generalizing cursor with
  | nil => cases h
  | cons e es ih =>
      rw [applyFrom] at h
      split at h
      · cases h
        trivial
      · split at h
        · cases h
          trivial
        · cases hrest : applyFrom source e.stop es with
          | error f' =>
              rw [hrest] at h
              cases h
              exact ih hrest
          | ok rest =>
              rw [hrest] at h
              cases h

end Edit

namespace Transform

theorem ofText_of_tree {host : Host} {r : Registry} {source : Bytes}
    {language file : String} {f : Failure} (h : tree host r source language file = .error f) :
    f.OfText := by
  unfold tree at h
  split at h
  · cases h
    trivial
  · dsimp only at h
    split at h
    · cases h
      trivial
    · cases h

/-- **The failures of a transform** are of the four kinds that a text can bring about. -/
theorem failsIn_text (host : Host) (r : Registry) (s : TransformSettings)
    (source language file : String) :
    FailsIn Failure.OfText (text host r s source language file) := by
  have hdecode : ∀ bytes : Bytes,
      FailsIn Failure.OfText (Logged.ofExcept ((Utf8.decode bytes).mapError Failure.decode)) := by
    intro bytes
    refine .ofExcept fun e he => ?_
    cases hbytes : Utf8.decode bytes with
    | error fault =>
        rw [hbytes] at he
        cases he
        trivial
    | ok cs =>
        rw [hbytes] at he
        cases he
  unfold text
  refine FailsIn.bind (.ofExcept fun _ => ofText_of_tree) fun root => ?_
  refine (Pass.failsIn_changes _ _ _).bind fun changes => ?_
  refine FailsIn.bind (.ofExcept fun _ => Edit.ofText_of_applyFrom) fun output => ?_
  dsimp only
  split
  · exact .write_bind (hdecode output).map
  · exact (hdecode output).map

end Transform
end Injection
