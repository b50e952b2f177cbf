import Injection.Proofs.Depths
import Injection.Proofs.Failures
import Injection.Proofs.WriteBack

/-!
# Calls on single files

A call reads and writes no file but its own.

* `transformFile_acts`: what a call answers, and what it does to its file, depends on the bytes of
  that file alone, so it is the same after other files have been written.
* `ofFile_of_transformFile`: a call on a file that is there, in a known encoding, fails with what
  the file brings about.
* `final_transformFile_inner`: a call with less room does the same, or it fails for the lack of room
  and does nothing.
-/

namespace Injection

namespace Files

variable {fs : Files} {p : Path} {names : Names} {old : Bytes}

theorem put_put (fs : Files) (names : Names) (first bytes : Bytes) :
    (fs.put names first).put names bytes = fs.put names bytes := by
  unfold put
  rw [Assoc.assign_assign]

theorem write_write_eq_put (h : fs.locate p = .ok (.file names old)) (first bytes : Bytes) :
    (fs.write p first).write p bytes = fs.put names bytes := by
  rw [write_eq_put h, write_eq_put (locate_put h first), put_put]

end Files

namespace Service

variable {host : Host} {s : Service} {p : Path} {language? : Option String} {fs : Files}

/-! ## A call and its file -/

/-- What becomes of a file depends on what its path leads to. -/
theorem previewFile_congr {fs' : Files} (h : fs'.locate p = fs.locate p) :
    s.previewFile host fs' p language? = s.previewFile host fs p language? := by
  simp only [previewFile, readText, Files.size, Files.read, h]

/-- Writing back does the same wherever the path leads to the same bytes. -/
theorem writeBack_acts {names : Names} {old : Bytes} {c : Codec} (o : Outcome)
    (hcodec : s.codec host = .ok c) :
    ∃ (bytes? : Option Bytes) (result : Except Failure Unit), ∀ fs : Files,
      fs.locate p = .ok (.file names old) →
      (s.writeBack host p o).final fs = (bytes?.elim fs (fs.put names), result) := by
  cases hopened : host.os.reason? .openToWrite p with
  | some reason => exact ⟨none, .error (.os reason), fun fs _ => final_writeBack_shut hopened⟩
  | none =>
      cases hencode : c.encode o.output with
      | error fault =>
          -- The file is emptied before its text is encoded, so it stays empty.
          refine ⟨some [], .error (.ofCodec fault), fun fs hlocate => ?_⟩
          rw [final_writeBack hopened hcodec, hencode, Files.write_eq_put hlocate]
          rfl
      | ok bytes =>
          cases hreason : host.os.reason? .write p with
          | some reason =>
              refine ⟨some (host.os.left p bytes), .error (.os reason), fun fs hlocate => ?_⟩
              rw [final_writeBack hopened hcodec, hencode, hreason]
              exact Prod.ext (Files.write_write_eq_put hlocate [] _) rfl
          | none =>
              refine ⟨some bytes, .ok (), fun fs hlocate => ?_⟩
              rw [final_writeBack hopened hcodec, hencode, hreason]
              exact Prod.ext (Files.write_write_eq_put hlocate [] bytes) rfl

/-- **A call and its file.**  Wherever its path leads to the same bytes, a call answers the same and
does the same to that file, and nothing to the others. -/
theorem transformFile_acts {names : Names} {old : Bytes} (host : Host) (s : Service)
    (language? : Option String) (write : Bool)
    (hlocate : fs.locate p = .ok (.file names old)) :
    ∃ (bytes? : Option Bytes) (result : Except Failure Outcome), ∀ fs' : Files,
      fs'.locate p = .ok (.file names old) →
      (s.transformFile host p language? write).final fs' =
        (bytes?.elim fs' (fs'.put names), result) := by
  have hpreview : ∀ fs' : Files, fs'.locate p = .ok (.file names old) →
      s.previewFile host fs' p language? = s.previewFile host fs p language? :=
    fun fs' hfs' => previewFile_congr (hfs'.trans hlocate.symm)
  -- The file is touched only when its text could be changed and the call is one that writes.
  cases hresult : (s.previewFile host fs p language?).result with
  | error f =>
      refine ⟨none, .error f, fun fs' hfs' => ?_⟩
      rw [final_transformFile, hpreview fs' hfs', hresult]
      rfl
  | ok o =>
      cases hwrites : write && o.changed with
      | false =>
          refine ⟨none, .ok o, fun fs' hfs' => ?_⟩
          rw [final_transformFile, hpreview fs' hfs', hresult]
          dsimp only
          rw [hwrites]
          rfl
      | true =>
          obtain ⟨c, -, hcodec, -⟩ := exists_of_previewFile hresult
          obtain ⟨bytes?, result, hwrite⟩ := @writeBack_acts host s p names old c o hcodec
          refine ⟨bytes?, result.map fun _ => o, fun fs' hfs' => ?_⟩
          rw [final_transformFile, hpreview fs' hfs', hresult]
          dsimp only
          rw [hwrites, if_pos rfl, hwrite fs' hfs']

/-- A call that does not write answers with what would become of the file, and leaves it alone. -/
theorem final_transformFile_false (host : Host) (s : Service) (p : Path)
    (language? : Option String) (fs : Files) :
    (s.transformFile host p language? false).final fs =
      (fs, (s.previewFile host fs p language?).result) := by
  rw [final_transformFile]
  cases (s.previewFile host fs p language?).result <;> rfl

/-! ## Failures of a call -/

end Service

/-- Whether a failure can come from a file: from its text, its encoding or the operating system. -/
def Failure.OfFile : Failure → Prop
  | .service _ | .decode _ | .encode _ | .codec _ | .os _ | .tooDeep _ => True
  | _ => False

theorem Failure.OfText.ofFile {f : Failure} (h : f.OfText) : f.OfFile := by
  cases f <;> trivial

theorem Failure.ofFile_ofCodec (fault : CodecFault) : (Failure.ofCodec fault).OfFile := by
  cases fault <;> trivial

theorem Refusals.ofFile_of_ask {α : Type} {os : Refusals} {step : Step} {p : Path}
    {x : Except Failure α} {f : Failure} (hx : ∀ g, x = .error g → g.OfFile)
    (h : os.ask step p x = .error f) : f.OfFile := by
  unfold ask at h
  split at h
  · cases h
    trivial
  · exact hx f h

namespace Service

variable {host : Host} {s : Service} {p : Path} {language? : Option String} {fs : Files}

section Known

variable {names : Names} {bytes : Bytes} {c : Codec}
  (hlocate : fs.locate p = .ok (.file names bytes)) (hcodec : s.codec host = .ok c)
  (hnull : '\x00' ∉ s.settings.encoding.toList)

include hlocate hcodec hnull

/-- A text is read from a file in a known encoding, unless the file is too large, is refused or
cannot be decoded. -/
theorem ofFile_of_readText {f : Failure} (h : s.readText host fs p = .error f) : f.OfFile := by
  have hclean : ¬s.settings.encoding.toList.contains '\x00' = true := by
    rwa [List.contains_iff_mem]
  have hsize : fs.size p = .ok bytes.length := by
    rw [Files.size, hlocate]
    rfl
  have hread : fs.read p = .ok bytes := by
    rw [Files.read, hlocate]
    rfl
  have hnone : ∀ {α : Type} {a : α} (g : Failure), Except.ok a = Except.error g → g.OfFile := by
    rintro α a g ⟨⟩
  unfold readText at h
  rw [hsize, hread, hcodec, if_neg hclean] at h
  rcases of_bind_eq_error h with h | ⟨size, -, h⟩
  · exact Refusals.ofFile_of_ask hnone h
  rcases of_bind_eq_error h with h | ⟨-, -, h⟩
  · unfold checkSize at h
    split at h
    · cases h
      trivial
    · cases h
  rcases of_bind_eq_error h with h | ⟨old, -, h⟩
  · exact Refusals.ofFile_of_ask hnone h
  · refine Refusals.ofFile_of_ask (fun g hg => ?_) h
    cases hdecode : c.decode old with
    | error fault =>
        rw [hdecode] at hg
        cases hg
        exact Failure.ofFile_ofCodec fault
    | ok text =>
        rw [hdecode] at hg
        cases hg

theorem failsIn_previewFile {r : Registry} (hregistry : s.registry = .ok r) :
    (s.previewFile host fs p language?).FailsIn Failure.OfFile := by
  have hregistry' : ∀ f, s.registry = .error f → f.OfFile := by
    intro f hf
    rw [hregistry] at hf
    cases hf
  have hlanguage : ∀ f, s.fileLanguage p language? = .error f → f.OfFile := by
    intro f hf
    unfold fileLanguage at hf
    split at hf
    · cases hf
    · split at hf
      · cases hf
      · cases hf
        trivial
  have hstring : ∀ text f, (Utf8.string text).mapError Failure.encode = .error f → f.OfFile := by
    intro text f hf
    cases hstring : Utf8.string text with
    | error fault =>
        rw [hstring] at hf
        cases hf
        trivial
    | ok source =>
        rw [hstring] at hf
        cases hf
  unfold previewFile transformText
  refine Logged.FailsIn.bind (.ofExcept hregistry') fun _ => ?_
  refine Logged.FailsIn.bind (.ofExcept hlanguage) fun language => ?_
  refine Logged.FailsIn.bind (.ofExcept fun _ => ofFile_of_readText hlocate hcodec hnull)
    fun text => ?_
  refine Logged.FailsIn.bind (.ofExcept (hstring text)) fun source => ?_
  refine Logged.FailsIn.bind (.ofExcept hregistry') fun _ => ?_
  exact fun f hf => (Transform.failsIn_text _ _ _ _ _ _ f hf).ofFile

/-- A call on a file in a known encoding fails with what the file brings about. -/
theorem ofFile_of_transformFile {r : Registry} {write : Bool} {f : Failure}
    (hregistry : s.registry = .ok r)
    (h : ((s.transformFile host p language? write).final fs).2 = .error f) : f.OfFile := by
  have hpreview : (s.previewFile host fs p language?).FailsIn Failure.OfFile :=
    failsIn_previewFile hlocate hcodec hnull hregistry
  cases write with
  | false =>
      rw [final_transformFile_false] at h
      exact hpreview f h
  | true =>
      have hrun := fileRun host s p language? fs
      rw [h] at hrun
      generalize ((s.transformFile host p language? true).final fs).1 = files at hrun
      cases hrun with
      | failed _ hfails => exact hpreview f hfails
      | shut reason => trivial
      | refused o c fault => exact Failure.ofFile_ofCodec fault
      | broken o c bytes reason => trivial

end Known

/-! ## Calls with less room -/

theorem previewFile_inner (host : Host) (s : Service) (fs : Files) (p : Path)
    (language? : Option String) :
    Shallow Failure.IsDeep (s.previewFile host.inner fs p language?).result
      (s.previewFile host fs p language?).result := by
  unfold previewFile transformText
  simp only [Logged.result_bind, Logged.result_ofExcept]
  refine Shallow.bind .rfl fun _ => Shallow.bind .rfl fun language =>
    Shallow.bind .rfl fun text => ?_
  exact Shallow.bind .rfl fun source => Shallow.bind .rfl fun r => Transform.text_inner _ _ _ _ _ _

/-- **A call with room for one call less** does the same, or a default is nested too deeply for it,
and then it does nothing. -/
theorem final_transformFile_inner (host : Host) (s : Service) (p : Path)
    (language? : Option String) (write : Bool) (fs : Files) :
    (s.transformFile host.inner p language? write).final fs =
        (s.transformFile host p language? write).final fs ∨
      ∃ n, (s.transformFile host.inner p language? write).final fs = (fs, .error (.tooDeep n)) := by
  have hwrite : ∀ o, s.writeBack host.inner p o = s.writeBack host p o := fun _ => rfl
  rw [final_transformFile, final_transformFile]
  rcases previewFile_inner host s fs p language? with heq | ⟨-, ⟨n, rfl⟩, heq⟩
  · simp only [heq, hwrite, true_or]
  · rw [heq]
    exact .inr ⟨n, rfl⟩

/-- So what it answers with less room it answers with more, too. -/
theorem result_transformFile_of_inner {host : Host} {s : Service} {p : Path}
    {language? : Option String} {write : Bool} {fs : Files} {o : Outcome}
    (h : ((s.transformFile host.inner p language? write).final fs).2 = .ok o) :
    (s.transformFile host p language? write fs).2.result = .ok o := by
  rcases final_transformFile_inner host s p language? write fs with heq | ⟨n, heq⟩
  · rw [heq] at h
    exact h
  · rw [heq] at h
    cases h

end Service
end Injection
