import Injection.Proofs.Folders
import Injection.Proofs.Frame

/-!
# Files that are written back

A file is read and transformed, and its new text is written to where the old one was.  Writing
empties the file first and encodes the text then.

* `read_write_self`: what is written to a path is read from it.
* `FileRun`: all that a call can do.  A call that fails before it writes leaves all files alone.
* `loses` says when a call loses the text of a file: the encoding refuses the new text, or it is not
  written as it should be.
* **`transformFile_keeps_iff`**: a call that fails keeps the file unless it loses it.
-/

namespace Injection

namespace Files

variable {fs : Files} {p : Path} {names : Names} {old : Bytes}

/-- A path that leads to a file leads to it when it has been written. -/
theorem locate_put (h : fs.locate p = .ok (.file names old)) (bytes : Bytes) :
    (fs.put names bytes).locate p = .ok (.file names bytes) := by
  have hplace : names ∈ fs.places :=
    get?_isSome_iff.1 (Option.isSome_iff_exists.2 ⟨old, get?_of_locate h⟩)
  exact (alike_put hplace bytes).locate h (get?_put_self fs names bytes)

/-- Writing to a path that leads to a file. -/
theorem write_eq_put (h : fs.locate p = .ok (.file names old)) (bytes : Bytes) :
    fs.write p bytes = fs.put names bytes := by
  rw [write, h]

/-- What is written to a path is read from it. -/
theorem read_write_self (h : fs.locate p = .ok (.file names old)) (bytes : Bytes) :
    (fs.write p bytes).read p = .ok bytes := by
  rw [write_eq_put h, read, locate_put h bytes]
  rfl

/-- Of two texts written to a path the second one is read from it. -/
theorem read_write_write (h : fs.locate p = .ok (.file names old)) (first bytes : Bytes) :
    ((fs.write p first).write p bytes).read p = .ok bytes := by
  rw [write_eq_put h]
  exact read_write_self (locate_put h first) bytes

/-- Writing to a path leaves all files alone but the one to which it leads. -/
theorem get?_write {q : Names} (h : ∀ bytes, fs.locate p ≠ .ok (.file q bytes)) (bytes : Bytes) :
    (fs.write p bytes).get? q = fs.get? q := by
  rw [write]
  split
  · next names old hlocate =>
      refine get?_put_of_ne ?_ fs bytes
      rintro rfl
      exact h old hlocate
  · rfl

theorem get?_write_write {q : Names} (h : ∀ bytes, fs.locate p ≠ .ok (.file q bytes))
    (first bytes : Bytes) : ((fs.write p first).write p bytes).get? q = fs.get? q := by
  rw [← get?_write h first]
  refine get?_write (fun found hfound => ?_) bytes
  -- the path still leads to where it led before
  unfold write at hfound
  split at hfound
  · next names old hlocate =>
      rw [locate_put hlocate first] at hfound
      cases hfound
      exact h old hlocate
  · exact h found hfound

/-- A path from which bytes are read leads to a file. -/
theorem exists_locate_of_read {bytes : Bytes} (h : fs.read p = .ok bytes) :
    ∃ names, fs.locate p = .ok (.file names bytes) := by
  unfold read at h
  cases hlocate : fs.locate p with
  | error e =>
      rw [hlocate] at h
      cases h
  | ok place =>
      rw [hlocate] at h
      cases place with
      | file names found =>
          cases h
          exact ⟨names, rfl⟩
      | folder names => cases h

end Files

namespace Service

variable {host : Host} {s : Service} {p : Path} {language? : Option String} {fs : Files}

/-! ## What a call does -/

/-- A call gets to the point where it has emptied its file, with a new text for it. -/
structure Opens (host : Host) (s : Service) (p : Path) (language? : Option String) (fs : Files)
    (o : Outcome) (c : Codec) : Prop where
  preview : (s.previewFile host fs p language?).result = .ok o
  changed : o.changed = true
  opened : host.os.reason? .openToWrite p = none
  codec : s.codec host = .ok c

/-- **All that a call can do**: the files that it leaves and its result. -/
inductive FileRun (host : Host) (s : Service) (p : Path) (language? : Option String)
    (fs : Files) : Files → Except Failure Outcome → Prop where
  /-- It fails before anything is written. -/
  | failed (f : Failure) (hpreview : (s.previewFile host fs p language?).result = .error f) :
      FileRun host s p language? fs fs (.error f)
  /-- There is nothing to write. -/
  | kept (o : Outcome) (hpreview : (s.previewFile host fs p language?).result = .ok o)
      (hchanged : o.changed = false) : FileRun host s p language? fs fs (.ok o)
  /-- The file is not opened, and so it is not emptied. -/
  | shut (reason : String) (hreason : host.os.reason? .openToWrite p = some reason) :
      FileRun host s p language? fs fs (.error (.os reason))
  /-- The file is emptied, and then the encoding refuses the new text. -/
  | refused (o : Outcome) (c : Codec) (fault : CodecFault)
      (hopens : Opens host s p language? fs o c)
      (hencode : c.encode o.output = .error fault) :
      FileRun host s p language? fs (fs.write p []) (.error (.ofCodec fault))
  /-- The file is emptied, and then the new text is not written as it should be. -/
  | broken (o : Outcome) (c : Codec) (bytes : Bytes) (reason : String)
      (hopens : Opens host s p language? fs o c) (hencode : c.encode o.output = .ok bytes)
      (hreason : host.os.reason? .write p = some reason) :
      FileRun host s p language? fs ((fs.write p []).write p (host.os.left p bytes))
        (.error (.os reason))
  /-- The new text is written. -/
  | written (o : Outcome) (c : Codec) (bytes : Bytes) (hopens : Opens host s p language? fs o c)
      (hencode : c.encode o.output = .ok bytes) (hreason : host.os.reason? .write p = none) :
      FileRun host s p language? fs ((fs.write p []).write p bytes) (.ok o)

/-- A text that has been read was read from a file, in a known encoding. -/
theorem readText_eq_ok_iff {text : Text} : s.readText host fs p = .ok text ↔
    ∃ size bytes c, host.os.ask .size p (fs.size p) = .ok size ∧
      s.checkSize p.text size = .ok () ∧ s.settings.encoding.toList.contains '\x00' = false ∧
      host.os.ask .openToRead p (fs.read p) = .ok bytes ∧ s.codec host = .ok c ∧
      host.os.ask .read p ((c.decode bytes).mapError .ofCodec) = .ok text := by
  unfold readText
  cases hnull : s.settings.encoding.toList.contains '\x00' with
  | true =>
      refine iff_of_false (fun h => ?_) (by rintro ⟨_, _, _, -, -, ⟨⟩, -⟩)
      obtain ⟨_, -, h⟩ := bind_eq_ok_iff.1 h
      obtain ⟨_, -, h⟩ := bind_eq_ok_iff.1 h
      cases h
  | false =>
      simp only [bind_eq_ok_iff, Bool.false_eq_true, if_false, true_and]
      constructor
      · rintro ⟨size, hsize, ⟨⟩, hcheck, bytes, hbytes, c, hc, htext⟩
        exact ⟨size, bytes, c, hsize, hcheck, hbytes, hc, htext⟩
      · rintro ⟨size, bytes, c, hsize, hcheck, hbytes, hc, htext⟩
        exact ⟨size, hsize, (), hcheck, bytes, hbytes, c, hc, htext⟩

theorem exists_of_previewFile {o : Outcome}
    (h : (s.previewFile host fs p language?).result = .ok o) :
    ∃ c bytes, s.codec host = .ok c ∧ fs.read p = .ok bytes := by
  unfold previewFile at h
  simp only [Logged.result_bind_eq_ok_iff, Logged.result_ofExcept] at h
  obtain ⟨-, -, -, -, text, hread, -⟩ := h
  obtain ⟨-, bytes, c, -, -, -, hbytes, hc, -⟩ := readText_eq_ok_iff.1 hread
  exact ⟨c, bytes, hc, (Refusals.ask_eq_ok_iff.1 hbytes).2⟩

/-- The path of a file that is to be written leads to it. -/
theorem Opens.exists_locate {o : Outcome} {c : Codec} (h : Opens host s p language? fs o c) :
    ∃ names old, fs.read p = .ok old ∧ fs.locate p = .ok (.file names old) := by
  obtain ⟨-, old, -, hread⟩ := exists_of_previewFile h.preview
  obtain ⟨names, hlocate⟩ := Files.exists_locate_of_read hread
  exact ⟨names, old, hread, hlocate⟩

/-- Writing back does nothing to a file that is not opened. -/
theorem final_writeBack_shut {o : Outcome} {reason : String}
    (hreason : host.os.reason? .openToWrite p = some reason) :
    (s.writeBack host p o).final fs = (fs, .error (.os reason)) := by
  rw [writeBack, Refusals.ask_of_some hreason,
    Act.final_bind_error (e := .os reason) (t := fs) rfl]

/-- What writing back does once the file is open. -/
theorem final_writeBack {o : Outcome} {c : Codec}
    (hopened : host.os.reason? .openToWrite p = none) (hcodec : s.codec host = .ok c) :
    (s.writeBack host p o).final fs =
      match c.encode o.output, host.os.reason? .write p with
      | .error fault, _ => (fs.write p [], .error (.ofCodec fault))
      | .ok bytes, some reason =>
        ((fs.write p []).write p (host.os.left p bytes), .error (.os reason))
      | .ok bytes, none => ((fs.write p []).write p bytes, .ok ()) := by
  unfold writeBack
  rw [Refusals.ask_of_none hopened, hcodec, Act.final_bind_ok (a := ()) (t := fs) rfl,
    Act.final_bind_ok (a := ()) (t := fs.write p []) rfl, Act.final_bind_ok (a := c) rfl]
  cases c.encode o.output with
  | error fault => rw [Act.final_bind_error (e := .ofCodec fault) (t := fs.write p []) rfl]
  | ok bytes =>
      rw [Act.final_bind_ok (a := bytes) (t := fs.write p []) rfl]
      cases hreason : host.os.reason? .write p with
      | some reason =>
          have hleft : host.os.written p bytes = host.os.left p bytes := by
            rw [Refusals.written, hreason]
            rfl
          rw [Refusals.ask_of_some hreason, hleft, Act.final_bind_ok (a := ()) rfl,
            Act.final_bind_error (e := .os reason) rfl]
          rfl
      | none =>
          have hwritten : host.os.written p bytes = bytes := by
            rw [Refusals.written, hreason]
            rfl
          rw [Refusals.ask_of_none hreason, hwritten, Act.final_bind_ok (a := ()) rfl,
            Act.final_bind_ok (a := ()) rfl]
          rfl

/-- What a call does: it writes back what is new, if it is asked to write. -/
theorem final_transformFile (host : Host) (s : Service) (p : Path) (language? : Option String)
    (write : Bool) (fs : Files) :
    (s.transformFile host p language? write).final fs =
      match (s.previewFile host fs p language?).result with
      | .error f => (fs, .error f)
      | .ok o =>
        if write && o.changed then
          (((s.writeBack host p o).final fs).1, ((s.writeBack host p o).final fs).2.map fun _ => o)
        else (fs, .ok o) := by
  unfold transformFile
  rw [Act.final_bind_ok (a := fs) (t := fs) rfl]
  cases hpreview : (s.previewFile host fs p language?).result with
  | error f => rw [Act.final_bind_error (e := f) (t := fs) (by rw [Act.final_ofLogged, hpreview])]
  | ok o =>
      rw [Act.final_bind_ok (a := o) (t := fs) (by rw [Act.final_ofLogged, hpreview])]
      dsimp only
      split
      · generalize hwrite : (s.writeBack host p o).final fs = final
        obtain ⟨fs', result⟩ := final
        cases result with
        | error f =>
            rw [Act.final_bind_error hwrite]
            rfl
        | ok _ =>
            rw [Act.final_bind_ok hwrite]
            rfl
      · rfl

/-- What a call does once the file is open. -/
theorem Opens.final_transformFile {o : Outcome} {c : Codec}
    (h : Opens host s p language? fs o c) :
    (s.transformFile host p language? true).final fs =
      match c.encode o.output, host.os.reason? .write p with
      | .error fault, _ => (fs.write p [], .error (.ofCodec fault))
      | .ok bytes, some reason =>
        ((fs.write p []).write p (host.os.left p bytes), .error (.os reason))
      | .ok bytes, none => ((fs.write p []).write p bytes, .ok o) := by
  rw [Service.final_transformFile, h.preview]
  dsimp only
  rw [h.changed, Bool.true_and, if_pos rfl, final_writeBack h.opened h.codec]
  cases c.encode o.output with
  | error fault => rfl
  | ok bytes => cases host.os.reason? .write p <;> rfl

theorem Opens.final_of_written {o : Outcome} {c : Codec} {bytes : Bytes}
    (h : Opens host s p language? fs o c) (hencode : c.encode o.output = .ok bytes)
    (hreason : host.os.reason? .write p = none) :
    (s.transformFile host p language? true).final fs =
      ((fs.write p []).write p bytes, .ok o) := by
  rw [h.final_transformFile, hencode, hreason]

theorem Opens.final_of_refused {o : Outcome} {c : Codec} {fault : CodecFault}
    (h : Opens host s p language? fs o c) (hencode : c.encode o.output = .error fault) :
    (s.transformFile host p language? true).final fs =
      (fs.write p [], .error (.ofCodec fault)) := by
  rw [h.final_transformFile, hencode]

theorem fileRun (host : Host) (s : Service) (p : Path) (language? : Option String)
    (fs : Files) :
    FileRun host s p language? fs ((s.transformFile host p language? true).final fs).1
      ((s.transformFile host p language? true).final fs).2 := by
  cases hpreview : (s.previewFile host fs p language?).result with
  | error f =>
      rw [final_transformFile, hpreview]
      exact .failed f hpreview
  | ok o =>
      cases hchanged : o.changed with
      | false =>
          rw [final_transformFile, hpreview]
          dsimp only
          rw [hchanged]
          exact .kept o hpreview hchanged
      | true =>
          cases hopened : host.os.reason? .openToWrite p with
          | some reason =>
              rw [final_transformFile, hpreview]
              dsimp only
              rw [hchanged, Bool.true_and, if_pos rfl, final_writeBack_shut hopened]
              exact .shut reason hopened
          | none =>
              obtain ⟨c, -, hcodec, -⟩ := exists_of_previewFile hpreview
              have hopens : Opens host s p language? fs o c := ⟨hpreview, hchanged, hopened, hcodec⟩
              rw [hopens.final_transformFile]
              cases hencode : c.encode o.output with
              | error fault => exact .refused o c fault hopens hencode
              | ok bytes =>
                  cases hreason : host.os.reason? .write p with
                  | some reason => exact .broken o c bytes reason hopens hencode hreason
                  | none => exact .written o c bytes hopens hencode hreason

/-! ## When a file is lost -/

/-- Whether a call loses the text of a file: the file is emptied and then the encoding refuses the
new text, or something else is left there when it is written. -/
def loses (host : Host) (s : Service) (fs : Files) (p : Path) (language? : Option String) :
    Bool :=
  match (s.previewFile host fs p language?).result, s.codec host, fs.read p with
  | .ok o, .ok c, .ok old =>
    o.changed && (host.os.reason? .openToWrite p).isNone &&
      match c.encode o.output with
      | .error _ => !old.isEmpty
      | .ok bytes => (host.os.reason? .write p).isSome && decide (host.os.left p bytes ≠ old)
  | _, _, _ => false

theorem Opens.loses_eq {o : Outcome} {c : Codec} {old : Bytes}
    (h : Opens host s p language? fs o c) (hread : fs.read p = .ok old) :
    s.loses host fs p language? =
      match c.encode o.output with
      | .error _ => !old.isEmpty
      | .ok bytes => (host.os.reason? .write p).isSome && decide (host.os.left p bytes ≠ old) := by
  rw [loses, h.preview, h.codec, hread]
  dsimp only
  rw [h.changed, h.opened]
  rfl

/-- A call that loses a file has emptied it. -/
theorem exists_opens_of_loses (h : s.loses host fs p language? = true) :
    ∃ o c, Opens host s p language? fs o c := by
  unfold loses at h
  split at h
  · next o c old hpreview hcodec hread =>
      simp only [Bool.and_eq_true] at h
      exact ⟨o, c, hpreview, h.1.1, Option.isNone_iff_eq_none.1 h.1.2, hcodec⟩
  · cases h

/-- **What a call that loses the file leaves**: nothing, when the encoding refuses the new text, or
else what is left when writing is refused. -/
inductive Lost (host : Host) (s : Service) (p : Path) (files : Files) :
    Except Failure Outcome → Prop where
  | emptied (o : Outcome) (c : Codec) (fault : CodecFault) (hcodec : s.codec host = .ok c)
      (hencode : c.encode o.output = .error fault) (hread : files.read p = .ok []) :
      Lost host s p files (.error (.ofCodec fault))
  | broken (o : Outcome) (c : Codec) (bytes : Bytes) (reason : String)
      (hcodec : s.codec host = .ok c) (hencode : c.encode o.output = .ok bytes)
      (hreason : host.os.reason? .write p = some reason)
      (hread : files.read p = .ok (host.os.left p bytes)) :
      Lost host s p files (.error (.os reason))

namespace FileRun

variable {files : Files} {result : Except Failure Outcome}

/-- A call that gets to the point where the file is emptied does one of three things. -/
theorem read_of_opens {o : Outcome} {c : Codec} (hrun : FileRun host s p language? fs files result)
    (hopens : Opens host s p language? fs o c) :
    Lost host s p files result ∨ ∃ bytes, result = .ok o ∧ c.encode o.output = .ok bytes ∧
      host.os.reason? .write p = none := by
  cases hrun with
  | failed f hpreview =>
      rw [hopens.preview] at hpreview
      cases hpreview
  | kept o' hpreview hchanged =>
      rw [hopens.preview] at hpreview
      cases hpreview
      rw [hopens.changed] at hchanged
      cases hchanged
  | shut reason hreason =>
      rw [hopens.opened] at hreason
      cases hreason
  | refused o' c' fault hopens' hencode =>
      obtain ⟨names, old, -, hlocate⟩ := hopens.exists_locate
      exact .inl (.emptied o' c' fault hopens'.codec hencode (Files.read_write_self hlocate []))
  | broken o' c' bytes reason hopens' hencode hreason =>
      obtain ⟨names, old, -, hlocate⟩ := hopens.exists_locate
      exact .inl (.broken o' c' bytes reason hopens'.codec hencode hreason
        (Files.read_write_write hlocate [] _))
  | written o' c' bytes hopens' hencode hreason =>
      have houtcome := hopens.preview.symm.trans hopens'.preview
      have hcodec := hopens.codec.symm.trans hopens'.codec
      cases houtcome
      cases hcodec
      exact .inr ⟨bytes, rfl, hencode, hreason⟩

/-- A call that loses the file fails, and leaves something else there. -/
theorem lost_of_loses (hrun : FileRun host s p language? fs files result)
    (h : s.loses host fs p language? = true) : Lost host s p files result := by
  obtain ⟨o, c, hopens⟩ := exists_opens_of_loses h
  obtain ⟨names, old, hread, -⟩ := hopens.exists_locate
  rcases hrun.read_of_opens hopens with hlost | ⟨bytes, -, hencode, hreason⟩
  · exact hlost
  · rw [hopens.loses_eq hread, hencode, hreason] at h
    cases h

/-- A call that fails keeps the file exactly when it does not lose it. -/
theorem read_eq_iff {f : Failure} (hrun : FileRun host s p language? fs files (.error f)) :
    files.read p = fs.read p ↔ s.loses host fs p language? = false := by
  by_cases hopens : ∃ o c, Opens host s p language? fs o c
  · obtain ⟨o, c, hopens⟩ := hopens
    obtain ⟨names, old, hread, hlocate⟩ := hopens.exists_locate
    rw [hopens.loses_eq hread, hread]
    cases hrun with
    | failed f hpreview =>
        rw [hopens.preview] at hpreview
        cases hpreview
    | shut reason hreason =>
        rw [hopens.opened] at hreason
        cases hreason
    | refused o' c' fault hopens' hencode =>
        cases hopens.preview.symm.trans hopens'.preview
        cases hopens.codec.symm.trans hopens'.codec
        rw [Files.read_write_self hlocate [], hencode]
        cases old <;> simp
    | broken o' c' bytes reason hopens' hencode hreason =>
        cases hopens.preview.symm.trans hopens'.preview
        cases hopens.codec.symm.trans hopens'.codec
        rw [Files.read_write_write hlocate [] _, hencode, hreason]
        simp
  · -- Nothing has been written.
    have hkept : s.loses host fs p language? = false := by
      rw [Bool.eq_false_iff]
      exact fun h => hopens (exists_opens_of_loses h)
    refine iff_of_true ?_ hkept
    cases hrun with
    | failed f hpreview => rfl
    | shut reason hreason => rfl
    | refused o c fault h _ => exact absurd ⟨o, c, h⟩ hopens
    | broken o c bytes reason h _ _ => exact absurd ⟨o, c, h⟩ hopens

/-- After a call that returns the file holds the new text, if that is another one. -/
theorem written_of_ok {o : Outcome} (hrun : FileRun host s p language? fs files (.ok o)) :
    if o.changed then
      ∃ c bytes, s.codec host = .ok c ∧ c.encode o.output = .ok bytes ∧ files.read p = .ok bytes
    else files = fs := by
  cases hrun with
  | kept _ hpreview hchanged =>
      rw [hchanged]
      rfl
  | written _ c bytes hopens hencode hreason =>
      obtain ⟨names, old, -, hlocate⟩ := hopens.exists_locate
      rw [if_pos hopens.changed]
      exact ⟨c, bytes, hopens.codec, hencode, Files.read_write_write hlocate [] bytes⟩

/-- No call touches another file. -/
theorem get?_eq (hrun : FileRun host s p language? fs files result) {names : Names}
    (h : ∀ bytes, fs.locate p ≠ .ok (.file names bytes)) : files.get? names = fs.get? names := by
  cases hrun with
  | failed f hpreview => rfl
  | kept o hpreview hchanged => rfl
  | shut reason hreason => rfl
  | refused o c fault hopens hencode => exact Files.get?_write h []
  | broken o c bytes reason hopens hencode hreason => exact Files.get?_write_write h [] _
  | written o c bytes hopens hencode hreason => exact Files.get?_write_write h [] bytes

end FileRun

/-- **Calls that write, and the file at their path**, in every encoding and whatever is refused.  A
call that fails keeps the file exactly when it does not lose it.  A call that loses the file fails:
it leaves an empty file when the encoding refuses the new text, and else what is left there when
writing is refused.  After a call that returns the file holds the encoding of the new text if that
differs from the old one, and else no file is touched.  No call touches another file. -/
theorem transformFile_keeps_iff (host : Host) (s : Service) (p : Path)
    (language? : Option String) (fs : Files) :
    (∀ f, (s.transformFile host p language? true fs).2.result = .error f →
      ((s.transformFile host p language? true fs).1.read p = fs.read p ↔
        s.loses host fs p language? = false)) ∧
    (s.loses host fs p language? = true →
      Lost host s p (s.transformFile host p language? true fs).1
        (s.transformFile host p language? true fs).2.result) ∧
    (∀ o, (s.transformFile host p language? true fs).2.result = .ok o →
      if o.changed then
        ∃ c bytes, s.codec host = .ok c ∧ c.encode o.output = .ok bytes ∧
          (s.transformFile host p language? true fs).1.read p = .ok bytes
      else (s.transformFile host p language? true fs).1 = fs) ∧
    ∀ names, (∀ bytes, fs.locate p ≠ .ok (.file names bytes)) →
      (s.transformFile host p language? true fs).1.get? names = fs.get? names := by
  have hrun := fileRun host s p language? fs
  rw [Act.final] at hrun
  refine ⟨fun f hf => ?_, hrun.lost_of_loses, fun o ho => ?_, fun names => hrun.get?_eq⟩
  · rw [hf] at hrun
    exact hrun.read_eq_iff
  · rw [ho] at hrun
    exact hrun.written_of_ok

/-! ## A default that not every encoding has -/

/-- A function with a default that is written by the number of its character. -/
def escapedSource : String :=
  "/** @injectable @dependency \x7bx = \"\\u2603\"\x7d a */\nfunction f(a) \x7b\x7d\n"

/-- The encoding of `escapedSource`. -/
def escapedBytes : Bytes :=
  [47, 42, 42, 32, 64, 105, 110, 106, 101, 99, 116, 97, 98, 108, 101, 32, 64, 100, 101, 112,
    101, 110, 100, 101, 110, 99, 121, 32, 123, 120, 32, 61, 32, 34, 92, 117, 50, 54, 48, 51,
    34, 125, 32, 97, 32, 42, 47, 10, 102, 117, 110, 99, 116, 105, 111, 110, 32, 102, 40, 97,
    41, 32, 123, 125, 10]

/-- The tree of `escapedSource`. -/
def escapedTree : Tree :=
  .node ⟨.program, true, false, 0, 65, 0, 2, none, 0⟩ [
    .node ⟨.comment, true, false, 0, 47, 0, 0, none, 1⟩ [],
    .node ⟨.functionDeclaration, true, false, 48, 64, 1, 1, none, 2⟩ [
      .node ⟨.function, false, false, 48, 56, 1, 1, none, 3⟩ [],
      .node ⟨.identifier, true, false, 57, 58, 1, 1, some "name", 4⟩ [],
      .node ⟨.formalParameters, true, false, 58, 61, 1, 1, some "parameters", 5⟩ [
        .node ⟨.other "(", false, false, 58, 59, 1, 1, none, 6⟩ [],
        .node ⟨.identifier, true, false, 59, 60, 1, 1, none, 7⟩ [],
        .node ⟨.other ")", false, false, 60, 61, 1, 1, none, 8⟩ []],
      .node ⟨.statementBlock, true, false, 62, 64, 1, 1, some "body", 9⟩ [
        .node ⟨.other "\x7b", false, false, 62, 63, 1, 1, none, 10⟩ [],
        .node ⟨.other "\x7d", false, false, 63, 64, 1, 1, none, 11⟩ []]]]

/-- The output for `escapedSource`, with the character itself. -/
def escapedOutput : String :=
  "/** @injectable @dependency \x7bx = \"\\u2603\"\x7d a */\nfunction f(a) \x7b\x7d\nf.injectable = true;\n" ++
    "f.injectParams = \x7b\"a\": \x7b\"from\": \"x\", \"default\": \"☃\"\x7d\x7d;\n"

/-- The encoding of `escapedOutput`. -/
def escapedOutputBytes : Bytes :=
  [47, 42, 42, 32, 64, 105, 110, 106, 101, 99, 116, 97, 98, 108, 101, 32, 64, 100, 101, 112,
    101, 110, 100, 101, 110, 99, 121, 32, 123, 120, 32, 61, 32, 34, 92, 117, 50, 54, 48, 51,
    34, 125, 32, 97, 32, 42, 47, 10, 102, 117, 110, 99, 116, 105, 111, 110, 32, 102, 40, 97,
    41, 32, 123, 125, 10, 102, 46, 105, 110, 106, 101, 99, 116, 97, 98, 108, 101, 32, 61, 32,
    116, 114, 117, 101, 59, 10, 102, 46, 105, 110, 106, 101, 99, 116, 80, 97, 114, 97, 109,
    115, 32, 61, 32, 123, 34, 97, 34, 58, 32, 123, 34, 102, 114, 111, 109, 34, 58, 32, 34, 120,
    34, 44, 32, 34, 100, 101, 102, 97, 117, 108, 116, 34, 58, 32, 34, 226, 152, 131, 34, 125,
    125, 59, 10]

theorem encodeString_escapedSource : Utf8.encodeString escapedSource = escapedBytes :=
  (Utf8.encodeString_ofList _).trans rfl

theorem encodeString_escapedOutput : Utf8.encodeString escapedOutput = escapedOutputBytes :=
  (Utf8.encodeString_append (Utf8.encodeString_ofList _) (Utf8.encodeString_ofList _)).trans
    rfl

/-- A service that has been started, for files in an encoding. -/
def inCharset (encoding : String) : Service :=
  ⟨{ TransformSettings.default with encoding := encoding }, some Transform.oneGrammar, true⟩

/-- One file, with `escapedSource`. -/
def escapedFiles : Files := ⟨[(["d.js"], escapedBytes)], [], []⟩

/-- A host with the tree of the file, and its operating system. -/
def escapedHost (os : Refusals) : Host := { Host.common (fun _ _ => escapedTree) with os := os }

/-- The call on the file, in an encoding. -/
def escapedCall (os : Refusals) (encoding : String) : Files × Logged Failure Outcome :=
  (inCharset encoding).transformFile (escapedHost os) ⟨.none, ["d.js"]⟩ (some "javascript") true
    escapedFiles

/-- The file as a service sees it that can read it. -/
theorem previewFile_escaped {os : Refusals} {encoding : String}
    (hread : ((inCharset encoding).readText (escapedHost os) escapedFiles
      ⟨.none, ["d.js"]⟩).toOption.any (· = Text.ofString escapedSource) = true) :
    ∃ o, ((inCharset encoding).previewFile (escapedHost os) escapedFiles ⟨.none, ["d.js"]⟩
        (some "javascript")).result = .ok o ∧
      o.changed = true ∧ o.output = escapedOutput := by
  have hwf : escapedTree.WellFormed (Utf8.encodeString escapedSource) := by
    rw [encodeString_escapedSource]
    decide +kernel
  have hroot : Transform.tree (escapedHost os) Transform.oneGrammar
      (Utf8.encodeString escapedSource) "javascript" "d.js" = .ok escapedTree := by
    have herror : escapedTree.firstError? = none :=
      Option.isNone_iff_eq_none.1 (by decide +kernel)
    simp only [Transform.tree, Transform.grammar_javascript, escapedHost, Host.tree_common, herror]
  have hcheck : (Pass.run ⟨escapedBytes, .warn, "uid", 980⟩ escapedTree).result.toOption.any
      (Transform.yields escapedBytes escapedOutputBytes) = true := by
    decide +kernel
  rw [← encodeString_escapedSource, ← encodeString_escapedOutput] at hcheck
  obtain ⟨chs, -, htext⟩ := Transform.exists_text_of_yields (s := (inCharset encoding).settings)
    hroot hwf (by decide +kernel) hcheck
  obtain ⟨text, hsource, hsame⟩ := exists_of_toOption_any hread
  have hne : escapedOutput ≠ escapedSource := by decide +kernel
  refine ⟨⟨escapedSource, escapedOutput, "javascript", "d.js", Pass.records chs⟩, ?_,
    decide_eq_true hne, rfl⟩
  unfold previewFile
  simp only [Logged.result_bind_eq_ok_iff, Logged.result_ofExcept]
  refine ⟨Transform.oneGrammar, rfl, "javascript", rfl, Text.ofString escapedSource, ?_,
    escapedSource, ?_, ?_⟩
  · rw [hsource, of_decide_eq_true hsame]
  · rw [Utf8.string_ofString]
    rfl
  · unfold transformText
    rw [Logged.result_bind_eq_ok_iff]
    exact ⟨Transform.oneGrammar, rfl, htext⟩

theorem read_escaped : escapedFiles.read ⟨.none, ["d.js"]⟩ = .ok escapedBytes := by
  have hcheck : (escapedFiles.read ⟨.none, ["d.js"]⟩).toOption.any (· = escapedBytes) = true := by
    decide +kernel
  obtain ⟨bytes, hread, hsame⟩ := exists_of_toOption_any hcheck
  rw [hread, of_decide_eq_true hsame]

theorem codec_of_name {encoding : String} {c : Charset} (h : Charset.ofName? encoding = some c)
    (os : Refusals) : (inCharset encoding).codec (escapedHost os) = .ok c.codec := by
  have hcodecs : Charset.codecs encoding = .ok c.codec := by simp only [Charset.codecs, h]
  simp only [codec, inCharset, escapedHost, Host.common, hcodecs]
  rfl

/-- The call opens the file, in an encoding that can read it. -/
theorem opens_escaped {os : Refusals} {encoding : String} {c : Charset}
    (hread : ((inCharset encoding).readText (escapedHost os) escapedFiles
      ⟨.none, ["d.js"]⟩).toOption.any (· = Text.ofString escapedSource) = true)
    (hname : Charset.ofName? encoding = some c)
    (hopened : os.reason? .openToWrite ⟨.none, ["d.js"]⟩ = none) :
    ∃ o, Opens (escapedHost os) (inCharset encoding) ⟨.none, ["d.js"]⟩ (some "javascript")
      escapedFiles o c.codec ∧ o.output = escapedOutput := by
  obtain ⟨o, hpreview, hchanged, houtput⟩ := previewFile_escaped hread
  exact ⟨o, ⟨hpreview, hchanged, hopened, codec_of_name hname os⟩, houtput⟩

theorem encode_codec (c : Charset) (s : String) :
    c.codec.encode s = (c.encode s).mapError .encode := rfl

theorem encode_utf8_escaped :
    Charset.utf8.codec.encode escapedOutput = .ok escapedOutputBytes := by
  rw [encode_codec, Charset.encode, encodeString_escapedOutput]
  rfl

theorem encode_latin1_escaped :
    ∃ fault, Charset.latin1.codec.encode escapedOutput = .error (.encode fault) := by
  have hcheck : (Charset.latin1.encode escapedOutput).isOk = false := by decide +kernel
  cases hencode : Charset.latin1.encode escapedOutput with
  | ok bytes =>
      rw [hencode] at hcheck
      cases hcheck
  | error fault =>
      refine ⟨fault, ?_⟩
      rw [encode_codec, hencode]
      rfl

/-- A disk without room for more than four bytes. -/
def fullDisk : Refusals :=
  ⟨fun step _ => if step = .write then some "[Errno 28] No space left on device" else none,
    fun _ => false, fun _ bytes => bytes.take 4⟩

/-- What becomes of the file: it is written in an encoding that has the character, emptied in
another one, and cut off where there is no room for it. -/
theorem transformFile_of_escaped :
    (∃ o, (escapedCall .none "utf-8").2.result = .ok o ∧ o.output = escapedOutput ∧
      (escapedCall .none "utf-8").1.read ⟨.none, ["d.js"]⟩ = .ok escapedOutputBytes) ∧
    (∃ f, (escapedCall .none "latin-1").2.result = .error f ∧
      (escapedCall .none "latin-1").1.read ⟨.none, ["d.js"]⟩ ≠
        escapedFiles.read ⟨.none, ["d.js"]⟩) ∧
    ∃ f, (escapedCall fullDisk "utf-8").2.result = .error f ∧
      (escapedCall fullDisk "utf-8").1.read ⟨.none, ["d.js"]⟩ ≠
        escapedFiles.read ⟨.none, ["d.js"]⟩ := by
  have hkeeps := fun os encoding => transformFile_keeps_iff (escapedHost os) (inCharset encoding)
    ⟨.none, ["d.js"]⟩ (some "javascript") escapedFiles
  have hlost : ∀ os encoding, (inCharset encoding).loses (escapedHost os) escapedFiles
      ⟨.none, ["d.js"]⟩ (some "javascript") = true → ∃ f, (escapedCall os encoding).2.result =
        .error f ∧ (escapedCall os encoding).1.read ⟨.none, ["d.js"]⟩ ≠
          escapedFiles.read ⟨.none, ["d.js"]⟩ := by
    intro os encoding hloses
    obtain ⟨hiff, hfails, -⟩ := hkeeps os encoding
    obtain ⟨f, hf⟩ : ∃ f, (escapedCall os encoding).2.result = .error f := by
      have hlost := hfails hloses
      rw [← escapedCall] at hlost
      cases hresult : (escapedCall os encoding).2.result with
      | error f => exact ⟨f, rfl⟩
      | ok o =>
          rw [hresult] at hlost
          cases hlost
    refine ⟨f, hf, fun hsame => ?_⟩
    rw [(hiff f hf).1 hsame] at hloses
    cases hloses
  refine ⟨?_, hlost .none "latin-1" ?_, hlost fullDisk "utf-8" ?_⟩
  · obtain ⟨o, hopens, houtput⟩ := @opens_escaped .none "utf-8" .utf8 (by decide +kernel)
      (by decide +kernel) rfl
    have hencode : Charset.utf8.codec.encode o.output = .ok escapedOutputBytes := by
      rw [houtput, encode_utf8_escaped]
    have hfinal := hopens.final_of_written hencode rfl
    rw [Act.final] at hfinal
    obtain ⟨-, hresult⟩ := Prod.mk.inj hfinal
    have hwritten := (hkeeps .none "utf-8").2.2.1 o hresult
    rw [escapedCall]
    rw [if_pos hopens.changed] at hwritten
    obtain ⟨c, bytes, hcodec, hbytes, hread⟩ := hwritten
    obtain rfl := Except.ok.inj (hopens.codec.symm.trans hcodec)
    obtain rfl := Except.ok.inj (hencode.symm.trans hbytes)
    exact ⟨o, hresult, houtput, hread⟩
  · obtain ⟨o, hopens, houtput⟩ := @opens_escaped .none "latin-1" .latin1 (by decide +kernel)
      (by decide +kernel) rfl
    obtain ⟨fault, hencode⟩ := encode_latin1_escaped
    rw [hopens.loses_eq read_escaped, houtput, hencode]
    rfl
  · obtain ⟨o, hopens, houtput⟩ := @opens_escaped fullDisk "utf-8" .utf8 (by decide +kernel)
      (by decide +kernel) rfl
    have hcut : escapedOutputBytes.take 4 ≠ escapedBytes := by decide
    rw [hopens.loses_eq read_escaped, houtput, encode_utf8_escaped]
    exact decide_eq_true hcut

/-- The character that the encoding lacks costs the file its text. -/
theorem emptied_of_escaped :
    ∃ fault, (escapedCall .none "latin-1").2.result = .error (.encode fault) ∧
      escapedFiles.read ⟨.none, ["d.js"]⟩ = .ok escapedBytes ∧
      (escapedCall .none "latin-1").1.read ⟨.none, ["d.js"]⟩ = .ok [] := by
  obtain ⟨o, hopens, houtput⟩ := @opens_escaped .none "latin-1" .latin1 (by decide +kernel)
    (by decide +kernel) rfl
  obtain ⟨fault, hencode⟩ := encode_latin1_escaped
  rw [← houtput] at hencode
  have hfinal := hopens.final_of_refused hencode
  rw [Act.final] at hfinal
  obtain ⟨hfiles, hresult⟩ := Prod.mk.inj hfinal
  obtain ⟨names, old, -, hlocate⟩ := hopens.exists_locate
  rw [escapedCall, hfiles, hresult]
  refine ⟨fault, rfl, read_escaped, ?_⟩
  exact Files.read_write_self hlocate []

end Service
end Injection
