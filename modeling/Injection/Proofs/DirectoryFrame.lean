import Injection.Proofs.Isolation
import Injection.Proofs.PathPatterns

/-!
# What a run over a directory leaves alone

Here nothing is assumed of the settings, so a run may end early in any way that there is.

* `Passes`: all that a run can do with the files that are left, one constructor for each way in
  which it deals with the next one; `passes_transformAll` is the induction on these files.
* `Passes.frame`: a run touches the files that it wants, and no others.
* `Passes.returned`: a run that returns has made one report for each file that it wants, that of the
  file's own call.
* `Exempt`: the places that a run has to leave alone.
* **`transformDirectory_frame`**: it does, and whether it takes a file depends on the names below
  the directory alone.
-/

namespace Injection

namespace Service

variable {host : Host} {s : Service} {directory p : Path} {folder names : Names}
  {write : Bool} {language? : Option String} {fs fs' fs'' : Files} {todo : List Names}
  {result : Except Failure (List FileReport)}

/-! ## A single file -/

/-- The file that a report names. -/
def FileReport.file : FileReport → String
  | .success o => o.file
  | .failed file _ => file
  | .unreadable file _ => file

theorem file_of_previewFile {o : Outcome}
    (h : (s.previewFile host fs p language?).result = .ok o) : o.file = p.text := by
  unfold previewFile transformText at h
  simp only [Logged.result_bind_eq_ok_iff, Logged.result_ofExcept] at h
  obtain ⟨_, -, _, -, _, -, _, -, _, -, htext⟩ := h
  obtain ⟨_, _, _, _, -, -, -, -, rfl⟩ := Transform.text_eq_ok_iff.1 htext
  rfl

/-- A call that returns has the outcome that was foreseen. -/
theorem previewFile_of_transformFile {o : Outcome}
    (h : ((s.transformFile host p language? write).final fs).2 = .ok o) :
    (s.previewFile host fs p language?).result = .ok o := by
  cases write with
  | false => rwa [final_transformFile_false] at h
  | true =>
      have hrun := fileRun host s p language? fs
      rw [h] at hrun
      generalize ((s.transformFile host p language? true).final fs).1 = files at hrun
      cases hrun with
      | kept _ hpreview _ => exact hpreview
      | written _ _ _ hopens _ _ => exact hopens.preview

/-- A call on a file touches the bytes of that file, and nothing else. -/
theorem frame_transformFile (host : Host) (s : Service) (language? : Option String)
    (write : Bool) {bytes : Bytes} (hlocate : fs.locate p = .ok (.file names bytes)) :
    fs.Alike ((s.transformFile host p language? write).final fs).1 ∧
      ∀ place, place ≠ names →
        ((s.transformFile host p language? write).final fs).1.get? place = fs.get? place := by
  obtain ⟨bytes?, result, hacts⟩ := transformFile_acts host s language? write hlocate
  rw [hacts fs hlocate]
  cases bytes? with
  | none => exact ⟨.refl fs, fun _ _ => rfl⟩
  | some new =>
      have hget := Files.get?_of_locate hlocate
      have hplace : names ∈ fs.places :=
        Files.get?_isSome_iff.1 (Option.isSome_iff_exists.2 ⟨bytes, hget⟩)
      exact ⟨Files.alike_put hplace new, fun place hne => Files.get?_put_of_ne hne fs new⟩

/-- A report names its file. -/
theorem file_of_reportFile {report : FileReport}
    (h : (s.reportFile host p write).final fs = (fs', .ok report)) : report.file = p.text := by
  rw [final_reportFile] at h
  obtain ⟨-, h⟩ := Prod.mk.inj h
  cases hresult : ((s.transformFile host.inner p none write).final fs).2 with
  | ok o =>
      rw [hresult] at h
      cases h
      exact file_of_previewFile (previewFile_of_transformFile hresult)
  | error f =>
      rw [hresult] at h
      -- A failure that is not reported leaves no report to look at.
      cases f with
      | service e => cases h; rfl
      | decode fault => cases h; rfl
      | os reason => cases h; rfl
      | missing file => cases h; rfl
      | notDirectory file => cases h; rfl
      | isDirectory file => cases h; rfl
      | nameTooLong file => cases h; rfl
      | _ => cases h

/-! ## All that a run can do -/

/-- **What a run does** with the files that are left: the files that it leaves, and its result. -/
inductive Passes (host : Host) (s : Service) (directory : Path) (write : Bool) :
    Files → List Names → Files → Except Failure (List FileReport) → Prop where
  | done (fs : Files) : Passes host s directory write fs [] fs (.ok [])
  /-- The next file cannot be asked for. -/
  | stuck {fs : Files} {names : Names} {rest : List Names} {f : Failure}
      (htakes : s.takes host fs directory names = .error f) :
      Passes host s directory write fs (names :: rest) fs (.error f)
  /-- The next file is not taken. -/
  | skipped {fs fs' : Files} {names : Names} {rest : List Names}
      {result : Except Failure (List FileReport)}
      (htakes : s.takes host fs directory names = .ok false)
      (hrest : Passes host s directory write fs rest fs' result) :
      Passes host s directory write fs (names :: rest) fs' result
  /-- The failure of the next file is not reported. -/
  | ended {fs fs' : Files} {names : Names} {rest : List Names} {f : Failure}
      (htakes : s.takes host fs directory names = .ok true)
      (hreport : (s.reportFile host (directory.append names) write).final fs = (fs', .error f)) :
      Passes host s directory write fs (names :: rest) fs' (.error f)
  | reported {fs fs' fs'' : Files} {names : Names} {rest : List Names} {report : FileReport}
      {result : Except Failure (List FileReport)}
      (htakes : s.takes host fs directory names = .ok true)
      (hreport : (s.reportFile host (directory.append names) write).final fs = (fs', .ok report))
      (hrest : Passes host s directory write fs' rest fs'' result) :
      Passes host s directory write fs (names :: rest) fs'' (result.map (report :: ·))

theorem passes_transformAll (host : Host) (s : Service) (directory : Path) (write : Bool)
    (fs : Files) (todo : List Names) :
    Passes host s directory write fs todo ((s.transformAll host directory write todo).final fs).1
      ((s.transformAll host directory write todo).final fs).2 := by
  induction todo generalizing fs with
  | nil => exact .done fs
  | cons names todo ih =>
      cases htakes : s.takes host fs directory names with
      | error f =>
          rw [final_transformAll_stuck htakes]
          exact .stuck htakes
      | ok taken =>
          cases taken with
          | false =>
              rw [final_transformAll_skip htakes]
              exact .skipped htakes (ih fs)
          | true =>
              cases hreport : (s.reportFile host (directory.append names) write).final fs with
              | mk fs' answer =>
                  cases answer with
                  | error f =>
                      rw [final_transformAll_error htakes hreport]
                      exact .ended htakes hreport
                  | ok report =>
                      rw [final_transformAll_report htakes hreport]
                      exact .reported htakes hreport (ih fs')

/-- A run that does not write leaves all files alone. -/
theorem Passes.files_eq (h : Passes host s directory false fs todo fs' result) : fs' = fs := by
  have hcall : ∀ {fs fs' : Files} {names : Names} {answer : Except Failure FileReport},
      (s.reportFile host (directory.append names) false).final fs = (fs', answer) → fs' = fs := by
    intro fs fs' names answer hreport
    rw [final_reportFile, final_transformFile_false] at hreport
    exact (Prod.mk.inj hreport).1.symm
  induction h with
  | done fs => rfl
  | stuck htakes => rfl
  | skipped htakes hrest ih => exact ih
  | ended htakes hreport => exact hcall hreport
  | reported htakes hreport hrest ih => exact ih.trans (hcall hreport)

/-- A run over a directory is a run over the files that are listed below it, or it does nothing at
all. -/
theorem final_transformDirectory_cases (host : Host) (s : Service) (directory : Path)
    (fs : Files) :
    (∃ result, (∀ write, (s.transformDirectory host directory write).final fs = (fs, result)) ∧
      ∀ reports, result = .ok reports →
        reports = [] ∧ ∀ folder, fs.locate directory ≠ .ok (.folder folder)) ∨
    ∃ r folder, s.registry = .ok r ∧ fs.locate directory = .ok (.folder folder) ∧
      ∀ write, (s.transformDirectory host directory write).final fs =
        (s.transformAll host directory write (host.os.listed fs directory folder)).final fs := by
  cases hregistry : s.registry with
  | error f =>
      refine .inl ⟨.error f, fun write => ?_, by rintro _ ⟨⟩⟩
      rw [transformDirectory, hregistry, Act.final_bind_error (e := f) (t := fs) rfl]
  | ok r =>
      cases hlist : host.os.list fs directory with
      | error f =>
          refine .inl ⟨.error f, fun write => ?_, by rintro _ ⟨⟩⟩
          rw [final_transformDirectory hregistry, hlist]
      | ok listing =>
          by_cases hfolder : ∃ folder, fs.locate directory = .ok (.folder folder)
          · obtain ⟨folder, hfolder⟩ := hfolder
            obtain ⟨rfl, -⟩ := (Refusals.list_eq_ok_iff hfolder).1 hlist
            refine .inr ⟨r, folder, rfl, hfolder, fun write => ?_⟩
            rw [final_transformDirectory hregistry, hlist]
          · have hnone : ∀ folder, fs.locate directory ≠ .ok (.folder folder) :=
              fun folder h => hfolder ⟨folder, h⟩
            obtain rfl := Refusals.list_eq_nil hnone hlist
            refine .inl ⟨.ok [], fun write => ?_, ?_⟩
            · rw [final_transformDirectory hregistry, hlist]
              rfl
            · rintro _ ⟨⟩
              exact ⟨rfl, hnone⟩

/-! ## Files that a run wants -/

/-- Whether a file that is there is taken depends on its path alone. -/
theorem takes_of_isFile (hlook : host.os.reason? .look (directory.append names) = none)
    (hfile : fs.isFile (directory.append names) = .ok true) :
    s.takes host fs directory names =
      ((Path.mk .none names).ignored s.settings.ignorePatterns).map fun hidden =>
        !hidden && ((s.languageOf? (directory.append names).text).filter (!·.isEmpty)).isSome := by
  unfold takes
  simp only [Refusals.ask_of_none hlook, hfile, bind, Except.bind]
  cases (Path.mk .none names).ignored s.settings.ignorePatterns with
  | error f => rfl
  | ok hidden =>
      cases hidden with
      | true => rfl
      | false => rfl

/-- Whether a run takes a file with these names below its directory: no pattern hides it, and its
last name is in a supported language. -/
def picks (s : Service) (names : Names) : Bool :=
  decide (((Path.mk .none names).ignored s.settings.ignorePatterns).toOption = some false) &&
    ((s.languageOf? (names.getLastD "")).filter (!·.isEmpty)).isSome

/-- The places that a run over a directory has to leave alone. -/
inductive Exempt (s : Service) (fs : Files) (directory : Path) (place : Names) : Prop where
  /-- The place is not below the directory. -/
  | outside (h : ∀ folder names, fs.locate directory = .ok (.folder folder) →
      place ≠ folder ++ names)
  /-- No language with the extension of the last name has a grammar. -/
  | unsupported {name : String} (hname : place.getLast? = some name)
      (h : ∀ r, s.registry = .ok r → ∀ l ∈ r.settings.languages,
        lowerCase (Path.extension name) ∈ l.2 → r.isSupported l.1 = false)
  /-- Below the directory, a pattern stands for one of the names on the way to the place. -/
  | hidden {folder names : Names} {part pattern : String}
      (hfolder : fs.locate directory = .ok (.folder folder)) (hplace : place = folder ++ names)
      (hpart : part ∈ names) (hpattern : pattern ∈ s.settings.ignorePatterns)
      (hstands : Glob.Stands (Glob.read pattern) part.toList)

section Tree

variable (htree : fs.IsTree) (hdirectory : fs.locate directory = .ok (.folder folder))

include htree hdirectory

/-- A file below the directory is still there when others have been written. -/
theorem exists_locate_of_alike (halike : fs.Alike fs') (hbelow : names ∈ fs.below folder)
    (hfits : (directory.append names).text.utf8ByteSize ≤ Files.pathLimit) :
    ∃ bytes, fs'.locate (directory.append names) = .ok (.file (folder ++ names) bytes) := by
  have hplace := Files.mem_below.1 hbelow
  obtain ⟨old, hold⟩ := Files.exists_get?_of_mem hplace
  obtain ⟨new, hnew⟩ : ∃ new, fs'.get? (folder ++ names) = some new :=
    Files.exists_get?_of_mem (by rwa [halike.places])
  exact ⟨new, halike.locate (htree.locate_append hdirectory hbelow hold hfits) hnew⟩

/-- A file that can be asked for during a run has a path that can be opened, and could be asked for
before the run too. -/
theorem takes_of_takes (halike : fs.Alike fs') (hbelow : names ∈ fs.below folder) {taken : Bool}
    (h : s.takes host fs' directory names = .ok taken) :
    CanAsk host directory names ∧ s.wants directory names = taken ∧
      s.takes host fs directory names = .ok taken := by
  -- Whoever can ask for a file has a path that is not too long, and that path leads to the file as
  -- long as nothing but bytes has changed.
  have hask := canAsk_of_takes (htree.null_notMem_text hdirectory hbelow) h
  have hfile : ∀ {fs₁ : Files}, fs.Alike fs₁ → fs₁.isFile (directory.append names) = .ok true := by
    intro fs₁ halike₁
    obtain ⟨bytes, hlocate⟩ := exists_locate_of_alike htree hdirectory halike₁ hbelow hask.2
    rw [Files.isFile, Files.locate?, hlocate]
    rfl
  rw [takes_of_isFile hask.1 (hfile halike)] at h
  refine ⟨hask, ?_, by rw [takes_of_isFile hask.1 (hfile (.refl fs)), h]⟩
  unfold wants
  cases hidden : (Path.mk .none names).ignored s.settings.ignorePatterns with
  | error f =>
      rw [hidden] at h
      cases h
  | ok hidden' =>
      rw [hidden] at h
      cases h
      cases hidden' with
      | true => rfl
      | false => rfl

/-- **The frame of a run.**  A run changes the bytes of files that it wants, and nothing else. -/
theorem Passes.frame (halike : fs.Alike fs') (hbelow : ∀ n ∈ todo, n ∈ fs.below folder)
    (h : Passes host s directory write fs' todo fs'' result) :
    fs.Alike fs'' ∧ ∀ place, (∀ n ∈ todo, s.wants directory n = true → place ≠ folder ++ n) →
      fs''.get? place = fs'.get? place := by
  -- The call on a wanted file, whether it is reported or ends the run.
  have hcall : ∀ {fs₁ fs₂ : Files} {names : Names} {answer : Except Failure FileReport},
      fs.Alike fs₁ → names ∈ fs.below folder → s.takes host fs₁ directory names = .ok true →
      (s.reportFile host (directory.append names) write).final fs₁ = (fs₂, answer) →
      s.wants directory names = true ∧ fs.Alike fs₂ ∧
        ∀ place, place ≠ folder ++ names → fs₂.get? place = fs₁.get? place := by
    intro fs₁ fs₂ names answer halike₁ hnames htakes hreport
    obtain ⟨hask, hwants, -⟩ := takes_of_takes htree hdirectory halike₁ hnames htakes
    obtain ⟨bytes, hlocate⟩ := exists_locate_of_alike htree hdirectory halike₁ hnames hask.2
    rw [final_reportFile] at hreport
    obtain ⟨rfl, -⟩ := Prod.mk.inj hreport
    obtain ⟨halike₂, hsame⟩ := frame_transformFile host.inner s none write hlocate
    exact ⟨hwants, halike₁.trans halike₂, hsame⟩
  induction h with
  | done fs' => exact ⟨halike, fun _ _ => rfl⟩
  | stuck htakes => exact ⟨halike, fun _ _ => rfl⟩
  | skipped htakes hrest ih =>
      obtain ⟨hnext, hframe⟩ := ih halike fun n hn => hbelow n (List.mem_cons_of_mem _ hn)
      exact ⟨hnext, fun place hplace =>
        hframe place fun n hn => hplace n (List.mem_cons_of_mem _ hn)⟩
  | ended htakes hreport =>
      obtain ⟨hwants, hnext, hsame⟩ := hcall halike (hbelow _ List.mem_cons_self) htakes hreport
      exact ⟨hnext, fun place hplace => hsame place (hplace _ List.mem_cons_self hwants)⟩
  | reported htakes hreport hrest ih =>
      obtain ⟨hwants, hnext, hsame⟩ := hcall halike (hbelow _ List.mem_cons_self) htakes hreport
      obtain ⟨hlast, hframe⟩ := ih hnext fun n hn => hbelow n (List.mem_cons_of_mem _ hn)
      refine ⟨hlast, fun place hplace => ?_⟩
      exact (hframe place fun n hn => hplace n (List.mem_cons_of_mem _ hn)).trans
        (hsame place (hplace _ List.mem_cons_self hwants))

/-- **A run that returns** has made one report for each file that it wants, which is the report of
the file's own call, and leaves this file as that does. -/
theorem Passes.returned {done : List Names} {reports : List FileReport}
    (hreached : Reached (fun n => (s.ownCall host.inner directory write fs n).1) fs folder done fs')
    (hbelow : ∀ n ∈ todo, n ∈ fs.below folder) (hnodup : todo.Nodup) (hnew : ∀ n ∈ todo, n ∉ done)
    (h : Passes host s directory write fs' todo fs'' (.ok reports)) :
    Reached (fun n => (s.ownCall host.inner directory write fs n).1) fs folder
        (done ++ todo.filter (s.wants directory)) fs'' ∧
      (∀ n ∈ todo, s.takes host fs directory n = .ok (s.wants directory n)) ∧
      List.Forall₂ (fun n report => (s.reportFile host (directory.append n) write).final fs =
        ((s.ownCall host.inner directory write fs n).1, .ok report))
        (todo.filter (s.wants directory))
        reports := by
  generalize hresult : Except.ok reports = result at h
  -- The run stands where `Reached` says, whatever it does with the next file.
  induction h generalizing done reports with
  | done fs' =>
      cases hresult
      rw [List.filter_nil, List.append_nil]
      exact ⟨hreached, fun n hn => absurd hn List.not_mem_nil, .nil⟩
  | stuck htakes => cases hresult
  | ended htakes hreport => cases hresult
  | skipped htakes hrest ih =>
      obtain ⟨-, hwants, htaken⟩ := takes_of_takes htree hdirectory hreached.alike
        (hbelow _ List.mem_cons_self) htakes
      obtain ⟨hlast, hall, hreports⟩ := ih hreached
        (fun n hn => hbelow n (List.mem_cons_of_mem _ hn)) (List.nodup_cons.1 hnodup).2
        (fun n hn => hnew n (List.mem_cons_of_mem _ hn)) hresult
      rw [List.filter_cons_of_neg (by rw [hwants]; exact Bool.false_ne_true)]
      refine ⟨hlast, List.forall_mem_cons.2 ⟨?_, hall⟩, hreports⟩
      rw [htaken, hwants]
  | @reported fs₁ fs₂ fs₃ names rest report result htakes hreport hrest ih =>
      obtain ⟨reports', hreports', rfl⟩ := exists_of_map_eq_ok hresult.symm
      obtain ⟨hask, hwants, htaken⟩ := takes_of_takes htree hdirectory hreached.alike
        (hbelow names List.mem_cons_self) htakes
      obtain ⟨hanswer, hnext⟩ := hreached.step htree hdirectory
        (hbelow names List.mem_cons_self) (hnew names List.mem_cons_self) hask.2
      obtain ⟨hnames, hnodup⟩ := List.nodup_cons.1 hnodup
      -- The report is that of the own call, since the two calls answer the same.
      have hown : (s.reportFile host (directory.append names) write).final fs =
          ((s.ownCall host.inner directory write fs names).1, .ok report) := by
        rw [final_reportFile] at hreport ⊢
        obtain ⟨-, hreport⟩ := Prod.mk.inj hreport
        rw [hanswer] at hreport
        rw [← hreport]
        rfl
      have hfiles : fs₂ =
          ((s.transformFile host.inner (directory.append names) none write).final fs₁).1 := by
        rw [final_reportFile] at hreport
        exact (Prod.mk.inj hreport).1.symm
      rw [← hfiles] at hnext
      have hlater : ∀ n ∈ rest, n ∉ done ++ [names] := by
        intro n hn hmem
        rcases List.mem_append.1 hmem with hmem | hmem
        · exact hnew n (List.mem_cons_of_mem _ hn) hmem
        · rw [List.mem_singleton.1 hmem] at hn
          exact hnames hn
      obtain ⟨hlast, hall, hreports⟩ := ih hnext (fun n hn => hbelow n (List.mem_cons_of_mem _ hn))
        hnodup hlater hreports'.symm
      rw [List.filter_cons_of_pos hwants, List.append_cons]
      refine ⟨hlast, List.forall_mem_cons.2 ⟨?_, hall⟩, .cons hown hreports⟩
      rw [htaken, hwants]

/-- A run over all files below the directory that returns. -/
theorem Passes.complete {reports : List FileReport}
    (h : Passes host s directory write fs (host.os.listed fs directory folder) fs' (.ok reports)) :
    Reached (fun n => (s.ownCall host.inner directory write fs n).1) fs folder
        (s.eligible host fs directory folder) fs' ∧
      (∀ n ∈ host.os.listed fs directory folder,
        s.takes host fs directory n = .ok (s.wants directory n) ∧ CanAsk host directory n) ∧
      List.Forall₂ (fun n report => (s.reportFile host (directory.append n) write).final fs =
        ((s.ownCall host.inner directory write fs n).1, .ok report))
        (s.eligible host fs directory folder) reports := by
  have hbelow : ∀ n ∈ host.os.listed fs directory folder, n ∈ fs.below folder :=
    fun n hn => (Refusals.mem_listed.1 hn).1
  have hnodup : (host.os.listed fs directory folder).Nodup :=
    ((htree.pairwise_below folder).imp And.right).filter _
  obtain ⟨hreached, htakes, hall⟩ := h.returned htree hdirectory (.nil _ fs folder) hbelow hnodup
    fun n _ => List.not_mem_nil
  rw [List.nil_append] at hreached
  refine ⟨hreached, fun n hn => ⟨htakes n hn, ?_⟩, hall⟩
  exact (takes_of_takes htree hdirectory (.refl fs) (hbelow n hn) (htakes n hn)).1

/-- Its reports name the files that it wants. -/
theorem Passes.map_file {reports : List FileReport}
    (h : Passes host s directory write fs (host.os.listed fs directory folder) fs' (.ok reports)) :
    reports.map (·.file) = (s.eligible host fs directory folder).map
      fun n => (directory.append n).text := by
  obtain ⟨-, -, hall⟩ := h.complete htree hdirectory
  clear h
  generalize s.eligible host fs directory folder = wanted at hall
  induction hall with
  | nil => rfl
  | cons hreport _ ih => rw [List.map_cons, List.map_cons, file_of_reportFile hreport, ih]

/-- Whether a file is wanted depends on its names below the directory. -/
theorem wants_eq_picks (hbelow : names ∈ fs.below folder) :
    s.wants directory names = s.picks names := by
  obtain ⟨name, hlast⟩ : ∃ name, names.getLast? = some name := by
    cases h : names.getLast? with
    | none => exact absurd (List.getLast?_eq_none_iff.1 h) (htree.ne_nil_of_below hdirectory hbelow)
    | some name => exact ⟨name, rfl⟩
  have hlast' : (directory.append names).names.getLast? = some name := by
    rw [Path.append, List.getLast?_append, hlast]
    rfl
  rw [wants, picks, languageOf?_text (htree.plain_append hdirectory hbelow) hlast',
    List.getLastD_eq_getLast?, hlast]
  rfl

/-- A file at an exempt place is not wanted. -/
theorem Exempt.wants_eq_false {r : Registry} {place : Names}
    (hexempt : s.Exempt fs directory place) (hregistry : s.registry = .ok r)
    (hbelow : names ∈ fs.below folder) (hplace : place = folder ++ names) :
    s.wants directory names = false := by
  subst hplace
  have hplain := htree.plain_append hdirectory hbelow
  have hne := htree.ne_nil_of_below hdirectory hbelow
  unfold wants
  cases hexempt with
  | outside houtside => exact absurd rfl (houtside folder names hdirectory)
  | unsupported hname hlanguage =>
      have hlast : (directory.append names).names.getLast? = names.getLast? := by
        rw [Path.append, List.getLast?_append_of_ne_nil _ hne]
      rw [List.getLast?_append_of_ne_nil _ hne] at hname
      rw [languageOf?_eq_none hregistry hplain (hlast.trans hname) (hlanguage r hregistry)]
      exact Bool.and_false _
  | hidden hfolder hplace hpart hpattern hstands =>
      -- The path of the directory leads to one folder, so the names below it are the same.
      rw [hdirectory] at hfolder
      cases hfolder
      obtain rfl := List.append_cancel_left hplace
      rw [Bool.and_eq_false_iff]
      left
      cases hignored : (Path.mk .none names).ignored s.settings.ignorePatterns with
      | error f => rfl
      | ok b =>
          rw [Path.ignored_of_stands hpart hpattern hstands hignored]
          rfl

/-- No report names a file at an exempt place: its path leads to a file that is wanted. -/
theorem Exempt.not_named {r : Registry} {place : Names} {report : FileReport}
    {reports : List FileReport} (hexempt : s.Exempt fs directory place)
    (hregistry : s.registry = .ok r)
    (h : Passes host s directory write fs (host.os.listed fs directory folder) fs' (.ok reports))
    (hreport : report ∈ reports) (bytes : Bytes) :
    fs.locate (Path.ofString report.file) ≠ .ok (.file place bytes) := by
  intro hlocate
  obtain ⟨-, hasked, -⟩ := h.complete htree hdirectory
  have hfile : report.file ∈ reports.map (·.file) := List.mem_map_of_mem hreport
  rw [h.map_file htree hdirectory] at hfile
  obtain ⟨n, hn, htext⟩ := List.mem_map.1 hfile
  obtain ⟨hlisted, hwants⟩ := List.mem_filter.1 hn
  have hn := (Refusals.mem_listed.1 hlisted).1
  obtain ⟨old, hold⟩ := exists_locate_of_alike htree hdirectory (.refl fs) hn
    (hasked n hlisted).2.2
  rw [← htext, Path.ofString_text (htree.plain_append hdirectory hn), hold] at hlocate
  cases hlocate
  rw [hexempt.wants_eq_false htree hdirectory hregistry hn rfl] at hwants
  cases hwants

end Tree

/-- **The frame of a run over a directory**, for all settings and whether the run returns or fails.
Files at exempt places keep their bytes and no report names them, no file comes or goes, and a run
that does not write changes nothing.  The files that a run may touch are picked by their names below
the directory; the names that lead to the directory play no role.  A run that returns reports on
those of these files that are not in a folder that is passed over, in order. -/
theorem transformDirectory_frame (host : Host) (s : Service) (directory : Path) (write : Bool)
    (fs : Files) (htree : fs.IsTree) :
    (∀ place, s.Exempt fs directory place →
      (s.transformDirectory host directory write fs).1.get? place = fs.get? place ∧
      ∀ reports, (s.transformDirectory host directory write fs).2.result = .ok reports →
        ∀ report ∈ reports, ∀ bytes,
          fs.locate (Path.ofString report.file) ≠ .ok (.file place bytes)) ∧
    (∀ place, (∀ folder names, fs.locate directory = .ok (.folder folder) →
        place = folder ++ names → s.picks names = false) →
      (s.transformDirectory host directory write fs).1.get? place = fs.get? place) ∧
    fs.Alike (s.transformDirectory host directory write fs).1 ∧
    (write = false → (s.transformDirectory host directory write fs).1 = fs) ∧
    ∀ folder reports, fs.locate directory = .ok (.folder folder) →
      (s.transformDirectory host directory write fs).2.result = .ok reports →
      reports.map (·.file) = ((fs.below folder).filter fun names =>
        !host.os.hides directory names && s.picks names).map
          fun names => (directory.append names).text := by
  rcases final_transformDirectory_cases host s directory fs with
    ⟨result, hfinal, hnothing⟩ | ⟨r, folder, hregistry, hdirectory, hfinal⟩
  · obtain ⟨hfiles, hresult⟩ := Prod.mk.inj (hfinal write)
    rw [hfiles, hresult]
    refine ⟨fun place _ => ⟨rfl, fun reports hok => ?_⟩, fun _ _ => rfl, .refl fs, fun _ => rfl,
      fun folder reports hdirectory hok => absurd hdirectory ((hnothing reports hok).2 folder)⟩
    rw [(hnothing reports hok).1]
    exact fun report hreport => absurd hreport List.not_mem_nil
  · have hpasses := passes_transformAll host s directory write fs
      (host.os.listed fs directory folder)
    rw [← hfinal write, Act.final] at hpasses
    obtain ⟨halike, hframe⟩ := hpasses.frame htree hdirectory (.refl fs)
      fun n hn => (Refusals.mem_listed.1 hn).1
    refine ⟨fun place hexempt => ⟨?_, fun reports hok report hreport => ?_⟩, fun place hplace => ?_,
      halike, ?_, ?_⟩
    · refine hframe place fun n hn hwants hplace => ?_
      rw [hexempt.wants_eq_false htree hdirectory hregistry (Refusals.mem_listed.1 hn).1
        hplace] at hwants
      cases hwants
    · rw [hok] at hpasses
      exact hexempt.not_named htree hdirectory hregistry hpasses hreport
    · refine hframe place fun n hn hwants heq => ?_
      rw [wants_eq_picks htree hdirectory (Refusals.mem_listed.1 hn).1,
        hplace folder n hdirectory heq] at hwants
      cases hwants
    · rintro rfl
      exact hpasses.files_eq
    · intro folder' reports hdirectory' hok
      rw [hdirectory] at hdirectory'
      cases hdirectory'
      rw [hok] at hpasses
      rw [hpasses.map_file htree hdirectory]
      refine congrArg _ ?_
      rw [eligible, Refusals.listed, List.filter_filter]
      refine List.filter_congr fun n hn => ?_
      rw [wants_eq_picks htree hdirectory hn, Bool.and_comm]

/-- A run over a file that cannot be decoded and one that can be rewritten returns. -/
theorem exists_reports_sample :
    ∃ reports, ((inCharset "utf-8").transformDirectory sampleHost here true
        (sampleFiles [255])).2.result = .ok reports ∧
      ((inCharset "utf-8").transformDirectory sampleHost here true (sampleFiles [255])).1.get?
        ["b.js"] = some plainOutputBytes := by
  obtain ⟨fs', o, hplain, hbytes⟩ := ownCall_plain [255]
  have hends : ∀ n ∈ (inCharset "utf-8").eligible sampleHost (sampleFiles [255]) here [],
      endsRun ((inCharset "utf-8").ownCall sampleHost.inner here true (sampleFiles [255]) n).2 =
        false := by
    rw [eligible_sample]
    refine List.forall_mem_cons.2 ⟨by decide +kernel, List.forall_mem_singleton.2 ?_⟩
    rw [hplain]
    rfl
  obtain ⟨reports, hreports, -, hreached⟩ :=
    exists_reports_of_ownCalls true (setting_sample [255]) (isOpen_sample [255]) hends
  have hown := hreached.own_of_mem ["b.js"] (by rw [eligible_sample]; simp)
  rw [List.nil_append, hplain, hbytes] at hown
  exact ⟨reports, hreports, hown⟩

/-- A file in a folder that a pattern hides is left alone, while there are reports on the others. -/
theorem untouched_of_hidden :
    (sampleFiles [255]).IsTree ∧
    (inCharset "utf-8").Exempt (sampleFiles [255]) here ["dist", "c.js"] ∧
    ((inCharset "utf-8").transformDirectory sampleHost here true (sampleFiles [255])).1.get?
      ["dist", "c.js"] = some plainBytes ∧
    ∃ reports, ((inCharset "utf-8").transformDirectory sampleHost here true
        (sampleFiles [255])).2.result = .ok reports ∧
      reports.map (·.file) = ["a.js", "b.js"] := by
  have htree := (setting_sample [255]).isTree
  have hfolder : (sampleFiles [255]).locate here = .ok (.folder []) := rfl
  have hpattern : "dist" ∈ (inCharset "utf-8").settings.ignorePatterns := by decide
  have hstands : Glob.Stands (Glob.read "dist") "dist".toList := Glob.matchElements_iff.1 rfl
  have hexempt : (inCharset "utf-8").Exempt (sampleFiles [255]) here ["dist", "c.js"] :=
    .hidden hfolder (List.nil_append _).symm List.mem_cons_self hpattern hstands
  obtain ⟨hkept, -, -, -, hnamed⟩ := transformDirectory_frame sampleHost (inCharset "utf-8") here
    true (sampleFiles [255]) htree
  obtain ⟨reports, hreports, -⟩ := exists_reports_sample
  refine ⟨htree, hexempt, ?_, reports, hreports, ?_⟩
  · rw [(hkept _ hexempt).1]
    rfl
  · rw [hnamed [] reports hfolder hreports, below_sample]
    rfl

end Service
end Injection
