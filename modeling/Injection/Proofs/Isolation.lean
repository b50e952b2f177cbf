import Injection.Proofs.Calls

/-!
# Runs over directories

A run takes the eligible files of a directory in order.  What it does with one of them is compared
with the call that transforms this file alone, on the files as they were before the run (`ownCall`).
The run makes its calls from within, so these have room for one call less; where that matters, they
fail for the lack of room.

* `Reached`: where a run stands when it has dealt with some of the files; `Reached.step` is one call
  more.
* `DirectoryRun`: all that a run can do; `directoryRun_of_transformAll` is the induction on the
  files that are left.
* **`transformDirectory_isolates`**: a run reports on all eligible files, unless a call fails with a
  text that cannot be encoded, with a failure of the encoding as a whole or with values that are
  nested too deeply.  Such a failure ends the run.
-/

namespace Injection

/-- A path with patterns to ignore, all of which have parts, is ignored or not. -/
theorem Path.exists_ignored {patterns : List String} (p : Path)
    (h : ∀ pattern ∈ patterns, (Path.ofString pattern).parts ≠ []) :
    ∃ b, p.ignored patterns = .ok b := by
  induction patterns with
  | nil => exact ⟨false, rfl⟩
  | cons pattern patterns ih =>
      obtain ⟨rest, hrest⟩ := ih fun q hq => h q (List.mem_cons_of_mem pattern hq)
      have hparts : ¬(Path.ofString pattern).parts.isEmpty = true := by
        rw [List.isEmpty_iff]
        exact h pattern List.mem_cons_self
      obtain ⟨b, hfits⟩ : ∃ b, p.fits pattern = .ok b := by
        unfold Path.fits
        dsimp only
        rw [if_neg hparts]
        split
        · exact ⟨_, rfl⟩
        · exact ⟨_, rfl⟩
      simp only [ignored, hfits, hrest, bind, Except.bind]
      split
      · exact ⟨true, rfl⟩
      · split
        · exact ⟨true, rfl⟩
        · exact ⟨rest, rfl⟩

namespace Service

variable {host : Host} {s : Service} {p : Path} {language? : Option String} {fs : Files}

/-! ## Where a run stands -/

/-- Whether the result of a call ends the run in which it is made. -/
def endsRun : Except Failure Outcome → Bool
  | .error (.encode _) | .error (.codec _) | .error (.tooDeep _) => true
  | _ => false

/-- The report that a run makes of a call. -/
inductive Reports (file : String) : Except Failure Outcome → FileReport → Prop where
  | success (o : Outcome) : Reports file (.ok o) (.success o)
  | failed (e : ServiceError) : Reports file (.error (.service e)) (.failed file e)
  | undecodable (fault : DecodeFault) :
      Reports file (.error (.decode fault)) (.unreadable file fault.message)
  | refused (reason : String) : Reports file (.error (.os reason)) (.unreadable file reason)

/-- A failure that a file brings about is reported, or it ends the run. -/
theorem exists_reports_or_endsRun (file : String) {result : Except Failure Outcome}
    (h : ∀ f, result = .error f → f.OfFile) :
    (∃ report, Reports file result report) ∨
      ∃ f, result = .error f ∧ endsRun (.error f) = true := by
  cases result with
  | ok o => exact Or.inl ⟨_, .success o⟩
  | error f =>
      have hf := h f rfl
      cases f with
      | service e => exact Or.inl ⟨_, .failed e⟩
      | decode fault => exact Or.inl ⟨_, .undecodable fault⟩
      | os reason => exact Or.inl ⟨_, .refused reason⟩
      | encode fault => exact Or.inr ⟨_, rfl, rfl⟩
      | codec message => exact Or.inr ⟨_, rfl, rfl⟩
      | tooDeep n => exact Or.inr ⟨_, rfl, rfl⟩
      | _ => exact hf.elim

theorem Reports.endsRun_eq_false {file : String} {result : Except Failure Outcome}
    {report : FileReport} (h : Reports file result report) : endsRun result = false := by
  cases h with
  | success o => rfl
  | failed e => rfl
  | undecodable fault => rfl
  | refused reason => rfl

/-- Whether a run takes a file that is there. -/
def wants (s : Service) (directory : Path) (names : Names) : Bool :=
  decide (((Path.mk .none names).ignored s.settings.ignorePatterns).toOption = some false) &&
    ((s.languageOf? (directory.append names).text).filter (!·.isEmpty)).isSome

/-- The files of a directory that a run takes: those listed below it that are not ignored and are in
a supported language. -/
def eligible (host : Host) (s : Service) (fs : Files) (directory : Path) (folder : Names) :
    List Names :=
  (host.os.listed fs directory folder).filter (s.wants directory)

/-- The call that transforms a file of a directory alone: the files that it leaves, and its result.
-/
def ownCall (host : Host) (s : Service) (directory : Path) (write : Bool) (fs : Files)
    (names : Names) : Files × Except Failure Outcome :=
  (s.transformFile host (directory.append names) none write).final fs

/-- The files after a run has dealt with some of them: each one of these is as its own call leaves
it, and the others are as they were. -/
structure Reached (own : Names → Files) (fs : Files) (folder : Names) (done : List Names)
    (fs' : Files) : Prop where
  alike : fs.Alike fs'
  own_of_mem : ∀ names ∈ done, fs'.get? (folder ++ names) = (own names).get? (folder ++ names)
  same : ∀ place, (∀ names ∈ done, place ≠ folder ++ names) → fs'.get? place = fs.get? place

theorem Reached.nil (own : Names → Files) (fs : Files) (folder : Names) :
    Reached own fs folder [] fs :=
  ⟨.refl fs, fun _ h => absurd h List.not_mem_nil, fun _ _ => rfl⟩

/-- A directory with files in a known encoding, and a service that has been started. -/
structure Setting (host : Host) (s : Service) (fs : Files) (directory : Path) (folder : Names) :
    Prop where
  started : ∃ r, s.registry = .ok r
  encoding : ∃ c, s.codec host = .ok c
  clean : '\x00' ∉ s.settings.encoding.toList
  patterns : ∀ pattern ∈ s.settings.ignorePatterns, (Path.ofString pattern).parts ≠ []
  isTree : fs.IsTree
  isDirectory : fs.locate directory = .ok (.folder folder)

/-- Nothing is in the way of asking for a listed file: it may be looked at, and its path is not too
long. -/
def CanAsk (host : Host) (directory : Path) (names : Names) : Prop :=
  host.os.reason? .look (directory.append names) = none ∧
    (directory.append names).text.utf8ByteSize ≤ Files.pathLimit

/-- A directory whose folders can be listed, and whose listed files can be asked for. -/
structure IsOpen (host : Host) (fs : Files) (directory : Path) (folder : Names) : Prop where
  folders : ∀ names ∈ fs.foldersBelow folder, host.os.unlisted? directory names = none
  files : ∀ names ∈ host.os.listed fs directory folder, CanAsk host directory names

section Run

variable {directory : Path} {folder names : Names} {write : Bool} {fs' : Files}
  {done : List Names}

/-- **One step.**  A call on a file that the run has not dealt with answers as the own call of that
file does, and leaves the file as that does. -/
theorem Reached.step (htree : fs.IsTree) (hdirectory : fs.locate directory = .ok (.folder folder))
    (hreached : Reached (fun n => (s.ownCall host directory write fs n).1) fs folder done fs')
    (hbelow : names ∈ fs.below folder) (hnew : names ∉ done)
    (hfits : (directory.append names).text.utf8ByteSize ≤ Files.pathLimit) :
    ((s.transformFile host (directory.append names) none write).final fs').2 =
        (s.ownCall host directory write fs names).2 ∧
      Reached (fun n => (s.ownCall host directory write fs n).1) fs folder (done ++ [names])
        ((s.transformFile host (directory.append names) none write).final fs').1 := by
  have hplace := Files.mem_below.1 hbelow
  obtain ⟨old, hold⟩ := Files.exists_get?_of_mem hplace
  have hlocate := htree.locate_append hdirectory hbelow hold hfits
  have hother : ∀ n ∈ done, folder ++ names ≠ folder ++ n := by
    intro n hn heq
    rw [List.append_cancel_left heq] at hnew
    exact hnew hn
  -- The run has not come to this file, so the call finds what its own call finds.
  have hget : fs'.get? (folder ++ names) = some old := by rw [hreached.same _ hother, hold]
  have hlocate' := hreached.alike.locate hlocate hget
  obtain ⟨bytes?, result, hacts⟩ := transformFile_acts host s none write hlocate
  have hown : s.ownCall host directory write fs names =
      (bytes?.elim fs (fs.put (folder ++ names)), result) := hacts fs hlocate
  rw [hacts fs' hlocate', hown]
  refine ⟨rfl, ?_⟩
  cases bytes? with
  | none =>
      -- Nothing is written: the file is still as it was, and so its own call leaves it.
      refine ⟨hreached.alike, fun n hn => ?_, fun place hplace => hreached.same place fun n hn =>
        hplace n (List.mem_append_left _ hn)⟩
      rcases List.mem_append.1 hn with hn | hn
      · exact hreached.own_of_mem n hn
      · obtain rfl := List.mem_singleton.1 hn
        rw [hown]
        exact hget.trans hold.symm
  | some bytes =>
      have hthere : folder ++ names ∈ fs'.places := by rwa [hreached.alike.places]
      refine ⟨hreached.alike.trans (Files.alike_put hthere bytes), fun n hn => ?_,
        fun place hplace => ?_⟩
      · rcases List.mem_append.1 hn with hn | hn
        · rw [← hreached.own_of_mem n hn]
          exact Files.get?_put_of_ne (Ne.symm (hother n hn)) fs' bytes
        · obtain rfl := List.mem_singleton.1 hn
          rw [hown]
          exact (Files.get?_put_self fs' _ bytes).trans (Files.get?_put_self fs _ bytes).symm
      · rw [← hreached.same place fun n hn => hplace n (List.mem_append_left _ hn)]
        exact Files.get?_put_of_ne (hplace names (List.mem_append_right _ List.mem_cons_self)) fs'
          bytes

/-- A file below the directory is taken if it is wanted, whatever has been written. -/
theorem takes_eq (hset : s.Setting host fs directory folder) (halike : fs.Alike fs')
    (hbelow : names ∈ fs.below folder) (hask : CanAsk host directory names) :
    s.takes host fs' directory names = .ok (s.wants directory names) := by
  have hplace := Files.mem_below.1 hbelow
  obtain ⟨old, hold⟩ := Files.exists_get?_of_mem hplace
  have hlocate := hset.isTree.locate_append hset.isDirectory hbelow hold hask.2
  obtain ⟨new, hnew⟩ : ∃ new, fs'.get? (folder ++ names) = some new :=
    Files.exists_get?_of_mem (by rwa [halike.places])
  have hfile : fs'.isFile (directory.append names) = .ok true := by
    rw [Files.isFile, Files.locate?, halike.locate hlocate hnew]
    rfl
  -- Whether a file is ignored is asked of its names alone, and never fails for these patterns.
  obtain ⟨b, hignored⟩ := (Path.mk .none names).exists_ignored hset.patterns
  unfold takes wants
  simp only [Refusals.ask_of_none hask.1, hfile, hignored, bind, Except.bind]
  cases b with
  | true => rfl
  | false => rfl

/-- The files and the answer of a report. -/
theorem final_reportFile (host : Host) (s : Service) (p : Path) (write : Bool) (fs : Files) :
    (s.reportFile host p write).final fs =
      (((s.transformFile host.inner p none write).final fs).1,
        match ((s.transformFile host.inner p none write).final fs).2 with
        | .ok o => .ok (.success o)
        | .error f => (reportFailure p.text f).result) := by
  rw [reportFile, Act.final_bind_ok (Act.final_attempt _ _)]
  cases ((s.transformFile host.inner p none write).final fs).2 with
  | ok o => rfl
  | error f => rfl

/-- A file that cannot be asked for ends the run. -/
theorem final_transformAll_stuck {rest : List Names} {f : Failure}
    (h : s.takes host fs directory names = .error f) :
    (s.transformAll host directory write (names :: rest)).final fs = (fs, .error f) := by
  rw [transformAll, Act.final_bind_ok (a := fs) (t := fs) rfl, h,
    Act.final_bind_error (e := f) (t := fs) rfl]

/-- A run goes past a file that it does not take. -/
theorem final_transformAll_skip {rest : List Names}
    (h : s.takes host fs directory names = .ok false) :
    (s.transformAll host directory write (names :: rest)).final fs =
      (s.transformAll host directory write rest).final fs := by
  rw [transformAll, Act.final_bind_ok (a := fs) (t := fs) rfl, h,
    Act.final_bind_ok (a := false) (t := fs) rfl]
  simp only [Bool.false_eq_true, if_false]
  rw [Act.final_bind_ok (a := []) (t := fs) rfl]
  generalize hrest : (s.transformAll host directory write rest).final fs = final
  obtain ⟨fs', result⟩ := final
  cases result with
  | error f => rw [Act.final_bind_error hrest]
  | ok reports =>
      rw [Act.final_bind_ok hrest]
      rfl

/-- A run goes on behind a report. -/
theorem final_transformAll_report {rest : List Names} {report : FileReport}
    (h : s.takes host fs directory names = .ok true)
    (hreport : (s.reportFile host (directory.append names) write).final fs = (fs', .ok report)) :
    (s.transformAll host directory write (names :: rest)).final fs =
      (((s.transformAll host directory write rest).final fs').1,
        ((s.transformAll host directory write rest).final fs').2.map (report :: ·)) := by
  rw [transformAll, Act.final_bind_ok (a := fs) (t := fs) rfl, h,
    Act.final_bind_ok (a := true) (t := fs) rfl]
  simp only [if_true]
  rw [Act.final_bind_ok (a := [report]) (t := fs')
    (by rw [Act.final_bind_ok hreport]; rfl)]
  generalize hrest : (s.transformAll host directory write rest).final fs' = final
  obtain ⟨fs'', result⟩ := final
  cases result with
  | error f =>
      rw [Act.final_bind_error hrest]
      rfl
  | ok reports =>
      rw [Act.final_bind_ok hrest]
      rfl

/-- A report that fails ends the run. -/
theorem final_transformAll_error {rest : List Names} {f : Failure}
    (h : s.takes host fs directory names = .ok true)
    (hreport : (s.reportFile host (directory.append names) write).final fs = (fs', .error f)) :
    (s.transformAll host directory write (names :: rest)).final fs = (fs', .error f) := by
  rw [transformAll, Act.final_bind_ok (a := fs) (t := fs) rfl, h,
    Act.final_bind_ok (a := true) (t := fs) rfl]
  simp only [if_true]
  rw [Act.final_bind_error (e := f) (t := fs') (by rw [Act.final_bind_error hreport])]

theorem final_reportFile_of_reports {p : Path} {report : FileReport}
    (h : Reports p.text ((s.transformFile host.inner p none write).final fs).2 report) :
    (s.reportFile host p write).final fs =
      (((s.transformFile host.inner p none write).final fs).1, .ok report) := by
  rw [final_reportFile]
  generalize ((s.transformFile host.inner p none write).final fs).2 = result at h
  cases h with
  | success o => rfl
  | failed e => rfl
  | undecodable fault => rfl
  | refused reason => rfl

theorem final_reportFile_of_ends {p : Path} {f : Failure}
    (h : ((s.transformFile host.inner p none write).final fs).2 = .error f)
    (hends : endsRun (.error f) = true) :
    (s.reportFile host p write).final fs =
      (((s.transformFile host.inner p none write).final fs).1, .error f) := by
  rw [final_reportFile, h]
  cases f with
  | encode fault => rfl
  | codec message => rfl
  | tooDeep n => rfl
  | _ => cases hends

/-- **All that a run can do** with the files `todo` behind the files `done`: the files that it
leaves, and its result. -/
inductive DirectoryRun (file : Names → String) (own : Names → Files × Except Failure Outcome)
    (fs : Files) (folder : Names) (done todo : List Names) :
    Files × Except Failure (List FileReport) → Prop where
  /-- It reports on all of them. -/
  | returned (fs' : Files) (reports : List FileReport)
      (hreports : List.Forall₂ (fun n report => Reports (file n) (own n).2 report) todo
        reports)
      (hreached : Reached (fun n => (own n).1) fs folder (done ++ todo) fs') :
      DirectoryRun file own fs folder done todo (fs', .ok reports)
  /-- The first call whose failure is not reported ends it. -/
  | ended (fs' : Files) (before : List Names) (names : Names) (after : List Names) (f : Failure)
      (htodo : todo = before ++ names :: after)
      (hbefore : ∀ n ∈ before, endsRun (own n).2 = false)
      (hown : (own names).2 = .error f) (hends : endsRun (.error f) = true)
      (hreached : Reached (fun n => (own n).1) fs folder (done ++ (before ++ [names])) fs') :
      DirectoryRun file own fs folder done todo (fs', .error f)

/-- A run that has made a report goes on. -/
theorem DirectoryRun.cons {file : Names → String} {own : Names → Files × Except Failure Outcome}
    {todo : List Names} {report : FileReport} {final : Files × Except Failure (List FileReport)}
    (hreport : Reports (file names) (own names).2 report)
    (h : DirectoryRun file own fs folder (done ++ [names]) todo final) :
    DirectoryRun file own fs folder done (names :: todo)
      (final.1, final.2.map (report :: ·)) := by
  have hshift : ∀ later : List Names, done ++ [names] ++ later = done ++ names :: later :=
    fun later => (List.append_cons done names later).symm
  cases h with
  | returned fs' reports hreports hreached =>
      rw [hshift] at hreached
      exact .returned fs' (report :: reports) (.cons hreport hreports) hreached
  | ended fs' before n after f htodo hbefore hown hends hreached =>
      rw [hshift] at hreached
      refine .ended fs' (names :: before) n after f (by rw [htodo, List.cons_append]) ?_ hown hends
        hreached
      intro m hm
      rcases List.mem_cons.1 hm with rfl | hm
      · exact hreport.endsRun_eq_false
      · exact hbefore m hm

/-- A run returns exactly when no own call ends it. -/
theorem DirectoryRun.exists_ok_iff {file : Names → String}
    {own : Names → Files × Except Failure Outcome} {todo : List Names}
    {final : Files × Except Failure (List FileReport)}
    (h : DirectoryRun file own fs folder done todo final) :
    (∃ reports, final.2 = .ok reports) ↔ ∀ n ∈ todo, endsRun (own n).2 = false := by
  cases h with
  | returned fs' reports hreports hreached =>
      refine iff_of_true ⟨reports, rfl⟩ ?_
      clear hreached
      induction hreports with
      | nil => exact fun n hn => absurd hn List.not_mem_nil
      | cons hreport _ ih => exact List.forall_mem_cons.2 ⟨hreport.endsRun_eq_false, ih⟩
  | ended fs' before names after f htodo hbefore hown hends hreached =>
      refine iff_of_false (by rintro ⟨_, ⟨⟩⟩) fun hnone => ?_
      have hfalse := hnone names (by rw [htodo]; exact List.mem_append_right _ List.mem_cons_self)
      rw [hown, hends] at hfalse
      cases hfalse

/-- A run whose first own call ends it has dealt with that file alone. -/
theorem DirectoryRun.of_head_ends {file : Names → String}
    {own : Names → Files × Except Failure Outcome} {todo : List Names} {f : Failure}
    {final : Files × Except Failure (List FileReport)}
    (h : DirectoryRun file own fs folder done (names :: todo) final)
    (hown : (own names).2 = .error f) (hends : endsRun (.error f) = true) :
    final.2 = .error f ∧ Reached (fun n => (own n).1) fs folder (done ++ [names]) final.1 := by
  cases h with
  | returned fs' reports hreports hreached =>
      cases hreports with
      | cons hreport _ =>
          have hfalse := hreport.endsRun_eq_false
          rw [hown, hends] at hfalse
          cases hfalse
  | ended fs' before n after g htodo hbefore hg _ hreached =>
      cases before with
      | nil =>
          obtain ⟨rfl, rfl⟩ := List.cons.inj htodo
          rw [hown] at hg
          cases hg
          exact ⟨rfl, hreached⟩
      | cons m before =>
          obtain ⟨rfl, -⟩ := List.cons.inj htodo
          have hfalse := hbefore names List.mem_cons_self
          rw [hown, hends] at hfalse
          cases hfalse

/-- Calls that answer the same as others where they do not end the run can stand for these in a run
that returns. -/
theorem DirectoryRun.reports_of_ok {file : Names → String}
    {own own' : Names → Files × Except Failure Outcome} {todo : List Names} {fs' : Files}
    {reports : List FileReport} (hown : ∀ n, endsRun (own n).2 = false → own n = own' n)
    (h : DirectoryRun file own fs folder [] todo (fs', .ok reports)) :
    List.Forall₂ (fun n report => Reports (file n) (own' n).2 report) todo reports ∧
      Reached (fun n => (own' n).1) fs folder todo fs' := by
  cases h with
  | returned _ _ hreports hreached =>
      have hsame : ∀ n ∈ todo, own n = own' n := by
        intro n hn
        obtain ⟨report, -, hreport⟩ := (exists_of_forall₂ hreports).1 n hn
        exact hown n hreport.endsRun_eq_false
      constructor
      · refine hreports.imp fun n report hreport => ?_
        rwa [← hown n hreport.endsRun_eq_false]
      · refine ⟨hreached.alike, fun n hn => ?_, hreached.same⟩
        rw [hreached.own_of_mem n hn, hsame n hn]

/-- The run over a part of a listing. -/
theorem directoryRun_of_transformAll (hset : s.Setting host fs directory folder)
    {todo : List Names} (hbelow : ∀ names ∈ todo, names ∈ fs.below folder)
    (hask : ∀ names ∈ todo, CanAsk host directory names)
    (hnodup : todo.Nodup) (hnew : ∀ names ∈ todo, names ∉ done)
    (hreached : Reached (fun n => (s.ownCall host.inner directory write fs n).1) fs folder done
      fs') :
    DirectoryRun (fun n => (directory.append n).text) (s.ownCall host.inner directory write fs) fs
      folder done (todo.filter (s.wants directory))
      ((s.transformAll host directory write todo).final fs') := by
  -- By induction on the files that are left; `Reached` says where the run stands.
  induction todo generalizing done fs' with
  | nil =>
      refine .returned fs' [] .nil ?_
      rwa [List.filter_nil, List.append_nil]
  | cons names todo ih =>
      have hhead : names ∈ names :: todo := List.mem_cons_self
      have htail : ∀ n ∈ todo, n ∈ names :: todo := fun n hn => List.mem_cons_of_mem names hn
      obtain ⟨hnames, hnodup⟩ := List.nodup_cons.1 hnodup
      have htakes := takes_eq hset hreached.alike (hbelow names hhead) (hask names hhead)
      cases hwants : s.wants directory names with
      | false =>
          rw [hwants] at htakes
          rw [List.filter_cons_of_neg (by rw [hwants]; exact Bool.false_ne_true),
            final_transformAll_skip htakes]
          exact ih (fun n hn => hbelow n (htail n hn)) (fun n hn => hask n (htail n hn)) hnodup
            (fun n hn => hnew n (htail n hn)) hreached
      | true =>
          rw [hwants] at htakes
          rw [List.filter_cons_of_pos hwants]
          obtain ⟨hanswer, hnext⟩ := hreached.step hset.isTree hset.isDirectory
            (hbelow names hhead) (hnew names hhead) (hask names hhead).2
          -- The call fails with what its file brings about, and no other way.
          obtain ⟨r, hregistry⟩ := hset.started
          obtain ⟨c, hcodec⟩ := hset.encoding
          obtain ⟨old, hold⟩ := Files.exists_get?_of_mem (Files.mem_below.1 (hbelow names hhead))
          have hlocate := hset.isTree.locate_append hset.isDirectory (hbelow names hhead) hold
            (hask names hhead).2
          have hinner : s.codec host.inner = .ok c := hcodec
          rcases exists_reports_or_endsRun (directory.append names).text fun f hf =>
              ofFile_of_transformFile hlocate hinner hset.clean hregistry hf with
            ⟨report, hreport⟩ | ⟨f, hown, hends⟩
          · have hrun := hreport
            rw [← ownCall, ← hanswer] at hrun
            rw [final_transformAll_report htakes (final_reportFile_of_reports hrun)]
            refine DirectoryRun.cons hreport (ih (fun n hn => hbelow n (htail n hn))
              (fun n hn => hask n (htail n hn)) hnodup (fun n hn hmem => ?_) hnext)
            rcases List.mem_append.1 hmem with hmem | hmem
            · exact hnew n (htail n hn) hmem
            · rw [List.mem_singleton.1 hmem] at hn
              exact hnames hn
          · have hrun := hown
            rw [← ownCall, ← hanswer] at hrun
            rw [final_transformAll_error htakes (final_reportFile_of_ends hrun hends)]
            exact .ended _ [] names _ f rfl (fun n hn => absurd hn List.not_mem_nil) hown hends
              hnext

/-- A file that a run can ask for may be looked at, and its path is not too long. -/
theorem canAsk_of_takes {taken : Bool} (hclean : '\x00' ∉ (directory.append names).text.toList)
    (h : s.takes host fs directory names = .ok taken) : CanAsk host directory names := by
  unfold takes at h
  obtain ⟨b, hfile, -⟩ := bind_eq_ok_iff.1 h
  obtain ⟨hlook, hfile⟩ := Refusals.ask_eq_ok_iff.1 hfile
  exact ⟨hlook, Files.size_le_of_isFile hclean hfile⟩

/-- A run that returns has asked for every file. -/
theorem canAsk_of_transformAll {todo : List Names} {reports : List FileReport}
    (hclean : ∀ names ∈ todo, '\x00' ∉ (directory.append names).text.toList)
    (h : ((s.transformAll host directory write todo).final fs).2 = .ok reports) :
    ∀ names ∈ todo, CanAsk host directory names := by
  induction todo generalizing fs reports with
  | nil => exact fun names hnames => absurd hnames List.not_mem_nil
  | cons names todo ih =>
      have hrest := fun n hn => hclean n (List.mem_cons_of_mem names hn)
      obtain ⟨hask, tail⟩ : CanAsk host directory names ∧
          ∃ fs' reports', ((s.transformAll host directory write todo).final fs').2 =
            .ok reports' := by
        cases htakes : s.takes host fs directory names with
        | error f =>
            rw [final_transformAll_stuck htakes] at h
            cases h
        | ok taken =>
            refine ⟨canAsk_of_takes (hclean names List.mem_cons_self) htakes, ?_⟩
            cases taken with
            | false =>
                rw [final_transformAll_skip htakes] at h
                exact ⟨fs, reports, h⟩
            | true =>
                cases hreport : (s.reportFile host (directory.append names) write).final fs with
                | mk fs' result =>
                    cases result with
                    | error f =>
                        rw [final_transformAll_error htakes hreport] at h
                        cases h
                    | ok report =>
                        rw [final_transformAll_report htakes hreport] at h
                        obtain ⟨reports', hreports', -⟩ := exists_of_map_eq_ok h
                        exact ⟨fs', reports', hreports'⟩
      obtain ⟨fs', reports', htail⟩ := tail
      intro n hn
      rcases List.mem_cons.1 hn with rfl | hn
      · exact hask
      · exact ih hrest htail n hn

/-- A run over a directory is a run over its listing. -/
theorem final_transformDirectory {r : Registry} (hregistry : s.registry = .ok r) :
    (s.transformDirectory host directory write).final fs =
      match host.os.list fs directory with
      | .ok listing => (s.transformAll host directory write listing).final fs
      | .error f => (fs, .error f) := by
  rw [transformDirectory, hregistry, Act.final_bind_ok (a := r) (t := fs) rfl,
    Act.final_bind_ok (a := fs) (t := fs) rfl]
  cases hlist : host.os.list fs directory with
  | error f => rw [Act.final_bind_error (e := f) (t := fs) rfl]
  | ok listing => rw [Act.final_bind_ok (a := listing) (t := fs) rfl]

/-- **The run over a directory** that is open. -/
theorem directoryRun (write : Bool) (hset : s.Setting host fs directory folder)
    (hopen : IsOpen host fs directory folder) :
    DirectoryRun (fun n => (directory.append n).text) (s.ownCall host.inner directory write fs) fs
      folder [] (s.eligible host fs directory folder)
      ((s.transformDirectory host directory write).final fs) := by
  have hlist : host.os.list fs directory = .ok (host.os.listed fs directory folder) :=
    (Refusals.list_eq_ok_iff hset.isDirectory).2 ⟨rfl, hopen.folders⟩
  have hnodup : (host.os.listed fs directory folder).Nodup :=
    ((hset.isTree.pairwise_below folder).imp And.right).filter _
  obtain ⟨r, hregistry⟩ := hset.started
  rw [final_transformDirectory hregistry, hlist]
  exact directoryRun_of_transformAll hset (fun names hnames => (Refusals.mem_listed.1 hnames).1)
    hopen.files hnodup (fun names _ => List.not_mem_nil) (.nil _ fs folder)

/-- An open directory is what a run that returns needs. -/
theorem isOpen_of_transformDirectory {reports : List FileReport}
    (hset : s.Setting host fs directory folder)
    (h : ((s.transformDirectory host directory write).final fs).2 = .ok reports) :
    IsOpen host fs directory folder := by
  obtain ⟨r, hregistry⟩ := hset.started
  rw [final_transformDirectory hregistry] at h
  cases hlist : host.os.list fs directory with
  | error f =>
      rw [hlist] at h
      cases h
  | ok listing =>
      rw [hlist] at h
      obtain ⟨rfl, hfolders⟩ := (Refusals.list_eq_ok_iff hset.isDirectory).1 hlist
      refine ⟨hfolders, canAsk_of_transformAll (fun names hnames => ?_) h⟩
      exact hset.isTree.null_notMem_text hset.isDirectory (Refusals.mem_listed.1 hnames).1

theorem mem_eligible (host : Host) (s : Service) (fs : Files) (directory : Path)
    (folder names : Names) :
    names ∈ s.eligible host fs directory folder ↔
      (fs.get? (folder ++ names)).isSome = true ∧ host.os.hides directory names = false ∧
      (Path.mk .none names).ignored s.settings.ignorePatterns = .ok false ∧
      ∃ language, s.languageOf? (directory.append names).text = some language ∧ language ≠ "" := by
  have hignored : ((Path.mk .none names).ignored s.settings.ignorePatterns).toOption = some false ↔
      (Path.mk .none names).ignored s.settings.ignorePatterns = .ok false := by
    cases (Path.mk .none names).ignored s.settings.ignorePatterns with
    | error f => exact iff_of_false (by rintro ⟨⟩) (by rintro ⟨⟩)
    | ok b => simp [Except.toOption]
  rw [eligible, List.mem_filter, Refusals.mem_listed, Files.mem_below, Files.get?_isSome_iff, wants,
    Bool.and_eq_true, decide_eq_true_eq, hignored, and_assoc]
  refine and_congr_right fun _ => and_congr_right fun _ => and_congr_right fun _ => ?_
  cases s.languageOf? (directory.append names).text with
  | none => simp
  | some language => simp [Option.filter]

/-- A call that is made from within a run does what it does on its own, unless it ends the run. -/
theorem ownCall_inner (host : Host) (s : Service) (directory : Path) (write : Bool) (fs : Files)
    (names : Names) :
    s.ownCall host.inner directory write fs names = s.ownCall host directory write fs names ∨
      ∃ n, s.ownCall host.inner directory write fs names = (fs, .error (.tooDeep n)) :=
  final_transformFile_inner host s (directory.append names) none write fs

theorem ownCall_inner_of_not_ends
    (h : endsRun (s.ownCall host.inner directory write fs names).2 = false) :
    s.ownCall host.inner directory write fs names = s.ownCall host directory write fs names := by
  rcases ownCall_inner host s directory write fs names with heq | ⟨n, heq⟩
  · exact heq
  · rw [heq] at h
    cases h

/-- A run over an open directory returns if none of its calls ends it. -/
theorem exists_reports_of_ownCalls (write : Bool) (hset : s.Setting host fs directory folder)
    (hopen : IsOpen host fs directory folder)
    (hends : ∀ n ∈ s.eligible host fs directory folder,
      endsRun (s.ownCall host.inner directory write fs n).2 = false) :
    ∃ reports, (s.transformDirectory host directory write fs).2.result = .ok reports ∧
      List.Forall₂ (fun n report => Reports (directory.append n).text
        (s.ownCall host.inner directory write fs n).2 report) (s.eligible host fs directory folder)
        reports ∧
      Reached (fun n => (s.ownCall host.inner directory write fs n).1) fs folder
        (s.eligible host fs directory folder)
        (s.transformDirectory host directory write fs).1 := by
  have hrun := directoryRun write hset hopen
  obtain ⟨reports, hreports⟩ := hrun.exists_ok_iff.2 hends
  rw [Act.final] at hrun hreports
  dsimp only at hreports
  rw [hreports] at hrun
  exact ⟨reports, hreports, hrun.reports_of_ok fun _ _ => rfl⟩

end Run

/-! ## Two directories -/

/-- A function without parameters. -/
def plainSource : String := "/** @injectable */\nfunction g() \x7b\x7d\n"

/-- The encoding of `plainSource`. -/
def plainBytes : Bytes :=
  [47, 42, 42, 32, 64, 105, 110, 106, 101, 99, 116, 97, 98, 108, 101, 32, 42, 47, 10, 102, 117,
    110, 99, 116, 105, 111, 110, 32, 103, 40, 41, 32, 123, 125, 10]

/-- The tree of `plainSource`. -/
def plainTree : Tree :=
  .node ⟨.program, true, false, 0, 35, 0, 2, none, 0⟩ [
    .node ⟨.comment, true, false, 0, 18, 0, 0, none, 1⟩ [],
    .node ⟨.functionDeclaration, true, false, 19, 34, 1, 1, none, 2⟩ [
      .node ⟨.function, false, false, 19, 27, 1, 1, none, 3⟩ [],
      .node ⟨.identifier, true, false, 28, 29, 1, 1, some "name", 4⟩ [],
      .node ⟨.formalParameters, true, false, 29, 31, 1, 1, some "parameters", 5⟩ [
        .node ⟨.other "(", false, false, 29, 30, 1, 1, none, 6⟩ [],
        .node ⟨.other ")", false, false, 30, 31, 1, 1, none, 7⟩ []],
      .node ⟨.statementBlock, true, false, 32, 34, 1, 1, some "body", 8⟩ [
        .node ⟨.other "\x7b", false, false, 32, 33, 1, 1, none, 9⟩ [],
        .node ⟨.other "\x7d", false, false, 33, 34, 1, 1, none, 10⟩ []]]]

/-- What becomes of `plainSource`. -/
def plainOutput : String := "/** @injectable */\nfunction g() \x7b\x7d\ng.injectable = true;\n"

/-- The encoding of `plainOutput`. -/
def plainOutputBytes : Bytes :=
  [47, 42, 42, 32, 64, 105, 110, 106, 101, 99, 116, 97, 98, 108, 101, 32, 42, 47, 10, 102, 117,
    110, 99, 116, 105, 111, 110, 32, 103, 40, 41, 32, 123, 125, 10, 103, 46, 105, 110, 106, 101,
    99, 116, 97, 98, 108, 101, 32, 61, 32, 116, 114, 117, 101, 59, 10]

/-- A function with a default that is half a character; its tree is `escapedTree`. -/
def halfSource : String :=
  "/** @injectable @dependency \x7bx = \"\\ud800\"\x7d a */\nfunction f(a) \x7b\x7d\n"

/-- The encoding of `halfSource`. -/
def halfBytes : Bytes :=
  [47, 42, 42, 32, 64, 105, 110, 106, 101, 99, 116, 97, 98, 108, 101, 32, 64, 100, 101, 112, 101,
    110, 100, 101, 110, 99, 121, 32, 123, 120, 32, 61, 32, 34, 92, 117, 100, 56, 48, 48, 34, 125,
    32, 97, 32, 42, 47, 10, 102, 117, 110, 99, 116, 105, 111, 110, 32, 102, 40, 97, 41, 32, 123,
    125, 10]

theorem encodeString_plainSource : Utf8.encodeString plainSource = plainBytes :=
  (Utf8.encodeString_ofList _).trans rfl

theorem encodeString_plainOutput : Utf8.encodeString plainOutput = plainOutputBytes :=
  (Utf8.encodeString_ofList _).trans rfl

theorem encodeString_halfSource : Utf8.encodeString halfSource = halfBytes :=
  (Utf8.encodeString_ofList _).trans rfl

/-- Two files with functions, of which the first one is given, and one in a folder that is ignored.
-/
def sampleFiles (first : Bytes) : Files :=
  ⟨[(["a.js"], first), (["b.js"], plainBytes), (["dist", "c.js"], plainBytes)], [], []⟩

/-- A host with the trees of the files. -/
def sampleHost : Host := .common fun _ source =>
  if source = plainBytes then plainTree else escapedTree

/-- The current directory. -/
def here : Path := ⟨.none, []⟩

theorem setting_sample (first : Bytes) :
    (inCharset "utf-8").Setting sampleHost (sampleFiles first) here [] := by
  have htree : (sampleFiles []).IsTree := by decide
  have halike : (sampleFiles []).Alike (sampleFiles first) := ⟨rfl, rfl, rfl⟩
  exact ⟨⟨Transform.oneGrammar, rfl⟩, ⟨Charset.utf8.codec, rfl⟩, by decide, by decide,
    halike.isTree htree, rfl⟩

theorem below_sample (first : Bytes) :
    (sampleFiles first).below [] = [["a.js"], ["b.js"], ["dist", "c.js"]] := by
  show ([["a.js"], ["b.js"], ["dist", "c.js"]] : List Names).mergeSort Files.namesLe = _
  exact List.mergeSort_of_pairwise (by decide)

theorem listed_sample (first : Bytes) :
    sampleHost.os.listed (sampleFiles first) here [] = [["a.js"], ["b.js"], ["dist", "c.js"]] := by
  rw [Refusals.listed, below_sample]
  rfl

theorem isOpen_sample (first : Bytes) : IsOpen sampleHost (sampleFiles first) here [] := by
  have hfolders : (sampleFiles first).foldersBelow [] = [[], [], [], ["dist"]] := rfl
  constructor
  · rw [hfolders]
    decide
  · rw [listed_sample]
    have hfits : ∀ names ∈ [["a.js"], ["b.js"], ["dist", "c.js"]],
        (here.append names).text.utf8ByteSize ≤ Files.pathLimit := by decide
    exact fun names hnames => ⟨rfl, hfits names hnames⟩

theorem eligible_sample (first : Bytes) :
    (inCharset "utf-8").eligible sampleHost (sampleFiles first) here [] =
      [["a.js"], ["b.js"]] := by
  rw [eligible, listed_sample]
  rfl

/-- A file with encoded text is transformed as that text is. -/
theorem result_previewFile {r : Registry} {c : Codec} {names : Names} {bytes : Bytes}
    {language source : String} (hos : host.os = .none) (hregistry : s.registry = .ok r)
    (hlanguage : s.fileLanguage p language? = .ok language)
    (hlocate : fs.locate p = .ok (.file names bytes))
    (hsize : s.checkSize p.text bytes.length = .ok ())
    (hclean : s.settings.encoding.toList.contains '\x00' = false)
    (hcodec : s.codec host = .ok c) (hdecode : c.decode bytes = .ok (Text.ofString source)) :
    (s.previewFile host fs p language?).result =
      (Transform.text host r s.settings source language p.text).result := by
  have hread : s.readText host fs p = .ok (Text.ofString source) := by
    refine readText_eq_ok_iff.2 ⟨_, bytes, c, ?_, hsize, hclean, ?_, hcodec, ?_⟩
    · rw [hos, Files.size, hlocate]
      rfl
    · rw [hos, Files.read, hlocate]
      rfl
    · rw [hos, hdecode]
      rfl
  unfold previewFile transformText
  rw [hregistry, hlanguage, hread]
  simp only [Logged.result_bind, Logged.result_ofExcept, Except.bind, Utf8.string_ofString,
    Except.mapError]

/-- The encoding of a text is that text. -/
theorem decode_utf8_encodeString (source : String) :
    Charset.utf8.codec.decode (Utf8.encodeString source) = .ok (Text.ofString source) := by
  show ((Utf8.decode (Utf8.encodeChars source.toList)).map Text.ofChars).mapError _ = _
  rw [Utf8.decode_encodeChars]
  rfl

theorem previewFile_plain (first : Bytes) :
    ∃ o, ((inCharset "utf-8").previewFile sampleHost.inner (sampleFiles first) ⟨.none, ["b.js"]⟩
        none).result = .ok o ∧ o.changed = true ∧ o.output = plainOutput := by
  have hlocate : (sampleFiles first).locate ⟨.none, ["b.js"]⟩ =
      .ok (.file ["b.js"] (Utf8.encodeString plainSource)) := by
    rw [encodeString_plainSource]
    rfl
  have hsize : (inCharset "utf-8").checkSize "b.js" (Utf8.encodeString plainSource).length =
      .ok () := by
    rw [encodeString_plainSource]
    rfl
  have hlanguage : (inCharset "utf-8").fileLanguage ⟨.none, ["b.js"]⟩ none = .ok "javascript" := rfl
  have hpreview : ((inCharset "utf-8").previewFile sampleHost.inner (sampleFiles first)
      ⟨.none, ["b.js"]⟩ none).result = _ :=
    result_previewFile rfl rfl hlanguage hlocate hsize rfl rfl (decode_utf8_encodeString _)
  have herror : plainTree.firstError?.isNone = true := rfl
  have hroot : Transform.tree sampleHost.inner Transform.oneGrammar (Utf8.encodeString plainSource)
      "javascript" "b.js" = .ok plainTree := by
    rw [encodeString_plainSource]
    simp only [Transform.tree, Transform.grammar_javascript, sampleHost, Host.inner,
      Host.tree_common, if_true, Option.isNone_iff_eq_none.1 herror]
  have hwf : plainTree.WellFormed (Utf8.encodeString plainSource) := by
    rw [encodeString_plainSource]
    decide
  have hyields : (Pass.run ⟨plainBytes, .warn, "uid", 979⟩ plainTree).result.toOption.any
      (Transform.yields plainBytes plainOutputBytes) = true := by
    decide +kernel
  rw [← encodeString_plainSource, ← encodeString_plainOutput] at hyields
  obtain ⟨chs, -, htext⟩ := Transform.exists_text_of_yields
    (s := (inCharset "utf-8").settings) hroot hwf (by decide) hyields
  have hne : plainOutput ≠ plainSource := by simp [plainOutput, plainSource]
  exact ⟨_, hpreview.trans htext, decide_eq_true hne, rfl⟩

/-- The call on the second file writes its new text. -/
theorem ownCall_plain (first : Bytes) :
    ∃ fs' o, (inCharset "utf-8").ownCall sampleHost.inner here true (sampleFiles first) ["b.js"] =
        (fs', .ok o) ∧ fs'.get? ["b.js"] = some plainOutputBytes := by
  obtain ⟨o, hpreview, hchanged, houtput⟩ := previewFile_plain first
  have hencode : Charset.utf8.codec.encode o.output = .ok plainOutputBytes := by
    rw [houtput, encode_codec, Charset.encode, encodeString_plainOutput]
    rfl
  have hlocate : (sampleFiles first).locate ⟨.none, ["b.js"]⟩ = .ok (.file ["b.js"] plainBytes) :=
    rfl
  have hpath : here.append ["b.js"] = ⟨.none, ["b.js"]⟩ := rfl
  have hopens : Opens sampleHost.inner (inCharset "utf-8") ⟨.none, ["b.js"]⟩ none
      (sampleFiles first) o Charset.utf8.codec := ⟨hpreview, hchanged, rfl, rfl⟩
  rw [ownCall, hpath, hopens.final_of_written hencode rfl, Files.write_write_eq_put hlocate]
  exact ⟨_, o, rfl, Files.get?_put_self _ _ _⟩

/-- On its own it does so, too. -/
theorem ownCall_plain_alone (first : Bytes) :
    ∃ fs' o, (inCharset "utf-8").ownCall sampleHost here true (sampleFiles first) ["b.js"] =
        (fs', .ok o) ∧ fs'.get? ["b.js"] = some plainOutputBytes := by
  obtain ⟨fs', o, hown, hbytes⟩ := ownCall_plain first
  refine ⟨fs', o, ?_, hbytes⟩
  rw [← ownCall_inner_of_not_ends (by rw [hown]; rfl), hown]

/-- A transform whose edits cannot be applied fails as that does. -/
theorem text_eq_error_of_apply {r : Registry} {settings : TransformSettings}
    {source language file : String} {root : Tree} {chs : List Change} {f : Failure}
    (hroot : Transform.tree host r (Utf8.encodeString source) language file = .ok root)
    (hrun : (Pass.run (Transform.context host.depth settings source) root).result = .ok chs)
    (happly : Edit.apply (Utf8.encodeString source) (Pass.edits chs) = .error f) :
    (Transform.text host r settings source language file).result = .error f := by
  unfold Transform.text
  dsimp only
  rw [hroot, Logged.result_bind, Logged.result_ofExcept]
  change (Pass.run (Transform.context host.depth settings source) root >>= _).result = _
  rw [Logged.result_bind, hrun]
  simp only [Except.bind]
  rw [happly, Logged.result_bind]
  rfl

/-- A single edit whose text cannot be encoded is not applied. -/
theorem apply_singleton_eq_error {source : Bytes} {e : Edit} {fault : EncodeFault}
    (hstart : 0 ≤ e.start) (hencode : Utf8.encode e.text = .error fault) :
    Edit.apply source [e] = .error (.encode fault) := by
  rw [Edit.apply, Edit.ordered, List.mergeSort_singleton, Edit.applyFrom,
    if_neg (Int.not_lt.2 hstart), hencode]

/-- The call on the first file fails: half a character has no encoding. -/
theorem ownCall_half :
    ∃ fs' fault, (inCharset "utf-8").ownCall sampleHost.inner here true (sampleFiles halfBytes)
      ["a.js"] = (fs', .error (.encode fault)) := by
  have hlocate : (sampleFiles halfBytes).locate ⟨.none, ["a.js"]⟩ =
      .ok (.file ["a.js"] (Utf8.encodeString halfSource)) := by
    rw [encodeString_halfSource]
    rfl
  have hsize : (inCharset "utf-8").checkSize "a.js" (Utf8.encodeString halfSource).length =
      .ok () := by
    rw [encodeString_halfSource]
    rfl
  have hlanguage : (inCharset "utf-8").fileLanguage ⟨.none, ["a.js"]⟩ none = .ok "javascript" := rfl
  have hpreview : ((inCharset "utf-8").previewFile sampleHost.inner (sampleFiles halfBytes)
      ⟨.none, ["a.js"]⟩ none).result = _ :=
    result_previewFile rfl rfl hlanguage hlocate hsize rfl rfl (decode_utf8_encodeString _)
  have herror : escapedTree.firstError?.isNone = true := rfl
  have hother : halfBytes ≠ plainBytes := by decide
  have hroot : Transform.tree sampleHost.inner Transform.oneGrammar (Utf8.encodeString halfSource)
      "javascript" "a.js" = .ok escapedTree := by
    rw [encodeString_halfSource]
    simp only [Transform.tree, Transform.grammar_javascript, sampleHost, Host.inner,
      Host.tree_common, if_neg hother, Option.isNone_iff_eq_none.1 herror]
  have hcheck : (Pass.run ⟨halfBytes, .warn, "uid", 979⟩ escapedTree).result.toOption.any
      (fun chs => (Pass.edits chs).length = 1 &&
        (Pass.edits chs).all fun e =>
          decide (0 ≤ e.start) && !(Utf8.encode e.text).isOk) = true := by
    decide +kernel
  rw [← encodeString_halfSource] at hcheck
  obtain ⟨chs, hrun, hedits⟩ := exists_of_toOption_any hcheck
  obtain ⟨hone, hall⟩ := Bool.and_eq_true_iff.1 hedits
  obtain ⟨e, he⟩ := List.length_eq_one_iff.1 (of_decide_eq_true hone)
  rw [he, List.all_cons, List.all_nil, Bool.and_true] at hall
  obtain ⟨hstart, hrefused⟩ := Bool.and_eq_true_iff.1 hall
  have hpath : here.append ["a.js"] = ⟨.none, ["a.js"]⟩ := rfl
  cases hencode : Utf8.encode e.text with
  | ok bytes =>
      rw [hencode] at hrefused
      cases hrefused
  | error fault =>
      have happly : Edit.apply (Utf8.encodeString halfSource) (Pass.edits chs) =
          .error (.encode fault) := by
        rw [he]
        exact apply_singleton_eq_error (of_decide_eq_true hstart) hencode
      have htext : (Transform.text sampleHost.inner Transform.oneGrammar
          (inCharset "utf-8").settings halfSource "javascript" "a.js").result =
            .error (.encode fault) := text_eq_error_of_apply hroot hrun happly
      refine ⟨sampleFiles halfBytes, fault, ?_⟩
      rw [ownCall, hpath, final_transformFile, hpreview.trans htext]

end Service
end Injection
