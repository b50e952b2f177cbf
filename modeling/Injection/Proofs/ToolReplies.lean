import Injection.Proofs.DirectoryFrame
import Injection.Service.Tools

/-!
# Service errors and the replies of tools

A tool answers for the service: a service error becomes a reply.  The tool for directories leaves
this to the run, which reports the errors of single files; what the run itself fails with goes
through.

* `loaded_after`: a service that has been started has its grammars, whatever came before.
* `result_answer`: a computation that is answered for fails with no service error.
* `outside_of_transformDirectory`: nor does a run over a directory, once the service has been
  started.
* **`tool_error_iff`**: so a service error escapes in one case alone, a directory on a service that
  is not started; all others are answered.
-/

namespace Injection

/-- A failure for which no service answers. -/
def Failure.IsOutside : Failure → Prop
  | .service _ => False
  | _ => True

/-! ## Paths and patterns -/

namespace Files

variable {fs : Files} {p : Path} {f : Failure}

/-- A path is refused for its length alone. -/
theorem outside_of_locate? (h : fs.locate? p = .error f) : f.IsOutside := by
  unfold locate? at h
  split at h
  · cases h
  · cases h
    trivial
  · cases h

theorem outside_of_isFile (h : fs.isFile p = .error f) : f.IsOutside := by
  rcases of_bind_eq_error h with h | ⟨place?, -, h⟩
  · exact outside_of_locate? h
  · split at h
    · cases h
    · cases h

theorem outside_of_isDirectory (h : fs.isDirectory p = .error f) : f.IsOutside := by
  rcases of_bind_eq_error h with h | ⟨place?, -, h⟩
  · exact outside_of_locate? h
  · split at h
    · cases h
    · cases h

end Files

namespace Refusals

variable {os : Refusals} {fs : Files} {p : Path} {f : Failure}

/-- What the operating system refuses is outside, too. -/
theorem outside_of_ask {α : Type} {step : Step} {x : Except Failure α}
    (hx : ∀ f, x = .error f → f.IsOutside) (h : os.ask step p x = .error f) : f.IsOutside := by
  unfold ask at h
  split at h
  · cases h
    trivial
  · exact hx f h

theorem outside_of_unlisted? {names : Names} (h : os.unlisted? p names = some f) :
    f.IsOutside := by
  induction names generalizing p with
  | nil =>
      unfold unlisted? at h
      split at h
      · cases h
      · cases hreason : os.reason? .scan p with
        | none =>
            rw [hreason] at h
            cases h
        | some reason =>
            rw [hreason] at h
            cases h
            trivial
  | cons name names ih =>
      unfold unlisted? at h
      split at h
      · cases h
      · cases hreason : os.reason? .scan p with
        | none =>
            rw [hreason] at h
            dsimp only at h
            split at h
            · cases h
              trivial
            · exact ih h
        | some reason =>
            rw [hreason] at h
            cases h
            trivial

theorem outside_of_list (h : os.list fs p = .error f) : f.IsOutside := by
  rcases of_bind_eq_error h with h | ⟨place?, -, h⟩
  · exact Files.outside_of_locate? h
  · split at h
    · split at h
      · next g hfound =>
          cases h
          obtain ⟨names, -, hunlisted⟩ := List.exists_of_findSome?_eq_some hfound
          exact outside_of_unlisted? hunlisted
      · cases h
    · cases h

end Refusals

namespace Path

variable {p : Path} {f : Failure}

theorem outside_of_fits {pattern : String} (h : p.fits pattern = .error f) : f.IsOutside := by
  unfold fits at h
  dsimp only at h
  split at h
  · cases h
    trivial
  · split at h
    · cases h
    · cases h

/-- A path is refused by a pattern without parts alone. -/
theorem outside_of_ignored {patterns : List String} (h : p.ignored patterns = .error f) :
    f.IsOutside := by
  induction patterns with
  | nil => cases h
  | cons pattern patterns ih =>
      rw [ignored] at h
      rcases of_bind_eq_error h with h | ⟨fit, -, h⟩
      · exact outside_of_fits h
      · split at h
        · cases h
        · split at h
          · cases h
          · exact ih h

end Path

namespace Service

variable {host : Host} {s : Service} {directory p : Path} {names : Names} {write : Bool}
  {fs fs' : Files} {todo : List Names} {f : Failure}

/-! ## Runs over directories -/

theorem outside_of_takes (h : s.takes host fs directory names = .error f) : f.IsOutside := by
  rcases of_bind_eq_error h with h | ⟨there, -, h⟩
  · exact Refusals.outside_of_ask (fun _ => Files.outside_of_isFile) h
  · split at h
    · cases h
    · rcases of_bind_eq_error h with h | ⟨hidden, -, h⟩
      · exact Path.outside_of_ignored h
      · split at h
        · cases h
        · cases h

/-- A service error of a file is reported. -/
theorem final_reportFile_of_service {e : ServiceError}
    (h : ((s.transformFile host.inner p none write).final fs).2 = .error (.service e)) :
    (s.reportFile host p write).final fs =
      (((s.transformFile host.inner p none write).final fs).1, .ok (.failed p.text e)) := by
  rw [final_reportFile, h]
  rfl

theorem outside_of_reportFile
    (h : (s.reportFile host p write).final fs = (fs', .error f)) : f.IsOutside := by
  cases hresult : ((s.transformFile host.inner p none write).final fs).2 with
  | ok o =>
      rw [final_reportFile, hresult] at h
      cases h
  | error g =>
      cases g with
      | service e =>
          rw [final_reportFile_of_service hresult] at h
          cases h
      | _ =>
          rw [final_reportFile, hresult] at h
          cases h <;> trivial

/-- A run over files ends with no service error. -/
theorem Passes.outside {result : Except Failure (List FileReport)}
    (h : Passes host s directory write fs todo fs' result) (hresult : result = .error f) :
    f.IsOutside := by
  induction h with
  | done fs => cases hresult
  | stuck htakes =>
      cases hresult
      exact outside_of_takes htakes
  | skipped htakes hrest ih => exact ih hresult
  | ended htakes hreport =>
      cases hresult
      exact outside_of_reportFile hreport
  | @reported _ _ _ _ _ _ result htakes hreport hrest ih =>
      cases result with
      | error g => exact ih hresult
      | ok reports => cases hresult

/-- A run over a directory has no service error, if the service has been started. -/
theorem outside_of_transformDirectory {r : Registry} (hregistry : s.registry = .ok r)
    (h : (s.transformDirectory host directory write fs).2.result = .error f) : f.IsOutside := by
  have hfinal : ((s.transformDirectory host directory write).final fs).2 = .error f := h
  rw [final_transformDirectory hregistry] at hfinal
  cases hlist : host.os.list fs directory with
  | error g =>
      rw [hlist] at hfinal
      cases hfinal
      exact Refusals.outside_of_list hlist
  | ok listed =>
      rw [hlist] at hfinal
      exact (passes_transformAll host s directory write fs listed).outside hfinal

/-- Without a registry a run is refused. -/
theorem result_transformDirectory_of_error (hregistry : s.registry = .error f) :
    (s.transformDirectory host directory write fs).2.result = .error f := by
  rw [transformDirectory, hregistry, Act.bind_run_error (e := f) rfl]

/-! ## Services that are started and stopped -/

/-- What is done to a service between calls of its tools. -/
inductive Event where
  | start (loader : Loader)
  | stop

/-- The service that an event leaves, whether or not it fails. -/
def Event.run (s : Service) : Event → Service
  | .start loader => (Service.start loader s).1
  | .stop => (Service.stop s).1

/-- The service after some events. -/
def after (s : Service) (events : List Event) : Service := events.foldl Event.run s

/-- A service that has been started has its grammars. -/
def Loaded (s : Service) : Prop := s.started = true → ∃ r, s.registry? = some r

theorem loaded_setup (loader : Loader) (s : Service) : (setup loader s).1.Loaded := by
  unfold setup
  rw [Act.bind_run_ok (a := s) rfl]
  dsimp only [Act.state_run]
  rw [Act.bind_run_ok (a := ⟨s.settings, Grammar.all.filter fun g => (loader g).isNone⟩) rfl]
  dsimp only [Act.ofLogged_run]
  rw [Act.bind_run_ok (a := ()) rfl]
  dsimp only [Act.change_run]
  -- The registry is stored before it is looked at.
  split
  · exact fun _ => ⟨_, rfl⟩
  · exact fun _ => ⟨_, rfl⟩

/-- A start ends as the setup ends, with the service that the setup leaves even if it fails. -/
theorem start_run (loader : Loader) (s : Service) :
    (Service.start loader s).1 = (if s.started then s else (setup loader s).1) ∧
      (Service.start loader s).2.result =
        if s.started then .ok () else (setup loader s).2.result := by
  unfold Service.start Lifecycle.start
  rw [Act.bind_run_ok (a := s) rfl]
  dsimp only [Act.state_run]
  cases s.started with
  | true => exact ⟨rfl, rfl⟩
  | false =>
      simp only [Bool.false_eq_true, if_false]
      rw [Act.bind_run_ok (a := ()) rfl]
      dsimp only
      cases hsetup : (setup loader s).2.result with
      | ok _ =>
          rw [Act.bind_run_ok (a := .ok ()) (congrArg Except.ok hsetup)]
          exact ⟨rfl, rfl⟩
      | error e =>
          rw [Act.bind_run_ok (a := .error e) (congrArg Except.ok hsetup)]
          dsimp only
          split <;> exact ⟨rfl, rfl⟩

theorem stop_run (s : Service) :
    (Service.stop s).1 = if s.started then ⟨s.settings, none, false⟩ else s := by
  unfold Service.stop Lifecycle.stop
  rw [Act.bind_run_ok (a := s) rfl]
  dsimp only [Act.state_run]
  cases s.started with
  | true => rfl
  | false => rfl

/-- **One event.** -/
theorem Loaded.run (h : s.Loaded) (event : Event) : (event.run s).Loaded := by
  cases event with
  | start loader =>
      rw [Event.run, (start_run loader s).1]
      split
      · exact h
      · exact loaded_setup loader s
  | stop =>
      rw [Event.run, stop_run]
      split
      · rintro ⟨⟩
      · exact h

theorem loaded_after (settings : TransformSettings) (events : List Event) :
    ((ofSettings settings).after events).Loaded := by
  induction events using List.reverseRecOn with
  | nil => rintro ⟨⟩
  | append_singleton events event ih =>
      rw [after, List.foldl_concat]
      exact ih.run event

/-- A service without a registry has not been started. -/
theorem registry_eq_error_iff (h : s.Loaded) {f : Failure} :
    s.registry = .error f ↔ s.started = false ∧ f = .service (.notInitialized name) := by
  unfold registry
  cases hstarted : s.started with
  | false => simp [eq_comm]
  | true =>
      obtain ⟨r, hr⟩ := h hstarted
      simp [hr]

/-! ## Tools -/

/-- What a tool answers for: service errors become replies, all else stays. -/
theorem result_answer {σ α : Type} {heading : String} {x : Act σ Failure α} {reply : α → Reply}
    {st : σ} :
    (answer heading x reply st).2.result =
      match (x st).2.result with
      | .ok a => .ok (reply a)
      | .error (.service e) => .ok (.failed e)
      | .error f => .error f := by
  unfold answer
  cases hresult : (x st).2.result with
  | ok a =>
      rw [Act.bind_run_ok (a := .ok a) (congrArg Except.ok hresult)]
      rfl
  | error f =>
      rw [Act.bind_run_ok (a := .error f) (congrArg Except.ok hresult)]
      cases f <;> rfl

theorem outside_of_answer {σ α : Type} {heading : String} {x : Act σ Failure α} {reply : α → Reply}
    {st : σ} (h : (answer heading x reply st).2.result = .error f) : f.IsOutside := by
  rw [result_answer] at h
  split at h
  · cases h
  · cases h
  · next g hother _ =>
      cases h
      cases f with
      | service e => exact hother e rfl
      | _ => trivial

/-- A call of a tool. -/
inductive ToolCall where
  | source (text language : String)
  | file (path : String) (language? : Option String) (write : Bool)
  | directory (path : String) (write : Bool)
  | languages

def ToolCall.run (host : Host) (s : Service) : ToolCall → Act Files Failure Reply
  | .source text language => s.sourceTool host text language
  | .file path language? write => s.fileTool host path language? write
  | .directory path write => s.directoryTool host path write
  | .languages => s.languagesTool

/-- The service fails with this error when it does the work of a call. -/
def ToolCall.Fails (host : Host) (s : Service) (fs : Files) (e : ServiceError) :
    ToolCall → Prop
  | .source text language =>
    (s.transformText host text language Transform.noFile).result = .error (.service e)
  | .file path language? write =>
    host.os.ask .look (Path.ofString path) (fs.isFile (Path.ofString path)) = .ok true ∧
    (s.transformFile host (Path.ofString path) language? write fs).2.result = .error (.service e)
  | .directory path write =>
    host.os.ask .look (Path.ofString path) (fs.isDirectory (Path.ofString path)) = .ok true ∧
    (s.transformDirectory host (Path.ofString path) write fs).2.result = .error (.service e)
  | .languages => False

/-- A value that tells of an error: its status, its code and its message. -/
def IsErrorOf (e : ServiceError) (j : Json) : Prop :=
  ∃ fields, j = .record fields ∧ ("status", .ofString "error") ∈ fields ∧
    ("error_code", .ofString e.report.code) ∈ fields ∧ ("error", .ofString e.message) ∈ fields

theorem isErrorOf_failed (e : ServiceError) : IsErrorOf e (Reply.failed e).toJson :=
  ⟨_, rfl, by simp, by simp, by simp [ServiceError.message]⟩

theorem isErrorOf_report (file : String) (e : ServiceError) :
    IsErrorOf e (FileReport.failed file e).toJson :=
  ⟨_, rfl, by simp, by simp, by simp [ServiceError.message]⟩

theorem result_fileTool {path : String} {language? : Option String} :
    (s.fileTool host path language? write fs).2.result =
      match host.os.ask .look (Path.ofString path) (fs.isFile (Path.ofString path)) with
      | .ok true => (answer s!"Error transforming {path}" (s.transformFile host (Path.ofString path)
          language? write) (fun o => .file o (write && o.changed)) fs).2.result
      | .ok false => .ok (.fileNotFound path)
      | .error f => .error f := by
  unfold fileTool
  rw [Act.bind_run_ok (a := fs) rfl]
  dsimp only [Act.state_run]
  cases hfile : host.os.ask .look (Path.ofString path) (fs.isFile (Path.ofString path)) with
  | error f => rw [Act.bind_run_error (e := f) rfl]
  | ok there =>
      rw [Act.bind_run_ok (a := there) rfl]
      cases there with
      | true => rfl
      | false => rfl

theorem result_directoryTool {path : String} :
    (s.directoryTool host path write fs).2.result =
      match host.os.ask .look (Path.ofString path) (fs.isDirectory (Path.ofString path)) with
      | .ok true =>
        (s.transformDirectory host (Path.ofString path) write fs).2.result.map .directory
      | .ok false => .ok (.directoryNotFound path)
      | .error f => .error f := by
  unfold directoryTool
  rw [Act.bind_run_ok (a := fs) rfl]
  dsimp only [Act.state_run]
  cases hdirectory : host.os.ask .look (Path.ofString path)
    (fs.isDirectory (Path.ofString path)) with
  | error f => rw [Act.bind_run_error (e := f) rfl]
  | ok there =>
      rw [Act.bind_run_ok (a := there) rfl]
      cases there with
      | false => rfl
      | true =>
          simp only [if_true, Act.ofExcept, Act.ofLogged_run]
          cases hresult : (s.transformDirectory host (Path.ofString path) write fs).2.result with
          | error f =>
              rw [Act.bind_run_error (e := f) hresult]
              rfl
          | ok reports =>
              rw [Act.bind_run_ok (a := reports) hresult]
              rfl

/-- A service error that escapes is that of a run over a directory. -/
theorem registry_of_escape {call : ToolCall} {e : ServiceError}
    (h : (call.run host s fs).2.result = .error (.service e)) :
    s.registry = .error (.service e) ∧
      ∃ path write, call = .directory path write ∧
        host.os.ask .look (Path.ofString path) (fs.isDirectory (Path.ofString path)) =
          .ok true := by
  cases call with
  | source text language =>
      rw [ToolCall.run, sourceTool] at h
      exact (outside_of_answer h).elim
  | languages => cases h
  | file path language? write =>
      rw [ToolCall.run, result_fileTool] at h
      split at h
      · exact (outside_of_answer h).elim
      · cases h
      · next f hfile =>
          cases h
          exact (Refusals.outside_of_ask (fun _ => Files.outside_of_isFile) hfile).elim
  | directory path write =>
      rw [ToolCall.run, result_directoryTool] at h
      split at h
      · next hdirectory =>
          refine ⟨?_, path, write, rfl, hdirectory⟩
          cases hresult : (s.transformDirectory host (Path.ofString path) write fs).2.result with
          | ok reports =>
              rw [hresult] at h
              cases h
          | error f =>
              rw [hresult] at h
              cases h
              -- A run with a registry has no service error, so there is none.
              cases hregistry : s.registry with
              | ok r => exact (outside_of_transformDirectory hregistry hresult).elim
              | error g =>
                  rw [result_transformDirectory_of_error hregistry] at hresult
                  cases hresult
                  rfl
      · cases h
      · next f hdirectory =>
          cases h
          exact (Refusals.outside_of_ask (fun _ => Files.outside_of_isDirectory) hdirectory).elim

/-- A directory that is there is not asked for when the service has not been started. -/
theorem escape_of_registry {path : String} (hregistry : s.registry = .error f)
    (hdirectory : host.os.ask .look (Path.ofString path) (fs.isDirectory (Path.ofString path)) =
      .ok true) :
    (s.directoryTool host path write fs).2.result = .error f := by
  rw [result_directoryTool, hdirectory]
  dsimp only
  rw [result_transformDirectory_of_error hregistry]
  rfl

/-- The other tools answer for the service. -/
theorem answered_of_fails {call : ToolCall} {e : ServiceError} (h : call.Fails host s fs e)
    (hcall : ∀ path write, call ≠ .directory path write) :
    (call.run host s fs).2.result = .ok (.failed e) := by
  cases call with
  | source text language =>
      have h : (Act.ofLogged (s.transformText host text language Transform.noFile) fs :
          Files × Logged Failure Outcome).2.result = .error (.service e) := h
      rw [ToolCall.run, sourceTool, result_answer, h]
  | file path language? write =>
      rw [ToolCall.run, result_fileTool, h.1]
      dsimp only
      rw [result_answer, h.2]
  | directory path write => exact absurd rfl (hcall path write)
  | languages => exact h.elim

/-- The reports of a reply on a directory are those of the run. -/
theorem reports_of_directoryTool {path : String} {reports : List FileReport}
    (h : (s.directoryTool host path write fs).2.result = .ok (.directory reports)) :
    (s.transformDirectory host (Path.ofString path) write fs).2.result = .ok reports := by
  rw [result_directoryTool] at h
  split at h
  · obtain ⟨reports', hrun, hreports⟩ := exists_of_map_eq_ok h
    cases hreports
    exact hrun
  · cases h
  · cases h

/-- A run that returns has a report on each file whose own call fails with a service error. -/
theorem failed_mem_of_own {folder : Names} {reports : List FileReport} {e : ServiceError}
    (htree : fs.IsTree) (hdirectory : fs.locate directory = .ok (.folder folder))
    (h : (s.transformDirectory host directory write fs).2.result = .ok reports)
    (hnames : names ∈ s.eligible host fs directory folder)
    (hown : (s.ownCall host directory write fs names).2 = .error (.service e)) :
    .failed (directory.append names).text e ∈ reports := by
  rcases final_transformDirectory_cases host s directory fs with
    ⟨result, hfinal, hnothing⟩ | ⟨r, folder', -, hdirectory', hfinal⟩
  · have hresult := (Prod.mk.inj (hfinal write)).2
    exact absurd hdirectory ((hnothing reports (hresult.symm.trans h)).2 folder)
  · rw [hdirectory] at hdirectory'
    cases hdirectory'
    have hpasses := passes_transformAll host s directory write fs
      (host.os.listed fs directory folder)
    rw [← hfinal write, Act.final, h] at hpasses
    obtain ⟨-, -, hall⟩ := hpasses.complete htree hdirectory
    obtain ⟨report, hmem, hreport⟩ := (exists_of_forall₂ hall).1 names hnames
    -- The run that returns has not found too little room for the call.
    rcases ownCall_inner host s directory write fs names with heq | ⟨n, heq⟩
    · rw [← heq, ownCall] at hown
      rw [final_reportFile_of_service hown] at hreport
      cases hreport
      exact hmem
    · rw [ownCall] at heq
      rw [final_reportFile, heq] at hreport
      cases (Prod.mk.inj hreport).2

/-- A service as it is after any number of starts and stops. -/
def Reachable (s : Service) : Prop := ∃ settings events, s = (ofSettings settings).after events

/-- **Service errors and tools**, for every service that can be reached.  A service error escapes
from a tool exactly when the service is not started and the tool is the one for directories, with a
directory that is there.  With any other tool a service error is answered by a value that tells of
it, and in the reply on a directory there is such a value for each file whose own call fails with a
service error. -/
theorem tool_error_iff (s : Service) (host : Host) (fs : Files) (hs : s.Reachable) :
    (∀ call e, (ToolCall.run host s call fs).2.result = .error (.service e) ↔
      (s.started = false ∧ e = .notInitialized name) ∧
        ∃ path write, call = .directory path write ∧
          host.os.ask .look (Path.ofString path) (fs.isDirectory (Path.ofString path)) =
            .ok true) ∧
    (∀ call e, ToolCall.Fails host s fs e call → (∀ path write, call ≠ .directory path write) →
      ∃ reply, (ToolCall.run host s call fs).2.result = .ok reply ∧ IsErrorOf e reply.toJson) ∧
    (fs.IsTree → ∀ path write folder reports,
      fs.locate (Path.ofString path) = .ok (.folder folder) →
      (ToolCall.run host s (.directory path write) fs).2.result = .ok (.directory reports) →
      ∀ names ∈ s.eligible host fs (Path.ofString path) folder, ∀ e,
        (s.ownCall host (Path.ofString path) write fs names).2 = .error (.service e) →
        ∃ report ∈ reports, report.file = ((Path.ofString path).append names).text ∧
          IsErrorOf e report.toJson) := by
  obtain ⟨settings, events, rfl⟩ := hs
  have hloaded := loaded_after settings events
  generalize (ofSettings settings).after events = s at hloaded
  refine ⟨fun call e => ⟨fun h => ?_, ?_⟩, fun call e hfails hcall => ?_, ?_⟩
  · obtain ⟨hregistry, hdirectory⟩ := registry_of_escape h
    obtain ⟨hstarted, herror⟩ := (registry_eq_error_iff hloaded).1 hregistry
    cases herror
    exact ⟨⟨hstarted, rfl⟩, hdirectory⟩
  · rintro ⟨⟨hstarted, rfl⟩, path, write, rfl, hdirectory⟩
    rw [ToolCall.run]
    exact escape_of_registry ((registry_eq_error_iff hloaded).2 ⟨hstarted, rfl⟩) hdirectory
  · exact ⟨_, answered_of_fails hfails hcall, isErrorOf_failed e⟩
  · intro htree path write folder reports hdirectory hreply names hnames e hown
    rw [ToolCall.run] at hreply
    exact ⟨.failed _ e, failed_mem_of_own htree hdirectory (reports_of_directoryTool hreply) hnames
      hown, rfl, isErrorOf_report _ e⟩

/-- A service that has been stopped refuses a text, and the tool tells of that. -/
theorem answered_of_stopped :
    ((ofSettings .default).after [.start fun _ => none, .stop]).Reachable ∧
    ∃ reply, (ToolCall.run sampleHost ((ofSettings .default).after [.start fun _ => none, .stop])
        (.source "" "javascript") Files.empty).2.result = .ok reply ∧
      IsErrorOf (.notInitialized name) reply.toJson := by
  have hs : ((ofSettings .default).after [.start fun _ => none, .stop]).Reachable := ⟨_, _, rfl⟩
  refine ⟨hs, (tool_error_iff _ sampleHost Files.empty hs).2.1 _ _ rfl ?_⟩
  rintro _ _ ⟨⟩

/-- **A tool that does not answer.**  With a service that has not been started, the tool for
directories fails with the error that the tool for texts answers. -/
theorem escape_of_unstarted :
    (ToolCall.run sampleHost (ofSettings .default) (.directory "." false) Files.empty).2.result =
      .error (.service (.notInitialized name)) ∧
    (ToolCall.run sampleHost (ofSettings .default) (.source "" "javascript")
      Files.empty).2.result = .ok (.failed (.notInitialized name)) := ⟨rfl, rfl⟩

end Service
end Injection
