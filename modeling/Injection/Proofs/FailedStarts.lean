import Injection.Proofs.ToolReplies

/-!
# What a failed start leaves behind

A start loads the grammars first and looks whether there are any behind that.  So a start that fails
leaves a registry without grammars, and a stop does not take it away, since there is nothing to
stop.  What a service answers depends on the phase that it is in, and the phase on the starts and
stops alone.

* `after_eq_service`: starts and stops move a service from phase to phase.
* `start_error_iff`: a start fails unless the service runs or some grammar can be loaded.
* **`failed_start_answers`**: a failed start changes nothing of what a service tells about itself
  and about languages.  Of files it knows nothing more: the answer stays for those of no language,
  and for all files if the start before it failed too.
-/

namespace Injection

/-- The grammars that can be loaded. -/
def Loader.grammars (loader : Loader) : List Grammar :=
  Grammar.all.filter fun g => (loader g).isNone

theorem Loader.grammars_eq_nil_iff (loader : Loader) :
    loader.grammars = [] ↔ ∀ g, (loader g).isSome = true := by
  rw [grammars, List.filter_eq_nil_iff]
  constructor
  · intro h g
    have hg : g ∈ Grammar.all := by cases g <;> decide
    simpa [Option.isSome_iff_ne_none] using h g hg
  · intro h g _
    simpa [Option.isSome_iff_ne_none] using h g

namespace Service

/-! ## Phases -/

/-- What starts and stops have made of a service. -/
inductive Phase where
  /-- The service has not been started yet, or it has been stopped since. -/
  | idle
  /-- The last start failed. -/
  | failed
  /-- The service runs with these grammars. -/
  | running (grammars : List Grammar)
deriving DecidableEq

namespace Phase

/-- A start does nothing to a service that runs, and a stop nothing to one that does not. -/
def next : Phase → Event → Phase
  | .running grammars, .start _ => .running grammars
  | .running _, .stop => .idle
  | _, .start loader => if loader.grammars = [] then .failed else .running loader.grammars
  | p, .stop => p

/-- The phase behind starts and stops. -/
def behind (events : List Event) : Phase := events.foldl next .idle

/-- The service in a phase. -/
def service (settings : TransformSettings) : Phase → Service
  | .idle => ⟨settings, none, false⟩
  | .failed => ⟨settings, some ⟨settings, []⟩, false⟩
  | .running grammars => ⟨settings, some ⟨settings, grammars⟩, true⟩

theorem started_service (settings : TransformSettings) {p : Phase} :
    (p.service settings).started = true ↔ ∃ grammars, p = .running grammars := by
  cases p with
  | idle => simp [service]
  | failed => simp [service]
  | running grammars => simp [service]

end Phase

/-! ## Starts -/

variable {settings : TransformSettings} {loader : Loader} {s : Service} {p : Phase}

/-- The registry is there before anyone looks whether it holds a grammar. -/
theorem setup_run (loader : Loader) (s : Service) :
    (setup loader s).1 = ⟨s.settings, some ⟨s.settings, loader.grammars⟩,
        if loader.grammars = [] then s.started else true⟩ ∧
      (setup loader s).2.result =
        if loader.grammars = [] then .error (.service (.initialization name "No languages loaded"))
        else .ok () := by
  unfold setup
  rw [Act.bind_run_ok (a := s) rfl, Act.bind_run_ok (a := ⟨s.settings, loader.grammars⟩) rfl,
    Act.bind_run_ok (a := ()) rfl]
  cases hgrammars : loader.grammars with
  | nil => exact ⟨rfl, rfl⟩
  | cons g gs => exact ⟨rfl, rfl⟩

theorem start_error_iff {f : Failure} :
    (Service.start loader s).2.result = .error f ↔ s.started = false ∧ loader.grammars = [] ∧
      f = .service (.initialization name "No languages loaded") := by
  rw [(start_run loader s).2, (setup_run loader s).2]
  cases s.started with
  | true => simp
  | false =>
      by_cases hgrammars : loader.grammars = []
      · simp [hgrammars, eq_comm]
      · simp [hgrammars]

/-- **One event.** -/
theorem run_service (settings : TransformSettings) (p : Phase) (event : Event) :
    event.run (p.service settings) = (p.next event).service settings := by
  cases event with
  | start loader =>
      rw [Event.run, (start_run loader _).1, (setup_run loader _).1]
      by_cases hgrammars : loader.grammars = []
      · cases p <;> simp [Phase.service, Phase.next, hgrammars]
      · cases p <;> simp [Phase.service, Phase.next, hgrammars]
  | stop =>
      rw [Event.run, stop_run]
      cases p <;> rfl

/-- **Any number of events.** -/
theorem after_eq_service (settings : TransformSettings) (events : List Event) :
    (ofSettings settings).after events = (Phase.behind events).service settings := by
  induction events using List.reverseRecOn with
  | nil => rfl
  | append_singleton events event ih =>
      rw [after, List.foldl_concat, ← after, ih, run_service, Phase.behind, Phase.behind,
        List.foldl_concat]

/-! ## Answers -/

/-- Without grammars no name is supported. -/
theorem isSupported_of_not_running (h : (p.service settings).started = false) (language : String) :
    (p.service settings).isSupported language = false := by
  cases p with
  | idle => rfl
  | failed => rfl
  | running grammars => cases h

theorem languages_of_not_running (h : (p.service settings).started = false) :
    (p.service settings).languages = [] := by
  cases p with
  | idle => rfl
  | failed => simp [Phase.service, languages, Registry.languages]
  | running grammars => cases h

/-- A registry without grammars knows the language of no file. -/
theorem languageOf?_failed (settings : TransformSettings) (path : String) :
    ((Phase.failed).service settings).languageOf? path = none := by
  simp [Phase.service, languageOf?, Registry.languageOf?, Registry.isSupported, Registry.grammar?]

/-- A start that fails leads to the phase of failed starts. -/
theorem start_of_error {f : Failure}
    (h : (Service.start loader (p.service settings)).2.result = .error f) :
    (Service.start loader (p.service settings)).1 = Phase.failed.service settings := by
  obtain ⟨hstarted, hgrammars, -⟩ := start_error_iff.1 h
  rw [(start_run loader _).1, hstarted, (setup_run loader _).1, hstarted]
  cases p <;> simp [Phase.service, hgrammars]

/-- **Failed starts.**  Behind any starts and stops, a start fails if and only if the service does
not run and no grammar can be loaded.  It changes neither whether the service runs nor what it
answers about languages.  From then on no file has a language, which is what the service answered
before if the start before it failed too, and for files that have no language by the settings. -/
theorem failed_start_answers (settings : TransformSettings) (events : List Event)
    (loader : Loader) :
    let before := (ofSettings settings).after events
    let behind := (Service.start loader before).1
    (∀ f, (Service.start loader before).2.result = .error f ↔
        (¬ ∃ grammars, Phase.behind events = .running grammars) ∧
          (∀ g, (loader g).isSome = true) ∧
          f = .service (.initialization name "No languages loaded")) ∧
      ((∃ f, (Service.start loader before).2.result = .error f) →
        behind.started = before.started ∧
        (∀ language, behind.isSupported language = before.isSupported language) ∧
        behind.languages = before.languages ∧
        (∀ path, behind.languageOf? path = none) ∧
        ∀ path, behind.languageOf? path = before.languageOf? path ↔
          Phase.behind events = .failed ∨ settings.languageOf? path = none) := by
  intro before behind
  have hbefore : before = (Phase.behind events).service settings := after_eq_service settings events
  constructor
  · intro f
    rw [start_error_iff, hbefore, Loader.grammars_eq_nil_iff, ← Phase.started_service settings,
      Bool.not_eq_true]
  · rintro ⟨f, hf⟩
    have hstarted := (start_error_iff.1 hf).1
    rw [hbefore] at hf hstarted
    have hbehind : behind = Phase.failed.service settings := by
      show (Service.start loader before).1 = _
      rw [hbefore, start_of_error hf]
    rw [hbehind, hbefore]
    refine ⟨hstarted.symm, fun language => ?_, ?_, languageOf?_failed settings, fun path => ?_⟩
    · rw [isSupported_of_not_running hstarted, isSupported_of_not_running rfl]
    · rw [languages_of_not_running hstarted, languages_of_not_running rfl]
    · rw [languageOf?_failed]
      cases hphase : Phase.behind events with
      | idle => simp [Phase.service, languageOf?, eq_comm]
      | failed => simp [languageOf?_failed]
      | running grammars =>
          rw [hphase] at hstarted
          cases hstarted

/-- A start that fails behind a start and a stop. -/
theorem failed_start_of_stopped :
    (Service.start (fun _ => some "missing")
        ((ofSettings .default).after [.start fun _ => none, .stop])).2.result =
      .error (.service (.initialization name "No languages loaded")) ∧
    (Service.start (fun _ => some "missing")
        ((ofSettings .default).after [.start fun _ => none, .stop])).1.languages =
      ((ofSettings .default).after [.start fun _ => none, .stop]).languages := by
  have h := failed_start_answers .default [.start fun _ => none, .stop] fun _ => some "missing"
  have herror := (h.1 _).2 ⟨by rintro ⟨grammars, ⟨⟩⟩, fun _ => rfl, rfl⟩
  exact ⟨herror, (h.2 ⟨_, herror⟩).2.2.1⟩

/-- A script has a language before a first start that fails, and has none behind it. -/
theorem languageOf?_ne_of_failed_start :
    (Service.start (fun _ => some "missing") (ofSettings .default)).2.result =
      .error (.service (.initialization name "No languages loaded")) ∧
    (ofSettings .default).languageOf? "a.js" = some "javascript" ∧
    (Service.start (fun _ => some "missing") (ofSettings .default)).1.languageOf? "a.js" =
      none := by
  refine ⟨rfl, rfl, ?_⟩
  rw [(start_run _ _).1]
  exact languageOf?_failed .default "a.js"

end Service

end Injection
