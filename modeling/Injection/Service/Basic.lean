import Injection.Service.Lifecycle
import Injection.Transform

/-! # The transform service

A service that transforms texts once it has been started.  Starting it loads the grammars; it
starts if at least one of them can be loaded.  A start that fails leaves a registry without grammars
behind.

`Service` is `TransformService`: `setup` is `_initialize`, `start` and `stop` are `initialize` and
`shutdown`, `registry` is `_ensure_initialized` with the registry behind it, `transformText` is
`transform_content`, `isSupported`, `languages` and `languageOf?` are `is_language_supported`,
`get_supported_languages` and `get_language_from_file`.  `Registry.load` is `_load_languages` of
`LanguageRegistry`.
-/

namespace Injection

/-- Why a grammar cannot be loaded, if it cannot. -/
abbrev Loader := Grammar → Option String

/-- Load all grammars that can be loaded. -/
def Registry.load (s : TransformSettings) (loader : Loader) : Logged Failure Registry :=
  ⟨Grammar.all.filterMap fun g => (loader g).map fun reason =>
      ⟨.warning, s!"Failed to load {g.name} language: {reason}"⟩,
    .ok ⟨s, Grammar.all.filter fun g => (loader g).isNone⟩⟩

structure Service where
  settings : TransformSettings
  registry? : Option Registry
  started : Bool

namespace Service

def name : String := "TransformService"

/-- A service that has not been started. -/
def ofSettings (s : TransformSettings) : Service := ⟨s, none, false⟩

/-- Load the grammars. -/
def setup (loader : Loader) : Act Service Failure Unit := do
  let s ← Act.state
  let registry ← Act.ofLogged (Registry.load s.settings loader)
  Act.change fun s => { s with registry? := some registry }
  if registry.grammars.isEmpty then Act.fail (.service (.initialization name "No languages loaded"))
  else Act.change fun s => { s with started := true }

def start (loader : Loader) : Act Service Failure Unit := do
  let s ← Act.state
  Lifecycle.start name s.started (setup loader)

def stop : Act Service Failure Unit := do
  let s ← Act.state
  Lifecycle.stop name s.started (Act.change fun s => { s with registry? := none, started := false })

/-- The registry of a service that has been started. -/
def registry (s : Service) : Except Failure Registry :=
  match s.started, s.registry? with
  | true, some r => .ok r
  | _, _ => .error (.service (.notInitialized name))

def isSupported (s : Service) (language : String) : Bool :=
  match s.registry? with
  | some r => r.isSupported language
  | none => false

def languages (s : Service) : List String :=
  match s.registry? with
  | some r => r.languages
  | none => []

/-- The language of a file: without a registry, the one that the settings give it. -/
def languageOf? (s : Service) (path : String) : Option String :=
  match s.registry? with
  | some r => r.languageOf? path
  | none => s.settings.languageOf? path

/-- Transform a text. -/
def transformText (host : Host) (s : Service) (source language file : String) :
    Logged Failure Outcome := do
  let r ← Logged.ofExcept s.registry
  Transform.text host r s.settings source language file

end Service

end Injection
