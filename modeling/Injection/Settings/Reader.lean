import Injection.Error
import Injection.Number.Reader
import Injection.Settings.Basic
import Injection.Text.Case

/-! # Reading settings

Settings are read from the fields of a JSON object.  A field that is not there has its default, and
fields with other names do not count.  All faults are found, in the order in which the settings are
declared, each with the place where it is.

The environment gives settings too: the log level, and what to do with unknown dependencies.

`TransformSettings.read` and `Settings.read` make a `TransformConfig` and a `Config` with their
checks, `ofEnvironment` is `Config.from_env`, and `Shared.get` and `Shared.put` are `get_config` and
`set_config`.
-/

namespace Injection

namespace Settings

/-- What is wrong with a value. -/
inductive Problem where
  | choice
  | string
  | number
  | numberText
  | list
  | mapping
  | model
deriving DecidableEq, Repr

def Problem.name : Problem → String
  | .choice => "literal_error"
  | .string => "string_type"
  | .number => "float_type"
  | .numberText => "float_parsing"
  | .list => "list_type"
  | .mapping => "dict_type"
  | .model => "model_type"

/-- A problem and where it is. -/
structure Issue where
  place : List String
  problem : Problem
deriving DecidableEq, Repr

/-- A value, or everything that is wrong with it. -/
abbrev Checked (α : Type) := Except (List Issue) α

/-- Apply a function, with the issues of both sides. -/
def apply {α β : Type} (f : Checked (α → β)) (x : Checked α) : Checked β :=
  match f, x with
  | .ok f, .ok a => .ok (f a)
  | .ok _, .error is => .error is
  | .error is, .ok _ => .error is
  | .error is, .error js => .error (is ++ js)

/-- Put the issues of a part at the place of that part. -/
def within {α : Type} (place : String) (x : Checked α) : Checked α :=
  x.mapError fun is => is.map fun i => ⟨place :: i.place, i.problem⟩

def refuse {α : Type} (p : Problem) : Checked α := .error [⟨[], p⟩]

/-- All values of a list, or the issues of all of them. -/
def collect {α : Type} : List (Checked α) → Checked (List α)
  | [] => .ok []
  | x :: xs => apply (apply (.ok List.cons) x) (collect xs)

def readString : Json → Checked String
  | .str t =>
    match t.toString? with
    | some s => .ok s
    | none => refuse .string
  | _ => refuse .string

def readStrings : Json → Checked (List String)
  | .arr vs => collect (vs.zipIdx.map fun (v, i) => within (toString i) (readString v))
  | _ => refuse .list

def readLanguages : Json → Checked (List (String × List String))
  | .obj fs =>
    collect (fs.map fun (k, v) =>
      let name := k.shown
      (readStrings v |> within name).map fun extensions => (name, extensions))
  | _ => refuse .mapping

def readPolicy : Json → Checked UnknownPolicy
  | .str t =>
    match t.toString?.bind UnknownPolicy.ofName? with
    | some p => .ok p
    | none => refuse .choice
  | _ => refuse .choice

/-- A number, or what stands for one: a truth value is one or zero, and a text is read. -/
def readNumber : Json → Checked Binary64
  | .float x => .ok x
  | .bool b => .ok (.ofDecimal false b.toNat 0)
  | .int n =>
    match Binary64.ofInt? n with
    | some x => .ok x
    | none => refuse .number
  | .str t =>
    match t.toString?.bind fun s => Binary64.read? s.toList with
    | some x => .ok x
    | none => refuse .numberText
  | _ => refuse .number

/-- A setting among the fields of an object. -/
def setting {α : Type} (v : Json) (key : String) (fallback : α) (read : Json → Checked α) :
    Checked α :=
  match v.field? key with
  | some v => within key (read v)
  | none => .ok fallback

end Settings

open Settings in
/-- Read the settings of the transform. -/
def TransformSettings.read : Json → Checked TransformSettings
  | .obj fs =>
    let v := Json.obj fs
    let d := TransformSettings.default
    let s : Checked _ := .ok TransformSettings.mk
    let s := apply s (setting v "supported_languages" d.languages readLanguages)
    let s := apply s (setting v "unknown_dependency" d.unknownDependency readPolicy)
    let s := apply s (setting v "uid_base" d.uidBase readString)
    let s := apply s (setting v "max_file_size_mb" d.maxFileSize readNumber)
    let s := apply s (setting v "encoding" d.encoding readString)
    apply s (setting v "ignore_patterns" d.ignorePatterns readStrings)
  | _ => refuse .model

/-- The settings of the transform as a value. -/
def TransformSettings.toJson (s : TransformSettings) : Json :=
  .record [
    ("supported_languages",
      .record (s.languages.map fun l => (l.1, .arr (l.2.map .ofString)))),
    ("unknown_dependency", .ofString s.unknownDependency.name),
    ("uid_base", .ofString s.uidBase),
    ("max_file_size_mb", .float s.maxFileSize),
    ("encoding", .ofString s.encoding),
    ("ignore_patterns", .arr (s.ignorePatterns.map .ofString))]

namespace Settings

/-- Read all settings. -/
def read : Json → Checked Settings
  | .obj fs =>
    let v := Json.obj fs
    let d := Settings.default
    let s : Checked _ := .ok Settings.mk
    let s := apply s (setting v "transform" d.transform TransformSettings.read)
    let s := apply s (setting v "log_level" d.logLevel readString)
    apply s (setting v "mcp_server_name" d.serverName readString)
  | _ => refuse .model

/-- All settings as a value. -/
def toJson (s : Settings) : Json :=
  .record [("transform", s.transform.toJson), ("log_level", .ofString s.logLevel),
    ("mcp_server_name", .ofString s.serverName)]

/-- Variables of the environment. -/
abbrev Environment := List (String × String)

/-- The value of a variable that is set and not empty. -/
def lookup? (env : Environment) (name : String) : Option String :=
  (env.lookup name).filter (!·.isEmpty)

def logLevelVariable : String := "INJECTABLE_CODEMOD_LOG_LEVEL"

def policyVariable : String := "INJECTABLE_CODEMOD_UNKNOWN_DEPENDENCY"

/-- The policy that the environment asks for, or the default one. -/
def policyOf (env : Environment) : Except ServiceError UnknownPolicy :=
  match lookup? env policyVariable with
  | none => .ok TransformSettings.default.unknownDependency
  | some name =>
    match UnknownPolicy.ofName? name with
    | some p => .ok p
    | none =>
      .error (.configuration s!"Invalid unknown dependency policy: {name}" (some policyVariable))

/-- The settings that the environment gives. -/
def ofEnvironment (env : Environment) : Except ServiceError Settings := do
  let policy ← policyOf env
  return { Settings.default with
    transform := { TransformSettings.default with unknownDependency := policy }
    logLevel := ((lookup? env logLevelVariable).map upperCase).getD Settings.default.logLevel }

/-- The settings shared by everyone.  Each value that comes to be shared has a number of its own. -/
structure Shared where
  current : Option (Settings × Nat)
  count : Nat

namespace Shared

/-- Nothing is shared yet. -/
def empty : Shared := ⟨none, 0⟩

/-- Share given settings from now on. -/
def put (s : Shared) (settings : Settings) : Shared := ⟨some (settings, s.count), s.count + 1⟩

/-- The shared settings with their number; the first who asks gets those of the environment. -/
def get (s : Shared) (env : Environment) : Except ServiceError ((Settings × Nat) × Shared) :=
  match s.current with
  | some current => .ok (current, s)
  | none => do
    let settings ← ofEnvironment env
    return ((settings, s.count), s.put settings)

end Shared

end Settings

end Injection
