import Injection.Directive.Dependency
import Injection.Json.Display

/-! # Aliases of parameters

A map from parameter names to where their values come from, in the order in which the names were
first given.  A later directive for a name replaces an earlier one and keeps its place.

`Alias` is `ParamAlias` and `Aliases` is `AliasMap`; `forParameters`, `unknown` and `toJson` are
`for_parameters`, `unknown` and `to_dict`, and `resolve` is `resolve_aliases`.
-/

namespace Injection

/-- Where a value comes from, and its default if there is one. -/
structure Alias where
  source : String
  default : Option Json

namespace Alias

/-- The alias as a value. -/
def toJson (a : Alias) : Json :=
  .record (("from", .ofString a.source) ::
    match a.default with
    | some v => [("default", v)]
    | none => [])

/-- The alias as a message shows it. -/
def display (a : Alias) : String :=
  let default :=
    match a.default with
    | some v => String.ofList v.display
    | none => "NO_DEFAULT"
  s!"ParamAlias(source={quoted a.source}, default={default})"

end Alias

/-- Names with their aliases. -/
structure Aliases where
  entries : List (String × Alias)

namespace Aliases

def empty : Aliases := ⟨[]⟩

/-- Replace the alias of `name`, or add it at the end. -/
def set (m : Aliases) (name : String) (a : Alias) : Aliases := ⟨Assoc.assign name a m.entries⟩

def get? (m : Aliases) (name : String) : Option Alias := m.entries.lookup name

def contains (m : Aliases) (name : String) : Bool := (m.get? name).isSome

def names (m : Aliases) : List String := m.entries.map (·.1)

def size (m : Aliases) : Nat := m.entries.length

/-- The names that are none of the parameters. -/
def unknown (m : Aliases) (params : List String) : List String :=
  m.names.filter fun n => !params.contains n

/-- The aliases of the parameters in their order; the first parameter without one is the error. -/
def forParameters (m : Aliases) (params : List String) : Except String (List (Text × Json)) := do
  let fields ← params.mapM fun p =>
    match m.get? p with
    | some a => .ok (Text.ofString p, a.toJson)
    | none => .error p
  return Assoc.ofList fields

/-- The map as a value. -/
def toJson (m : Aliases) : Json := .record (m.entries.map fun e => (e.1, e.2.toJson))

/-- The map as a message shows it. -/
def display (m : Aliases) : String := "AliasMap(" ++ String.ofList m.toJson.display ++ ")"

/-- The aliases that directives give. -/
def ofDependencies (ds : List Dependency) : Aliases :=
  ds.foldl (fun m d => m.set d.param ⟨d.provider, d.default⟩) empty

/-- Let every parameter without an alias stand for itself. -/
def complete (m : Aliases) (params : List String) : Aliases :=
  params.foldl (fun m p => if m.contains p then m else m.set p ⟨p, none⟩) m

/-- The aliases of parameters from the directives of a text. -/
def resolve (depth : Nat) (cs : List Char) (params : List String) : Logged Failure Aliases := do
  let ds ← Dependency.parse depth cs
  return (ofDependencies ds).complete params

end Aliases

end Injection
