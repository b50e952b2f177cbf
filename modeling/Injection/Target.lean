import Injection.Directive.Aliases
import Injection.Directive.Comment
import Injection.Record
import Injection.Settings.Basic
import Injection.Tree.Query

/-! # Targets

A target is a function or a class that is to be injectable.  Its record names the parameters with
their aliases: those of a function itself, or those of the constructor of a class.  A comment in
front of the constructor adds its directives behind those of the class.

`Record.build` is `MetadataInjector.build`, `Signature.ofClass` is `_constructor_parameters`, and
`checkUnknown` is `_check_unknown`.
-/

namespace Injection

/-- Parameter names, and the text with the directives for them. -/
structure Signature where
  params : List String
  directives : List Char
deriving DecidableEq, Repr

namespace Signature

/-- The signature of a class: that of its constructor, or the empty one. -/
def ofClass (source : Bytes) (cls : Tree) (comment : List Char) : Signature :=
  match cls.constructorSite? source with
  | none => ⟨[], comment⟩
  | some s =>
    ⟨s.node.functionParameters source,
      match s.leadingComment with
      | some c => comment ++ '\n' :: Comment.value (c.chars source)
      | none => comment⟩

/-- The signature of a target; other nodes have none. -/
def ofTarget? (source : Bytes) (target : Tree) (comment : List Char) : Option Signature :=
  if target.isClass then some (ofClass source target comment)
  else if target.isFunction then some ⟨target.functionParameters source, comment⟩
  else none

end Signature

namespace Record

/-- Deal with names that are no parameters of the target. -/
def checkUnknown (policy : UnknownPolicy) (target : String) (unknown : List String) :
    Logged Failure Unit :=
  if unknown.isEmpty then pure ()
  else
    match policy with
    | .error => Logged.fail (.ofTransform (.unknownDependency target unknown))
    | .warn =>
      Logged.write .warning (s!"@dependency directives on '{target}' name unknown parameters: " ++
        ", ".intercalate unknown)
    | .ignore => pure ()

/-- The aliases of the parameters of a target. -/
def paramsOf (depth : Nat) (policy : UnknownPolicy) (target : String) (s : Signature) :
    Logged Failure (List (Text × Json)) :=
  if s.params.isEmpty then pure []
  else do
    let aliases ← Aliases.resolve depth s.directives s.params
    checkUnknown policy target (aliases.unknown s.params)
    -- every parameter has an alias by now
    return (aliases.forParameters s.params).toOption.getD []

/-- The record of a target under its identifier; a node that is no target has none. -/
def build (depth : Nat) (source : Bytes) (policy : UnknownPolicy) (identifier : String)
    (target : Tree) (comment : List Char) (directive : Injectable) (line : Int) :
    Logged Failure (Option Record) :=
  match Signature.ofTarget? source target comment with
  | none => do
    Logged.write .debug
      s!"Ignoring @injectable on '{identifier}': {target.kind.name} has no parameter list"
    return none
  | some s => do
    let params ← paramsOf depth policy identifier s
    return some ⟨identifier, directive.alias?, target.isClass, .obj params, line⟩

end Record

end Injection
