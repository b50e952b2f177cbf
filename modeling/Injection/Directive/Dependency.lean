import Injection.Directive.Injectable
import Injection.Error
import Injection.Json.Reader
import Injection.Log
import Injection.Text.Blank

/-! # Dependency directives

`@dependency {path} param` or `@dependency {path = default} param`, any number of them in a text.

* The body ends at the brace that balances the opening one; braces inside JSON strings do not count.
* The first `=` of the body divides the provider path from the default.
* What an occurrence consumes is not searched again: all of it up to the end of the parameter name,
  or up to the closing brace when no name follows, or the token alone when no body follows.

Finding the directives (`findings`) and reading their defaults (`Finding.read`) are separate: the
first looks at every character once, the second stops at the first default that is no JSON text, or
that nests values too deeply to be read.

`parse` is `parse_dependencies`, which is `DependencyParser.parse`; `occurrence` and `Finding.read`
together are `_parse_at`, `closing?` is `_closing_brace`, and a `Dependency` is a
`DependencyDirective`, without a default where that has `NO_DEFAULT`.
-/

namespace Injection

/-- Where the value of a parameter comes from, and its default if one is given. -/
structure Dependency where
  param : String
  provider : String
  default : Option Json

namespace Dependency

def token : List Char := "@dependency".toList

/-- Whether `c` may start a parameter name. -/
def isNameStart (c : Char) : Bool := c.isAlpha || c = '_' || c = '$'

/-- Where a scan for the closing brace stands. -/
inductive Place where
  | plain
  | quoted
  | escaped
deriving DecidableEq, Repr

/-- The place after one character. -/
def Place.step : Place → Char → Place
  | .plain, c => if c = '"' then .quoted else .plain
  | .quoted, c => if c = '\\' then .escaped else if c = '"' then .plain else .quoted
  | .escaped, _ => .quoted

/-- The body up to the brace that closes it, and what follows that brace; `depth` braces opened
inside the body are still open. -/
def closing? : Nat → Place → List Char → Option (List Char × List Char)
  | _, _, [] => none
  | depth, place, c :: cs =>
    if place = .plain ∧ c = '\x7d' then
      match depth with
      | 0 => some ([], cs)
      | depth + 1 => (closing? depth .plain cs).map fun r => (c :: r.1, r.2)
    else if place = .plain ∧ c = '\x7b' then
      (closing? (depth + 1) .plain cs).map fun r => (c :: r.1, r.2)
    else (closing? depth (place.step c) cs).map fun r => (c :: r.1, r.2)

/-- The parameter name behind at least one gap, with the number of characters up to its end. -/
def paramName? (cs : List Char) : Option (List Char × Nat) :=
  let (gap, rest) := cs.span isGap
  match gap, rest with
  | _ :: _, c :: _ =>
    if isNameStart c then
      let name := rest.takeWhile isWordChar
      some (name, gap.length + name.length)
    else none
  | _, _ => none

/-- A directive whose default is still text, or one without a provider path. -/
inductive Finding where
  | dependency (param provider : String) (literal : Option String)
  | noProvider (param : String)
deriving DecidableEq, Repr

/-- The finding in a body with its parameter name. -/
def finding (body name : List Char) : Finding :=
  let (path, rest) := body.span (· ≠ '=')
  let provider := trim path
  if provider.isEmpty then .noProvider (String.ofList name)
  else
    .dependency (String.ofList name) (String.ofList provider)
      (match rest with
      | [] => none
      | _ :: literal => some (String.ofList (trim literal)))

/-- An occurrence of the token: what it says, if it is a directive, and the characters it consumes.
-/
structure Occurrence where
  finding? : Option Finding
  length : Nat
deriving DecidableEq, Repr

/-- An occurrence that consumes its token alone. -/
def bareToken : Occurrence := ⟨none, token.length⟩

/-- The occurrence of the token in front of `cs`. -/
def occurrence (cs : List Char) : Occurrence :=
  if startsWithWord cs then bareToken
  else
    let (gap, rest) := cs.span isGap
    match rest with
    | '\x7b' :: inner =>
      match closing? 0 .plain inner with
      | none => bareToken
      | some (body, behind) =>
        let length := token.length + gap.length + body.length + 2
        match paramName? behind with
        | none => ⟨none, length⟩
        | some (name, count) => ⟨some (finding body name), length + count⟩
    | _ => bareToken

/-- The findings of a text of which the first `skip` characters are consumed already. -/
def findingsFrom : Nat → List Char → List Finding
  | _, [] => []
  | skip + 1, _ :: cs => findingsFrom skip cs
  | 0, c :: cs =>
    match afterToken? token (c :: cs) with
    | none => findingsFrom 0 cs
    | some rest =>
      let o := occurrence rest
      o.finding?.toList ++ findingsFrom (o.length - 1) cs

/-- All findings of a text, in order. -/
def findings (cs : List Char) : List Finding := findingsFrom 0 cs

/-- Read the default of a finding, with at most `depth` arrays and objects in each other. -/
def Finding.read (depth : Nat) : Finding → Logged Failure (Option Dependency)
  | .noProvider param => do
    Logged.write .debug s!"Skipping @dependency without provider path for '{param}'"
    return none
  | .dependency param provider none => return some ⟨param, provider, none⟩
  | .dependency param provider (some literal) =>
    match Json.read .refuse depth literal.toList with
    | .ok v => return some ⟨param, provider, some v⟩
    | .error (.depth n) => Logged.fail (.tooDeep n)
    | .error f =>
      Logged.fail (.ofTransform (.malformedDefault param literal (f.message literal.toList)))

/-- Read findings until a default cannot be read. -/
def readAll (depth : Nat) : List Finding → Logged Failure (List Dependency)
  | [] => return []
  | f :: fs => do
    let d ← f.read depth
    let ds ← readAll depth fs
    return d.toList ++ ds

/-- All dependency directives of a text. -/
def parse (depth : Nat) (cs : List Char) : Logged Failure (List Dependency) :=
  readAll depth (findings cs)

end Dependency

end Injection
