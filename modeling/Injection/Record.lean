import Injection.Error
import Injection.Json.Printer

/-! # Injection records

What the transform says about one declaration, and the statements that say it in the source: one
assignment for each property that is set, each on a line of its own.

`Record` is `InjectionRecord`, `toJson` is its `to_dict`, and `statements` and `render` are those of
`MetadataInjector`.
-/

namespace Injection

/-- The metadata of one injectable declaration. -/
structure Record where
  target : String
  injectAs : Option String
  newInstance : Bool
  /-- The aliases of the parameters by name; a value that does not count as true when there are
  none. -/
  params : Json
  line : Int

namespace Record

/-- The version of the form in which metadata is written. -/
def formatVersion : Int := 2

/-- The record as a value; properties that are not set are left out. -/
def toJson (r : Record) : Json :=
  .record (
    [("targetId", .ofString r.target), ("injectable", .bool true)] ++
    (match r.injectAs with
    | some a => [("injectAs", .ofString a)]
    | none => []) ++
    (if r.newInstance then [("injectNewInstance", .bool true)] else []) ++
    (if r.params.truthy then [("injectParams", r.params)] else []) ++
    [("line", .int r.line)])

/-- The assignment of `value` to a property of the target. -/
def assignment (r : Record) (property : String) (value : Text) : Text :=
  Text.ofString (r.target ++ "." ++ property ++ " = ") ++ value ++ Text.ofString ";"

/-- The texts of the statements of a record, in order. -/
def texts (r : Record) : List Text :=
  [r.assignment "injectable" (Text.ofString "true")] ++
  (match r.injectAs with
  | some a => [r.assignment "injectAs" (Json.print .ascii (.ofString a))]
  | none => []) ++
  (if r.newInstance then [r.assignment "injectNewInstance" (Text.ofString "true")] else []) ++
  (if r.params.truthy then [r.assignment "injectParams" (Json.print .raw r.params)] else [])

/-- The statements of a record, in order.  There are none if the parameters are to be written and
have more than `room` arrays and objects in each other. -/
def statements (room : Nat) (r : Record) : Except Failure (List Text) :=
  if r.params.truthy && room < r.params.nesting then .error .tooDeepToWrite else .ok r.texts

/-- Statements on lines of their own, each behind a line break. -/
def joined (indent newline : String) (statements : List Text) : Text :=
  statements.flatMap fun s => Text.ofString newline ++ Text.ofString indent ++ s

/-- The statements as the text that goes behind a declaration. -/
def render (room : Nat) (r : Record) (indent newline : String) : Except Failure Text :=
  (r.statements room).map (joined indent newline)

end Record

end Injection
