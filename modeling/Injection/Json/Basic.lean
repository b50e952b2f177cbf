import Injection.Assoc
import Injection.Number.Binary64
import Injection.Text.Basic

/-! # JSON values

Values of the data format that defaults are written in.  Whole numbers and binary numbers are kept
apart, since they are written differently.  The fields of an object keep the order in which they
were first written.

These are the defaults of `DependencyDirective` and `ParamAlias`, the `inject_params` of
`InjectionRecord`, and what the methods `to_dict` return.
-/

namespace Injection

inductive Json where
  | null
  | bool (b : Bool)
  | int (n : Int)
  | float (x : Binary64)
  | str (s : Text)
  | arr (items : List Json)
  | obj (fields : List (Text × Json))
deriving Repr, Inhabited

namespace Json

/-- A string value. -/
def ofString (s : String) : Json := .str (Text.ofString s)

/-- An object with the given field names. -/
def record (fs : List (String × Json)) : Json := .obj (fs.map fun f => (Text.ofString f.1, f.2))

/-- The value of field `k`. -/
def field? (k : String) : Json → Option Json
  | .obj fs => fs.lookup (Text.ofString k)
  | _ => none

mutual

/-- The greatest number of arrays and objects that stand in each other. -/
def nesting : Json → Nat
  | .arr items => nestingItems items + 1
  | .obj fields => nestingFields fields + 1
  | _ => 0

/-- The greatest nesting of several values. -/
def nestingItems : List Json → Nat
  | [] => 0
  | v :: vs => max (nesting v) (nestingItems vs)

/-- The greatest nesting of the values of fields. -/
def nestingFields : List (Text × Json) → Nat
  | [] => 0
  | (_, v) :: fs => max (nesting v) (nestingFields fs)

end

/-- What values are nested in. -/
inductive Nesting where
  | array
  | object
deriving DecidableEq, Repr

/-- The message about values that are nested too deeply. -/
def Nesting.message (n : Nesting) : String :=
  let name :=
    match n with
    | .array => "array"
    | .object => "object"
  s!"maximum recursion depth exceeded while decoding a JSON {name} from a unicode string"

/-- Whether the value counts as true: not null, false, zero or empty. -/
def truthy : Json → Bool
  | .null => false
  | .bool b => b
  | .int n => n ≠ 0
  | .float x => !x.isZero
  | .str s => !s.isEmpty
  | .arr items => !items.isEmpty
  | .obj fields => !fields.isEmpty

end Json

end Injection
