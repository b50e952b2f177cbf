import Injection.Json.Basic

/-! # Delivering values

What a caller at the other end of a connection receives of a value.  Numbers that are not finite
have no form there and arrive as null.  Values nested deeper than `deliveryLimit` are not delivered
at all.

This is what becomes of the dictionaries that the tools of `InjectableCodemodMCP` return.
-/

namespace Injection.Json

/-- The greatest depth of a value that is delivered. -/
def deliveryLimit : Nat := 255

mutual

/-- How deep a value is nested; one that holds no others has depth one. -/
def depth : Json → Nat
  | .arr items => 1 + itemsDepth items
  | .obj fields => 1 + fieldsDepth fields
  | _ => 1

/-- The greatest depth of several values. -/
def itemsDepth : List Json → Nat
  | [] => 0
  | v :: vs => max (depth v) (itemsDepth vs)

/-- The greatest depth of the values of fields. -/
def fieldsDepth : List (Text × Json) → Nat
  | [] => 0
  | (_, v) :: fs => max (depth v) (fieldsDepth fs)

end

mutual

/-- The value with null for every number that is not finite. -/
def finite : Json → Json
  | .float .nan => .null
  | .float (.infinite _) => .null
  | .arr items => .arr (finiteItems items)
  | .obj fields => .obj (finiteFields fields)
  | v => v

/-- The items of an array with null for every number that is not finite. -/
def finiteItems : List Json → List Json
  | [] => []
  | v :: vs => finite v :: finiteItems vs

/-- The fields of an object with null for every number that is not finite. -/
def finiteFields : List (Text × Json) → List (Text × Json)
  | [] => []
  | (k, v) :: fs => (k, finite v) :: finiteFields fs

end

/-- The value that arrives, if it is delivered. -/
def delivered? (v : Json) : Option Json :=
  if deliveryLimit < v.depth then none else some v.finite

end Injection.Json
