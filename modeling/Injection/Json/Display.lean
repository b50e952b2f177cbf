import Injection.Json.Basic
import Injection.Number.Shortest
import Injection.Text.Quoted

/-! # Showing values to a reader

The form in which messages show a value: strings as quoted literals, the empty value and the truth
values by capitalised names, numbers by their shortest form.

This is how an `AliasMap` shows itself.
-/

namespace Injection.Json

mutual

/-- A value as a message shows it. -/
def display : Json → List Char
  | .null => "None".toList
  | .bool b => (if b then "True" else "False").toList
  | .int n => (toString n).toList
  | .float x => x.text.toList
  | .str s => Quoted.encode s
  | .arr items => '[' :: displayItems items
  | .obj fields => '\x7b' :: displayFields fields

/-- The items of an array and the closing bracket. -/
def displayItems : List Json → List Char
  | [] => [']']
  | [v] => display v ++ [']']
  | v :: vs => display v ++ ',' :: ' ' :: displayItems vs

/-- The fields of an object and the closing brace. -/
def displayFields : List (Text × Json) → List Char
  | [] => ['\x7d']
  | [(k, v)] => Quoted.encode k ++ ':' :: ' ' :: display v ++ ['\x7d']
  | (k, v) :: fs => Quoted.encode k ++ ':' :: ' ' :: display v ++ ',' :: ' ' :: displayFields fs

end

end Injection.Json
