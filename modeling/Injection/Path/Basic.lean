/-! # Paths

A path is a root and the names below it.  Reading a path drops empty names and the name `.`, and
keeps `..`.  A relative path has no root; exactly two leading slashes are a root of their own, any
other number of them is one slash.

Paths are those that `transform_file` and `transform_directory` are given; `suffix` and `extension`
are what `get_language_from_extension` looks at.
-/

namespace Injection

inductive Root where
  | none
  | slash
  | slashes
deriving DecidableEq, Repr

def Root.text : Root → String
  | .none => ""
  | .slash => "/"
  | .slashes => "//"

/-- The root that a number of leading slashes means. -/
def Root.ofSlashes : Nat → Root
  | 0 => .none
  | 2 => .slashes
  | _ => .slash

structure Path where
  root : Root
  names : List String
deriving DecidableEq, Repr

namespace Path

/-- The pieces between slashes; there is always one. -/
def split : List Char → List (List Char)
  | [] => [[]]
  | c :: cs =>
    if c = '/' then [] :: split cs
    else
      match split cs with
      | [] => [[c]]
      | p :: ps => (c :: p) :: ps

def ofString (s : String) : Path :=
  ⟨.ofSlashes (s.toList.takeWhile (· = '/')).length,
    ((split s.toList).map String.ofList).filter fun n => n ≠ "" && n ≠ "."⟩

/-- The root, if there is one, and the names. -/
def parts (p : Path) : List String := if p.root = .none then p.names else p.root.text :: p.names

/-- The written form; the empty path is a dot. -/
def text (p : Path) : String :=
  if p.root = .none && p.names.isEmpty then "." else p.root.text ++ "/".intercalate p.names

/-- The path of an entry below another path. -/
def append (p : Path) (names : List String) : Path := ⟨p.root, p.names ++ names⟩

/-- A text cut at its last dot; the dot is kept in the second part. -/
def cutAtDot? (cs : List Char) : Option (List Char × List Char) :=
  match cs.reverse.span (· ≠ '.') with
  | (_, []) => none
  | (tail, dot :: head) => some (head.reverse, dot :: tail.reverse)

/-- The suffix of the last name: from its last dot, which neither starts nor ends the name. -/
def suffix (p : Path) : String :=
  match p.names.getLast?.bind fun n => cutAtDot? n.toList with
  | some (head, tail) => if head.isEmpty || tail.length = 1 then "" else String.ofList tail
  | none => ""

/-- The extension of a written path: from the last dot behind the last slash, if something other
than dots is in front of it there. -/
def extension (s : String) : String :=
  match ((split s.toList).getLast?.bind cutAtDot?) with
  | some (head, tail) => if head.all (· = '.') then "" else String.ofList tail
  | none => ""

end Path

end Injection
