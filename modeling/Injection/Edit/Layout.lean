import Injection.Tree.Basic

/-! # Layout of a source

What inserted text has to fit in with: the line break of the source, the indentation of a line, and
the names that are taken.

`Layout.newline` is what a new `SourceEditor` finds, `Layout.indentation` is its `indentation`, and
`Fresh.name` is the search of `generate_uid`.
-/

namespace Injection

namespace Layout

/-- Whether the source has a carriage return in front of a line feed. -/
def hasReturn : Bytes → Bool
  | a :: b :: s => (a = 13 && b = 10) || hasReturn (b :: s)
  | _ => false

/-- The line break of a source. -/
def newline (source : Bytes) : String := if hasReturn source then "\r\n" else "\n"

/-- The spaces and tabs that start the line on which byte `offset` lies, up to that byte. -/
def indentation (source : Bytes) (offset : Nat) : String :=
  let line := ((source.take offset).reverse.takeWhile (· ≠ 10)).reverse
  String.ofList ((line.takeWhile fun b => b = 32 || b = 9).map fun b => Char.ofNat b.toNat)

end Layout

namespace Fresh

/-- The base of fresh names: a text without its leading underscores, or `uid` if nothing is left. -/
def base (text : String) : String :=
  match text.toList.dropWhile (· = '_') with
  | [] => "uid"
  | cs => String.ofList cs

/-- The candidates of a base: `_b`, `_b2`, `_b3` and so on. -/
def candidate (base : String) (i : Nat) : String :=
  "_" ++ base ++ (if i = 0 then "" else toString (i + 1))

/-- The first candidate that is not taken.  There are more candidates than taken names. -/
def name (taken : List String) (text : String) : String :=
  let base := base text
  match (List.range (taken.length + 1)).find? fun i => !taken.contains (candidate base i) with
  | some i => candidate base i
  | none => candidate base taken.length

end Fresh

end Injection
