import Injection.Act
import Injection.Edit.Basic
import Injection.Edit.Layout

/-! # The editor of a source

An editor collects edits against one source and hands out fresh names.  Applying the edits gives a
new source and leaves the editor as it was, so that more edits can be collected afterwards.

`Editor` is `SourceEditor`; `freshName` is `generate_uid`.
-/

namespace Injection

/-- The edits in the order in which they were collected, and the names that fresh ones must avoid.
-/
structure Editor where
  edits : List Edit
  taken : List String

namespace Editor

/-- The editor of a source that no one has used yet. -/
def new (source : Bytes) (root : Tree) : Editor := ⟨[], root.identifiers source⟩

/-- Collect one more edit. -/
def collect (e : Edit) : Act Editor Failure Unit :=
  Act.change fun s => ⟨s.edits ++ [e], s.taken⟩

/-- A fresh name, which is taken from then on. -/
def freshName (text : String) : Act Editor Failure String := do
  let s ← Act.state
  let name := Fresh.name s.taken text
  Act.change fun s => ⟨s.edits, name :: s.taken⟩
  return name

/-- The source with all edits applied. -/
def apply (source : Bytes) : Act Editor Failure Bytes := do
  let s ← Act.state
  Act.ofExcept (Edit.apply source s.edits)

end Editor

end Injection
