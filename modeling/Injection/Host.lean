import Injection.Files
import Injection.Language
import Injection.Text.Charset
import Injection.Tree.Basic

/-! # The host

What a program finds around it: a reader of source texts, the room for calls in each other, the
encodings and the operating system.

`tree` is the parser behind `LanguageRegistry.parse`, and `Host.inner` is what `transform_directory`
leaves for the `transform_file` that it calls.
-/

namespace Injection

structure Host where
  /-- The tree of a source in a grammar. -/
  tree : Grammar → Bytes → Tree
  /-- How many arrays and objects in each other there is room for where a default is read, when the
  service is called. -/
  depth : Nat
  /-- The encodings of files. -/
  codecs : Codecs
  /-- What is refused. -/
  os : Refusals

/-- A host that refuses nothing and knows some encodings, with room for a little less than a
thousand calls. -/
def Host.common (tree : Grammar → Bytes → Tree) : Host := ⟨tree, 980, Charset.codecs, .none⟩

@[simp] theorem Host.tree_common (tree : Grammar → Bytes → Tree) : (common tree).tree = tree := rfl

/-- The host of a call that the service makes to itself: there is room for one call less. -/
def Host.inner (host : Host) : Host := { host with depth := host.depth - 1 }

end Injection
