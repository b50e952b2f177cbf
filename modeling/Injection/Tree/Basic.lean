import Injection.Text.Utf8
import Injection.Tree.Kind

/-! # Syntax trees

A finished syntax tree of a source.  Every node knows which bytes of the source it covers, on which
rows these start and end, and under which field its parent holds it.

* `walk` lists the nodes with an explicit stack, `preorder` by recursion.
* `Site` is a node together with its siblings.
* `ofListing` builds the tree of a preorder listing with child counts.

A `Label` holds what the program asks a node for; `text` is `node_text`, `walk` is `walk`,
`identifiers` is `collect_identifiers`, and `firstError?` is `first_error`.
-/

namespace Injection

/-- What a node says of itself. -/
structure Label where
  kind : Kind
  /-- Whether the node is more than a keyword or a punctuation mark. -/
  named : Bool
  /-- Whether the node was put in by the reader of the source, to repair it. -/
  missing : Bool
  /-- The first byte. -/
  start : Nat
  /-- The byte behind the last one. -/
  stop : Nat
  startRow : Nat
  stopRow : Nat
  /-- The field under which the parent holds the node. -/
  field : Option String
  /-- The place of the node in the preorder of its tree. -/
  number : Nat
deriving DecidableEq, Repr

inductive Tree where
  | node (label : Label) (children : List Tree)

namespace Tree

def label : Tree → Label
  | .node l _ => l

def children : Tree → List Tree
  | .node _ cs => cs

def kind (t : Tree) : Kind := t.label.kind

/-- The line of a node; lines count from one. -/
def line (t : Tree) : Int := t.label.startRow + 1

def namedChildren (t : Tree) : List Tree := t.children.filter (·.label.named)

/-- The first child held under a field. -/
def childAt? (t : Tree) (field : String) : Option Tree :=
  t.children.find? (·.label.field = some field)

/-- The characters that a node covers. -/
def chars (source : Bytes) (t : Tree) : List Char :=
  match Utf8.decode ((source.drop t.label.start).take (t.label.stop - t.label.start)) with
  | .ok cs => cs
  | .error _ => []

/-- The text that a node covers. -/
def text (source : Bytes) (t : Tree) : String := String.ofList (t.chars source)

mutual

/-- The number of nodes. -/
def size : Tree → Nat
  | .node _ cs => 1 + forestSize cs

/-- The number of nodes of several trees. -/
def forestSize : List Tree → Nat
  | [] => 0
  | t :: ts => t.size + forestSize ts

end

mutual

/-- The nodes of a tree: itself, then those of its children. -/
def preorder : Tree → List Tree
  | .node l cs => .node l cs :: forestPreorder cs

/-- The nodes of several trees, tree by tree. -/
def forestPreorder : List Tree → List Tree
  | [] => []
  | t :: ts => t.preorder ++ forestPreorder ts

end

/-- Take nodes from a stack, each time putting the children of the node taken on top. -/
def walkFrom : Nat → List Tree → List Tree
  | _, [] => []
  | 0, _ :: _ => []
  | fuel + 1, t :: stack => t :: walkFrom fuel (t.children ++ stack)

/-- The nodes of a tree in the order in which a stack yields them. -/
def walk (t : Tree) : List Tree := walkFrom t.size [t]

/-- The first node that marks a syntax error. -/
def firstError? (t : Tree) : Option Tree := t.walk.find? fun n => n.kind = .error || n.label.missing

/-- The texts of all nodes that spell a name. -/
def identifiers (source : Bytes) (t : Tree) : List String :=
  (t.walk.filter (·.kind.isIdentifier)).map (·.text source)

/-- One row of a preorder listing: a node and the number of its children. -/
structure Row where
  kind : Kind
  named : Bool
  missing : Bool
  start : Nat
  stop : Nat
  field : Option String
  childCount : Nat

/-- For every offset of a source, the end included, the number of line breaks in front of it. -/
def rowsOf (source : Bytes) : Array Nat :=
  (source.foldl (fun (rows, n) b =>
    let n := if b = 10 then n + 1 else n
    (rows.push n, n)) (#[0], 0)).1

/-- Put the node of a row, with its number, in front of the trees that follow it: the first of these
are its children. -/
def gather (rows : Array Nat) (r : Row × Nat) (trees : List Tree) : List Tree :=
  let row := r.1
  .node ⟨row.kind, row.named, row.missing, row.start, row.stop, rows.getD row.start 0,
    rows.getD row.stop 0, row.field, r.2⟩ (trees.take row.childCount) ::
    trees.drop row.childCount

/-- The tree of a preorder listing. -/
def ofListing (source : Bytes) (listing : List Row) : Option Tree :=
  (listing.zipIdx.foldr (gather (rowsOf source)) []).head?

end Tree

/-- A node and its siblings. -/
structure Site where
  /-- The siblings in front, the nearest first. -/
  before : List Tree
  node : Tree
  /-- The siblings behind, in order. -/
  after : List Tree

namespace Site

/-- The sites of the nodes of a list, of which those in `before` have been passed. -/
def ofList (before : List Tree) : List Tree → List Site
  | [] => []
  | t :: ts => ⟨before, t, ts⟩ :: ofList (t :: before) ts

/-- The sites of the children of a node. -/
def children (t : Tree) : List Site := ofList [] t.children

/-- The site of every node of a tree: the root first, then family by family. -/
def all (root : Tree) : List Site := ⟨[], root, []⟩ :: root.walk.flatMap children

end Site

end Injection
