import Injection.Edit.Basic
import Injection.Edit.Layout
import Injection.Target

/-! # The pass over a source

Every statement whose leading comment holds the injectable directive is changed, if it declares or
exports a function or a class:

* behind a declaration the statements of its record are put;
* `export default d` becomes `const n = d;`, the statements of the record and `export default n;`,
  where `n` is the name of `d` or a fresh one; an abstract class, which is no expression, stays a
  declaration;
* `export d` becomes `d`, the statements of the record and an export of the names that `d` declares.

All edits speak of the source as it was, so the statements are independent of each other but for the
fresh names.

The pass is `_UnitTransform`: `Pass.run` is `run` and `Pass.visit` is `visit`; `Site.marked?` is
`directive`, `declarationChange` is `visit_declaration`, `variableChange` is `visit_variable`,
`annotate` is `annotate`, `exportChange` is `visit_export`, `defaultExport` and `namedExport` are
`normalize_default_export` and `normalize_named_export`, and `tail` is `_tail_position`.
`Site.isAnnotated` is `MetadataInjector.already_annotated`.
-/

namespace Injection

/-- What is the same for all statements of a pass. -/
structure Context where
  source : Bytes
  policy : UnknownPolicy
  uidBase : String
  /-- How many arrays and objects in each other there is room for where a default is read. -/
  depth : Nat

/-- How many arrays and objects in each other there is room for where a record is written: the
writer is three calls nearer to the pass than the reader of a default. -/
def Context.room (c : Context) : Nat := c.depth + 3

/-- A statement with the directive that its leading comment gives it. -/
structure Marked where
  site : Site
  directive : Injectable
  /-- The text of the comment. -/
  comment : List Char

/-- The edits for one statement and its record. -/
structure Change where
  edits : List Edit
  record : Record

namespace Site

/-- A statement whose leading comment holds the injectable directive. -/
def marked? (source : Bytes) (s : Site) : Option Marked :=
  match s.leadingComment with
  | none => none
  | some c =>
    let comment := Comment.value (c.chars source)
    (Injectable.scan comment).map fun d => ⟨s, d, comment⟩

/-- The assignment that an expression statement consists of: the object and the property assigned
to. -/
def assignedMember? (statement : Tree) : Option (Tree × Tree) :=
  if statement.kind ≠ .expressionStatement then none
  else
    match statement.namedChildren.head? with
    | none => none
    | some expression =>
      if expression.kind ≠ .assignmentExpression then none
      else
        match expression.childAt? "left" with
        | none => none
        | some left =>
          if left.kind ≠ .memberExpression then none
          else
            match left.childAt? "object", left.childAt? "property" with
            | some object, some property => some (object, property)
            | _, _ => none

/-- Whether the next statement assigns to the property `injectable` of `identifier`. -/
def isAnnotated (source : Bytes) (s : Site) (identifier : String) : Bool :=
  match s.nextStatement.bind assignedMember? with
  | some (object, property) =>
    object.text source = identifier && property.text source = "injectable"
  | none => false

end Site

namespace Marked

def node (m : Marked) : Tree := m.site.node

def line (m : Marked) : Int := m.node.line

/-- The record of the target that the statement holds. -/
def record (c : Context) (m : Marked) (identifier : String) (target : Tree) :
    Logged Failure (Option Record) :=
  Record.build c.depth c.source c.policy identifier target m.comment m.directive m.line

/-- The indentation of the statement. -/
def indent (c : Context) (m : Marked) : String := Layout.indentation c.source m.node.label.start

/-- A line break and the indentation of the statement. -/
def lineBreak (c : Context) (m : Marked) : String := Layout.newline c.source ++ m.indent c

/-- The statements of a record, as they go behind the statement. -/
def render (c : Context) (m : Marked) (r : Record) : Except Failure Text :=
  r.render c.room (m.indent c) (Layout.newline c.source)

/-- The change that a record makes, if there is one: `edits` puts its statements into the source. -/
def changeOf (c : Context) (m : Marked) (edits : Text → List Edit) :
    Option Record → Logged Failure (Option Change)
  | none => return none
  | some r => do
    let text ← Logged.ofExcept (m.render c r)
    return some ⟨edits text, r⟩

/-- Put the statements of the record behind the statement. -/
def annotate (c : Context) (m : Marked) (identifier : String) (target : Tree) :
    Logged Failure (Option Change) :=
  if m.site.isAnnotated c.source identifier then do
    Logged.write .debug s!"'{identifier}' already carries injection metadata"
    return none
  else do
    let record? ← m.record c identifier target
    m.changeOf c (fun text => [Edit.insertAfter m.node text]) record?

/-- A declaration that carries its own name. -/
def declarationChange (c : Context) (m : Marked) : Logged Failure (Option Change) :=
  match m.node.childAt? "name" with
  | none => return none
  | some name => m.annotate c (name.text c.source) m.node

end Marked

/-- The declarators of a variable declaration. -/
def Tree.declarators (t : Tree) : List Tree :=
  t.namedChildren.filter (·.kind = .variableDeclarator)

namespace Marked

/-- The name and the value of a declarator that binds a plain identifier. -/
def binding? (declarator : Tree) : Option (Tree × Tree) :=
  match declarator.childAt? "name", declarator.childAt? "value" with
  | some name, some value => if name.kind = .identifier then some (name, value) else none
  | _, _ => none

/-- A variable declaration: its first declarator counts. -/
def variableChange (c : Context) (m : Marked) : Logged Failure (Option Change) :=
  match m.node.declarators.head?.bind binding? with
  | some (name, value) => m.annotate c (name.text c.source) value
  | none => do
    Logged.write .debug s!"Ignoring @injectable on line {m.line}: no addressable function or class"
    return none

/-- Where text behind `inner` goes, and the terminator it needs: a semicolon that ends the statement
is kept with all that stands in front of it. -/
def tail (m : Marked) (inner : Tree) : Nat × String :=
  match m.node.children.getLast? with
  | some last =>
    if last.kind = .semicolon && inner.label.stop ≤ last.label.start then (last.label.stop, "")
    else (inner.label.stop, ";")
  | none => (inner.label.stop, ";")

/-- The keyword of an export, or the export itself. -/
def exportKeyword (m : Marked) : Tree :=
  (m.node.children.find? (·.kind = .exportKeyword)).getD m.node

/-- The texts of the decorators in front of an export, each with a blank behind it. -/
def decorators (c : Context) (m : Marked) : String :=
  String.join ((m.node.children.filter (·.kind = .decorator)).map (·.text c.source ++ " "))

/-- Replace the bytes from one offset up to another one. -/
def replace (start stop : Nat) (text : Text) : Edit := ⟨start, stop, text⟩

/-- The edits that turn a default export into a declaration, `statements` and an export of its name.
-/
def defaultEdits (c : Context) (m : Marked) (identifier : String) (target : Tree)
    (statements : Text) : List Edit :=
  let (position, terminator) := m.tail target
  let isAbstract := target.kind = .abstractClassDeclaration
  let head :=
    if isAbstract then replace m.exportKeyword.label.start target.label.start []
    else
      replace m.node.label.start target.label.start
        (Text.ofString (s!"const {identifier} = " ++ m.decorators c))
  let terminator := if isAbstract then "" else terminator
  [head, replace position position
    (Text.ofString terminator ++ statements ++
      Text.ofString (m.lineBreak c ++ s!"export default {identifier};"))]

/-- A default export of a target under an identifier. -/
def defaultChange (c : Context) (m : Marked) (identifier : String) (target : Tree) :
    Logged Failure (Option Change) := do
  let record? ← m.record c identifier target
  m.changeOf c (m.defaultEdits c identifier target) record?

/-- A default export.  `taken` are the names that a fresh one must avoid. -/
def defaultExport (c : Context) (taken : List String) (m : Marked) (target : Tree) :
    Logged Failure (List String × Option Change) :=
  if !target.kind.isExportable then do
    Logged.write .debug
      s!"Ignoring @injectable default export of {target.kind.name} on line {m.line}"
    return (taken, none)
  else
    match target.childAt? "name" with
    | some name => do
      let change? ← m.defaultChange c (name.text c.source) target
      return (taken, change?)
    | none =>
      if target.kind = .abstractClassDeclaration then do
        Logged.write .debug s!"Ignoring @injectable anonymous abstract class on line {m.line}"
        return (taken, none)
      else do
        let identifier := Fresh.name taken c.uidBase
        let change? ← m.defaultChange c identifier target
        return (identifier :: taken, change?)

/-- The identifier that a declarator binds, or the reason that it binds none. -/
def declaratorName (source : Bytes) (d : Tree) : Except TransformError String :=
  match (d.childAt? "name").filter (·.kind = .identifier) with
  | some name => .ok (name.text source)
  | none => .error (.unresolvableExport (d.text source) (some d.line))

/-- The edits that turn an export into its declaration, `statements` and an export of the names
declared. -/
def namedEdits (c : Context) (m : Marked) (names : List String) (declaration : Tree)
    (statements : Text) : List Edit :=
  let position := (m.tail declaration).1
  let clause := "export \x7b " ++ ", ".intercalate names ++ " \x7d;"
  [replace m.exportKeyword.label.start declaration.label.start [],
    replace position position (statements ++ Text.ofString (m.lineBreak c ++ clause))]

/-- An export of a declaration that declares `names`, of which the first one is that of the target.
-/
def namedChange (c : Context) (m : Marked) (names : List String) (declaration target : Tree) :
    Logged Failure (Option Change) :=
  match names with
  | [] => return none
  | identifier :: _ => do
    let record? ← m.record c identifier target
    m.changeOf c (m.namedEdits c names declaration) record?

/-- An export of a declaration. -/
def namedExport (c : Context) (m : Marked) (declaration : Tree) :
    Logged Failure (Option Change) :=
  if declaration.kind.isVariableDeclaration then do
    let names ← Logged.ofExcept
      ((declaration.declarators.mapM (declaratorName c.source)).mapError .ofTransform)
    match declaration.declarators.head?.bind (·.childAt? "value") with
    | none => return none
    | some target => m.namedChange c names declaration target
  else if declaration.kind.isDeclaration then
    match declaration.childAt? "name" with
    | none =>
      Logged.fail (.ofTransform
        (.unresolvableExport (declaration.text c.source) (some declaration.line)))
    | some name => m.namedChange c [name.text c.source] declaration declaration
  else do
    Logged.write .debug
      s!"Ignoring @injectable export of {declaration.kind.name} on line {m.line}"
    return none

/-- An export. -/
def exportChange (c : Context) (taken : List String) (m : Marked) :
    Logged Failure (List String × Option Change) :=
  let declaration? := m.node.childAt? "declaration"
  if m.node.children.any (·.kind = .defaultKeyword) then
    match declaration?.or (m.node.childAt? "value") with
    | some target => m.defaultExport c taken target
    | none => return (taken, none)
  else
    match declaration? with
    | some declaration => do
      let change? ← m.namedExport c declaration
      return (taken, change?)
    | none => return (taken, none)

/-- The change of a marked statement, and the names taken from then on. -/
def change (c : Context) (taken : List String) (m : Marked) :
    Logged Failure (List String × Option Change) :=
  if m.node.kind = .exportStatement then m.exportChange c taken
  else if m.node.kind.isVariableDeclaration then do
    let change? ← m.variableChange c
    return (taken, change?)
  else if m.node.kind.isDeclaration then do
    let change? ← m.declarationChange c
    return (taken, change?)
  else return (taken, none)

end Marked

namespace Pass

/-- The change of a statement, if its leading comment asks for one. -/
def visit (c : Context) (taken : List String) (s : Site) :
    Logged Failure (List String × Option Change) :=
  match s.marked? c.source with
  | none => return (taken, none)
  | some m => m.change c taken

/-- The changes of statements, in their order. -/
def changes (c : Context) : List String → List Site → Logged Failure (List Change)
  | _, [] => return []
  | taken, s :: ss => do
    let (taken, change?) ← visit c taken s
    let rest ← changes c taken ss
    return change?.toList ++ rest

/-- The changes of a whole tree. -/
def run (c : Context) (root : Tree) : Logged Failure (List Change) :=
  changes c (root.identifiers c.source) (Site.allStatements root)

/-- The edits of changes. -/
def edits (cs : List Change) : List Edit := cs.flatMap (·.edits)

/-- The records of changes, by line. -/
def records (cs : List Change) : List Record :=
  (cs.map (·.record)).mergeSort fun a b => a.line ≤ b.line

end Pass

end Injection
