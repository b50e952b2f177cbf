import Injection.Tree.Basic

/-! # Questions to a syntax tree

The statements of a container, the comment that leads a node, the statement behind it, the
constructor of a class, and the names that a parameter list binds.

`statements`, `leadingComment` and `nextStatement` are `statements`, `leading_comment` and
`next_statement`; `isClass`, `isFunction` and `functionParameters` are `is_class`, `is_function` and
`function_parameters`; `constructorSite?` is `find_constructor`, `boundName?` is `parameter_name`,
and `parameterNames` is `parameter_names`.
-/

namespace Injection

namespace Site

/-- Whether a comment trails the sibling in front of it: that sibling is a named node other than a
comment and ends on the row on which the comment starts. -/
def trails (comment : Tree) : List Tree → Bool
  | p :: _ =>
    p.label.named && p.kind ≠ .comment && p.label.stopRow = comment.label.startRow
  | [] => false

/-- Follow a run of comments backwards, from the nearest one; `found` is the last one passed. -/
def firstOfRun (found : Option Tree) : List Tree → Option Tree
  | [] => found
  | c :: rest =>
    if c.kind = .comment && !trails c rest then firstOfRun (some c) rest else found

/-- The first comment of the run directly in front of a node.  A comment that trails the sibling in
front of it ends the run. -/
def leadingComment (s : Site) : Option Tree := firstOfRun none s.before

/-- The next named sibling that is not a comment. -/
def nextStatement (s : Site) : Option Tree :=
  s.after.find? fun t => t.label.named && t.kind ≠ .comment

/-- The statements of a container: its named children without the comments. -/
def statements (container : Tree) : List Site :=
  (children container).filter fun s => s.node.label.named && s.node.kind ≠ .comment

/-- The statements of all containers of a tree, outer containers first. -/
def allStatements (root : Tree) : List Site :=
  (root.walk.filter (·.kind.isContainer)).flatMap statements

end Site

namespace Tree

/-- Whether a node is a class. -/
def isClass (t : Tree) : Bool :=
  t.label.named && (t.kind.isClassDeclaration || t.kind = .classExpression)

/-- Whether a node is a function. -/
def isFunction (t : Tree) : Bool :=
  t.label.named && (t.kind.isFunctionDeclaration || t.kind.isFunctionExpression)

def isQuote (c : Char) : Bool := c = '\'' || c = '"'

/-- A text without the quotes at its ends. -/
def unquoted (cs : List Char) : List Char :=
  ((cs.dropWhile isQuote).reverse.dropWhile isQuote).reverse

/-- Whether a member of a class is a method called `constructor`. -/
def isConstructor (source : Bytes) (member : Tree) : Bool :=
  member.label.named && member.kind = .methodDefinition &&
    match member.childAt? "name" with
    | some name => unquoted (name.chars source) = "constructor".toList
    | none => false

/-- The constructor of a class, if there is one. -/
def constructorSite? (source : Bytes) (cls : Tree) : Option Site :=
  (cls.childAt? "body").bind fun body =>
    (Site.children body).find? fun s => isConstructor source s.node

/-- The node that holds the parameters of a function: a list, or the one parameter of an arrow
function without brackets. -/
def parametersNode? (t : Tree) : Option Tree :=
  match t.childAt? "parameters" with
  | some ps => some ps
  | none => t.childAt? "parameter"

mutual

/-- The name that a single parameter binds; destructuring patterns bind none. -/
def boundName? (source : Bytes) : Tree → Option String
  | .node l cs =>
    match l.kind with
    | .identifier => some (text source (.node l cs))
    | .requiredParameter | .optionalParameter =>
      boundNameWhere? source (fun l => l.field = some "pattern") cs
    | .assignmentPattern => boundNameWhere? source (fun l => l.field = some "left") cs
    | .restPattern => boundNameWhere? source (fun l => l.named) cs
    | _ => none

/-- The name that the first node with a property binds. -/
def boundNameWhere? (source : Bytes) (p : Label → Bool) : List Tree → Option String
  | [] => none
  | t :: ts => if p t.label then boundName? source t else boundNameWhere? source p ts

end

/-- The name that a parameter binds, as a list; empty names do not count. -/
def boundNames (source : Bytes) (t : Tree) : List String :=
  (boundName? source t).toList.filter (!·.isEmpty)

/-- The names that a node of parameters binds, in order. -/
def parameterNames (source : Bytes) (t : Tree) : List String :=
  if t.kind = .formalParameters then
    (t.namedChildren.filter (·.kind ≠ .comment)).flatMap (boundNames source)
  else boundNames source t

/-- The names of the parameters of a function; none when it has no node of parameters. -/
def functionParameters (source : Bytes) (t : Tree) : List String :=
  ((parametersNode? t).map (parameterNames source)).getD []

end Tree

end Injection
