import Injection.Proofs.Frame
import Injection.Proofs.Moved

/-!
# The tree of an output

An output is source again, and it is read again.  `Output.rereads` says what is assumed of the tree
that is read then, given the tree of the source:

* a node that was not changed is there again, its bounds moved by the edits;
* a declaration that was changed is there again, and behind it stand the assignments put in;
* an export that was changed has become the declaration that it exported, or a constant with what it
  exported as its value, and behind it stand the assignments and an export of the name;
* comments at the end of an export that has no semicolon stand behind that export, since text is put
  in right behind what was exported.
-/

namespace Injection

/-- How bounds of nodes move. -/
structure Move where
  start : Nat → Nat
  stop : Nat → Nat

namespace Move

/-- The bounds of a node that edits moved. -/
def ofEdits (es : List Edit) : Move := ⟨Edit.startMoved es, Edit.stopMoved es⟩

/-- The bounds inside a node of which there is a copy. -/
def ofCopy (t t' : Tree) : Move :=
  ⟨fun p => p - t.label.start + t'.label.start, fun p => p - t.label.start + t'.label.start⟩

/-- Whether a label is another one moved.  The end of a `loose` one does not matter. -/
def takes (mv : Move) (out : Bytes) (loose : Bool) (l l' : Label) : Bool :=
  l'.kind = l.kind && l'.named = l.named && l'.field = l.field &&
    l'.start = mv.start l.start && l'.startRow = Edit.rowAt out l'.start &&
    (loose || (l'.stop = mv.stop l.stop && l'.stopRow = Edit.rowAt out l'.stop))

end Move

namespace Tree

/-- Whether a child of a container is a statement. -/
def isStatement (t : Tree) : Bool := t.label.named && t.kind ≠ .comment

/-- The name under which metadata for a declaration goes. -/
def declaredName? (t : Tree) : Option Tree :=
  if t.kind.isVariableDeclaration then (t.declarators.head?.bind Marked.binding?).map (·.1)
  else t.childAt? "name"

/-- What stands in an export behind the place where text goes. -/
def displaced (t : Tree) : List Tree :=
  match t.exportParts? with
  | some p => if t.textPlace p.target = p.target.label.stop then p.back else []
  | none => []

/-- Whether nothing inside a node is a container. -/
def isFlat (t : Tree) : Bool := t.preorder.all (!·.kind.isContainer)

/-- Whether a node is a comment with nothing inside and under no field. -/
def isBareComment (t : Tree) : Bool :=
  t.kind = .comment && t.children.isEmpty && t.label.field = none

/-- What is asked of the words of a source, and of the ends of its exports. -/
structure Lexical (source : Bytes) (t : Tree) : Prop where
  rows : t.label.startRow = Edit.rowAt source t.label.start ∧
    t.label.stopRow = Edit.rowAt source t.label.stop
  nonempty : t.kind ≠ .program → t.label.start < t.label.stop
  comments : t.kind = .comment → t.isBareComment = true
  /-- A name has not the sign that starts a directive. -/
  names : t.kind.isIdentifier = true → '@' ∉ t.chars source
  declared : t.kind.isDeclaration = true →
    ∀ name ∈ t.childAt? "name", name.kind.isIdentifier = true
  /-- Behind what is exported stand comments and perhaps a semicolon. -/
  exported : t.kind = .exportStatement → ∀ p ∈ t.exportParts?,
    (∀ x ∈ p.back.dropLast, x.kind = .comment) ∧
    (∀ x ∈ p.back.getLast?, x.kind = .comment ∨ x.kind = .semicolon) ∧
    ∀ x ∈ t.children.getLast?, x.label.stop = t.label.stop

instance (source : Bytes) (t : Tree) : Decidable (t.Lexical source) :=
  decidable_of_iff
    ((t.label.startRow = Edit.rowAt source t.label.start ∧
        t.label.stopRow = Edit.rowAt source t.label.stop) ∧
      (t.kind ≠ .program → t.label.start < t.label.stop) ∧
      (t.kind = .comment → t.isBareComment = true) ∧
      (t.kind.isIdentifier = true → '@' ∉ t.chars source) ∧
      (t.kind.isDeclaration = true → ∀ name ∈ t.childAt? "name", name.kind.isIdentifier = true) ∧
      (t.kind = .exportStatement → ∀ p ∈ t.exportParts?,
        (∀ x ∈ p.back.dropLast, x.kind = .comment) ∧
        (∀ x ∈ p.back.getLast?, x.kind = .comment ∨ x.kind = .semicolon) ∧
        ∀ x ∈ t.children.getLast?, x.label.stop = t.label.stop))
    ⟨fun ⟨h1, h2, h3, h4, h5, h6⟩ => ⟨h1, h2, h3, h4, h5, h6⟩,
     fun h => ⟨h.rows, h.nonempty, h.comments, h.names, h.declared, h.exported⟩⟩

end Tree

/-- The output of a pass. -/
structure Output where
  context : Context
  edits : List Edit
  bytes : Bytes

namespace Output

/-- The change that the pass made of a child of a container. -/
def change? (o : Output) (s : Site) : Option Change :=
  if s.node.isStatement then
    match (Pass.visit o.context [] s).result with
    | .ok (_, change?) => change?
    | .error _ => none
  else none

/-- Whether `added` are assignments, the first of them to the property `injectable` of what
`declaration` declares. -/
def annotates (o : Output) (declaration : Tree) (added : List Tree) : Bool :=
  added.all (fun t => t.label.named && t.kind = .expressionStatement && t.isFlat) &&
    match declaration.declaredName?, added.head?.bind Site.assignedMember? with
    | some name, some (object, property) =>
        object.text o.bytes = name.text o.bytes && property.text o.bytes = "injectable"
    | _, _ => false

/-- Whether a node ends where the text put in at `place` ends. -/
def endsText (o : Output) (place : Nat) (t : Tree) : Bool :=
  t.label.stop = Edit.startMoved o.edits place && t.label.stopRow = Edit.rowAt o.bytes t.label.stop

/-- Whether a node exports names, or a plain identifier. -/
def reexports (t : Tree) : Bool :=
  t.label.named && t.kind = .exportStatement && t.isFlat && (t.childAt? "declaration").isNone &&
    (t.childAt? "value").all (!·.kind.isExportable)

/-- Whether the comments that text displaced are there again. -/
def displaces (o : Output) (mv : Move) : List Tree → List Tree → Bool
  | [], us => us.isEmpty
  | t :: ts, u :: us =>
      mv.takes o.bytes false t.label u.label && u.children.isEmpty && displaces o mv ts us
  | _ :: _, [] => false

mutual

/-- Whether a node is there again. -/
def kept (o : Output) (mv : Move) (loose : Bool) : Tree → Tree → Bool
  | .node l cs, t' =>
      mv.takes o.bytes loose l t'.label &&
        if l.kind.isContainer then body o mv [] cs t'.children else each o mv loose cs t'.children
termination_by structural t => t

/-- Whether nodes are there again, one by one.  Comments at the end may come and go, and with them
the end of the last node: text put in right behind a comment can become part of it, or make it part
of another node. -/
def each (o : Output) (mv : Move) (loose : Bool) : List Tree → List Tree → Bool
  | [], us => us.all (·.isBareComment)
  | t :: ts, us =>
      if (t :: ts).all (·.kind = .comment) then us.all (·.isBareComment)
      else
        match us with
        | [] => false
        | u :: us =>
            kept o mv (loose && ts.all (·.kind = .comment)) t u && each o mv loose ts us
termination_by structural t => t

/-- Whether the nodes up to the first one that is not in front of `stop` are there again. -/
def eachUpTo (o : Output) (mv : Move) (stop : Nat) : List Tree → List Tree → Bool
  | [], us => us.isEmpty
  | t :: ts, us =>
      if t.label.stop ≤ stop then
        match us with
        | [] => false
        | u :: us => kept o mv false t u && eachUpTo o mv stop ts us
      else us.isEmpty
termination_by structural t => t

/-- Whether there are copies of the decorators. -/
def copies (o : Output) : List Tree → List Tree → Bool
  | [], us => us.isEmpty
  | t :: ts, us =>
      if t.kind = .decorator then
        match us with
        | [] => false
        | u :: us =>
            Edit.within (u.label.start, u.label.stop) o.bytes =
                Edit.within (t.label.start, t.label.stop) o.context.source &&
              kept o (.ofCopy t u) false t u && copies o ts us
      else copies o ts us
termination_by structural t => t

/-- Whether the children of the first node with a property are there again. -/
def inside (o : Output) (mv : Move) (loose : Bool) (p : Tree → Bool) :
    List Tree → List Tree → Bool
  | [], _ => false
  | .node l cs :: ts, us =>
      if p (.node l cs) then each o mv loose cs us else inside o mv loose p ts us
termination_by structural t => t

/-- Whether `u` is the declaration that an export has become. -/
def declares (o : Output) (mv : Move) : Tree → Tree → Bool
  | .node l cs, u =>
      match (Tree.node l cs).exportParts? with
      | none => false
      | some p =>
          if (Tree.node l cs).becomesConstant p.target then
            match u.children with
            | kind :: declarator :: rest =>
                match declarator.children with
                | [name, equals, value] =>
                    let n := (cs.filter (·.kind = .decorator)).length
                    u.kind = .lexicalDeclaration && !declarator.kind.isContainer &&
                      !value.kind.isContainer &&
                      (kind :: name :: equals :: rest).all (·.children.isEmpty) &&
                      copies o cs (value.children.take n) &&
                      inside o mv true (Tree.node l cs).isTargetOf cs (value.children.drop n)
                | _ => false
            | _ => false
          else
            let stop := (Tree.node l cs).exportStart
            let n := (cs.takeWhile (·.label.stop ≤ stop)).length
            u.kind = p.target.kind && eachUpTo o mv stop cs (u.children.take n) &&
              inside o mv false (Tree.node l cs).isTargetOf cs (u.children.drop n)
termination_by structural t => t

/-- Whether the children of a container are there again, with what was put in between them. -/
def body (o : Output) (mv : Move) (before : List Tree) : List Tree → List Tree → Bool
  | [], us => us.all (·.isBareComment)
  | t :: ts, us =>
      if (t :: ts).all (·.kind = .comment) then us.all (·.isBareComment)
      else
      match o.change? ⟨before, t, ts⟩, us with
      | none, u :: us => kept o mv false t u && body o mv (t :: before) ts us
      | some ch, u :: us =>
          let n := ch.record.texts.length
          let added := us.take n
          if t.kind = .exportStatement then
            declares o mv t u && o.annotates u added &&
              match us.drop n, t.exportParts? with
              | x :: us, some p =>
                  reexports x && o.endsText (t.textPlace p.target) x &&
                    displaces o mv t.displaced (us.take t.displaced.length) &&
                    body o mv (t :: before) ts (us.drop t.displaced.length)
              | _, _ => false
          else
            kept o mv false t u && o.annotates u added &&
              added.getLast?.any (o.endsText t.label.stop) && body o mv (t :: before) ts (us.drop n)
      | _, [] => false
termination_by structural t => t

end

/-- Whether `root'` is the tree of the output of a pass over `root`. -/
def rereads (o : Output) (root root' : Tree) : Bool :=
  root.kind = .program && root'.kind = .program &&
    body o (.ofEdits o.edits) [] root.children root'.children

end Output
end Injection
