import Injection.Error
import Injection.Path.Basic

/-! # Glob patterns

In a pattern `*` stands for any text, `?` for any character and `[…]` for a character of a set; all
else stands for itself.  A set starts behind the bracket, or behind an exclamation mark that negates
it, and ends at the next closing bracket; one that directly follows the start is a member.  A
bracket without an end stands for itself.

In a set `a-c` is a range.  A range whose ends are out of order is dropped together with both ends,
and what remains is read as the set: an exclamation mark that comes to stand first negates it.

`Path.ignored` is `TransformService._is_ignored`, which tries a pattern on the whole path first and
then on each of its parts.
-/

namespace Injection

namespace Glob

/-- A member of a set. -/
inductive Member where
  | char (c : Char)
  | range (first last : Char)
deriving DecidableEq, Repr

def Member.holds (c : Char) : Member → Bool
  | .char d => c = d
  | .range first last => first ≤ c && c ≤ last

/-- One element of a pattern. -/
inductive Element where
  | char (c : Char)
  | any
  | text
  | set (negated : Bool) (members : List Member)
deriving DecidableEq, Repr

/-- Cut the body of a set into chunks at the hyphens that make ranges.  `chunk` is the chunk that
was begun, reversed; in the next `skip` characters a hyphen is an ordinary character. -/
def chunks (chunk : List Char) : Nat → List Char → List (List Char)
  | _, [] => [chunk.reverse]
  | skip + 1, c :: cs => chunks (c :: chunk) skip cs
  | 0, c :: cs => if c = '-' then chunk.reverse :: chunks [] 2 cs else chunks (c :: chunk) 0 cs

/-- The chunks of the body of a set.  A hyphen at the end is an ordinary character. -/
def setChunks (body : List Char) : List (List Char) :=
  let skip := if body.head? = some '!' then 2 else 1
  let all := chunks [] skip body
  match all.reverse with
  | [] :: last :: rest => ((last ++ ['-']) :: rest).reverse
  | _ => all

/-- Join chunks from the right: two chunks that meet in a range out of order lose the ends of that
range and become one. -/
def dropEmpty : List (List Char) → List (List Char)
  | [] => []
  | chunk :: rest =>
    match dropEmpty rest with
    | [] => [chunk]
    | next :: others =>
      match chunk.getLast?, next.head? with
      | some a, some b =>
        if b < a then (chunk.dropLast ++ next.tail) :: others else chunk :: next :: others
      | _, _ => chunk :: next :: others

/-- A character of a set, or the hyphen of a range. -/
inductive Sign where
  | char (c : Char)
  | hyphen
deriving DecidableEq, Repr

def Sign.value : Sign → Char
  | .char c => c
  | .hyphen => '-'

/-- Chunks joined by the hyphens of ranges. -/
def signs : List (List Char) → List Sign
  | [] => []
  | [chunk] => chunk.map .char
  | chunk :: rest => chunk.map .char ++ .hyphen :: signs rest

/-- The members that signs stand for. -/
def members : List Sign → List Member
  | a :: .hyphen :: b :: rest => .range a.value b.value :: members rest
  | a :: rest => .char a.value :: members rest
  | [] => []

/-- The element of a set with the given body. -/
def setElement (body : List Char) : Element :=
  match signs (dropEmpty (setChunks body)) with
  | .char '!' :: rest => .set true (members rest)
  | all => .set false (members all)

/-- The body of a set and what is behind its closing bracket. -/
def closeSet? (cs : List Char) : Option (List Char × List Char) :=
  let (mark, cs) :=
    match cs with
    | '!' :: rest => (['!'], rest)
    | _ => ([], cs)
  let (first, cs) :=
    match cs with
    | ']' :: rest => ([']'], rest)
    | _ => ([], cs)
  match cs.span (· ≠ ']') with
  | (body, _ :: rest) => some (mark ++ first ++ body, rest)
  | (_, []) => none

/-- Read a pattern of which the first `skip` characters are consumed already. -/
def readFrom : Nat → List Char → List Element
  | _, [] => []
  | skip + 1, _ :: cs => readFrom skip cs
  | 0, c :: cs =>
    if c = '*' then .text :: readFrom 0 cs
    else if c = '?' then .any :: readFrom 0 cs
    else if c = '[' then
      match closeSet? cs with
      | some (body, _) => setElement body :: readFrom (body.length + 1) cs
      | none => .char c :: readFrom 0 cs
    else .char c :: readFrom 0 cs

/-- The elements of a pattern. -/
def read (pattern : String) : List Element := readFrom 0 pattern.toList

/-- Whether an element that stands for one character stands for `c`. -/
def Element.holds (c : Char) : Element → Bool
  | .char d => c = d
  | .any => true
  | .text => false
  | .set negated members => members.any (·.holds c) != negated

/-- The endings of a text, longest first: whether each is empty. -/
def emptyEndings : List Char → List Bool
  | [] => [true]
  | _ :: cs => false :: emptyEndings cs

/-- Whether there is a true value from each place on. -/
def anyFrom : List Bool → List Bool
  | [] => []
  | b :: bs =>
    match anyFrom bs with
    | [] => [b]
    | r :: rs => (b || r) :: r :: rs

/-- The endings of a text that an element stands for, put in front of what fits the endings
`behind`. -/
def Element.inFront (e : Element) : List Char → List Bool → List Bool
  | c :: cs, _ :: b :: behind => (e.holds c && b) :: e.inFront cs (b :: behind)
  | _, _ => [false]

/-- The endings of a text, longest first: whether the elements stand for each. -/
def fittingEndings (cs : List Char) : List Element → List Bool
  | [] => emptyEndings cs
  | .text :: es => anyFrom (fittingEndings cs es)
  | e :: es => e.inFront cs (fittingEndings cs es)

/-- Whether a text is one that the elements stand for: its longest ending is itself. -/
def matchElements (es : List Element) (cs : List Char) : Bool := (fittingEndings cs es).headD false

/-- Whether a whole text is one that the pattern stands for. -/
def fits (pattern text : String) : Bool := matchElements (read pattern) text.toList

end Glob

namespace Path

/-- Whether a path ends in parts that fit those of a pattern; a pattern with a root has to fit the
whole path.  A pattern without parts is an error. -/
def fits (p : Path) (pattern : String) : Except Failure Bool :=
  let q := ofString pattern
  if q.parts.isEmpty then .error .emptyPattern
  else if q.root ≠ .none then
    .ok (q.root = p.root && q.parts.length = p.parts.length &&
      (q.names.zip p.names).all fun (pattern, name) => Glob.fits pattern name)
  else
    .ok (q.parts.length ≤ p.parts.length &&
      (q.parts.reverse.zip p.parts.reverse).all fun (pattern, part) => Glob.fits pattern part)

/-- Whether one of the patterns fits the path, or some part of it on its own.  The first pattern
that decides counts. -/
def ignored (p : Path) : List String → Except Failure Bool
  | [] => .ok false
  | pattern :: patterns => do
    if ← p.fits pattern then return true
    else if p.parts.any (Glob.fits pattern) then return true
    else ignored p patterns

end Path

end Injection
