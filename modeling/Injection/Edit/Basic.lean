import Injection.Error
import Injection.Tree.Basic

/-! # Edits of a source

An edit replaces a range of bytes by a text.  Edits are collected against one source and applied at
once, so every range speaks of the source as it was.  They are taken in the order of their starts,
those with one start in the order in which they were collected, and none may start before the end of
the one in front of it.

Bounds are integers.  A negative bound counts from the end of the source, one past the end stands
for the end, and an empty range lies where its first bound is.

`Edit` is `Edit`, with the ranges of `replace`, `insert_before`, `insert_after` and `remove` of
`SourceEditor`; `Edit.apply` is its `apply`.
-/

namespace Injection

/-- Replace the bytes from `start` up to `stop` by `text`. -/
structure Edit where
  start : Int
  stop : Int
  text : Text
deriving DecidableEq, Repr

namespace Edit

def insertBefore (t : Tree) (text : Text) : Edit := ⟨t.label.start, t.label.start, text⟩

def insertAfter (t : Tree) (text : Text) : Edit := ⟨t.label.stop, t.label.stop, text⟩

def remove (t : Tree) : Edit := ⟨t.label.start, t.label.stop, []⟩

/-- The offset that a bound stands for in a source of `size` bytes. -/
def offset (size : Nat) (bound : Int) : Nat :=
  if bound < 0 then (bound + size).toNat else min bound.toNat size

/-- The bytes between two bounds. -/
def slice (source : Bytes) (a b : Int) : Bytes :=
  let i := offset source.length a
  (source.drop i).take (offset source.length b - i)

/-- The bytes behind a bound. -/
def sliceFrom (source : Bytes) (a : Int) : Bytes := source.drop (offset source.length a)

/-- Edits in the order of their starts; equal starts keep their order. -/
def ordered (es : List Edit) : List Edit := es.mergeSort fun a b => a.start ≤ b.start

/-- Apply ordered edits to what is behind `cursor`. -/
def applyFrom (source : Bytes) (cursor : Int) : List Edit → Except Failure Bytes
  | [] => .ok (sliceFrom source cursor)
  | e :: es =>
    if e.start < cursor then .error (.service (.transform (.overlap e.start e.stop)))
    else
      match Utf8.encode e.text with
      | .error f => .error (.encode f)
      | .ok bytes => do
        let rest ← applyFrom source e.stop es
        return slice source cursor e.start ++ bytes ++ rest

/-- Apply edits to a source. -/
def apply (source : Bytes) (es : List Edit) : Except Failure Bytes :=
  applyFrom source 0 (ordered es)

end Edit

end Injection
