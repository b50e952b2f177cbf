import Injection.Edit.Editor
import Injection.Proofs.Splice

/-!
# Edits one by one

The edits of an editor are applied in one sweep over the source.  The same comes out when they are
applied one after the other, each to what the one before it left, from the last one to the first:
the bounds of the edits in front still fit then.

* `Edit.inOrder` is the order of edits by their starts and then by their places in the list.
* `Edit.Overlap` says that an edit starts before the end of its predecessor, and `chained_iff` that
  the sweep stops for nothing else.
* `Edit.oneByOne` applies edits one after the other; `splice_eq_oneByOne` is the step from the
  sweep to it.
* **`Editor.apply_one_by_one`** puts these together.
-/

namespace Injection

namespace Edit

/-! ## The order -/

/-- Edits with their places in a list: the one with the smaller start comes first, and of two with
one start the one with the smaller place. -/
def comesFirst (a b : Edit × Nat) : Bool :=
  a.1.start < b.1.start || (a.1.start = b.1.start && a.2 ≤ b.2)

/-- The edits of a list in the order of their starts and then of their places. -/
def inOrder (es : List Edit) : List Edit := (es.zipIdx.mergeSort comesFirst).map (·.1)

theorem comesFirst_eq_zipIdxLE :
    comesFirst = List.zipIdxLE fun a b : Edit => decide (a.start ≤ b.start) := by
  funext a b
  rw [Bool.eq_iff_iff]
  simp only [comesFirst, List.zipIdxLE, decide_eq_true_eq, Bool.or_eq_true, Bool.and_eq_true]
  split_ifs with hab hba
  · simp only [decide_eq_true_eq]
    omega
  · simp only [iff_true]
    omega
  · simp only [iff_false]
    omega

/-- A sort that keeps equal elements in their order compares their places as well. -/
theorem ordered_eq_inOrder (es : List Edit) : ordered es = inOrder es := by
  rw [inOrder, comesFirst_eq_zipIdxLE, List.mergeSort_zipIdx, ordered]

/-! ## Overlaps -/

/-- An edit starts before the end of the one in front of it. -/
def Overlap (es : List Edit) : Prop :=
  ∃ front e f back, es = front ++ e :: f :: back ∧ f.start < e.stop

theorem not_overlap_nil : ¬ Overlap [] := by
  rintro ⟨front, e, f, back, h, -⟩
  simp at h

theorem not_overlap_singleton (e : Edit) : ¬ Overlap [e] := by
  rintro ⟨front, a, b, back, h, -⟩
  have hlength := congrArg List.length h
  simp at hlength
  omega

theorem overlap_cons_cons (e f : Edit) (es : List Edit) :
    Overlap (e :: f :: es) ↔ f.start < e.stop ∨ Overlap (f :: es) := by
  constructor
  · rintro ⟨front, a, b, back, h, hlt⟩
    cases front with
    | nil =>
        simp only [List.nil_append, List.cons.injEq] at h
        obtain ⟨rfl, rfl, -⟩ := h
        exact .inl hlt
    | cons x front =>
        exact .inr ⟨front, a, b, back, (List.cons.inj h).2, hlt⟩
  · rintro (hlt | ⟨front, a, b, back, h, hlt⟩)
    · exact ⟨[], e, f, es, rfl, hlt⟩
    · exact ⟨e :: front, a, b, back, by rw [h]; rfl, hlt⟩

/-- Behind an edit, edits are chained exactly when there is no overlap with it or among them. -/
theorem chained_last_iff {size : Nat} {e : Edit} {es : List Edit} (he : e.InRange size)
    (hes : ∀ f ∈ es, f.InRange size) : Chained e.last es ↔ ¬ Overlap (e :: es) := by
  induction es generalizing e with
  | nil => simp [Chained, not_overlap_singleton]
  | cons f es ih =>
      obtain ⟨hf, hes⟩ := List.forall_mem_cons.1 hes
      have hbounds : e.last ≤ f.first ↔ ¬ f.start < e.stop := by
        have := he.nonneg
        have := he.ordered
        have := hf.nonneg
        simp only [last, first]
        omega
      rw [Chained, ih hf hes, hbounds, overlap_cons_cons, not_or]

theorem chained_iff {size : Nat} {es : List Edit} (hes : ∀ e ∈ es, e.InRange size) :
    Chained 0 es ↔ ¬ Overlap es := by
  cases es with
  | nil => simp [Chained, not_overlap_nil]
  | cons e es =>
      obtain ⟨he, hes⟩ := List.forall_mem_cons.1 hes
      rw [Chained, chained_last_iff he hes]
      exact and_iff_right (Nat.zero_le _)

/-- Edits whose texts have encodings fail for an overlap only. -/
theorem exists_overlap_of_error {source : Bytes} {cursor : Int} {es : List Edit} {x : Failure}
    (hencodes : ∀ e ∈ es, e.Encodes) (h : applyFrom source cursor es = .error x) :
    ∃ e ∈ es, x = .service (.transform (.overlap e.start e.stop)) := by
  induction es generalizing cursor with
  | nil => cases h
  | cons e es ih =>
      obtain ⟨⟨bytes, hbytes⟩, hes⟩ := List.forall_mem_cons.1 hencodes
      rw [applyFrom] at h
      split at h
      · cases h
        exact ⟨e, List.mem_cons_self, rfl⟩
      · simp only [hbytes] at h
        cases hrest : applyFrom source e.stop es with
        | ok rest =>
            rw [hrest] at h
            cases h
        | error y =>
            rw [hrest] at h
            cases h
            obtain ⟨f, hf, hx⟩ := ih hes hrest
            exact ⟨f, List.mem_cons_of_mem e hf, hx⟩

/-! ## One after the other -/

/-- The source with one range replaced. -/
def substitute (e : Edit) (source : Bytes) : Bytes :=
  source.take e.first ++ e.bytes ++ source.drop e.last

/-- The source after the edits of a list, one after the other and the last one first. -/
def oneByOne (source : Bytes) (es : List Edit) : Bytes := es.foldr substitute source

/-- The edits behind a cursor leave what is in front of it, and make the rest what the sweep copies
from there on. -/
theorem oneByOne_eq_take_append {source : Bytes} {cursor : Nat} {es : List Edit}
    (hchain : Chained cursor es) (hes : ∀ e ∈ es, e.InRange source.length) :
    oneByOne source es = source.take cursor ++ splice source cursor es := by
  induction es generalizing cursor with
  | nil => simp [oneByOne, splice]
  | cons e es ih =>
      obtain ⟨he, hes⟩ := List.forall_mem_cons.1 hes
      obtain ⟨hcursor, hchain⟩ := hchain
      have horder := first_le_last he
      have hfront : (source.take e.last).length = e.last := by
        rw [List.length_take]
        exact Nat.min_eq_left (last_le_size he)
      have htake : source.take e.first =
          source.take cursor ++ (source.drop cursor).take (e.first - cursor) := by
        rw [← List.take_add, Nat.add_sub_cancel' hcursor]
      show substitute e (oneByOne source es) = _
      rw [ih hchain hes, substitute, splice, List.take_append_of_le_length (by omega),
        List.take_take, Nat.min_eq_left horder, List.drop_left' hfront, htake]
      simp only [List.append_assoc]

theorem splice_eq_oneByOne {source : Bytes} {es : List Edit} (hchain : Chained 0 es)
    (hes : ∀ e ∈ es, e.InRange source.length) : splice source 0 es = oneByOne source es := by
  rw [oneByOne_eq_take_append hchain hes, List.take_zero, List.nil_append]

/-- Lists with the same edits and no start twice have the same order. -/
theorem ordered_eq_ordered {es fs : List Edit} (hperm : es.Perm fs)
    (hstarts : (fs.map (·.start)).Nodup) : ordered es = ordered fs := by
  have hsorted : (ordered fs).Pairwise fun a b => decide (a.start ≤ b.start) = true :=
    List.pairwise_mergeSort startsBefore_trans startsBefore_total fs
  have hdistinct : (ordered fs).Pairwise fun a b => a.start ≠ b.start :=
    List.pairwise_map.1 (((List.mergeSort_perm fs _).map _).nodup_iff.2 hstarts)
  refine ordered_eq_of_perm (hperm.trans (List.mergeSort_perm fs _).symm) ?_
  refine hsorted.imp₂ (fun a b hle hne => ?_) hdistinct
  have hle := of_decide_eq_true hle
  omega

end Edit

namespace Editor

open Edit

theorem apply_run (source : Bytes) (s : Editor) :
    apply source s = (s, ⟨[], Edit.apply source s.edits⟩) := by
  have hstate : ((Act.state : Act Editor Failure Editor) s).2.result = .ok s := rfl
  rw [apply, Act.bind_run_ok hstate]
  rfl

/-- **Applying edits is applying them one by one.**  Edits with bounds in the source and texts that
have encodings are refused exactly when in their order one of them starts before the end of its
predecessor.  Otherwise the result is that of applying them one after the other, from the last one
to the first.  If no two of them have the same start it does not matter in which order they were
collected.  The editor is left as it was. -/
theorem apply_one_by_one (source : Bytes) (s : Editor)
    (hrange : ∀ e ∈ s.edits, e.InRange source.length) (hencodes : ∀ e ∈ s.edits, e.Encodes) :
    ((∃ x, (apply source s).2.result = .error (.service (.transform x))) ↔
        Overlap (inOrder s.edits)) ∧
      (¬ Overlap (inOrder s.edits) →
        (apply source s).2.result = .ok (oneByOne source (inOrder s.edits))) ∧
      ((s.edits.map (·.start)).Nodup → ∀ es, es.Perm s.edits →
        (apply source ⟨es, s.taken⟩).2.result = (apply source s).2.result) ∧
      (apply source s).1 = s := by
  simp only [apply_run, ← ordered_eq_inOrder]
  have hordered : ∀ e ∈ ordered s.edits, e.InRange source.length := fun e he =>
    hrange e (mem_ordered.1 he)
  have hchained := chained_iff hordered
  have hok : ¬ Overlap (ordered s.edits) →
      Edit.apply source s.edits = .ok (oneByOne source (ordered s.edits)) := by
    intro hclear
    have hchain := hchained.2 hclear
    rw [← splice_eq_oneByOne hchain hordered]
    exact (apply_eq_ok_iff hrange _).2 ⟨hchain, hencodes, rfl⟩
  refine ⟨⟨?_, ?_⟩, hok, ?_, trivial⟩
  · rintro ⟨x, hx⟩
    by_contra hclear
    rw [hok hclear] at hx
    cases hx
  · intro hoverlap
    cases hresult : Edit.apply source s.edits with
    | ok out => exact absurd hoverlap (hchained.1 ((apply_eq_ok_iff hrange out).1 hresult).1)
    | error f =>
        obtain ⟨e, -, rfl⟩ :=
          exists_overlap_of_error (fun e he => hencodes e (mem_ordered.1 he)) hresult
        exact ⟨_, rfl⟩
  · intro hstarts es hperm
    rw [Edit.apply, Edit.apply, ordered_eq_ordered hperm hstarts]

/-- The source `abcdef`. -/
def sampleSource : Bytes := [97, 98, 99, 100, 101, 102]

/-- Two edits with one start, the first of them empty, and two more in front of them. -/
def sampleEdits : List Edit :=
  [⟨4, 4, Text.ofString "é"⟩, ⟨0, 2, []⟩, ⟨4, 6, Text.ofString "x"⟩, ⟨2, 2, Text.ofString "yz"⟩]

theorem inRange_sample : ∀ e ∈ sampleEdits, e.InRange sampleSource.length := by
  simp only [sampleEdits, List.forall_mem_cons]
  exact ⟨⟨by decide, by decide, by decide⟩, ⟨by decide, by decide, by decide⟩,
    ⟨by decide, by decide, by decide⟩, ⟨by decide, by decide, by decide⟩, List.forall_mem_nil _⟩

theorem encodes_sample : ∀ e ∈ sampleEdits, e.Encodes := by
  simp only [sampleEdits, List.forall_mem_cons]
  exact ⟨⟨_, rfl⟩, ⟨_, rfl⟩, ⟨_, rfl⟩, ⟨_, rfl⟩, List.forall_mem_nil _⟩

theorem inOrder_sample :
    inOrder sampleEdits = [⟨0, 2, []⟩, ⟨2, 2, Text.ofString "yz"⟩, ⟨4, 4, Text.ofString "é"⟩,
      ⟨4, 6, Text.ofString "x"⟩] := by
  simp [inOrder, sampleEdits, List.mergeSort, comesFirst, List.MergeSort.Internal.splitInTwo]

theorem inOrder_sample_reverse :
    inOrder sampleEdits.reverse = [⟨0, 2, []⟩, ⟨2, 2, Text.ofString "yz"⟩,
      ⟨4, 6, Text.ofString "x"⟩, ⟨4, 4, Text.ofString "é"⟩] := by
  simp [inOrder, sampleEdits, List.mergeSort, comesFirst, List.MergeSort.Internal.splitInTwo]

/-- The sample becomes `yzcdéx`.  Collected in the opposite order, the empty edit would have to go
into the range of the other one. -/
theorem apply_one_by_one_of_sample :
    (apply sampleSource ⟨sampleEdits, []⟩).2.result =
        .ok [121, 122, 99, 100, 195, 169, 120] ∧
      ∃ x, (apply sampleSource ⟨sampleEdits.reverse, []⟩).2.result =
        .error (.service (.transform x)) := by
  have hclear : ¬ Overlap (inOrder sampleEdits) := by
    rw [inOrder_sample]
    simp [overlap_cons_cons, not_overlap_singleton]
  have hoverlap : Overlap (inOrder sampleEdits.reverse) := by
    rw [inOrder_sample_reverse]
    exact ⟨[_, _], _, _, [], rfl, by decide⟩
  have hforward := apply_one_by_one sampleSource ⟨sampleEdits, []⟩ inRange_sample encodes_sample
  have hbackward := apply_one_by_one sampleSource ⟨sampleEdits.reverse, []⟩
    (fun e he => inRange_sample e (List.mem_reverse.1 he))
    (fun e he => encodes_sample e (List.mem_reverse.1 he))
  refine ⟨?_, hbackward.1.2 hoverlap⟩
  rw [hforward.2.1 hclear, inOrder_sample]
  rfl

end Editor

end Injection
