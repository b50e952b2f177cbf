import Injection.Edit.Basic
import Injection.Proofs.Utf8

/-!
# Applying edits is splicing

Edits whose bounds lie in the source are applied by copying what stands between them.

* `splice` is that copy, on offsets instead of bounds.
* `apply_eq_ok_iff` says when edits are applied and that the result is the splice.
* `pairwise_ordered_of_clear` turns a condition on pairs of edits, in the order in which they were
  collected, into the order of the sorted list.
* `exists_splice_eq_encodeChars` keeps the result readable when the bounds are boundaries.
* `outside_inserted_splice` is the frame: what is outside the texts put in is what is outside the
  ranges replaced.
-/

namespace Injection
namespace Edit

/-- The first byte of the range, as an offset. -/
def first (e : Edit) : Nat := e.start.toNat

/-- The byte behind the range, as an offset. -/
def last (e : Edit) : Nat := e.stop.toNat

/-- The encoding of the text; nothing when it has none. -/
def bytes (e : Edit) : Bytes :=
  match Utf8.encode e.text with
  | .ok bs => bs
  | .error _ => []

/-- The bounds are offsets of a source of `size` bytes, in order. -/
structure InRange (size : Nat) (e : Edit) : Prop where
  nonneg : 0 ≤ e.start
  ordered : e.start ≤ e.stop
  bounded : e.stop ≤ size

/-- The text has an encoding. -/
def Encodes (e : Edit) : Prop := ∃ bs, Utf8.encode e.text = .ok bs

/-- No edit starts before `cursor` or before the end of the one in front of it. -/
def Chained : Nat → List Edit → Prop
  | _, [] => True
  | cursor, e :: es => cursor ≤ e.first ∧ Chained e.last es

/-- Copy the source from `cursor` on, with the ranges of the edits replaced. -/
def splice (source : Bytes) : Nat → List Edit → Bytes
  | cursor, [] => source.drop cursor
  | cursor, e :: es =>
      (source.drop cursor).take (e.first - cursor) ++ e.bytes ++ splice source e.last es

theorem first_le_last {size : Nat} {e : Edit} (h : e.InRange size) : e.first ≤ e.last :=
  Int.toNat_le_toNat h.ordered

theorem last_le_size {size : Nat} {e : Edit} (h : e.InRange size) : e.last ≤ size := by
  have hbounded := h.bounded
  unfold last
  omega

theorem offset_ofNat {size n : Nat} (h : n ≤ size) : offset size (n : Int) = n := by
  unfold offset
  rw [if_neg (by omega)]
  omega

theorem offset_start {size : Nat} {e : Edit} (h : e.InRange size) :
    offset size e.start = e.first := by
  have hnonneg := h.nonneg
  have hordered := h.ordered
  have hbounded := h.bounded
  unfold offset first
  rw [if_neg (by omega)]
  omega

theorem stop_eq_last {size : Nat} {e : Edit} (h : e.InRange size) : e.stop = (e.last : Int) := by
  have hnonneg := h.nonneg
  have hordered := h.ordered
  unfold last
  omega

theorem bytes_of_encode {e : Edit} {bs : Bytes} (h : Utf8.encode e.text = .ok bs) :
    e.bytes = bs := by
  unfold bytes
  rw [h]

/-- One edit is applied behind a cursor exactly when it does not start in front of the cursor, its
text has an encoding, and the edits behind it are applied. -/
theorem applyFrom_cons_eq_ok_iff {source : Bytes} {cursor : Nat} {e : Edit} {es : List Edit}
    (hcursor : cursor ≤ source.length) (he : e.InRange source.length) (out : Bytes) :
    applyFrom source cursor (e :: es) = .ok out ↔
      cursor ≤ e.first ∧ e.Encodes ∧ ∃ rest, applyFrom source (e.last : Int) es = .ok rest ∧
        out = (source.drop cursor).take (e.first - cursor) ++ e.bytes ++ rest := by
  have hstart : e.start < (cursor : Int) ↔ ¬ cursor ≤ e.first := by
    have hnonneg := he.nonneg
    unfold first
    omega
  have hslice : slice source cursor e.start = (source.drop cursor).take (e.first - cursor) := by
    unfold slice
    rw [offset_ofNat hcursor, offset_start he]
  rw [applyFrom, stop_eq_last he]
  by_cases hchain : cursor ≤ e.first
  · rw [if_neg (by rw [hstart]; exact not_not_intro hchain)]
    cases hencode : Utf8.encode e.text with
    | error f =>
        constructor
        · intro h
          cases h
        · rintro ⟨-, ⟨bs, hbs⟩, -⟩
          rw [hencode] at hbs
          cases hbs
    | ok bs =>
        rw [← hslice, bytes_of_encode hencode]
        constructor
        · intro h
          cases hrest : applyFrom source (e.last : Int) es with
          | error f =>
              rw [hrest] at h
              cases h
          | ok rest =>
              rw [hrest] at h
              exact ⟨hchain, ⟨bs, hencode⟩, rest, rfl, (Except.ok.inj h).symm⟩
        · rintro ⟨-, -, rest, hrest, rfl⟩
          simp only [hrest]
          rfl
  · rw [if_pos (hstart.2 hchain)]
    constructor
    · intro h
      cases h
    · rintro ⟨hle, -⟩
      exact absurd hle hchain

/-- Applying ordered edits behind a cursor succeeds exactly when they are chained and have
encodings, and the result is the splice. -/
theorem applyFrom_eq_ok_iff {source : Bytes} {cursor : Nat} {es : List Edit}
    (hcursor : cursor ≤ source.length) (hrange : ∀ e ∈ es, e.InRange source.length)
    (out : Bytes) :
    applyFrom source cursor es = .ok out ↔
      Chained cursor es ∧ (∀ e ∈ es, e.Encodes) ∧ out = splice source cursor es := by
  induction es generalizing cursor out with
  | nil =>
      have hslice : sliceFrom source cursor = source.drop cursor := by
        unfold sliceFrom
        rw [offset_ofNat hcursor]
      rw [applyFrom, splice, hslice]
      constructor
      · intro h
        exact ⟨trivial, List.forall_mem_nil _, (Except.ok.inj h).symm⟩
      · rintro ⟨-, -, rfl⟩
        rfl
  | cons e es ih =>
      obtain ⟨he, hes⟩ := List.forall_mem_cons.1 hrange
      rw [applyFrom_cons_eq_ok_iff hcursor he, List.forall_mem_cons, Chained, splice]
      constructor
      · rintro ⟨hchain, hencode, rest, hrest, rfl⟩
        obtain ⟨hlinked, hencodes, rfl⟩ := (ih (last_le_size he) hes rest).1 hrest
        exact ⟨⟨hchain, hlinked⟩, ⟨hencode, hencodes⟩, rfl⟩
      · rintro ⟨⟨hchain, hlinked⟩, ⟨hencode, hencodes⟩, rfl⟩
        exact ⟨hchain, hencode, _, (ih (last_le_size he) hes _).2 ⟨hlinked, hencodes, rfl⟩, rfl⟩

theorem mem_ordered {es : List Edit} {e : Edit} : e ∈ ordered es ↔ e ∈ es := List.mem_mergeSort

/-- Edits of a source are applied exactly when their sorted list is chained and all texts have
encodings. -/
theorem apply_eq_ok_iff {source : Bytes} {es : List Edit}
    (hrange : ∀ e ∈ es, e.InRange source.length) (out : Bytes) :
    apply source es = .ok out ↔
      Chained 0 (ordered es) ∧ (∀ e ∈ es, e.Encodes) ∧ out = splice source 0 (ordered es) := by
  have h := applyFrom_eq_ok_iff (Nat.zero_le source.length)
    (fun e he => hrange e (mem_ordered.1 he)) out
  simp only [mem_ordered] at h
  exact h

/-! ## Sorting -/

/-- Two edits, the first one collected first, that do not get into each other's way: the first one
ends where the second one starts or before it, or the second one starts before the first one and
ends where that starts or before it. -/
def Clear (e f : Edit) : Prop := e.stop ≤ f.start ∨ (f.start < e.start ∧ f.stop ≤ e.start)

theorem startsBefore_trans (a b c : Edit) (hab : decide (a.start ≤ b.start) = true)
    (hbc : decide (b.start ≤ c.start) = true) : decide (a.start ≤ c.start) = true := by
  simp only [decide_eq_true_eq] at *
  omega

theorem startsBefore_total (a b : Edit) :
    (decide (a.start ≤ b.start) || decide (b.start ≤ a.start)) = true := by
  simp only [Bool.or_eq_true, decide_eq_true_eq]
  omega

/-- Edits that are clear of each other are sorted into an order in which each one ends before the
next one starts. -/
theorem pairwise_ordered_of_clear {es : List Edit} (horder : ∀ e ∈ es, e.start ≤ e.stop)
    (hclear : es.Pairwise Clear) : (ordered es).Pairwise fun e f => e.stop ≤ f.start := by
  induction es with
  | nil => simp [ordered]
  | cons e es ih =>
      have hsorted : (ordered (e :: es)).Pairwise fun a b => decide (a.start ≤ b.start) = true :=
        List.pairwise_mergeSort startsBefore_trans startsBefore_total (e :: es)
      obtain ⟨l, r, hcons, hrest, hl⟩ :=
        List.mergeSort_cons startsBefore_trans startsBefore_total e es
      obtain ⟨hfirst, hclear⟩ := List.pairwise_cons.1 hclear
      have hlr : (l ++ r).Pairwise fun e f => e.stop ≤ f.start := by
        have htail := ih (fun f hf => horder f (List.mem_cons_of_mem e hf)) hclear
        rwa [ordered, hrest] at htail
      have hmem : ∀ f ∈ l ++ r, f ∈ es := by
        intro f hf
        rw [← hrest] at hf
        exact List.mem_mergeSort.1 hf
      rw [ordered, hcons] at hsorted ⊢
      rw [List.pairwise_append] at hlr hsorted ⊢
      refine ⟨hlr.1, List.pairwise_cons.2 ⟨?_, hlr.2.1⟩, ?_⟩
      · -- behind `e` only edits that start at or behind its start, so they start behind its end
        intro f hf
        have hstart : e.start ≤ f.start := by
          simpa using (List.pairwise_cons.1 hsorted.2.1).1 f hf
        rcases hfirst f (hmem f (List.mem_append_right l hf)) with h | ⟨h, -⟩
        · exact h
        · omega
      · intro f hf g hg
        rcases List.mem_cons.1 hg with rfl | hg
        · have hstart : f.start < g.start := by simpa using hl f hf
          have hordered := horder g List.mem_cons_self
          rcases hfirst f (hmem f (List.mem_append_left r hf)) with h | ⟨-, h⟩
          · omega
          · exact h
        · exact hlr.2.2 f hf g hg

/-- Edits whose starts differ have one order. -/
theorem ordered_eq_of_perm {es fs : List Edit} (hperm : es.Perm fs)
    (hsorted : fs.Pairwise fun a b => a.start < b.start) : ordered es = fs := by
  have hall : (ordered es).Perm fs := (List.mergeSort_perm es _).trans hperm
  have hordered : (ordered es).Pairwise fun a b => decide (a.start ≤ b.start) = true :=
    List.pairwise_mergeSort startsBefore_trans startsBefore_total es
  refine List.Perm.eq_of_pairwise ?_ (hordered.imp of_decide_eq_true)
    (hsorted.imp fun h => Int.le_of_lt h) hall
  intro a b ha hb hab hba
  by_contra hne
  have : Std.Symm fun a b : Edit => a.start ≠ b.start := ⟨fun _ _ => Ne.symm⟩
  exact (hsorted.imp fun h => Int.ne_of_lt h).forall (hall.mem_iff.1 ha) hb hne
    (Int.le_antisymm hab hba)

/-- A sorted list in which each edit ends before the next one starts is chained. -/
theorem chained_of_pairwise {es : List Edit} {cursor : Nat}
    (hstart : ∀ e ∈ es, cursor ≤ e.first)
    (hpairs : es.Pairwise fun e f => e.stop ≤ f.start) : Chained cursor es := by
  induction es generalizing cursor with
  | nil => trivial
  | cons e es ih =>
      obtain ⟨hfirst, hpairs⟩ := List.pairwise_cons.1 hpairs
      refine ⟨hstart e List.mem_cons_self, ih ?_ hpairs⟩
      intro f hf
      exact Int.toNat_le_toNat (hfirst f hf)

/-! ## Readable results -/

theorem exists_bytes_eq_encodeChars {e : Edit} (h : e.Encodes) :
    ∃ cs, e.bytes = Utf8.encodeChars cs := by
  obtain ⟨bs, hbs⟩ := h
  obtain ⟨cs, -, rfl⟩ := (Utf8.encode_eq_ok_iff e.text bs).1 hbs
  exact ⟨cs, bytes_of_encode hbs⟩

/-- Both bounds of an edit are boundaries of a source. -/
def OnBoundaries (source : Bytes) (e : Edit) : Prop :=
  Utf8.isBoundary source e.first = true ∧ Utf8.isBoundary source e.last = true

/-- Edits between characters make an encoded text of an encoded text. -/
theorem exists_splice_eq_encodeChars {cs : List Char} {cursor : Nat} {es : List Edit}
    (hcursor : Utf8.isBoundary (Utf8.encodeChars cs) cursor = true) (hchain : Chained cursor es)
    (hbounds : ∀ e ∈ es, e.OnBoundaries (Utf8.encodeChars cs)) (hencodes : ∀ e ∈ es, e.Encodes) :
    ∃ ds, splice (Utf8.encodeChars cs) cursor es = Utf8.encodeChars ds := by
  induction es generalizing cursor with
  | nil =>
      obtain ⟨ds, fs, rfl, rfl⟩ := Utf8.exists_append_of_isBoundary hcursor
      refine ⟨fs, ?_⟩
      rw [splice, Utf8.encodeChars_append, List.drop_left]
  | cons e es ih =>
      obtain ⟨hle, hchain⟩ := hchain
      have he := hbounds e List.mem_cons_self
      obtain ⟨ds, hds⟩ := Utf8.exists_slice_eq_encodeChars hcursor he.1 hle
      obtain ⟨ts, hts⟩ := exists_bytes_eq_encodeChars (hencodes e List.mem_cons_self)
      obtain ⟨rs, hrs⟩ := ih he.2 hchain (fun f hf => hbounds f (List.mem_cons_of_mem e hf))
        (fun f hf => hencodes f (List.mem_cons_of_mem e hf))
      refine ⟨ds ++ ts ++ rs, ?_⟩
      rw [splice, hds, hts, hrs, Utf8.encodeChars_append, Utf8.encodeChars_append]

/-! ## The frame -/

/-- The bytes, the first of them at offset `n`, whose offsets are in none of the ranges. -/
def outsideFrom (n : Nat) (ranges : List (Nat × Nat)) (bs : Bytes) : Bytes :=
  ((bs.zipIdx n).filter fun x => !ranges.any fun r => r.1 ≤ x.2 && x.2 < r.2).map (·.1)

/-- The bytes whose offsets are in none of the ranges. -/
def outside (ranges : List (Nat × Nat)) (bs : Bytes) : Bytes := outsideFrom 0 ranges bs

/-- The bytes of a range. -/
def within (range : Nat × Nat) (bs : Bytes) : Bytes :=
  (bs.drop range.1).take (range.2 - range.1)

/-- The ranges of the source that edits replace. -/
def replaced (es : List Edit) : List (Nat × Nat) := es.map fun e => (e.first, e.last)

@[simp] theorem replaced_cons (e : Edit) (es : List Edit) :
    replaced (e :: es) = (e.first, e.last) :: replaced es := rfl

/-- The ranges of the result where the texts of ordered edits stand.  What is behind `cursor` in the
source comes to stand behind `place` in the result. -/
def inserted : Nat → Nat → List Edit → List (Nat × Nat)
  | _, _, [] => []
  | place, cursor, e :: es =>
      let start := place + (e.first - cursor)
      let stop := start + e.bytes.length
      (start, stop) :: inserted stop e.last es

theorem outsideFrom_append (n : Nat) (ranges : List (Nat × Nat)) (a b : Bytes) :
    outsideFrom n ranges (a ++ b) =
      outsideFrom n ranges a ++ outsideFrom (n + a.length) ranges b := by
  simp [outsideFrom, List.zipIdx_append]

/-- Bytes in front of all ranges are outside of them. -/
theorem outsideFrom_eq_self {n : Nat} {ranges : List (Nat × Nat)} {bs : Bytes}
    (h : ∀ r ∈ ranges, n + bs.length ≤ r.1) : outsideFrom n ranges bs = bs := by
  have hall : ∀ x ∈ bs.zipIdx n, (!ranges.any fun r => r.1 ≤ x.2 && x.2 < r.2) = true := by
    rintro ⟨b, i⟩ hx
    have hi := List.mem_zipIdx hx
    simp only [Bool.not_eq_true', List.any_eq_false, Bool.and_eq_true, decide_eq_true_eq]
    rintro r hr ⟨hle, -⟩
    have := h r hr
    omega
  rw [outsideFrom, List.filter_eq_self.2 hall, List.zipIdx_map_fst]

/-- The bytes of one of the ranges are not outside. -/
theorem outsideFrom_eq_nil {n : Nat} {ranges : List (Nat × Nat)} {bs : Bytes}
    (h : (n, n + bs.length) ∈ ranges) : outsideFrom n ranges bs = [] := by
  have hnone : ∀ x ∈ bs.zipIdx n, ¬ (!ranges.any fun r => r.1 ≤ x.2 && x.2 < r.2) = true := by
    rintro ⟨b, i⟩ hx
    have hi := List.mem_zipIdx hx
    simp only [Bool.not_eq_true', Bool.not_eq_false, List.any_eq_true, Bool.and_eq_true,
      decide_eq_true_eq]
    exact ⟨_, h, by omega, by omega⟩
  rw [outsideFrom, List.filter_eq_nil_iff.2 hnone, List.map_nil]

/-- A range that ends before the bytes does not matter to them. -/
theorem outsideFrom_cons_of_le {n : Nat} {r : Nat × Nat} {ranges : List (Nat × Nat)} {bs : Bytes}
    (h : r.2 ≤ n) : outsideFrom n (r :: ranges) bs = outsideFrom n ranges bs := by
  unfold outsideFrom
  congr 1
  apply List.filter_congr
  rintro ⟨b, i⟩ hx
  have hi := List.mem_zipIdx hx
  have hfalse : (decide (r.1 ≤ i) && decide (i < r.2)) = false := by
    simp only [Bool.and_eq_false_iff, decide_eq_false_iff_not]
    omega
  rw [List.any_cons, hfalse, Bool.false_or]

/-- Bytes in front of the first range, the bytes of that range, and the rest. -/
theorem outsideFrom_cons_append {n a b : Nat} {ranges : List (Nat × Nat)} {gap cut rest : Bytes}
    (ha : n + gap.length = a) (hb : a + cut.length = b) (hranges : ∀ r ∈ ranges, b ≤ r.1) :
    outsideFrom n ((a, b) :: ranges) (gap ++ cut ++ rest) = gap ++ outsideFrom b ranges rest := by
  have hgap : outsideFrom n ((a, b) :: ranges) gap = gap := by
    apply outsideFrom_eq_self
    intro r hr
    rcases List.mem_cons.1 hr with rfl | hr
    · exact ha.le
    · have := hranges r hr
      omega
  have hcut : outsideFrom (n + gap.length) ((a, b) :: ranges) cut = [] := by
    apply outsideFrom_eq_nil
    rw [ha, hb]
    exact List.mem_cons_self
  have hplace : n + (gap ++ cut).length = b := by
    rw [List.length_append]
    omega
  rw [outsideFrom_append, outsideFrom_append, hgap, hcut, hplace, List.append_nil,
    outsideFrom_cons_of_le (Nat.le_refl b)]

theorem le_of_mem_inserted {place cursor : Nat} {es : List Edit} {r : Nat × Nat}
    (h : r ∈ inserted place cursor es) : place ≤ r.1 := by
  induction es generalizing place cursor with
  | nil => cases h
  | cons e es ih =>
      rw [inserted, List.mem_cons] at h
      rcases h with rfl | h
      · exact Nat.le_add_right _ _
      · have := ih h
        omega

theorem le_of_mem_replaced {cursor : Nat} {es : List Edit} (hchain : Chained cursor es)
    (horder : ∀ e ∈ es, e.first ≤ e.last) {r : Nat × Nat} (h : r ∈ replaced es) : cursor ≤ r.1 := by
  induction es generalizing cursor with
  | nil => cases h
  | cons e es ih =>
      obtain ⟨hle, hchain⟩ := hchain
      have he := horder e List.mem_cons_self
      rw [replaced_cons, List.mem_cons] at h
      rcases h with rfl | h
      · exact hle
      · have := ih hchain (fun f hf => horder f (List.mem_cons_of_mem e hf)) h
        omega

/-- What is behind a cursor, cut at a range. -/
theorem drop_eq_append_of_le {source : Bytes} {cursor a b : Nat} (hca : cursor ≤ a)
    (hab : a ≤ b) :
    source.drop cursor =
      (source.drop cursor).take (a - cursor) ++ (source.drop a).take (b - a) ++ source.drop b := by
  have hb : source.drop b = (source.drop a).drop (b - a) := by
    rw [List.drop_drop]
    congr 1
    omega
  have ha : source.drop a = (source.drop cursor).drop (a - cursor) := by
    rw [List.drop_drop]
    congr 1
    omega
  rw [List.append_assoc, hb, List.take_append_drop, ha, List.take_append_drop]

theorem length_take_drop {bs : Bytes} {a b : Nat} (h : b ≤ bs.length) :
    ((bs.drop a).take (b - a)).length = b - a := by
  rw [List.length_take, List.length_drop]
  omega

/-- Outside the texts put in, the splice of what is behind a cursor is that part of the source
outside the ranges replaced. -/
theorem outsideFrom_inserted_splice {source : Bytes} {place cursor : Nat} {es : List Edit}
    (hchain : Chained cursor es) (horder : ∀ e ∈ es, e.first ≤ e.last)
    (hbound : ∀ e ∈ es, e.last ≤ source.length) :
    outsideFrom place (inserted place cursor es) (splice source cursor es) =
      outsideFrom cursor (replaced es) (source.drop cursor) := by
  induction es generalizing place cursor with
  | nil =>
      rw [splice, outsideFrom_eq_self (by intro r hr; cases hr),
        outsideFrom_eq_self (by intro r hr; cases hr)]
  | cons e es ih =>
      obtain ⟨hle, hchain⟩ := hchain
      have he := horder e List.mem_cons_self
      have hlast := hbound e List.mem_cons_self
      have horder' : ∀ f ∈ es, f.first ≤ f.last := fun f hf => horder f (List.mem_cons_of_mem e hf)
      have hgap := length_take_drop (a := cursor) (he.trans hlast)
      have hcut := length_take_drop (a := e.first) hlast
      rw [splice, inserted, outsideFrom_cons_append (by rw [hgap]) rfl
          (fun r hr => le_of_mem_inserted hr),
        ih hchain horder' (fun f hf => hbound f (List.mem_cons_of_mem e hf))]
      conv_rhs => rw [drop_eq_append_of_le hle he]
      rw [replaced_cons, outsideFrom_cons_append (by rw [hgap]; omega) (by rw [hcut]; omega)
        (fun r hr => le_of_mem_replaced hchain horder' hr)]

/-- The ranges of the result hold the texts of the edits. -/
theorem map_within_inserted {source front : Bytes} {cursor : Nat} {es : List Edit}
    (hchain : Chained cursor es) (horder : ∀ e ∈ es, e.first ≤ e.last)
    (hbound : ∀ e ∈ es, e.last ≤ source.length) :
    (inserted front.length cursor es).map (within · (front ++ splice source cursor es)) =
      es.map bytes := by
  induction es generalizing front cursor with
  | nil => rfl
  | cons e es ih =>
      obtain ⟨hle, hchain⟩ := hchain
      have he := horder e List.mem_cons_self
      have hgap := length_take_drop (a := cursor) (he.trans (hbound e List.mem_cons_self))
      have hlength : (front ++ (source.drop cursor).take (e.first - cursor) ++ e.bytes).length =
          front.length + (e.first - cursor) + e.bytes.length := by
        rw [List.length_append, List.length_append, hgap]
      have hrest := @ih (front ++ (source.drop cursor).take (e.first - cursor) ++ e.bytes) e.last
        hchain (fun f hf => horder f (List.mem_cons_of_mem e hf))
        (fun f hf => hbound f (List.mem_cons_of_mem e hf))
      have hassoc : front ++ splice source cursor (e :: es) =
          front ++ (source.drop cursor).take (e.first - cursor) ++ e.bytes ++
            splice source e.last es := by
        simp only [splice, List.append_assoc]
      rw [hlength] at hrest
      rw [inserted, List.map_cons, List.map_cons, hassoc, hrest]
      congr 1
      rw [within, List.append_assoc _ e.bytes]
      have hplace : front.length + (e.first - cursor) =
          (front ++ (source.drop cursor).take (e.first - cursor)).length := by
        rw [List.length_append, hgap]
      simp only [hplace, List.drop_left, Nat.add_sub_cancel_left, List.take_left]

/-- **The frame of a splice.**  The result outside the texts put in is the source outside the ranges
replaced, and the ranges of the result that are left out hold those texts. -/
theorem outside_inserted_splice {source : Bytes} {es : List Edit} (hchain : Chained 0 es)
    (hrange : ∀ e ∈ es, e.InRange source.length) :
    outside (inserted 0 0 es) (splice source 0 es) = outside (replaced es) source ∧
      (inserted 0 0 es).map (within · (splice source 0 es)) = es.map bytes := by
  have horder : ∀ e ∈ es, e.first ≤ e.last := fun e he => first_le_last (hrange e he)
  have hbound : ∀ e ∈ es, e.last ≤ source.length := fun e he => last_le_size (hrange e he)
  constructor
  · exact outsideFrom_inserted_splice hchain horder hbound
  · exact @map_within_inserted source [] 0 es hchain horder hbound

end Edit
end Injection
