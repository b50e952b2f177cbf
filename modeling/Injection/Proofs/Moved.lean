import Injection.Proofs.Splice

/-!
# Where the offsets of a source come to stand

Edits that have been applied move what stands behind them.  An offset moves by the sizes of the
texts put in before it, less the sizes of the ranges taken out before it.  A text put in at the
offset itself counts for what starts there (`startMoved`) and not for what ends there (`stopMoved`).

* `within_moved`: what no edit reaches into is found again between the offsets moved.
* `rowAt_moved`: and so are the line breaks in it.
-/

namespace Injection
namespace Edit

/-- Edits in range that have been applied, and the result. -/
structure Applied (source : Bytes) (es : List Edit) (out : Bytes) : Prop where
  inRange : ∀ e ∈ es, e.InRange source.length
  chained : Chained 0 (ordered es)
  out_eq : out = splice source 0 (ordered es)

/-- The size of the texts of edits. -/
def gain (es : List Edit) : Nat := (es.map (·.bytes.length)).sum

/-- The size of the ranges of edits. -/
def loss (es : List Edit) : Nat := (es.map fun e => e.last - e.first).sum

/-- An offset moved by edits. -/
def moved (es : List Edit) (p : Nat) : Nat := p + gain es - loss es

/-- The edits that start before an offset. -/
def startingBefore (es : List Edit) (k : Nat) : List Edit := es.filter fun e => decide (e.first < k)

/-- Where what starts at an offset comes to start. -/
def startMoved (es : List Edit) (p : Nat) : Nat := moved (startingBefore es (p + 1)) p

/-- Where what ends at an offset comes to end. -/
def stopMoved (es : List Edit) (p : Nat) : Nat := moved (startingBefore es p) p

/-- The number of line breaks in front of an offset. -/
def rowAt (bs : Bytes) (p : Nat) : Nat := (bs.take p).count 10

/-- Two offsets are on one row exactly when no line break lies between them. -/
theorem rowAt_eq_iff {bs : Bytes} {a b : Nat} (hab : a ≤ b) :
    rowAt bs a = rowAt bs b ↔ (within (a, b) bs).count 10 = 0 := by
  have hrow : rowAt bs b = rowAt bs a + (within (a, b) bs).count 10 := by
    have hsum : b = a + (b - a) := by omega
    rw [rowAt, rowAt, within]
    conv_lhs => rw [hsum, List.take_add, List.count_append]
  rw [hrow]
  omega

/-- A range of a range. -/
theorem within_within {bs : Bytes} {a b i j : Nat} (h : j ≤ b - a) :
    within (i, j) (within (a, b) bs) = within (a + i, a + j) bs := by
  simp only [within]
  rw [List.drop_take, List.take_take, List.drop_drop]
  congr 1
  omega

/-- A range in two parts. -/
theorem within_append {bs : Bytes} {a b c : Nat} (hab : a ≤ b) (hbc : b ≤ c) :
    within (a, c) bs = within (a, b) bs ++ within (b, c) bs := by
  simp only [within]
  have hsum : c - a = (b - a) + (c - b) := by omega
  rw [hsum, List.take_add, List.drop_drop]
  congr 3
  omega

theorem length_within {bs : Bytes} {a b : Nat} (h : b ≤ bs.length) :
    (within (a, b) bs).length = b - a :=
  length_take_drop h

theorem moved_perm {es fs : List Edit} (h : es.Perm fs) (p : Nat) : moved es p = moved fs p := by
  have hgain : gain es = gain fs := (h.map _).sum_eq
  have hloss : loss es = loss fs := (h.map _).sum_eq
  rw [moved, moved, hgain, hloss]

/-- What is copied up to an offset in front of all edits, and the rest. -/
theorem splice_eq_take_append {source : Bytes} {cursor p : Nat} {es : List Edit} (hp : cursor ≤ p)
    (h : ∀ e ∈ es, p ≤ e.first) :
    splice source cursor es = (source.drop cursor).take (p - cursor) ++ splice source p es := by
  cases es with
  | nil =>
      rw [splice, splice]
      have hdrop : source.drop p = (source.drop cursor).drop (p - cursor) := by
        rw [List.drop_drop]
        congr 1
        omega
      rw [hdrop, List.take_append_drop]
  | cons e es =>
      have he := h e List.mem_cons_self
      have htake : (source.drop cursor).take (e.first - cursor) =
          (source.drop cursor).take (p - cursor) ++ (source.drop p).take (e.first - p) := by
        have hsum : e.first - cursor = (p - cursor) + (e.first - p) := by omega
        rw [hsum, List.take_add, List.drop_drop]
        congr 3
        omega
      rw [splice, splice, htake]
      simp only [List.append_assoc]

/-- A splice cut at an offset between two parts of the edits. -/
theorem splice_append {source : Bytes} {cursor p : Nat} {es fs : List Edit} (hcursor : cursor ≤ p)
    (hes : ∀ e ∈ es, e.first ≤ e.last ∧ e.last ≤ p) (hfs : ∀ e ∈ fs, p ≤ e.first) :
    splice source cursor (es ++ fs) = splice (source.take p) cursor es ++ splice source p fs := by
  induction es generalizing cursor with
  | nil =>
      rw [List.nil_append, splice_eq_take_append hcursor hfs, splice, List.drop_take]
  | cons e es ih =>
      have he := hes e List.mem_cons_self
      have hrest := ih he.2 fun f hf => hes f (List.mem_cons_of_mem e hf)
      have htake : ((source.take p).drop cursor).take (e.first - cursor) =
          (source.drop cursor).take (e.first - cursor) := by
        rw [List.drop_take, List.take_take]
        congr 1
        omega
      rw [List.cons_append, splice, splice, hrest, htake]
      simp only [List.append_assoc]

/-- The size of a splice of edits up to an offset. -/
theorem length_splice_take {source : Bytes} {cursor p : Nat} {es : List Edit}
    (hcursor : cursor ≤ p) (hp : p ≤ source.length) (hchain : Chained cursor es)
    (hes : ∀ e ∈ es, e.first ≤ e.last ∧ e.last ≤ p) :
    (splice (source.take p) cursor es).length + loss es = p - cursor + gain es := by
  induction es generalizing cursor with
  | nil => simp [splice, loss, gain, hp]
  | cons e es ih =>
      obtain ⟨hle, hchain⟩ := hchain
      have he := hes e List.mem_cons_self
      have hrest := ih he.2 hchain fun f hf => hes f (List.mem_cons_of_mem e hf)
      have hgap : (((source.take p).drop cursor).take (e.first - cursor)).length =
          e.first - cursor :=
        length_take_drop (by rw [List.length_take]; omega)
      have hgain : gain (e :: es) = e.bytes.length + gain es := rfl
      have hloss : loss (e :: es) = (e.last - e.first) + loss es := rfl
      rw [splice, List.length_append, List.length_append, hgap, hgain, hloss]
      omega

/-- Sorted edits are cut in two by an offset. -/
theorem startingBefore_append {es : List Edit} (h : es.Pairwise fun e f => e.first ≤ f.first)
    (k : Nat) : startingBefore es k ++ es.filter (fun e => !decide (e.first < k)) = es := by
  unfold startingBefore
  induction es with
  | nil => rfl
  | cons e es ih =>
      obtain ⟨hfirst, hsorted⟩ := List.pairwise_cons.1 h
      by_cases he : e.first < k
      · simp only [List.filter_cons, he, decide_true, if_true, Bool.not_true, Bool.false_eq_true,
          if_false, List.cons_append, ih hsorted]
      · -- all others start at or behind `e`
        have hnone : ∀ f ∈ es, ¬ f.first < k := by
          intro f hf
          have := hfirst f hf
          omega
        have hnil : es.filter (fun e => decide (e.first < k)) = [] :=
          List.filter_eq_nil_iff.2 fun f hf => by simpa using hnone f hf
        have hself : es.filter (fun e => !decide (e.first < k)) = es :=
          List.filter_eq_self.2 fun f hf => by simpa using hnone f hf
        simp [he, hnil, hself]

theorem pairwise_first_ordered (es : List Edit) :
    (ordered es).Pairwise fun e f => e.first ≤ f.first := by
  have hsorted : (ordered es).Pairwise fun a b => decide (a.start ≤ b.start) = true :=
    List.pairwise_mergeSort startsBefore_trans startsBefore_total es
  exact hsorted.imp fun h => Int.toNat_le_toNat (of_decide_eq_true h)

/-- A part of edits that are chained is chained. -/
theorem Chained.append_left {cursor : Nat} {es fs : List Edit} (h : Chained cursor (es ++ fs)) :
    Chained cursor es := by
  induction es generalizing cursor with
  | nil => trivial
  | cons e es ih => exact ⟨h.1, ih h.2⟩

namespace Applied

variable {source out : Bytes} {es : List Edit}

/-- The result cut at an offset that no edit reaches across: the edits that start before `k` end
before it, and the others start behind it. -/
theorem exists_append (h : Applied source es out) {k p : Nat} (hp : p ≤ source.length)
    (hbefore : ∀ e ∈ es, e.first < k → e.last ≤ p) (hbehind : ∀ e ∈ es, k ≤ e.first → p ≤ e.first) :
    ∃ front, out = front ++
        splice source p ((ordered es).filter fun e => !decide (e.first < k)) ∧
      front.length = moved (startingBefore es k) p := by
  have hcut := startingBefore_append (pairwise_first_ordered es) k
  have hfront : ∀ e ∈ startingBefore (ordered es) k, e.first ≤ e.last ∧ e.last ≤ p := by
    intro e he
    obtain ⟨he, hlt⟩ := List.mem_filter.1 he
    have hmem := mem_ordered.1 he
    exact ⟨first_le_last (h.inRange e hmem), hbefore e hmem (of_decide_eq_true hlt)⟩
  have hback : ∀ e ∈ (ordered es).filter (fun e => !decide (e.first < k)), p ≤ e.first := by
    intro e he
    obtain ⟨he, hle⟩ := List.mem_filter.1 he
    exact hbehind e (mem_ordered.1 he) (by simpa using hle)
  have hchain : Chained 0 (startingBefore (ordered es) k) := by
    have hchained := h.chained
    rw [← hcut] at hchained
    exact hchained.append_left
  have hperm : (startingBefore (ordered es) k).Perm (startingBefore es k) :=
    (List.mergeSort_perm es _).filter _
  refine ⟨splice (source.take p) 0 (startingBefore (ordered es) k), ?_, ?_⟩
  · rw [h.out_eq, ← splice_append (Nat.zero_le p) hfront hback, hcut]
  · have hlength := length_splice_take (Nat.zero_le p) hp hchain hfront
    rw [← moved_perm hperm p, moved]
    omega

/-- What no edit reaches into is found again.  The edits that start before `k` end before `a`, and
the others start behind `b`. -/
theorem within_moved (h : Applied source es out) {k a b : Nat} (hab : a ≤ b)
    (hb : b ≤ source.length) (hbefore : ∀ e ∈ es, e.first < k → e.last ≤ a)
    (hbehind : ∀ e ∈ es, k ≤ e.first → b ≤ e.first) :
    moved (startingBefore es k) b = moved (startingBefore es k) a + (b - a) ∧
      within (moved (startingBefore es k) a, moved (startingBefore es k) b) out =
        within (a, b) source := by
  obtain ⟨front, hout, hfront⟩ := h.exists_append (hab.trans hb) hbefore
    fun e he hk => hab.trans (hbehind e he hk)
  obtain ⟨front', hout', hfront'⟩ := h.exists_append hb
    (fun e he hk => (hbefore e he hk).trans hab) hbehind
  have hrest : splice source a ((ordered es).filter fun e => !decide (e.first < k)) =
      (source.drop a).take (b - a) ++
        splice source b ((ordered es).filter fun e => !decide (e.first < k)) := by
    apply splice_eq_take_append hab
    intro e he
    obtain ⟨he, hle⟩ := List.mem_filter.1 he
    exact hbehind e (mem_ordered.1 he) (by simpa using hle)
  have hlength := length_take_drop (a := a) hb
  -- both cuts are of the same result, so their sizes tell how far apart they are
  have hmoved : moved (startingBefore es k) b = moved (startingBefore es k) a + (b - a) := by
    have hsizes := congrArg List.length (hout.symm.trans hout')
    rw [hrest] at hsizes
    simp only [List.length_append, hlength, hfront, hfront'] at hsizes
    omega
  refine ⟨hmoved, ?_⟩
  rw [hmoved, within, within, hout, hrest, ← hfront]
  simp only [List.drop_left, Nat.add_sub_cancel_left]
  rw [List.take_append_of_le_length (by rw [hlength]), List.take_of_length_le (by rw [hlength])]

/-- The line breaks of what no edit reaches into are found again. -/
theorem rowAt_moved (h : Applied source es out) {k a b : Nat} (hab : a ≤ b)
    (hb : b ≤ source.length) (hbefore : ∀ e ∈ es, e.first < k → e.last ≤ a)
    (hbehind : ∀ e ∈ es, k ≤ e.first → b ≤ e.first) :
    rowAt source a = rowAt source b ↔
      rowAt out (moved (startingBefore es k) a) = rowAt out (moved (startingBefore es k) b) := by
  obtain ⟨hmoved, hwithin⟩ := h.within_moved hab hb hbefore hbehind
  have hle : moved (startingBefore es k) a ≤ moved (startingBefore es k) b := by omega
  rw [rowAt_eq_iff hab, rowAt_eq_iff hle, hwithin]

/-- The edits that start before one offset are those that start before another one, if none starts
between the two. -/
theorem startingBefore_congr {j k : Nat} (h : ∀ e ∈ es, e.first < j ↔ e.first < k) :
    startingBefore es j = startingBefore es k :=
  List.filter_congr fun e he => decide_eq_decide.2 (h e he)

/-- A range that no edit reaches into is found again. -/
theorem within_of_still (h : Applied source es out) {a b : Nat} (hab : a < b)
    (hb : b ≤ source.length) (hstill : ∀ e ∈ es, e.last ≤ a ∨ b ≤ e.first) :
    within (startMoved es a, stopMoved es b) out = within (a, b) source := by
  have hle : ∀ e ∈ es, e.first ≤ e.last := fun e he => first_le_last (h.inRange e he)
  have hsame : startingBefore es (a + 1) = startingBefore es b := by
    apply startingBefore_congr
    intro e he
    have := hle e he
    have := hstill e he
    omega
  rw [startMoved, stopMoved, hsame]
  refine (h.within_moved hab.le hb ?_ ?_).2
  · intro e he hlt
    have := hstill e he
    omega
  · intro e he hge
    exact hge

/-- Whether there is a line break between the end of one thing and the start of another one, when no
edit lies between them. -/
theorem rowAt_stop_start (h : Applied source es out) {a b : Nat} (hab : a ≤ b)
    (hb : b ≤ source.length)
    (hgap : ∀ e ∈ es, (e.first < a ∧ e.last ≤ a) ∨ b < e.first) :
    rowAt source a = rowAt source b ↔
      rowAt out (stopMoved es a) = rowAt out (startMoved es b) := by
  have hsame : startingBefore es a = startingBefore es (b + 1) := by
    apply startingBefore_congr
    intro e he
    have := hgap e he
    omega
  rw [startMoved, stopMoved, ← hsame]
  apply h.rowAt_moved hab hb
  · intro e he hlt
    have := hgap e he
    omega
  · intro e he hge
    have := hgap e he
    omega

/-- The same when something has been put in where the first thing ends. -/
theorem rowAt_start_start (h : Applied source es out) {a b : Nat} (hab : a ≤ b)
    (hb : b ≤ source.length) (hgap : ∀ e ∈ es, e.last ≤ a ∨ b < e.first) :
    rowAt source a = rowAt source b ↔
      rowAt out (startMoved es a) = rowAt out (startMoved es b) := by
  have hle : ∀ e ∈ es, e.first ≤ e.last := fun e he => first_le_last (h.inRange e he)
  have hsame : startingBefore es (a + 1) = startingBefore es (b + 1) := by
    apply startingBefore_congr
    intro e he
    have := hle e he
    have := hgap e he
    omega
  rw [startMoved, startMoved, ← hsame]
  apply h.rowAt_moved hab hb
  · intro e he hlt
    have := hgap e he
    omega
  · intro e he hge
    have := hle e he
    have := hgap e he
    omega

end Applied
end Edit
end Injection
