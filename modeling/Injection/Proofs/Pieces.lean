import Injection.Proofs.Moved

/-!
# Pieces that stand in a text in order

`Holds` says that pieces stand in a text, each behind the one in front of it.  Ranges of a source
that follow each other are found again in the source with edits made: those that no edit meets stand
where they were copied, and the texts of the edits have to hold the others.

* `holds_within`: ranges that follow each other are held by a range around them.
* `exists_cut`: such ranges are in front of an edit, meet it, or are behind it.
* `holds_copies`: copies of ranges hold what the ranges hold.
* `holds_splice`: what the source with edits made holds.
-/

namespace Injection
namespace Edit

/-- The pieces stand in a text, each behind the one in front of it. -/
inductive Holds : List Bytes → Bytes → Prop where
  | nil (bs : Bytes) : Holds [] bs
  | cons (gap piece : Bytes) {pieces : List Bytes} {rest : Bytes} (h : Holds pieces rest) :
      Holds (piece :: pieces) (gap ++ piece ++ rest)

/-- Ranges that follow each other. -/
structure Follow (ks : List (Nat × Nat)) : Prop where
  ordered : ks.Pairwise fun a b => a.2 ≤ b.1
  bounds : ∀ k ∈ ks, k.1 ≤ k.2

namespace Holds

variable {ps qs : List Bytes} {as bs : Bytes}

theorem append_left (h : Holds ps bs) (as : Bytes) : Holds ps (as ++ bs) := by
  cases h with
  | nil => exact .nil _
  | cons gap piece h =>
      rw [← List.append_assoc, ← List.append_assoc]
      exact .cons (as ++ gap) piece h

theorem append (hp : Holds ps as) (hq : Holds qs bs) : Holds (ps ++ qs) (as ++ bs) := by
  induction hp with
  | nil as => exact hq.append_left as
  | cons gap piece _ ih =>
      rw [List.append_assoc]
      exact .cons gap piece ih

theorem append_right (h : Holds ps as) (bs : Bytes) : Holds ps (as ++ bs) := by
  have happend := h.append (.nil bs)
  rwa [List.append_nil] at happend

end Holds

namespace Follow

variable {ks : List (Nat × Nat)} {k : Nat × Nat}

theorem tail (h : Follow (k :: ks)) : Follow ks :=
  ⟨(List.pairwise_cons.1 h.ordered).2, fun j hj => h.bounds j (List.mem_cons_of_mem k hj)⟩

theorem le_of_mem (h : Follow (k :: ks)) {j : Nat × Nat} (hj : j ∈ ks) : k.2 ≤ j.1 :=
  (List.pairwise_cons.1 h.ordered).1 j hj

theorem sublist {ls : List (Nat × Nat)} (h : Follow ks) (hls : ls.Sublist ks) : Follow ls :=
  ⟨h.ordered.sublist hls, fun k hk => h.bounds k (hls.subset hk)⟩

/-- Ranges that follow each other, cut at a range: in front of it, meeting it, and behind it. -/
theorem exists_cut (h : Follow ks) (p q : Nat) :
    ∃ front mid back, ks = front ++ (mid ++ back) ∧ (∀ k ∈ front, k.2 ≤ p) ∧
      (∀ k ∈ mid, p < k.2 ∧ k.1 < q) ∧ ∀ k ∈ back, p < k.2 ∧ q ≤ k.1 := by
  induction ks with
  | nil => exact ⟨[], [], [], rfl, by simp, by simp, by simp⟩
  | cons k ks ih =>
      obtain ⟨front, mid, back, rfl, hfront, hmid, hback⟩ := ih h.tail
      by_cases hp : k.2 ≤ p
      case pos =>
        exact ⟨k :: front, mid, back, rfl, List.forall_mem_cons.2 ⟨hp, hfront⟩, hmid, hback⟩
      case neg =>
        -- nothing behind `k` is in front of the range any more
        obtain rfl : front = [] := by
          rw [List.eq_nil_iff_forall_not_mem]
          intro j hj
          have hle := h.le_of_mem (List.mem_append_left _ hj)
          have hbounds := h.tail.bounds j (List.mem_append_left _ hj)
          have := hfront j hj
          omega
        by_cases hq : k.1 < q
        · exact ⟨[], k :: mid, back, rfl, hfront, List.forall_mem_cons.2 ⟨⟨by omega, hq⟩, hmid⟩,
            hback⟩
        · refine ⟨[], [], k :: (mid ++ back), rfl, hfront, by simp, ?_⟩
          rw [List.forall_mem_cons]
          refine ⟨⟨by omega, by omega⟩, fun j hj => ?_⟩
          have hle := h.le_of_mem hj
          have hk := h.bounds k List.mem_cons_self
          have hj := h.tail.bounds j hj
          omega

end Follow

variable {bs source : Bytes} {ks : List (Nat × Nat)}

/-- A range holds the ranges inside it. -/
theorem holds_within {a b : Nat} (h : Follow ks) (hin : ∀ k ∈ ks, a ≤ k.1 ∧ k.2 ≤ b) :
    Holds (ks.map (within · bs)) (within (a, b) bs) := by
  induction ks generalizing a with
  | nil => exact .nil _
  | cons k ks ih =>
      obtain ⟨ha, hb⟩ := hin k List.mem_cons_self
      have hk := h.bounds k List.mem_cons_self
      have hrest : Holds (ks.map (within · bs)) (within (k.2, b) bs) :=
        ih h.tail fun j hj => ⟨h.le_of_mem hj, (hin j (List.mem_cons_of_mem k hj)).2⟩
      rw [within_append ha (hk.trans hb), within_append hk hb, ← List.append_assoc]
      exact .cons _ _ hrest

/-- Copies of ranges, one behind the other, hold the ranges inside them. -/
theorem holds_copies {ds : List (Nat × Nat)} (hds : Follow ds) (h : Follow ks)
    (hin : ∀ k ∈ ks, ∃ d ∈ ds, d.1 ≤ k.1 ∧ k.2 ≤ d.2) (gap : Bytes) :
    Holds (ks.map (within · bs)) (ds.flatMap fun d => within d bs ++ gap) := by
  induction ds generalizing ks with
  | nil =>
      obtain rfl : ks = [] := by
        rw [List.eq_nil_iff_forall_not_mem]
        intro k hk
        obtain ⟨d, hd, -⟩ := hin k hk
        cases hd
      exact .nil _
  | cons d ds ih =>
      obtain ⟨front, mid, back, rfl, hfront, hmid, hback⟩ := h.exists_cut d.2 d.2
      have hd := hds.bounds d List.mem_cons_self
      -- what does not end in the first range lies in one of the others
      have hlater : ∀ k ∈ mid ++ back, d.2 < k.2 → ∃ d' ∈ ds, d'.1 ≤ k.1 ∧ k.2 ≤ d'.2 := by
        intro k hk hlt
        obtain ⟨d', hd', hle⟩ := hin k (List.mem_append_right front hk)
        rcases List.mem_cons.1 hd' with rfl | hd'
        · omega
        · exact ⟨d', hd', hle⟩
      obtain rfl : mid = [] := by
        rw [List.eq_nil_iff_forall_not_mem]
        intro k hk
        obtain ⟨hlt, hgt⟩ := hmid k hk
        obtain ⟨d', hd', hle⟩ := hlater k (List.mem_append_left back hk) hlt
        have := hds.le_of_mem hd'
        omega
      have hcopy : Holds (front.map (within · bs)) (within d bs) :=
        holds_within (h.sublist (List.sublist_append_left front _)) fun k hk => by
          obtain ⟨d', hd', hle⟩ := hin k (List.mem_append_left _ hk)
          refine ⟨?_, hfront k hk⟩
          rcases List.mem_cons.1 hd' with rfl | hd'
          · exact hle.1
          · have := hds.le_of_mem hd'
            omega
      rw [List.nil_append] at h hlater ⊢
      rw [List.map_append, List.flatMap_cons]
      exact (hcopy.append_right gap).append
        (ih hds.tail (h.sublist (List.sublist_append_right front back)) fun k hk =>
          hlater k hk (hback k hk).1)

/-- **Ranges that are found again.**  Ranges of a source behind a cursor stand in the copy from
there on with edits made, if the text of every edit holds those that the edit meets. -/
theorem holds_splice {cursor : Nat} {es : List Edit} (h : Follow ks)
    (hin : ∀ k ∈ ks, cursor ≤ k.1 ∧ k.2 ≤ source.length)
    (hmeet : ∀ e ∈ es, ∀ mid : List (Nat × Nat), mid.Sublist ks →
      (∀ k ∈ mid, e.first < k.2 ∧ k.1 < e.last) → Holds (mid.map (within · source)) e.bytes) :
    Holds (ks.map (within · source)) (splice source cursor es) := by
  induction es generalizing cursor ks with
  | nil =>
      have hrest : splice source cursor [] = within (cursor, source.length) source := by
        rw [splice, within, List.take_of_length_le (by simp)]
      rw [hrest]
      exact holds_within h hin
  | cons e es ih =>
      obtain ⟨front, mid, back, rfl, hfront, hmid, hback⟩ := h.exists_cut e.first e.last
      have hsubmid : mid.Sublist (front ++ (mid ++ back)) :=
        (List.sublist_append_left mid back).trans (List.sublist_append_right front _)
      have hsubback : back.Sublist (front ++ (mid ++ back)) :=
        (List.sublist_append_right mid back).trans (List.sublist_append_right front _)
      have hcopy : Holds (front.map (within · source)) (within (cursor, e.first) source) :=
        holds_within (h.sublist (List.sublist_append_left front _)) fun k hk =>
          ⟨(hin k (List.mem_append_left _ hk)).1, hfront k hk⟩
      have hrest : Holds (back.map (within · source)) (splice source e.last es) :=
        ih (h.sublist hsubback) (fun k hk => ⟨(hback k hk).2, (hin k (hsubback.subset hk)).2⟩)
          fun f hf mid' hmid' => hmeet f (List.mem_cons_of_mem e hf) mid' (hmid'.trans hsubback)
      rw [List.map_append, List.map_append, splice, List.append_assoc]
      exact hcopy.append ((hmeet e List.mem_cons_self mid hsubmid hmid).append hrest)

end Edit
end Injection
