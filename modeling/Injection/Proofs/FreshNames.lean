import Injection.Edit.Editor
import Injection.Proofs.TreeOrder
import Mathlib.Data.List.Nodup

/-!
# Fresh names

A fresh name is looked for among `_b`, `_b2`, `_b3` and so on, where `b` comes from the text that is
asked for.  The names that were handed out before are taken, also those of other bases: `uid` with
the number 22 and `uid2` with the number 2 are one name.

* `Fresh.Search` is the search without a bound on how far it goes, and `Fresh.FirstUnused` says what
  it is for; `search_iff` ties them together.
* `exists_unused`: the names of a base are distinct, so that one of them is free among any taken
  ones.  Hence `firstUnused_name`.
* `freshNames_run`: one call after the other, from any state of the editor.
* **`Editor.freshNames_first_unused`**: what a sequence of calls hands out.
-/

namespace Injection

namespace Fresh

/-! ## The names of a base -/

/-- The base that a text gives: what is behind its leading underscores, or `uid` if that is
nothing. -/
inductive Stem (text : String) : String → Prop
  | rest {k : Nat} {c : Char} {cs : List Char}
      (htext : text.toList = List.replicate k '_' ++ c :: cs) (hc : c ≠ '_') :
      Stem text (String.ofList (c :: cs))
  | nothing {k : Nat} (htext : text.toList = List.replicate k '_') : Stem text "uid"

/-- The names of a base by their numbers, which count from one: `_b`, `_b2`, `_b3` and so on. -/
def numbered (b : String) (n : Nat) : String := if n = 1 then "_" ++ b else "_" ++ b ++ toString n

theorem stem_base (text : String) : Stem text (base text) := by
  have hsplit := List.takeWhile_append_dropWhile (p := (· = '_')) (l := text.toList)
  have hfront : text.toList.takeWhile (· = '_') =
      List.replicate (text.toList.takeWhile (· = '_')).length '_' :=
    List.eq_replicate_of_mem fun c hc => by simpa using List.mem_takeWhile_imp hc
  rw [hfront] at hsplit
  rw [base]
  split
  · next hnil =>
      rw [hnil, List.append_nil] at hsplit
      exact .nothing hsplit.symm
  · next cs hne =>
      obtain ⟨c, cs', hcs⟩ := List.exists_cons_of_ne_nil hne
      have hc := List.head_dropWhile_not (· = '_') (l := text.toList) hne
      simp only [hcs, List.head_cons, decide_eq_false_iff_not] at hc
      rw [hcs] at hsplit ⊢
      exact .rest hsplit.symm hc

theorem candidate_eq_numbered (b : String) (i : Nat) : candidate b i = numbered b (i + 1) := by
  cases i with
  | zero => simp [candidate, numbered]
  | succ i => simp [candidate, numbered]

/-- Each number has a name of its own. -/
theorem candidate_injective (b : String) : Function.Injective (candidate b) := by
  intro i j h
  rw [candidate, candidate, String.append_right_inj] at h
  cases i with
  | zero =>
      cases j with
      | zero => rfl
      | succ j => exact absurd h.symm Nat.repr_ne_empty
  | succ i =>
      cases j with
      | zero => exact absurd h Nat.repr_ne_empty
      | succ j =>
          have hdigits : toString (i + 2) = toString (j + 2) := h
          have hread := congrArg (fun s : String => Nat.ofDigitChars 10 s.toList 0) hdigits
          simpa [Nat.toString_eq_ofList_toDigits] using hread

/-! ## The first unused one -/

variable {used used' : String → Prop} {b x : String} {n : Nat}

/-- Trying the names of a base one after the other, from number `n` on and without a bound, ends
with `name`. -/
inductive Search (used : String → Prop) (b : String) : Nat → String → Prop
  | stop {n : Nat} (h : ¬ used (numbered b n)) : Search used b n (numbered b n)
  | next {n : Nat} {name : String} (h : used (numbered b n)) (hrest : Search used b (n + 1) name) :
      Search used b n name

/-- Of the names of a base `name` is the first that is not used. -/
def FirstUnused (used : String → Prop) (b name : String) : Prop :=
  ∃ n, 1 ≤ n ∧ name = numbered b n ∧ ¬ used name ∧ ∀ m, 1 ≤ m → m < n → used (numbered b m)

theorem FirstUnused.congr (h : FirstUnused used b x) (hused : ∀ y, used y ↔ used' y) :
    FirstUnused used' b x := by
  obtain ⟨n, hn, hname, hfree, hbefore⟩ := h
  exact ⟨n, hn, hname, fun hx => hfree ((hused x).2 hx),
    fun m hm hlt => (hused _).1 (hbefore m hm hlt)⟩

theorem Search.exists_number (h : Search used b n x) :
    ∃ k, n ≤ k ∧ x = numbered b k ∧ ¬ used x ∧ ∀ m, n ≤ m → m < k → used (numbered b m) := by
  induction h with
  | @stop n h => exact ⟨n, le_rfl, rfl, h, fun m hm hlt => absurd hlt (Nat.not_lt.2 hm)⟩
  | @next n name h hrest ih =>
      obtain ⟨k, hk, hname, hfree, hbefore⟩ := ih
      refine ⟨k, Nat.le_of_succ_le hk, hname, hfree, fun m hm hlt => ?_⟩
      rcases Nat.eq_or_lt_of_le hm with rfl | hgt
      · exact h
      · exact hbefore m hgt hlt

theorem search_of_unused {k : Nat} (hn : n ≤ k) (hfree : ¬ used (numbered b k))
    (hbefore : ∀ m, n ≤ m → m < k → used (numbered b m)) : Search used b n (numbered b k) := by
  induction hdistance : k - n generalizing n with
  | zero =>
      obtain rfl : n = k := by omega
      exact .stop hfree
  | succ d ih =>
      refine .next (hbefore n le_rfl (by omega)) (ih (by omega) (fun m hm => ?_) (by omega))
      exact hbefore m (Nat.le_of_succ_le hm)

/-- The search ends with the first name that is not used, and only then. -/
theorem search_iff : Search used b 1 x ↔ FirstUnused used b x := by
  constructor
  · exact Search.exists_number
  · rintro ⟨k, hk, rfl, hfree, hbefore⟩
    exact search_of_unused hk hfree hbefore

/-- There are more names than taken ones, and no two of them are the same. -/
theorem exists_unused (taken : List String) (b : String) :
    ∃ i < taken.length + 1, candidate b i ∉ taken := by
  by_contra hnone
  push Not at hnone
  have hnodup : ((List.range (taken.length + 1)).map (candidate b)).Nodup :=
    List.nodup_range.map (candidate_injective b)
  have hsubset : (List.range (taken.length + 1)).map (candidate b) ⊆ taken := by
    intro x hx
    obtain ⟨i, hi, rfl⟩ := List.mem_map.1 hx
    exact hnone i (List.mem_range.1 hi)
  have hle := hnodup.length_le_of_subset hsubset
  rw [List.length_map, List.length_range] at hle
  omega

theorem firstUnused_name (taken : List String) (text : String) :
    FirstUnused (· ∈ taken) (base text) (name taken text) := by
  rw [name]
  split
  · next i hfind =>
      obtain ⟨hfree, -, hbefore⟩ := List.find?_range_eq_some.1 hfind
      refine ⟨i + 1, Nat.le_add_left 1 i, candidate_eq_numbered _ i, by simpa using hfree, ?_⟩
      intro m hm hlt
      have htaken := hbefore (m - 1) (by omega)
      rw [candidate_eq_numbered, Nat.sub_add_cancel hm] at htaken
      simpa using htaken
  · next hfind =>
      -- The bound of the search is never reached.
      obtain ⟨i, hi, hfree⟩ := exists_unused taken (base text)
      have htaken := List.find?_range_eq_none.1 hfind i hi
      exact absurd (by simpa using htaken) hfree

end Fresh

theorem Tree.mem_identifiers_iff {source : Bytes} {root : Tree} {name : String} :
    name ∈ root.identifiers source ↔
      ∃ t ∈ root.preorder, t.kind.isIdentifier = true ∧ t.text source = name := by
  rw [identifiers, walk_eq_preorder]
  simp [and_assoc]

namespace Editor

open Fresh

/-! ## One call after the other -/

/-- Ask for one fresh name after the other. -/
def freshNames : List String → Act Editor Failure (List String)
  | [] => pure []
  | text :: texts => do
    let name ← freshName text
    let names ← freshNames texts
    return name :: names

theorem freshName_run (text : String) (s : Editor) :
    freshName text s =
      (⟨s.edits, name s.taken text :: s.taken⟩, ⟨[], .ok (name s.taken text)⟩) := rfl

/-- Every call hands out the first name that is neither taken at the start nor handed out by an
earlier call. -/
theorem freshNames_run (texts : List String) (s : Editor) :
    ∃ names s', freshNames texts s = (s', ⟨[], .ok names⟩) ∧ names.length = texts.length ∧
      ∀ (k : Nat) (text name : String), texts[k]? = some text → names[k]? = some name →
        FirstUnused (fun x => x ∈ s.taken ∨ x ∈ names.take k) (base text) name := by
  induction texts generalizing s with
  | nil => exact ⟨[], s, rfl, rfl, fun k text name htext => absurd htext (by simp)⟩
  | cons text texts ih =>
      obtain ⟨names, s', hrun, hlength, hnames⟩ := ih (freshName text s).1
      refine ⟨name s.taken text :: names, s', ?_, by rw [List.length_cons, hlength]; rfl, ?_⟩
      · have hfirst : (freshName text s).2.result = .ok (name s.taken text) := rfl
        rw [freshNames, Act.bind_run_ok hfirst]
        have hrest : (freshNames texts (freshName text s).1).2.result = .ok names := by rw [hrun]
        rw [Act.bind_run_ok hrest, hrun]
        rfl
      · intro k text' name' htext hname
        cases k with
        | zero =>
            cases htext
            cases hname
            exact (firstUnused_name s.taken text).congr fun x => by simp
        | succ k =>
            -- For the later calls the name of the first one is among the taken names.
            refine (hnames k text' name' htext hname).congr fun x => ?_
            rw [freshName_run, List.take_succ_cons, List.mem_cons, List.mem_cons]
            tauto

/-- A name that a sequence of calls must not hand out: an identifier of the tree spells it, or it
was handed out earlier. -/
def Used (source : Bytes) (root : Tree) (earlier : List String) (name : String) : Prop :=
  (∃ t ∈ root.preorder, t.kind.isIdentifier = true ∧ t.text source = name) ∨ name ∈ earlier

/-- **Fresh names.**  A sequence of calls on one editor succeeds, whatever texts it asks for.  No
name is handed out twice, and none that an identifier of the tree spells.  Trying the names of its
base one after the other ends for every call, and it ends with the first name that is not used. -/
theorem freshNames_first_unused (source : Bytes) (root : Tree) (texts : List String) :
    ∃ names, (freshNames texts (new source root)).2.result = .ok names ∧
      names.length = texts.length ∧ names.Nodup ∧
      (∀ t ∈ root.preorder, t.kind.isIdentifier = true → t.text source ∉ names) ∧
      ∀ (k : Nat) (text name : String), texts[k]? = some text → names[k]? = some name →
        ∃ b, Stem text b ∧ Search (Used source root (names.take k)) b 1 name ∧
          FirstUnused (Used source root (names.take k)) b name := by
  obtain ⟨names, s', hrun, hlength, hnames⟩ := freshNames_run texts (new source root)
  have hfirst : ∀ (k : Nat) (text name : String), texts[k]? = some text → names[k]? = some name →
      FirstUnused (Used source root (names.take k)) (base text) name := by
    intro k text name htext hname
    refine (hnames k text name htext hname).congr fun x => ?_
    rw [new, Tree.mem_identifiers_iff, Used]
  -- Every name is the answer to a call, and so unused in front of it.
  have hunused : ∀ (k : Nat) (h : k < names.length),
      ¬ Used source root (names.take k) names[k] := by
    intro k h
    obtain ⟨n, -, -, hfree, -⟩ := hfirst k texts[k] names[k]
      (List.getElem?_eq_getElem (hlength ▸ h))
      (List.getElem?_eq_getElem h)
    exact hfree
  refine ⟨names, by rw [hrun], hlength, ?_, ?_, ?_⟩
  · rw [List.nodup_iff_pairwise_ne, List.pairwise_iff_getElem]
    intro i j hi hj hij heq
    refine hunused j hj (.inr ?_)
    rw [← heq]
    exact List.mem_take_iff_getElem.2 ⟨i, by omega, rfl⟩
  · intro t ht hkind hmem
    obtain ⟨k, hk, heq⟩ := List.mem_iff_getElem.1 hmem
    exact hunused k hk (.inl ⟨t, ht, hkind, heq.symm⟩)
  · intro k text name htext hname
    have h := hfirst k text name htext hname
    exact ⟨base text, stem_base text, search_iff.2 h, h⟩

example : (freshNames ["b2", "b", "__b", "b2", "_"] ⟨[], ["_uid"]⟩).2.result =
    .ok ["_b2", "_b", "_b3", "_b22", "_uid2"] := rfl

end Editor

end Injection
