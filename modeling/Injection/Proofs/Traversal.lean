import Injection.Proofs.TreeOrder

/-!
# Which nodes are met, and which statements are visited

A node of a tree is known by its place: the numbers of the children on the way from the root.  Two
nodes may look the same, their places differ.  Places are compared as words: a node comes before
all nodes inside it, and these come before what stands behind it.

* `map_snd_spots`, `mem_spots`, `pairwise_spots`: the preorder meets the node of every place, once,
  in the order of the places.
* `map_snd_statementSpots`, `mem_statementSpots`, `pairwise_statementSpots`: the same for the
  statements, each known by the place of its container and its number among the children.
* `changes_eq_calls`: a pass is the sequence of its calls of `visit`.
* `sites_calls_of_ok`, `sites_calls_of_error`: the calls go through the statements one by one, until
  one fails.
* **`run_visits_statements`** puts this together.
-/

namespace Injection

/-! ## Places of nodes -/

namespace Tree

/-- The node at a place. -/
def nodeAt? (t : Tree) : List Nat → Option Tree
  | [] => some t
  | i :: p => t.children[i]?.bind fun c => c.nodeAt? p

mutual

/-- The nodes of a tree with their places. -/
def spots : Tree → List (List Nat × Tree)
  | .node l cs => ([], .node l cs) :: forestSpots 0 cs

/-- The nodes of several trees with their places; the first tree is child number `i`. -/
def forestSpots (i : Nat) : List Tree → List (List Nat × Tree)
  | [] => []
  | t :: ts => t.spots.map (fun x => (i :: x.1, x.2)) ++ forestSpots (i + 1) ts

end

theorem forestSpots_eq (i : Nat) (ts : List Tree) :
    forestSpots i ts =
      (ts.zipIdx i).flatMap fun c => c.1.spots.map fun x => (c.2 :: x.1, x.2) := by
  induction ts generalizing i with
  | nil => simp [forestSpots]
  | cons t ts ih => simp [forestSpots, ih, List.zipIdx_cons]

@[simp] theorem spots_node (l : Label) (cs : List Tree) :
    (node l cs).spots = ([], node l cs) ::
      cs.zipIdx.flatMap fun c => c.1.spots.map fun x => (c.2 :: x.1, x.2) := by
  rw [spots, forestSpots_eq]

theorem pairwise_zipIdx {α : Type} (cs : List α) : cs.zipIdx.Pairwise fun a b => a.2 < b.2 := by
  have h : (cs.zipIdx.map Prod.snd).Pairwise (· < ·) := by
    rw [List.zipIdx_map_snd]
    exact List.pairwise_lt_range'
  exact List.pairwise_map.1 h

/-- Without their places, the nodes are those of the preorder. -/
theorem map_snd_spots (t : Tree) : t.spots.map (·.2) = t.preorder := by
  induction t using Tree.induction with
  | node l cs ih =>
      have hchildren : cs.flatMap preorder =
          cs.zipIdx.flatMap fun c => (c.1.spots.map fun x => (c.2 :: x.1, x.2)).map (·.2) := by
        conv_lhs => rw [← List.zipIdx_map_fst 0 cs, List.flatMap_map]
        refine List.flatMap_congr fun c hc => ?_
        rw [← ih c.1 (List.fst_mem_of_mem_zipIdx hc), List.map_map]
        rfl
      rw [spots_node, preorder_node, List.map_cons, List.map_flatMap, hchildren]

/-- Every place of a tree is listed, with its node. -/
theorem mem_spots {t n : Tree} {p : List Nat} : (p, n) ∈ t.spots ↔ t.nodeAt? p = some n := by
  induction t using Tree.induction generalizing p with
  | node l cs ih =>
      rw [spots_node, List.mem_cons, List.mem_flatMap]
      cases p with
      | nil => simp [nodeAt?, eq_comm]
      | cons i p =>
          -- the place leads into child number `i`
          simp only [nodeAt?, children, Option.bind_eq_some_iff, List.mem_map, Prod.mk.injEq,
            List.cons.injEq, reduceCtorEq, false_and, false_or]
          constructor
          · rintro ⟨⟨c, j⟩, hc, ⟨q, m⟩, hq, ⟨rfl, rfl⟩, rfl⟩
            exact ⟨c, List.mem_zipIdx_iff_getElem?.1 hc,
              (ih c (List.fst_mem_of_mem_zipIdx hc)).1 hq⟩
          · rintro ⟨c, hc, hp⟩
            exact ⟨(c, i), List.mem_zipIdx_iff_getElem?.2 hc, (p, n),
              (ih c (List.mem_of_getElem? hc)).2 hp, ⟨rfl, rfl⟩, rfl⟩

/-- The places are listed in their order, so each of them once. -/
theorem pairwise_spots (t : Tree) : t.spots.Pairwise fun a b => a.1 < b.1 := by
  induction t using Tree.induction with
  | node l cs ih =>
      rw [spots_node, List.pairwise_cons, List.pairwise_flatMap]
      refine ⟨?_, ?_, ?_⟩
      · -- the root is in front of its children
        intro x hx
        obtain ⟨c, -, hx⟩ := List.mem_flatMap.1 hx
        obtain ⟨y, -, rfl⟩ := List.mem_map.1 hx
        exact List.nil_lt_cons c.2 y.1
      · intro c hc
        rw [List.pairwise_map]
        exact (ih c.1 (List.fst_mem_of_mem_zipIdx hc)).imp fun h =>
          List.cons_lt_cons_iff.2 (.inr ⟨rfl, h⟩)
      · refine (pairwise_zipIdx cs).imp fun {c d} hcd x hx y hy => ?_
        obtain ⟨x, -, rfl⟩ := List.mem_map.1 hx
        obtain ⟨y, -, rfl⟩ := List.mem_map.1 hy
        exact List.cons_lt_cons_iff.2 (.inl hcd)

/-! ## Places of statements -/

/-- The child of a node, with its siblings, by the place of the node and the number of the child. -/
def siteAt? (t : Tree) (q : List Nat × Nat) : Option Site :=
  (t.nodeAt? q.1).bind fun n => (Site.children n)[q.2]?

/-- A named child of a container that is no comment. -/
def HasStatement (t : Tree) (q : List Nat × Nat) : Prop :=
  ∃ container s, t.nodeAt? q.1 = some container ∧ container.kind.isContainer = true ∧
    container.children[q.2]? = some s ∧ s.label.named = true ∧ s.kind ≠ .comment

/-- The statements of a tree with their places. -/
def statementSpots (t : Tree) : List ((List Nat × Nat) × Site) :=
  (t.spots.filter (·.2.kind.isContainer)).flatMap fun x =>
    ((Site.children x.2).zipIdx.filter fun s =>
      s.1.node.label.named && s.1.node.kind ≠ .comment).map fun s => ((x.1, s.2), s.1)

/-- Without their places, the statements are those that a pass goes through. -/
theorem map_snd_statementSpots (t : Tree) :
    t.statementSpots.map (·.2) = Site.allStatements t := by
  have hstatements : ∀ x : List Nat × Tree,
      (((Site.children x.2).zipIdx.filter fun s =>
        s.1.node.label.named && s.1.node.kind ≠ .comment).map fun s => ((x.1, s.2), s.1)).map
          (·.2) = Site.statements x.2 := by
    intro x
    conv_rhs => rw [Site.statements, ← List.zipIdx_map_fst 0 (Site.children x.2), List.filter_map]
    rw [List.map_map]
    rfl
  have hcontainers : t.walk.filter (·.kind.isContainer) =
      (t.spots.filter (·.2.kind.isContainer)).map (·.2) := by
    rw [walk_eq_preorder, ← map_snd_spots, List.filter_map]
    rfl
  rw [statementSpots, List.map_flatMap, Site.allStatements, hcontainers, List.flatMap_map]
  exact List.flatMap_congr fun x _ => hstatements x

theorem getElem?_children (n : Tree) (i : Nat) :
    n.children[i]? = (Site.children n)[i]?.map (·.node) := by
  rw [Site.children, ← List.getElem?_map, Site.map_node_ofList]

/-- Every statement of every container is listed, with its place. -/
theorem mem_statementSpots {t : Tree} {q : List Nat × Nat} {s : Site} :
    (q, s) ∈ t.statementSpots ↔ t.HasStatement q ∧ t.siteAt? q = some s := by
  obtain ⟨p, i⟩ := q
  simp only [statementSpots, List.mem_flatMap, List.mem_filter, List.mem_map, Prod.mk.injEq,
    Prod.exists, HasStatement, siteAt?, Option.bind_eq_some_iff, getElem?_children,
    Option.map_eq_some_iff, List.mem_zipIdx_iff_getElem?, mem_spots, Bool.and_eq_true,
    decide_eq_true_eq]
  constructor
  · rintro ⟨_, n, ⟨hn, hkind⟩, _, _, ⟨hs, hstatement⟩, ⟨rfl, rfl⟩, rfl⟩
    exact ⟨⟨n, _, hn, hkind, ⟨_, hs, rfl⟩, hstatement⟩, n, hn, hs⟩
  · rintro ⟨⟨n, _, hn, hkind, ⟨s', hs', rfl⟩, hstatement⟩, n', hn', hs⟩
    obtain rfl : n = n' := Option.some.inj (hn.symm.trans hn')
    obtain rfl : s' = s := Option.some.inj (hs'.symm.trans hs)
    exact ⟨p, n, ⟨hn, hkind⟩, s', i, ⟨hs, hstatement⟩, ⟨rfl, rfl⟩, rfl⟩

theorem mem_map_fst_statementSpots {t : Tree} {q : List Nat × Nat} :
    q ∈ t.statementSpots.map (·.1) ↔ t.HasStatement q := by
  simp only [List.mem_map, Prod.exists, exists_and_right, exists_eq_right, mem_statementSpots]
  constructor
  · rintro ⟨s, hq, -⟩
    exact hq
  · rintro ⟨n, u, hn, hkind, hu, hstatement⟩
    obtain ⟨s, hs, -⟩ := Option.map_eq_some_iff.1 ((n.getElem?_children q.2).symm.trans hu)
    exact ⟨s, ⟨n, u, hn, hkind, hu, hstatement⟩, Option.bind_eq_some_iff.2 ⟨n, hn, hs⟩⟩

/-- The statements are listed container by container, those of one container by their numbers. -/
theorem pairwise_statementSpots (t : Tree) :
    t.statementSpots.Pairwise fun a b => Prod.Lex (· < ·) (· < ·) a.1 b.1 := by
  rw [statementSpots, List.pairwise_flatMap]
  constructor
  · intro x _
    rw [List.pairwise_map]
    refine ((pairwise_zipIdx (Site.children x.2)).sublist List.filter_sublist).imp
      fun {s u} hsu => ?_
    exact Prod.Lex.right x.1 hsu
  · refine (t.pairwise_spots.sublist List.filter_sublist).imp fun {x y} hxy a ha b hb => ?_
    obtain ⟨s, -, rfl⟩ := List.mem_map.1 ha
    obtain ⟨u, -, rfl⟩ := List.mem_map.1 hb
    exact Prod.Lex.left s.2 u.2 hxy

/-! ## Listings of places -/

/-- A listing of all places of a tree, in the order in which `walk` meets the nodes. -/
structure WalkOrder (t : Tree) (places : List (List Nat)) : Prop where
  exactly : ∀ p, p ∈ places ↔ ∃ n, t.nodeAt? p = some n
  once : places.Nodup
  /-- A node comes before the nodes inside it, and these before what stands behind it. -/
  ordered : places.Pairwise (· < ·)
  nodes : t.walk.map some = places.map t.nodeAt?

theorem walkOrder_spots (t : Tree) : t.WalkOrder (t.spots.map (·.1)) := by
  have hordered : (t.spots.map (·.1)).Pairwise (· < ·) := List.pairwise_map.2 t.pairwise_spots
  refine ⟨fun p => ?_, hordered.imp fun h => ?_, hordered, ?_⟩
  · simp only [List.mem_map, Prod.exists, exists_and_right, exists_eq_right, mem_spots]
  · exact ne_of_lt h
  · rw [walk_eq_preorder, ← map_snd_spots, List.map_map, List.map_map]
    refine List.map_congr_left fun x hx => ?_
    exact (mem_spots.1 hx).symm

/-- A listing of the places of all statements of a tree. -/
structure VisitOrder (t : Tree) (places : List (List Nat × Nat)) : Prop where
  exactly : ∀ q, q ∈ places ↔ t.HasStatement q
  once : places.Nodup
  /-- The statements of one container stand in the order of its children. -/
  inOrder : ∀ p i j, (p, i) ∈ places → (p, j) ∈ places → i < j →
    [(p, i), (p, j)].Sublist places
  /-- The statements of a container stand before those of the containers inside it. -/
  outerFirst : ∀ p r i j, r ≠ [] → (p, i) ∈ places → (p ++ r, j) ∈ places →
    [(p, i), (p ++ r, j)].Sublist places

/-- Two members of a list in order, of which the second one cannot stand before the first one. -/
theorem pair_sublist {α : Type} {R : α → α → Prop} {l : List α} {a b : α} (hl : l.Pairwise R)
    (ha : a ∈ l) (hb : b ∈ l) (hne : a ≠ b) (hba : ¬ R b a) : [a, b].Sublist l := by
  obtain ⟨xs, ys, rfl⟩ := List.append_of_mem ha
  rcases List.mem_append.1 hb with hxs | hys
  · exact absurd ((List.pairwise_append.1 hl).2.2 b hxs a List.mem_cons_self) hba
  · rcases List.mem_cons.1 hys with rfl | hys
    · exact absurd rfl hne
    · have hpair : [a, b].Sublist (a :: ys) := (List.singleton_sublist.2 hys).cons_cons a
      exact hpair.trans (List.sublist_append_right xs (a :: ys))

theorem visitOrder_statementSpots (t : Tree) :
    t.VisitOrder (t.statementSpots.map (·.1)) := by
  have hordered : (t.statementSpots.map (·.1)).Pairwise (Prod.Lex (· < ·) (· < ·)) :=
    List.pairwise_map.2 t.pairwise_statementSpots
  refine ⟨fun q => mem_map_fst_statementSpots, hordered.imp fun {a b} h => ?_,
    fun p i j hi hj hij => ?_, fun p r i j hr hi hj => ?_⟩
  · rintro rfl
    rcases Prod.lex_iff.1 h with h | ⟨-, h⟩
    · exact lt_irrefl a.1 h
    · exact lt_irrefl a.2 h
  · refine pair_sublist hordered hi hj ?_ ?_
    · simp only [ne_eq, Prod.mk.injEq, true_and]
      omega
    · intro h
      rcases Prod.lex_iff.1 h with h | ⟨-, h⟩
      · exact lt_irrefl p h
      · exact absurd hij (Nat.lt_asymm h)
  · -- the place of a container is a proper prefix of the places inside it
    have hne : p ≠ p ++ r := by simpa using hr
    refine pair_sublist hordered hi hj (fun h => hne (congrArg Prod.fst h)) ?_
    intro h
    rcases Prod.lex_iff.1 h with h | ⟨h, -⟩
    · exact (List.prefix_append p r).le h
    · exact hne h.symm

end Tree

/-! ## Calls -/

namespace Pass

/-- A call of `visit`: the names taken when it is made, and the statement that it is made on. -/
structure Call where
  taken : List String
  site : Site

/-- What a call answers. -/
def Call.answer (c : Context) (k : Call) : Logged Failure (List String × Option Change) :=
  visit c k.taken k.site

/-- The calls that a pass over statements makes, up to the first that fails. -/
def calls (c : Context) : List String → List Site → List Call
  | _, [] => []
  | taken, s :: ss =>
      ⟨taken, s⟩ ::
        match (visit c taken s).result with
        | .ok (taken, _) => calls c taken ss
        | .error _ => []

/-- The changes that the answers to calls make, in their order. -/
def collect (answers : List (List String × Option Change)) : List Change :=
  answers.flatMap (·.2.toList)

variable {c : Context} {taken taken' : List String} {s : Site} {ss : List Site}
  {change? : Option Change}

theorem calls_cons_of_ok (h : (visit c taken s).result = .ok (taken', change?)) :
    calls c taken (s :: ss) = ⟨taken, s⟩ :: calls c taken' ss := by
  rw [calls, h]

theorem calls_cons_of_error {e : Failure} (h : (visit c taken s).result = .error e) :
    calls c taken (s :: ss) = [⟨taken, s⟩] := by
  rw [calls, h]

/-- A pass makes its calls one after the other and does nothing else. -/
theorem changes_eq_calls (c : Context) (taken : List String) (ss : List Site) :
    changes c taken ss = collect <$> (calls c taken ss).mapM (Call.answer c) := by
  induction ss generalizing taken with
  | nil => simp [changes, calls, collect]
  | cons s ss ih =>
      have hanswer : Call.answer c ⟨taken, s⟩ = visit c taken s := rfl
      cases hvisit : (visit c taken s).result with
      | error e =>
          rw [changes, calls_cons_of_error hvisit, List.mapM_cons, map_bind, hanswer,
            Logged.bind_of_error hvisit, Logged.bind_of_error hvisit]
      | ok out =>
          obtain ⟨taken', change?⟩ := out
          rw [changes, calls_cons_of_ok hvisit, List.mapM_cons, map_bind, hanswer,
            Logged.bind_of_ok hvisit, Logged.bind_of_ok hvisit]
          dsimp only
          rw [ih taken']
          simp only [map_bind, map_pure, bind_map_left, collect, List.flatMap_cons]

/-- A pass that succeeds has made a call on every statement. -/
theorem sites_calls_of_ok {chs : List Change} (h : (changes c taken ss).result = .ok chs) :
    (calls c taken ss).map (·.site) = ss := by
  induction ss generalizing taken chs with
  | nil => simp [calls]
  | cons s ss ih =>
      rw [changes, Logged.result_bind_eq_ok_iff] at h
      obtain ⟨⟨taken', change?⟩, hvisit, h⟩ := h
      obtain ⟨rest, hrest, -⟩ := (Logged.result_bind_eq_ok_iff _ _ _).1 h
      rw [calls_cons_of_ok hvisit, List.map_cons, ih hrest]

/-- A pass that fails has made calls on the statements up to the one whose call failed. -/
theorem sites_calls_of_error {e : Failure} (h : (changes c taken ss).result = .error e) :
    ∃ done failed rest, calls c taken ss = done ++ [failed] ∧
      ss = (calls c taken ss).map (·.site) ++ rest ∧ (failed.answer c).result = .error e ∧
      ∀ k ∈ done, ∃ out, (k.answer c).result = .ok out := by
  induction ss generalizing taken with
  | nil => cases h
  | cons s ss ih =>
      rw [changes, Logged.result_bind] at h
      cases hvisit : (visit c taken s).result with
      | error f =>
          rw [hvisit] at h
          obtain rfl : f = e := Except.error.inj h
          refine ⟨[], ⟨taken, s⟩, ss, calls_cons_of_error hvisit, ?_, hvisit, by simp⟩
          rw [calls_cons_of_error hvisit, List.map_singleton, List.singleton_append]
      | ok out =>
          obtain ⟨taken', change?⟩ := out
          -- this call succeeded, so the failure is one of the calls behind it
          have hrest : (changes c taken' ss).result = .error e := by
            rw [hvisit] at h
            cases hresult : (changes c taken' ss).result with
            | error f => simpa [Except.bind, Except.map, hresult] using h
            | ok chs => simp [Except.bind, Except.map, hresult] at h
          obtain ⟨done, failed, rest, hcalls, hsites, hfailed, hdone⟩ := ih hrest
          refine ⟨⟨taken, s⟩ :: done, failed, rest, ?_, ?_, hfailed, ?_⟩
          · rw [calls_cons_of_ok hvisit, hcalls, List.cons_append]
          · rw [calls_cons_of_ok hvisit, List.map_cons, List.cons_append, ← hsites]
          · intro k hk
            rcases List.mem_cons.1 hk with rfl | hk
            · exact ⟨(taken', change?), hvisit⟩
            · exact hdone k hk

/-- **The traversal of a pass.**  The stack yields the recursive preorder, which lists the nodes at
all places, each once.  A run is the sequence of its calls of `visit`.  If no call fails, these are
made at the places of all statements of all containers, once at each and nowhere else, in the order
of the children of a container and on the statements of a container before those of containers
inside it; a call that fails is the last one. -/
theorem run_visits_statements (c : Context) (t : Tree) :
    t.walk = t.preorder ∧ (∃ places, t.WalkOrder places) ∧
      ∃ (places : List (List Nat × Nat)) (ks : List Call), t.VisitOrder places ∧
        run c t = collect <$> ks.mapM (Call.answer c) ∧
        (∀ chs, (run c t).result = .ok chs →
          ks.map (fun k => some k.site) = places.map t.siteAt?) ∧
        ∀ e, (run c t).result = .error e → ∃ done failed,
          ks = done ++ [failed] ∧ (failed.answer c).result = .error e ∧
          (∀ k ∈ done, ∃ out, (k.answer c).result = .ok out) ∧
          ks.map (fun k => some k.site) <+: places.map t.siteAt? := by
  have hsites : (t.statementSpots.map (·.1)).map t.siteAt? =
      (Site.allStatements t).map some := by
    rw [← t.map_snd_statementSpots, List.map_map, List.map_map]
    exact List.map_congr_left fun x hx => (Tree.mem_statementSpots.1 hx).2
  refine ⟨t.walk_eq_preorder, ⟨_, t.walkOrder_spots⟩, _,
    calls c (t.identifiers c.source) (Site.allStatements t), t.visitOrder_statementSpots,
    changes_eq_calls _ _ _, fun chs hrun => ?_, fun e hrun => ?_⟩
  · have hcalls := sites_calls_of_ok (c := c) hrun
    rw [hsites]
    conv_rhs => rw [← hcalls, List.map_map]
    rfl
  · obtain ⟨done, failed, rest, hcalls, hrest, hfailed, hdone⟩ :=
      sites_calls_of_error (c := c) hrun
    refine ⟨done, failed, hcalls, hfailed, hdone, rest.map some, ?_⟩
    rw [hsites]
    conv_rhs => rw [hrest, List.map_append, List.map_map]
    rfl

/-- A function with a statement in its block, another statement and a comment. -/
def blockSource : String := "function f() \x7b g; \x7d\nh; // c"

/-- The tree of `blockSource`. -/
def blockTree : Tree :=
  .node ⟨.program, true, false, 0, 27, 0, 1, none, 0⟩ [
    .node ⟨.functionDeclaration, true, false, 0, 19, 0, 0, none, 1⟩ [
      .node ⟨.function, false, false, 0, 8, 0, 0, none, 2⟩ [],
      .node ⟨.identifier, true, false, 9, 10, 0, 0, some "name", 3⟩ [],
      .node ⟨.formalParameters, true, false, 10, 12, 0, 0, some "parameters", 4⟩ [
        .node ⟨.other "(", false, false, 10, 11, 0, 0, none, 5⟩ [],
        .node ⟨.other ")", false, false, 11, 12, 0, 0, none, 6⟩ []],
      .node ⟨.statementBlock, true, false, 13, 19, 0, 0, some "body", 7⟩ [
        .node ⟨.other "\x7b", false, false, 13, 14, 0, 0, none, 8⟩ [],
        .node ⟨.expressionStatement, true, false, 15, 17, 0, 0, none, 9⟩ [
          .node ⟨.identifier, true, false, 15, 16, 0, 0, none, 10⟩ [],
          .node ⟨.semicolon, false, false, 16, 17, 0, 0, none, 11⟩ []],
        .node ⟨.other "\x7d", false, false, 18, 19, 0, 0, none, 12⟩ []]],
    .node ⟨.expressionStatement, true, false, 20, 22, 1, 1, none, 13⟩ [
      .node ⟨.identifier, true, false, 20, 21, 1, 1, none, 14⟩ [],
      .node ⟨.semicolon, false, false, 21, 22, 1, 1, none, 15⟩ []],
    .node ⟨.comment, true, false, 23, 27, 1, 1, none, 16⟩ []]

/-- A pass over `blockSource`. -/
def blockContext : Context := ⟨Utf8.encodeString blockSource, .warn, "uid", 980⟩

theorem run_visits_block :
    (run blockContext blockTree).result = .ok [] ∧
      ∃ (places : List (List Nat × Nat)) (ks : List Call), blockTree.VisitOrder places ∧
        run blockContext blockTree = collect <$> ks.mapM (Call.answer blockContext) ∧
        ks.map (fun k => some k.site) = places.map blockTree.siteAt? ∧
        [([], 0), ([0, 3], 1)].Sublist places := by
  have hrun : (run blockContext blockTree).result = .ok [] := rfl
  obtain ⟨-, -, places, ks, hplaces, hcalls, hsites, -⟩ :=
    run_visits_statements blockContext blockTree
  have hfunction : ([], 0) ∈ places :=
    (hplaces.exactly _).2 ⟨_, _, rfl, rfl, rfl, rfl, by decide⟩
  have hinner : ([0, 3], 1) ∈ places :=
    (hplaces.exactly _).2 ⟨_, _, rfl, rfl, rfl, rfl, by decide⟩
  exact ⟨hrun, places, ks, hplaces, hcalls, hsites [] hrun,
    hplaces.outerFirst [] [0, 3] 0 1 (by simp) hfunction hinner⟩

end Pass
end Injection
