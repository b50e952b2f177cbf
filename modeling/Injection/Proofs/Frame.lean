import Injection.Proofs.Disjoint
import Injection.Transform

/-!
# What a transform leaves alone

A transform that returns has made one group of edits for each of its records and no other edits.
Outside the texts that it put in, the output is the source outside the ranges that it replaced
(`outside_of_text`).
-/

namespace Injection

namespace Transform

/-- What the pass of a transform works on, where there is room for `depth` arrays and objects in
each other in a default. -/
def context (depth : Nat) (s : TransformSettings) (source : String) : Context :=
  ⟨Utf8.encodeString source, s.unknownDependency, s.uidBase, depth⟩

variable {host : Host} {r : Registry} {s : TransformSettings}
  {source language file : String} {o : Outcome}

/-- A transform takes all its steps, one after the other, exactly when it returns. -/
theorem text_eq_ok_iff :
    (text host r s source language file).result = .ok o ↔
      ∃ root chs out cs, tree host r (Utf8.encodeString source) language file = .ok root ∧
        (Pass.run (context host.depth s source) root).result = .ok chs ∧
        Edit.apply (Utf8.encodeString source) (Pass.edits chs) = .ok out ∧
        Utf8.decode out = .ok cs ∧
        o = ⟨source, String.ofList cs, language, file, Pass.records chs⟩ := by
  have hlast : ∀ (chs : List Change) (out : Bytes),
      (Logged.ofExcept ((Utf8.decode out).mapError Failure.decode) >>= fun output =>
        pure (⟨source, String.ofList output, language, file, Pass.records chs⟩ : Outcome)).result =
          .ok o ↔
        ∃ cs, Utf8.decode out = .ok cs ∧
          o = ⟨source, String.ofList cs, language, file, Pass.records chs⟩ := by
    intro chs out
    rw [Logged.result_bind_return_eq_ok_iff, Logged.result_ofExcept]
    cases Utf8.decode out with
    | error e => exact iff_of_false (by rintro ⟨_, ⟨⟩, -⟩) (by rintro ⟨_, ⟨⟩, -⟩)
    | ok cs =>
        constructor
        · rintro ⟨_, ⟨⟩, rfl⟩
          exact ⟨cs, rfl, rfl⟩
        · rintro ⟨_, ⟨⟩, rfl⟩
          exact ⟨cs, rfl, rfl⟩
  unfold text
  simp only [Logged.result_bind_eq_ok_iff, Logged.result_ofExcept]
  constructor
  · rintro ⟨root, hroot, chs, hrun, out, hout, h⟩
    obtain ⟨cs, hcs, ho⟩ : ∃ cs, Utf8.decode out = .ok cs ∧
        o = ⟨source, String.ofList cs, language, file, Pass.records chs⟩ := by
      split at h
      · rw [Logged.result_write_bind] at h
        exact (hlast chs out).1 h
      · exact (hlast chs out).1 h
    exact ⟨root, chs, out, cs, hroot, hrun, hout, hcs, ho⟩
  · rintro ⟨root, chs, out, cs, hroot, hrun, hout, hcs, ho⟩
    refine ⟨root, hroot, chs, hrun, out, hout, ?_⟩
    split
    · rw [Logged.result_write_bind]
      exact (hlast chs out).2 ⟨cs, hcs, ho⟩
    · exact (hlast chs out).2 ⟨cs, hcs, ho⟩

/-- The records of changes, in another order. -/
theorem perm_records (chs : List Change) : (Pass.records chs).Perm (chs.map (·.record)) :=
  List.mergeSort_perm _ _

/-- What a transform that returns has done: it visited all statements, and its records and its
output are those of the changes that were made. -/
theorem exists_visits_of_text {root : Tree}
    (hroot : tree host r (Utf8.encodeString source) language file = .ok root)
    (h : (text host r s source language file).result = .ok o) :
    ∃ vs, vs = Pass.visits (context host.depth s source)
      (root.identifiers (Utf8.encodeString source))
        (Site.allStatements root) ∧
      vs.map (·.1) = Site.allStatements root ∧
      (Pass.run (context host.depth s source) root).result = .ok ((Pass.changed vs).map (·.2)) ∧
      o.records.Perm ((Pass.changed vs).map (·.2.record)) ∧
      Edit.apply (Utf8.encodeString source) (Pass.edits ((Pass.changed vs).map (·.2))) =
        .ok (Utf8.encodeString o.output) := by
  obtain ⟨root', chs, out, cs, hroot', hrun, hout, hcs, rfl⟩ := text_eq_ok_iff.1 h
  obtain rfl : root' = root := Except.ok.inj (hroot'.symm.trans hroot)
  obtain ⟨rfl, hsites⟩ := Pass.visits_of_changes hrun
  refine ⟨_, rfl, hsites, hrun, ?_, ?_⟩
  · have hperm := perm_records ((Pass.changed (Pass.visits (context host.depth s source)
      (root'.identifiers (Utf8.encodeString source)) (Site.allStatements root'))).map (·.2))
    rwa [List.map_map] at hperm
  · have hencode : Utf8.encodeString (String.ofList cs) = out := by
      rw [Utf8.encodeString_eq, String.toList_ofList, (Utf8.decode_eq_ok_iff out cs).1 hcs]
    rw [hencode]
    exact hout

/-- Without edits nothing changes. -/
theorem output_eq_of_nil {out : Bytes} {cs : List Char}
    (hout : Edit.apply (Utf8.encodeString source) [] = .ok out) (hcs : Utf8.decode out = .ok cs) :
    String.ofList cs = source := by
  have hrange : ∀ e ∈ ([] : List Edit), e.InRange (Utf8.encodeString source).length :=
    List.forall_mem_nil _
  obtain ⟨-, -, rfl⟩ := (Edit.apply_eq_ok_iff hrange out).1 hout
  have hsplice : Edit.splice (Utf8.encodeString source) 0 (Edit.ordered []) =
      Utf8.encodeChars source.toList := by
    simp [Edit.ordered, Edit.splice, Utf8.encodeString_eq]
  rw [hsplice, Utf8.decode_encodeChars] at hcs
  rw [← Except.ok.inj hcs, String.ofList_toList]

/-- Whether changes make `output` of `source`, by edits that start at different places. -/
def yields (source output : Bytes) (chs : List Change) : Bool :=
  let es := (Pass.edits chs).insertionSort fun a b => a.start ≤ b.start
  decide (∀ ch ∈ chs, ∀ d ∈ ch.record.defaults, d.whole = true) &&
    decide (es.Pairwise fun a b => a.start < b.start) && decide (Edit.splice source 0 es = output)

/-- The outcome of a transform whose changes make `output`. -/
theorem exists_text_of_yields {root : Tree} {output : String}
    (hroot : tree host r (Utf8.encodeString source) language file = .ok root)
    (hwf : root.WellFormed (Utf8.encodeString source)) (hblocks : root.BlocksBehindTargets)
    (h : (Pass.run (context host.depth s source) root).result.toOption.any
      (yields (Utf8.encodeString source) (Utf8.encodeString output)) = true) :
    ∃ chs, (Pass.run (context host.depth s source) root).result = .ok chs ∧
      (text host r s source language file).result =
        .ok ⟨source, output, language, file, Pass.records chs⟩ := by
  obtain ⟨chs, hrun, hyields⟩ := exists_of_toOption_any h
  refine ⟨chs, hrun, ?_⟩
  simp only [yields, Bool.and_eq_true, decide_eq_true_eq] at hyields
  obtain ⟨⟨hdefaults, hsorted⟩, hsplice⟩ := hyields
  have happly := Pass.apply_edits_of_run (c := context host.depth s source) hwf hblocks hrun
    hdefaults
  have hout : Edit.splice (context host.depth s source).source 0
      ((Pass.edits chs).insertionSort fun a b => a.start ≤ b.start) =
        Utf8.encodeChars output.toList := hsplice
  rw [Edit.ordered_eq_of_perm (List.perm_insertionSort _ _).symm hsorted, hout] at happly
  refine text_eq_ok_iff.2
    ⟨root, chs, _, output.toList, hroot, hrun, happly, Utf8.decode_encodeChars _, ?_⟩
  rw [String.ofList_toList]

/-- **The frame of a transform.**  A transform that returns has changed some of the statements, each
by one group of edits that belongs to one record, and made no other edits.  The output outside the
texts put in is the source outside the ranges replaced, and without records it is the source. -/
theorem outside_of_text (host : Host) (r : Registry) (s : TransformSettings)
    (source language file : String) (root : Tree) (o : Outcome)
    (hroot : tree host r (Utf8.encodeString source) language file = .ok root)
    (hwf : root.WellFormed (Utf8.encodeString source))
    (h : (text host r s source language file).result = .ok o) :
    ∃ groups : List (Site × Change),
      (groups.map (·.1)).Sublist (Site.allStatements root) ∧
      (∀ g ∈ groups, Pass.Group (context host.depth s source) g.1 g.2) ∧
      (Pass.run (context host.depth s source) root).result = .ok (groups.map (·.2)) ∧
      o.records.Perm (groups.map (·.2.record)) ∧
      (let es := Edit.ordered (Pass.edits (groups.map (·.2)))
       let put := Edit.inserted 0 0 es
       Edit.outside put (Utf8.encodeString o.output) =
          Edit.outside (Edit.replaced es) (Utf8.encodeString source) ∧
        put.map (Edit.within · (Utf8.encodeString o.output)) = es.map Edit.bytes) ∧
      (o.records = [] → o.output = source) := by
  obtain ⟨root', chs, out, cs, hroot', hrun, hout, hcs, rfl⟩ := text_eq_ok_iff.1 h
  obtain rfl : root' = root := Except.ok.inj (hroot'.symm.trans hroot)
  have hrange : ∀ e ∈ Pass.edits chs, e.InRange (Utf8.encodeString source).length := fun e he =>
    Pass.inRange_of_mem_edits (c := context host.depth s source) hwf hrun he
  obtain ⟨hchain, -, hsplice⟩ := (Edit.apply_eq_ok_iff hrange out).1 hout
  have houtput : Utf8.encodeString (String.ofList cs) =
      Edit.splice (Utf8.encodeString source) 0 (Edit.ordered (Pass.edits chs)) := by
    rw [Utf8.encodeString_eq, String.toList_ofList, ← (Utf8.decode_eq_ok_iff out cs).1 hcs, hsplice]
  have hframe := Edit.outside_inserted_splice hchain
    fun e he => hrange e (Edit.mem_ordered.1 he)
  obtain ⟨groups, rfl, hsublist, hgroups⟩ :=
    Pass.exists_groups_of_changes (c := context host.depth s source) hwf hrun
  refine ⟨groups, hsublist, fun g hg => (hgroups g hg).2, hrun, ?_, ?_, ?_⟩
  · have hrecords := perm_records (groups.map (·.2))
    rwa [List.map_map] at hrecords
  · dsimp only
    rw [houtput]
    exact hframe
  · -- no records, so no changes and no edits
    intro hrecords
    change Pass.records _ = [] at hrecords
    have hperm := perm_records (groups.map (·.2))
    have hnil : groups.map (·.2) = [] := by
      rw [hrecords] at hperm
      exact List.map_eq_nil_iff.1 hperm.nil_eq.symm
    rw [hnil] at hout
    exact output_eq_of_nil hout hcs

/-- A registry of one grammar. -/
def oneGrammar : Registry := ⟨.default, [.javascript]⟩

theorem grammar_javascript : oneGrammar.grammar? "javascript" = some .javascript := by
  decide +kernel

theorem outside_of_nested :
    ∃ (o : Outcome) (groups : List (Site × Change)),
      (text (.common fun _ _ => Pass.nestedTree) ⟨.default, [.javascript]⟩ .default
        Pass.nestedSource "javascript" "a.js").result = .ok o ∧
      o.records.Perm (groups.map (·.2.record)) ∧
      (∀ g ∈ groups, Pass.Group (context 980 .default Pass.nestedSource) g.1 g.2) ∧
      Edit.outside (Edit.inserted 0 0 (Edit.ordered (Pass.edits (groups.map (·.2)))))
          (Utf8.encodeString o.output) =
        Edit.outside (Edit.replaced (Edit.ordered (Pass.edits (groups.map (·.2)))))
          (Utf8.encodeString Pass.nestedSource) := by
  have hwf : Pass.nestedTree.WellFormed (context 980 .default Pass.nestedSource).source := by
    change Pass.nestedTree.WellFormed (Utf8.encodeString Pass.nestedSource)
    rw [Pass.encodeString_nestedSource]
    decide +kernel
  have hroot : tree (.common fun _ _ => Pass.nestedTree) ⟨.default, [.javascript]⟩
      (Utf8.encodeString Pass.nestedSource) "javascript" "a.js" = .ok Pass.nestedTree := by
    have hgrammar : Registry.grammar? ⟨.default, [.javascript]⟩ "javascript" =
        some .javascript := grammar_javascript
    have herror : Pass.nestedTree.firstError? = none :=
      Option.isNone_iff_eq_none.1 (by decide +kernel)
    simp only [tree, hgrammar, Host.tree_common, herror]
  have hcheck : (Pass.run ⟨Pass.nestedBytes, .warn, "uid", 980⟩ Pass.nestedTree).result.toOption.any
      (fun chs => decide (∀ ch ∈ chs, ∀ d ∈ ch.record.defaults, d.whole = true)) = true := by
    decide +kernel
  rw [← Pass.encodeString_nestedSource] at hcheck
  obtain ⟨chs, hrun, hdefaults⟩ := exists_of_toOption_any hcheck
  have hout := Pass.apply_edits_of_run (c := context 980 .default Pass.nestedSource) hwf
    (by decide +kernel) hrun (of_decide_eq_true hdefaults)
  obtain ⟨cs, hcs⟩ := Pass.exists_decode_of_apply (c := context 980 .default Pass.nestedSource)
    (Utf8.encodeString_eq _) hwf hrun hout
  have htext : (text (.common fun _ _ => Pass.nestedTree) ⟨.default, [.javascript]⟩ .default
      Pass.nestedSource "javascript" "a.js").result =
        .ok ⟨_, String.ofList cs, _, _, Pass.records chs⟩ :=
    text_eq_ok_iff.2 ⟨_, chs, _, cs, hroot, hrun, hout, hcs, rfl⟩
  obtain ⟨groups, -, hgroups, -, hrecords, hframe, -⟩ :=
    outside_of_text _ _ _ _ _ _ _ _ hroot hwf htext
  exact ⟨_, groups, htext, hrecords, hgroups, hframe.1⟩

end Transform
end Injection
