import Injection.Proofs.Records

/-!
# Exports keep their names

A rewritten export is a declaration with a clause behind it that exports what the statement exported
before.  `Tree.Exports` says what a statement exports, read off its tree, and `Clause.exported` what
a clause exports.

* `Reexported`: the three ways in which an export is rewritten, each with its edits.
* `reexported_of_visit`: a change of an export is one of them, and its clause exports the same
  names.
* `changes_append_cons`: a statement that cannot be changed ends the pass, unless one in front of it
  has done so.
* **`exports_of_text`**: what becomes of all exports of a source.
-/

namespace Injection

/-- A statement that exports what is declared in front of it. -/
inductive Clause where
  | names (identifiers : List String)
  | default (identifier : String)

namespace Clause

/-- The written form. -/
def text : Clause → String
  | .names identifiers => "export \x7b " ++ ", ".intercalate identifiers ++ " \x7d;"
  | .default identifier => s!"export default {identifier};"

/-- The names under which it exports. -/
def exported : Clause → List String
  | .names identifiers => identifiers
  | .default _ => ["default"]

/-- The first identifier that it speaks of. -/
def first? : Clause → Option String
  | .names identifiers => identifiers.head?
  | .default identifier => some identifier

end Clause

/-! ## What a statement exports -/

namespace Tree

/-- Whether a declarator binds a plain identifier. -/
def bindsIdentifier (d : Tree) : Bool := (d.childAt? "name").any (·.kind = .identifier)

/-- The identifiers that a declaration binds: one for each declarator, or its own name. -/
inductive Binds (source : Bytes) (t : Tree) : List String → Prop where
  | declarators {identifiers : List String} (hkind : t.kind.isVariableDeclaration = true)
      (hnames : List.Forall₂ (fun d identifier => ∃ name, d.childAt? "name" = some name ∧
        name.kind = .identifier ∧ identifier = name.text source) t.declarators identifiers) :
      Binds source t identifiers
  | itself {name : Tree} (hkind : t.kind.isDeclaration = true)
      (hname : t.childAt? "name" = some name) : Binds source t [name.text source]

/-- The names under which an export exports. -/
inductive Exports (source : Bytes) (t : Tree) : List String → Prop where
  | default (hdefault : t.children.any (·.kind = .defaultKeyword) = true) :
      Exports source t ["default"]
  | declaration {declaration : Tree} {identifiers : List String}
      (hdefault : t.children.any (·.kind = .defaultKeyword) = false)
      (hdeclaration : t.childAt? "declaration" = some declaration)
      (hbinds : declaration.Binds source identifiers) : Exports source t identifiers

/-- The texts of the decorators of an export, each with a blank behind it. -/
def decoratorText (source : Bytes) (t : Tree) : String :=
  String.join ((t.children.filter (·.kind = .decorator)).map (·.text source ++ " "))

theorem mem_children_of_childAt {t x : Tree} {field : String} (h : t.childAt? field = some x) :
    x ∈ t.children := List.mem_of_find?_eq_some h

end Tree

/-- Steps in sequence fail with the first one that fails. -/
theorem mapM_eq_error_of_find {ε α β : Type} {f : α → Except ε β} {p : α → Bool} {xs : List α}
    {x : α} {e : ε} (hfind : xs.find? p = some x) (hok : ∀ y, p y = false → ∃ z, f y = .ok z)
    (herror : f x = .error e) : xs.mapM f = .error e := by
  induction xs with
  | nil => cases hfind
  | cons y ys ih =>
      rw [List.mapM_cons]
      cases hp : p y with
      | true =>
          rw [List.find?_cons_of_pos hp] at hfind
          cases hfind
          rw [herror]
          rfl
      | false =>
          rw [List.find?_cons_of_neg (by rw [hp]; exact Bool.false_ne_true)] at hfind
          obtain ⟨z, hz⟩ := hok y hp
          rw [hz, ih hfind]
          rfl

namespace Marked

theorem declaratorName_of_bindsIdentifier {source : Bytes} {d : Tree}
    (h : d.bindsIdentifier = true) :
    ∃ name, d.childAt? "name" = some name ∧ name.kind = .identifier ∧
      declaratorName source d = .ok (name.text source) := by
  unfold Tree.bindsIdentifier at h
  unfold declaratorName
  cases hname : d.childAt? "name" with
  | none =>
      rw [hname] at h
      cases h
  | some name =>
      rw [hname, Option.any_some, decide_eq_true_eq] at h
      exact ⟨name, rfl, h, by simp [Option.filter, h]⟩

theorem declaratorName_eq_error {source : Bytes} {d : Tree} (h : d.bindsIdentifier = false) :
    declaratorName source d = .error (.unresolvableExport (d.text source) (some d.line)) := by
  unfold Tree.bindsIdentifier at h
  unfold declaratorName
  cases hname : d.childAt? "name" with
  | none => rfl
  | some name =>
      rw [hname, Option.any_some, decide_eq_false_iff_not] at h
      simp [Option.filter, h]

/-- The names that an exported declaration declares are the identifiers that it binds. -/
theorem binds_of_declares {source : Bytes} {declaration target : Tree} {names : List String}
    (h : Declares source declaration names target) : declaration.Binds source names := by
  cases h with
  | itself hkind hname => exact .itself hkind hname
  | bindings hkind hnames hvalue =>
      refine .declarators hkind ((mapM_eq_ok_iff_forall₂.1 hnames).imp ?_)
      intro d identifier hok
      cases hplain : d.bindsIdentifier with
      | false =>
          rw [declaratorName_eq_error hplain] at hok
          cases hok
      | true =>
          obtain ⟨name, hname, hkind, htext⟩ :=
            @declaratorName_of_bindsIdentifier source d hplain
          rw [htext] at hok
          cases hok
          exact ⟨name, hname, hkind, rfl⟩

theorem target_of_record {c : Context} {m : Marked} {identifier : String} {target : Tree}
    {r : Record} (h : (m.record c identifier target).result = .ok (some r)) :
    r.target = identifier := by
  unfold record Record.build at h
  split at h
  · rw [Logged.result_write_bind] at h
    cases h
  · obtain ⟨params, -, hr⟩ := Logged.result_bind_return_eq_ok_iff.1 h
    cases hr
    rfl

/-- The record of a default export has the name of what is exported, if that has one. -/
theorem target_of_change {c : Context} {m : Marked} {taken taken' : List String} {ch : Change}
    {target name : Tree} (hkind : m.node.kind = .exportStatement)
    (hdefault : m.node.children.any (·.kind = .defaultKeyword) = true)
    (htarget : (m.node.childAt? "declaration").or (m.node.childAt? "value") = some target)
    (hname : target.childAt? "name" = some name)
    (h : (m.change c taken).result = .ok (taken', some ch)) :
    ch.record.target = name.text c.source := by
  rw [change, if_pos hkind] at h
  simp only [exportChange, hdefault, if_true, htarget] at h
  obtain ⟨hexportable, -⟩ := defaultExport_eq_ok_some h
  simp only [defaultExport, hexportable, Bool.not_true, Bool.false_eq_true, if_false, hname] at h
  obtain ⟨change?, hchange, hpair⟩ := Logged.result_bind_return_eq_ok_iff.1 h
  cases hpair
  exact target_of_record (defaultChange_eq_ok_some hchange).1

/-- The terminator in front of a clause, if it needs one. -/
theorem terminator_of_tail (m : Marked) (inner : Tree) :
    (m.tail inner).2 = "" ∨ (m.tail inner).2 = ";" := by
  unfold tail
  split
  · split_ifs
    · exact Or.inl rfl
    · exact Or.inr rfl
  · exact Or.inr rfl

/-- An export of bindings, of which one has no plain identifier, fails. -/
theorem namedExport_eq_error {c : Context} {m : Marked} {declaration d : Tree}
    (hkind : declaration.kind.isVariableDeclaration = true)
    (hfirst : declaration.declarators.find? (!·.bindsIdentifier) = some d) :
    (m.namedExport c declaration).result =
      .error (.ofTransform (.unresolvableExport (d.text c.source) (some d.line))) := by
  have hbad : d.bindsIdentifier = false := by
    have h := List.find?_some hfirst
    rwa [Bool.not_eq_true'] at h
  have hmap : declaration.declarators.mapM (declaratorName c.source) =
      .error (.unresolvableExport (d.text c.source) (some d.line)) := by
    refine mapM_eq_error_of_find hfirst (fun y hy => ?_) (declaratorName_eq_error hbad)
    rw [Bool.not_eq_false'] at hy
    obtain ⟨name, -, -, hok⟩ := @declaratorName_of_bindsIdentifier c.source y hy
    exact ⟨_, hok⟩
  unfold namedExport
  rw [if_pos hkind, hmap, Logged.result_bind]
  rfl

end Marked

/-! ## What becomes of an export -/

namespace Pass

/-- A line break and the indentation of a statement. -/
def lineBreak (c : Context) (s : Site) : String :=
  Layout.newline c.source ++ Layout.indentation c.source s.node.label.start

/-- How an export is rewritten: its new front, and the clause behind what it exported.  Behind that
the statements of the record come first. -/
inductive Reexported (c : Context) (s : Site) (ch : Change) : Clause → Prop where
  /-- The keyword goes, and all that the declaration binds is exported behind it. -/
  | named (declaration : Tree) (identifiers : List String) (place : Nat)
      (hdefault : s.node.children.any (·.kind = .defaultKeyword) = false)
      (hdeclaration : s.node.childAt? "declaration" = some declaration)
      (hbinds : declaration.Binds c.source identifiers)
      (hplace : declaration.label.stop ≤ place ∧ place ≤ s.node.label.stop)
      (hedits : ch.edits =
        [⟨s.node.exportStart, declaration.label.start, []⟩,
          ⟨place, place, rendered c s ch.record ++
            Text.ofString (lineBreak c s ++ (Clause.names identifiers).text)⟩]) :
      Reexported c s ch (.names identifiers)
  /-- The target becomes the value of a constant, and that is exported behind it. -/
  | constant (target : Tree) (terminator : String) (place : Nat)
      (hdefault : s.node.children.any (·.kind = .defaultKeyword) = true)
      (htarget : (s.node.childAt? "declaration").or (s.node.childAt? "value") = some target)
      (hname : ∀ name, target.childAt? "name" = some name →
        ch.record.target = name.text c.source)
      (hterminator : terminator = "" ∨ terminator = ";")
      (hplace : target.label.stop ≤ place ∧ place ≤ s.node.label.stop)
      (hedits : ch.edits =
        [⟨s.node.label.start, target.label.start,
            Text.ofString (s!"const {ch.record.target} = " ++ s.node.decoratorText c.source)⟩,
          ⟨place, place, Text.ofString terminator ++ rendered c s ch.record ++
            Text.ofString (lineBreak c s ++ (Clause.default ch.record.target).text)⟩]) :
      Reexported c s ch (.default ch.record.target)
  /-- An abstract class stays a declaration, and its name is exported behind it. -/
  | abstractClass (target name : Tree) (place : Nat)
      (hdefault : s.node.children.any (·.kind = .defaultKeyword) = true)
      (htarget : (s.node.childAt? "declaration").or (s.node.childAt? "value") = some target)
      (hkind : target.kind = .abstractClassDeclaration)
      (hname : target.childAt? "name" = some name)
      (hrecord : ch.record.target = name.text c.source)
      (hplace : target.label.stop ≤ place ∧ place ≤ s.node.label.stop)
      (hedits : ch.edits =
        [⟨s.node.exportStart, target.label.start, []⟩,
          ⟨place, place, rendered c s ch.record ++
            Text.ofString (lineBreak c s ++ (Clause.default ch.record.target).text)⟩]) :
      Reexported c s ch (.default ch.record.target)

/-- An export that is rewritten exports the same names afterwards, the first of them that of its
record. -/
theorem reexported_of_visit {c : Context} {taken taken' : List String} {s : Site} {ch : Change}
    (hwf : s.node.WellFormed c.source) (hkind : s.node.kind = .exportStatement)
    (h : (visit c taken s).result = .ok (taken', some ch)) :
    ∃ clause, Reexported c s ch clause ∧ s.node.Exports c.source clause.exported ∧
      clause.first? = some ch.record.target := by
  obtain ⟨m, hm, rfl, hshape⟩ := shape_of_visit h
  rw [visit, hm] at h
  have hplace : ∀ {inner : Tree}, inner ∈ m.node.children →
      inner.label.stop ≤ (m.tail inner).1 ∧ (m.tail inner).1 ≤ m.node.label.stop := by
    intro inner hinner
    obtain ⟨hle, hbound, -, -⟩ := Marked.tail_of_child hwf hinner
    exact ⟨hle, hbound⟩
  -- Only two of the four shapes of a change are shapes of an export.
  cases hshape with
  | declared name hdeclaration =>
      exact absurd hkind (Kind.ne_export_of_declaration (Or.inl hdeclaration))
  | bound name value hvariable =>
      exact absurd hkind (Kind.ne_export_of_declaration (Or.inr hvariable))
  | exportedNamed identifier names declaration target _ hdefault hdeclaration hdeclares hrecord
      hedits =>
      have hbinds := Marked.binds_of_declares hdeclares
      refine ⟨.names (identifier :: names), ?_, .declaration hdefault hdeclaration hbinds, ?_⟩
      · exact .named declaration _ _ hdefault hdeclaration hbinds
          (hplace (Tree.mem_children_of_childAt hdeclaration)) hedits
      · rw [Marked.target_of_record hrecord]
        rfl
  | exportedDefault identifier target _ hdefault htarget hexportable hname hrecord hedits =>
      have hmem : target ∈ m.node.children := by
        rcases Option.or_eq_some_iff.1 htarget with h | ⟨-, h⟩
        · exact Tree.mem_children_of_childAt h
        · exact Tree.mem_children_of_childAt h
      obtain rfl := Marked.target_of_record hrecord
      refine ⟨.default ch.record.target, ?_, .default hdefault, rfl⟩
      -- An abstract class cannot be the value of a constant; it has a name of its own instead.
      by_cases habstract : target.kind = .abstractClassDeclaration
      · rw [Marked.defaultEdits_of_abstract habstract] at hedits
        obtain ⟨name, hchild, htext⟩ := hname.resolve_right fun h => h.2 habstract
        refine .abstractClass target name _ hdefault htarget habstract hchild htext (hplace hmem) ?_
        rw [hedits]
        rfl
      · rw [Marked.defaultEdits_of_expression habstract] at hedits
        refine .constant target _ _ hdefault htarget ?_ (m.terminator_of_tail target)
          (hplace hmem) hedits
        intro name hchild
        exact Marked.target_of_change hkind hdefault htarget hchild h

/-- An export that a visit leaves alone is not marked, or what it exports is no target. -/
theorem idle_of_visit {c : Context} {taken taken' : List String} {st : Site}
    (hkind : st.node.kind = .exportStatement)
    (h : (visit c taken st).result = .ok (taken', none)) :
    st.marked? c.source = none ∨ st.node.ExportIdle := by
  have hidle := Site.visit_eq_ok_none_iff.1 ⟨taken', h⟩
  cases hm : st.marked? c.source with
  | none => exact Or.inl rfl
  | some m =>
      have hexport := hidle m hm
      rw [Site.Idle, if_pos hkind] at hexport
      exact Or.inr hexport

theorem changes_cons (c : Context) (taken : List String) (st : Site) (ss : List Site) :
    (changes c taken (st :: ss)).result = (visit c taken st).result.bind fun v =>
      (changes c v.1 ss).result.map fun rest => v.2.toList ++ rest := by
  rw [changes, Logged.result_bind]
  cases (visit c taken st).result with
  | error e => rfl
  | ok v => exact Logged.result_bind_return _ _

/-- A statement that fails whatever names are taken ends the pass, unless one in front of it has
done so. -/
theorem changes_append_cons {c : Context} {st : Site} {f : Failure}
    (hfail : ∀ taken, (visit c taken st).result = .error f) (taken : List String)
    (before after : List Site) :
    (changes c taken (before ++ st :: after)).result =
      (changes c taken before).result.bind fun _ => .error f := by
  induction before generalizing taken with
  | nil =>
      rw [List.nil_append, changes_cons, hfail]
      rfl
  | cons s before ih =>
      rw [List.cons_append, changes_cons, changes_cons]
      cases (visit c taken s).result with
      | error e => rfl
      | ok v =>
          simp only [Except.bind]
          rw [ih v.1]
          cases (changes c v.1 before).result <;> rfl

/-- A marked export of bindings, of which one has no plain identifier, cannot be visited. -/
theorem visit_eq_error {c : Context} {st : Site} {declaration d : Tree}
    (hmarked : (st.marked? c.source).isSome = true) (hkind : st.node.kind = .exportStatement)
    (hdefault : st.node.children.any (·.kind = .defaultKeyword) = false)
    (hdeclaration : st.node.childAt? "declaration" = some declaration)
    (hvariable : declaration.kind.isVariableDeclaration = true)
    (hfirst : declaration.declarators.find? (!·.bindsIdentifier) = some d) (taken : List String) :
    (visit c taken st).result =
      .error (.ofTransform (.unresolvableExport (d.text c.source) (some d.line))) := by
  obtain ⟨m, hm⟩ := Option.isSome_iff_exists.1 hmarked
  obtain rfl := Site.site_of_marked hm
  rw [visit, hm]
  simp only [Marked.change, Marked.exportChange, Marked.node, hkind, if_true, hdefault,
    Bool.false_eq_true, if_false, hdeclaration]
  rw [Logged.result_bind_return, Marked.namedExport_eq_error hvariable hfirst]
  rfl

end Pass

namespace Transform

/-- A transform fails as its pass does. -/
theorem text_eq_error_of_run {host : Host} {r : Registry} {s : TransformSettings}
    {source language file : String} {root : Tree} {f : Failure}
    (hroot : tree host r (Utf8.encodeString source) language file = .ok root)
    (hrun : (Pass.run (context host.depth s source) root).result = .error f) :
    (text host r s source language file).result = .error f := by
  unfold text
  dsimp only
  rw [hroot, Logged.result_bind, Logged.result_ofExcept]
  change (Pass.run (context host.depth s source) root >>= _).result = _
  rw [Logged.result_bind, hrun]
  rfl

/-- The output of a transform is the source with the edits of its changes made. -/
theorem encodeString_output {depth : Nat} {s : TransformSettings} {source : String} {root : Tree}
    {chs : List Change} {out : Bytes} {cs : List Char}
    (hwf : root.WellFormed (Utf8.encodeString source))
    (hrun : (Pass.run (context depth s source) root).result = .ok chs)
    (hout : Edit.apply (Utf8.encodeString source) (Pass.edits chs) = .ok out)
    (hcs : Utf8.decode out = .ok cs) :
    Utf8.encodeString (String.ofList cs) =
      Edit.splice (Utf8.encodeString source) 0 (Edit.ordered (Pass.edits chs)) := by
  have hrange : ∀ e ∈ Pass.edits chs, e.InRange (Utf8.encodeString source).length := fun e he =>
    Pass.inRange_of_mem_edits (c := context depth s source) hwf hrun he
  obtain ⟨-, -, hsplice⟩ := (Edit.apply_eq_ok_iff hrange out).1 hout
  rw [Utf8.encodeString_eq, String.toList_ofList, ← (Utf8.decode_eq_ok_iff out cs).1 hcs, hsplice]

/-- **Exports keep their names.**  Of the exports of a source that is transformed, each one that is
rewritten is followed by one clause that exports the names that it exported; the others are not
edited.  A marked export of bindings ends the transform at the first declarator without a plain
identifier, unless a statement visited before it has done so. -/
theorem exports_of_text (host : Host) (r : Registry) (s : TransformSettings)
    (source language file : String) (root : Tree)
    (hroot : tree host r (Utf8.encodeString source) language file = .ok root)
    (hwf : root.WellFormed (Utf8.encodeString source)) :
    (∀ o, (text host r s source language file).result = .ok o →
      ∃ vs : List (Site × Option Change),
        vs.map (·.1) = Site.allStatements root ∧
        o.records.Perm ((Pass.changed vs).map (·.2.record)) ∧
        Utf8.encodeString o.output = Edit.splice (Utf8.encodeString source) 0
          (Edit.ordered (Pass.edits ((Pass.changed vs).map (·.2)))) ∧
        (∀ st ch, (st, some ch) ∈ vs → st.node.kind = .exportStatement →
          ∃ clause, Pass.Reexported (context host.depth s source) st ch clause ∧
            st.node.Exports (Utf8.encodeString source) clause.exported ∧
            clause.first? = some ch.record.target) ∧
        ∀ st, (st, none) ∈ vs → st.node.kind = .exportStatement →
          st.marked? (Utf8.encodeString source) = none ∨ st.node.ExportIdle) ∧
    ∀ before st after declaration d,
      Site.allStatements root = before ++ st :: after →
      (st.marked? (Utf8.encodeString source)).isSome = true →
      st.node.kind = .exportStatement →
      st.node.children.any (·.kind = .defaultKeyword) = false →
      st.node.childAt? "declaration" = some declaration →
      declaration.kind.isVariableDeclaration = true →
      declaration.declarators.find? (!·.bindsIdentifier) = some d →
      (text host r s source language file).result =
        (Pass.changes (context host.depth s source) (root.identifiers (Utf8.encodeString source))
          before).result.bind fun _ => .error (.ofTransform
            (.unresolvableExport (d.text (Utf8.encodeString source)) (some d.line))) := by
  constructor
  · intro o h
    obtain ⟨root', chs, out, cs, hroot', hrun, hout, hcs, rfl⟩ := text_eq_ok_iff.1 h
    obtain rfl : root' = root := Except.ok.inj (hroot'.symm.trans hroot)
    obtain ⟨hchanges, hsites⟩ := Pass.visits_of_changes hrun
    refine ⟨_, hsites, ?_, ?_, ?_, ?_⟩
    · have hrecords := congrArg (List.map Change.record) hchanges
      rw [List.map_map] at hrecords
      exact (perm_records chs).trans (.of_eq hrecords.symm)
    · rw [hchanges]
      exact encodeString_output hwf hrun hout hcs
    · intro st ch hmem hkind
      obtain ⟨hst, before, after, hvisit⟩ := Pass.exists_visit_of_mem hmem
      exact Pass.reexported_of_visit (hwf.of_mem (Site.node_mem_preorder hst)) hkind hvisit
    · intro st hmem hkind
      obtain ⟨-, before, after, hvisit⟩ := Pass.exists_visit_of_mem hmem
      exact Pass.idle_of_visit (c := context host.depth s source) hkind hvisit
  · intro before st after declaration d hall hmarked hkind hdefault hdeclaration hvariable hfirst
    have hvisit := Pass.visit_eq_error (c := context host.depth s source) hmarked hkind hdefault
      hdeclaration
      hvariable hfirst
    have hrun := Pass.changes_append_cons hvisit (root.identifiers (Utf8.encodeString source))
      before after
    rw [← hall] at hrun
    cases hbefore : (Pass.changes (context host.depth s source)
        (root.identifiers (Utf8.encodeString source)) before).result with
    | error f =>
        rw [hbefore] at hrun
        exact text_eq_error_of_run hroot hrun
    | ok chs =>
        rw [hbefore] at hrun
        exact text_eq_error_of_run hroot hrun

/-- An export of two bindings, and an anonymous default export. -/
def exportedSource : String :=
  "/** @injectable */\nexport const a = () => 1, b = 2;\n" ++
    "/** @injectable */\nexport default class \x7b\x7d\n"

/-- The encoding of `exportedSource`. -/
def exportedBytes : Bytes :=
  [47, 42, 42, 32, 64, 105, 110, 106, 101, 99, 116, 97, 98, 108, 101, 32, 42, 47, 10, 101, 120,
    112, 111, 114, 116, 32, 99, 111, 110, 115, 116, 32, 97, 32, 61, 32, 40, 41, 32, 61, 62, 32,
    49, 44, 32, 98, 32, 61, 32, 50, 59, 10, 47, 42, 42, 32, 64, 105, 110, 106, 101, 99, 116, 97,
    98, 108, 101, 32, 42, 47, 10, 101, 120, 112, 111, 114, 116, 32, 100, 101, 102, 97, 117, 108,
    116, 32, 99, 108, 97, 115, 115, 32, 123, 125, 10]

/-- The tree of `exportedSource`. -/
def exportedTree : Tree :=
  .node ⟨.program, true, false, 0, 95, 0, 4, none, 0⟩ [
    .node ⟨.comment, true, false, 0, 18, 0, 0, none, 1⟩ [],
    .node ⟨.exportStatement, true, false, 19, 51, 1, 1, none, 2⟩ [
      .node ⟨.exportKeyword, false, false, 19, 25, 1, 1, none, 3⟩ [],
      .node ⟨.lexicalDeclaration, true, false, 26, 51, 1, 1, some "declaration", 4⟩ [
        .node ⟨.other "const", false, false, 26, 31, 1, 1, some "kind", 5⟩ [],
        .node ⟨.variableDeclarator, true, false, 32, 43, 1, 1, none, 6⟩ [
          .node ⟨.identifier, true, false, 32, 33, 1, 1, some "name", 7⟩ [],
          .node ⟨.other "=", false, false, 34, 35, 1, 1, none, 8⟩ [],
          .node ⟨.arrowFunction, true, false, 36, 43, 1, 1, some "value", 9⟩ [
            .node ⟨.formalParameters, true, false, 36, 38, 1, 1, some "parameters", 10⟩ [
              .node ⟨.other "(", false, false, 36, 37, 1, 1, none, 11⟩ [],
              .node ⟨.other ")", false, false, 37, 38, 1, 1, none, 12⟩ []],
            .node ⟨.other "=>", false, false, 39, 41, 1, 1, none, 13⟩ [],
            .node ⟨.other "number", true, false, 42, 43, 1, 1, some "body", 14⟩ []]],
        .node ⟨.other ",", false, false, 43, 44, 1, 1, none, 15⟩ [],
        .node ⟨.variableDeclarator, true, false, 45, 50, 1, 1, none, 16⟩ [
          .node ⟨.identifier, true, false, 45, 46, 1, 1, some "name", 17⟩ [],
          .node ⟨.other "=", false, false, 47, 48, 1, 1, none, 18⟩ [],
          .node ⟨.other "number", true, false, 49, 50, 1, 1, some "value", 19⟩ []],
        .node ⟨.semicolon, false, false, 50, 51, 1, 1, none, 20⟩ []]],
    .node ⟨.comment, true, false, 52, 70, 2, 2, none, 21⟩ [],
    .node ⟨.exportStatement, true, false, 71, 94, 3, 3, none, 22⟩ [
      .node ⟨.exportKeyword, false, false, 71, 77, 3, 3, none, 23⟩ [],
      .node ⟨.defaultKeyword, false, false, 78, 85, 3, 3, none, 24⟩ [],
      .node ⟨.classExpression, true, false, 86, 94, 3, 3, some "value", 25⟩ [
        .node ⟨.classExpression, false, false, 86, 91, 3, 3, none, 26⟩ [],
        .node ⟨.other "class_body", true, false, 92, 94, 3, 3, some "body", 27⟩ [
          .node ⟨.other "\x7b", false, false, 92, 93, 3, 3, none, 28⟩ [],
          .node ⟨.other "\x7d", false, false, 93, 94, 3, 3, none, 29⟩ []]]]]

/-- What becomes of `exportedSource`. -/
def exportedOutput : String :=
  "/** @injectable */\nconst a = () => 1, b = 2;\na.injectable = true;\nexport \x7b a, b \x7d;\n" ++
    "/** @injectable */\nconst _uid = class \x7b\x7d;\n_uid.injectable = true;\n" ++
    "_uid.injectNewInstance = true;\nexport default _uid;\n"

/-- The encoding of `exportedOutput`. -/
def exportedOutputBytes : Bytes :=
  [47, 42, 42, 32, 64, 105, 110, 106, 101, 99, 116, 97, 98, 108, 101, 32, 42, 47, 10, 99, 111,
    110, 115, 116, 32, 97, 32, 61, 32, 40, 41, 32, 61, 62, 32, 49, 44, 32, 98, 32, 61, 32, 50, 59,
    10, 97, 46, 105, 110, 106, 101, 99, 116, 97, 98, 108, 101, 32, 61, 32, 116, 114, 117, 101, 59,
    10, 101, 120, 112, 111, 114, 116, 32, 123, 32, 97, 44, 32, 98, 32, 125, 59, 10, 47, 42, 42,
    32, 64, 105, 110, 106, 101, 99, 116, 97, 98, 108, 101, 32, 42, 47, 10, 99, 111, 110, 115, 116,
    32, 95, 117, 105, 100, 32, 61, 32, 99, 108, 97, 115, 115, 32, 123, 125, 59, 10, 95, 117, 105,
    100, 46, 105, 110, 106, 101, 99, 116, 97, 98, 108, 101, 32, 61, 32, 116, 114, 117, 101, 59,
    10, 95, 117, 105, 100, 46, 105, 110, 106, 101, 99, 116, 78, 101, 119, 73, 110, 115, 116, 97,
    110, 99, 101, 32, 61, 32, 116, 114, 117, 101, 59, 10, 101, 120, 112, 111, 114, 116, 32, 100,
    101, 102, 97, 117, 108, 116, 32, 95, 117, 105, 100, 59, 10]

/-- An export of a binding without a plain identifier, behind one with an identifier. -/
def patternSource : String := "/** @injectable */\nexport const a = 1, \x7bx\x7d = f;\n"

/-- The encoding of `patternSource`. -/
def patternBytes : Bytes :=
  [47, 42, 42, 32, 64, 105, 110, 106, 101, 99, 116, 97, 98, 108, 101, 32, 42, 47, 10, 101, 120,
    112, 111, 114, 116, 32, 99, 111, 110, 115, 116, 32, 97, 32, 61, 32, 49, 44, 32, 123, 120, 125,
    32, 61, 32, 102, 59, 10]

/-- The tree of `patternSource`. -/
def patternTree : Tree :=
  .node ⟨.program, true, false, 0, 48, 0, 2, none, 0⟩ [
    .node ⟨.comment, true, false, 0, 18, 0, 0, none, 1⟩ [],
    .node ⟨.exportStatement, true, false, 19, 47, 1, 1, none, 2⟩ [
      .node ⟨.exportKeyword, false, false, 19, 25, 1, 1, none, 3⟩ [],
      .node ⟨.lexicalDeclaration, true, false, 26, 47, 1, 1, some "declaration", 4⟩ [
        .node ⟨.other "const", false, false, 26, 31, 1, 1, some "kind", 5⟩ [],
        .node ⟨.variableDeclarator, true, false, 32, 37, 1, 1, none, 6⟩ [
          .node ⟨.identifier, true, false, 32, 33, 1, 1, some "name", 7⟩ [],
          .node ⟨.other "=", false, false, 34, 35, 1, 1, none, 8⟩ [],
          .node ⟨.other "number", true, false, 36, 37, 1, 1, some "value", 9⟩ []],
        .node ⟨.other ",", false, false, 37, 38, 1, 1, none, 10⟩ [],
        .node ⟨.variableDeclarator, true, false, 39, 46, 1, 1, none, 11⟩ [
          .node ⟨.other "object_pattern", true, false, 39, 42, 1, 1, some "name", 12⟩ [
            .node ⟨.other "\x7b", false, false, 39, 40, 1, 1, none, 13⟩ [],
            .node ⟨.shorthandPropertyIdentifierPattern, true, false, 40, 41, 1, 1, none, 14⟩ [],
            .node ⟨.other "\x7d", false, false, 41, 42, 1, 1, none, 15⟩ []],
          .node ⟨.other "=", false, false, 43, 44, 1, 1, none, 16⟩ [],
          .node ⟨.identifier, true, false, 45, 46, 1, 1, some "value", 17⟩ []],
        .node ⟨.semicolon, false, false, 46, 47, 1, 1, none, 18⟩ []]]]

theorem encodeString_exportedSource : Utf8.encodeString exportedSource = exportedBytes :=
  (Utf8.encodeString_append (Utf8.encodeString_ofList _) (Utf8.encodeString_ofList _)).trans
    rfl

theorem encodeString_exportedOutput : Utf8.encodeString exportedOutput = exportedOutputBytes :=
  (Utf8.encodeString_append
    (Utf8.encodeString_append (Utf8.encodeString_ofList _) (Utf8.encodeString_ofList _))
    (Utf8.encodeString_ofList _)).trans (by decide +kernel)

theorem encodeString_patternSource : Utf8.encodeString patternSource = patternBytes :=
  (Utf8.encodeString_ofList _).trans rfl

/-- Both exports of the first sample are rewritten, and the second sample fails. -/
theorem exports_of_samples :
    (∃ (o : Outcome) (vs : List (Site × Option Change)),
      (text (.common fun _ _ => exportedTree) oneGrammar .default exportedSource "javascript"
        "a.js").result = .ok o ∧ o.output = exportedOutput ∧
      vs.map (·.1) = Site.allStatements exportedTree ∧
      ∀ st ch, (st, some ch) ∈ vs → st.node.kind = .exportStatement →
        ∃ clause, Pass.Reexported (context 980 .default exportedSource) st ch clause ∧
          st.node.Exports (Utf8.encodeString exportedSource) clause.exported ∧
          clause.first? = some ch.record.target) ∧
    (text (.common fun _ _ => patternTree) oneGrammar .default patternSource "javascript"
        "a.js").result =
      .error (.ofTransform (.unresolvableExport "\x7bx\x7d = f" (some 2))) := by
  constructor
  · have herror : exportedTree.firstError?.isNone = true := by decide +kernel
    have hroot := tree_oneGrammar herror (Utf8.encodeString exportedSource) "a.js"
    have hwf : exportedTree.WellFormed (Utf8.encodeString exportedSource) := by
      rw [encodeString_exportedSource]
      decide +kernel
    have hyields : (Pass.run ⟨exportedBytes, .warn, "uid", 980⟩ exportedTree).result.toOption.any
        (yields exportedBytes exportedOutputBytes) = true := by
      decide +kernel
    rw [← encodeString_exportedSource, ← encodeString_exportedOutput] at hyields
    obtain ⟨chs, -, htext⟩ := exists_text_of_yields (s := .default) hroot hwf
      (by decide +kernel) hyields
    obtain ⟨vs, hsites, -, -, hrewritten, -⟩ :=
      (exports_of_text _ _ .default _ _ _ _ hroot hwf).1 _ htext
    exact ⟨_, vs, htext, rfl, hsites, hrewritten⟩
  · have herror : patternTree.firstError?.isNone = true := by decide +kernel
    have hroot := tree_oneGrammar herror (Utf8.encodeString patternSource) "a.js"
    have hwf : patternTree.WellFormed (Utf8.encodeString patternSource) := by
      rw [encodeString_patternSource]
      decide +kernel
    obtain ⟨st, hall⟩ : ∃ st, Site.allStatements patternTree = [st] :=
      List.length_eq_one_iff.1 (by decide +kernel)
    have hfacts : ∀ st ∈ Site.allStatements patternTree,
        (st.marked? patternBytes).isSome = true ∧ st.node.kind = .exportStatement ∧
        st.node.children.any (·.kind = .defaultKeyword) = false ∧
        (st.node.childAt? "declaration").any (fun declaration =>
          declaration.kind.isVariableDeclaration &&
            (declaration.declarators.find? (!·.bindsIdentifier)).any fun d =>
              d.text patternBytes = "\x7bx\x7d = f" && d.line = 2) = true := by
      decide +kernel
    rw [← encodeString_patternSource, hall] at hfacts
    obtain ⟨hmarked, hkind, hdefault, hrest⟩ := hfacts st (List.mem_singleton_self st)
    obtain ⟨declaration, hdeclaration, hrest⟩ := (Option.any_eq_true _ _).1 hrest
    obtain ⟨hvariable, hrest⟩ := Bool.and_eq_true_iff.1 hrest
    obtain ⟨d, hfirst, hrest⟩ := (Option.any_eq_true _ _).1 hrest
    simp only [Bool.and_eq_true, decide_eq_true_eq] at hrest
    have htext := (exports_of_text _ _ .default _ _ _ _ hroot hwf).2 [] st [] declaration d hall
      hmarked hkind hdefault hdeclaration hvariable hfirst
    rwa [hrest.1, hrest.2] at htext

end Transform
end Injection
