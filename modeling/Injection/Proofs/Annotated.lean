import Injection.Proofs.Exports

/-!
# Statements that carry their metadata already

A statement carries its metadata if the next one assigns to the property `injectable` of the
identifier that it addresses.  A declaration that does so is left alone.  Nobody looks behind an
export, so there the metadata come a second time.

* `visit_of_annotated`: a visit leaves an annotated declaration alone, and never fails on it.
* `visit_of_export`: what a visit does to an export does not depend on what stands behind it.
* **`annotated_of_text`**: which annotated statements of a source are left alone.
-/

namespace Injection

namespace Tree

/-- The first identifier that a declaration declares. -/
def declaredFirst? (source : Bytes) (t : Tree) : Option String :=
  if t.kind.isVariableDeclaration then
    ((t.declarators.head?.bind (·.childAt? "name")).filter (·.kind = .identifier)).map
      (·.text source)
  else if t.kind.isDeclaration then (t.childAt? "name").map (·.text source)
  else none

/-- The identifier that a statement addresses, to which its metadata are assigned.  A default export
without a name addresses none. -/
def address? (source : Bytes) (t : Tree) : Option String :=
  if t.kind = .exportStatement then
    if t.children.any (·.kind = .defaultKeyword) then
      (((t.childAt? "declaration").or (t.childAt? "value")).bind (·.childAt? "name")).map
        (·.text source)
    else (t.childAt? "declaration").bind (declaredFirst? source)
  else t.declaredFirst? source

variable {source : Bytes} {t : Tree} {identifier : String}

theorem address?_of_declaration (h : t.kind ≠ .exportStatement) :
    t.address? source = t.declaredFirst? source := if_neg h

/-- What a variable declaration declares first is the identifier of its first binding. -/
theorem text_of_binding {name value : Tree} (hkind : t.kind.isVariableDeclaration = true)
    (hname : t.declaredFirst? source = some identifier)
    (hbinding : t.declarators.head?.bind Marked.binding? = some (name, value)) :
    name.text source = identifier := by
  rw [declaredFirst?, if_pos hkind] at hname
  obtain ⟨d, hd, hbinding⟩ := Option.bind_eq_some_iff.1 hbinding
  unfold Marked.binding? at hbinding
  split at hbinding
  · next found value' hfound hvalue =>
      split at hbinding
      · next hidentifier =>
          cases hbinding
          rw [hd, Option.bind_some, hfound] at hname
          simpa [Option.filter, hidentifier] using hname
      · cases hbinding
  · cases hbinding

/-- What a declaration binds first is what it declares first. -/
theorem eq_of_binds {first : String} {rest : List String}
    (hname : t.declaredFirst? source = some identifier)
    (hbinds : t.Binds source (first :: rest)) : first = identifier := by
  cases hbinds with
  | declarators hkind hnames =>
      rw [declaredFirst?, if_pos hkind] at hname
      cases hdeclarators : t.declarators with
      | nil =>
          rw [hdeclarators] at hnames
          cases hnames
      | cons d ds =>
          rw [hdeclarators] at hnames hname
          cases hnames with
          | cons hfirst _ =>
              obtain ⟨name, hchild, hidentifier, rfl⟩ := hfirst
              simpa [hchild, Option.filter, hidentifier] using hname
  | itself hkind hchild =>
      rw [declaredFirst?, if_neg (Bool.not_eq_true _ ▸ Kind.not_variable_of_declaration hkind),
        if_pos hkind, hchild] at hname
      exact Option.some.inj hname

end Tree

namespace Pass

variable {c : Context} {st : Site} {taken taken' : List String} {identifier : String}

/-- An annotated declaration is left alone, whatever names are taken. -/
theorem visit_of_annotated (hkind : st.node.kind ≠ .exportStatement)
    (haddress : st.node.address? c.source = some identifier)
    (hannotated : st.isAnnotated c.source identifier = true) (taken : List String) :
    (visit c taken st).result = .ok (taken, none) := by
  rw [Tree.address?_of_declaration hkind] at haddress
  unfold visit
  cases hm : st.marked? c.source with
  | none => rfl
  | some m =>
      obtain rfl := Site.site_of_marked hm
      change m.node.kind ≠ .exportStatement at hkind
      change m.node.declaredFirst? c.source = some identifier at haddress
      simp only [Marked.change]
      rw [if_neg hkind]
      by_cases hvariable : m.node.kind.isVariableDeclaration = true
      · have hnone : (m.variableChange c).result = .ok none :=
          Marked.variableChange_eq_ok_none_iff.2 fun name value hbinding => .inl (by
            rw [Tree.text_of_binding hvariable haddress hbinding]
            exact hannotated)
        rw [if_pos hvariable, Logged.result_bind_return, hnone]
        rfl
      · rw [if_neg hvariable]
        rw [Tree.declaredFirst?, if_neg hvariable] at haddress
        by_cases hdeclaration : m.node.kind.isDeclaration = true
        · rw [if_pos hdeclaration] at haddress
          have hnone : (m.declarationChange c).result = .ok none :=
            Marked.declarationChange_eq_ok_none_iff.2 fun name hname => .inl (by
              rw [hname] at haddress
              cases haddress
              exact hannotated)
          rw [if_pos hdeclaration, Logged.result_bind_return, hnone]
          rfl
        · rw [if_neg hdeclaration] at haddress
          cases haddress

/-- What stands behind an export does not matter. -/
theorem visit_of_export (hkind : st.node.kind = .exportStatement) (taken : List String)
    (after : List Tree) : visit c taken { st with after := after } = visit c taken st := by
  have hmarked : Site.marked? c.source { st with after := after } =
      (st.marked? c.source).map fun m => { m with site := { st with after := after } } := by
    have hleading : Site.leadingComment { st with after := after } = st.leadingComment := rfl
    unfold Site.marked?
    rw [hleading]
    cases st.leadingComment with
    | none => rfl
    | some comment =>
        rw [Option.map_map]
        rfl
  unfold visit
  rw [hmarked]
  cases hm : st.marked? c.source with
  | none => rfl
  | some m =>
      obtain rfl := Site.site_of_marked hm
      have hchange : ∀ m' : Marked, m'.node.kind = .exportStatement →
          m'.change c taken = m'.exportChange c taken := fun m' h => if_pos h
      calc
        Marked.change c taken { m with site := { m.site with after := after } } =
            Marked.exportChange c taken { m with site := { m.site with after := after } } :=
          hchange _ hkind
        _ = m.exportChange c taken := rfl
        _ = m.change c taken := (hchange m hkind).symm

/-- The record of an export has the identifier that the export addresses. -/
theorem target_of_visit {ch : Change} (hkind : st.node.kind = .exportStatement)
    (haddress : st.node.address? c.source = some identifier)
    (h : (visit c taken st).result = .ok (taken', some ch)) : ch.record.target = identifier := by
  obtain ⟨m, hm, rfl, hshape⟩ := shape_of_visit h
  rw [visit, hm] at h
  change m.node.kind = .exportStatement at hkind
  change m.node.address? c.source = some identifier at haddress
  rw [Tree.address?, if_pos hkind] at haddress
  cases hshape with
  | declared name hdeclaration =>
      exact absurd hkind (Kind.ne_export_of_declaration (.inl hdeclaration))
  | bound name value hvariable =>
      exact absurd hkind (Kind.ne_export_of_declaration (.inr hvariable))
  | exportedDefault _ target _ hdefault htarget _ _ hrecord _ =>
      rw [if_pos hdefault, htarget] at haddress
      obtain ⟨name, hname, rfl⟩ := Option.map_eq_some_iff.1 haddress
      exact Marked.target_of_change hkind hdefault htarget hname h
  | exportedNamed first names declaration target _ hdefault hdeclaration hdeclares hrecord _ =>
      rw [if_neg (Bool.not_eq_true _ ▸ hdefault), hdeclaration] at haddress
      rw [Marked.target_of_record hrecord]
      exact Tree.eq_of_binds haddress (Marked.binds_of_declares hdeclares)

end Pass

namespace Transform

/-- **Annotated statements.**  In a source without syntax errors, a visit leaves an annotated
declaration alone, and an export is visited as if nothing stood behind it.  So when a transform
returns, a marked statement that is annotated has neither edits nor a record, unless it is an export
of a function or a class: that one has both, and the record is one of the identifier that is
annotated. -/
theorem annotated_of_text (host : Host) (r : Registry) (s : TransformSettings)
    (source language file : String) (root : Tree)
    (hroot : tree host r (Utf8.encodeString source) language file = .ok root) :
    (∀ st ∈ Site.allStatements root, ∀ taken,
      if st.node.kind = .exportStatement then
        ∀ after, Pass.visit (context host.depth s source) taken { st with after := after } =
          Pass.visit (context host.depth s source) taken st
      else
        ∀ identifier, st.node.address? (Utf8.encodeString source) = some identifier →
          st.isAnnotated (Utf8.encodeString source) identifier = true →
          (Pass.visit (context host.depth s source) taken st).result = .ok (taken, none)) ∧
    ∀ o, (text host r s source language file).result = .ok o →
      ∃ vs, vs = Pass.visits (context host.depth s source)
        (root.identifiers (Utf8.encodeString source))
          (Site.allStatements root) ∧
        vs.map (·.1) = Site.allStatements root ∧
        o.records.Perm ((Pass.changed vs).map (·.2.record)) ∧
        Edit.apply (Utf8.encodeString source) (Pass.edits ((Pass.changed vs).map (·.2))) =
          .ok (Utf8.encodeString o.output) ∧
        ∀ st change?, (st, change?) ∈ vs → ∀ identifier,
          (st.marked? (Utf8.encodeString source)).isSome = true →
          st.node.address? (Utf8.encodeString source) = some identifier →
          st.isAnnotated (Utf8.encodeString source) identifier = true →
          (change? = none ↔ (st.node.kind = .exportStatement → st.node.ExportIdle)) ∧
          ∀ ch, change? = some ch → ch.record.target = identifier := by
  constructor
  · intro st _ taken
    split
    · next hkind => exact fun after => Pass.visit_of_export hkind taken after
    · next hkind =>
        intro identifier haddress hannotated
        exact Pass.visit_of_annotated (c := context host.depth s source) hkind
          haddress hannotated taken
  · intro o h
    obtain ⟨vs, hvs, hsites, -, hrecords, houtput⟩ := exists_visits_of_text hroot h
    refine ⟨vs, hvs, hsites, hrecords, houtput, ?_⟩
    intro st change? hmem identifier hmarked haddress hannotated
    obtain ⟨-, before, after, hvisit⟩ := Pass.exists_visit_of_mem (hvs ▸ hmem)
    by_cases hkind : st.node.kind = .exportStatement
    · refine ⟨⟨fun hnone _ => ?_, fun hidle => ?_⟩, fun ch hch => ?_⟩
      · rw [hnone] at hvisit
        obtain ⟨m, hm⟩ := Option.isSome_iff_exists.1 hmarked
        exact (Pass.idle_of_visit hkind hvisit).resolve_left (by simp [context, hm])
      · have hquiet : st.Idle (context host.depth s source) := by
          rw [Site.Idle, if_pos hkind]
          exact hidle hkind
        obtain ⟨names, hnone⟩ :=
          (@Site.visit_eq_ok_none_iff (context host.depth s source) st before).2 fun _ _ => hquiet
        rw [hvisit] at hnone
        cases hnone
        rfl
      · rw [hch] at hvisit
        exact Pass.target_of_visit (c := context host.depth s source) hkind haddress hvisit
    · have hnone := Pass.visit_of_annotated (c := context host.depth s source) hkind haddress
        hannotated
        before
      rw [hvisit] at hnone
      cases hnone
      exact ⟨⟨fun _ hexport => absurd hexport hkind, fun _ => rfl⟩, by rintro _ ⟨⟩⟩

/-- A function and an export of one, both with their metadata behind them. -/
def annotatedSource : String :=
  "/** @injectable */\nfunction f() \x7b\x7d\nf.injectable = true;\n" ++
    "/** @injectable */\nexport function g() \x7b\x7d\ng.injectable = true;\n"

/-- The encoding of `annotatedSource`. -/
def annotatedBytes : Bytes :=
  [47, 42, 42, 32, 64, 105, 110, 106, 101, 99, 116, 97, 98, 108, 101, 32, 42, 47, 10, 102, 117,
    110, 99, 116, 105, 111, 110, 32, 102, 40, 41, 32, 123, 125, 10, 102, 46, 105, 110, 106, 101,
    99, 116, 97, 98, 108, 101, 32, 61, 32, 116, 114, 117, 101, 59, 10, 47, 42, 42, 32, 64, 105,
    110, 106, 101, 99, 116, 97, 98, 108, 101, 32, 42, 47, 10, 101, 120, 112, 111, 114, 116, 32,
    102, 117, 110, 99, 116, 105, 111, 110, 32, 103, 40, 41, 32, 123, 125, 10, 103, 46, 105, 110,
    106, 101, 99, 116, 97, 98, 108, 101, 32, 61, 32, 116, 114, 117, 101, 59, 10]

/-- The tree of `annotatedSource`. -/
def annotatedTree : Tree :=
  .node ⟨.program, true, false, 0, 119, 0, 6, none, 0⟩ [
    .node ⟨.comment, true, false, 0, 18, 0, 0, none, 1⟩ [],
    .node ⟨.functionDeclaration, true, false, 19, 34, 1, 1, none, 2⟩ [
      .node ⟨.function, false, false, 19, 27, 1, 1, none, 3⟩ [],
      .node ⟨.identifier, true, false, 28, 29, 1, 1, some "name", 4⟩ [],
      .node ⟨.formalParameters, true, false, 29, 31, 1, 1, some "parameters", 5⟩ [
        .node ⟨.other "(", false, false, 29, 30, 1, 1, none, 6⟩ [],
        .node ⟨.other ")", false, false, 30, 31, 1, 1, none, 7⟩ []],
      .node ⟨.statementBlock, true, false, 32, 34, 1, 1, some "body", 8⟩ [
        .node ⟨.other "\x7b", false, false, 32, 33, 1, 1, none, 9⟩ [],
        .node ⟨.other "\x7d", false, false, 33, 34, 1, 1, none, 10⟩ []]],
    .node ⟨.expressionStatement, true, false, 35, 55, 2, 2, none, 11⟩ [
      .node ⟨.assignmentExpression, true, false, 35, 54, 2, 2, none, 12⟩ [
        .node ⟨.memberExpression, true, false, 35, 47, 2, 2, some "left", 13⟩ [
          .node ⟨.identifier, true, false, 35, 36, 2, 2, some "object", 14⟩ [],
          .node ⟨.other ".", false, false, 36, 37, 2, 2, none, 15⟩ [],
          .node ⟨.propertyIdentifier, true, false, 37, 47, 2, 2, some "property", 16⟩ []],
        .node ⟨.other "=", false, false, 48, 49, 2, 2, none, 17⟩ [],
        .node ⟨.other "true", true, false, 50, 54, 2, 2, some "right", 18⟩ []],
      .node ⟨.semicolon, false, false, 54, 55, 2, 2, none, 19⟩ []],
    .node ⟨.comment, true, false, 56, 74, 3, 3, none, 20⟩ [],
    .node ⟨.exportStatement, true, false, 75, 97, 4, 4, none, 21⟩ [
      .node ⟨.exportKeyword, false, false, 75, 81, 4, 4, none, 22⟩ [],
      .node ⟨.functionDeclaration, true, false, 82, 97, 4, 4, some "declaration", 23⟩ [
        .node ⟨.function, false, false, 82, 90, 4, 4, none, 24⟩ [],
        .node ⟨.identifier, true, false, 91, 92, 4, 4, some "name", 25⟩ [],
        .node ⟨.formalParameters, true, false, 92, 94, 4, 4, some "parameters", 26⟩ [
          .node ⟨.other "(", false, false, 92, 93, 4, 4, none, 27⟩ [],
          .node ⟨.other ")", false, false, 93, 94, 4, 4, none, 28⟩ []],
        .node ⟨.statementBlock, true, false, 95, 97, 4, 4, some "body", 29⟩ [
          .node ⟨.other "\x7b", false, false, 95, 96, 4, 4, none, 30⟩ [],
          .node ⟨.other "\x7d", false, false, 96, 97, 4, 4, none, 31⟩ []]]],
    .node ⟨.expressionStatement, true, false, 98, 118, 5, 5, none, 32⟩ [
      .node ⟨.assignmentExpression, true, false, 98, 117, 5, 5, none, 33⟩ [
        .node ⟨.memberExpression, true, false, 98, 110, 5, 5, some "left", 34⟩ [
          .node ⟨.identifier, true, false, 98, 99, 5, 5, some "object", 35⟩ [],
          .node ⟨.other ".", false, false, 99, 100, 5, 5, none, 36⟩ [],
          .node ⟨.propertyIdentifier, true, false, 100, 110, 5, 5, some "property", 37⟩ []],
        .node ⟨.other "=", false, false, 111, 112, 5, 5, none, 38⟩ [],
        .node ⟨.other "true", true, false, 113, 117, 5, 5, some "right", 39⟩ []],
      .node ⟨.semicolon, false, false, 117, 118, 5, 5, none, 40⟩ []]]

/-- What becomes of `annotatedSource`. -/
def annotatedOutput : String :=
  "/** @injectable */\nfunction f() \x7b\x7d\nf.injectable = true;\n" ++
    "/** @injectable */\nfunction g() \x7b\x7d\ng.injectable = true;\n" ++
    "export \x7b g \x7d;\ng.injectable = true;\n"

/-- The encoding of `annotatedOutput`. -/
def annotatedOutputBytes : Bytes :=
  [47, 42, 42, 32, 64, 105, 110, 106, 101, 99, 116, 97, 98, 108, 101, 32, 42, 47, 10, 102, 117,
    110, 99, 116, 105, 111, 110, 32, 102, 40, 41, 32, 123, 125, 10, 102, 46, 105, 110, 106, 101,
    99, 116, 97, 98, 108, 101, 32, 61, 32, 116, 114, 117, 101, 59, 10, 47, 42, 42, 32, 64, 105,
    110, 106, 101, 99, 116, 97, 98, 108, 101, 32, 42, 47, 10, 102, 117, 110, 99, 116, 105, 111,
    110, 32, 103, 40, 41, 32, 123, 125, 10, 103, 46, 105, 110, 106, 101, 99, 116, 97, 98, 108,
    101, 32, 61, 32, 116, 114, 117, 101, 59, 10, 101, 120, 112, 111, 114, 116, 32, 123, 32, 103,
    32, 125, 59, 10, 103, 46, 105, 110, 106, 101, 99, 116, 97, 98, 108, 101, 32, 61, 32, 116,
    114, 117, 101, 59, 10]

theorem encodeString_annotatedSource : Utf8.encodeString annotatedSource = annotatedBytes :=
  (Utf8.encodeString_append (Utf8.encodeString_ofList _) (Utf8.encodeString_ofList _)).trans rfl

theorem encodeString_annotatedOutput : Utf8.encodeString annotatedOutput = annotatedOutputBytes :=
  (Utf8.encodeString_append
    (Utf8.encodeString_append (Utf8.encodeString_ofList _) (Utf8.encodeString_ofList _))
    (Utf8.encodeString_ofList _)).trans rfl

theorem tree_annotated : tree (.common fun _ _ => annotatedTree) oneGrammar
    (Utf8.encodeString annotatedSource) "javascript" "a.js" = .ok annotatedTree :=
  tree_oneGrammar rfl (Utf8.encodeString annotatedSource) "a.js"

theorem exists_text_of_annotated :
    ∃ o, (text (.common fun _ _ => annotatedTree) oneGrammar .default annotatedSource "javascript"
        "a.js").result = .ok o ∧ o.output = annotatedOutput ∧
      o.records.map (·.target) = ["g"] := by
  have hwf : annotatedTree.WellFormed (Utf8.encodeString annotatedSource) := by
    rw [encodeString_annotatedSource]
    decide +kernel
  have hyields : (Pass.run ⟨annotatedBytes, .warn, "uid", 980⟩ annotatedTree).result.toOption.any
      (yields annotatedBytes annotatedOutputBytes) = true := by
    decide +kernel
  have htargets : (Pass.run ⟨annotatedBytes, .warn, "uid", 980⟩ annotatedTree).result.toOption.map
      (·.map (·.record.target)) = some ["g"] := rfl
  rw [← encodeString_annotatedSource] at htargets hyields
  rw [← encodeString_annotatedOutput] at hyields
  obtain ⟨chs, hrun, htext⟩ := exists_text_of_yields (s := .default) tree_annotated hwf
    (by decide) hyields
  change (Pass.run ⟨Utf8.encodeString annotatedSource, .warn, "uid", 980⟩ annotatedTree).result =
    .ok chs at hrun
  rw [hrun] at htargets
  have hperm := (perm_records chs).map (·.target)
  rw [List.map_map] at hperm
  exact ⟨_, htext, rfl, List.perm_singleton.1 (hperm.trans (.of_eq (Option.some.inj htargets)))⟩

/-- The statement of the sample that addresses an identifier is marked and annotated. -/
theorem exists_annotated (identifier : String) (kind : Kind)
    (h : (Site.allStatements annotatedTree).any (fun st => st.node.kind = kind &&
      (st.marked? annotatedBytes).isSome && st.node.address? annotatedBytes = some identifier &&
        st.isAnnotated annotatedBytes identifier) = true) :
    ∃ st ∈ Site.allStatements annotatedTree, st.node.kind = kind ∧
      (st.marked? (Utf8.encodeString annotatedSource)).isSome = true ∧
      st.node.address? (Utf8.encodeString annotatedSource) = some identifier ∧
      st.isAnnotated (Utf8.encodeString annotatedSource) identifier = true := by
  rw [← encodeString_annotatedSource] at h
  obtain ⟨st, hmem, h⟩ := List.any_eq_true.1 h
  simp only [Bool.and_eq_true, decide_eq_true_eq] at h
  exact ⟨st, hmem, h.1.1.1, h.1.1.2, h.1.2, h.2⟩

/-- The function of the sample has no change. -/
theorem annotated_function_kept :
    ∃ vs st, Pass.visits (context 980 .default annotatedSource)
        (annotatedTree.identifiers (Utf8.encodeString annotatedSource))
        (Site.allStatements annotatedTree) = vs ∧
      st.node.kind = .functionDeclaration ∧
      (st.marked? (Utf8.encodeString annotatedSource)).isSome = true ∧ (st, none) ∈ vs := by
  obtain ⟨o, htext, -⟩ := exists_text_of_annotated
  obtain ⟨vs, hvs, hsites, -, -, hall⟩ :=
    (annotated_of_text _ _ .default _ _ _ _ tree_annotated).2 o htext
  obtain ⟨st, hmem, hkind, hmarked, haddress, hannotated⟩ :=
    exists_annotated "f" .functionDeclaration rfl
  rw [← hsites] at hmem
  obtain ⟨⟨_, change?⟩, hv, rfl⟩ := List.mem_map.1 hmem
  obtain ⟨hnone, -⟩ := hall _ _ hv "f" hmarked haddress hannotated
  have hkept : change? = none := hnone.2 fun hexport => by
    rw [hkind] at hexport
    cases hexport
  exact ⟨vs, _, hvs.symm, hkind, hmarked, hkept ▸ hv⟩

/-- The export of the sample is rewritten and gets its metadata a second time. -/
theorem annotated_export_rewritten :
    ∃ o st, (text (.common fun _ _ => annotatedTree) oneGrammar .default annotatedSource
      "javascript"
        "a.js").result = .ok o ∧ o.output = annotatedOutput ∧ o.records.map (·.target) = ["g"] ∧
      st ∈ Site.allStatements annotatedTree ∧
      (st.marked? (Utf8.encodeString annotatedSource)).isSome = true ∧
      st.node.address? (Utf8.encodeString annotatedSource) = some "g" ∧
      st.isAnnotated (Utf8.encodeString annotatedSource) "g" = true := by
  obtain ⟨o, htext, houtput, hrecords⟩ := exists_text_of_annotated
  obtain ⟨st, hmem, -, hmarked, haddress, hannotated⟩ :=
    exists_annotated "g" .exportStatement rfl
  exact ⟨o, st, htext, houtput, hrecords, hmem, hmarked, haddress, hannotated⟩

end Transform
end Injection
