import Injection.Proofs.Frame
import Injection.Proofs.Quiet

/-!
# What a record says

A record belongs to one statement, to the node that the statement declares or exports, and to the
comment that leads the statement.

* `Aliases.get?_ofDependencies`: of several directives for one name the last one counts.
* `Tree.target?` is the node that a statement makes injectable, `Tree.targetName?` its name there,
  `Tree.givenParameters` the names of what is given to it and `Tree.directiveText` the text with the
  directives for them.
* **`describes_of_text`**: what each record of a transform says about its own statement.
-/

namespace Injection

/-- Steps that all succeed, put in sequence. -/
theorem mapM_eq_ok_map {ε α β : Type} {f : α → Except ε β} {g : α → β} {xs : List α}
    (h : ∀ x ∈ xs, f x = .ok (g x)) : xs.mapM f = .ok (xs.map g) := by
  rw [mapM_eq_ok_iff_forall₂, List.forall₂_map_right_iff, List.forall₂_same]
  exact h

theorem Text.ofString_injective : Function.Injective Text.ofString := by
  intro a b h
  have hchars : Function.Injective (List.map CodePoint.char) :=
    List.map_injective_iff.2 fun _ _ h => CodePoint.char.inj h
  exact String.toList_injective (hchars h)

/-! ## The alias of a parameter -/

/-- The alias that directives give a name: that of the last directive for it, or the name itself. -/
def Alias.ofDirectives (ds : List Dependency) (name : String) : Alias :=
  match (ds.filter (·.param = name)).getLast? with
  | some d => ⟨d.provider, d.default⟩
  | none => ⟨name, none⟩

namespace Aliases

/-- The directive at the end is set last. -/
theorem ofDependencies_concat (ds : List Dependency) (d : Dependency) :
    ofDependencies (ds ++ [d]) = (ofDependencies ds).set d.param ⟨d.provider, d.default⟩ := by
  rw [ofDependencies, List.foldl_concat]
  rfl

theorem complete_cons (m : Aliases) (p : String) (params : List String) :
    m.complete (p :: params) =
      (if m.contains p then m else m.set p ⟨p, none⟩).complete params := rfl

/-- Of the directives for one name the last one counts. -/
theorem get?_ofDependencies (ds : List Dependency) (name : String) :
    (ofDependencies ds).get? name =
      (ds.filter (·.param = name)).getLast?.map fun d => ⟨d.provider, d.default⟩ := by
  induction ds using List.reverseRecOn with
  | nil => rfl
  | append_singleton ds d ih =>
      -- The directive at the end is set last, so it decides its own name and no other.
      rw [ofDependencies_concat, List.filter_append]
      by_cases hname : d.param = name
      · subst hname
        rw [List.filter_cons_of_pos (by simp), List.filter_nil, List.getLast?_concat]
        exact Assoc.lookup_assign_self _ _ _
      · rw [List.filter_cons_of_neg (by simpa using hname), List.filter_nil, List.append_nil, ← ih]
        exact Assoc.lookup_assign_of_ne (Ne.symm hname) _ _

/-- Completed aliases: a parameter without one stands for itself, and the others stay. -/
theorem get?_complete (m : Aliases) (params : List String) (name : String) :
    (m.complete params).get? name =
      (m.get? name).or (if name ∈ params then some ⟨name, none⟩ else none) := by
  induction params generalizing m with
  | nil => simp [complete]
  | cons p params ih =>
      rw [complete_cons, ih]
      by_cases hname : name = p
      · subst hname
        cases hget : m.get? name with
        | some a => simp [contains, hget]
        | none =>
            have hset : (m.set name ⟨name, none⟩).get? name = some ⟨name, none⟩ :=
              Assoc.lookup_assign_self _ _ _
            simp [contains, hget, hset]
      · have hset : (m.set p ⟨p, none⟩).get? name = m.get? name :=
          Assoc.lookup_assign_of_ne hname _ _
        split_ifs
        all_goals simp_all

/-- The parameters of completed aliases all have one. -/
theorem get?_complete_ofDependencies {ds : List Dependency} {params : List String} {name : String}
    (h : name ∈ params) :
    ((ofDependencies ds).complete params).get? name = some (Alias.ofDirectives ds name) := by
  rw [get?_complete, get?_ofDependencies, if_pos h, Alias.ofDirectives]
  cases (ds.filter (·.param = name)).getLast? with
  | none => rfl
  | some d => rfl

/-- The fields of completed aliases: each parameter once, at its first place. -/
theorem forParameters_complete (ds : List Dependency) (params : List String) :
    ((ofDependencies ds).complete params).forParameters params =
      .ok (params.eraseDups.map fun p => (Text.ofString p, (Alias.ofDirectives ds p).toJson)) := by
  rw [forParameters,
    mapM_eq_ok_map (g := fun p => (Text.ofString p, (Alias.ofDirectives ds p).toJson))]
  · exact congrArg Except.ok (Assoc.ofList_map Text.ofString_injective params)
  · intro p hp
    rw [get?_complete_ofDependencies hp]

end Aliases

/-! ## The target of a statement -/

namespace Tree

/-- What a declaration makes injectable: itself, or the value of its first declarator. -/
def declared? (t : Tree) : Option Tree :=
  if t.kind.isVariableDeclaration then t.declarators.head?.bind (·.childAt? "value")
  else if t.kind.isDeclaration then some t
  else none

/-- The node that a statement makes injectable. -/
def target? (t : Tree) : Option Tree :=
  if t.kind ≠ .exportStatement then t.declared?
  else if t.children.any (·.kind = .defaultKeyword) then
    (t.childAt? "declaration").or (t.childAt? "value")
  else (t.childAt? "declaration").bind declared?

/-- The name of what a declaration makes injectable: its own, or that of its first declarator. -/
def declarationName? (t : Tree) : Option Tree :=
  if t.kind.isVariableDeclaration then t.declarators.head?.bind (·.childAt? "name")
  else t.childAt? "name"

/-- The name of what a statement makes injectable; what a default export exports may have none. -/
def targetName? (t : Tree) : Option Tree :=
  if t.kind ≠ .exportStatement then t.declarationName?
  else if t.children.any (·.kind = .defaultKeyword) then
    ((t.childAt? "declaration").or (t.childAt? "value")).bind (·.childAt? "name")
  else (t.childAt? "declaration").bind declarationName?

/-- The parameters that a target is given: those of a function, or those of the constructor of a
class. -/
def givenParameters (source : Bytes) (t : Tree) : List String :=
  if t.isClass then
    ((t.constructorSite? source).map (·.node.functionParameters source)).getD []
  else t.functionParameters source

/-- The text with the directives for a target: the comment of a function, or that of a class and
behind it that of the constructor. -/
def directiveText (source : Bytes) (t : Tree) (comment : List Char) : List Char :=
  if t.isClass then
    match (t.constructorSite? source).bind Site.leadingComment with
    | some c => comment ++ '\n' :: Comment.value (c.chars source)
    | none => comment
  else comment

end Tree

theorem Signature.ofTarget?_eq (source : Bytes) (t : Tree) (comment : List Char) :
    ofTarget? source t comment =
      if t.isTarget then some ⟨t.givenParameters source, t.directiveText source comment⟩
      else none := by
  unfold ofTarget? Tree.isTarget Tree.givenParameters Tree.directiveText
  cases t.isClass with
  | false => cases t.isFunction <;> rfl
  | true =>
      unfold ofClass
      cases t.constructorSite? source with
      | none => rfl
      | some s => cases hcomment : s.leadingComment <;> simp [hcomment]

namespace Kind

theorem ne_export_of_declaration {k : Kind}
    (h : k.isDeclaration = true ∨ k.isVariableDeclaration = true) : k ≠ .exportStatement := by
  rintro rfl
  rcases h with h | h <;> cases h

theorem not_variable_of_declaration {k : Kind} (h : k.isDeclaration = true) :
    k.isVariableDeclaration = false := by
  cases k <;> first | rfl | cases h

end Kind

namespace Marked

variable {c : Context} {m : Marked} {ch : Change}

theorem declared_of_declares {source : Bytes} {declaration target : Tree} {names : List String}
    (h : Declares source declaration names target) : declaration.declared? = some target := by
  unfold Tree.declared?
  cases h with
  | bindings hkind hnames hvalue => rw [if_pos hkind, hvalue]
  | itself hkind hname =>
      rw [if_neg (by rw [Kind.not_variable_of_declaration hkind]; exact Bool.false_ne_true),
        if_pos hkind]

theorem declarationName?_of_declares {source : Bytes} {declaration target : Tree}
    {identifier : String}
    {names : List String} (h : Declares source declaration (identifier :: names) target) :
    ∃ name, declaration.declarationName? = some name ∧ identifier = name.text source := by
  unfold Tree.declarationName?
  cases h with
  | bindings hkind hnames hvalue =>
      obtain ⟨d, hd, -⟩ := Option.bind_eq_some_iff.1 hvalue
      obtain ⟨rest, hrest⟩ := List.head?_eq_some_iff.1 hd
      rw [hrest] at hnames
      obtain ⟨hfirst, -⟩ := List.forall₂_cons.1 (mapM_eq_ok_iff_forall₂.1 hnames)
      unfold declaratorName at hfirst
      split at hfirst
      · next name hname =>
          cases hfirst
          refine ⟨name, ?_, rfl⟩
          rw [if_pos hkind, hd]
          exact (Option.filter_eq_some_iff.1 hname).1
      · cases hfirst
  | itself hkind hname =>
      refine ⟨_, ?_, rfl⟩
      rw [if_neg (by rw [Kind.not_variable_of_declaration hkind]; exact Bool.false_ne_true), hname]

/-- The record of a change is that of the target of the statement, under the name that the statement
gives it. -/
theorem Shape.exists_target (h : m.Shape c ch) :
    ∃ identifier target, m.node.target? = some target ∧
      (∀ name, m.node.targetName? = some name → identifier = name.text c.source) ∧
      (m.record c identifier target).result = .ok (some ch.record) := by
  unfold Tree.target? Tree.targetName?
  cases h with
  | declared name hkind hname hfresh hrecord hedits =>
      have hdeclares : Declares c.source m.node [name.text c.source] m.node := .itself hkind hname
      have hexport := Kind.ne_export_of_declaration (Or.inl hkind)
      refine ⟨_, m.node, ?_, ?_, hrecord⟩
      · rw [if_pos hexport]
        exact declared_of_declares hdeclares
      · intro name' hname'
        obtain ⟨name'', hname'', htext⟩ := declarationName?_of_declares hdeclares
        rw [if_pos hexport, hname''] at hname'
        rw [htext, Option.some.inj hname']
  | bound name value hkind hbinding hfresh hrecord hedits =>
      have hexport := Kind.ne_export_of_declaration (Or.inr hkind)
      obtain ⟨d, hd, hbinding⟩ := Option.bind_eq_some_iff.1 hbinding
      obtain ⟨hname, hvalue⟩ : d.childAt? "name" = some name ∧ d.childAt? "value" = some value := by
        unfold binding? at hbinding
        split at hbinding
        · next hname hvalue =>
            split_ifs at hbinding
            cases hbinding
            exact ⟨hname, hvalue⟩
        · cases hbinding
      refine ⟨_, value, ?_, ?_, hrecord⟩
      · rw [if_pos hexport, Tree.declared?, if_pos hkind, hd]
        exact hvalue
      · intro name' hname'
        rw [if_pos hexport, Tree.declarationName?, if_pos hkind, hd] at hname'
        rw [Option.some.inj (hname.symm.trans hname')]
  | exportedDefault identifier target hkind hdefault htarget hexportable hname hrecord hedits =>
      refine ⟨identifier, target, ?_, ?_, hrecord⟩
      · rw [if_neg (not_not_intro hkind), if_pos hdefault, htarget]
      · intro name hname'
        rw [if_neg (not_not_intro hkind), if_pos hdefault, htarget] at hname'
        rcases hname with ⟨name', hsome, rfl⟩ | ⟨hnone, -⟩
        · rw [Option.some.inj (hsome.symm.trans hname')]
        · cases hnone.symm.trans hname'
  | exportedNamed identifier names declaration target hkind hdefault hdeclaration hdeclares hrecord
      hedits =>
      have hnamed : ¬ m.node.children.any (·.kind = .defaultKeyword) = true := by
        rw [hdefault]
        exact Bool.false_ne_true
      refine ⟨identifier, target, ?_, ?_, hrecord⟩
      · rw [if_neg (not_not_intro hkind), if_neg hnamed, hdeclaration]
        exact declared_of_declares hdeclares
      · intro name hname
        obtain ⟨name', hname', htext⟩ := declarationName?_of_declares hdeclares
        rw [if_neg (not_not_intro hkind), if_neg hnamed, hdeclaration, Option.bind_some,
          hname'] at hname
        rw [htext, Option.some.inj hname]

end Marked

/-- A marked statement has its directive from the comment that leads it. -/
theorem Site.scan_of_marked {source : Bytes} {s : Site} {m : Marked}
    (h : s.marked? source = some m) :
    ∃ comment, s.leadingComment = some comment ∧
      m.comment = Comment.value (comment.chars source) ∧
      Injectable.scan m.comment = some m.directive := by
  unfold marked? at h
  cases hcomment : s.leadingComment with
  | none =>
      rw [hcomment] at h
      cases h
  | some comment =>
      rw [hcomment] at h
      obtain ⟨d, hscan, rfl⟩ := Option.map_eq_some_iff.1 h
      exact ⟨comment, rfl, rfl, hscan⟩

/-! ## Records -/

namespace Record

/-- What the record of the target `t` of a statement says, under the comment that leads the
statement. -/
structure Describes (depth : Nat) (source : Bytes) (statement : Tree) (comment : List Char)
    (t : Tree) (r : Record) : Prop where
  line : r.line = statement.line
  /-- The record has the name that the statement gives the target, if it gives it one. -/
  name : ∀ name, statement.targetName? = some name → r.target = name.text source
  isTarget : t.isTarget = true
  newInstance : r.newInstance = true ↔ t.isClass = true
  /-- The alias is that of the first injectable directive of the comment. -/
  injectAs : ∃ d, Injectable.scan comment = some d ∧ r.injectAs = d.alias?
  absent : r.params.truthy = false ↔ t.givenParameters source = []
  /-- Each parameter stands once, at its first place, with the alias of the last directive for it;
  nothing else is listed. -/
  params : t.givenParameters source ≠ [] →
    ∃ ds, (Dependency.parse depth (t.directiveText source comment)).result = .ok ds ∧
      r.params = .obj ((t.givenParameters source).eraseDups.map fun p =>
        (Text.ofString p, (Alias.ofDirectives ds p).toJson))

/-- Unknown names are let pass, unless there are some and they are an error. -/
theorem checkUnknown_eq_ok {policy : UnknownPolicy} {target : String} {unknown : List String}
    (h : policy = .error → unknown = []) :
    (checkUnknown policy target unknown).result = .ok () := by
  unfold checkUnknown
  split
  · rfl
  · next hne =>
      cases policy with
      | error => exact absurd (by simp [h rfl]) hne
      | warn => rfl
      | ignore => rfl

/-- The parameters of a record with a signature. -/
theorem paramsOf_eq_ok {depth : Nat} {policy : UnknownPolicy} {identifier : String} {s : Signature}
    {fields : List (Text × Json)} (hne : s.params ≠ [])
    (h : (paramsOf depth policy identifier s).result = .ok fields) :
    ∃ ds, (Dependency.parse depth s.directives).result = .ok ds ∧
      fields = s.params.eraseDups.map fun p =>
        (Text.ofString p, (Alias.ofDirectives ds p).toJson) := by
  unfold paramsOf at h
  rw [if_neg (by simpa using hne), Logged.result_bind_eq_ok_iff] at h
  obtain ⟨aliases, haliases, h⟩ := h
  obtain ⟨ds, hds, rfl⟩ := Logged.result_bind_return_eq_ok_iff.1 haliases
  rw [Logged.result_bind_eq_ok_iff] at h
  obtain ⟨_, -, h⟩ := h
  rw [Aliases.forParameters_complete] at h
  exact ⟨ds, hds, (Except.ok.inj h).symm⟩

/-- The fields of a record are absent exactly when there are no parameters. -/
theorem truthy_obj_map_eraseDups (names : List String) (f : String → Text × Json) :
    (Json.obj (names.eraseDups.map f)).truthy = false ↔ names = [] := by
  cases names with
  | nil => simp [Json.truthy]
  | cons n names => simp [Json.truthy, List.eraseDups_cons]

theorem describes_of_record {c : Context} {m : Marked} {identifier : String} {target : Tree}
    {r : Record} (hscan : Injectable.scan m.comment = some m.directive)
    (hname : ∀ name, m.node.targetName? = some name → identifier = name.text c.source)
    (h : (m.record c identifier target).result = .ok (some r)) :
    r.Describes c.depth c.source m.node m.comment target := by
  unfold Marked.record build at h
  rw [Signature.ofTarget?_eq] at h
  cases htarget : target.isTarget with
  | false =>
      simp only [htarget, Bool.false_eq_true, if_false, Logged.result_write_bind] at h
      cases h
  | true =>
      simp only [htarget, if_true] at h
      obtain ⟨fields, hfields, hr⟩ := Logged.result_bind_return_eq_ok_iff.1 h
      cases hr
      -- Directives are read only when there is a parameter that they could be for.
      by_cases hnone : target.givenParameters c.source = []
      · have hempty : fields = [] := by
          unfold paramsOf at hfields
          rw [if_pos (by simpa using hnone)] at hfields
          exact (Except.ok.inj hfields).symm
        subst hempty
        exact ⟨rfl, hname, htarget, Iff.rfl, ⟨m.directive, hscan, rfl⟩, iff_of_true rfl hnone,
          fun hne => absurd hnone hne⟩
      · obtain ⟨ds, hds, rfl⟩ := paramsOf_eq_ok hnone hfields
        exact ⟨rfl, hname, htarget, Iff.rfl, ⟨m.directive, hscan, rfl⟩,
          truthy_obj_map_eraseDups _ _, fun _ => ⟨ds, hds, rfl⟩⟩

end Record

namespace Transform

variable {host : Host} {r : Registry} {s : TransformSettings}
  {source language file : String}

/-- **What records say.**  The records of a transform are those of the changes that its visits of
the statements made, one for each.  The record of a visit has the line of the statement and the name
that the statement gives its target, and under the comment that leads the statement it describes
this target. -/
theorem describes_of_text (host : Host) (r : Registry) (s : TransformSettings)
    (source language file : String) (root : Tree) (o : Outcome)
    (hroot : tree host r (Utf8.encodeString source) language file = .ok root)
    (h : (text host r s source language file).result = .ok o) :
    ∃ vs, vs = Pass.visits (context host.depth s source)
        (root.identifiers (Utf8.encodeString source)) (Site.allStatements root) ∧
      vs.map (·.1) = Site.allStatements root ∧
      o.records.Perm ((Pass.changed vs).map (·.2.record)) ∧
      ∀ st ch, (st, some ch) ∈ vs → ∃ comment target,
        st.leadingComment = some comment ∧ st.node.target? = some target ∧
        ch.record.Describes host.depth (Utf8.encodeString source) st.node
          (Comment.value (comment.chars (Utf8.encodeString source))) target := by
  obtain ⟨vs, hvs, hsites, -, hrecords, -⟩ := exists_visits_of_text hroot h
  refine ⟨vs, hvs, hsites, hrecords, fun st ch hmem => ?_⟩
  rw [hvs] at hmem
  obtain ⟨-, before, after, hvisit⟩ := Pass.exists_visit_of_mem hmem
  obtain ⟨m, hm, rfl, hshape⟩ := Pass.shape_of_visit hvisit
  obtain ⟨comment, hlead, hcomment, hscan⟩ := Site.scan_of_marked hm
  obtain ⟨identifier, target, htarget, hname, hrecord⟩ := hshape.exists_target
  have hdescribes := Record.describes_of_record hscan hname hrecord
  rw [hcomment] at hdescribes
  exact ⟨comment, target, hlead, htarget, hdescribes⟩

/-- A transform of a well-formed tree whose records can be written returns. -/
theorem exists_text_of_run {root : Tree} {chs : List Change}
    (hroot : tree host r (Utf8.encodeString source) language file = .ok root)
    (hwf : root.WellFormed (Utf8.encodeString source)) (hblocks : root.BlocksBehindTargets)
    (hrun : (Pass.run (context host.depth s source) root).result = .ok chs)
    (hdefaults : ∀ ch ∈ chs, ∀ d ∈ ch.record.defaults, d.whole = true) :
    ∃ o, (text host r s source language file).result = .ok o ∧ o.records = Pass.records chs := by
  have hout := Pass.apply_edits_of_run (c := context host.depth s source) hwf hblocks hrun hdefaults
  obtain ⟨cs, hcs⟩ := Pass.exists_decode_of_apply (c := context host.depth s source)
    (Utf8.encodeString_eq source) hwf hrun hout
  exact ⟨_, text_eq_ok_iff.2 ⟨root, chs, _, cs, hroot, hrun, hout, hcs, rfl⟩, rfl⟩

/-- A tree without errors is what its source is read into. -/
theorem tree_oneGrammar {root : Tree} (h : root.firstError?.isNone = true) (source : Bytes)
    (file : String) :
    tree (.common fun _ _ => root) oneGrammar source "javascript" file = .ok root := by
  simp only [tree, grammar_javascript, Host.tree_common, Option.isNone_iff_eq_none.1 h]

/-- A class whose constructor has a comment of its own, and a parameter that is named twice. -/
def classSource : String :=
  "/** @injectable Svc @dependency \x7bx\x7d a @dependency \x7by = 1\x7d b */\nclass C \x7b\n" ++
    "  /** @dependency \x7bz = null\x7d a */\n  constructor(a, b, c, a) \x7b\x7d\n\x7d\n"

/-- The encoding of `classSource`. -/
def classBytes : Bytes :=
  [47, 42, 42, 32, 64, 105, 110, 106, 101, 99, 116, 97, 98, 108, 101, 32, 83, 118, 99, 32, 64,
    100, 101, 112, 101, 110, 100, 101, 110, 99, 121, 32, 123, 120, 125, 32, 97, 32, 64, 100, 101,
    112, 101, 110, 100, 101, 110, 99, 121, 32, 123, 121, 32, 61, 32, 49, 125, 32, 98, 32, 42, 47,
    10, 99, 108, 97, 115, 115, 32, 67, 32, 123, 10, 32, 32, 47, 42, 42, 32, 64, 100, 101, 112,
    101, 110, 100, 101, 110, 99, 121, 32, 123, 122, 32, 61, 32, 110, 117, 108, 108, 125, 32, 97,
    32, 42, 47, 10, 32, 32, 99, 111, 110, 115, 116, 114, 117, 99, 116, 111, 114, 40, 97, 44, 32,
    98, 44, 32, 99, 44, 32, 97, 41, 32, 123, 125, 10, 125, 10]

/-- The tree of `classSource`. -/
def classTree : Tree :=
  .node ⟨.program, true, false, 0, 138, 0, 5, none, 0⟩ [
    .node ⟨.comment, true, false, 0, 62, 0, 0, none, 1⟩ [],
    .node ⟨.classDeclaration, true, false, 63, 137, 1, 4, none, 2⟩ [
      .node ⟨.classExpression, false, false, 63, 68, 1, 1, none, 3⟩ [],
      .node ⟨.identifier, true, false, 69, 70, 1, 1, some "name", 4⟩ [],
      .node ⟨.other "class_body", true, false, 71, 137, 1, 4, some "body", 5⟩ [
        .node ⟨.other "\x7b", false, false, 71, 72, 1, 1, none, 6⟩ [],
        .node ⟨.comment, true, false, 75, 106, 2, 2, none, 7⟩ [],
        .node ⟨.methodDefinition, true, false, 109, 135, 3, 3, none, 8⟩ [
          .node ⟨.propertyIdentifier, true, false, 109, 120, 3, 3, some "name", 9⟩ [],
          .node ⟨.formalParameters, true, false, 120, 132, 3, 3, some "parameters", 10⟩ [
            .node ⟨.other "(", false, false, 120, 121, 3, 3, none, 11⟩ [],
            .node ⟨.identifier, true, false, 121, 122, 3, 3, none, 12⟩ [],
            .node ⟨.other ",", false, false, 122, 123, 3, 3, none, 13⟩ [],
            .node ⟨.identifier, true, false, 124, 125, 3, 3, none, 14⟩ [],
            .node ⟨.other ",", false, false, 125, 126, 3, 3, none, 15⟩ [],
            .node ⟨.identifier, true, false, 127, 128, 3, 3, none, 16⟩ [],
            .node ⟨.other ",", false, false, 128, 129, 3, 3, none, 17⟩ [],
            .node ⟨.identifier, true, false, 130, 131, 3, 3, none, 18⟩ [],
            .node ⟨.other ")", false, false, 131, 132, 3, 3, none, 19⟩ []],
          .node ⟨.statementBlock, true, false, 133, 135, 3, 3, some "body", 20⟩ [
            .node ⟨.other "\x7b", false, false, 133, 134, 3, 3, none, 21⟩ [],
            .node ⟨.other "\x7d", false, false, 134, 135, 3, 3, none, 22⟩ []]],
        .node ⟨.other "\x7d", false, false, 136, 137, 4, 4, none, 23⟩ []]]]

/-- The parameters of the class. -/
def classParams : String :=
  "\x7b\"a\": \x7b\"from\": \"z\", \"default\": null\x7d, " ++
    "\"b\": \x7b\"from\": \"y\", \"default\": 1\x7d, \"c\": \x7b\"from\": \"c\"\x7d\x7d"

theorem encodeString_classSource : Utf8.encodeString classSource = classBytes :=
  (Utf8.encodeString_append (Utf8.encodeString_ofList _) (Utf8.encodeString_ofList _)).trans
    rfl

/-- The class, and behind it a default export of a function without a name. -/
def pairSource : String :=
  classSource ++ "/** @injectable @dependency \x7bk\x7d d */\nexport default (d, e) => d;\n"

/-- The encoding of `pairSource`. -/
def pairBytes : Bytes :=
  classBytes ++
    [47, 42, 42, 32, 64, 105, 110, 106, 101, 99, 116, 97, 98, 108, 101, 32, 64, 100, 101, 112, 101,
      110, 100, 101, 110, 99, 121, 32, 123, 107, 125, 32, 100, 32, 42, 47, 10, 101, 120, 112, 111,
      114, 116, 32, 100, 101, 102, 97, 117, 108, 116, 32, 40, 100, 44, 32, 101, 41, 32, 61, 62, 32,
      100, 59, 10]

/-- The tree of `pairSource`. -/
def pairTree : Tree :=
  .node ⟨.program, true, false, 0, 203, 0, 7, none, 0⟩ (classTree.children ++ [
    .node ⟨.comment, true, false, 138, 174, 5, 5, none, 24⟩ [],
    .node ⟨.exportStatement, true, false, 175, 202, 6, 6, none, 25⟩ [
      .node ⟨.exportKeyword, false, false, 175, 181, 6, 6, none, 26⟩ [],
      .node ⟨.defaultKeyword, false, false, 182, 189, 6, 6, none, 27⟩ [],
      .node ⟨.arrowFunction, true, false, 190, 201, 6, 6, some "value", 28⟩ [
        .node ⟨.formalParameters, true, false, 190, 196, 6, 6, some "parameters", 29⟩ [
          .node ⟨.other "(", false, false, 190, 191, 6, 6, none, 30⟩ [],
          .node ⟨.identifier, true, false, 191, 192, 6, 6, none, 31⟩ [],
          .node ⟨.other ",", false, false, 192, 193, 6, 6, none, 32⟩ [],
          .node ⟨.identifier, true, false, 194, 195, 6, 6, none, 33⟩ [],
          .node ⟨.other ")", false, false, 195, 196, 6, 6, none, 34⟩ []],
        .node ⟨.other "=>", false, false, 197, 199, 6, 6, none, 35⟩ [],
        .node ⟨.identifier, true, false, 200, 201, 6, 6, some "body", 36⟩ []],
      .node ⟨.semicolon, false, false, 201, 202, 6, 6, none, 37⟩ []]])

/-- The parameters of the function. -/
def functionParams : String :=
  "\x7b\"d\": \x7b\"from\": \"k\"\x7d, \"e\": \x7b\"from\": \"e\"\x7d\x7d"

theorem encodeString_pairSource : Utf8.encodeString pairSource = pairBytes :=
  Utf8.encodeString_append encodeString_classSource (Utf8.encodeString_ofList _)

/-- The directive in front of the constructor counts, and the parameter named twice stands once.
Each of the two records is that of its own statement. -/
theorem describes_of_pair :
    ∃ (o : Outcome) (made : List (Site × Change)),
      (text (.common fun _ _ => pairTree) oneGrammar .default pairSource "javascript"
        "a.js").result = .ok o ∧ o.records.Perm (made.map (·.2.record)) ∧
      made.map (fun g => (g.2.record.target, g.2.record.line, g.2.record.params.shown)) =
        [("C", 2, classParams), ("_uid", 7, functionParams)] ∧
      ∀ g ∈ made, ∃ comment target, g.2.record.Describes 980 pairBytes g.1.node comment target := by
  have herror : pairTree.firstError?.isNone = true := by decide +kernel
  have hroot := tree_oneGrammar herror (Utf8.encodeString pairSource) "a.js"
  have hwf : pairTree.WellFormed (Utf8.encodeString pairSource) := by
    rw [encodeString_pairSource]
    decide +kernel
  have hcheck : (Pass.run ⟨pairBytes, .warn, "uid", 980⟩ pairTree).result.toOption.any (fun chs =>
      decide ((∀ ch ∈ chs, ∀ d ∈ ch.record.defaults, d.whole = true) ∧
        chs.map (fun ch => (ch.record.target, ch.record.line, ch.record.params.shown)) =
          [("C", 2, classParams), ("_uid", 7, functionParams)])) = true := by
    decide +kernel
  rw [← encodeString_pairSource] at hcheck
  obtain ⟨chs, hrun, hprops⟩ := exists_of_toOption_any hcheck
  obtain ⟨hdefaults, hsaid⟩ := of_decide_eq_true hprops
  obtain ⟨o, htext, -⟩ := exists_text_of_run (s := .default) hroot hwf (by decide +kernel)
    hrun hdefaults
  obtain ⟨vs, hvs, -, hrecords, hdescribes⟩ := describes_of_text _ _ _ _ _ _ _ _ hroot htext
  have hchanges : (Pass.changed vs).map (·.2) = chs := by
    obtain ⟨hchanges, -⟩ := Pass.visits_of_changes hrun
    dsimp only at hchanges
    rw [hvs]
    exact hchanges
  refine ⟨o, Pass.changed vs, htext, hrecords, ?_, fun g hg => ?_⟩
  · rw [← hchanges, List.map_map] at hsaid
    exact hsaid
  · obtain ⟨comment, target, -, -, hdescribed⟩ := hdescribes g.1 g.2 (Pass.mem_changed.1 hg)
    rw [encodeString_pairSource] at hdescribed
    exact ⟨_, target, hdescribed⟩

end Transform

end Injection
