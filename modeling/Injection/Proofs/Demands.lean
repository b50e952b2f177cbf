import Injection.Proofs.Room
import Injection.Proofs.Frame

/-!
# Two passes side by side

Two passes over one source, of which the first may refuse a record that the second one makes.

* A `Demand` is what a record is asked for.  `Marked.demand?` is the demand of a statement, if it
  makes one, and `Pass.demands` are those of a pass, in the order of its visits, up to a failure.
* `Heeds` relates the results of the two: the one gives what the other gives, unless it refuses a
  demand, and then it fails for the first one that it refuses.
* If that is so of single records, it is so of passes.  There is one lemma for each function, in the
  order in which they call each other, up to **`Transform.heeds_text`**.
-/

namespace Injection

/-! ## Demands -/

/-- What a record is asked for: a target under an identifier, with the comment in front of its
statement. -/
structure Demand where
  identifier : String
  target : Tree
  comment : List Char

/-- The result `r` is `r'`, unless one of the demands is refused. -/
def Heeds {β : Type} (refuse : Demand → Option Failure) (qs : List Demand)
    (r r' : Except Failure β) : Prop :=
  r = (qs.findSome? refuse).elim r' .error

namespace Heeds

variable {β γ : Type} {refuse : Demand → Option Failure} {qs : List Demand}
  {r r' : Except Failure β}

/-- Where nothing is asked for, the results are the same. -/
theorem of_eq (h : r = r') : Heeds refuse [] r r' := h

/-- A demand that is not refused makes no difference. -/
theorem of_none {q : Demand} (hq : refuse q = none) (h : r = r') : Heeds refuse [q] r r' := by
  unfold Heeds
  simp [hq, h]

theorem of_some {q : Demand} {e : Failure} (hq : refuse q = some e) (h : r = .error e) :
    Heeds refuse [q] r r' := by
  unfold Heeds
  simp [hq, h]

/-- What follows may ask for more, if it is reached. -/
theorem bind {f g : β → Except Failure γ} {rs : List Demand} (h : Heeds refuse qs r r')
    (hok : ∀ b, r' = .ok b → Heeds refuse rs (f b) (g b))
    (herror : ∀ e, r' = .error e → rs = []) :
    Heeds refuse (qs ++ rs) (r.bind f) (r'.bind g) := by
  unfold Heeds at h ⊢
  rw [List.findSome?_append, h]
  cases qs.findSome? refuse with
  | some e => rfl
  | none =>
      cases hr : r' with
      | error e =>
          rw [herror e hr]
          rfl
      | ok b => exact hok b hr

/-- What asks for nothing only passes the result on. -/
theorem bind_same (h : Heeds refuse qs r r') (f : β → Except Failure γ) :
    Heeds refuse qs (r.bind f) (r'.bind f) := by
  have hbind : Heeds refuse (qs ++ []) (r.bind f) (r'.bind f) :=
    h.bind (fun b _ => of_eq rfl) (fun _ _ => rfl)
  rwa [List.append_nil] at hbind

theorem map {x y : Logged Failure β} (h : Heeds refuse qs x.result y.result) (f : β → γ) :
    Heeds refuse qs (x >>= fun b => pure (f b)).result (y >>= fun b => pure (f b)).result := by
  rw [Logged.result_bind, Logged.result_bind]
  exact h.bind_same _

/-- The two results agree, or the first one is a refusal. -/
theorem eq_or_exists (h : Heeds refuse qs r r') :
    r = r' ∨ ∃ q ∈ qs, ∃ e, refuse q = some e ∧ r = .error e := by
  unfold Heeds at h
  cases hfind : qs.findSome? refuse with
  | none =>
      rw [hfind] at h
      exact .inl h
  | some e =>
      obtain ⟨q, hq, he⟩ := List.exists_of_findSome?_eq_some hfind
      rw [hfind] at h
      exact .inr ⟨q, hq, e, he, h⟩

end Heeds

/-! ## The demands of statements -/

namespace Marked

variable (c : Context) (m : Marked)

/-- The demand of a statement that is kept as it is: none if the next one is an annotation. -/
def plainDemand? (identifier : String) (target : Tree) : Option Demand :=
  if m.site.isAnnotated c.source identifier then none else some ⟨identifier, target, m.comment⟩

/-- The demand of a default export: under the name of the target, or under a fresh one. -/
def defaultDemand? (taken : List String) (target : Tree) : Option Demand :=
  if !target.kind.isExportable then none
  else
    match target.childAt? "name" with
    | some name => some ⟨name.text c.source, target, m.comment⟩
    | none =>
      if target.kind = .abstractClassDeclaration then none
      else some ⟨Fresh.name taken c.uidBase, target, m.comment⟩

/-- The demand of an export of a declaration: none if it declares something without a name. -/
def namedDemand? (declaration : Tree) : Option Demand :=
  if declaration.kind.isVariableDeclaration then
    match declaration.declarators.mapM (declaratorName c.source),
        declaration.declarators.head?.bind (·.childAt? "value") with
    | .ok (identifier :: _), some target => some ⟨identifier, target, m.comment⟩
    | _, _ => none
  else if declaration.kind.isDeclaration then
    (declaration.childAt? "name").map fun name => ⟨name.text c.source, declaration, m.comment⟩
  else none

/-- The demand of an export. -/
def exportDemand? (taken : List String) : Option Demand :=
  if m.node.children.any (·.kind = .defaultKeyword) then
    ((m.node.childAt? "declaration").or (m.node.childAt? "value")).bind (m.defaultDemand? c taken)
  else (m.node.childAt? "declaration").bind (m.namedDemand? c)

/-- The demand of a marked statement: the record that it asks for, if it asks for one. -/
def demand? (taken : List String) : Option Demand :=
  if m.node.kind = .exportStatement then m.exportDemand? c taken
  else if m.node.kind.isVariableDeclaration then
    (m.node.declarators.head?.bind binding?).bind fun (name, value) =>
      m.plainDemand? c (name.text c.source) value
  else if m.node.kind.isDeclaration then
    (m.node.childAt? "name").bind fun name => m.plainDemand? c (name.text c.source) m.node
  else none

end Marked

namespace Pass

/-- The demand of a statement, if its leading comment asks for a change. -/
def demand? (c : Context) (taken : List String) (s : Site) : Option Demand :=
  (s.marked? c.source).bind fun m => m.demand? c taken

/-- The demands of statements, in the order of the visits, up to a visit that fails. -/
def demands (c : Context) : List String → List Site → List Demand
  | _, [] => []
  | taken, s :: ss =>
    (demand? c taken s).toList ++
      match (visit c taken s).result with
      | .ok (taken, _) => demands c taken ss
      | .error _ => []

end Pass

/-! ## Two passes -/

/-- A context with another policy and another depth. -/
def Context.under (c : Context) (policy : UnknownPolicy) (depth : Nat) : Context :=
  ⟨c.source, policy, c.uidBase, depth⟩

@[simp] theorem Context.source_under (c : Context) (policy : UnknownPolicy) (depth : Nat) :
    (c.under policy depth).source = c.source := rfl

section TwoPasses

variable {refuse : Demand → Option Failure} {c : Context} {p p' : UnknownPolicy} {d d' : Nat}

namespace Marked

/-- Records of statements are the same in two passes, unless the first one refuses a demand. -/
def HeedsRecords (refuse : Demand → Option Failure) (c : Context) (p p' : UnknownPolicy)
    (d d' : Nat) : Prop :=
  ∀ (m : Marked) identifier target, Heeds refuse [⟨identifier, target, m.comment⟩]
    (m.record (c.under p d) identifier target).result
    (m.record (c.under p' d') identifier target).result

variable (h : HeedsRecords refuse c p p' d d') (m : Marked)
include h

theorem heeds_annotate (identifier : String) (target : Tree) :
    Heeds refuse (m.plainDemand? c identifier target).toList
      (m.annotate (c.under p d) identifier target).result
      (m.annotate (c.under p' d') identifier target).result := by
  rw [annotate_eq, annotate_eq, plainDemand?]
  by_cases hannotated : m.site.isAnnotated c.source identifier = true
  · have hunder : ∀ p d, m.site.isAnnotated (c.under p d).source identifier = true :=
      fun _ _ => hannotated
    rw [if_pos hannotated, if_pos (hunder p d), if_pos (hunder p' d')]
    exact .of_eq rfl
  · have hunder : ∀ p d, ¬m.site.isAnnotated (c.under p d).source identifier = true :=
      fun _ _ => hannotated
    rw [if_neg hannotated, if_neg (hunder p d), if_neg (hunder p' d')]
    exact (h m identifier target).map _

theorem heeds_declarationChange :
    Heeds refuse
      ((m.node.childAt? "name").bind fun name =>
        m.plainDemand? c (name.text c.source) m.node).toList
      (m.declarationChange (c.under p d)).result
      (m.declarationChange (c.under p' d')).result := by
  unfold declarationChange
  cases m.node.childAt? "name" with
  | none => exact .of_eq rfl
  | some name => exact heeds_annotate h m _ _

theorem heeds_variableChange :
    Heeds refuse
      ((m.node.declarators.head?.bind binding?).bind fun (name, value) =>
        m.plainDemand? c (name.text c.source) value).toList
      (m.variableChange (c.under p d)).result (m.variableChange (c.under p' d')).result := by
  unfold variableChange
  cases m.node.declarators.head?.bind binding? with
  | none => exact .of_eq rfl
  | some b => exact heeds_annotate h m _ _

theorem heeds_defaultExport (taken : List String) (target : Tree) :
    Heeds refuse (m.defaultDemand? c taken target).toList
      (m.defaultExport (c.under p d) taken target).result
      (m.defaultExport (c.under p' d') taken target).result := by
  have hchange : ∀ identifier, Heeds refuse [⟨identifier, target, m.comment⟩]
      (m.defaultChange (c.under p d) identifier target).result
      (m.defaultChange (c.under p' d') identifier target).result := by
    intro identifier
    rw [defaultChange_eq, defaultChange_eq]
    exact (h m identifier target).map _
  unfold defaultExport defaultDemand?
  split
  · exact .of_eq rfl
  · cases target.childAt? "name" with
    | some name => exact (hchange _).map _
    | none =>
        dsimp only
        split
        · exact .of_eq rfl
        · exact (hchange _).map _

theorem heeds_namedChange (identifier : String) (names : List String)
    (declaration target : Tree) :
    Heeds refuse [⟨identifier, target, m.comment⟩]
      (m.namedChange (c.under p d) (identifier :: names) declaration target).result
      (m.namedChange (c.under p' d') (identifier :: names) declaration target).result := by
  rw [namedChange_eq, namedChange_eq]
  exact (h m identifier target).map _

theorem heeds_namedExport (declaration : Tree) :
    Heeds refuse (m.namedDemand? c declaration).toList
      (m.namedExport (c.under p d) declaration).result
      (m.namedExport (c.under p' d') declaration).result := by
  unfold namedExport namedDemand?
  simp only [Context.source_under]
  split
  · rw [Logged.result_bind, Logged.result_bind]
    simp only [Logged.result_ofExcept]
    -- The names are found before a record is asked for.
    cases declaration.declarators.mapM (declaratorName c.source) with
    | error e =>
        simp only [Except.mapError, Except.bind]
        exact .of_eq rfl
    | ok names =>
        simp only [Except.mapError, Except.bind]
        cases declaration.declarators.head?.bind (·.childAt? "value") with
        | none => cases names <;> exact .of_eq rfl
        | some target =>
            cases names with
            | nil => exact .of_eq rfl
            | cons identifier names => exact heeds_namedChange h m _ _ _ _
  · split
    · cases declaration.childAt? "name" with
      | none => exact .of_eq rfl
      | some name => exact heeds_namedChange h m _ _ _ _
    · exact .of_eq rfl

theorem heeds_exportChange (taken : List String) :
    Heeds refuse (m.exportDemand? c taken).toList
      (m.exportChange (c.under p d) taken).result
      (m.exportChange (c.under p' d') taken).result := by
  unfold exportChange exportDemand?
  dsimp only
  split
  · cases (m.node.childAt? "declaration").or (m.node.childAt? "value") with
    | none => exact .of_eq rfl
    | some target => exact heeds_defaultExport h m taken target
  · cases m.node.childAt? "declaration" with
    | none => exact .of_eq rfl
    | some declaration => exact (heeds_namedExport h m declaration).map _

theorem heeds_change (taken : List String) :
    Heeds refuse (m.demand? c taken).toList
      (m.change (c.under p d) taken).result (m.change (c.under p' d') taken).result := by
  unfold change demand?
  split
  · exact heeds_exportChange h m taken
  · split
    · exact (heeds_variableChange h m).map _
    · split
      · exact (heeds_declarationChange h m).map _
      · exact .of_eq rfl

end Marked

namespace Pass

variable (h : Marked.HeedsRecords refuse c p p' d d')
include h

theorem heeds_visit (taken : List String) (s : Site) :
    Heeds refuse (demand? c taken s).toList
      (visit (c.under p d) taken s).result (visit (c.under p' d') taken s).result := by
  unfold visit demand?
  simp only [Context.source_under]
  cases s.marked? c.source with
  | none => exact .of_eq rfl
  | some m => exact Marked.heeds_change h m taken

/-- **Two passes in step.**  The first pass gives what the second one gives, unless it refuses one
of the demands that the latter makes. -/
theorem heeds_changes (taken : List String) (ss : List Site) :
    Heeds refuse (demands (c.under p' d') taken ss)
      (changes (c.under p d) taken ss).result (changes (c.under p' d') taken ss).result := by
  -- By induction on the statements; both passes go on with the names that the second one has taken.
  induction ss generalizing taken with
  | nil => exact .of_eq rfl
  | cons s ss ih =>
      rw [changes, changes, Logged.result_bind, Logged.result_bind, demands]
      refine (heeds_visit h taken s).bind ?_ ?_
      · rintro ⟨taken', change?⟩ hvisit
        rw [hvisit]
        exact (ih taken').map _
      · intro e hvisit
        rw [hvisit]

end Pass

end TwoPasses

/-! ## Sources -/

namespace Transform

/-- What becomes of the changes of a source. -/
def finish (source language file : String) (chs : List Change) : Except Failure Outcome :=
  (Edit.apply (Utf8.encodeString source) (Pass.edits chs)).bind fun output =>
    ((Utf8.decode output).mapError Failure.decode).map fun cs =>
      ⟨source, String.ofList cs, language, file, Pass.records chs⟩

/-- A transform reads the tree, passes over it and applies the changes. -/
theorem result_text (host : Host) (r : Registry) (s : TransformSettings)
    (source language file : String) :
    (text host r s source language file).result =
      (tree host r (Utf8.encodeString source) language file).bind fun root =>
        (Pass.run (context host.depth s source) root).result.bind
          (finish source language file) := by
  unfold text finish
  simp only [Logged.result_bind, Logged.result_ofExcept]
  congr 1
  funext root
  congr 1
  funext chs
  congr 1
  funext output
  split
  · rw [Logged.result_write_bind, Logged.result_bind_return, Logged.result_ofExcept]
  · rw [Logged.result_bind_return, Logged.result_ofExcept]

/-- The demands of a transform, in the order of the visits, up to a visit that fails. -/
def demands (host : Host) (r : Registry) (s : TransformSettings)
    (source language file : String) : List Demand :=
  match tree host r (Utf8.encodeString source) language file with
  | .error _ => []
  | .ok root =>
    Pass.demands (context host.depth s source) (root.identifiers (Utf8.encodeString source))
      (Site.allStatements root)

/-- **Two transforms in step**, of which the first one has another policy and another depth. -/
theorem heeds_text {refuse : Demand → Option Failure} {host : Host} {s : TransformSettings}
    {source : String} {p : UnknownPolicy} {d : Nat}
    (h : Marked.HeedsRecords refuse (context host.depth s source) p s.unknownDependency
      d host.depth)
    (r : Registry) (language file : String) :
    Heeds refuse (demands host r s source language file)
      (text { host with depth := d } r { s with unknownDependency := p } source language
        file).result
      (text host r s source language file).result := by
  have htree : tree { host with depth := d } r (Utf8.encodeString source) language file =
      tree host r (Utf8.encodeString source) language file := rfl
  rw [result_text, result_text, demands, htree]
  cases tree host r (Utf8.encodeString source) language file with
  | error e =>
      simp only [Except.bind]
      exact .of_eq rfl
  | ok root => exact (Pass.heeds_changes h _ _).bind_same _

end Transform

end Injection
