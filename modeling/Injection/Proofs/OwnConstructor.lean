import Injection.Target
import Injection.Proofs.Utf8

/-!
# The constructor of a class

Among the members of a class there may be several methods whose name reads `constructor`.  A static
one is a method of the class itself.  A quoted name may hold quotes of its own, and then it is
another name.  Only a method that is neither is the constructor of the instances.

The search for the constructor takes the first method whose name, without all quotes at its ends,
reads `constructor`.  So a method that is mistaken for the constructor takes its place if no
constructor stands in front of it (`Shadowed`).

* `shadowed_iff`: in such a class the search finds a mistaken method, and in no other one.
* **`build_of_own_constructor_iff`**: where a record takes its parameters and directives from.
-/

namespace Injection

namespace Tree

/-- Whether a member of a class is static.  A grammar may read `static get`, with a line break
behind it, as one token. -/
def isStatic (member : Tree) : Bool :=
  member.children.any fun c =>
    !c.label.named && (c.kind = .other "static" || c.kind = .other "static get")

/-- The ways to write the name of a constructor: plain or quoted. -/
def constructorNames : List (List Char) :=
  ["constructor".toList, "'constructor'".toList, "\"constructor\"".toList]

/-- Whether the name of a member is that of a constructor. -/
def isNamedConstructor (source : Bytes) (member : Tree) : Bool :=
  (member.childAt? "name").any fun name => constructorNames.contains (name.chars source)

/-- Whether a member of a class is a constructor of its instances. -/
def isOwnConstructor (source : Bytes) (member : Tree) : Bool :=
  member.label.named && member.kind = .methodDefinition && member.isNamedConstructor source &&
    !member.isStatic

/-- The members of a class, and what stands between them. -/
def members (cls : Tree) : List Site := ((cls.childAt? "body").map Site.children).getD []

/-- The constructor of the instances of a class, if there is one. -/
def ownConstructor? (source : Bytes) (cls : Tree) : Option Site :=
  cls.members.find? fun s => s.node.isOwnConstructor source

/-- A method that the search takes for a constructor, though it is static or has another name. -/
structure Mistaken (source : Bytes) (member : Tree) : Prop where
  taken : member.isConstructor source = true
  other : member.isStatic = true ∨ member.isNamedConstructor source = false

/-- A method is mistaken for the constructor, and no constructor stands in front of it. -/
def Shadowed (source : Bytes) (cls : Tree) : Prop :=
  ∃ front s back, cls.members = front ++ s :: back ∧ s.node.Mistaken source ∧
    ∀ m ∈ front, m.node.isOwnConstructor source = false

variable {source : Bytes} {cls member : Tree} {s : Site}

theorem isNamedConstructor_iff :
    member.isNamedConstructor source = true ↔
      ∃ name, member.childAt? "name" = some name ∧ name.chars source ∈ constructorNames := by
  simp [isNamedConstructor, Option.any_eq_true]

/-- The search does not pass over a constructor. -/
theorem isConstructor_of_own (h : member.isOwnConstructor source = true) :
    member.isConstructor source = true := by
  simp only [isOwnConstructor, Bool.and_eq_true, decide_eq_true_eq] at h
  obtain ⟨⟨⟨hnamed, hkind⟩, hname⟩, -⟩ := h
  obtain ⟨name, hname, hchars⟩ := isNamedConstructor_iff.1 hname
  have hunquoted : unquoted (name.chars source) = "constructor".toList := by
    simp only [constructorNames, List.mem_cons, List.not_mem_nil, or_false] at hchars
    rcases hchars with h | h | h
    · rw [h]
      decide
    · rw [h]
      decide
    · rw [h]
      decide
  simp [isConstructor, hnamed, hkind, hname, hunquoted]

/-- What the search takes for a constructor is one, or it is mistaken. -/
theorem mistaken_iff (h : member.isConstructor source = true) :
    member.Mistaken source ↔ member.isOwnConstructor source = false := by
  have hkind : member.label.named = true ∧ member.kind = .methodDefinition := by
    simp only [isConstructor, Bool.and_eq_true, decide_eq_true_eq] at h
    exact h.1
  have hown : member.isOwnConstructor source =
      (member.isNamedConstructor source && !member.isStatic) := by
    simp [isOwnConstructor, hkind]
  rw [hown]
  constructor
  · rintro ⟨-, hstatic | hname⟩
    · simp [hstatic]
    · simp [hname]
  · intro hfalse
    refine ⟨h, ?_⟩
    cases hname : member.isNamedConstructor source with
    | false => exact .inr rfl
    | true => exact .inl (by simpa [hname] using hfalse)

theorem constructorSite?_eq (source : Bytes) (cls : Tree) :
    cls.constructorSite? source = cls.members.find? fun s => s.node.isConstructor source := by
  rw [constructorSite?, members]
  cases cls.childAt? "body" with
  | none => simp
  | some body => simp

/-- The first method that is taken for a constructor. -/
theorem constructorSite?_eq_some_iff :
    cls.constructorSite? source = some s ↔ s.node.isConstructor source = true ∧
      ∃ front back, cls.members = front ++ s :: back ∧
        ∀ m ∈ front, m.node.isConstructor source = false := by
  simp [constructorSite?_eq, List.find?_eq_some_iff_append]

theorem isOwnConstructor_eq_false (h : member.isConstructor source = false) :
    member.isOwnConstructor source = false := by
  cases hown : member.isOwnConstructor source with
  | false => rfl
  | true =>
      rw [isConstructor_of_own hown] at h
      cases h

theorem shadowed_iff :
    cls.Shadowed source ↔ ∃ s, cls.constructorSite? source = some s ∧ s.node.Mistaken source := by
  constructor
  · rintro ⟨front, s, back, hmembers, hmistaken, hfront⟩
    rw [constructorSite?_eq, hmembers, List.find?_append]
    cases hfound : front.find? fun s => s.node.isConstructor source with
    | none =>
        refine ⟨s, ?_, hmistaken⟩
        simp [hmistaken.taken]
    | some m =>
        -- a method in front that is taken for a constructor is mistaken as well
        refine ⟨m, Option.some_or, ?_⟩
        have htaken : m.node.isConstructor source = true := by
          simpa using List.find?_some hfound
        exact (mistaken_iff htaken).2 (hfront m (List.mem_of_find?_eq_some hfound))
  · rintro ⟨s, hsite, hmistaken⟩
    obtain ⟨-, front, back, hmembers, hfront⟩ := constructorSite?_eq_some_iff.1 hsite
    exact ⟨front, s, back, hmembers, hmistaken, fun m hm => isOwnConstructor_eq_false (hfront m hm)⟩

/-- The search finds the constructor, unless a mistaken method takes its place. -/
theorem constructorSite?_eq_own_iff :
    cls.constructorSite? source = cls.ownConstructor? source ↔ ¬ cls.Shadowed source := by
  rw [shadowed_iff]
  constructor
  · rintro hown ⟨s, hsite, hmistaken⟩
    have hs : s.node.isOwnConstructor source = true := by
      simpa using List.find?_some (hown.symm.trans hsite)
    rw [(mistaken_iff hmistaken.taken).1 hmistaken] at hs
    cases hs
  · intro hnone
    cases hsite : cls.constructorSite? source with
    | none =>
        rw [constructorSite?_eq, List.find?_eq_none] at hsite
        rw [eq_comm, ownConstructor?, List.find?_eq_none]
        intro m hm hown
        exact hsite m hm (isConstructor_of_own hown)
    | some s =>
        obtain ⟨htaken, front, back, hmembers, hfront⟩ := constructorSite?_eq_some_iff.1 hsite
        have hs : s.node.isOwnConstructor source = true := by
          by_contra h
          exact hnone ⟨s, hsite, (mistaken_iff htaken).2 (by simpa using h)⟩
        rw [eq_comm, ownConstructor?, List.find?_eq_some_iff_append]
        refine ⟨hs, front, back, hmembers, fun m hm => ?_⟩
        simp [isOwnConstructor_eq_false (hfront m hm)]

end Tree

namespace Signature

/-- The signature that a constructor gives to its class: its parameters, and its directives behind
those of the class.  Without a constructor there are no parameters. -/
def ofConstructor (source : Bytes) (constructor? : Option Site) (comment : List Char) :
    Signature where
  params := (constructor?.map (·.node.functionParameters source)).getD []
  directives := comment ++ ((constructor?.bind Site.leadingComment).map fun c =>
    '\n' :: Comment.value (c.chars source)).getD []

theorem ofClass_eq (source : Bytes) (cls : Tree) (comment : List Char) :
    ofClass source cls comment = ofConstructor source (cls.constructorSite? source) comment := by
  rw [ofClass, ofConstructor]
  cases cls.constructorSite? source with
  | none => simp
  | some s =>
      cases hcomment : s.leadingComment with
      | none => simp [hcomment]
      | some c => simp [hcomment]

end Signature

namespace Record

/-- The record of a class with a given signature. -/
def ofSignature (depth : Nat) (policy : UnknownPolicy) (identifier : String)
    (directive : Injectable) (line : Int) (s : Signature) : Logged Failure (Option Record) := do
  let params ← paramsOf depth policy identifier s
  return some ⟨identifier, directive.alias?, true, .obj params, line⟩

theorem build_class {source : Bytes} {cls : Tree} (hclass : cls.isClass = true)
    (depth : Nat) (policy : UnknownPolicy) (identifier : String) (comment : List Char)
    (directive : Injectable) (line : Int) :
    build depth source policy identifier cls comment directive line =
      ofSignature depth policy identifier directive line
        (Signature.ofConstructor source (cls.constructorSite? source) comment) := by
  rw [build, Signature.ofTarget?, if_pos hclass, Signature.ofClass_eq, hclass]
  rfl

/-- Without parameters a record has no aliases. -/
theorem ofSignature_of_nil (depth : Nat) (policy : UnknownPolicy) (identifier : String)
    (directive : Injectable) (line : Int) (directives : List Char) :
    ofSignature depth policy identifier directive line ⟨[], directives⟩ =
      pure (some ⟨identifier, directive.alias?, true, .obj [], line⟩) := by
  rfl

/-- **The constructor of a record.**  In a class in which no mistaken method stands in the place of
the constructor, and in no other one, the search finds the constructor of the instances.  There a
record has the parameters and the directives of this constructor, and without a constructor it has
no parameters at all.  In all other classes it has those of the first method that is mistaken for
the constructor. -/
theorem build_of_own_constructor_iff (source : Bytes) (cls : Tree) (hclass : cls.isClass = true) :
    (cls.constructorSite? source = cls.ownConstructor? source ↔ ¬ cls.Shadowed source) ∧
    (¬ cls.Shadowed source → ∀ depth policy identifier comment directive line,
      build depth source policy identifier cls comment directive line =
        ofSignature depth policy identifier directive line
          (Signature.ofConstructor source (cls.ownConstructor? source) comment)) ∧
    (¬ cls.Shadowed source → cls.ownConstructor? source = none →
      ∀ depth policy identifier comment directive line, ∃ r,
        build depth source policy identifier cls comment directive line = pure (some r) ∧
        r.params = .obj [] ∧ r.params.truthy = false) ∧
    (cls.Shadowed source → ∃ front s back, cls.members = front ++ s :: back ∧
      s.node.Mistaken source ∧ (∀ m ∈ front, m.node.isConstructor source = false) ∧
      ∀ depth policy identifier comment directive line,
        build depth source policy identifier cls comment directive line =
          ofSignature depth policy identifier directive line
            (Signature.ofConstructor source (some s) comment)) := by
  have hbuild (hshadowed : ¬ cls.Shadowed source) (depth : Nat) (policy : UnknownPolicy)
      (identifier : String) (comment : List Char) (directive : Injectable) (line : Int) :
      build depth source policy identifier cls comment directive line =
        ofSignature depth policy identifier directive line
          (Signature.ofConstructor source (cls.ownConstructor? source) comment) := by
    rw [build_class hclass, Tree.constructorSite?_eq_own_iff.2 hshadowed]
  refine ⟨Tree.constructorSite?_eq_own_iff, hbuild, fun hshadowed hnone => ?_, fun hshadowed => ?_⟩
  · intro depth policy identifier comment directive line
    refine ⟨⟨identifier, directive.alias?, true, .obj [], line⟩, ?_, rfl, rfl⟩
    rw [hbuild hshadowed, hnone, ← ofSignature_of_nil depth policy identifier directive
      line comment]
    simp [Signature.ofConstructor]
  · obtain ⟨s, hsite, hmistaken⟩ := Tree.shadowed_iff.1 hshadowed
    obtain ⟨-, front, back, hmembers, hfront⟩ := Tree.constructorSite?_eq_some_iff.1 hsite
    refine ⟨front, s, back, hmembers, hmistaken, hfront, ?_⟩
    intro depth policy identifier comment directive line
    rw [build_class hclass, hsite]

/-- A class with a quoted constructor, and a static method behind it. -/
def quotedSource : String :=
  "class A \x7b 'constructor'(b) \x7b\x7d static constructor(a) \x7b\x7d \x7d"

/-- The encoding of `quotedSource`. -/
def quotedBytes : Bytes :=
  [99, 108, 97, 115, 115, 32, 65, 32, 123, 32, 39, 99, 111, 110, 115, 116, 114, 117, 99, 116, 111,
  114, 39, 40, 98, 41, 32, 123, 125, 32, 115, 116, 97, 116, 105, 99, 32, 99, 111, 110, 115, 116,
  114, 117, 99, 116, 111, 114, 40, 97, 41, 32, 123, 125, 32, 125]

/-- The class of `quotedSource`. -/
def quotedClass : Tree :=
  .node ⟨.classDeclaration, true, false, 0, 56, 0, 0, none, 0⟩ [
    .node ⟨.classExpression, false, false, 0, 5, 0, 0, none, 1⟩ [],
    .node ⟨.identifier, true, false, 6, 7, 0, 0, some "name", 2⟩ [],
    .node ⟨.other "class_body", true, false, 8, 56, 0, 0, some "body", 3⟩ [
      .node ⟨.other "\x7b", false, false, 8, 9, 0, 0, none, 4⟩ [],
      .node ⟨.methodDefinition, true, false, 10, 29, 0, 0, some "member", 5⟩ [
        .node ⟨.other "string", true, false, 10, 23, 0, 0, some "name", 6⟩ [
          .node ⟨.other "'", false, false, 10, 11, 0, 0, none, 7⟩ [],
          .node ⟨.other "string_fragment", true, false, 11, 22, 0, 0, none, 8⟩ [],
          .node ⟨.other "'", false, false, 22, 23, 0, 0, none, 9⟩ []],
        .node ⟨.formalParameters, true, false, 23, 26, 0, 0, some "parameters", 10⟩ [
          .node ⟨.other "(", false, false, 23, 24, 0, 0, none, 11⟩ [],
          .node ⟨.identifier, true, false, 24, 25, 0, 0, none, 12⟩ [],
          .node ⟨.other ")", false, false, 25, 26, 0, 0, none, 13⟩ []],
        .node ⟨.statementBlock, true, false, 27, 29, 0, 0, some "body", 14⟩ [
          .node ⟨.other "\x7b", false, false, 27, 28, 0, 0, none, 15⟩ [],
          .node ⟨.other "\x7d", false, false, 28, 29, 0, 0, none, 16⟩ []]],
      .node ⟨.methodDefinition, true, false, 30, 54, 0, 0, some "member", 17⟩ [
        .node ⟨.other "static", false, false, 30, 36, 0, 0, none, 18⟩ [],
        .node ⟨.propertyIdentifier, true, false, 37, 48, 0, 0, some "name", 19⟩ [],
        .node ⟨.formalParameters, true, false, 48, 51, 0, 0, some "parameters", 20⟩ [
          .node ⟨.other "(", false, false, 48, 49, 0, 0, none, 21⟩ [],
          .node ⟨.identifier, true, false, 49, 50, 0, 0, none, 22⟩ [],
          .node ⟨.other ")", false, false, 50, 51, 0, 0, none, 23⟩ []],
        .node ⟨.statementBlock, true, false, 52, 54, 0, 0, some "body", 24⟩ [
          .node ⟨.other "\x7b", false, false, 52, 53, 0, 0, none, 25⟩ [],
          .node ⟨.other "\x7d", false, false, 53, 54, 0, 0, none, 26⟩ []]],
      .node ⟨.other "\x7d", false, false, 55, 56, 0, 0, none, 27⟩ []]]

theorem encodeString_quotedSource : Utf8.encodeString quotedSource = quotedBytes :=
  (Utf8.encodeString_ofList _).trans rfl

theorem build_of_quoted_constructor :
    quotedClass.isClass = true ∧ ¬ quotedClass.Shadowed (Utf8.encodeString quotedSource) ∧
      quotedClass.constructorSite? (Utf8.encodeString quotedSource) =
        quotedClass.ownConstructor? (Utf8.encodeString quotedSource) ∧
      (Signature.ofClass (Utf8.encodeString quotedSource) quotedClass []).params = ["b"] := by
  rw [encodeString_quotedSource]
  have hown : (quotedClass.constructorSite? quotedBytes).all
      (·.node.isOwnConstructor quotedBytes) = true := by decide
  have hshadowed : ¬ quotedClass.Shadowed quotedBytes := by
    rw [Tree.shadowed_iff]
    rintro ⟨s, hsite, hmistaken⟩
    rw [hsite, Option.all_some, (Tree.mistaken_iff hmistaken.taken).1 hmistaken] at hown
    cases hown
  obtain ⟨hiff, -⟩ := build_of_own_constructor_iff quotedBytes quotedClass rfl
  exact ⟨rfl, hshadowed, hiff.2 hshadowed, by decide⟩

/-- A class with a static method in front of its constructor. -/
def staticSource : String :=
  "/** @injectable */\nclass A \x7b static constructor(a) \x7b\x7d constructor(b) \x7b\x7d \x7d"

/-- The encoding of `staticSource`. -/
def staticBytes : Bytes :=
  [47, 42, 42, 32, 64, 105, 110, 106, 101, 99, 116, 97, 98, 108, 101, 32, 42, 47, 10, 99, 108, 97,
  115, 115, 32, 65, 32, 123, 32, 115, 116, 97, 116, 105, 99, 32, 99, 111, 110, 115, 116, 114, 117,
  99, 116, 111, 114, 40, 97, 41, 32, 123, 125, 32, 99, 111, 110, 115, 116, 114, 117, 99, 116, 111,
  114, 40, 98, 41, 32, 123, 125, 32, 125]

/-- The class of `staticSource`. -/
def staticClass : Tree :=
  .node ⟨.classDeclaration, true, false, 19, 73, 1, 1, none, 2⟩ [
    .node ⟨.classExpression, false, false, 19, 24, 1, 1, none, 3⟩ [],
    .node ⟨.identifier, true, false, 25, 26, 1, 1, some "name", 4⟩ [],
    .node ⟨.other "class_body", true, false, 27, 73, 1, 1, some "body", 5⟩ [
      .node ⟨.other "\x7b", false, false, 27, 28, 1, 1, none, 6⟩ [],
      .node ⟨.methodDefinition, true, false, 29, 53, 1, 1, some "member", 7⟩ [
        .node ⟨.other "static", false, false, 29, 35, 1, 1, none, 8⟩ [],
        .node ⟨.propertyIdentifier, true, false, 36, 47, 1, 1, some "name", 9⟩ [],
        .node ⟨.formalParameters, true, false, 47, 50, 1, 1, some "parameters", 10⟩ [
          .node ⟨.other "(", false, false, 47, 48, 1, 1, none, 11⟩ [],
          .node ⟨.identifier, true, false, 48, 49, 1, 1, none, 12⟩ [],
          .node ⟨.other ")", false, false, 49, 50, 1, 1, none, 13⟩ []],
        .node ⟨.statementBlock, true, false, 51, 53, 1, 1, some "body", 14⟩ [
          .node ⟨.other "\x7b", false, false, 51, 52, 1, 1, none, 15⟩ [],
          .node ⟨.other "\x7d", false, false, 52, 53, 1, 1, none, 16⟩ []]],
      .node ⟨.methodDefinition, true, false, 54, 71, 1, 1, some "member", 17⟩ [
        .node ⟨.propertyIdentifier, true, false, 54, 65, 1, 1, some "name", 18⟩ [],
        .node ⟨.formalParameters, true, false, 65, 68, 1, 1, some "parameters", 19⟩ [
          .node ⟨.other "(", false, false, 65, 66, 1, 1, none, 20⟩ [],
          .node ⟨.identifier, true, false, 66, 67, 1, 1, none, 21⟩ [],
          .node ⟨.other ")", false, false, 67, 68, 1, 1, none, 22⟩ []],
        .node ⟨.statementBlock, true, false, 69, 71, 1, 1, some "body", 23⟩ [
          .node ⟨.other "\x7b", false, false, 69, 70, 1, 1, none, 24⟩ [],
          .node ⟨.other "\x7d", false, false, 70, 71, 1, 1, none, 25⟩ []]],
      .node ⟨.other "\x7d", false, false, 72, 73, 1, 1, none, 26⟩ []]]

theorem encodeString_staticSource : Utf8.encodeString staticSource = staticBytes :=
  (Utf8.encodeString_ofList _).trans rfl

/-- A static method gives its parameters to a class that has a constructor. -/
theorem static_method_taken_for_constructor :
    staticClass.isClass = true ∧ staticClass.Shadowed (Utf8.encodeString staticSource) ∧
      (Signature.ofTarget? (Utf8.encodeString staticSource) staticClass []).map (·.params) =
        some ["a"] ∧
      (staticClass.ownConstructor? (Utf8.encodeString staticSource)).map
        (·.node.functionParameters (Utf8.encodeString staticSource)) = some ["b"] := by
  rw [encodeString_staticSource]
  have hfound : (staticClass.constructorSite? staticBytes).any
      (fun s => s.node.isConstructor staticBytes && s.node.isStatic) = true := by decide
  obtain ⟨s, hsite, hs⟩ := (Option.any_eq_true _ _).1 hfound
  simp only [Bool.and_eq_true] at hs
  exact ⟨rfl, Tree.shadowed_iff.2 ⟨s, hsite, hs.1, .inl hs.2⟩, by decide, by decide⟩

end Record

end Injection
