import Injection.Proofs.Records

/-!
# Resolved aliases

The aliases of parameters come from two passes over one list of names: the first gives the names of
the directives their aliases, each directive in the place of an earlier one for its name; the second
lets the parameters that are left stand for themselves.

* `Aliases.names_set`, `names_ofDependencies` and `names_complete`: the names, step by step and for
  each pass.
* `Aliases.get?_of_last` and `Aliases.get?_of_absent`: the alias of a name.
* **`Aliases.resolve_lists`**: the names, their aliases, the unknown ones and the fields of the
  parameters at once.
-/

namespace Injection

namespace Aliases

variable {m : Aliases} {name : String} {a : Alias} {ds : List Dependency} {params : List String}

/-! ## The names -/

theorem contains_iff : m.contains name = true ↔ name ∈ m.names := by
  rw [contains, get?, Option.isSome_iff_exists]
  constructor
  · rintro ⟨a, ha⟩
    exact Assoc.mem_map_fst_of_lookup ha
  · intro h
    by_contra hnone
    obtain ⟨⟨j, a⟩, hmem, rfl⟩ := List.mem_map.1 h
    have hlookup := Option.eq_none_iff_forall_ne_some.2 fun a ha => hnone ⟨a, ha⟩
    simpa using List.lookup_eq_none_iff.1 hlookup _ hmem

/-- A name that is there keeps its place, and a new one comes last. -/
theorem names_set :
    (m.set name a).names = if name ∈ m.names then m.names else m.names ++ [name] := by
  split_ifs with h
  · obtain ⟨b, hb⟩ := Option.isSome_iff_exists.1 (contains_iff.2 h)
    exact Assoc.map_fst_assign hb
  · have hnone : m.entries.lookup name = none := by
      rw [← Option.not_isSome_iff_eq_none]
      exact fun hsome => h (contains_iff.1 hsome)
    rw [names, set, Assoc.assign_eq_append hnone, List.map_append]
    rfl

/-- The names of directives stand in the order in which they first occur. -/
theorem names_ofDependencies (ds : List Dependency) :
    (ofDependencies ds).names = (ds.map (·.param)).eraseDups := by
  induction ds using List.reverseRecOn with
  | nil => rfl
  | append_singleton ds d ih =>
      rw [ofDependencies_concat, names_set, ih, List.map_append, List.map_singleton,
        Assoc.eraseDups_concat]
      simp only [List.mem_eraseDups]

/-- The parameters that are new come behind, in the order in which they first occur. -/
theorem names_complete (m : Aliases) (params : List String) :
    (m.complete params).names = m.names ++ (params.filter (· ∉ m.names)).eraseDups := by
  induction params generalizing m with
  | nil => simp [complete]
  | cons p params ih =>
      rw [complete_cons]
      by_cases h : p ∈ m.names
      · rw [if_pos (contains_iff.2 h), ih, List.filter_cons_of_neg (by simpa using h)]
      · -- A new parameter is listed at once, so it is not new when it is named again.
        have hfilter : params.filter (· ∉ m.names ++ [p]) =
            (params.filter (· ∉ m.names)).filter (fun b => !b == p) := by
          rw [List.filter_filter]
          refine List.filter_congr fun q _ => ?_
          simp [Bool.beq_eq_decide_eq, Bool.and_comm]
        rw [if_neg (fun hc => h (contains_iff.1 hc)), ih, names_set, if_neg h, hfilter,
          List.filter_cons_of_pos (by simpa using h), List.eraseDups_cons, List.append_assoc]
        rfl

/-- The unknown names are those of directives for no parameter, each at its first place. -/
theorem unknown_complete_ofDependencies (ds : List Dependency) (params : List String) :
    ((ofDependencies ds).complete params).unknown params =
      (ds.map (·.param)).eraseDups.filter fun n => !params.contains n := by
  have hparams : (params.filter (· ∉ (ofDependencies ds).names)).eraseDups.filter
      (fun n => !params.contains n) = [] := by
    refine List.filter_eq_nil_iff.2 fun n hn => ?_
    simpa using (List.mem_filter.1 (List.mem_eraseDups.1 hn)).1
  rw [unknown, names_complete, List.filter_append, hparams, List.append_nil, names_ofDependencies]

/-! ## The alias of a name -/

/-- Aliases are found where the directives are read. -/
theorem resolve_eq_ok {depth : Nat} {cs : List Char}
    (h : (Dependency.parse depth cs).result = .ok ds) (params : List String) :
    (resolve depth cs params).result = .ok ((ofDependencies ds).complete params) := by
  rw [resolve, Logged.result_bind, h]
  rfl

/-- The last directive for a name decides. -/
theorem get?_of_last {front back : List Dependency} {d : Dependency}
    (hback : ∀ e ∈ back, e.param ≠ d.param) :
    ((ofDependencies (front ++ d :: back)).complete params).get? d.param =
      some ⟨d.provider, d.default⟩ := by
  have hnone : back.filter (·.param = d.param) = [] :=
    List.filter_eq_nil_iff.2 fun e he => by simpa using hback e he
  rw [get?_complete, get?_ofDependencies, List.filter_append, List.filter_cons_of_pos (by simp),
    hnone, List.getLast?_concat]
  rfl

/-- A parameter without a directive stands for itself. -/
theorem get?_of_absent (h : name ∈ params) (habsent : ∀ d ∈ ds, d.param ≠ name) :
    ((ofDependencies ds).complete params).get? name = some ⟨name, none⟩ := by
  have hnone : ds.filter (·.param = name) = [] :=
    List.filter_eq_nil_iff.2 fun d hd => by simpa using habsent d hd
  rw [get?_complete, get?_ofDependencies, hnone, if_pos h]
  rfl

/-- The fields of an alias keep a default that is null apart from none. -/
theorem field?_toJson (a : Alias) :
    a.toJson.field? "from" = some (.ofString a.source) ∧ a.toJson.field? "default" = a.default := by
  have hne : (Text.ofString "default" == Text.ofString "from") = false := by decide
  constructor
  · simp [Alias.toJson, Json.record, Json.field?]
  · cases h : a.default <;> simp [Alias.toJson, Json.record, Json.field?, List.lookup_cons, hne, h]

/-- **Aliases of parameters.**  Where the directives of a text are read, aliases are found for any
parameters.  Their names are those of the directives and then the parameters that are left, each at
its first place.  The last directive for a name decides, and a parameter without one stands for
itself.  The unknown names are those of directives that are no parameters, and the parameters have
their fields, each parameter once at its first place. -/
theorem resolve_lists (depth : Nat) (cs : List Char) (params : List String) (ds : List Dependency)
    (hparse : (Dependency.parse depth cs).result = .ok ds) :
    ∃ m, (resolve depth cs params).result = .ok m ∧
      m.names = (ds.map (·.param)).eraseDups ++
        (params.filter (· ∉ ds.map (·.param))).eraseDups ∧
      (∀ front d back, ds = front ++ d :: back → (∀ e ∈ back, e.param ≠ d.param) →
        m.get? d.param = some ⟨d.provider, d.default⟩) ∧
      (∀ p ∈ params, (∀ d ∈ ds, d.param ≠ p) → m.get? p = some ⟨p, none⟩) ∧
      m.unknown params = (ds.map (·.param)).eraseDups.filter (· ∉ params) ∧
      ∃ fields, m.forParameters params = .ok fields ∧
        fields.map (·.1) = params.eraseDups.map Text.ofString ∧
        ∀ p ∈ params, ∃ a v, m.get? p = some a ∧ fields.lookup (Text.ofString p) = some v ∧
          v.field? "from" = some (.ofString a.source) ∧ v.field? "default" = a.default := by
  refine ⟨(ofDependencies ds).complete params, resolve_eq_ok hparse params, ?_, ?_,
    fun p hp => get?_of_absent hp, ?_, _, forParameters_complete ds params, ?_, fun p hp => ?_⟩
  · rw [names_complete, names_ofDependencies]
    simp only [List.mem_eraseDups]
  · rintro front d back rfl hback
    exact get?_of_last hback
  · rw [unknown_complete_ofDependencies]
    exact List.filter_congr fun n _ => by simp
  · rw [List.map_map]
    rfl
  · have hlookup := Assoc.lookup_map
      (f := fun p => (Text.ofString p, (Alias.ofDirectives ds p).toJson))
      Text.ofString_injective params.eraseDups p
    rw [if_pos (List.mem_eraseDups.2 hp)] at hlookup
    exact ⟨Alias.ofDirectives ds p, _, get?_complete_ofDependencies hp, hlookup, field?_toJson _⟩

/-- Two directives for `b`, and one for `a` between them. -/
def overridden : List Char :=
  "@dependency \x7bx = 1\x7d b @dependency \x7by\x7d a\n@dependency \x7bz = null\x7d b".toList

theorem result_parse_overridden :
    (Dependency.parse 980 overridden).result =
      .ok [⟨"b", "x", some (.int 1)⟩, ⟨"a", "y", none⟩, ⟨"b", "z", some .null⟩] := by
  have hfindings : Dependency.findings overridden =
      [.dependency "b" "x" (some "1"), .dependency "a" "y" none,
        .dependency "b" "z" (some "null")] := by rfl
  have hone : Json.read .refuse 980 "1".toList = .ok (.int 1) := by rfl
  have hnull : Json.read .refuse 980 "null".toList = .ok .null := by rfl
  simp only [Dependency.parse, hfindings, Dependency.readAll, Dependency.Finding.read, hone, hnull]
  rfl

/-- The second directive for `b` counts in the place of the first one.  It is no parameter, and `c`
is one twice. -/
theorem resolve_lists_of_overridden :
    ∃ m, (resolve 980 overridden ["c", "a", "c"]).result = .ok m ∧
      m.names = ["b", "a", "c"] ∧ m.get? "b" = some ⟨"z", some .null⟩ ∧
      m.get? "a" = some ⟨"y", none⟩ ∧ m.get? "c" = some ⟨"c", none⟩ ∧
      m.unknown ["c", "a", "c"] = ["b"] ∧
      ∃ fields, m.forParameters ["c", "a", "c"] = .ok fields ∧
        fields.map (·.1) = [Text.ofString "c", Text.ofString "a"] := by
  obtain ⟨m, hresolve, hnames, hlast, habsent, hunknown, fields, hfields, hkeys, -⟩ :=
    resolve_lists 980 overridden ["c", "a", "c"] _ result_parse_overridden
  exact ⟨m, hresolve, hnames, hlast [_, _] _ [] rfl (by simp), hlast [_] _ [_] rfl (by simp),
    habsent "c" (by simp) (by simp), hunknown, fields, hfields, hkeys⟩

end Aliases

end Injection
