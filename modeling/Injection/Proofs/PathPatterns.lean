import Injection.Proofs.Folders

/-!
# Written paths and patterns

A path is written with slashes between its names and is read back from there.  What a file is taken
for, and whether it is passed over, is asked of its names alone.

* `ofString_text`: a path of plain names is read back as it was written.  The path of a file below a
  directory is one (`plain_append`).
* `languageOf?_text`: the language of a file is that of its last name.
* `Glob.Stands`: the texts that a pattern stands for, by its elements.  `matchElements_iff` says
  that the table of endings finds exactly these.
* `ignored_of_stands`: a name that one of the patterns stands for hides all that is below it.
-/

namespace Injection

/-! ## Written paths -/

namespace Path

/-- A path whose names are kept when it is read: none of them is empty, a dot, or has a slash. -/
def Plain (p : Path) : Prop := ∀ name ∈ p.names, name ≠ "" ∧ name ≠ "." ∧ '/' ∉ name.toList

theorem Plain.append {p : Path} {names : List String} (hp : p.Plain)
    (hnames : ∀ name ∈ names, name ≠ "" ∧ name ≠ "." ∧ '/' ∉ name.toList) :
    (p.append names).Plain := by
  intro name hname
  rcases List.mem_append.1 hname with hname | hname
  · exact hp name hname
  · exact hnames name hname

theorem split_of_notMem {cs : List Char} (h : '/' ∉ cs) : split cs = [cs] := by
  induction cs with
  | nil => rfl
  | cons c cs ih =>
      simp only [List.mem_cons, not_or] at h
      rw [split, if_neg (Ne.symm h.1), ih h.2]

theorem split_append_slash {cs : List Char} (h : '/' ∉ cs) (rest : List Char) :
    split (cs ++ '/' :: rest) = cs :: split rest := by
  induction cs with
  | nil => rfl
  | cons c cs ih =>
      simp only [List.mem_cons, not_or] at h
      rw [List.cons_append, split, if_neg (Ne.symm h.1), ih h.2]

/-- A written path is cut where its names were joined. -/
theorem split_intercalate {names : List String} (hne : names ≠ [])
    (h : ∀ name ∈ names, '/' ∉ name.toList) :
    split ("/".intercalate names).toList = names.map String.toList := by
  induction names with
  | nil => exact absurd rfl hne
  | cons name names ih =>
      have hname := h name List.mem_cons_self
      cases names with
      | nil => rw [String.intercalate_singleton, split_of_notMem hname, List.map_singleton]
      | cons next names =>
          have hrest := ih (List.cons_ne_nil next names) fun n hn => h n (List.mem_cons_of_mem _ hn)
          have hcut : ("/".intercalate (name :: next :: names)).toList =
              name.toList ++ '/' :: ("/".intercalate (next :: names)).toList := by
            simp [String.intercalate_cons_cons]
          rw [hcut, split_append_slash hname, hrest]
          rfl

theorem text_of_ne_nil {p : Path} (hne : p.names ≠ []) :
    p.text = p.root.text ++ "/".intercalate p.names := by
  simp [text, hne]

/-- In front of the names of a written path there are the slashes of its root. -/
theorem split_text {p : Path} (hp : p.Plain) (hne : p.names ≠ []) :
    split p.text.toList =
      List.replicate p.root.text.length [] ++ p.names.map String.toList := by
  rw [text_of_ne_nil hne, String.toList_append, ← split_intercalate hne fun n hn => (hp n hn).2.2]
  cases p.root <;> rfl

theorem takeWhile_text {p : Path} (hp : p.Plain) (hne : p.names ≠ []) :
    p.text.toList.takeWhile (· = '/') = p.root.text.toList := by
  have hfirst : ("/".intercalate p.names).toList.takeWhile (· = '/') = [] := by
    cases hnames : p.names with
    | nil => exact absurd hnames hne
    | cons name names =>
        obtain ⟨hempty, -, hslash⟩ := hp name (by rw [hnames]; exact List.mem_cons_self)
        obtain ⟨rest, hrest⟩ : ∃ rest, ("/".intercalate (name :: names)).toList =
            name.toList ++ rest := by
          cases names with
          | nil => exact ⟨[], by simp⟩
          | cons next names => exact ⟨_, by rw [String.intercalate_cons_cons]; simp; rfl⟩
        rw [hrest]
        -- The first name is not empty and does not start with a slash.
        cases hchars : name.toList with
        | nil => exact absurd (String.toList_eq_nil_iff.1 hchars) hempty
        | cons c cs =>
            rw [hchars] at hslash
            simp only [List.mem_cons, not_or] at hslash
            rw [List.cons_append, List.takeWhile_cons_of_neg]
            simpa using Ne.symm hslash.1
  rw [text_of_ne_nil hne, String.toList_append]
  generalize ("/".intercalate p.names).toList = cs at hfirst
  cases p.root <;> simp [Root.text, hfirst]

/-- **A path of plain names is read back as it was written.** -/
theorem ofString_text {p : Path} (hp : p.Plain) : ofString p.text = p := by
  by_cases hne : p.names = []
  · obtain ⟨root, names⟩ := p
    obtain rfl : names = [] := hne
    cases root <;> rfl
  · have hroot : Root.ofSlashes p.root.text.toList.length = p.root := by cases p.root <;> rfl
    have hkept : p.names.filter (fun n => n ≠ "" && n ≠ ".") = p.names := by
      refine List.filter_eq_self.2 fun n hn => ?_
      obtain ⟨hempty, hdot, -⟩ := hp n hn
      simp [hempty, hdot]
    have hsame : p.names.map (String.ofList ∘ String.toList) = p.names := by
      simp [Function.comp_def]
    rw [ofString, takeWhile_text hp hne, hroot, split_text hp hne, List.map_append, List.map_map,
      hsame, List.map_replicate, List.filter_append, hkept,
      List.filter_replicate_of_neg (by decide)]
    rfl

/-- The extension of a written path is that of its last name. -/
theorem extension_text {p : Path} (hp : p.Plain) {name : String}
    (hlast : p.names.getLast? = some name) : extension p.text = extension name := by
  have hne : p.names ≠ [] := by
    rintro hnil
    rw [hnil] at hlast
    cases hlast
  have hname := (hp name (List.mem_of_getLast? hlast)).2.2
  rw [extension, extension, split_text hp hne, split_of_notMem hname, List.getLast?_append,
    List.getLast?_map, hlast]
  rfl

end Path

namespace Files

variable {fs : Files} {folder current : Names}

/-- A folder of a tree has the name of an entry. -/
theorem IsTree.isName_of_isFolder (htree : fs.IsTree) {name : String}
    (h : fs.isFolder (current ++ [name]) = true) : IsName name := by
  have hmem : ∀ place : Names, current ++ [name] <+: place → name ∈ place := fun place hplace =>
    hplace.subset (List.mem_append_right current List.mem_cons_self)
  rcases isFolder_iff.1 h with hhere | ⟨place, hplace, hway⟩ | ⟨place, hplace, hway, -⟩
  · exact htree.isName fs.here List.mem_cons_self name (hmem fs.here hhere)
  · exact htree.isName place (List.mem_append_right _ hplace) name (hmem place hway)
  · exact htree.isName_of_mem hplace (hmem place hway)

theorem IsTree.plain_of_leads (htree : fs.IsTree) {path : List String}
    (h : fs.Leads current path (.folder folder)) :
    ∀ name ∈ path, name ≠ "" ∧ name ≠ "." ∧ '/' ∉ name.toList := by
  generalize hplace : Place.folder folder = place at h
  induction h with
  | here => exact List.forall_mem_nil _
  | up _ ih => exact List.forall_mem_cons.2 ⟨by decide, ih hplace⟩
  | file => cases hplace
  | down _ _ _ hfolder _ ih =>
      obtain ⟨hempty, hdot, -, hslash, -, -⟩ := htree.isName_of_isFolder hfolder
      exact List.forall_mem_cons.2 ⟨⟨hempty, hdot, hslash⟩, ih hplace⟩

/-- **The path of a file below a directory** is written in plain names. -/
theorem IsTree.plain_append (htree : fs.IsTree) {p : Path} {names : Names}
    (hdirectory : fs.locate p = .ok (.folder folder)) (h : names ∈ fs.below folder) :
    (p.append names).Plain := by
  obtain ⟨-, -, hleads⟩ := locate_eq_ok_iff.1 hdirectory
  refine Path.Plain.append (htree.plain_of_leads hleads) fun name hname => ?_
  obtain ⟨hempty, hdot, -, hslash, -, -⟩ :=
    htree.isName_of_mem (mem_below.1 h) (List.mem_append_right folder hname)
  exact ⟨hempty, hdot, hslash⟩

end Files

namespace Service

variable {s : Service} {p : Path} {name : String}

theorem languageOf?_congr {path path' : String} (hpath : (Path.ofString path).text = path)
    (hpath' : (Path.ofString path').text = path')
    (h : Path.extension path = Path.extension path') :
    s.languageOf? path = s.languageOf? path' := by
  unfold languageOf?
  cases s.registry? with
  | none => simp only [TransformSettings.languageOf?, h]
  | some r => simp only [Registry.languageOf?, TransformSettings.languageOf?, hpath, hpath', h]

/-- **The language of a file** is that of its last name. -/
theorem languageOf?_text (hp : p.Plain) (hlast : p.names.getLast? = some name) :
    s.languageOf? p.text = s.languageOf? name := by
  have hname : (Path.mk .none [name]).Plain :=
    List.forall_mem_singleton.2 (hp name (List.mem_of_getLast? hlast))
  have hsingle : (Path.mk .none [name]).text = name := by
    rw [Path.text_of_ne_nil (List.cons_ne_nil name [])]
    simp [Root.text]
  refine languageOf?_congr (by rw [Path.ofString_text hp]) ?_ (Path.extension_text hp hlast)
  have hread := Path.ofString_text hname
  rw [hsingle] at hread
  rw [hread, hsingle]

/-- A file whose extension has no supported language is in none. -/
theorem languageOf?_eq_none {r : Registry} (hregistry : s.registry = .ok r) (hp : p.Plain)
    (hlast : p.names.getLast? = some name)
    (h : ∀ l ∈ r.settings.languages, lowerCase (Path.extension name) ∈ l.2 →
      r.isSupported l.1 = false) : s.languageOf? p.text = none := by
  have hloaded : s.registry? = some r := by
    unfold registry at hregistry
    split at hregistry
    · next r' _ hsome =>
        cases hregistry
        exact hsome
    · cases hregistry
  simp only [languageOf?, hloaded, Registry.languageOf?, Path.ofString_text hp,
    Option.filter_eq_none_iff]
  intro l hl
  simp only [TransformSettings.languageOf?, Path.extension_text hp hlast,
    Option.map_eq_some_iff] at hl
  obtain ⟨entry, hfind, rfl⟩ := hl
  have hextension := List.find?_some hfind
  rw [h entry (List.mem_of_find?_eq_some hfind) (List.contains_iff_mem.1 hextension)]
  simp

end Service

/-! ## Patterns -/

namespace Glob

/-- The texts that elements stand for. -/
inductive Stands : List Element → List Char → Prop
  | nil : Stands [] []
  /-- An element that stands for one character. -/
  | one {e : Element} {es : List Element} {c : Char} {cs : List Char} (hholds : e.holds c = true)
      (hrest : Stands es cs) : Stands (e :: es) (c :: cs)
  /-- An element that stands for any text. -/
  | text {es : List Element} (front : List Char) {cs : List Char} (hrest : Stands es cs) :
      Stands (.text :: es) (front ++ cs)

theorem anyFrom_cons (b : Bool) {bs : List Bool} (h : bs ≠ []) :
    anyFrom (b :: bs) = (b || (anyFrom bs).headD false) :: anyFrom bs := by
  have hne : anyFrom bs ≠ [] := by
    cases bs with
    | nil => exact absurd rfl h
    | cons b bs =>
        rw [anyFrom]
        split <;> simp
  rw [anyFrom]
  split
  · next hnil => exact absurd hnil hne
  · next r rs hcons =>
      rw [hcons]
      rfl

theorem fittingEndings_one {e : Element} (he : e ≠ .text) (cs : List Char) (es : List Element) :
    fittingEndings cs (e :: es) = e.inFront cs (fittingEndings cs es) := by
  rw [fittingEndings]
  exact he

/-- The empty text has one ending. -/
theorem fittingEndings_nil (es : List Element) : fittingEndings [] es = [matchElements es []] := by
  suffices h : ∃ b, fittingEndings [] es = [b] by
    obtain ⟨b, hb⟩ := h
    rw [matchElements, hb]
    rfl
  induction es with
  | nil => exact ⟨true, rfl⟩
  | cons e es ih =>
      obtain ⟨b, hb⟩ := ih
      by_cases he : e = .text
      · subst he
        rw [fittingEndings, hb]
        exact ⟨b, rfl⟩
      · rw [fittingEndings_one he]
        exact ⟨false, rfl⟩

/-- The endings of a text are the text itself and the endings behind its first character. -/
theorem fittingEndings_cons (c : Char) (cs : List Char) (es : List Element) :
    fittingEndings (c :: cs) es = matchElements es (c :: cs) :: fittingEndings cs es ∧
      ∃ bs, fittingEndings cs es = matchElements es cs :: bs := by
  suffices h : ∃ b b' bs, fittingEndings (c :: cs) es = b :: b' :: bs ∧
      fittingEndings cs es = b' :: bs by
    obtain ⟨b, b', bs, hlong, hshort⟩ := h
    rw [matchElements, matchElements, hlong, hshort]
    exact ⟨rfl, bs, rfl⟩
  -- What is left is the shape of the two tables: one row more, with the same rows behind it.
  induction es with
  | nil => cases cs <;> exact ⟨_, _, _, rfl, rfl⟩
  | cons e es ih =>
      obtain ⟨b, b', bs, hlong, hshort⟩ := ih
      by_cases he : e = .text
      · subst he
        have hrest : anyFrom (b' :: bs) ≠ [] := by
          rw [anyFrom]
          split <;> simp
        obtain ⟨r, rs, hr⟩ := List.exists_cons_of_ne_nil hrest
        refine ⟨b || r, r, rs, ?_, ?_⟩
        · rw [fittingEndings, hlong, anyFrom_cons b (List.cons_ne_nil b' bs), hr]
          rfl
        · rw [fittingEndings, hshort, hr]
      · rw [fittingEndings_one he, fittingEndings_one he, hlong, hshort, Element.inFront]
        cases cs with
        | nil => exact ⟨_, _, _, rfl, rfl⟩
        | cons c' cs =>
            cases bs with
            | nil => exact ⟨_, _, _, rfl, rfl⟩
            | cons b'' bs => exact ⟨_, _, _, rfl, rfl⟩

theorem matchElements_text_nil (es : List Element) :
    matchElements (.text :: es) [] = matchElements es [] := by
  rw [matchElements, fittingEndings, fittingEndings_nil]
  rfl

/-- Any text is an empty one, or one more character and any text. -/
theorem matchElements_text_cons (es : List Element) (c : Char) (cs : List Char) :
    matchElements (.text :: es) (c :: cs) =
      (matchElements es (c :: cs) || matchElements (.text :: es) cs) := by
  obtain ⟨hlong, bs, hshort⟩ := fittingEndings_cons c cs es
  have hne : fittingEndings cs es ≠ [] := by
    rw [hshort]
    exact List.cons_ne_nil _ bs
  rw [matchElements, fittingEndings, hlong, anyFrom_cons _ hne, List.headD_cons]
  rfl

theorem matchElements_one_nil {e : Element} (he : e ≠ .text) (es : List Element) :
    matchElements (e :: es) [] = false := by
  rw [matchElements, fittingEndings_one he, Element.inFront]
  · rfl
  · intro c cs b b' bs hnil
    cases hnil

theorem matchElements_one_cons {e : Element} (he : e ≠ .text) (es : List Element) (c : Char)
    (cs : List Char) :
    matchElements (e :: es) (c :: cs) = (e.holds c && matchElements es cs) := by
  obtain ⟨hlong, bs, hshort⟩ := fittingEndings_cons c cs es
  rw [matchElements, fittingEndings_one he, hlong, hshort]
  rfl

/-- **The table of endings** finds the texts that a pattern stands for. -/
theorem matchElements_iff {es : List Element} {cs : List Char} :
    matchElements es cs = true ↔ Stands es cs := by
  -- By induction on the elements, and for an element that stands for any text on the text as well.
  induction es generalizing cs with
  | nil =>
      cases cs with
      | nil => exact iff_of_true rfl .nil
      | cons c cs => exact iff_of_false Bool.false_ne_true (by rintro ⟨⟩)
  | cons e es ih =>
      by_cases he : e = .text
      · subst he
        induction cs with
        | nil =>
            rw [matchElements_text_nil, ih]
            constructor
            · exact fun h => .text [] h
            · intro h
              generalize hcs : ([] : List Char) = cs at h
              cases h with
              | one hholds _ => cases hholds
              | text front hrest =>
                  obtain ⟨rfl, rfl⟩ := List.append_eq_nil_iff.1 hcs.symm
                  exact hrest
        | cons c cs ihcs =>
            rw [matchElements_text_cons, Bool.or_eq_true, ih, ihcs]
            constructor
            · rintro (h | h)
              · exact .text [] h
              · -- The text in front grows by one character.
                generalize hes : Element.text :: es = all at h
                cases h with
                | nil => cases hes
                | one hholds _ =>
                    cases hes
                    cases hholds
                | text front hrest =>
                    cases hes
                    exact .text (c :: front) hrest
            · intro h
              generalize hcs : c :: cs = all at h
              cases h with
              | one hholds _ => cases hholds
              | text front hrest =>
                  cases front with
                  | nil =>
                      rw [List.nil_append] at hcs
                      subst hcs
                      exact .inl hrest
                  | cons c' front =>
                      obtain ⟨-, rfl⟩ := List.cons.inj hcs
                      exact .inr (.text front hrest)
      · cases cs with
        | nil =>
            rw [matchElements_one_nil he]
            refine iff_of_false Bool.false_ne_true fun h => ?_
            generalize hcs : ([] : List Char) = all at h
            cases h with
            | one hholds _ => cases hcs
            | text front hrest => exact he rfl
        | cons c cs =>
            rw [matchElements_one_cons he, Bool.and_eq_true, ih]
            constructor
            · exact fun h => .one h.1 h.2
            · intro h
              generalize hcs : c :: cs = all at h
              cases h with
              | one hholds hrest =>
                  cases hcs
                  exact ⟨hholds, hrest⟩
              | text front hrest => exact absurd rfl he

end Glob

/-- **A name that one of the patterns stands for** hides all that is below it. -/
theorem Path.ignored_of_stands {p : Path} {patterns : List String} {pattern part : String}
    {b : Bool} (hpart : part ∈ p.parts) (hpattern : pattern ∈ patterns)
    (hstands : Glob.Stands (Glob.read pattern) part.toList) (h : p.ignored patterns = .ok b) :
    b = true := by
  have hfits : p.parts.any (Glob.fits pattern) = true :=
    List.any_eq_true.2 ⟨part, hpart, Glob.matchElements_iff.2 hstands⟩
  induction patterns with
  | nil => cases hpattern
  | cons first patterns ih =>
      rw [ignored] at h
      cases hfirst : p.fits first with
      | error f =>
          rw [hfirst] at h
          cases h
      | ok fit =>
          simp only [hfirst, bind, Except.bind] at h
          split at h
          · cases h
            rfl
          · split at h
            · cases h
              rfl
            · next hother =>
                rcases List.mem_cons.1 hpattern with rfl | hpattern
                · exact absurd hfits hother
                · exact ih hpattern h

end Injection
