import Injection.Proofs.Keys
import Injection.Service.Files
import Mathlib.Data.String.Basic
import Mathlib.Data.List.Infix
import Mathlib.Data.List.Sort

/-!
# Files below a folder

`Files.IsTree` says when files make up a directory tree: no two files have one place, no file is a
folder, and every name is one that an entry can have.

* `locate_append`: in a tree a file below a folder is found at its path, if that can be opened.
* `Refusals.list_eq_ok_iff`: the listing of a folder has all files below it that are not hidden.
* `pairwise_below`: it has them in the order of their names, each one once.
* `Alike`: files that differ in nothing but the bytes of the files.
-/

namespace Injection

/-! ## Written paths -/

namespace Path

/-- A character other than the slash stands in a written path exactly when it stands in a name. -/
theorem mem_intercalate {c : Char} (hc : c ≠ '/') {names : List String} :
    c ∈ ("/".intercalate names).toList ↔ ∃ name ∈ names, c ∈ name.toList := by
  induction names with
  | nil => simp
  | cons name names ih =>
      cases names with
      | nil => simp
      | cons next names =>
          rw [String.intercalate_cons_cons, String.toList_append, String.toList_append,
            List.mem_append, List.mem_append, ih]
          simp [hc]

theorem text_append (p : Path) {names : List String} (hnames : names ≠ []) :
    (p.append names).text = p.root.text ++ "/".intercalate (p.names ++ names) := by
  simp [text, append, hnames]

/-- What stands in a path below another one stands in that one or in a name behind it. -/
theorem mem_text_of_append {c : Char} (hc : c ≠ '/') {p : Path} {names : List String}
    (hnames : names ≠ []) (h : c ∈ (p.append names).text.toList) :
    c ∈ p.text.toList ∨ ∃ name ∈ names, c ∈ name.toList := by
  rw [text_append p hnames, String.toList_append, List.mem_append, mem_intercalate hc] at h
  have htext : ∀ {x}, x ∈ p.root.text.toList ++ ("/".intercalate p.names).toList →
      x ∈ p.text.toList := by
    intro x hx
    unfold text
    split
    · next hempty =>
        simp only [Bool.and_eq_true, decide_eq_true_eq, List.isEmpty_iff] at hempty
        simp [hempty.1, hempty.2, Root.text] at hx
    · rwa [String.toList_append]
  rcases h with h | ⟨name, hname, h⟩
  · exact Or.inl (htext (List.mem_append_left _ h))
  · rcases List.mem_append.1 hname with hname | hname
    · exact Or.inl (htext (List.mem_append_right _ ((mem_intercalate hc).2 ⟨name, hname, h⟩)))
    · exact Or.inr ⟨name, hname, h⟩

end Path

namespace Files

variable {fs : Files} {names folder current : Names} {bytes : Bytes}

/-! ## Trees -/

/-- A name that an entry of a folder can have. -/
def IsName (name : String) : Prop :=
  name ≠ "" ∧ name ≠ "." ∧ name ≠ ".." ∧ '/' ∉ name.toList ∧ '\x00' ∉ name.toList ∧
    name.utf8ByteSize ≤ nameLimit

instance (name : String) : Decidable (IsName name) := by
  unfold IsName
  infer_instance

/-- Where there are files. -/
def places (fs : Files) : List Names := fs.files.map (·.1)

/-- Files that make up a directory tree. -/
structure IsTree (fs : Files) : Prop where
  distinct : fs.places.Nodup
  isName : ∀ place ∈ fs.here :: fs.places ++ fs.folders, ∀ name ∈ place, IsName name
  /-- No file is a folder. -/
  leaf : ∀ place ∈ fs.places, fs.isFolder place = false

theorem isTree_iff (fs : Files) : fs.IsTree ↔ fs.places.Nodup ∧
    (∀ place ∈ fs.here :: fs.places ++ fs.folders, ∀ name ∈ place, IsName name) ∧
    ∀ place ∈ fs.places, fs.isFolder place = false :=
  ⟨fun h => ⟨h.distinct, h.isName, h.leaf⟩, fun h => ⟨h.1, h.2.1, h.2.2⟩⟩

instance (fs : Files) : Decidable fs.IsTree := decidable_of_iff' _ fs.isTree_iff

theorem get?_isSome_iff : (fs.get? names).isSome = true ↔ names ∈ fs.places := by
  unfold get? places
  induction fs.files with
  | nil => simp
  | cons f files ih =>
      rw [List.lookup_cons, List.map_cons, List.mem_cons]
      by_cases h : names = f.1
      · rw [h, beq_self_eq_true]
        exact iff_of_true rfl (Or.inl rfl)
      · rw [beq_false_of_ne h, or_iff_right h]
        exact ih

theorem exists_get?_of_mem (h : names ∈ fs.places) : ∃ bytes, fs.get? names = some bytes :=
  Option.isSome_iff_exists.1 (get?_isSome_iff.2 h)

theorem get?_eq_none_iff : fs.get? names = none ↔ names ∉ fs.places := by
  rw [← get?_isSome_iff]
  simp

/-! ## Folders -/

/-- A name on the way to a file can be that of an entry. -/
theorem IsTree.isName_of_mem (htree : fs.IsTree) (hplace : names ∈ fs.places) {name : String}
    (hname : name ∈ names) : IsName name :=
  htree.isName names (List.mem_append_left _ (List.mem_cons_of_mem _ hplace)) name hname

theorem isFolder_iff : fs.isFolder names = true ↔ names <+: fs.here ∨
    (∃ place ∈ fs.folders, names <+: place) ∨
    ∃ place ∈ fs.places, names <+: place ∧ names.length < place.length := by
  simp [isFolder, places, or_assoc]

/-- What is on the way to a folder is a folder. -/
theorem isFolder_on_way {inner : Names} (hway : names <+: inner)
    (h : fs.isFolder inner = true) : fs.isFolder names = true := by
  rw [isFolder_iff] at h ⊢
  rcases h with hhere | ⟨place, hplace, hinner⟩ | ⟨place, hplace, hinner, hlength⟩
  · exact Or.inl (hway.trans hhere)
  · exact Or.inr (Or.inl ⟨place, hplace, hway.trans hinner⟩)
  · exact Or.inr (Or.inr
      ⟨place, hplace, hway.trans hinner, hway.length_le.trans_lt hlength⟩)

/-- What is on the way to a file is a folder. -/
theorem isFolder_of_place {rest : Names} (hrest : rest ≠ []) (h : names ++ rest ∈ fs.places) :
    fs.isFolder names = true := by
  refine isFolder_iff.2 (Or.inr (Or.inr ⟨_, h, List.prefix_append names rest, ?_⟩))
  rw [List.length_append]
  have hpos := List.length_pos_iff.2 hrest
  omega

/-- A path starts at a folder. -/
theorem isFolder_start (fs : Files) (p : Path) : fs.isFolder (fs.start p) = true := by
  refine isFolder_iff.2 (Or.inl ?_)
  unfold start
  split
  · exact List.prefix_rfl
  · exact List.nil_prefix

/-! ## Ways -/

/-- What names lead to from a folder, step by step. -/
inductive Leads (fs : Files) : Names → List String → Place → Prop
  | here (current : Names) : Leads fs current [] (.folder current)
  | up {current : Names} {path : List String} {place : Place}
      (h : Leads fs current.dropLast path place) : Leads fs current (".." :: path) place
  | file {current : Names} {name : String} {bytes : Bytes} (hname : name ≠ "..")
      (hshort : name.utf8ByteSize ≤ nameLimit) (hget : fs.get? (current ++ [name]) = some bytes) :
      Leads fs current [name] (.file (current ++ [name]) bytes)
  | down {current : Names} {name : String} {path : List String} {place : Place}
      (hname : name ≠ "..") (hshort : name.utf8ByteSize ≤ nameLimit)
      (hnone : fs.get? (current ++ [name]) = none)
      (hfolder : fs.isFolder (current ++ [name]) = true)
      (h : Leads fs (current ++ [name]) path place) : Leads fs current (name :: path) place

theorem follow_up (text : String) (path : List String) :
    fs.follow text current (".." :: path) = fs.follow text current.dropLast path := by
  rw [follow, if_pos rfl]

theorem follow_down (text : String) {name : String} (path : List String) (hname : name ≠ "..")
    (hshort : name.utf8ByteSize ≤ nameLimit) (hnone : fs.get? (current ++ [name]) = none)
    (hfolder : fs.isFolder (current ++ [name]) = true) :
    fs.follow text current (name :: path) = fs.follow text (current ++ [name]) path := by
  rw [follow, if_neg hname, if_neg (Nat.not_lt.2 hshort)]
  simp only [hnone, hfolder, if_true]

/-- To follow names is to go where they lead. -/
theorem follow_eq_ok_iff (text : String) {path : List String} {place : Place} :
    fs.follow text current path = .ok place ↔ fs.Leads current path place := by
  constructor
  · intro h
    induction path generalizing current with
    | nil =>
        cases h
        exact .here current
    | cons name path ih =>
        rw [follow] at h
        split at h
        · next hup =>
            subst hup
            exact .up (ih h)
        · next hup =>
            split at h
            · cases h
            · next hlong =>
                dsimp only at h
                split at h
                · next bytes hget =>
                    split_ifs at h with hlast
                    cases h
                    rw [List.isEmpty_iff.1 hlast]
                    exact .file hup (Nat.not_lt.1 hlong) hget
                · next hnone =>
                    split_ifs at h with hfolder
                    exact .down hup (Nat.not_lt.1 hlong) hnone hfolder (ih h)
  · intro h
    induction h with
    | here current => rfl
    | up _ ih => rw [follow_up text, ih]
    | file hname hshort hget =>
        rw [follow, if_neg hname, if_neg (Nat.not_lt.2 hshort)]
        simp only [hget, List.isEmpty_nil, if_true]
    | down hname hshort hnone hfolder _ ih =>
        rw [follow_down text _ hname hshort hnone hfolder, ih]

/-- A path that leads to a folder leads to one. -/
theorem Leads.isFolder {path : List String} (h : fs.Leads current path (.folder folder))
    (hcurrent : fs.isFolder current = true) : fs.isFolder folder = true := by
  generalize hplace : Place.folder folder = place at h
  induction h with
  | here current =>
      cases hplace
      exact hcurrent
  | @up current _ _ _ ih =>
      -- One level up is on the way to where the path stands.
      exact ih (isFolder_on_way (List.dropLast_prefix current) hcurrent) hplace
  | file => cases hplace
  | down _ _ _ hfolder _ ih => exact ih hfolder hplace

/-- A path that leads to a file leads to one. -/
theorem Leads.get? {path : List String} (h : fs.Leads current path (.file names bytes)) :
    fs.get? names = some bytes := by
  generalize hplace : Place.file names bytes = place at h
  induction h with
  | here => cases hplace
  | up _ ih => exact ih hplace
  | file _ _ hget =>
      cases hplace
      exact hget
  | down _ _ _ _ _ ih => exact ih hplace

/-- Behind a path that leads to a folder one goes on from there. -/
theorem follow_append (text : String) {path : List String} (rest : List String)
    (h : fs.Leads current path (.folder folder)) :
    fs.follow text current (path ++ rest) = fs.follow text folder rest := by
  generalize hplace : Place.folder folder = place at h
  induction h with
  | here current =>
      cases hplace
      rfl
  | up _ ih => rw [List.cons_append, follow_up text, ih hplace]
  | file => cases hplace
  | down hname hshort hnone hfolder _ ih =>
      rw [List.cons_append, follow_down text _ hname hshort hnone hfolder, ih hplace]

/-- In a tree the names of a file lead to it from every folder on the way. -/
theorem IsTree.leads (htree : fs.IsTree) (hnames : names ≠ [])
    (h : fs.get? (current ++ names) = some bytes) :
    fs.Leads current names (.file (current ++ names) bytes) := by
  induction names generalizing current with
  | nil => exact absurd rfl hnames
  | cons name names ih =>
      have hplace : current ++ name :: names ∈ fs.places :=
        get?_isSome_iff.1 (Option.isSome_iff_exists.2 ⟨bytes, h⟩)
      obtain ⟨-, -, hup, -, -, hlimit⟩ :=
        htree.isName_of_mem hplace (List.mem_append_right current List.mem_cons_self)
      have hcons : current ++ name :: names = current ++ [name] ++ names :=
        List.append_cons current name names
      by_cases hlast : names = []
      · subst hlast
        exact .file hup hlimit h
      · rw [hcons] at h hplace ⊢
        -- A folder is no file, so one goes on.
        have hfolder := isFolder_of_place hlast hplace
        have hnone : fs.get? (current ++ [name]) = none := by
          rw [get?_eq_none_iff]
          intro hmem
          rw [htree.leaf _ hmem] at hfolder
          cases hfolder
        exact .down hup hlimit hnone hfolder (ih hlast h)

/-! ## Directories -/

/-- What is at a path: nothing in the way of opening it. -/
theorem locate_eq_ok_iff {p : Path} {place : Place} : fs.locate p = .ok place ↔
    '\x00' ∉ p.text.toList ∧ p.text.utf8ByteSize ≤ pathLimit ∧
      fs.Leads (fs.start p) p.names place := by
  rw [← follow_eq_ok_iff p.text]
  unfold locate
  by_cases hnull : p.text.toList.contains '\x00' = true
  · rw [if_pos hnull]
    simp only [List.contains_iff_mem] at hnull
    exact iff_of_false (by rintro ⟨⟩) fun h => h.1 hnull
  · rw [if_neg hnull]
    simp only [List.contains_iff_mem] at hnull
    by_cases hlong : pathLimit < p.text.utf8ByteSize
    · rw [if_pos hlong]
      exact iff_of_false (by rintro ⟨⟩) fun h => Nat.not_le.2 hlong h.2.1
    · rw [if_neg hlong]
      exact ⟨fun h => ⟨hnull, Nat.not_lt.1 hlong, h⟩, fun h => h.2.2⟩

/-- A path at which a file is found leads to one. -/
theorem get?_of_locate {p : Path} (h : fs.locate p = .ok (.file names bytes)) :
    fs.get? names = some bytes := (locate_eq_ok_iff.1 h).2.2.get?

theorem isFolder_of_locate {p : Path} (h : fs.locate p = .ok (.folder folder)) :
    fs.isFolder folder = true := by
  obtain ⟨-, -, hleads⟩ := locate_eq_ok_iff.1 h
  exact hleads.isFolder (isFolder_start fs p)

theorem mem_below : names ∈ fs.below folder ↔ folder ++ names ∈ fs.places := by
  unfold below places
  rw [List.mem_mergeSort, List.mem_map, List.mem_map]
  simp only [List.mem_filter, List.isPrefixOf_iff_prefix]
  constructor
  · rintro ⟨f, ⟨hf, rest, hrest⟩, rfl⟩
    refine ⟨f, hf, ?_⟩
    rw [← hrest, List.drop_left]
  · rintro ⟨f, hf, hplace⟩
    refine ⟨f, ⟨hf, names, hplace.symm⟩, ?_⟩
    rw [hplace, List.drop_left]

/-- A file below a directory has at least one name there. -/
theorem IsTree.ne_nil_of_below (htree : fs.IsTree) {p : Path}
    (hdirectory : fs.locate p = .ok (.folder folder)) (h : names ∈ fs.below folder) :
    names ≠ [] := by
  rintro rfl
  rw [mem_below, List.append_nil] at h
  have hfolder := isFolder_of_locate hdirectory
  rw [htree.leaf folder h] at hfolder
  cases hfolder

/-- The path of a file below a directory has no null character. -/
theorem IsTree.null_notMem_text (htree : fs.IsTree) {p : Path}
    (hdirectory : fs.locate p = .ok (.folder folder)) (h : names ∈ fs.below folder) :
    '\x00' ∉ (p.append names).text.toList := by
  obtain ⟨hnull, -, -⟩ := locate_eq_ok_iff.1 hdirectory
  intro hmem
  rcases Path.mem_text_of_append (by decide) (htree.ne_nil_of_below hdirectory h) hmem with
    hmem | ⟨name, hname, hmem⟩
  · exact hnull hmem
  · obtain ⟨-, -, -, -, hclean, -⟩ :=
      htree.isName_of_mem (mem_below.1 h) (List.mem_append_right folder hname)
    exact hclean hmem

/-- **A file below a directory** is found at its path, if that is not too long. -/
theorem IsTree.locate_append (htree : fs.IsTree) {p : Path}
    (hdirectory : fs.locate p = .ok (.folder folder)) (h : names ∈ fs.below folder)
    (hget : fs.get? (folder ++ names) = some bytes)
    (hfits : (p.append names).text.utf8ByteSize ≤ pathLimit) :
    fs.locate (p.append names) = .ok (.file (folder ++ names) bytes) := by
  obtain ⟨-, -, hleads⟩ := locate_eq_ok_iff.1 hdirectory
  have hfile := htree.leads (htree.ne_nil_of_below hdirectory h) hget
  refine locate_eq_ok_iff.2 ⟨htree.null_notMem_text hdirectory h, hfits, ?_⟩
  rw [← follow_eq_ok_iff p.text]
  show fs.follow _ (fs.start p) (p.names ++ names) = _
  rw [follow_append p.text names hleads, follow_eq_ok_iff]
  exact hfile

/-- A path without null characters whose file can be asked for is not too long. -/
theorem size_le_of_isFile {p : Path} {b : Bool} (hclean : '\x00' ∉ p.text.toList)
    (h : fs.isFile p = .ok b) : p.text.utf8ByteSize ≤ pathLimit := by
  by_contra hlong
  have hnull : ¬p.text.toList.contains '\x00' = true := by rwa [List.contains_iff_mem]
  have hlocate : fs.locate p = .error (.nameTooLong p.text) := by
    unfold locate
    rw [if_neg hnull, if_pos (Nat.not_le.1 hlong)]
  rw [isFile, locate?, hlocate] at h
  cases h

/-! ## The order of a listing -/

theorem namesLe_total (a b : Names) : (namesLe a b || namesLe b a) = true := by
  induction a generalizing b with
  | nil => simp [namesLe]
  | cons x a ih =>
      cases b with
      | nil => simp [namesLe]
      | cons y b =>
          rw [namesLe, namesLe]
          by_cases hxy : x = y
          · rw [if_pos hxy, if_pos hxy.symm]
            exact ih b
          · rw [if_neg hxy, if_neg (Ne.symm hxy), Bool.or_eq_true, decide_eq_true_eq,
              decide_eq_true_eq]
            exact lt_or_gt_of_ne hxy

theorem namesLe_trans (a b c : Names) (hab : namesLe a b = true) (hbc : namesLe b c = true) :
    namesLe a c = true := by
  induction a generalizing b c with
  | nil => rfl
  | cons x a ih =>
      cases b with
      | nil => cases hab
      | cons y b =>
          cases c with
          | nil => cases hbc
          | cons z c =>
              rw [namesLe] at hab hbc ⊢
              by_cases hxy : x = y
              · subst hxy
                rw [if_pos rfl] at hab
                by_cases hxz : x = z
                · rw [if_pos hxz] at hbc ⊢
                  exact ih b c hab hbc
                · rw [if_neg hxz] at hbc ⊢
                  exact hbc
              · rw [if_neg hxy, decide_eq_true_eq] at hab
                by_cases hyz : y = z
                · subst hyz
                  rw [if_neg hxy, decide_eq_true_eq]
                  exact hab
                · rw [if_neg hyz, decide_eq_true_eq] at hbc
                  have hxz := lt_trans hab hbc
                  rw [if_neg (ne_of_lt hxz), decide_eq_true_eq]
                  exact hxz

/-- A listing is sorted, and no file is listed twice. -/
theorem IsTree.pairwise_below (htree : fs.IsTree) (folder : Names) :
    (fs.below folder).Pairwise fun a b => namesLe a b = true ∧ a ≠ b := by
  have hsorted : (fs.below folder).Pairwise fun a b => namesLe a b = true :=
    List.pairwise_mergeSort namesLe_trans namesLe_total _
  have hnodup : (fs.below folder).Nodup := by
    unfold below
    rw [List.nodup_mergeSort, List.nodup_map_iff_inj_on]
    · intro f hf g hg hdrop
      simp only [List.mem_filter, List.isPrefixOf_iff_prefix] at hf hg
      obtain ⟨rest, hrest⟩ := hf.2
      obtain ⟨rest', hrest'⟩ := hg.2
      rw [← hrest, ← hrest', List.drop_left, List.drop_left] at hdrop
      have hplace : f.1 = g.1 := by rw [← hrest, ← hrest', hdrop]
      exact List.inj_on_of_nodup_map htree.distinct hf.1 hg.1 hplace
    · exact (htree.distinct.of_map _).filter _
  exact List.pairwise_and_iff.2 ⟨hsorted, hnodup⟩

/-! ## Files that differ in their bytes alone -/

/-- The same files and folders, perhaps with other bytes. -/
structure Alike (fs fs' : Files) : Prop where
  places : fs'.places = fs.places
  folders : fs'.folders = fs.folders
  here : fs'.here = fs.here

namespace Alike

variable {fs' fs'' : Files}

protected theorem refl (fs : Files) : Alike fs fs := ⟨rfl, rfl, rfl⟩

protected theorem trans (h : Alike fs fs') (h' : Alike fs' fs'') : Alike fs fs'' :=
  ⟨h'.places.trans h.places, h'.folders.trans h.folders, h'.here.trans h.here⟩

theorem isFolder (h : Alike fs fs') (names : Names) : fs'.isFolder names = fs.isFolder names := by
  rw [Bool.eq_iff_iff, isFolder_iff, isFolder_iff, h.places, h.folders, h.here]

theorem isTree (h : Alike fs fs') (htree : fs.IsTree) : fs'.IsTree := by
  refine ⟨?_, ?_, fun place hplace => ?_⟩
  · rw [h.places]
    exact htree.distinct
  · rw [h.places, h.folders, h.here]
    exact htree.isName
  · rw [h.places] at hplace
    rw [h.isFolder]
    exact htree.leaf place hplace

/-- A path that leads to a file leads to the same place in files that are alike. -/
theorem leads {path : List String} {new : Bytes} (h : Alike fs fs')
    (hleads : fs.Leads current path (.file names bytes)) (hget : fs'.get? names = some new) :
    fs'.Leads current path (.file names new) := by
  generalize hplace : Place.file names bytes = place at hleads
  induction hleads with
  | here => cases hplace
  | up _ ih => exact .up (ih hplace)
  | file hname hshort _ =>
      cases hplace
      exact .file hname hshort hget
  | @down current name _ _ hname hshort hnone hfolder _ ih =>
      refine .down hname hshort ?_ ?_ (ih hplace)
      · rw [get?_eq_none_iff, h.places]
        exact get?_eq_none_iff.1 hnone
      · rw [h.isFolder]
        exact hfolder

theorem locate {p : Path} {new : Bytes} (h : Alike fs fs')
    (hlocate : fs.locate p = .ok (.file names bytes)) (hget : fs'.get? names = some new) :
    fs'.locate p = .ok (.file names new) := by
  obtain ⟨hnull, hlong, hleads⟩ := locate_eq_ok_iff.1 hlocate
  have hstart : fs'.start p = fs.start p := by rw [start, start, h.here]
  refine locate_eq_ok_iff.2 ⟨hnull, hlong, ?_⟩
  rw [hstart]
  exact h.leads hleads hget

end Alike

/-- Writing a file that is there changes nothing but bytes. -/
theorem alike_put (h : names ∈ fs.places) (bytes : Bytes) : Alike fs (fs.put names bytes) := by
  obtain ⟨old, hold⟩ := exists_get?_of_mem h
  exact ⟨Assoc.map_fst_assign hold, rfl, rfl⟩

end Files

/-! ## Listings -/

namespace Refusals

variable {os : Refusals} {step : Step} {p : Path} {fs : Files} {folder : Names}

theorem ask_of_none {α : Type} (h : os.reason? step p = .none) (x : Except Failure α) :
    os.ask step p x = x := by
  rw [ask, h]

theorem ask_of_some {α : Type} {reason : String} (h : os.reason? step p = some reason)
    (x : Except Failure α) : os.ask step p x = .error (.os reason) := by
  rw [ask, h]

theorem ask_eq_ok_iff {α : Type} {x : Except Failure α} {a : α} :
    os.ask step p x = .ok a ↔ os.reason? step p = .none ∧ x = .ok a := by
  unfold ask
  split
  · next reason h => exact iff_of_false (by rintro ⟨⟩) (by rw [h]; rintro ⟨⟨⟩, -⟩)
  · next h => exact (and_iff_right h).symm

/-- The files below a directory that are listed. -/
def listed (os : Refusals) (fs : Files) (p : Path) (folder : Names) : List Names :=
  (fs.below folder).filter fun names => !os.hides p names

theorem mem_listed {names : Names} : names ∈ os.listed fs p folder ↔
    names ∈ fs.below folder ∧ os.hides p names = false := by
  rw [listed, List.mem_filter, Bool.not_eq_true']

/-- The listing of a directory has all files below it that are not hidden, if the folders below it
can be listed. -/
theorem list_eq_ok_iff (hdirectory : fs.locate p = .ok (.folder folder)) {listing : List Names} :
    os.list fs p = .ok listing ↔ listing = os.listed fs p folder ∧
      ∀ names ∈ fs.foldersBelow folder, os.unlisted? p names = .none := by
  have hlocate : fs.locate? p = .ok (some (.folder folder)) := by rw [Files.locate?, hdirectory]
  rw [← List.findSome?_eq_none_iff]
  unfold list
  rw [hlocate]
  cases hfind : (fs.foldersBelow folder).findSome? (os.unlisted? p) with
  | some f =>
      simp only [bind, Except.bind, hfind]
      exact iff_of_false (by rintro ⟨⟩) (by rintro ⟨-, ⟨⟩⟩)
  | none =>
      simp only [bind, Except.bind, hfind, and_true]
      constructor
      · rintro ⟨⟩
        rfl
      · rintro rfl
        rfl

/-- What is no folder has no files to list. -/
theorem list_eq_nil {listing : List Names}
    (hnone : ∀ folder, fs.locate p ≠ .ok (.folder folder)) (h : os.list fs p = .ok listing) :
    listing = [] := by
  unfold list at h
  cases hlocate : fs.locate? p with
  | error f =>
      rw [hlocate] at h
      cases h
  | ok place? =>
      rw [hlocate] at h
      cases place? with
      | none =>
          cases h
          rfl
      | some place =>
          cases place with
          | file names bytes =>
              cases h
              rfl
          | folder folder =>
              unfold Files.locate? at hlocate
              split at hlocate
              · next hsome =>
                  cases hlocate
                  exact absurd hsome (hnone folder)
              · cases hlocate
              · cases hlocate

end Refusals

end Injection
