import Injection.Proofs.DirectiveGrammar
import Injection.Proofs.Emission
import Injection.Proofs.NumberTexts

/-!
# Defaults that are read and written again

A default is read from a JSON text, and its value is written into the statements of a record.

* `Json.regular` says of a value that its whole numbers are not too long and that all its numbers
  are numbers.  What is read is regular (`Value.regular_value`).
* `Json.infinity?` is the name of the first infinity in a value.  `stops_value` follows the reader
  over the written form of a regular value: it stops at that name, or reads a value to its end.
* **`Record.read_emitted_default_iff`**: the text of a default in the statements is read again
  exactly when there is no infinity in it.

A lone half of a surrogate pair can be named in a default, and is written as it is.  The reader goes
over characters; `Text.filled` puts one that stands for itself in the place of every half.
-/

namespace Injection

/-! ## Lone halves -/

/-- The character of a code point, with `x` for a lone half. -/
def CodePoint.filled (x : Char) : CodePoint → Char
  | .char c => c
  | .half _ => x

/-- The characters of a text, with `x` for lone halves. -/
def Text.filled (x : Char) (t : Text) : List Char := t.map (·.filled x)

namespace Text

variable {x : Char}

@[simp] theorem filled_cons (p : CodePoint) (t : Text) :
    filled x (p :: t) = p.filled x :: filled x t := rfl

@[simp] theorem filled_append (a b : Text) : filled x (a ++ b) = filled x a ++ filled x b :=
  List.map_append

@[simp] theorem filled_ofChars (cs : List Char) : filled x (ofChars cs) = cs := by
  rw [filled, ofChars, List.map_map]
  exact List.map_id cs

end Text

namespace Json

/-! ## What is read -/

mutual

/-- Whether the whole numbers of a value are not too long, and all its numbers are numbers. -/
def regular : Json → Bool
  | .null | .bool _ | .str _ => true
  | .int n => (Nat.toDigits 10 n.natAbs).length ≤ digitLimit
  | .float x => x ≠ .nan
  | .arr items => regularItems items
  | .obj fields => regularFields fields

def regularItems : List Json → Bool
  | [] => true
  | v :: vs => regular v && regularItems vs

def regularFields : List (Text × Json) → Bool
  | [] => true
  | (_, v) :: fs => regular v && regularFields fs

end

theorem regularItems_iff {vs : List Json} :
    regularItems vs = true ↔ ∀ v ∈ vs, v.regular = true := by
  induction vs with
  | nil => simp [regularItems]
  | cons v vs ih => rw [regularItems, Bool.and_eq_true, ih, List.forall_mem_cons]

theorem regularFields_iff {fs : List (Text × Json)} :
    regularFields fs = true ↔ ∀ f ∈ fs, f.2.regular = true := by
  induction fs with
  | nil => simp [regularFields]
  | cons f fs ih => rw [regularFields, Bool.and_eq_true, ih, List.forall_mem_cons]

end Json

theorem Binary64.ofDecimal_ne_nan (negative : Bool) (digits : Nat) (e : Int) :
    ofDecimal negative digits e ≠ .nan := by
  have hratio : ∀ n d, ofRatio negative n d ≠ .nan := by
    intro n d
    unfold ofRatio
    dsimp only
    split_ifs <;> simp
  unfold ofDecimal
  dsimp only
  split_ifs
  · simp
  · simp
  · exact hratio _ _
  · exact hratio _ _

namespace Json.Syntax

theorem decimal_lt_pow (ds : List (Fin 10)) : decimal ds < 10 ^ ds.length := by
  have hlt : ∀ d ∈ (ds.map Fin.val).reverse, d < 10 := by
    intro d hd
    obtain ⟨f, -, rfl⟩ := List.mem_map.1 (List.mem_reverse.1 hd)
    exact f.isLt
  simpa [decimal] using Nat.ofDigits_lt_base_pow_length (b := 10) (by decide) hlt

theorem Number.regular_value (n : Number) : n.value.regular = true := by
  unfold Number.value
  split
  · next hwhole =>
      rw [regular, decide_eq_true_eq]
      refine le_trans ?_ (n.length_le_of_whole hwhole.1 hwhole.2)
      refine (Nat.length_toDigits_le_iff (by decide) (List.length_pos_iff.2 n.whole_ne_nil)).2 ?_
      have hlt := decimal_lt_pow n.whole
      split <;> omega
  · exact decide_eq_true (Binary64.ofDecimal_ne_nan _ _ _)

mutual

/-- What a tree denotes is regular. -/
theorem Value.regular_value : (t : Value) → t.value.regular = true
  | .null | .bool _ | .string _ => rfl
  | .number n => n.regular_value
  | .emptyArray _ | .emptyObject _ => rfl
  | .array _ items => regularItems_iff.2 items.regular_values
  | .object _ fields => regularFields_iff.2 fun f hf =>
      fields.regular_values f (Assoc.mem_of_mem_ofList hf)

theorem Items.regular_values : (t : Items) → ∀ v ∈ t.values, v.regular = true
  | .last v _ => List.forall_mem_singleton.2 v.regular_value
  | .next v _ _ rest => List.forall_mem_cons.2 ⟨v.regular_value, rest.regular_values⟩

theorem Fields.regular_values : (t : Fields) → ∀ f ∈ t.values, f.2.regular = true
  | .last _ v _ => List.forall_mem_singleton.2 v.regular_value
  | .next _ v _ _ rest => List.forall_mem_cons.2 ⟨v.regular_value, rest.regular_values⟩

end

end Json.Syntax

/-! ## What is written -/

/-- The name that an infinity is written by. -/
def Binary64.infinity? : Binary64 → Option String
  | .infinite negative => some (if negative then "-Infinity" else "Infinity")
  | .finite .. | .nan => none

namespace Json

mutual

/-- The name of the first infinity in a value. -/
def infinity? : Json → Option String
  | .null | .bool _ | .int _ | .str _ => none
  | .float x => x.infinity?
  | .arr items => infinityItems? items
  | .obj fields => infinityFields? fields

def infinityItems? : List Json → Option String
  | [] => none
  | v :: vs => (infinity? v).or (infinityItems? vs)

def infinityFields? : List (Text × Json) → Option String
  | [] => none
  | (_, v) :: fs => (infinity? v).or (infinityFields? fs)

end

variable (x : Char)

/-- The written form of a value, with `x` for lone halves. -/
def written (v : Json) : List Char := (print .raw v).filled x

def writtenItems (vs : List Json) : List Char := (printItems .raw vs).filled x

def writtenFields (fs : List (Text × Json)) : List Char := (printFields .raw fs).filled x

theorem written_arr (vs : List Json) : written x (.arr vs) = '[' :: writtenItems x vs := by
  rw [written, print]
  rfl

theorem written_obj (fs : List (Text × Json)) :
    written x (.obj fs) = '\x7b' :: writtenFields x fs := by
  rw [written, print]
  rfl

theorem writtenItems_singleton (v : Json) : writtenItems x [v] = written x v ++ [']'] := by
  rw [writtenItems, printItems, Text.filled_append]
  rfl

theorem writtenItems_cons_cons (v w : Json) (vs : List Json) :
    writtenItems x (v :: w :: vs) = written x v ++ ',' :: ' ' :: writtenItems x (w :: vs) := by
  rw [writtenItems, printItems.eq_3 .raw v (w :: vs) (by simp), Text.filled_append]
  rfl

namespace Syntax

variable {x} (hx : isPlain x = true)
include hx

theorem filled_printPoint (p : CodePoint) :
    (printPoint .raw p).filled x = (Piece.ofChar (p.filled x)).chars := by
  cases p with
  | char c =>
      rw [← Piece.chars_ofChar, Text.filled_ofChars]
      rfl
  | half h =>
      have hprint : printPoint .raw (.half h) = [.half h] := by
        simp only [printPoint, reduceCtorEq, if_false, CodePoint.value]
        rw [if_neg (by omega), if_neg (by omega), if_neg (by omega), if_neg (by simp)]
      rw [hprint, CodePoint.filled, Piece.ofChar, dif_pos hx]
      rfl

/-- A string is written by the elements of its characters. -/
theorem exists_pieces_filled (s : Text) :
    ∃ ps, stringChars ps = (printString .raw s).filled x := by
  refine ⟨s.map fun p => Piece.ofChar (p.filled x), ?_⟩
  have hpoints : (s.map fun p => Piece.ofChar (p.filled x)).flatMap Piece.chars =
      Text.filled x (s.flatMap (printPoint .raw)) := by
    induction s with
    | nil => rfl
    | cons p s ih =>
        rw [List.map_cons, List.flatMap_cons, List.flatMap_cons, Text.filled_append, ih,
          filled_printPoint hx]
  rw [stringChars, hpoints, printString, List.cons_append, Text.filled_cons, Text.filled_append]
  rfl

/-- A value without items, fields or infinities is written as the text of a tree. -/
theorem exists_leaf {v : Json} (hv : v.regular = true) (hnone : v.infinity? = none)
    (harr : ∀ vs, v ≠ .arr vs) (hobj : ∀ fs, v ≠ .obj fs) :
    ∃ t : Value, t.chars = written x v ∧ t.nesting = 0 := by
  cases v with
  | null => exact ⟨.null, by rw [written, print, Text.ofString, Text.filled_ofChars]; rfl, rfl⟩
  | bool b =>
      refine ⟨.bool b, ?_, rfl⟩
      rw [written, print, Text.ofString, Text.filled_ofChars]
      cases b <;> rfl
  | int n =>
      rw [regular, decide_eq_true_eq] at hv
      obtain ⟨k, hchars, -⟩ := exists_number hv
      refine ⟨.number k, ?_, rfl⟩
      rw [Value.chars, hchars, written, print, Text.ofString, Text.filled_ofChars]
      rfl
  | float y =>
      cases y with
      | finite negative m e =>
          obtain ⟨k, hchars⟩ := exists_number_text negative m e
          refine ⟨.number k, ?_, rfl⟩
          rw [Value.chars, hchars, written, print, Text.ofString, Text.filled_ofChars]
      | infinite negative => cases hnone
      | nan => cases hv
  | str s =>
      obtain ⟨ps, hchars⟩ := exists_pieces_filled hx s
      exact ⟨.string ps, by rw [Value.chars, hchars, written, print], rfl⟩
  | arr vs => exact absurd rfl (harr vs)
  | obj fs => exact absurd rfl (hobj fs)

/-- The name of a field with the colon behind it. -/
theorem exists_key (k : Text) :
    ∃ key : Key, ∀ cs, (printString .raw k).filled x ++ ':' :: ' ' :: cs = key.chars ++ cs := by
  obtain ⟨ps, hps⟩ := exists_pieces_filled hx k
  refine ⟨.ofPieces ps, fun cs => ?_⟩
  simp [Key.chars, Key.ofPieces, noSpace, oneSpace, hps]

end Syntax

theorem writtenFields_singleton (k : Text) (v : Json) : writtenFields x [(k, v)] =
    (printString .raw k).filled x ++ ':' :: ' ' :: (written x v ++ ['\x7d']) := by
  simp only [writtenFields, printFields, Text.filled_append, Text.filled_cons, List.append_assoc,
    List.cons_append]
  rfl

theorem writtenFields_cons_cons (k : Text) (v : Json) (f : Text × Json) (fs : List (Text × Json)) :
    writtenFields x ((k, v) :: f :: fs) = (printString .raw k).filled x ++
      ':' :: ' ' :: (written x v ++ ',' :: ' ' :: writtenFields x (f :: fs)) := by
  simp only [writtenFields, printFields.eq_3 .raw k v (f :: fs) (by simp), Text.filled_append,
    Text.filled_cons, List.append_assoc, List.cons_append]
  rfl

/-! ## Reading what is written -/

/-- The reader stops at a name, or reads something up to `rest`. -/
def Stops {α : Type} (name? : Option String) (r : Reading α) (rest : List Char) : Prop :=
  (name? = none → ∃ a, r = .ok (a, rest)) ∧ ∀ name, name? = some name → r = .error (.name name)

namespace Stops

variable {α β : Type} {name? others? : Option String} {r : Reading α} {rest behind : List Char}

theorem map (h : Stops name? r rest) (f : α → β) :
    Stops name? (r.map fun a => (f a.1, a.2)) rest := by
  refine ⟨fun hnone => ?_, fun name hname => ?_⟩
  · obtain ⟨a, ha⟩ := h.1 hnone
    exact ⟨f a, by rw [ha]; rfl⟩
  · rw [h.2 name hname]
    rfl

/-- A row that ends with what is read. -/
theorem last {t : Reading β} (h : Stops name? r behind)
    (herror : ∀ f, r = .error f → t = .error f)
    (hok : ∀ a, r = .ok (a, behind) → ∃ b, t = .ok (b, rest)) : Stops name? t rest := by
  refine ⟨fun hnone => ?_, fun name hname => herror _ (h.2 name hname)⟩
  obtain ⟨a, ha⟩ := h.1 hnone
  exact hok a ha

/-- A row that goes on behind what is read: the first name counts. -/
theorem next {s t : Reading β} (h : Stops name? r behind) (hs : Stops others? s rest)
    (herror : ∀ f, r = .error f → t = .error f)
    (hok : ∀ a, r = .ok (a, behind) → ∃ f : β → β, t = s.map fun b => (f b.1, b.2)) :
    Stops (name?.or others?) t rest := by
  cases hname : name? with
  | some name =>
      have ht := herror _ (h.2 name hname)
      refine ⟨fun hnone => absurd hnone (Option.some_ne_none _), fun name' hname' => ?_⟩
      cases hname'
      exact ht
  | none =>
      obtain ⟨a, ha⟩ := h.1 hname
      obtain ⟨f, hf⟩ := hok a ha
      rw [hf]
      exact hs.map f

end Stops

namespace Syntax

variable {depth fuel : Nat} {rest : List Char}

theorem stops_of_tree {x : Char} {v : Json} {t : Value} (hchars : t.chars = written x v)
    (hnone : v.infinity? = none) (hnesting : t.nesting ≤ depth)
    (hfuel : 2 * (written x v).length ≤ fuel + 1) (hrest : Ends continuesNumber rest) :
    Stops v.infinity? (readValue .refuse depth (fuel + 1) (written x v ++ rest)) rest := by
  rw [← hchars] at hfuel ⊢
  rw [hnone]
  refine ⟨fun _ => ⟨t.value, (t.reads .refuse depth fuel rest hfuel hrest).1 hnesting⟩, ?_⟩
  rintro name ⟨⟩

theorem stops_leaf {x : Char} (hx : isPlain x = true) {v : Json} (hv : v.regular = true)
    (hnone : v.infinity? = none) (harr : ∀ vs, v ≠ .arr vs) (hobj : ∀ fs, v ≠ .obj fs)
    (depth fuel : Nat) (rest : List Char) (_ : v.nesting ≤ depth)
    (hfuel : 2 * (written x v).length ≤ fuel + 1) (hrest : Ends continuesNumber rest) :
    Stops v.infinity? (readValue .refuse depth (fuel + 1) (written x v ++ rest)) rest := by
  obtain ⟨t, hchars, hnesting⟩ := exists_leaf hx hv hnone harr hobj
  exact stops_of_tree hchars hnone (hnesting.trans_le (Nat.zero_le depth)) hfuel hrest

/-- The reader complains about the name of an infinity. -/
theorem stops_infinite (x : Char) (negative : Bool) :
    Stops (infinity? (.float (.infinite negative)))
      (readValue .refuse depth (fuel + 1) (written x (.float (.infinite negative)) ++ rest))
      rest := by
  refine ⟨fun hnone => absurd hnone (Option.some_ne_none _), ?_⟩
  rintro name ⟨⟩
  rw [written, print, Text.ofString, Text.filled_ofChars]
  cases negative <;> rfl

/-- The characters that a written value starts with. -/
def isStart (c : Char) : Bool := isFirst c || c = 'I'

theorem exists_cons_written {x : Char} (hx : isPlain x = true) {v : Json}
    (hv : v.regular = true) : ∃ c cs, written x v = c :: cs ∧ isStart c = true := by
  have htree : ∀ t : Value, t.chars = written x v →
      ∃ c cs, written x v = c :: cs ∧ isStart c = true := by
    intro t ht
    obtain ⟨c, cs, hchars, hc⟩ := t.exists_cons
    exact ⟨c, cs, ht ▸ hchars, by rw [isStart, hc]; rfl⟩
  by_cases harr : ∃ vs, v = .arr vs
  · obtain ⟨vs, rfl⟩ := harr
    exact ⟨'[', _, written_arr x vs, rfl⟩
  by_cases hobj : ∃ fs, v = .obj fs
  · obtain ⟨fs, rfl⟩ := hobj
    exact ⟨'\x7b', _, written_obj x fs, rfl⟩
  by_cases hnone : v.infinity? = none
  · obtain ⟨t, ht, -⟩ := exists_leaf hx hv hnone (fun vs h => harr ⟨vs, h⟩)
      fun fs h => hobj ⟨fs, h⟩
    exact htree t ht
  · cases v with
    | float y =>
        cases y with
        | infinite negative =>
            rw [written, print, Text.ofString, Text.filled_ofChars]
            cases negative
            · exact ⟨'I', _, rfl, rfl⟩
            · exact ⟨'-', _, rfl, rfl⟩
        | finite negative m e => exact absurd rfl hnone
        | nan => exact absurd rfl hnone
    | arr vs => exact absurd ⟨vs, rfl⟩ harr
    | obj fs => exact absurd ⟨fs, rfl⟩ hobj
    | null | bool | int | str => exact absurd rfl hnone

theorem isSpace_eq_false_of_isStart {c : Char} (h : isStart c = true) : isSpace c = false := by
  rw [isStart, Bool.or_eq_true, decide_eq_true_eq] at h
  rcases h with h | rfl
  · exact isSpace_eq_false_of_isFirst h
  · rfl

theorem ends_written {x : Char} (hx : isPlain x = true) {v : Json} (hv : v.regular = true)
    (cs : List Char) : Ends isSpace (written x v ++ cs) := by
  obtain ⟨c, cs', hchars, hc⟩ := exists_cons_written hx hv
  rw [hchars, List.cons_append, Ends.cons_iff]
  exact isSpace_eq_false_of_isStart hc

theorem exists_cons_writtenItems {x : Char} (hx : isPlain x = true) {v : Json} (vs : List Json)
    (hv : v.regular = true) :
    ∃ c cs, writtenItems x (v :: vs) = c :: cs ∧ isStart c = true := by
  obtain ⟨c, cs, hchars, hc⟩ := exists_cons_written hx hv
  cases vs with
  | nil => exact ⟨c, _, by rw [writtenItems_singleton, hchars]; rfl, hc⟩
  | cons w vs => exact ⟨c, _, by rw [writtenItems_cons_cons, hchars]; rfl, hc⟩

theorem exists_cons_writtenFields (x : Char) (f : Text × Json) (fs : List (Text × Json)) :
    ∃ cs, writtenFields x (f :: fs) = '"' :: cs := by
  cases fs with
  | nil => exact ⟨_, by rw [writtenFields_singleton, printString]; rfl⟩
  | cons g fs => exact ⟨_, by rw [writtenFields_cons_cons, printString]; rfl⟩

mutual

/-- Reading the written form of a regular value, with enough depth and fuel. -/
theorem stops_value {x : Char} (hx : isPlain x = true) : ∀ v : Json, v.regular = true →
    ∀ (depth fuel : Nat) (rest : List Char), v.nesting ≤ depth →
      2 * (written x v).length ≤ fuel + 1 → Ends continuesNumber rest →
      Stops v.infinity? (readValue .refuse depth (fuel + 1) (written x v ++ rest)) rest
  | .arr vs, h => by
      intro depth fuel rest hnesting hfuel hrest
      rw [regular] at h
      cases vs with
      | nil =>
          exact stops_of_tree (t := .emptyArray noSpace) rfl rfl hnesting hfuel hrest
      | cons v vs =>
          obtain ⟨depth, rfl⟩ : ∃ d, depth = d + 1 :=
            Nat.exists_eq_add_one.2 (Nat.lt_of_lt_of_le (Nat.succ_pos _) hnesting)
          have hv : v.regular = true := (Bool.and_eq_true_iff.1 h).1
          obtain ⟨c, cs, hchars, hc⟩ := exists_cons_writtenItems hx vs hv
          rw [written_arr, List.length_cons] at hfuel
          have hitems := stops_items hx (v :: vs) h (List.cons_ne_nil v vs) depth fuel rest
            (Nat.le_of_succ_le_succ hnesting) (by omega)
          rw [hchars, List.cons_append] at hitems
          have hclose : c ≠ ']' := by
            rintro rfl
            cases hc
          rw [written_arr, hchars]
          show Stops _ (readValue .refuse (depth + 1) (fuel + 1)
            ('[' :: (noSpace.1 ++ c :: (cs ++ rest)))) rest
          rw [readValue_bracket noSpace (isSpace_eq_false_of_isStart hc) hclose]
          exact hitems.map Json.arr
  | .obj fs, h => by
      intro depth fuel rest hnesting hfuel hrest
      rw [regular] at h
      cases fs with
      | nil => exact stops_of_tree (t := .emptyObject noSpace) rfl rfl hnesting hfuel hrest
      | cons f fs =>
          obtain ⟨depth, rfl⟩ : ∃ d, depth = d + 1 :=
            Nat.exists_eq_add_one.2 (Nat.lt_of_lt_of_le (Nat.succ_pos _) hnesting)
          obtain ⟨cs, hchars⟩ := exists_cons_writtenFields x f fs
          rw [written_obj, List.length_cons] at hfuel
          have hfields := stops_fields hx (f :: fs) h (List.cons_ne_nil f fs) depth fuel rest
            (Nat.le_of_succ_le_succ hnesting) (by omega)
          rw [hchars, List.cons_append] at hfields
          rw [written_obj, hchars]
          show Stops _ (readValue .refuse (depth + 1) (fuel + 1)
            ('\x7b' :: (noSpace.1 ++ '"' :: (cs ++ rest)))) rest
          rw [readValue_brace]
          exact hfields.map fun fs => Json.obj (Assoc.ofList fs)
  | .float (.infinite negative), _ => fun _ _ _ _ _ _ => stops_infinite x negative
  | .null, h => stops_leaf hx h rfl (by simp) (by simp)
  | .bool _, h => stops_leaf hx h rfl (by simp) (by simp)
  | .int _, h => stops_leaf hx h rfl (by simp) (by simp)
  | .str _, h => stops_leaf hx h rfl (by simp) (by simp)
  | .float (.finite ..), h => stops_leaf hx h rfl (by simp) (by simp)
  | .float .nan, h => stops_leaf hx h rfl (by simp) (by simp)

theorem stops_items {x : Char} (hx : isPlain x = true) : ∀ vs : List Json,
    regularItems vs = true → vs ≠ [] → ∀ (depth fuel : Nat) (rest : List Char),
      nestingItems vs ≤ depth → 2 * (writtenItems x vs).length + 1 ≤ fuel →
      Stops (infinityItems? vs) (readItems .refuse depth fuel (writtenItems x vs ++ rest)) rest
  | [], _, hne => absurd rfl hne
  | [v], h, _ => by
      intro depth fuel rest hnesting hfuel
      rw [regularItems, Bool.and_eq_true] at h
      rw [writtenItems_singleton, List.length_append, List.length_singleton] at hfuel
      obtain ⟨fuel, rfl⟩ : ∃ k, fuel = k + 2 := ⟨fuel - 2, by omega⟩
      have hv := stops_value hx v h.1 depth fuel (']' :: rest)
        ((le_max_left _ _).trans hnesting) (by omega) (Ends.cons_iff.2 rfl)
      rw [writtenItems_singleton, List.append_assoc, infinityItems?, infinityItems?, Option.or_none]
      exact hv.last (fun f hf => readItems_error hf) fun a ha => ⟨[a], readItems_last ha rfl⟩
  | v :: w :: vs, h, _ => by
      intro depth fuel rest hnesting hfuel
      rw [regularItems, Bool.and_eq_true] at h
      rw [writtenItems_cons_cons, List.length_append, List.length_cons, List.length_cons] at hfuel
      obtain ⟨fuel, rfl⟩ : ∃ k, fuel = k + 2 := ⟨fuel - 2, by omega⟩
      have hv := stops_value hx v h.1 depth fuel (',' :: ' ' :: (writtenItems x (w :: vs) ++ rest))
        ((le_max_left _ _).trans hnesting) (by omega) (Ends.cons_iff.2 rfl)
      have hitems := stops_items hx (w :: vs) h.2 (List.cons_ne_nil w vs) depth (fuel + 1) rest
        ((le_max_right _ _).trans hnesting) (by omega)
      obtain ⟨c, cs, hchars, hc⟩ := exists_cons_writtenItems hx vs (Bool.and_eq_true_iff.1 h.2).1
      rw [writtenItems_cons_cons, List.append_assoc, infinityItems?]
      refine hv.next hitems (fun f hf => readItems_error hf) fun a ha => ⟨(a :: ·), ?_⟩
      rw [List.cons_append, List.cons_append, readItems_next ha rfl]
      have hskip := skipSpace_cons oneSpace (cs ++ rest) (isSpace_eq_false_of_isStart hc)
      rw [hchars]
      exact congrArg (fun t => (readItems .refuse depth (fuel + 1) t).map
        fun b => (a :: b.1, b.2)) hskip

theorem stops_fields {x : Char} (hx : isPlain x = true) : ∀ fs : List (Text × Json),
    regularFields fs = true → fs ≠ [] → ∀ (depth fuel : Nat) (rest : List Char),
      nestingFields fs ≤ depth → 2 * (writtenFields x fs).length + 1 ≤ fuel →
      Stops (infinityFields? fs) (readFields .refuse depth fuel (writtenFields x fs ++ rest)) rest
  | [], _, hne => absurd rfl hne
  | [(k, v)], h, _ => by
      intro depth fuel rest hnesting hfuel
      rw [regularFields, Bool.and_eq_true] at h
      obtain ⟨key, hkey⟩ := exists_key hx k
      have hlength := key.length_lt_chars
      rw [writtenFields_singleton, hkey] at hfuel ⊢
      rw [List.length_append, List.length_append, List.length_singleton] at hfuel
      obtain ⟨fuel, rfl⟩ : ∃ k, fuel = k + 2 := ⟨fuel - 2, by omega⟩
      have hv := stops_value hx v h.1 depth fuel ('\x7d' :: rest)
        ((le_max_left _ _).trans hnesting) (by omega) (Ends.cons_iff.2 rfl)
      have hpieces : key.pieces.length < fuel + 1 := by omega
      have hspace := ends_written hx h.1 ('\x7d' :: rest)
      rw [List.append_assoc, List.append_assoc, infinityFields?, infinityFields?, Option.or_none]
      exact hv.last (fun f hf => readFields_error hpieces hspace hf) fun a ha =>
        ⟨_, readFields_last hpieces hspace ha rfl⟩
  | (k, v) :: f :: fs, h, _ => by
      intro depth fuel rest hnesting hfuel
      rw [regularFields, Bool.and_eq_true] at h
      obtain ⟨key, hkey⟩ := exists_key hx k
      have hlength := key.length_lt_chars
      rw [writtenFields_cons_cons, hkey] at hfuel ⊢
      rw [List.length_append, List.length_append, List.length_cons, List.length_cons] at hfuel
      obtain ⟨fuel, rfl⟩ : ∃ k, fuel = k + 2 := ⟨fuel - 2, by omega⟩
      have hv := stops_value hx v h.1 depth fuel (',' :: ' ' :: (writtenFields x (f :: fs) ++ rest))
        ((le_max_left _ _).trans hnesting) (by omega) (Ends.cons_iff.2 rfl)
      have hfields := stops_fields hx (f :: fs) h.2 (List.cons_ne_nil f fs) depth (fuel + 1) rest
        ((le_max_right _ _).trans hnesting) (by omega)
      have hpieces : key.pieces.length < fuel + 1 := by omega
      have hspace := ends_written hx h.1 (',' :: ' ' :: (writtenFields x (f :: fs) ++ rest))
      obtain ⟨cs, hchars⟩ := exists_cons_writtenFields x f fs
      rw [List.append_assoc, List.append_assoc, infinityFields?]
      refine hv.next hfields (fun f hf => readFields_error hpieces hspace hf) fun a ha =>
        ⟨((meaning key.pieces, a) :: ·), ?_⟩
      rw [List.cons_append, List.cons_append, readFields_next hpieces hspace ha rfl]
      have hskip := skipSpace_cons oneSpace (cs ++ rest) (c := '"') rfl
      rw [hchars]
      exact congrArg (fun t => (readFields .refuse depth (fuel + 1) t).map
        fun b => ((meaning key.pieces, a) :: b.1, b.2)) hskip

end

/-- The written form of a regular value is read unless there is an infinity in it. -/
theorem read_written {x : Char} (hx : isPlain x = true) {v : Json} (hv : v.regular = true)
    {depth : Nat} (hdepth : v.nesting ≤ depth) :
    (v.infinity? = none → ∃ w, read .refuse depth (written x v) = .ok w) ∧
      ∀ name, v.infinity? = some name →
        read .refuse depth (written x v) = .error (.name name) := by
  obtain ⟨c, cs, hchars, hc⟩ := exists_cons_written hx hv
  have hstops := stops_value hx v hv depth (2 * (written x v).length) [] hdepth (Nat.le_succ _)
    Ends.nil
  have hskip : skipSpace (written x v) = written x v := by
    rw [hchars, skipSpace, List.dropWhile_cons_of_neg]
    rw [isSpace_eq_false_of_isStart hc]
    exact Bool.false_ne_true
  have hmark : c ≠ '\ufeff' := by
    rintro rfl
    cases hc
  rw [List.append_nil, ← hskip] at hstops
  rw [read.eq_def]
  split
  · next heq => exact absurd (List.cons.inj (hchars.symm.trans heq)).1 hmark
  · refine ⟨fun hnone => ?_, fun name hname => ?_⟩
    · obtain ⟨w, hw⟩ := hstops.1 hnone
      exact ⟨w, by rw [hskip] at hw ⊢; rw [hw]; rfl⟩
    · have herror := hstops.2 name hname
      rw [hskip] at herror ⊢
      rw [herror]

end Syntax

/-- A field is written with a colon between its name and its value. -/
theorem exists_printFields_of_mem (style : Escaping) {fs : List (Text × Json)} {f : Text × Json}
    (h : f ∈ fs) : ∃ front back, printFields style fs =
      front ++ (printString style f.1 ++ (Text.ofString ": " ++ (print style f.2 ++ back))) := by
  induction fs with
  | nil => cases h
  | cons g fs ih =>
      cases fs with
      | nil =>
          obtain rfl := List.mem_singleton.1 h
          refine ⟨[], [.char '\x7d'], ?_⟩
          simp [printFields, Text.ofString]
      | cons g' fs =>
          rw [printFields.eq_3 style g.1 g.2 (g' :: fs) (by simp)]
          rcases List.mem_cons.1 h with rfl | h
          · exact ⟨[], .char ',' :: .char ' ' :: printFields style (g' :: fs),
              by simp [Text.ofString]⟩
          · obtain ⟨front, back, heq⟩ := ih h
            exact ⟨printString style g.1 ++ (Text.ofString ": " ++ (print style g.2 ++
              (Text.ofString ", " ++ front))), back, by simp [heq, Text.ofString]⟩

end Json

/-! ## Defaults -/

namespace Dependency

/-- What is read as a default is regular, and nested no deeper than the reader goes. -/
theorem regular_of_parse {depth : Nat} {cs : List Char} {ds : List Dependency}
    (h : (parse depth cs).result = .ok ds) {d : Dependency} (hd : d ∈ ds) {v : Json}
    (hv : d.default = some v) : v.regular = true ∧ v.nesting ≤ depth := by
  obtain ⟨e, -, hmeans⟩ := exists_directive_of_parse h hd
  have hrel := hmeans.default
  rw [hv] at hrel
  generalize e.literal = l at hrel
  cases hrel with
  | some hdecodes =>
      obtain ⟨t, -, rfl, hnesting⟩ := hdecodes
      exact ⟨t.root.regular_value, t.root.nesting_value_le.trans hnesting⟩

end Dependency

namespace Record

theorem exists_mem_of_ofDirectives {ds : List Dependency} {p : String} {v : Json}
    (h : (Alias.ofDirectives ds p).default = some v) : ∃ d ∈ ds, d.default = some v := by
  unfold Alias.ofDirectives at h
  split at h
  · next d hd => exact ⟨d, (List.mem_filter.1 (List.mem_of_getLast? hd)).1, h⟩
  · cases h

theorem exists_print_alias {a : Alias} {v : Json} (hv : a.default = some v) :
    ∃ front back, Json.print .raw a.toJson =
      front ++ (Text.ofString "\"default\": " ++ (Json.print .raw v ++ back)) := by
  have hmem : (Text.ofString "default", v) ∈ [(Text.ofString "from", Json.ofString a.source),
      (Text.ofString "default", v)] := List.mem_cons_of_mem _ (List.mem_cons_self ..)
  obtain ⟨front, back, hprint⟩ := Json.exists_printFields_of_mem .raw hmem
  have hkey : Json.printString .raw (Text.ofString "default") ++ Text.ofString ": " =
      Text.ofString "\"default\": " := rfl
  have hjson : a.toJson = .obj [(Text.ofString "from", .ofString a.source),
      (Text.ofString "default", v)] := by
    rw [Alias.toJson, hv]
    rfl
  refine ⟨.char '\x7b' :: front, back, ?_⟩
  rw [hjson, Json.print, hprint, ← List.append_assoc (Json.printString ..), hkey]
  rfl

/-- **Defaults that are read again.**  If the last directive for a parameter has a default, the
written form of its value stands in the statements of the record, for which two objects around it
are all the room that it takes.  The strict reader takes this text exactly when there is no infinity
in the value, and else complains about the name of the first one. -/
theorem read_emitted_default_iff (depth : Nat) (r : Record) (policy : UnknownPolicy)
    (identifier : String) (s : Signature) (fields : List (Text × Json)) (ds : List Dependency)
    (p : String) (v : Json) (x : Char)
    (hfields : (paramsOf depth policy identifier s).result = .ok fields)
    (hparams : r.params = .obj fields)
    (hds : (Dependency.parse depth s.directives).result = .ok ds)
    (hp : p ∈ s.params) (hv : (Alias.ofDirectives ds p).default = some v)
    (hx : Json.Syntax.isPlain x = true) :
    (∀ room, depth + 2 ≤ room → ∃ ss front back, r.statements room = .ok ss ∧
        r.emitted? ss =
          some (front ++ (Text.ofString "\"default\": " ++ (Json.print .raw v ++ back)))) ∧
      ((∃ w, Json.read .refuse depth ((Json.print .raw v).filled x) = .ok w) ↔
        v.infinity? = none) ∧
      ∀ name, v.infinity? = some name →
        Json.read .refuse depth ((Json.print .raw v).filled x) = .error (.name name) := by
  obtain ⟨d, hd, hdefault⟩ := exists_mem_of_ofDirectives hv
  obtain ⟨hregular, hnesting⟩ := Dependency.regular_of_parse hds hd hdefault
  obtain ⟨hread, hrefused⟩ := Json.Syntax.read_written hx hregular hnesting
  refine ⟨fun room hroom => ?_, ⟨fun ⟨w, hw⟩ => ?_, hread⟩, hrefused⟩
  · have hfit : r.params.nesting ≤ room := by
      rw [hparams]
      exact (Nat.succ_le_succ (nestingFields_le_of_paramsOf hfields)).trans hroom
    obtain ⟨ds', hds', rfl⟩ := paramsOf_eq_ok (List.ne_nil_of_mem hp) hfields
    obtain rfl : ds = ds' := Except.ok.inj (hds.symm.trans hds')
    have hmem : (Text.ofString p, (Alias.ofDirectives ds p).toJson) ∈ s.params.eraseDups.map
        fun p => (Text.ofString p, (Alias.ofDirectives ds p).toJson) :=
      List.mem_map.2 ⟨p, List.mem_eraseDups.2 hp, rfl⟩
    have htruthy : r.params.truthy = true := by
      rw [hparams, ← Bool.not_eq_false, truthy_obj_map_eraseDups]
      exact List.ne_nil_of_mem hp
    obtain ⟨front, back, hfield⟩ := Json.exists_printFields_of_mem .raw hmem
    obtain ⟨front', back', halias⟩ := exists_print_alias hv
    refine ⟨_, .char '\x7b' :: (front ++ (Json.printString .raw (Text.ofString p) ++
      (Text.ofString ": " ++ front'))), back' ++ back, statements_eq_ok hfit, ?_⟩
    rw [emitted?_texts, if_pos htruthy, hparams, Json.print, hfield, halias]
    simp only [List.append_assoc, List.cons_append]
  · cases hname : v.infinity? with
    | none => rfl
    | some name =>
        have herror := (hrefused name hname).symm.trans hw
        cases herror

/-! ### A finite number and an infinite one -/

/-- One parameter `a`, with a directive for it and the given default. -/
def numberSignature (literal : String) : Signature :=
  ⟨["a"], "@dependency \x7bx = ".toList ++ literal.toList ++ "\x7d a".toList⟩

def numberRecord (v : Json) : Record :=
  ⟨"F", none, false, .obj [(Text.ofString "a", (Alias.mk "x" (some v)).toJson)], 1⟩

/-- The parameters of such a signature. -/
theorem paramsOf_numberSignature {literal : String} {v : Json}
    (hfindings : Dependency.findings (numberSignature literal).directives =
      [.dependency "a" "x" (some literal)])
    (hread : Json.read .refuse 980 literal.toList = .ok v) :
    (Dependency.parse 980 (numberSignature literal).directives).result =
        .ok [⟨"a", "x", some v⟩] ∧
      (paramsOf 980 .ignore "F" (numberSignature literal)).result =
        .ok [(Text.ofString "a", (Alias.mk "x" (some v)).toJson)] := by
  have hparse : (Dependency.parse 980 (numberSignature literal).directives).result =
      .ok [⟨"a", "x", some v⟩] := by
    simp only [Dependency.parse, hfindings, Dependency.readAll, Dependency.Finding.read, hread,
      Logged.result_bind, Logged.result_pure]
    rfl
  have hcheck : ∀ names, (checkUnknown .ignore "F" names).result = .ok () := by
    intro names
    unfold checkUnknown
    split <;> rfl
  have hparams : ¬ (numberSignature literal).params.isEmpty = true := by simp [numberSignature]
  refine ⟨hparse, ?_⟩
  rw [paramsOf, if_neg hparams, Logged.result_bind, Aliases.resolve, Logged.result_bind,
    hparse]
  simp only [Except.bind, Logged.result_pure, Logged.result_bind, hcheck,
    Aliases.forParameters_complete]
  rfl

theorem read_emitted_default_of_finite :
    (∃ ss front back, (numberRecord (.float (.ofDecimal false 15 1))).statements 983 = .ok ss ∧
        (numberRecord (.float (.ofDecimal false 15 1))).emitted? ss =
          some (front ++ (Text.ofString "\"default\": " ++ (Text.ofString "150.0" ++ back)))) ∧
      ∃ w, Json.read .refuse 980 "150.0".toList = .ok w := by
  have hfindings : Dependency.findings (numberSignature "1.5e2").directives =
      [.dependency "a" "x" (some "1.5e2")] := by rfl
  have hread : Json.read .refuse 980 "1.5e2".toList = .ok (.float (.ofDecimal false 15 1)) := by rfl
  have hnumber : Binary64.ofDecimal false 15 1 = .finite false 5277655813324800 (-45) := by decide
  have hprint : Json.print .raw (.float (.ofDecimal false 15 1)) = Text.ofString "150.0" := by
    rw [hnumber]
    rfl
  obtain ⟨hds, hfields⟩ := paramsOf_numberSignature hfindings hread
  obtain ⟨hemitted, hok, -⟩ := read_emitted_default_iff 980
    (numberRecord (.float (.ofDecimal false 15 1))) .ignore "F" (numberSignature "1.5e2") _ _ "a"
    (.float (.ofDecimal false 15 1)) ' ' hfields rfl hds (List.mem_cons_self ..) rfl rfl
  have hemitted := hemitted 983 (by decide)
  rw [hprint] at hemitted hok
  rw [Text.ofString, Text.filled_ofChars] at hok
  exact ⟨hemitted, hok.2 (by rw [hnumber]; rfl)⟩

/-- A number beyond the greatest finite one is read as an infinity.  The name of this is written in
the statements, and refused by the reader. -/
theorem read_emitted_default_of_infinite :
    (Dependency.parse 980 (numberSignature "1e999").directives).result =
        .ok [⟨"a", "x", some (.float (.infinite false))⟩] ∧
      (paramsOf 980 .ignore "F" (numberSignature "1e999")).result =
        .ok [(Text.ofString "a", (Alias.mk "x" (some (.float (.infinite false)))).toJson)] ∧
      (∃ ss, (numberRecord (.float (.infinite false))).statements 983 = .ok ss ∧
        (numberRecord (.float (.infinite false))).emitted? ss = some (Text.ofString
          "\x7b\"a\": \x7b\"from\": \"x\", \"default\": Infinity\x7d\x7d")) ∧
      Json.read .refuse 980 "Infinity".toList = .error (.name "Infinity") := by
  have hfindings : Dependency.findings (numberSignature "1e999").directives =
      [.dependency "a" "x" (some "1e999")] := by rfl
  have hread : Json.read .refuse 980 "1e999".toList = .ok (.float (.ofDecimal false 1 999)) := by
    rfl
  have hnumber : Binary64.ofDecimal false 1 999 = .infinite false := by decide
  rw [hnumber] at hread
  obtain ⟨hds, hfields⟩ := paramsOf_numberSignature hfindings hread
  refine ⟨hds, hfields, ⟨_, statements_eq_ok (by decide), ?_⟩, by rfl⟩
  rw [emitted?_texts]
  rfl

end Record

end Injection
