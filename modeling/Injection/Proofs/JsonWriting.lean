import Injection.Proofs.JsonReading
import Injection.Proofs.Whole

/-!
# Written values

What is written of a value, and what is read from it again.

* `Json.plain` says of a value that it is made of null, truth values, whole numbers, whole strings,
  arrays, and objects with distinct names.  The written form of such a value is the text of a syntax
  tree that denotes the value and is nested as deep as the value is (`Json.Syntax.exists_value`), so
  that the reader gives the value back, or fails for its depth (**`Json.read_print`**).
* `Text.Clear` says that there are no controls in a text.  What is written of any value is clear
  (`Json.clear_print`).
-/

namespace Injection

namespace Json

/-! ## Plain values -/

mutual

/-- Whether a value is made of null, truth values, whole numbers that are not too long, whole
strings, arrays, and objects with distinct names. -/
def plain : Json → Bool
  | .null | .bool _ => true
  | .int n => (Nat.toDigits 10 n.natAbs).length ≤ digitLimit
  | .float _ => false
  | .str s => s.whole
  | .arr items => plainItems items
  | .obj fields => decide (fields.map (·.1)).Nodup && plainFields fields

def plainItems : List Json → Bool
  | [] => true
  | v :: vs => plain v && plainItems vs

def plainFields : List (Text × Json) → Bool
  | [] => true
  | (k, v) :: fs => k.whole && plain v && plainFields fs

end

end Json

/-! ## The syntax trees of plain values -/

namespace Json.Syntax

/-! ### Strings -/

/-- The last digit of a number, in lower case. -/
def HexDigit.ofNat (n : Nat) : HexDigit := ⟨⟨n % 16, Nat.mod_lt n (Nat.zero_lt_succ 15)⟩, false⟩

/-- The element that a character is written by. -/
def Piece.ofChar (c : Char) : Piece :=
  if h : isPlain c = true then .plain c h
  else if c = '"' then .short .quote
  else if c = '\\' then .short .backslash
  else if c = '\n' then .short .lineFeed
  else if c = '\r' then .short .carriageReturn
  else if c = '\t' then .short .tab
  else if c = '\x08' then .short .backspace
  else if c = '\x0c' then .short .formFeed
  else .unit (.ofNat 0) (.ofNat 0) (.ofNat (c.toNat / 16)) (.ofNat c.toNat)

/-- The character that an element means by itself; a half of a pair means none. -/
def Piece.char? : Piece → Option Char
  | .plain c _ => some c
  | .short s => some s.meaning
  | .unit a b c d =>
    let n := unitValue a b c d
    if isHighHalf n || isLowHalf n then none else some (Char.ofNat n)

theorem meaning_cons {p : Piece} {c : Char} (h : p.char? = some c) (ps : List Piece) :
    meaning (p :: ps) = .char c :: meaning ps := by
  cases p with
  | plain d hd =>
      cases h
      rfl
  | short s =>
      cases h
      rfl
  | unit a b x d =>
      unfold Piece.char? at h
      dsimp only at h
      split at h
      · cases h
      · next hhalf =>
          cases h
          rw [Bool.or_eq_true, not_or, Bool.not_eq_true, Bool.not_eq_true] at hhalf
          obtain ⟨hhigh, hlow⟩ := hhalf
          have hpoint : CodePoint.ofNat (unitValue a b x d) =
              .char (Char.ofNat (unitValue a b x d)) := by
            refine dif_neg ?_
            simp only [isHighHalf, isLowHalf, Bool.and_eq_false_iff, decide_eq_false_iff_not]
              at hhigh hlow
            omega
          rw [← hpoint]
          -- An escape that is no high half has nothing to do with the one behind it.
          cases ps with
          | nil => rfl
          | cons q qs =>
              cases q with
              | plain e he => rfl
              | short s => rfl
              | unit a' b' c' d' => simp [meaning, hhigh]

/-- A character that does not stand for itself is the quote, the backslash or a control. -/
theorem exists_of_isPlain_eq_false {c : Char} (h : isPlain c = false) :
    c = '"' ∨ c = '\\' ∨ ∃ n : Fin 32, c = Char.ofNat n := by
  by_cases hquote : c = '"'
  · exact .inl hquote
  by_cases hbackslash : c = '\\'
  · exact .inr (.inl hbackslash)
  refine .inr (.inr ⟨⟨c.toNat, ?_⟩, (Char.ofNat_toNat c).symm⟩)
  simpa [isPlain, hquote, hbackslash] using h

theorem Piece.char?_ofChar (c : Char) : (Piece.ofChar c).char? = some c := by
  cases h : isPlain c with
  | true => rw [ofChar, dif_pos h, char?]
  | false =>
      rcases exists_of_isPlain_eq_false h with rfl | rfl | ⟨n, rfl⟩
      · rfl
      · rfl
      · revert n
        decide

theorem printPoint_of_isPlain {c : Char} (h : isPlain c = true) :
    printPoint .raw (.char c) = [.char c] := by
  simp only [isPlain, Bool.and_eq_true, decide_eq_true_eq] at h
  obtain ⟨⟨hquote, hbackslash⟩, hvalue⟩ := h
  have hne : ∀ d : Char, d.toNat < 0x20 → c ≠ d := by
    rintro d hd rfl
    omega
  have hcode : CodePoint.value (.char c) = c.toNat := rfl
  simp only [printPoint, CodePoint.char.injEq, hquote, hbackslash, hne '\n' (by decide),
    hne '\r' (by decide), hne '\t' (by decide), hcode, if_false]
  rw [if_neg (by omega), if_neg (by omega), if_neg (by omega), if_neg (by simp)]

theorem Piece.chars_ofChar (c : Char) :
    Text.ofChars (Piece.ofChar c).chars = printPoint .raw (.char c) := by
  cases h : isPlain c with
  | true =>
      rw [ofChar, dif_pos h, printPoint_of_isPlain h]
      rfl
  | false =>
      rcases exists_of_isPlain_eq_false h with rfl | rfl | ⟨n, rfl⟩
      · rfl
      · rfl
      · revert n
        decide

/-- A whole string is written by the elements of its characters. -/
theorem exists_pieces {s : Text} (h : s.whole = true) :
    ∃ ps, Text.ofChars (stringChars ps) = printString .raw s ∧ meaning ps = s := by
  obtain ⟨cs, rfl⟩ := Text.exists_eq_ofChars h
  refine ⟨cs.map Piece.ofChar, ?_, ?_⟩
  · have hpoints : Text.ofChars ((cs.map Piece.ofChar).flatMap Piece.chars) =
        (Text.ofChars cs).flatMap (printPoint .raw) := by
      induction cs with
      | nil => rfl
      | cons c cs ih =>
          rw [List.map_cons, List.flatMap_cons, Text.ofChars_append, ih h, Piece.chars_ofChar,
            Text.ofChars_cons, List.flatMap_cons]
    rw [stringChars, Text.ofChars_cons, Text.ofChars_append, hpoints]
    rfl
  · induction cs with
    | nil => rfl
    | cons c cs ih =>
        rw [List.map_cons, meaning_cons (Piece.char?_ofChar c), ih h, Text.ofChars_cons]

/-! ### Numbers -/

theorem decimal_concat (ds : List (Fin 10)) (d : Fin 10) :
    decimal (ds ++ [d]) = 10 * decimal ds + d := by
  simp [decimal, Nat.ofDigits_cons, Nat.add_comm]

theorem ne_nil_of_digitChars {ds : List (Fin 10)} {n : Nat}
    (h : digitChars ds = Nat.toDigits 10 n) : ds ≠ [] := by
  rintro rfl
  exact Nat.toDigits_ne_nil h.symm

/-- The digits of a natural number; the first one of a positive number is not zero. -/
theorem exists_digits (n : Nat) :
    ∃ ds, digitChars ds = Nat.toDigits 10 n ∧ decimal ds = n ∧
      (0 < n → ds.head?.map Fin.val ≠ some 0) := by
  induction n using Nat.strongRecOn with
  | ind n ih =>
      rw [Nat.toDigits_eq_if (by decide)]
      by_cases hn : n < 10
      · rw [if_pos hn]
        refine ⟨[⟨n, hn⟩], rfl, by simp [decimal], ?_⟩
        intro hpos hzero
        simp at hzero
        omega
      · rw [if_neg hn]
        obtain ⟨ds, hchars, hdecimal, hhead⟩ := ih (n / 10) (by omega)
        refine ⟨ds ++ [⟨n % 10, Nat.mod_lt n (by decide)⟩], ?_, ?_, ?_⟩
        · rw [digitChars, List.map_append, ← digitChars, hchars]
          rfl
        · rw [decimal_concat, hdecimal]
          exact Nat.div_add_mod n 10
        · intro _
          rw [List.head?_append_of_ne_nil _ (ne_nil_of_digitChars hchars)]
          exact hhead (by omega)

theorem toList_repr (n : Int) :
    n.repr.toList = (if n < 0 then ['-'] else []) ++ Nat.toDigits 10 n.natAbs := by
  rw [Int.repr_eq_if]
  by_cases hn : n < 0
  · have habs : (-n).toNat = n.natAbs := by omega
    rw [if_neg (by omega), if_pos hn, habs, Nat.repr_eq_ofList_toDigits, String.toList_append]
    exact congrArg ('-' :: ·) String.toList_ofList
  · have habs : n.toNat = n.natAbs := by omega
    rw [if_pos (by omega), if_neg hn, habs, Nat.repr_eq_ofList_toDigits, String.toList_ofList,
      List.nil_append]

/-- A whole number that is not too long is written by its digits. -/
theorem exists_number {n : Int} (h : (Nat.toDigits 10 n.natAbs).length ≤ digitLimit) :
    ∃ k : Number, k.chars = n.repr.toList ∧ k.value = .int n := by
  obtain ⟨ds, hchars, hdecimal, hhead⟩ := exists_digits n.natAbs
  have hlength : ds.length = (Nat.toDigits 10 n.natAbs).length := by
    rw [← hchars, digitChars, List.length_map]
  have hzero : 1 < ds.length → ds.head?.map Fin.val ≠ some 0 := by
    intro hlong
    -- Zero has one digit only.
    refine hhead (Nat.pos_of_ne_zero fun hn => ?_)
    rw [hlength, hn, Nat.toDigits_zero] at hlong
    exact absurd hlong (by decide)
  refine ⟨⟨decide (n < 0), ds, [], none, ne_nil_of_digitChars hchars, hzero,
    fun _ _ => hlength.trans_le h⟩, ?_, ?_⟩
  · simp [toList_repr, Number.chars, fractionChars, exponentChars, hchars]
  · simp only [Number.value, hdecimal, and_self, if_true, decide_eq_true_eq]
    congr 1
    split <;> omega

/-! ### Values -/

/-- A syntax tree for the written form of a value: it denotes the value and is nested like it. -/
structure Value.Spells (t : Value) (v : Json) : Prop where
  chars : Text.ofChars t.chars = print .raw v
  value : t.value = v
  nesting : t.nesting = v.nesting

structure Items.Spells (t : Items) (vs : List Json) : Prop where
  chars : Text.ofChars t.chars = printItems .raw vs
  values : t.values = vs
  nesting : t.nesting = nestingItems vs

structure Fields.Spells (t : Fields) (fs : List (Text × Json)) : Prop where
  chars : Text.ofChars t.chars = printFields .raw fs
  values : t.values = fs
  nesting : t.nesting = nestingFields fs

/-- The name of a field, with one space behind the colon. -/
def Key.ofPieces (ps : List Piece) : Key := ⟨ps, noSpace, oneSpace⟩

mutual

theorem exists_value : ∀ v : Json, v.plain = true → ∃ t : Value, t.Spells v
  | .null, _ => ⟨.null, rfl, rfl, rfl⟩
  | .bool true, _ => ⟨.bool true, rfl, rfl, rfl⟩
  | .bool false, _ => ⟨.bool false, rfl, rfl, rfl⟩
  | .int n, h => by
      rw [plain, decide_eq_true_eq] at h
      obtain ⟨k, hchars, hvalue⟩ := exists_number h
      refine ⟨.number k, ?_, hvalue, rfl⟩
      rw [Value.chars, hchars, print]
      rfl
  | .float x, h => by
      rw [plain] at h
      cases h
  | .str s, h => by
      rw [plain] at h
      obtain ⟨ps, hchars, hmeaning⟩ := exists_pieces h
      refine ⟨.string ps, ?_, ?_, rfl⟩
      · rw [Value.chars, hchars, print]
      · rw [Value.value, hmeaning]
  | .arr items, h => by
      rw [plain] at h
      have hitems := exists_items items h
      -- An array without items is a form of its own.
      by_cases hne : items = []
      · subst hne
        exact ⟨.emptyArray noSpace, rfl, rfl, rfl⟩
      · obtain ⟨t, hchars, hvalues, hnesting⟩ := hitems hne
        refine ⟨.array noSpace t, ?_, ?_, ?_⟩
        · rw [Value.chars, print, Text.ofChars_cons, ← hchars]
          rfl
        · rw [Value.value, hvalues]
        · rw [Value.nesting, Json.nesting, hnesting]
  | .obj fields, h => by
      rw [plain, Bool.and_eq_true, decide_eq_true_eq] at h
      have hfields := exists_fields fields h.2
      by_cases hne : fields = []
      · subst hne
        exact ⟨.emptyObject noSpace, rfl, rfl, rfl⟩
      · obtain ⟨t, hchars, hvalues, hnesting⟩ := hfields hne
        refine ⟨.object noSpace t, ?_, ?_, ?_⟩
        · rw [Value.chars, print, Text.ofChars_cons, ← hchars]
          rfl
        · rw [Value.value, hvalues, Assoc.ofList_eq_self h.1]
        · rw [Value.nesting, Json.nesting, hnesting]

theorem exists_items : ∀ vs : List Json, plainItems vs = true → vs ≠ [] →
    ∃ t : Items, t.Spells vs
  | [], _, hne => absurd rfl hne
  | [v], h, _ => by
      rw [plainItems, Bool.and_eq_true] at h
      obtain ⟨t, hchars, hvalue, hnesting⟩ := exists_value v h.1
      refine ⟨.last t noSpace, ?_, ?_, ?_⟩
      · rw [Items.chars, Text.ofChars_append, hchars, printItems]
        rfl
      · rw [Items.values, hvalue]
      · rw [Items.nesting, hnesting, nestingItems, nestingItems, Nat.max_zero]
  | v :: w :: vs, h, _ => by
      rw [plainItems, Bool.and_eq_true] at h
      obtain ⟨t, hchars, hvalue, hnesting⟩ := exists_value v h.1
      obtain ⟨ts, hrest, hvalues, hothers⟩ := exists_items (w :: vs) h.2 (List.cons_ne_nil w vs)
      refine ⟨.next t noSpace oneSpace ts, ?_, ?_, ?_⟩
      · rw [Items.chars, Text.ofChars_append, hchars, printItems.eq_3 .raw v (w :: vs) (by simp),
          ← hrest]
        rfl
      · rw [Items.values, hvalue, hvalues]
      · rw [Items.nesting, hnesting, hothers]
        rfl

theorem exists_fields : ∀ fs : List (Text × Json), plainFields fs = true → fs ≠ [] →
    ∃ t : Fields, t.Spells fs
  | [], _, hne => absurd rfl hne
  | [(k, v)], h, _ => by
      rw [plainFields, Bool.and_eq_true, Bool.and_eq_true] at h
      obtain ⟨ps, hkey, hmeaning⟩ := exists_pieces h.1.1
      obtain ⟨t, hchars, hvalue, hnesting⟩ := exists_value v h.1.2
      refine ⟨.last (.ofPieces ps) t noSpace, ?_, ?_, ?_⟩
      · simp only [Fields.chars, Key.chars, Key.ofPieces, noSpace, oneSpace, Text.ofChars_append,
          Text.ofChars_cons, Text.ofChars_nil, hkey, hchars, printFields, List.nil_append,
          List.append_assoc, List.cons_append]
      · rw [Fields.values, hvalue, Key.ofPieces, hmeaning]
      · rw [Fields.nesting, hnesting, nestingFields, nestingFields, Nat.max_zero]
  | (k, v) :: f :: fs, h, _ => by
      rw [plainFields, Bool.and_eq_true, Bool.and_eq_true] at h
      obtain ⟨ps, hkey, hmeaning⟩ := exists_pieces h.1.1
      obtain ⟨t, hchars, hvalue, hnesting⟩ := exists_value v h.1.2
      obtain ⟨ts, hrest, hvalues, hothers⟩ := exists_fields (f :: fs) h.2 (List.cons_ne_nil f fs)
      refine ⟨.next (.ofPieces ps) t noSpace oneSpace ts, ?_, ?_, ?_⟩
      · simp only [Fields.chars, Key.chars, Key.ofPieces, noSpace, oneSpace, Text.ofChars_append,
          Text.ofChars_cons, hkey, hchars, hrest, printFields.eq_3 .raw k v (f :: fs) (by simp),
          List.nil_append, List.append_assoc, List.cons_append]
      · rw [Fields.values, hvalue, hvalues, Key.ofPieces, hmeaning]
      · rw [Fields.nesting, hnesting, hothers]
        rfl

end

end Json.Syntax

/-- **A plain value that is written and read again** is the same, unless it is nested deeper than
the reader goes. -/
theorem Json.read_print {v : Json} (h : v.plain = true) (names : Names) (depth : Nat) :
    ∃ cs, print .raw v = Text.ofChars cs ∧
      (v.nesting ≤ depth → read names depth cs = .ok v) ∧
      (depth < v.nesting → ∃ n, read names depth cs = .error (.depth n)) := by
  obtain ⟨t, hchars, hvalue, hnesting⟩ := Syntax.exists_value v h
  refine ⟨t.chars, hchars.symm, ?_, ?_⟩
  · intro hdepth
    rw [t.read_chars names (hnesting.trans_le hdepth), hvalue]
  · intro hdepth
    exact t.read_chars_of_deep names (hdepth.trans_eq hnesting.symm)

/-! ## Texts without controls -/

namespace Text

/-- There is no control below the space in a text. -/
def Clear (t : Text) : Prop := ∀ p ∈ t, 0x20 ≤ p.value

instance (t : Text) : Decidable t.Clear := inferInstanceAs (Decidable (∀ p ∈ t, 0x20 ≤ p.value))

variable {a b : Text}

@[simp] theorem clear_nil : Clear [] := List.forall_mem_nil _

@[simp] theorem clear_cons {p : CodePoint} : Clear (p :: a) ↔ 0x20 ≤ p.value ∧ a.Clear :=
  List.forall_mem_cons

@[simp] theorem clear_append : Clear (a ++ b) ↔ a.Clear ∧ b.Clear := List.forall_mem_append

@[simp] theorem clear_ofChars {cs : List Char} :
    (ofChars cs).Clear ↔ ∀ c ∈ cs, 0x20 ≤ c.toNat := List.forall_mem_map

theorem clear_flatMap {α : Type} {xs : List α} {f : α → Text} (h : ∀ x ∈ xs, (f x).Clear) :
    Clear (xs.flatMap f) := by
  intro p hp
  obtain ⟨x, hx, hp⟩ := List.mem_flatMap.1 hp
  exact h x hx p hp

end Text

/-- Digits are no controls. -/
theorem clear_toDigits {b : Nat} (hb : 1 < b) (hlimit : b ≤ 16) (n : Nat) :
    ∀ c ∈ Nat.toDigits b n, 0x20 ≤ c.toNat := by
  have hdigit : ∀ d < 16, 0x20 ≤ (Nat.digitChar d).toNat := by decide
  induction n using Nat.strongRecOn with
  | ind n ih =>
      intro c hc
      rw [Nat.toDigits_eq_if hb] at hc
      split at hc
      · rw [List.mem_singleton.1 hc]
        exact hdigit n (by omega)
      · rcases List.mem_append.1 hc with hc | hc
        · exact ih (n / b) (Nat.div_lt_self (by omega) hb) c hc
        · rw [List.mem_singleton.1 hc]
          exact hdigit (n % b) ((Nat.mod_lt n (by omega)).trans_le hlimit)

theorem clear_zeros (n : Nat) : ∀ c ∈ List.replicate n '0', 0x20 ≤ c.toNat := by
  intro c hc
  rw [List.eq_of_mem_replicate hc]
  decide

/-- The layout of digits adds no controls. -/
theorem Binary64.clear_layout {ds : List Char} (h : ∀ c ∈ ds, 0x20 ≤ c.toNat) (point : Int) :
    ∀ c ∈ layout ds point, 0x20 ≤ c.toNat := by
  have hmark : 0x20 ≤ (if point - 1 < 0 then '-' else '+').toNat := by split <;> decide
  have hexponent := clear_toDigits (b := 10) (by decide) (by decide) (point - 1).natAbs
  generalize hdigits : Nat.toDigits 10 (point - 1).natAbs = digits at hexponent
  have hpadded : ∀ c ∈ if digits.length < 2 then '0' :: digits else digits, 0x20 ≤ c.toNat := by
    split
    · exact List.forall_mem_cons.2 ⟨by decide, hexponent⟩
    · exact hexponent
  unfold layout
  split
  · split_ifs
    · simp only [List.cons_append, List.forall_mem_cons, List.forall_mem_append]
      exact ⟨by decide, by decide, clear_zeros _, h⟩
    · simp only [List.forall_mem_cons, List.forall_mem_append]
      exact ⟨⟨h, clear_zeros _⟩, by decide, by decide, List.forall_mem_nil _⟩
    · simp only [List.forall_mem_cons, List.forall_mem_append]
      exact ⟨fun c hc => h c (List.mem_of_mem_take hc), by decide,
        fun c hc => h c (List.mem_of_mem_drop hc)⟩
  · simp only [hdigits]
    cases ds with
    | nil => exact List.forall_mem_nil _
    | cons d rest =>
        rw [List.forall_mem_cons] at h
        cases rest with
        | nil =>
            simp only [List.forall_mem_cons]
            exact ⟨h.1, by decide, hmark, hpadded⟩
        | cons d' rest =>
            simp only [List.cons_append, List.forall_mem_cons, List.forall_mem_append] at h ⊢
            exact ⟨h.1, by decide, h.2.1, h.2.2, by decide, hmark, hpadded⟩

namespace Json

theorem clear_unitEscape (n : Nat) : (Text.ofChars (unitEscape n)).Clear := by
  have hdigits := clear_toDigits (b := 16) (by decide) le_rfl n
  simp only [unitEscape, Text.hex, Text.ofChars_cons, Text.ofChars_append, Text.clear_cons,
    Text.clear_append, Text.clear_ofChars]
  exact ⟨by decide, by decide, clear_zeros _, hdigits⟩

theorem clear_printPoint (style : Escaping) (p : CodePoint) : (printPoint style p).Clear := by
  unfold printPoint
  split_ifs with _ _ _ _ _ _ _ hcontrol
  any_goals decide
  · exact clear_unitEscape _
  · unfold pointEscape
    split
    · exact clear_unitEscape _
    · rw [Text.ofChars_append, Text.clear_append]
      exact ⟨clear_unitEscape _, clear_unitEscape _⟩
  · simpa using hcontrol

theorem clear_printString (style : Escaping) (s : Text) : (printString style s).Clear := by
  have hpoints := Text.clear_flatMap fun p (_ : p ∈ s) => clear_printPoint style p
  rw [printString, List.cons_append, Text.clear_cons, Text.clear_append]
  exact ⟨by decide, hpoints, by decide⟩

theorem clear_floatText (x : Binary64) : (Text.ofString (floatText x)).Clear := by
  cases x with
  | nan => decide
  | infinite negative => cases negative <;> decide
  | finite negative m e =>
      have hbody := Binary64.clear_layout (clear_toDigits (b := 10) (by decide) (by decide)
        (Binary64.shortest m e).digits)
      simp only [floatText, Binary64.text, Text.ofString, String.toList_ofList,
        Text.clear_ofChars]
      split
      · exact List.forall_mem_cons.2 ⟨by decide, hbody _⟩
      · exact hbody _

mutual

/-- What is written of a value is clear. -/
theorem clear_print (style : Escaping) : ∀ v : Json, (print style v).Clear
  | .null => by
      rw [print]
      decide
  | .bool b => by
      rw [print]
      cases b <;> decide
  | .int n => by
      have hsign : ∀ c ∈ if n < 0 then ['-'] else [], 0x20 ≤ c.toNat := by split <;> simp
      have hdigits := clear_toDigits (b := 10) (by decide) (by decide) n.natAbs
      show (Text.ofChars n.repr.toList).Clear
      rw [Syntax.toList_repr, Text.clear_ofChars]
      exact List.forall_mem_append.2 ⟨hsign, hdigits⟩
  | .float x => by
      rw [print]
      exact clear_floatText x
  | .str s => by
      rw [print]
      exact clear_printString style s
  | .arr items => by
      rw [print, Text.clear_cons]
      exact ⟨by decide, clear_printItems style items⟩
  | .obj fields => by
      rw [print, Text.clear_cons]
      exact ⟨by decide, clear_printFields style fields⟩

theorem clear_printItems (style : Escaping) : ∀ vs : List Json, (printItems style vs).Clear
  | [] => by
      rw [printItems]
      decide
  | [v] => by
      rw [printItems, Text.clear_append]
      exact ⟨clear_print style v, by decide⟩
  | v :: w :: vs => by
      rw [printItems.eq_3 style v (w :: vs) (by simp), Text.clear_append, Text.clear_cons,
        Text.clear_cons]
      exact ⟨clear_print style v, by decide, by decide, clear_printItems style (w :: vs)⟩

theorem clear_printFields (style : Escaping) :
    ∀ fs : List (Text × Json), (printFields style fs).Clear
  | [] => by
      rw [printFields]
      decide
  | [(k, v)] => by
      simp only [printFields, List.append_assoc, List.cons_append, Text.clear_append,
        Text.clear_cons]
      exact ⟨clear_printString style k, by decide, by decide, clear_print style v, by decide,
        Text.clear_nil⟩
  | (k, v) :: f :: fs => by
      simp only [printFields.eq_3 style k v (f :: fs) (by simp), List.append_assoc,
        List.cons_append, Text.clear_append, Text.clear_cons]
      exact ⟨clear_printString style k, by decide, by decide, clear_print style v, by decide,
        by decide, clear_printFields style (f :: fs)⟩

end

end Json

end Injection
