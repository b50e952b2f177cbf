import Injection.Text.Utf8
import Mathlib.Tactic

/-!
# UTF-8 read and written

Decoding accepts exactly the encodings of characters, and gives back the characters encoded.  An
offset is a boundary when no character crosses it; the bytes between two boundaries of an encoded
text are an encoded text again.
-/

namespace Injection
namespace Utf8

/-- The encoding of characters. -/
def encodeChars (cs : List Char) : Bytes := cs.flatMap String.utf8EncodeChar

@[simp] theorem encodeChars_nil : encodeChars [] = [] := rfl

@[simp] theorem encodeChars_cons (c : Char) (cs : List Char) :
    encodeChars (c :: cs) = String.utf8EncodeChar c ++ encodeChars cs := rfl

@[simp] theorem encodeChars_append (cs ds : List Char) :
    encodeChars (cs ++ ds) = encodeChars cs ++ encodeChars ds :=
  List.flatMap_append

theorem encodeString_eq (s : String) : encodeString s = encodeChars s.toList := rfl

theorem encodeString_ofList (cs : List Char) :
    encodeString (String.ofList cs) = encodeChars cs := by
  rw [encodeString_eq, String.toList_ofList]

theorem encodeString_append {s t : String} {as bs : Bytes} (hs : encodeString s = as)
    (ht : encodeString t = bs) : encodeString (s ++ t) = as ++ bs := by
  rw [encodeString_eq, String.toList_append, encodeChars_append, ← encodeString_eq,
    ← encodeString_eq, hs, ht]

/-- A natural number below 256 survives the way through a byte. -/
theorem toNat_ofNat_byte {n : Nat} (h : n < 256) : (UInt8.ofNat n).toNat = n := by
  rw [UInt8.toNat_ofNat']
  omega

/-- A byte below another one, by their numbers. -/
theorem byte_lt_iff (a b : UInt8) : a < b ↔ a.toNat < b.toNat := UInt8.lt_iff_toNat_lt

theorem byte_le_iff (a b : UInt8) : a ≤ b ↔ a.toNat ≤ b.toNat := UInt8.le_iff_toNat_le

theorem isContinuation_iff (b : UInt8) :
    isContinuation b = true ↔ 0x80 ≤ b.toNat ∧ b.toNat < 0xC0 := by
  simp [isContinuation, byte_le_iff, byte_lt_iff]

/-- The number of a character is below the surrogates or behind them. -/
theorem char_valid (c : Char) :
    c.toNat < 0xD800 ∨ (0xDFFF < c.toNat ∧ c.toNat < 0x110000) := c.valid

/-- A sequence of one byte. -/
theorem decodeFrom_one {a : UInt8} (pos : Nat) (bs : Bytes) (ha : a.toNat < 0x80) :
    decodeFrom pos (a :: bs) = (Char.ofNat a.toNat :: ·) <$> decodeFrom (pos + 1) bs := by
  rw [decodeFrom.eq_def]
  simp [byte_lt_iff, ha]

/-- A sequence of two bytes. -/
theorem decodeFrom_two {a b : UInt8} (pos : Nat) (bs : Bytes)
    (ha : 0xC2 ≤ a.toNat ∧ a.toNat < 0xE0) (hb : isContinuation b = true) :
    decodeFrom pos (a :: b :: bs) =
      (Char.ofNat (a.toNat % 32 * 64 + payload b) :: ·) <$> decodeFrom (pos + 2) bs := by
  rw [decodeFrom.eq_def]
  have h1 : ¬ a.toNat < 0x80 := by omega
  have h2 : ¬ a.toNat < 0xC2 := by omega
  simp [byte_lt_iff, h1, h2, ha.2, hb]

/-- A sequence of three bytes. -/
theorem decodeFrom_three {a b c : UInt8} (pos : Nat) (bs : Bytes)
    (ha : 0xE0 ≤ a.toNat ∧ a.toNat < 0xF0) (hb : continues3 a b = true)
    (hc : isContinuation c = true) :
    decodeFrom pos (a :: b :: c :: bs) =
      (Char.ofNat (a.toNat % 16 * 4096 + payload b * 64 + payload c) :: ·) <$>
        decodeFrom (pos + 3) bs := by
  rw [decodeFrom.eq_def]
  have h1 : ¬ a.toNat < 0x80 := by omega
  have h2 : ¬ a.toNat < 0xC2 := by omega
  have h3 : ¬ a.toNat < 0xE0 := by omega
  simp [byte_lt_iff, h1, h2, h3, ha.2, hb, hc]

/-- A sequence of four bytes. -/
theorem decodeFrom_four {a b c d : UInt8} (pos : Nat) (bs : Bytes)
    (ha : 0xF0 ≤ a.toNat ∧ a.toNat < 0xF5) (hb : continues4 a b = true)
    (hc : isContinuation c = true) (hd : isContinuation d = true) :
    decodeFrom pos (a :: b :: c :: d :: bs) =
      (Char.ofNat (a.toNat % 8 * 262144 + payload b * 4096 + payload c * 64 + payload d) :: ·) <$>
        decodeFrom (pos + 4) bs := by
  rw [decodeFrom.eq_def]
  have h1 : ¬ a.toNat < 0x80 := by omega
  have h2 : ¬ a.toNat < 0xC2 := by omega
  have h3 : ¬ a.toNat < 0xE0 := by omega
  have h4 : ¬ a.toNat < 0xF0 := by omega
  simp [byte_lt_iff, h1, h2, h3, h4, ha.2, hb, hc, hd]

theorem continues3_iff (a b : UInt8) :
    continues3 a b = true ↔ (0x80 ≤ b.toNat ∧ b.toNat < 0xC0) ∧
      (a.toNat = 0xE0 → 0xA0 ≤ b.toNat) ∧ (a.toNat = 0xED → b.toNat < 0xA0) := by
  unfold continues3
  rw [Bool.and_eq_true, isContinuation_iff]
  have h0 : a = 0xE0 ↔ a.toNat = 0xE0 := UInt8.toNat_inj.symm
  have hD : a = 0xED ↔ a.toNat = 0xED := UInt8.toNat_inj.symm
  split_ifs with h1 h2
  · simp [byte_le_iff, h0.1 h1]
  · simp [byte_lt_iff, hD.1 h2]
  · simp [mt h0.2 h1, mt hD.2 h2]

theorem continues4_iff (a b : UInt8) :
    continues4 a b = true ↔ (0x80 ≤ b.toNat ∧ b.toNat < 0xC0) ∧
      (a.toNat = 0xF0 → 0x90 ≤ b.toNat) ∧ (a.toNat = 0xF4 → b.toNat < 0x90) := by
  unfold continues4
  rw [Bool.and_eq_true, isContinuation_iff]
  have h0 : a = 0xF0 ↔ a.toNat = 0xF0 := UInt8.toNat_inj.symm
  have h4 : a = 0xF4 ↔ a.toNat = 0xF4 := UInt8.toNat_inj.symm
  split_ifs with h1 h2
  · simp [byte_le_iff, h0.1 h1]
  · simp [byte_lt_iff, h4.1 h2]
  · simp [mt h0.2 h1, mt h4.2 h2]

/-- Decoding takes the encoding of a character off the front. -/
theorem decodeFrom_encodeChar (pos : Nat) (c : Char) (bs : Bytes) :
    decodeFrom pos (String.utf8EncodeChar c ++ bs) =
      (c :: ·) <$> decodeFrom (pos + (String.utf8EncodeChar c).length) bs := by
  have hvalid := char_valid c
  have hchar : Char.ofNat c.toNat = c := Char.ofNat_toNat c
  have hval : c.val.toNat = c.toNat := rfl
  generalize hv : c.toNat = v at hvalid hchar hval
  unfold String.utf8EncodeChar
  simp only [hval]
  split_ifs with h1 h2 h3
  · -- one byte, and then two, three and four: the payloads of the bytes add up to the character
    have ha : (UInt8.ofNat v).toNat = v := toNat_ofNat_byte (by omega)
    have h := decodeFrom_one (a := UInt8.ofNat v) pos bs (by omega)
    rw [ha, hchar] at h
    exact h
  · have ha : (UInt8.ofNat (v / 64 % 32 + 192)).toNat = v / 64 % 32 + 192 :=
      toNat_ofNat_byte (by omega)
    have hb : (UInt8.ofNat (v % 64 + 128)).toNat = v % 64 + 128 := toNat_ofNat_byte (by omega)
    have hsum : (v / 64 % 32 + 192) % 32 * 64 + (v % 64 + 128) % 64 = v := by omega
    have h := decodeFrom_two (a := UInt8.ofNat (v / 64 % 32 + 192))
      (b := UInt8.ofNat (v % 64 + 128)) pos bs (by omega) (by rw [isContinuation_iff]; omega)
    rw [payload, ha, hb, hsum, hchar] at h
    exact h
  · have ha : (UInt8.ofNat (v / 4096 % 16 + 224)).toNat = v / 4096 % 16 + 224 :=
      toNat_ofNat_byte (by omega)
    have hb : (UInt8.ofNat (v / 64 % 64 + 128)).toNat = v / 64 % 64 + 128 :=
      toNat_ofNat_byte (by omega)
    have hc : (UInt8.ofNat (v % 64 + 128)).toNat = v % 64 + 128 := toNat_ofNat_byte (by omega)
    have hsum : (v / 4096 % 16 + 224) % 16 * 4096 + (v / 64 % 64 + 128) % 64 * 64 +
        (v % 64 + 128) % 64 = v := by omega
    have h := decodeFrom_three (a := UInt8.ofNat (v / 4096 % 16 + 224))
      (b := UInt8.ofNat (v / 64 % 64 + 128)) (c := UInt8.ofNat (v % 64 + 128)) pos bs (by omega)
      (by rw [continues3_iff]; omega) (by rw [isContinuation_iff]; omega)
    rw [payload, payload, ha, hb, hc, hsum, hchar] at h
    exact h
  · have ha : (UInt8.ofNat (v / 262144 % 8 + 240)).toNat = v / 262144 % 8 + 240 :=
      toNat_ofNat_byte (by omega)
    have hb : (UInt8.ofNat (v / 4096 % 64 + 128)).toNat = v / 4096 % 64 + 128 :=
      toNat_ofNat_byte (by omega)
    have hc : (UInt8.ofNat (v / 64 % 64 + 128)).toNat = v / 64 % 64 + 128 :=
      toNat_ofNat_byte (by omega)
    have hd : (UInt8.ofNat (v % 64 + 128)).toNat = v % 64 + 128 := toNat_ofNat_byte (by omega)
    have hsum : (v / 262144 % 8 + 240) % 8 * 262144 + (v / 4096 % 64 + 128) % 64 * 4096 +
        (v / 64 % 64 + 128) % 64 * 64 + (v % 64 + 128) % 64 = v := by omega
    have h := decodeFrom_four (a := UInt8.ofNat (v / 262144 % 8 + 240))
      (b := UInt8.ofNat (v / 4096 % 64 + 128)) (c := UInt8.ofNat (v / 64 % 64 + 128))
      (d := UInt8.ofNat (v % 64 + 128)) pos bs (by omega) (by rw [continues4_iff]; omega)
      (by rw [isContinuation_iff]; omega) (by rw [isContinuation_iff]; omega)
    rw [payload, payload, payload, ha, hb, hc, hd, hsum, hchar] at h
    exact h

/-- Decoding gives back the characters encoded. -/
theorem decodeFrom_encodeChars (pos : Nat) (cs : List Char) :
    decodeFrom pos (encodeChars cs) = .ok cs := by
  induction cs generalizing pos with
  | nil => rw [encodeChars_nil, decodeFrom.eq_def]
  | cons c cs ih =>
      rw [encodeChars_cons, decodeFrom_encodeChar, ih]
      rfl

@[simp] theorem decode_encodeChars (cs : List Char) : decode (encodeChars cs) = .ok cs :=
  decodeFrom_encodeChars 0 cs

/-- The number of the character of a number that is one. -/
theorem toNat_ofNat_char {n : Nat} (h : n < 0xD800 ∨ (0xDFFF < n ∧ n < 0x110000)) :
    (Char.ofNat n).toNat = n := by
  have hn : n.isValidChar := h
  unfold Char.ofNat
  rw [dif_pos hn]
  rfl

theorem encodeChar_one {a : UInt8} (ha : a.toNat < 0x80) :
    String.utf8EncodeChar (Char.ofNat a.toNat) = [a] := by
  have hv : (Char.ofNat a.toNat).val.toNat = a.toNat := toNat_ofNat_char (by omega)
  unfold String.utf8EncodeChar
  simp only [hv]
  rw [if_pos (by omega), UInt8.ofNat_toNat]

/-- Two bytes are equal when their numbers are. -/
theorem ofNat_eq_byte {n : Nat} {b : UInt8} (h : n = b.toNat) : UInt8.ofNat n = b := by
  rw [h, UInt8.ofNat_toNat]

theorem encodeChar_two {a b : UInt8} (ha : 0xC2 ≤ a.toNat ∧ a.toNat < 0xE0)
    (hb : isContinuation b = true) :
    String.utf8EncodeChar (Char.ofNat (a.toNat % 32 * 64 + payload b)) = [a, b] := by
  rw [isContinuation_iff] at hb
  have hv : (Char.ofNat (a.toNat % 32 * 64 + payload b)).val.toNat =
      a.toNat % 32 * 64 + payload b := toNat_ofNat_char (by unfold payload; omega)
  unfold String.utf8EncodeChar
  simp only [hv]
  unfold payload
  rw [if_neg (by omega), if_pos (by omega), ofNat_eq_byte (b := a) (by omega),
    ofNat_eq_byte (b := b) (by omega)]

theorem encodeChar_three {a b c : UInt8} (ha : 0xE0 ≤ a.toNat ∧ a.toNat < 0xF0)
    (hb : continues3 a b = true) (hc : isContinuation c = true) :
    String.utf8EncodeChar (Char.ofNat (a.toNat % 16 * 4096 + payload b * 64 + payload c)) =
      [a, b, c] := by
  rw [isContinuation_iff] at hc
  rw [continues3_iff] at hb
  have hv : (Char.ofNat (a.toNat % 16 * 4096 + payload b * 64 + payload c)).val.toNat =
      a.toNat % 16 * 4096 + payload b * 64 + payload c :=
    toNat_ofNat_char (by unfold payload; omega)
  unfold String.utf8EncodeChar
  simp only [hv]
  unfold payload
  rw [if_neg (by omega), if_neg (by omega), if_pos (by omega), ofNat_eq_byte (b := a) (by omega),
    ofNat_eq_byte (b := b) (by omega), ofNat_eq_byte (b := c) (by omega)]

theorem encodeChar_four {a b c d : UInt8} (ha : 0xF0 ≤ a.toNat ∧ a.toNat < 0xF5)
    (hb : continues4 a b = true) (hc : isContinuation c = true) (hd : isContinuation d = true) :
    String.utf8EncodeChar
      (Char.ofNat (a.toNat % 8 * 262144 + payload b * 4096 + payload c * 64 + payload d)) =
      [a, b, c, d] := by
  rw [isContinuation_iff] at hc hd
  rw [continues4_iff] at hb
  have hv : (Char.ofNat (a.toNat % 8 * 262144 + payload b * 4096 + payload c * 64 +
      payload d)).val.toNat = a.toNat % 8 * 262144 + payload b * 4096 + payload c * 64 +
      payload d := toNat_ofNat_char (by unfold payload; omega)
  unfold String.utf8EncodeChar
  simp only [hv]
  unfold payload
  rw [if_neg (by omega), if_neg (by omega), if_neg (by omega), ofNat_eq_byte (b := a) (by omega),
    ofNat_eq_byte (b := b) (by omega), ofNat_eq_byte (b := c) (by omega),
    ofNat_eq_byte (b := d) (by omega)]

/-- A character in front of a decoded rest, turned around. -/
theorem eq_cons_of_map_eq_ok {c : Char} {r : Except DecodeFault (List Char)} {cs : List Char}
    (h : (c :: ·) <$> r = .ok cs) : ∃ ds, r = .ok ds ∧ cs = c :: ds := by
  cases r with
  | error f => cases h
  | ok ds => exact ⟨ds, rfl, by cases h; rfl⟩

/-- Only encodings of characters are decoded. -/
theorem eq_encodeChars_of_decodeFrom {pos : Nat} {bs : Bytes} {cs : List Char}
    (h : decodeFrom pos bs = .ok cs) : bs = encodeChars cs := by
  fun_induction decodeFrom pos bs generalizing cs with
  | case1 =>
      cases h
      rfl
  | case2 pos a s ha ih =>
      rw [byte_lt_iff] at ha
      obtain ⟨ds, hds, rfl⟩ := eq_cons_of_map_eq_ok h
      rw [encodeChars_cons, encodeChar_one ha, ih hds]
      rfl
  | case5 pos a h1 h2 h3 b s hb ih =>
      rw [byte_lt_iff] at h2 h3
      obtain ⟨ds, hds, rfl⟩ := eq_cons_of_map_eq_ok h
      rw [encodeChars_cons, encodeChar_two ⟨Nat.le_of_not_lt h2, h3⟩ hb, ih hds]
      rfl
  | case9 pos a h1 h2 h3 h4 b hb c s hc ih =>
      rw [byte_lt_iff] at h3 h4
      obtain ⟨ds, hds, rfl⟩ := eq_cons_of_map_eq_ok h
      rw [encodeChars_cons, encodeChar_three ⟨Nat.le_of_not_lt h3, h4⟩ hb hc, ih hds]
      rfl
  | case15 pos a h1 h2 h3 h4 h5 b hb c hc d s hd ih =>
      rw [byte_lt_iff] at h4 h5
      obtain ⟨ds, hds, rfl⟩ := eq_cons_of_map_eq_ok h
      rw [encodeChars_cons, encodeChar_four ⟨Nat.le_of_not_lt h4, h5⟩ hb hc hd, ih hds]
      rfl
  | _ => cases h

/-- Decoding succeeds exactly on the encodings of characters. -/
theorem decode_eq_ok_iff (bs : Bytes) (cs : List Char) :
    decode bs = .ok cs ↔ bs = encodeChars cs := by
  constructor
  · exact eq_encodeChars_of_decodeFrom
  · rintro rfl
    exact decode_encodeChars cs

theorem encodeChars_injective : Function.Injective encodeChars := by
  intro cs ds h
  have hdecode := congrArg decode h
  rw [decode_encodeChars, decode_encodeChars] at hdecode
  exact Except.ok.inj hdecode

/-! ## Texts that may hold lone halves -/

theorem encodeFrom_ofChars (pos : Nat) (cs : List Char) :
    encodeFrom pos (Text.ofChars cs) = .ok (encodeChars cs) := by
  induction cs generalizing pos with
  | nil => rfl
  | cons c cs ih =>
      rw [Text.ofChars_cons, encodeFrom, ih]
      rfl

/-- A text is encoded exactly when it holds characters only. -/
theorem encode_eq_ok_iff (t : Text) (bs : Bytes) :
    encode t = .ok bs ↔ ∃ cs, t = Text.ofChars cs ∧ bs = encodeChars cs := by
  constructor
  · unfold encode
    generalize 0 = pos
    induction t generalizing pos bs with
    | nil =>
        intro h
        exact ⟨[], rfl, (Except.ok.inj h).symm⟩
    | cons x t ih =>
        intro h
        cases x with
        | half k => cases h
        | char c =>
            rw [encodeFrom] at h
            cases hrest : encodeFrom (pos + 1) t with
            | error f =>
                rw [hrest] at h
                cases h
            | ok rest =>
                rw [hrest] at h
                obtain ⟨cs, rfl, rfl⟩ := ih rest (pos + 1) hrest
                exact ⟨c :: cs, rfl, (Except.ok.inj h).symm⟩
  · rintro ⟨cs, rfl, rfl⟩
    exact encodeFrom_ofChars 0 cs

/-- A string is the string of its text. -/
@[simp] theorem string_ofString (s : String) : string (Text.ofString s) = .ok s := by
  have hshown : (Text.ofString s).shown = s := by
    rw [Text.shown, Text.ofString, Text.ofChars, List.flatMap_map]
    simp
  rw [string, encode, Text.ofString, encodeFrom_ofChars]
  exact congrArg Except.ok hshown

/-! ## Boundaries -/

/-- Whether no character of an encoded text crosses an offset: the offset is the end of the text, or
the byte there starts a character. -/
def isBoundary (bs : Bytes) (p : Nat) : Bool :=
  match bs.drop p with
  | [] => p = bs.length
  | b :: _ => !isContinuation b

/-- All bytes of a character but the first continue it. -/
theorem encodeChar_eq_cons (c : Char) :
    ∃ a t, String.utf8EncodeChar c = a :: t ∧ ∀ b ∈ t, isContinuation b = true := by
  have hcont (n : Nat) : isContinuation (UInt8.ofNat (n % 64 + 128)) = true := by
    rw [isContinuation_iff, toNat_ofNat_byte (by omega)]
    omega
  unfold String.utf8EncodeChar
  dsimp only
  split_ifs
  · exact ⟨_, _, rfl, List.forall_mem_nil _⟩
  · refine ⟨_, _, rfl, ?_⟩
    simp only [List.forall_mem_cons, hcont, true_and]
    exact List.forall_mem_nil _
  · refine ⟨_, _, rfl, ?_⟩
    simp only [List.forall_mem_cons, hcont, true_and]
    exact List.forall_mem_nil _
  · refine ⟨_, _, rfl, ?_⟩
    simp only [List.forall_mem_cons, hcont, true_and]
    exact List.forall_mem_nil _

/-- A boundary divides the text into two. -/
theorem exists_append_of_isBoundary {cs : List Char} {p : Nat}
    (h : isBoundary (encodeChars cs) p = true) :
    ∃ ds es, cs = ds ++ es ∧ p = (encodeChars ds).length := by
  induction cs generalizing p with
  | nil =>
      have hp : p = 0 := by
        rw [isBoundary, encodeChars_nil, List.drop_nil] at h
        exact of_decide_eq_true h
      exact ⟨[], [], rfl, hp⟩
  | cons c cs ih =>
      obtain ⟨a, t, hc, ht⟩ := encodeChar_eq_cons c
      rcases Nat.eq_zero_or_pos p with rfl | hp
      · exact ⟨[], c :: cs, rfl, rfl⟩
      · obtain ⟨p, rfl⟩ : ∃ q, p = q + 1 := ⟨p - 1, by omega⟩
        have hdrop : (encodeChars (c :: cs)).drop (p + 1) = (t ++ encodeChars cs).drop p := by
          rw [encodeChars_cons, hc, List.cons_append, List.drop_succ_cons]
        by_cases hpt : p < t.length
        · -- the offset lies inside the first character
          obtain ⟨b, u, hbu⟩ : ∃ b u, t.drop p = b :: u :=
            List.exists_cons_of_ne_nil (by simpa using hpt)
          have hb : b ∈ t := List.mem_of_mem_drop (hbu ▸ List.mem_cons_self)
          rw [isBoundary, hdrop, List.drop_append_of_le_length (by omega), hbu] at h
          simp [ht b hb] at h
        · have hrest : isBoundary (encodeChars cs) (p - t.length) = true := by
            rw [isBoundary, hdrop, List.drop_append, List.drop_of_length_le (by omega),
              List.nil_append] at h
            rw [isBoundary]
            revert h
            cases (encodeChars cs).drop (p - t.length) with
            | nil =>
                intro h
                have hlen : p + 1 = (encodeChars (c :: cs)).length := by simpa using h
                rw [encodeChars_cons, hc, List.length_append, List.length_cons] at hlen
                simp
                omega
            | cons b u => exact id
          obtain ⟨ds, es, rfl, hlen⟩ := ih hrest
          refine ⟨c :: ds, es, rfl, ?_⟩
          rw [encodeChars_cons, List.length_append, hc, List.length_cons, ← hlen]
          omega

/-- The first byte of a character starts one. -/
theorem isContinuation_head_encodeChar {c : Char} {a : UInt8} {t : Bytes}
    (h : String.utf8EncodeChar c = a :: t) : isContinuation a = false := by
  have hfirst : a.toNat < 128 ∨ 192 ≤ a.toNat := by
    unfold String.utf8EncodeChar at h
    dsimp only at h
    split_ifs at h
    all_goals
      obtain ⟨rfl, -⟩ := List.cons.inj h
      rw [toNat_ofNat_byte (by omega)]
      omega
  rw [Bool.eq_false_iff, Ne, isContinuation_iff]
  omega

/-- A text starts at a boundary. -/
theorem isBoundary_zero (cs : List Char) : isBoundary (encodeChars cs) 0 = true := by
  cases cs with
  | nil => rfl
  | cons c cs =>
      obtain ⟨a, t, hc, -⟩ := encodeChar_eq_cons c
      rw [isBoundary, encodeChars_cons, hc]
      simp [isContinuation_head_encodeChar hc]

theorem le_length_of_isBoundary {bs : Bytes} {p : Nat} (h : isBoundary bs p = true) :
    p ≤ bs.length := by
  by_contra hlt
  rw [isBoundary, List.drop_of_length_le (by omega)] at h
  simp at h
  omega

/-- The bytes between two boundaries of an encoded text are an encoded text. -/
theorem exists_slice_eq_encodeChars {cs : List Char} {p q : Nat}
    (hp : isBoundary (encodeChars cs) p = true) (hq : isBoundary (encodeChars cs) q = true)
    (hpq : p ≤ q) : ∃ ms, ((encodeChars cs).drop p).take (q - p) = encodeChars ms := by
  obtain ⟨ds, es, rfl, rfl⟩ := exists_append_of_isBoundary hp
  obtain ⟨fs, gs, hsplit, rfl⟩ := exists_append_of_isBoundary hq
  rcases List.append_eq_append_iff.1 hsplit with ⟨ms, hfs, hes⟩ | ⟨ms, hds, hgs⟩
  · refine ⟨ms, ?_⟩
    rw [encodeChars_append, List.drop_left, hes, hfs]
    simp
  · have hnil : encodeChars ms = [] := by
      rw [hds, encodeChars_append, List.length_append] at hpq
      exact List.length_eq_zero_iff.1 (by omega)
    refine ⟨[], ?_⟩
    rw [hds, encodeChars_append, hnil]
    simp

end Utf8
end Injection
