import Injection.Text.Codec

/-! # Character sets

Some encodings that a host may offer, by all their names.  With a mark, one byte order mark in front
of a text is dropped on reading, and one is always written; a part of the mark on its own reads as
nothing.

Raw escapes are an encoding of the first 256 characters by one byte each, and of the others by an
escape with a backslash.  A backslash itself is written as it is, so that a text may hold what is an
escape when it is read again.

The names are those that the setting `encoding` of `TransformConfig` may have.
-/

namespace Injection

inductive Charset where
  | utf8
  | utf8Marked
  | latin1
  | ascii
  | rawEscapes
deriving DecidableEq, Repr

namespace Charset

def all : List Charset := [.utf8, .utf8Marked, .latin1, .ascii, .rawEscapes]

/-- The name of an encoding in messages. -/
def name : Charset → String
  | .utf8 => "utf-8"
  | .utf8Marked => "utf-8-sig"
  | .latin1 => "latin-1"
  | .ascii => "ascii"
  | .rawEscapes => "rawunicodeescape"

/-- The plain form of the name of an encoding. -/
def plainName : Charset → String
  | .utf8 => "utf_8"
  | .utf8Marked => "utf_8_sig"
  | .latin1 => "latin_1"
  | .ascii => "ascii"
  | .rawEscapes => "raw_unicode_escape"

/-- The plain forms of the other names of an encoding. -/
def aliases : Charset → List String
  | .utf8 => ["u8", "utf", "utf8", "utf8_ucs2", "utf8_ucs4", "cp65001"]
  | .utf8Marked | .rawEscapes => []
  | .latin1 =>
    ["8859", "cp819", "csisolatin1", "ibm819", "iso8859", "iso8859_1", "iso_8859_1",
      "iso_8859_1_1987", "iso_ir_100", "l1", "latin", "latin1"]
  | .ascii =>
    ["646", "ansi_x3.4_1968", "ansi_x3_4_1968", "ansi_x3.4_1986", "cp367", "csascii", "ibm367",
      "iso646_us", "iso_646.irv_1991", "iso_ir_6", "us", "us_ascii"]

/-- Whether a character of a name counts; all others only divide its parts. -/
def isNameChar (c : Char) : Bool := c.isAlphanum || c = '.'

/-- The parts of a name in lower case, joined by underscores.  `begun` says that a part stands in
front, and `gap` that it has ended. -/
def plainFrom (begun gap : Bool) : List Char → List Char
  | [] => []
  | c :: cs =>
    if isNameChar c then
      (if begun && gap then ['_'] else []) ++ c.toLower :: plainFrom true false cs
    else plainFrom begun true cs

/-- The plain form of a name. -/
def plain (name : String) : String := String.ofList (plainFrom false false name.toList)

/-- The encoding with a given name, in any case and with its parts divided in any way.  In other
names a point may stand for an underscore. -/
def ofName? (name : String) : Option Charset :=
  let n := plain name
  let undotted := String.ofList (n.toList.map fun c => if c = '.' then '_' else c)
  all.find? fun c => n = c.plainName || c.aliases.contains n || c.aliases.contains undotted

/-- The byte order mark. -/
def mark : Bytes := [0xEF, 0xBB, 0xBF]

/-- Read bytes below 128, the first of them at offset `pos`. -/
def decodeAscii (pos : Nat) : Bytes → Except DecodeFault (List Char)
  | [] => .ok []
  | b :: bs =>
    if b < 0x80 then (Char.ofNat b.toNat :: ·) <$> decodeAscii (pos + 1) bs
    else .error ⟨name .ascii, b, pos, pos + 1, "ordinal not in range(128)"⟩

/-- Drop a byte order mark, or what there is of one. -/
def dropMark (bs : Bytes) : Bytes :=
  if mark.isPrefixOf bs then bs.drop 3
  else if bs.isPrefixOf mark then []
  else bs

/-- The value of a digit in base sixteen. -/
def hexValue? (b : UInt8) : Option Nat :=
  if 0x30 ≤ b && b ≤ 0x39 then some (b.toNat - 0x30)
  else if 0x41 ≤ b && b ≤ 0x46 then some (b.toNat - 0x37)
  else if 0x61 ≤ b && b ≤ 0x66 then some (b.toNat - 0x57)
  else none

/-- The number of digits of an escape, by the letter behind its backslash. -/
def escapeWidth? (b : UInt8) : Option Nat :=
  if b = 0x75 then some 4 else if b = 0x55 then some 8 else none

/-- The reason why an escape has too few digits. -/
def truncated (width : Nat) : String :=
  if width = 4 then "truncated \\uXXXX escape" else "truncated \\UXXXXXXXX escape"

/-- Read raw escapes, of which the first `skip` bytes are consumed already; the first byte is at
offset `pos`.  A backslash that opens no escape takes the byte behind it along. -/
def decodeRaw : Nat → Nat → Bytes → Except DecodeFault Text
  | _, _, [] => .ok []
  | skip + 1, pos, _ :: bs => decodeRaw skip (pos + 1) bs
  | 0, pos, b :: bs =>
    if b ≠ 0x5C then (.char (Char.ofNat b.toNat) :: ·) <$> decodeRaw 0 (pos + 1) bs
    else
      match bs.head?.bind escapeWidth? with
      | some width =>
        let digits := (((bs.drop 1).take width).map hexValue?).takeWhile (·.isSome)
        let n := digits.foldl (fun n d => n * 16 + d.getD 0) 0
        if digits.length < width then
          .error ⟨name .rawEscapes, b, pos, pos + 2 + digits.length, truncated width⟩
        else if 0x10FFFF < n then
          .error ⟨name .rawEscapes, b, pos, pos + 2 + width, "\\Uxxxxxxxx out of range"⟩
        else (CodePoint.ofNat n :: ·) <$> decodeRaw (width + 1) (pos + 1) bs
      | none =>
        let taken := (bs.take 1).map fun b => .char (Char.ofNat b.toNat)
        (.char '\\' :: taken ++ ·) <$> decodeRaw 1 (pos + 1) bs

def decode (c : Charset) (bs : Bytes) : Except DecodeFault Text :=
  match c with
  | .utf8 => (Utf8.decode bs).map Text.ofChars
  | .utf8Marked => (Utf8.decode (dropMark bs)).map Text.ofChars
  | .latin1 => .ok (Text.ofChars (bs.map fun b => Char.ofNat b.toNat))
  | .ascii => (decodeAscii 0 bs).map Text.ofChars
  | .rawEscapes => decodeRaw 0 0 bs

/-- Write characters below `limit`, the first of them at position `pos`. -/
def encodeBelow (charset : Charset) (limit pos : Nat) : List Char → Except EncodeFault Bytes
  | [] => .ok []
  | c :: cs =>
    if c.toNat < limit then (UInt8.ofNat c.toNat :: ·) <$> encodeBelow charset limit (pos + 1) cs
    else
      let run := cs.takeWhile fun c => limit ≤ c.toNat
      .error ⟨charset.name, .char c, pos, pos + 1 + run.length, s!"ordinal not in range({limit})"⟩

/-- A character in raw escapes. -/
def encodeRaw (c : Char) : Bytes :=
  if c.toNat < 256 then [UInt8.ofNat c.toNat]
  else
    let escape := if c.toNat < 0x10000 then 'u' :: Text.hex 4 c.toNat else 'U' :: Text.hex 8 c.toNat
    ('\\' :: escape).map fun c => UInt8.ofNat c.toNat

def encode (c : Charset) (s : String) : Except EncodeFault Bytes :=
  match c with
  | .utf8 => .ok (Utf8.encodeString s)
  | .utf8Marked => .ok (mark ++ Utf8.encodeString s)
  | .latin1 => encodeBelow c 256 0 s.toList
  | .ascii => encodeBelow c 128 0 s.toList
  | .rawEscapes => .ok (s.toList.flatMap encodeRaw)

/-- The encoding as programs take it. -/
def codec (c : Charset) : Codec :=
  ⟨fun bs => (c.decode bs).mapError .decode, fun s => (c.encode s).mapError .encode⟩

/-- These encodings by all their names, and no others. -/
def codecs : Codecs := fun name =>
  match ofName? name with
  | some c => .ok c.codec
  | none => .error s!"unknown encoding: {name}"

end Charset

end Injection
