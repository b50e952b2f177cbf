import Injection.Text.Basic

/-! # UTF-8 with exact fault positions

Decoding reports the first ill-formed sequence: where it starts, how many bytes belong to it and why
it is ill-formed.  A byte that can start no sequence is one fault of length one.  A sequence cut
short by a byte that cannot continue it ends before that byte.  A sequence cut short by the end of
the input runs to that end.

Encoding fails only on lone surrogate halves and reports the first run of them.

`InjectableTransformer.transform` encodes the source and decodes the output in this way, and
`SourceEditor.apply` encodes the texts of the edits.
-/

namespace Injection

/-- Why and where bytes could not be decoded; the faulty bytes are `start … stop - 1`. -/
structure DecodeFault where
  codec : String
  byte : UInt8
  start : Nat
  stop : Nat
  reason : String
deriving DecidableEq, Repr

namespace DecodeFault

def message (f : DecodeFault) : String :=
  if f.stop = f.start + 1 then
    let byte := String.ofList (Text.hex 2 f.byte.toNat)
    s!"'{f.codec}' codec can't decode byte 0x{byte} in position {f.start}: {f.reason}"
  else
    s!"'{f.codec}' codec can't decode bytes in position {f.start}-{f.stop - 1}: {f.reason}"

end DecodeFault

/-- Why and where a text could not be encoded; the faulty code points are `start … stop - 1`. -/
structure EncodeFault where
  codec : String
  point : CodePoint
  start : Nat
  stop : Nat
  reason : String
deriving DecidableEq, Repr

namespace EncodeFault

/-- A code point by its number: two, four or eight digits, whichever suffices. -/
def shownPoint (p : CodePoint) : String :=
  let n := p.value
  if n < 0x100 then "\\x" ++ String.ofList (Text.hex 2 n)
  else if n < 0x10000 then "\\u" ++ String.ofList (Text.hex 4 n)
  else "\\U" ++ String.ofList (Text.hex 8 n)

def message (f : EncodeFault) : String :=
  if f.stop = f.start + 1 then
    let point := shownPoint f.point
    s!"'{f.codec}' codec can't encode character '{point}' in position {f.start}: {f.reason}"
  else
    s!"'{f.codec}' codec can't encode characters in position {f.start}-{f.stop - 1}: {f.reason}"

end EncodeFault

namespace Utf8

/-- A byte `10xxxxxx`. -/
def isContinuation (b : UInt8) : Bool := 0x80 ≤ b && b < 0xC0

/-- Whether `b` may follow the first byte `a` of a sequence of three. -/
def continues3 (a b : UInt8) : Bool :=
  isContinuation b && (if a = 0xE0 then 0xA0 ≤ b else if a = 0xED then b < 0xA0 else true)

/-- Whether `b` may follow the first byte `a` of a sequence of four. -/
def continues4 (a b : UInt8) : Bool :=
  isContinuation b && (if a = 0xF0 then 0x90 ≤ b else if a = 0xF4 then b < 0x90 else true)

/-- The six bits that a continuation byte carries. -/
def payload (b : UInt8) : Nat := b.toNat % 64

def invalidStart (a : UInt8) (pos : Nat) : DecodeFault :=
  ⟨"utf-8", a, pos, pos + 1, "invalid start byte"⟩

/-- A sequence that stops being one after `len` bytes. -/
def invalidContinuation (a : UInt8) (pos len : Nat) : DecodeFault :=
  ⟨"utf-8", a, pos, pos + len, "invalid continuation byte"⟩

/-- A sequence of which only `len` bytes are there. -/
def unexpectedEnd (a : UInt8) (pos len : Nat) : DecodeFault :=
  ⟨"utf-8", a, pos, pos + len, "unexpected end of data"⟩

/-- Decode the bytes that start at offset `pos`. -/
def decodeFrom (pos : Nat) : Bytes → Except DecodeFault (List Char)
  | [] => .ok []
  | a :: s =>
    if a < 0x80 then
      (Char.ofNat a.toNat :: ·) <$> decodeFrom (pos + 1) s
    else if a < 0xC2 then
      .error (invalidStart a pos)
    else if a < 0xE0 then
      match s with
      | [] => .error (unexpectedEnd a pos 1)
      | b :: s =>
        if isContinuation b then
          (Char.ofNat (a.toNat % 32 * 64 + payload b) :: ·) <$> decodeFrom (pos + 2) s
        else .error (invalidContinuation a pos 1)
    else if a < 0xF0 then
      match s with
      | [] => .error (unexpectedEnd a pos 1)
      | b :: s =>
        if continues3 a b then
          match s with
          | [] => .error (unexpectedEnd a pos 2)
          | c :: s =>
            if isContinuation c then
              (Char.ofNat (a.toNat % 16 * 4096 + payload b * 64 + payload c) :: ·) <$>
                decodeFrom (pos + 3) s
            else .error (invalidContinuation a pos 2)
        else .error (invalidContinuation a pos 1)
    else if a < 0xF5 then
      match s with
      | [] => .error (unexpectedEnd a pos 1)
      | b :: s =>
        if continues4 a b then
          match s with
          | [] => .error (unexpectedEnd a pos 2)
          | c :: s =>
            if isContinuation c then
              match s with
              | [] => .error (unexpectedEnd a pos 3)
              | d :: s =>
                if isContinuation d then
                  (Char.ofNat (a.toNat % 8 * 262144 + payload b * 4096 + payload c * 64 +
                    payload d) :: ·) <$> decodeFrom (pos + 4) s
                else .error (invalidContinuation a pos 3)
            else .error (invalidContinuation a pos 2)
        else .error (invalidContinuation a pos 1)
    else .error (invalidStart a pos)

/-- Decode a whole input. -/
def decode (bs : Bytes) : Except DecodeFault (List Char) := decodeFrom 0 bs

/-- The encoding of a string. -/
def encodeString (s : String) : Bytes := s.toList.flatMap String.utf8EncodeChar

/-- The number of lone halves at the front of a text. -/
def halves : Text → Nat
  | .half _ :: t => halves t + 1
  | _ => 0

/-- Encode the text that starts at code point `pos`. -/
def encodeFrom (pos : Nat) : Text → Except EncodeFault Bytes
  | [] => .ok []
  | .char c :: t => (String.utf8EncodeChar c ++ ·) <$> encodeFrom (pos + 1) t
  | .half h :: t =>
    .error ⟨"utf-8", .half h, pos, pos + 1 + halves t, "surrogates not allowed"⟩

/-- Encode a whole text. -/
def encode (t : Text) : Except EncodeFault Bytes := encodeFrom 0 t

/-- The string that a text is, if it has an encoding. -/
def string (t : Text) : Except EncodeFault String := (encode t).map fun _ => t.shown

end Utf8

end Injection
