import Injection.Text.Utf8

/-! # Encodings

An encoding reads bytes as a text and writes a string as bytes.  Programs that read and write files
take the encodings by name and know nothing else about them: an encoding may refuse bytes or a
string, may read a text with lone surrogate halves, and need not read what it wrote.

`transform_file` looks a codec up for the setting `encoding` each time it opens a file; `decode` is
its reading and `encode` its writing.
-/

namespace Injection

/-- Why an encoding gives up: at a place of the bytes, at a place of the text, or on the whole. -/
inductive CodecFault where
  | decode (f : DecodeFault)
  | encode (f : EncodeFault)
  | whole (message : String)

structure Codec where
  decode : Bytes → Except CodecFault Text
  encode : String → Except CodecFault Bytes

/-- An encoding reads whatever it wrote. -/
def Codec.Faithful (c : Codec) : Prop :=
  ∀ s bs, c.encode s = .ok bs → c.decode bs = .ok (Text.ofString s)

/-- The encodings by name; for the name of none, the reason. -/
abbrev Codecs := String → Except String Codec

end Injection
