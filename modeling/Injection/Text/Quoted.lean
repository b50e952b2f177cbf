import Injection.Text.Basic
import Injection.Text.Printable

/-! # Quoted literals

A text in quotes, on one line and with nothing invisible in it.  The quotes are apostrophes unless
the text holds an apostrophe and no double quote.  The quote in use and the backslash are escaped,
three controls have an escape of their own, and everything else that is not printable is written by
its number.

The message of `MalformedDefaultLiteralError` quotes the literal in this way, and so does the form
in which an `AliasMap` shows itself.
-/

namespace Injection.Quoted

/-- The quote for a text. -/
def quoteFor (t : Text) : Char :=
  if t.contains (.char '\'') && !t.contains (.char '"') then '"' else '\''

/-- A code point by its number: two, four or eight digits, whichever suffices. -/
def byNumber (n : Nat) : List Char :=
  if n < 0x100 then '\\' :: 'x' :: Text.hex 2 n
  else if n < 0x10000 then '\\' :: 'u' :: Text.hex 4 n
  else '\\' :: 'U' :: Text.hex 8 n

/-- One code point between the quotes `q`. -/
def encodePoint (q : Char) : CodePoint → List Char
  | .half h => byNumber (0xD800 + h.val)
  | .char c =>
    if c = q || c = '\\' then ['\\', c]
    else if c = '\n' then ['\\', 'n']
    else if c = '\r' then ['\\', 'r']
    else if c = '\t' then ['\\', 't']
    else if isPrintable c.toNat then [c]
    else byNumber c.toNat

/-- The quoted form of a text. -/
def encode (t : Text) : List Char :=
  let q := quoteFor t
  q :: t.flatMap (encodePoint q) ++ [q]

end Injection.Quoted

namespace Injection

/-- The quoted form of a string. -/
def quoted (s : String) : String := String.ofList (Quoted.encode (Text.ofString s))

end Injection
