import Injection.Json.Basic

/-! # Reading JSON

A reader for the strict format with exact complaints.  Each complaint names what was expected and
the place where it was: the number of characters before it, and the line and column that this makes.
A reading function gets the characters that are left and returns those that it leaves, so a place is
known by how many characters are left there.

The three names `NaN`, `Infinity` and `-Infinity` are recognised; `Names.refuse` complains about
them and `Names.accept` reads them as numbers.  Whole numbers have at most `digitLimit` digits, and
arrays and objects are nested no deeper than there is room for, which is the caller's to say.

This is how `DependencyParser._parse_at` reads a literal: `Names.refuse` is its `_reject_constant`.
With `Names.accept` the server reads arguments.
-/

namespace Injection.Json

/-- The greatest number of digits of a whole number. -/
def digitLimit : Nat := 4300

/-- What a complaint about a place is. -/
inductive Complaint where
  | expectingValue
  | expectingName
  | expectingColon
  | expectingComma
  | unterminatedString
  | controlCharacter
  | badEscape
  | badUnitEscape
  | extraData
  | byteOrderMark
deriving DecidableEq, Repr

def Complaint.message : Complaint → String
  | .expectingValue => "Expecting value"
  | .expectingName => "Expecting property name enclosed in double quotes"
  | .expectingColon => "Expecting ':' delimiter"
  | .expectingComma => "Expecting ',' delimiter"
  | .unterminatedString => "Unterminated string starting at"
  | .controlCharacter => "Invalid control character at"
  | .badEscape => "Invalid \\escape"
  | .badUnitEscape => "Invalid \\uXXXX escape"
  | .extraData => "Extra data"
  | .byteOrderMark => "Unexpected UTF-8 BOM (decode using utf-8-sig)"

/-- Why a text is not read: a complaint with the number of characters left at its place, one of the
three names, a whole number with too many digits, or an array or object nested too deeply. -/
inductive Fault where
  | at (what : Complaint) (left : Nat)
  | name (word : String)
  | digits (count : Nat)
  | depth (n : Nesting)
deriving DecidableEq, Repr

/-- The line and the column of the character behind `before`, both counted from one. -/
def lineColumn (before : List Char) : Nat × Nat :=
  (before.count '\n' + 1, (before.reverse.takeWhile (· ≠ '\n')).length + 1)

/-- The message of a fault of the text `cs`. -/
def Fault.message (cs : List Char) : Fault → String
  | .at what left =>
    let pos := cs.length - left
    let (line, column) := lineColumn (cs.take pos)
    s!"{what.message}: line {line} column {column} (char {pos})"
  | .name word => s!"{word} is not a JSON value"
  | .digits count =>
    s!"Exceeds the limit ({digitLimit} digits) for integer string conversion: value has {count} " ++
      "digits; use sys.set_int_max_str_digits() to increase the limit"
  | .depth n => n.message

/-- What the reader does with `NaN`, `Infinity` and `-Infinity`. -/
inductive Names where
  | refuse
  | accept
deriving DecidableEq, Repr

/-- The white space of the format. -/
def isSpace (c : Char) : Bool := c = ' ' || c = '\t' || c = '\n' || c = '\r'

def skipSpace (cs : List Char) : List Char := cs.dropWhile isSpace

/-- The value of a digit in base sixteen. -/
def hexDigit? (c : Char) : Option Nat :=
  if c.isDigit then some (c.toNat - 48)
  else if 'a' ≤ c && c ≤ 'f' then some (c.toNat - 87)
  else if 'A' ≤ c && c ≤ 'F' then some (c.toNat - 55)
  else none

/-- The four digits behind `\u`.  A character must follow them, since a string does not end with an
escape. -/
def unit? : List Char → Option (Nat × List Char)
  | a :: b :: c :: d :: e :: cs => do
    let a ← hexDigit? a
    let b ← hexDigit? b
    let c ← hexDigit? c
    let d ← hexDigit? d
    return (((a * 16 + b) * 16 + c) * 16 + d, e :: cs)
  | _ => none

def isHighHalf (n : Nat) : Bool := 0xD800 ≤ n && n < 0xDC00

def isLowHalf (n : Nat) : Bool := 0xDC00 ≤ n && n < 0xE000

/-- The character behind a backslash that stands for one character. -/
def simpleEscape? : Char → Option Char
  | '"' => some '"'
  | '\\' => some '\\'
  | '/' => some '/'
  | 'b' => some (Char.ofNat 8)
  | 'f' => some (Char.ofNat 12)
  | 'n' => some '\n'
  | 'r' => some '\r'
  | 't' => some '\t'
  | _ => none

/-- What a reading function returns: a value and the characters left. -/
abbrev Reading (α : Type) := Except Fault (α × List Char)

/-- A code point read by an escape, in front of a string. -/
def consPoint (p : CodePoint) (r : Reading Text) : Reading Text :=
  r.map fun (s, cs) => (p :: s, cs)

/-- The rest of a string behind its opening quote; `opening` was left at that quote.  A high half
followed by the escape of a low half is one character. -/
def readString (opening : List Char) : Nat → List Char → Reading Text
  | 0, _ => .error (.at .unterminatedString opening.length)
  | _ + 1, [] => .error (.at .unterminatedString opening.length)
  | fuel + 1, c :: cs =>
    if c = '"' then .ok ([], cs)
    else if c = '\\' then
      match cs with
      | [] => .error (.at .unterminatedString opening.length)
      | 'u' :: ds =>
        match unit? ds with
        | none => .error (.at .badUnitEscape (ds.length + 1))
        | some (n, rest) =>
          if isHighHalf n then
            match rest with
            | '\\' :: 'u' :: es =>
              match unit? es with
              | none => .error (.at .badUnitEscape (es.length + 1))
              | some (m, rest') =>
                if isLowHalf m then
                  consPoint (.char (Char.ofNat (0x10000 + (n - 0xD800) * 0x400 + (m - 0xDC00))))
                    (readString opening fuel rest')
                else consPoint (CodePoint.ofNat n) (readString opening fuel rest)
            | _ => consPoint (CodePoint.ofNat n) (readString opening fuel rest)
          else consPoint (CodePoint.ofNat n) (readString opening fuel rest)
      | e :: ds =>
        match simpleEscape? e with
        | some d => consPoint (.char d) (readString opening fuel ds)
        | none => .error (.at .badEscape (ds.length + 2))
    else if c.toNat < 0x20 then .error (.at .controlCharacter (cs.length + 1))
    else consPoint (.char c) (readString opening fuel cs)

/-- The digits of a whole number: a zero alone, or digits without a leading zero. -/
def wholeDigits : List Char → Option (List Char × List Char)
  | '0' :: cs => some (['0'], cs)
  | c :: cs => if c.isDigit then some ((c :: cs).span Char.isDigit) else none
  | [] => none

/-- The digits behind a decimal point, if at least one follows it. -/
def fractionDigits : List Char → List Char × List Char
  | '.' :: c :: cs => if c.isDigit then (c :: cs).span Char.isDigit else ([], '.' :: c :: cs)
  | cs => ([], cs)

/-- The exponent, if the mark is followed by at least one digit. -/
def exponent? (cs : List Char) : Option (Int × List Char) :=
  match cs with
  | e :: rest =>
    if e = 'e' || e = 'E' then
      let (negative, ds) : Bool × List Char :=
        match rest with
        | '-' :: ds => (true, ds)
        | '+' :: ds => (false, ds)
        | ds => (false, ds)
      match ds.span Char.isDigit with
      | ([], _) => none
      | (digits, after) =>
        let n : Int := natOfDigits digits
        some (if negative then -n else n, after)
    else none
  | [] => none

/-- A number; `cs` is what is left at its sign or first digit. -/
def readNumber (cs : List Char) : Reading Json :=
  let (negative, body) : Bool × List Char :=
    match cs with
    | '-' :: body => (true, body)
    | body => (false, body)
  match wholeDigits body with
  | none => .error (.at .expectingValue cs.length)
  | some (whole, rest) =>
    let (fraction, rest) := fractionDigits rest
    match exponent? rest with
    | some (e, rest) =>
      let digits := natOfDigits (whole ++ fraction)
      .ok (.float (.ofDecimal negative digits (e - fraction.length)), rest)
    | none =>
      if fraction.isEmpty then
        if digitLimit < whole.length then .error (.digits whole.length)
        else
          let n : Int := natOfDigits whole
          .ok (.int (if negative then -n else n), rest)
      else
        let digits := natOfDigits (whole ++ fraction)
        .ok (.float (.ofDecimal negative digits (-fraction.length)), rest)

/-- What is behind the word `w` at the front of `cs`. -/
def after? (w : String) (cs : List Char) : Option (List Char) :=
  if w.toList.isPrefixOf cs then some (cs.drop w.length) else none

/-- One of the three names with the number that it stands for. -/
def readName (names : Names) (name : String) (x : Binary64) (rest : List Char) : Reading Json :=
  match names with
  | .refuse => .error (.name name)
  | .accept => .ok (.float x, rest)

/-- A value that is neither a string, an array nor an object. -/
def readAtom (names : Names) (cs : List Char) : Reading Json :=
  match after? "null" cs with
  | some rest => .ok (.null, rest)
  | none =>
  match after? "true" cs with
  | some rest => .ok (.bool true, rest)
  | none =>
  match after? "false" cs with
  | some rest => .ok (.bool false, rest)
  | none =>
  match after? "NaN" cs with
  | some rest => readName names "NaN" .nan rest
  | none =>
  match after? "Infinity" cs with
  | some rest => readName names "Infinity" (.infinite false) rest
  | none =>
  match after? "-Infinity" cs with
  | some rest => readName names "-Infinity" (.infinite true) rest
  | none => readNumber cs

mutual

/-- A value at the front of the text, with at most `depth` arrays and objects in each other. -/
def readValue (names : Names) (depth : Nat) : Nat → List Char → Reading Json
  | 0, cs => .error (.at .expectingValue cs.length)
  | _ + 1, [] => .error (.at .expectingValue 0)
  | fuel + 1, c :: cs =>
    if c = '"' then
      (readString (c :: cs) fuel cs).map fun (s, rest) => (.str s, rest)
    else if c = '[' then
      match depth with
      | 0 => .error (.depth .array)
      | depth + 1 =>
        match skipSpace cs with
        | ']' :: rest => .ok (.arr [], rest)
        | rest => (readItems names depth fuel rest).map fun (vs, rest) => (.arr vs, rest)
    else if c = '\x7b' then
      match depth with
      | 0 => .error (.depth .object)
      | depth + 1 =>
        match skipSpace cs with
        | '\x7d' :: rest => .ok (.obj [], rest)
        | rest =>
          (readFields names depth fuel rest).map fun (fs, rest) => (.obj (Assoc.ofList fs), rest)
    else readAtom names (c :: cs)

/-- The items of an array from the next one on, and the closing bracket. -/
def readItems (names : Names) (depth : Nat) :
    Nat → List Char → Except Fault (List Json × List Char)
  | 0, cs => .error (.at .expectingValue cs.length)
  | fuel + 1, cs => do
    let (v, rest) ← readValue names depth fuel cs
    match skipSpace rest with
    | ']' :: rest => .ok ([v], rest)
    | ',' :: rest =>
      let (vs, rest) ← readItems names depth fuel (skipSpace rest)
      .ok (v :: vs, rest)
    | rest => .error (.at .expectingComma rest.length)

/-- The fields of an object from the next one on, and the closing brace. -/
def readFields (names : Names) (depth : Nat) :
    Nat → List Char → Except Fault (List (Text × Json) × List Char)
  | 0, cs => .error (.at .expectingName cs.length)
  | fuel + 1, cs =>
    match cs with
    | '"' :: cs => do
      let (k, rest) ← readString ('"' :: cs) fuel cs
      match skipSpace rest with
      | ':' :: rest =>
        let (v, rest) ← readValue names depth fuel (skipSpace rest)
        match skipSpace rest with
        | '\x7d' :: rest => .ok ([(k, v)], rest)
        | ',' :: rest =>
          let (fs, rest) ← readFields names depth fuel (skipSpace rest)
          .ok ((k, v) :: fs, rest)
        | rest => .error (.at .expectingComma rest.length)
      | rest => .error (.at .expectingColon rest.length)
    | cs => .error (.at .expectingName cs.length)

end

/-- Read a whole text, with at most `depth` arrays and objects in each other.  A value takes at
least one character and passes on to its items, which pass on to the first of them without taking
one: twice the length of the text bounds the depth of calls, and there is always enough left for the
characters of a string. -/
def read (names : Names) (depth : Nat) (cs : List Char) : Except Fault Json :=
  match cs with
  | '\ufeff' :: _ => .error (.at .byteOrderMark cs.length)
  | _ =>
    match readValue names depth (2 * cs.length + 1) (skipSpace cs) with
    | .error f => .error f
    | .ok (v, rest) =>
      match skipSpace rest with
      | [] => .ok v
      | rest => .error (.at .extraData rest.length)

end Injection.Json
