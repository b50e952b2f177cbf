/-! # The injectable directive

`@injectable`, optionally followed by one space or tab and an alias of ASCII letters and digits.
The token counts only where no identifier character is glued to its end, and the first such token of
a text decides: two blanks before a word make the word ordinary text.  A token with something glued
to it is passed over as a whole, and the search goes on behind it.

`Injectable` is `InjectableDirective` and `Injectable.scan` is `scan_injectable`.
-/

namespace Injection

/-- ASCII letters and digits, the underscore and the dollar sign. -/
def isWordChar (c : Char) : Bool := c.isAlphanum || c = '_' || c = '$'

/-- A space or a tab. -/
def isGap (c : Char) : Bool := c = ' ' || c = '\t'

/-- What is behind `token` at the front of the text. -/
def afterToken? (token cs : List Char) : Option (List Char) :=
  if token.isPrefixOf cs then some (cs.drop token.length) else none

/-- Whether the text starts with an identifier character. -/
def startsWithWord : List Char → Bool
  | c :: _ => isWordChar c
  | [] => false

/-- A declaration is to be injectable, under its alias if it has one. -/
structure Injectable where
  alias? : Option String
deriving DecidableEq, Repr

namespace Injectable

def token : List Char := "@injectable".toList

/-- The alias in the text behind the token. -/
def aliasOf : List Char → Option String
  | c :: cs =>
    if isGap c then
      match cs.takeWhile Char.isAlphanum with
      | [] => none
      | name => some (String.ofList name)
    else none
  | [] => none

/-- The first injectable directive of a text of which the first `skip` characters are passed over
already. -/
def scanFrom : Nat → List Char → Option Injectable
  | _, [] => none
  | skip + 1, _ :: cs => scanFrom skip cs
  | 0, c :: cs =>
    match afterToken? token (c :: cs) with
    | none => scanFrom 0 cs
    | some rest =>
      if startsWithWord rest then scanFrom (token.length - 1) cs else some ⟨aliasOf rest⟩

/-- The first injectable directive of a text. -/
def scan (cs : List Char) : Option Injectable := scanFrom 0 cs

end Injectable

end Injection
