/-! # The text of a comment

A comment without its marks: `//` in front of a line comment, `/*` and `*/` around a block comment.
The closing mark is looked for behind the opening one, so the two never share a star.

`Comment.value` is `comment_value`.
-/

namespace Injection.Comment

/-- Drop a closing mark. -/
def dropClosing (cs : List Char) : List Char :=
  if ['*', '/'].isSuffixOf cs then cs.take (cs.length - 2) else cs

/-- The text between the marks. -/
def value : List Char → List Char
  | '/' :: '*' :: cs => dropClosing cs
  | '/' :: '/' :: cs => cs
  | cs => cs

end Injection.Comment
