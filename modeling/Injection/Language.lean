import Injection.Path.Basic
import Injection.Settings.Basic
import Injection.Text.Case

/-! # Languages

A grammar has a name and perhaps a short one; case does not matter in either.  A registry holds the
grammars that could be loaded.  The language of a file is the first one of the settings that has its
extension.

`Registry` is `LanguageRegistry`: `grammar?` is `get_parser`, `isSupported` is `is_supported`,
`languages` is `supported_languages`, and `languageOf?` is `get_language_from_extension`, here and
in `TransformConfig`.
-/

namespace Injection

inductive Grammar where
  | javascript
  | typescript
  | tsx
deriving DecidableEq, Repr

namespace Grammar

def all : List Grammar := [.javascript, .typescript, .tsx]

def name : Grammar → String
  | .javascript => "javascript"
  | .typescript => "typescript"
  | .tsx => "tsx"

/-- The names under which a grammar is known. -/
def names : Grammar → List String
  | .javascript => ["javascript", "js"]
  | .typescript => ["typescript", "ts"]
  | .tsx => ["tsx"]

end Grammar

/-- The language of a file by its extension. -/
def TransformSettings.languageOf? (s : TransformSettings) (path : String) : Option String :=
  let extension := lowerCase (Path.extension path)
  (s.languages.find? fun l => l.2.contains extension).map (·.1)

/-- The grammars at hand, and the languages that files are taken for. -/
structure Registry where
  settings : TransformSettings
  grammars : List Grammar

namespace Registry

/-- The grammar that a language name stands for. -/
def grammar? (r : Registry) (language : String) : Option Grammar :=
  r.grammars.find? (·.names.contains (lowerCase language))

def isSupported (r : Registry) (language : String) : Bool := (r.grammar? language).isSome

/-- All names of languages, sorted. -/
def languages (r : Registry) : List String :=
  (r.grammars.flatMap (·.names)).mergeSort fun a b => a ≤ b

/-- The language of a file, if it is supported. -/
def languageOf? (r : Registry) (path : String) : Option String :=
  (r.settings.languageOf? (Path.ofString path).text).filter fun l =>
    !l.isEmpty && r.isSupported l

end Registry

end Injection
