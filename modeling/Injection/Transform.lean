import Injection.Host
import Injection.Pass

/-! # The transform of a source

A source without syntax errors is passed over once and its edits are applied.  If anything fails
there is no output at all.

`Transform.text` is `InjectableTransformer.transform`, and `tree` is `LanguageRegistry.parse` with
`first_error`.  `Outcome` is `TransformResult`; `summary` and `full` are its `to_dict` without and
with the output.
-/

namespace Injection

/-- What became of a source. -/
structure Outcome where
  source : String
  output : String
  language : String
  file : String
  records : List Record

namespace Outcome

def changed (o : Outcome) : Bool := o.output ≠ o.source

/-- The outcome without its texts. -/
def summary (o : Outcome) : List (String × Json) :=
  [("file_path", .ofString o.file), ("language", .ofString o.language),
    ("changed", .bool o.changed), ("records", .arr (o.records.map (·.toJson)))]

/-- The outcome with the output. -/
def full (o : Outcome) : List (String × Json) := o.summary ++ [("output", .ofString o.output)]

end Outcome

namespace Transform

/-- The file name of a source that comes from no file. -/
def noFile : String := "<string>"

/-- The tree of a source without syntax errors. -/
def tree (host : Host) (r : Registry) (source : Bytes) (language file : String) :
    Except Failure Tree :=
  match r.grammar? language with
  | none => .error (.service (.unsupportedLanguage language))
  | some g =>
    let root := host.tree g source
    match root.firstError? with
    | some e => .error (.ofTransform (.unparsable file (some e.line)))
    | none => .ok root

/-- Transform a text. -/
def text (host : Host) (r : Registry) (s : TransformSettings) (source language file : String) :
    Logged Failure Outcome := do
  let bytes := Utf8.encodeString source
  let root ← Logged.ofExcept (tree host r bytes language file)
  let changes ← Pass.run ⟨bytes, s.unknownDependency, s.uidBase, host.depth⟩ root
  let output ← Logged.ofExcept (Edit.apply bytes (Pass.edits changes))
  let records := Pass.records changes
  if !records.isEmpty then
    Logged.write .debug (s!"{file}: annotated " ++ ", ".intercalate (records.map (·.target)))
  let output ← Logged.ofExcept ((Utf8.decode output).mapError .decode)
  return ⟨source, String.ofList output, language, file, records⟩

/-- Transform encoded text. -/
def bytes (host : Host) (r : Registry) (s : TransformSettings) (source : Bytes)
    (language file : String) : Logged Failure Outcome := do
  let cs ← Logged.ofExcept ((Utf8.decode source).mapError .decode)
  text host r s (String.ofList cs) language file

end Transform

end Injection
