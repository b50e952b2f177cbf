import Injection.Json.Basic
import Injection.Number.Shortest
import Injection.Text.Codec
import Injection.Text.Quoted

/-! # Failures

Every failure is a cause.  A `TransformError` says why a source cannot be transformed, a
`ServiceError` also why a service cannot do its work, and a `Failure` adds what the services do not
answer for: the file system, the encodings and the patterns.  The wording stands here only.

A service error has a report: its message, a code, and details under fixed names.

`ServiceError` and `TransformError` are the classes of these names with their subclasses, one
constructor each, and `report` is what these make of their arguments, up to `to_dict`.
-/

namespace Injection

/-- What a service error tells its caller. -/
structure Report where
  message : String
  code : String
  details : List (Text × Json)

/-- The report as a value. -/
def Report.toJson (r : Report) : Json :=
  .record [("status", .ofString "error"), ("error_code", .ofString r.code),
    ("error", .ofString r.message), ("details", .obj r.details)]

/-- Why a source cannot be transformed. -/
inductive TransformError where
  /-- A cause given by its message alone. -/
  | general (message : String) (code : Option String) (details : List (Text × Json))
  /-- An edit starts before the end of the edit in front of it. -/
  | overlap (start stop : Int)
  /-- The default of a dependency is not a JSON text. -/
  | malformedDefault (param literal reason : String)
  /-- An exported declarator binds no plain identifier. -/
  | unresolvableExport (declarator : String) (line : Option Int)
  /-- Dependencies are given for parameters that are not there. -/
  | unknownDependency (target : String) (params : List String)
  /-- The source has a syntax error. -/
  | unparsable (file : String) (line : Option Int)

/-- Why a service cannot do its work. -/
inductive ServiceError where
  /-- A cause given by its message alone. -/
  | general (message : String) (code : Option String) (details : List (Text × Json))
  | configuration (message : String) (key : Option String)
  | initialization (service reason : String)
  | notInitialized (service : String)
  | dependency (message : String) (name : Option String)
  | unsupportedLanguage (language : String)
  /-- A file is larger than the limit; both in megabytes. -/
  | fileTooLarge (file : String) (limit size : Binary64)
  /-- A factory, or the start of what it made, failed. -/
  | creationFailed (name reason : String)
  | transform (e : TransformError)

/-- A code that is given and not empty, or else the default one. -/
def codeOr (fallback : String) (code : Option String) : String :=
  match code with
  | some c => if c.isEmpty then fallback else c
  | none => fallback

/-- A detail that is there only when a name is given and not empty. -/
def optionalDetail (key : String) (value : Option String) : List (Text × Json) :=
  match value with
  | some v => if v.isEmpty then [] else [(Text.ofString key, .ofString v)]
  | none => []

/-- Details under fixed names. -/
def detailsOf (fs : List (String × Json)) : List (Text × Json) :=
  fs.map fun f => (Text.ofString f.1, f.2)

def lineJson : Option Int → Json
  | some n => .int n
  | none => .null

/-- The words `intro` and a line number, if there is one other than zero. -/
def atLine (intro : String) : Option Int → String
  | some n => if n = 0 then "" else intro ++ toString n
  | none => ""

def TransformError.report : TransformError → Report
  | .general message code details => ⟨message, codeOr "TRANSFORM_ERROR" code, details⟩
  | .overlap start stop =>
    ⟨s!"Overlapping edits at byte {start}", "TRANSFORM_ERROR",
      detailsOf [("start", .int start), ("end", .int stop)]⟩
  | .malformedDefault param literal reason =>
    ⟨s!"Malformed default literal for parameter '{param}': {quoted literal} ({reason})",
      "MALFORMED_DEFAULT_LITERAL",
      detailsOf [("param", .ofString param), ("literal", .ofString literal),
        ("reason", .ofString reason)]⟩
  | .unresolvableExport declarator line =>
    ⟨s!"Cannot derive an export identifier from '{declarator}'" ++ atLine " at line " line,
      "UNRESOLVABLE_EXPORT_IDENTIFIER",
      detailsOf [("declarator", .ofString declarator), ("line", lineJson line)]⟩
  | .unknownDependency target params =>
    ⟨s!"Dependency directives on '{target}' name unknown parameters: " ++ ", ".intercalate params,
      "UNKNOWN_DEPENDENCY",
      detailsOf [("target", .ofString target), ("params", .arr (params.map .ofString))]⟩
  | .unparsable file line =>
    ⟨s!"Failed to parse {file}" ++ atLine ": syntax error near line " line, "SOURCE_PARSE_ERROR",
      detailsOf [("file", .ofString file), ("line", lineJson line)]⟩

def ServiceError.report : ServiceError → Report
  | .general message code details => ⟨message, codeOr "SERVICE_ERROR" code, details⟩
  | .configuration message key =>
    ⟨message, "CONFIGURATION_ERROR", optionalDetail "config_key" key⟩
  | .initialization service reason =>
    ⟨s!"Failed to initialize {service}: {reason}", "INITIALIZATION_ERROR",
      detailsOf [("service", .ofString service), ("reason", .ofString reason)]⟩
  | .notInitialized service =>
    ⟨s!"{service} is not initialized", "NOT_INITIALIZED",
      detailsOf [("service", .ofString service)]⟩
  | .dependency message name => ⟨message, "DEPENDENCY_ERROR", optionalDetail "dependency" name⟩
  | .unsupportedLanguage language =>
    ⟨s!"Unsupported language: {language}", "UNSUPPORTED_LANGUAGE",
      detailsOf [("language", .ofString language)]⟩
  | .fileTooLarge file limit size =>
    ⟨s!"{file} exceeds {limit.text}MB", "FILE_TOO_LARGE",
      detailsOf [("file", .ofString file), ("size_mb", .float size)]⟩
  | .creationFailed name reason =>
    ⟨s!"Failed to create instance of {name}: {reason}", "INSTANCE_CREATION_FAILED",
      detailsOf [("interface", .ofString name), ("error", .ofString reason)]⟩
  | .transform e => e.report

def ServiceError.message (e : ServiceError) : String := e.report.message

/-- Whatever an operation can fail with. -/
inductive Failure where
  | service (e : ServiceError)
  | decode (f : DecodeFault)
  | encode (f : EncodeFault)
  /-- An encoding gives up bytes or a text as a whole. -/
  | codec (message : String)
  /-- The operating system refuses a step. -/
  | os (message : String)
  /-- There is nothing at the path. -/
  | missing (path : String)
  /-- The path leads through something that is not a directory. -/
  | notDirectory (path : String)
  /-- The path names a directory where a file is needed. -/
  | isDirectory (path : String)
  /-- The path, or a name in it, is too long. -/
  | nameTooLong (path : String)
  /-- The path has a null character. -/
  | nullInPath
  /-- The name of an encoding has a null character. -/
  | nullInEncoding
  /-- There is no encoding for the name that was asked for. -/
  | noEncoding (message : String)
  /-- An ignore pattern has no parts. -/
  | emptyPattern
  /-- Requests for parts are nested deeper than there is room for. -/
  | endless
  /-- A parameter of a factory has a name that is no word. -/
  | notAName (name : String)
  /-- Two parameters of a factory have the same name. -/
  | repeatedParameter (name : String)
  /-- A required parameter of a factory stands behind an optional one. -/
  | requiredBehindOptional
  /-- A factory is not given an argument that it requires. -/
  | missingArgument (name : String)
  /-- A text nests values deeper than there is room to read them. -/
  | tooDeep (n : Json.Nesting)
  /-- A value nests others deeper than there is room to write them. -/
  | tooDeepToWrite
  /-- A reply nests values deeper than they are delivered. -/
  | undeliverable
  /-- A component failed with this message. -/
  | other (message : String)
  /-- A component was ended from outside, in the middle of what it did. -/
  | interrupted (message : String)

/-- Whether a failure is an exception of the component that failed.  One that is ended from outside
goes through all that is there for exceptions. -/
def Failure.isException : Failure → Bool
  | .interrupted _ => false
  | _ => true

def Failure.message : Failure → String
  | .service e => e.message
  | .decode f => f.message
  | .encode f => f.message
  | .codec message => message
  | .os message => message
  | .missing path => s!"[Errno 2] No such file or directory: {quoted path}"
  | .notDirectory path => s!"[Errno 20] Not a directory: {quoted path}"
  | .isDirectory path => s!"[Errno 21] Is a directory: {quoted path}"
  | .nameTooLong path => s!"[Errno 36] File name too long: {quoted path}"
  | .nullInPath => "embedded null byte"
  | .nullInEncoding => "embedded null character"
  | .noEncoding message => message
  | .emptyPattern => "empty pattern"
  | .endless => "maximum recursion depth exceeded"
  | .notAName name => s!"{quoted name} is not a valid parameter name"
  | .repeatedParameter name => s!"duplicate parameter name: {quoted name}"
  | .requiredBehindOptional => "non-default argument follows default argument"
  | .missingArgument name => s!"missing a required argument: {quoted name}"
  | .tooDeep n => n.message
  | .tooDeepToWrite => "maximum recursion depth exceeded while encoding a JSON object"
  | .undeliverable =>
    "Error serializing to JSON: ValueError: Maximum serialization depth exceeded"
  | .other message => message
  | .interrupted message => message

/-- How a failure of a transform is a failure at large. -/
def Failure.ofTransform (e : TransformError) : Failure := .service (.transform e)

/-- How a failure of an encoding is a failure at large. -/
def Failure.ofCodec : CodecFault → Failure
  | .decode f => .decode f
  | .encode f => .encode f
  | .whole message => .codec message

end Injection
