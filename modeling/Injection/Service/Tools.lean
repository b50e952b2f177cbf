import Injection.Service.Files

/-! # Tools

What callers outside may ask the service for, with replies as values.  Where a tool answers for the
service, a failure of the service is a reply too.

The tools are the methods of `TransformTools`: `transform_source`, `transform_file`,
`transform_directory` and `supported_languages`.
-/

namespace Injection

/-- What a tool answers. -/
inductive Reply where
  /-- What became of a text. -/
  | text (o : Outcome)
  /-- What became of a file, and whether it was written. -/
  | file (o : Outcome) (written : Bool)
  /-- What became of the files of a directory. -/
  | directory (reports : List Service.FileReport)
  | languages (names : List String)
  /-- The service failed. -/
  | failed (e : ServiceError)
  | fileNotFound (path : String)
  | directoryNotFound (path : String)

namespace Reply

/-- The fields that open the reply of a tool that did its work. -/
def opening (status : String) : List (String × Json) :=
  [("status", .ofString status), ("format_version", .int Record.formatVersion)]

/-- A failure without details. -/
def shortError (code message : String) : Json :=
  .record [("status", .ofString "error"), ("error_code", .ofString code),
    ("error", .ofString message)]

def toJson : Reply → Json
  | .text o => .record (opening "success" ++ o.full)
  | .file o written => .record (opening "success" ++ ("written", .bool written) :: o.full)
  | .directory reports =>
    let failures := reports.countP (·.isFailure)
    .record (opening (if failures = 0 then "success" else "partial") ++
      [("files_processed", .int reports.length),
        ("files_changed", .int (reports.countP (·.isChange))),
        ("files_failed", .int failures), ("files", .arr (reports.map (·.toJson)))])
  | .languages names =>
    .record [("status", .ofString "success"), ("languages", .arr (names.map .ofString))]
  | .failed e => e.report.toJson
  | .fileNotFound path => shortError "FILE_NOT_FOUND" s!"File not found: {path}"
  | .directoryNotFound path => shortError "DIRECTORY_NOT_FOUND" s!"Directory not found: {path}"

end Reply

namespace Service

/-- Answer for a computation of the service: its own failures become replies, under the heading of a
log entry. -/
def answer {σ α : Type} (heading : String) (x : Act σ Failure α) (reply : α → Reply) :
    Act σ Failure Reply := do
  match ← Act.attempt x with
  | .ok a => return reply a
  | .error (.service e) => do
    Act.write .error s!"{heading}: {e.message}"
    return .failed e
  | .error f => Act.fail f

/-- Transform a text. -/
def sourceTool {σ : Type} (host : Host) (s : Service) (source language : String) :
    Act σ Failure Reply :=
  answer "Error transforming source"
    (Act.ofLogged (s.transformText host source language Transform.noFile)) .text

/-- Transform a file. -/
def fileTool (host : Host) (s : Service) (path : String) (language? : Option String)
    (write : Bool) : Act Files Failure Reply := do
  let fs ← Act.state
  let p := Path.ofString path
  if ← Act.ofExcept (host.os.ask .look p (fs.isFile p)) then
    answer s!"Error transforming {path}" (s.transformFile host p language? write) fun o =>
      .file o (write && o.changed)
  else return .fileNotFound path

/-- Transform the files of a directory. -/
def directoryTool (host : Host) (s : Service) (path : String) (write : Bool) :
    Act Files Failure Reply := do
  let fs ← Act.state
  let p := Path.ofString path
  if ← Act.ofExcept (host.os.ask .look p (fs.isDirectory p)) then
    return .directory (← s.transformDirectory host p write)
  else return .directoryNotFound path

/-- List the languages. -/
def languagesTool {σ : Type} (s : Service) : Act σ Failure Reply := return .languages s.languages

end Service

end Injection
