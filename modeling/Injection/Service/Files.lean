import Injection.Path.Glob
import Injection.Service.Basic

/-! # Transforming files

A file is read, transformed and, if that is asked for, written back when its text has changed.  A
run over a directory takes its files in order, passes over what is ignored or in no supported
language, and reports a failing file without stopping.

A file is emptied before its new text is encoded.

`transformFile` is `transform_file` of `TransformService`: `checkSize`, `fileLanguage` and
`readText` are its steps up to the transform, `previewFile` is all that it does without writing, and
`writeBack` is the rest.  `transformDirectory` is `transform_directory`, with `takes` for the files
it passes over and `reportFile` for what it does with one of the others.
-/

namespace Injection

namespace Service

/-- The number of bytes of a megabyte. -/
def megabyte : Nat := 1024 * 1024

/-- A size in megabytes to two places, a half going to the even neighbour. -/
def megabytes (size : Nat) : Binary64 :=
  .ofDecimal false (Binary64.divEven (size * 100) megabyte) (-2)

/-- Refuse a file that is larger than the limit. -/
def checkSize (s : Service) (file : String) (size : Nat) : Except Failure Unit :=
  if s.settings.maxFileSize.ltRatio size megabyte then
    .error (.service (.fileTooLarge file s.settings.maxFileSize (megabytes size)))
  else .ok ()

/-- The language that is asked for, or that of the file. -/
def fileLanguage (s : Service) (p : Path) (language? : Option String) : Except Failure String :=
  match language?.filter (!·.isEmpty) with
  | some l => .ok l
  | none =>
    match (s.languageOf? p.text).filter (!·.isEmpty) with
    | some l => .ok l
    | none =>
      .error (.service (.unsupportedLanguage (if p.suffix = "" then p.text else p.suffix)))

/-- The encoding of the settings. -/
def codec (host : Host) (s : Service) : Except Failure Codec :=
  (host.codecs s.settings.encoding).mapError .noEncoding

/-- The text of a file. -/
def readText (host : Host) (s : Service) (fs : Files) (p : Path) : Except Failure Text := do
  let size ← host.os.ask .size p (fs.size p)
  s.checkSize p.text size
  if s.settings.encoding.toList.contains '\x00' then throw .nullInEncoding
  let bytes ← host.os.ask .openToRead p (fs.read p)
  let c ← s.codec host
  host.os.ask .read p ((c.decode bytes).mapError .ofCodec)

/-- What becomes of a file, without writing it. -/
def previewFile (host : Host) (s : Service) (fs : Files) (p : Path) (language? : Option String) :
    Logged Failure Outcome := do
  let _ ← Logged.ofExcept s.registry
  let language ← Logged.ofExcept (s.fileLanguage p language?)
  let text ← Logged.ofExcept (s.readText host fs p)
  let source ← Logged.ofExcept ((Utf8.string text).mapError .encode)
  s.transformText host source language p.text

/-- Write the output of a transform back. -/
def writeBack (host : Host) (s : Service) (p : Path) (o : Outcome) : Act Files Failure Unit := do
  Act.ofExcept (host.os.ask .openToWrite p (.ok ()))
  Act.change fun fs => fs.write p []
  let c ← Act.ofExcept (s.codec host)
  let bytes ← Act.ofExcept ((c.encode o.output).mapError .ofCodec)
  Act.change fun fs => fs.write p (host.os.written p bytes)
  Act.ofExcept (host.os.ask .write p (.ok ()))
  Act.write .info s!"Rewrote {p.text} ({o.records.length} injectable declarations)"

/-- Transform a file. -/
def transformFile (host : Host) (s : Service) (p : Path) (language? : Option String)
    (write : Bool) : Act Files Failure Outcome := do
  let fs ← Act.state
  let o ← Act.ofLogged (s.previewFile host fs p language?)
  if write && o.changed then s.writeBack host p o
  return o

/-- What a run over a directory says of one file. -/
inductive FileReport where
  | success (o : Outcome)
  | failed (file : String) (e : ServiceError)
  | unreadable (file reason : String)

namespace FileReport

def toJson : FileReport → Json
  | .success o => .record (("status", .ofString "success") :: o.summary)
  | .failed file e =>
    .record [("file_path", .ofString file), ("status", .ofString "error"),
      ("error_code", .ofString e.report.code), ("error", .ofString e.report.message),
      ("details", .obj e.report.details)]
  | .unreadable file reason =>
    .record [("file_path", .ofString file), ("status", .ofString "error"),
      ("error_code", .ofString "READ_ERROR"), ("error", .ofString reason)]

def isFailure : FileReport → Bool
  | .success _ => false
  | _ => true

def isChange : FileReport → Bool
  | .success o => o.changed
  | _ => false

end FileReport

/-- The report of a file that failed, unless the failure ends the whole run. -/
def reportFailure (file : String) (f : Failure) : Logged Failure FileReport :=
  match f with
  | .service e => do
    Logged.write .error s!"Failed to transform {file}: {e.message}"
    return .failed file e
  | .decode _ | .os _ | .missing _ | .notDirectory _ | .isDirectory _ | .nameTooLong _ => do
    Logged.write .error s!"Failed to read {file}: {f.message}"
    return .unreadable file f.message
  | _ => Logged.fail f

/-- Whether a run over a directory takes the file at `names` below it. -/
def takes (host : Host) (s : Service) (fs : Files) (directory : Path) (names : Names) :
    Except Failure Bool := do
  let p := directory.append names
  if !(← host.os.ask .look p (fs.isFile p)) then return false
  else if ← (Path.mk .none names).ignored s.settings.ignorePatterns then return false
  else return ((s.languageOf? p.text).filter (!·.isEmpty)).isSome

/-- Transform a file of a directory and report on it. -/
def reportFile (host : Host) (s : Service) (p : Path) (write : Bool) :
    Act Files Failure FileReport := do
  match ← Act.attempt (s.transformFile host.inner p none write) with
  | .ok o => return .success o
  | .error f => Act.ofLogged (reportFailure p.text f)

/-- Transform the given files of a directory, one after the other. -/
def transformAll (host : Host) (s : Service) (directory : Path) (write : Bool) :
    List Names → Act Files Failure (List FileReport)
  | [] => return []
  | names :: rest => do
    let fs ← Act.state
    let taken ← Act.ofExcept (s.takes host fs directory names)
    let reports ← if taken then (do return [← s.reportFile host (directory.append names) write])
      else pure []
    return reports ++ (← s.transformAll host directory write rest)

/-- Transform all files of a directory. -/
def transformDirectory (host : Host) (s : Service) (directory : Path) (write : Bool) :
    Act Files Failure (List FileReport) := do
  let _ ← Act.ofExcept s.registry
  let fs ← Act.state
  let names ← Act.ofExcept (host.os.list fs directory)
  s.transformAll host directory write names

end Service

end Injection
