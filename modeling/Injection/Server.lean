import Injection.Container.Wiring
import Injection.Json.Delivery
import Injection.Json.Reader

/-! # The server

A server offers the four tools by name, with arguments as JSON values.  It can be started, which
wires its services, and stopped.  The tools are offered from the first start on.

An argument that asks for a text takes a string only.  For any other argument a string that reads as
null, an array or an object stands for that value; this is found out for all arguments before any of
them is checked.

`Server` is `InjectableCodemodMCP`: `start` and `stop` are `initialize` and `shutdown`, `offers` is
what `_register_tools` registers, and `call` is a call of one of these tools.
-/

namespace Injection

/-- A tool and what it is to do. -/
inductive Request where
  | source (source language : String)
  | file (path : String) (write : Bool) (language? : Option String)
  | directory (path : String) (write : Bool)
  | languages

/-- Why a call is not answered. -/
inductive CallFailure where
  | unknownTool (name : String)
  | invalidArguments
  | toolFailed (tool : String) (f : Failure)

/-- The message of a refused call; arguments are refused without one. -/
def CallFailure.message? : CallFailure → Option String
  | .unknownTool name => some s!"Unknown tool: {name}"
  | .invalidArguments => none
  | .toolFailed tool f => some s!"Error executing tool {tool}: {f.message}"

/-- A tool as the server offers it. -/
structure Offer where
  name : String
  arguments : List String
  required : List String
deriving DecidableEq, Repr

namespace Request

/-- The tools, sorted by name, with their argument names sorted. -/
def offers : List Offer :=
  [⟨"supported_languages", [], []⟩,
    ⟨"transform_directory", ["directory", "write"], ["directory"]⟩,
    ⟨"transform_file", ["file_path", "language", "write"], ["file_path"]⟩,
    ⟨"transform_source", ["language", "source"], ["source"]⟩]

/-- A text. -/
def asText : Json → Option String
  | .str t => t.toString?
  | _ => none

/-- What a value stands for where no plain text is asked for.  A text that is not JSON stands for
itself; one that is, but goes beyond the limits of the reader, is a failure. -/
def unfold (depth : Nat) : Json → Except Failure Json
  | .str t =>
    match t.toString? with
    | none => .ok (.str t)
    | some s =>
      match Json.read .accept depth s.toList with
      | .ok .null => .ok .null
      | .ok (.arr vs) => .ok (.arr vs)
      | .ok (.obj fs) => .ok (.obj fs)
      | .ok _ => .ok (.str t)
      | .error (.depth n) => .error (.tooDeep n)
      | .error (.digits n) => .error (.other ((Json.Fault.digits n).message s.toList))
      | .error _ => .ok (.str t)
  | v => .ok v

/-- The arguments with what those of the given names stand for. -/
def unfoldAll (depth : Nat) (names : List String) : Json → Except Failure Json
  | .obj fs => do
    let fs ← fs.mapM fun (k, v) =>
      if names.contains k.shown then (unfold depth v).map fun v => (k, v) else .ok (k, v)
    return .obj fs
  | v => .ok v

/-- A text or nothing. -/
def asTextOrNull : Json → Option (Option String)
  | .null => some none
  | v => (asText v).map some

/-- The words for yes and no. -/
def ofWord (word : String) : Option Bool :=
  if ["1", "on", "t", "true", "y", "yes"].contains word then some true
  else if ["0", "off", "f", "false", "n", "no"].contains word then some false
  else none

/-- Yes or no: a truth value, zero or one, or a word in any case. -/
def asBool : Json → Option Bool
  | .bool b => some b
  | .int 0 => some false
  | .int 1 => some true
  | .float x =>
    if x.isZero then some false
    else if x = .ofDecimal false 1 0 then some true
    else none
  | .str t => t.toString?.bind fun s => ofWord (String.ofList (s.toList.map Char.toLower))
  | _ => none

/-- An argument that has to be there. -/
def required {α : Type} (arguments : Json) (name : String) (read : Json → Option α) : Option α :=
  (arguments.field? name).bind read

/-- An argument that may be left out. -/
def withDefault {α : Type} (arguments : Json) (name : String) (fallback : α)
    (read : Json → Option α) : Option α :=
  match arguments.field? name with
  | some v => read v
  | none => some fallback

/-- The names of the arguments of a tool that ask for something else than a text. -/
def foldedArguments : String → List String
  | "transform_file" => ["language", "write"]
  | "transform_directory" => ["write"]
  | _ => []

/-- The request that the arguments of a tool make, if they are valid; nothing for an unknown tool.
-/
def ofArguments? (tool : String) (arguments : Json) : Option (Option Request) :=
  match tool with
  | "transform_source" => some do
    let source ← required arguments "source" asText
    let language ← withDefault arguments "language" "javascript" asText
    return .source source language
  | "transform_file" => some do
    let path ← required arguments "file_path" asText
    let write ← withDefault arguments "write" false asBool
    let language? ← withDefault arguments "language" none asTextOrNull
    return .file path write language?
  | "transform_directory" => some do
    let path ← required arguments "directory" asText
    let write ← withDefault arguments "write" false asBool
    return .directory path write
  | "supported_languages" => some (some .languages)
  | _ => none

/-- Read a request. -/
def read (depth : Nat) (tool : String) (arguments : Json) : Except CallFailure Request :=
  match unfoldAll depth (foldedArguments tool) arguments with
  | .error f => .error (.toolFailed tool f)
  | .ok arguments =>
    match ofArguments? tool arguments with
    | none => .error (.unknownTool tool)
    | some none => .error .invalidArguments
    | some (some r) => .ok r

/-- Do what is asked for. -/
def answer (host : Host) (s : Service) : Request → Act Files Failure Reply
  | .source text language => s.sourceTool host text language
  | .file path write language? => s.fileTool host path language? write
  | .directory path write => s.directoryTool host path write
  | .languages => s.languagesTool

end Request

structure Server where
  settings : Settings
  bench : Bench
  container? : Option (Container Bench Part)
  /-- The number of the service behind the tools, once they are offered. -/
  target? : Option Nat

namespace Server

def ofSettings (s : Settings) : Server := ⟨s, .empty, none, none⟩

/-- The name under which the server is known. -/
def name (s : Server) : String :=
  if s.settings.serverName = "" then "FastMCP" else s.settings.serverName

/-- Run a computation on a container and the services, and keep the container if it succeeds. -/
def wire (x : Container.Task Bench Part Part) : Act Server Failure Part := fun server =>
  match x (Container.empty, server.bench) with
  | ((c, bench), ⟨log, .ok a⟩) =>
    ({ server with bench := bench, container? := some c }, ⟨log, .ok a⟩)
  | ((_, bench), ⟨log, .error e⟩) => ({ server with bench := bench }, ⟨log, .error e⟩)

/-- Wire the services and offer the tools. -/
def start (depth : Nat) (loader : Loader) : Act Server Failure Unit := do
  let server ← Act.state
  Act.write .info s!"Initializing {server.settings.serverName} MCP server..."
  let part ← wire (do
    Wiring.build depth server.settings loader
    Container.get depth Wiring.toolsName)
  match part with
  | .tools _ n => Act.change fun s => { s with target? := some n }
  | _ => pure ()
  Act.write .info "Server initialized successfully"

/-- Stop what the container made. -/
def stopContainer : Act Server Failure Unit := fun server =>
  match server.container? with
  | none => (server, ⟨[], .ok ()⟩)
  | some c =>
    let ((c, bench), r) := Container.stop Wiring.stopping (c, server.bench)
    ({ server with bench := bench, container? := some c }, r)

def stop : Act Server Failure Unit := do
  Act.write .info "Shutting down server..."
  stopContainer
  Act.write .info "Server shut down complete"

/-- The tools that are offered now. -/
def offers (s : Server) : List Offer := if s.target?.isSome then Request.offers else []

/-- The service behind the tools. -/
def service? (s : Server) : Option Service := s.target?.bind fun n => s.bench.services[n]?

/-- What the caller receives of a reply. -/
def deliver (reply : Reply) : Except Failure Json :=
  match reply.toJson.delivered? with
  | some v => .ok v
  | none => .error .undeliverable

/-- Call a tool. -/
def call (host : Host) (s : Server) (tool : String) (arguments : Json) :
    Act Files CallFailure Json :=
  match s.service? with
  | none => Act.fail (.unknownTool tool)
  | some service =>
    match Request.read host.depth tool arguments with
    | .error e => Act.fail e
    | .ok request => do
      let reply := do
        let reply ← request.answer host service
        Act.ofExcept (deliver reply)
      match ← Act.attempt reply with
      | .ok v => return v
      | .error f => Act.fail (.toolFailed tool f)

end Server

end Injection
