import Injection.Container.Basic
import Injection.Service.Tools

/-! # The wiring of the services

The container of the application: the settings as they are, the transform service as a shared part,
and the tools, made anew for everyone who asks for them.

`build` is `create_container`; `serviceFactory` and `toolsFactory` are `create_transform_service`
and `create_transform_tools`, the first together with the `initialize` that the container calls.
-/

namespace Injection

/-- A part of the application.  Services and tools are told apart by their numbers. -/
inductive Part where
  | settings (s : Settings)
  | transformSettings (s : TransformSettings)
  | service (number : Nat)
  | tools (number service : Nat)
deriving DecidableEq, Repr

/-- The services that were made, by number, and the number of tools. -/
structure Bench where
  services : List Service
  toolCount : Nat

namespace Bench

def empty : Bench := ⟨[], 0⟩

/-- Run a computation on one of the services. -/
def onService (number : Nat) (x : Act Service Failure Unit) : Act Bench Failure Unit := fun b =>
  match b.services[number]? with
  | none => (b, ⟨[], .ok ()⟩)
  | some s =>
    let (s, r) := x s
    ({ b with services := b.services.set number s }, r)

end Bench

namespace Wiring

def settingsName : String := "Config"

def transformSettingsName : String := "TransformConfig"

def serviceName : String := "TransformService"

def toolsName : String := "TransformTools"

/-- The name of a part. -/
def nameOf : Part → String
  | .settings _ => settingsName
  | .transformSettings _ => transformSettingsName
  | .service _ => serviceName
  | .tools _ _ => toolsName

/-- A factory was not given what it needs. -/
def lacks (factory param : String) : Failure :=
  .other s!"{factory}() missing 1 required positional argument: '{param}'"

/-- Make the transform service and start it. -/
def serviceFactory (loader : Loader) : Factory Bench Part :=
  .ofAct [⟨"transform_config", some transformSettingsName, false⟩] fun arguments =>
    match arguments.lookup "transform_config" with
    | some (.part (.transformSettings s)) => do
      let b ← Act.state
      let number := b.services.length
      Act.change fun b => { b with services := b.services ++ [Service.ofSettings s] }
      Bench.onService number (Service.start loader)
      return .service number
    | _ => Act.fail (lacks "create_transform_service" "transform_config")

/-- Make the tools. -/
def toolsFactory : Factory Bench Part :=
  .ofAct [⟨"transform_service", some serviceName, false⟩] fun arguments =>
    match arguments.lookup "transform_service" with
    | some (.part (.service n)) => do
      let b ← Act.state
      Act.change fun b => { b with toolCount := b.toolCount + 1 }
      return .tools b.toolCount n
    | _ => Act.fail (lacks "create_transform_tools" "transform_service")

/-- Services are stopped; nothing else needs to be. -/
def stopping : Stopping Bench Part where
  name := nameOf
  stop
    | .service n => Bench.onService n Service.stop
    | _ => return ()

/-- The registrations. -/
def registered (s : Settings) (loader : Loader) : Container Bench Part :=
  ((((Container.empty).keep settingsName (.settings s)).keep transformSettingsName
    (.transformSettings s.transform)).register serviceName (serviceFactory loader) true).register
    toolsName toolsFactory false

/-- Make the container of the application and its shared parts. -/
def build (depth : Nat) (s : Settings) (loader : Loader) : Container.Task Bench Part Unit := do
  Container.update fun _ => registered s loader
  Container.startAll depth

end Wiring

end Injection
