import Injection.Act
import Injection.Error

/-! # Life cycle of a service

A service is started and stopped, and each of that is logged.  Starting it again changes nothing.

`start` and `stop` are `initialize` and `shutdown` of `BaseService`.
-/

namespace Injection.Lifecycle

variable {σ : Type}

/-- Start a service by `setup`, unless it has been started. -/
def start (name : String) (started : Bool) (setup : Act σ Failure Unit) : Act σ Failure Unit :=
  if started then Act.write .warning s!"{name} already initialized"
  else do
    Act.write .info s!"Initializing {name}"
    match ← Act.attempt setup with
    | .ok () => Act.write .info s!"{name} ready"
    | .error e => do
      if e.isException then Act.write .error s!"Failed to initialize {name}: {e.message}"
      Act.fail e

/-- Stop a service by `teardown`, if it has been started. -/
def stop (name : String) (started : Bool) (teardown : Act σ Failure Unit) : Act σ Failure Unit :=
  if started then do
    Act.write .info s!"Shutting down {name}"
    teardown
  else pure ()

end Injection.Lifecycle
