import Injection.Container.Factory

/-! # Containers

A container hands out parts by the names of their interfaces.  A part is given to the container as
it is, or made by a factory when it is asked for; what the parameters of the factory ask for is
obtained first.  A part of a shared interface is made once and kept.

Parts are of any type, and making one may change a state outside the container.  A factory may also
register something with the container that runs it; this is all that it can do to the container.

A request for a part asks for the parts that the factory needs, and so on; `depth` is how many
requests there is room for in each other.  Factories that need each other in a circle use it up.

The operations are those of `DIContainer`: `register` is `register_factory`, `keep` is
`register_instance`, `obtain` is `_get` with `_create_instance`, `startAll` is `initialize_all`, and
`stop` is `shutdown`; `get` and `isRegistered` are `get` and `is_registered`.
-/

namespace Injection

/-- How to stop parts.  Stopping a part does nothing to the container. -/
structure Stopping (σ α : Type) where
  /-- The name of a part in messages. -/
  name : α → String
  stop : α → Act σ Failure Unit

structure Container (σ α : Type) where
  factories : List (String × Factory σ α)
  /-- The parts at hand. -/
  services : List (String × α)
  /-- The shared interfaces, each with its part if it has one. -/
  singletons : List (String × Option α)
  /-- What was made, in order. -/
  created : List (Creation α)
  started : Bool

namespace Container

variable {σ α : Type}

def empty : Container σ α := ⟨[], [], [], [], false⟩

/-- Register a factory; a shared interface is waiting for its part from then on. -/
def register (c : Container σ α) (interface : String) (f : Factory σ α) (shared : Bool) :
    Container σ α :=
  { c with
    factories := Assoc.assign interface f c.factories
    singletons := if shared then Assoc.assign interface none c.singletons else c.singletons }

/-- Keep a part for an interface. -/
def keep (c : Container σ α) (interface : String) (a : α) : Container σ α :=
  { c with
    services := Assoc.assign interface a c.services
    singletons := Assoc.assign interface (some a) c.singletons }

/-- Accept what a factory registers. -/
def accept (c : Container σ α) : Registration (Factory σ α) α → Container σ α
  | .factory interface f shared => c.register interface f shared
  | .part interface a => c.keep interface a

/-- Note a part that was made. -/
def note (c : Container σ α) (x : Creation α) : Container σ α :=
  { c with created := c.created ++ [x] }

def isRegistered (c : Container σ α) (interface : String) : Bool :=
  Assoc.has interface c.services || Assoc.has interface c.factories

/-- What a factory sees of a container. -/
def view (c : Container σ α) : View α :=
  ⟨c.factories.map (·.1), c.services, c.singletons, c.created, c.started⟩

/-- The name of the parameter for which the container itself is passed. -/
def ownName : String := "container"

/-- A failure of making a part: an exception that is not a service error is wrapped into one. -/
def wrap (interface : String) : Failure → Failure
  | .service e => .service e
  | f => if f.isException then .service (.creationFailed interface f.message) else f

/-- A computation on a container and the state outside it. -/
abbrev Task (σ α β : Type) := Act (Container σ α × σ) Failure β

def container : Task σ α (Container σ α) := return (← Act.state).1

def update (f : Container σ α → Container σ α) : Task σ α Unit :=
  Act.change fun (c, s) => (f c, s)

/-- Run a computation on the state outside. -/
def outside {β : Type} (x : Act σ Failure β) : Task σ α β := fun (c, s) =>
  let (s, r) := x s
  ((c, s), r)

/-- Run a factory; the container accepts what it registers, whether it fails or not. -/
def runFactory (f : Factory σ α) (arguments : List (String × Argument α)) : Task σ α α :=
  fun (c, s) =>
    let m := f.make c.view arguments s
    ((m.registered.foldl accept c, m.state), m.outcome)

/-- Make a part by a factory from its arguments, and note that it was made. -/
def create (interface : String) (f : Factory σ α) (arguments : List (String × Argument α)) :
    Task σ α α := do
  match ← Act.attempt (runFactory f arguments) with
  | .error e => Act.fail (wrap interface e)
  | .ok a => do
    update (·.note ⟨a, arguments⟩)
    return a

/-- The arguments for parameters: what is registered for their interfaces, by `obtain`. -/
def arguments (obtain : String → Task σ α α) :
    List Parameter → Task σ α (List (String × Argument α))
  | [] => return []
  | p :: ps =>
    match if p.name = ownName then none else p.type? with
    | none => arguments obtain ps
    | some type => do
      let c ← container
      if c.isRegistered type then do
        let a ← obtain type
        let rest ← arguments obtain ps
        return (p.name, .part a) :: rest
      else arguments obtain ps

/-- The container as an argument, for a factory that has a parameter of that name. -/
def ownArgument (ps : List Parameter) : List (String × Argument α) :=
  if ps.any (·.name = ownName) then [(ownName, .container)] else []

/-- Obtain a part, with room for `depth` requests in each other. -/
def obtain : Nat → String → Task σ α α
  | 0, _ => Act.fail .endless
  | depth + 1, interface => do
    let c ← container
    match c.services.lookup interface with
    | some a => return a
    | none =>
      match c.factories.lookup interface with
      | none =>
        Act.fail (.service (.dependency s!"No factory registered for {interface}" (some interface)))
      | some f => do
        let args ← arguments (obtain depth) f.params
        let a ← create interface f (ownArgument f.params ++ args)
        if Assoc.has interface c.singletons then update (·.keep interface a)
        return a

/-- Hand out a part. -/
def get (depth : Nat) (interface : String) : Task σ α α := obtain depth interface

/-- Obtain the parts of shared interfaces that have none. -/
def fill (depth : Nat) : List String → Task σ α Unit
  | [] => return ()
  | interface :: rest => do
    let c ← container
    match c.singletons.lookup interface with
    | some none => do
      let _ ← get depth interface
      fill depth rest
    | _ => fill depth rest

/-- Obtain the parts of all shared interfaces. -/
def startAll (depth : Nat) : Task σ α Unit := do
  let c ← container
  if c.started then return ()
  else do
    fill depth (c.singletons.map (·.1))
    update fun c => { c with started := true }

/-- Stop parts one after the other.  An exception is logged and does not keep the others running;
what is ended from outside ends here. -/
def stopParts (k : Stopping σ α) : List α → Task σ α Unit
  | [] => return ()
  | a :: rest => do
    match ← Act.attempt (outside (k.stop a)) with
    | .ok () => pure ()
    | .error e =>
      if e.isException then Act.write .error s!"Error shutting down {k.name a}: {e.message}"
      else Act.fail e
    stopParts k rest

/-- Stop all that was made, in reverse order, and forget all parts; the factories stay. -/
def stop (k : Stopping σ α) : Task σ α Unit := do
  let c ← container
  stopParts k (c.created.map (·.part)).reverse
  update fun c => { c with services := [], singletons := [], created := [], started := false }

end Container

end Injection
