import Injection.Act
import Injection.Assoc
import Injection.Error

/-! # Factories

A factory makes a part from arguments by name.  It declares its parameters in order, each with the
interface that it asks for, if it names one, and whether the factory can do without it.  What a
container reads off the signature of a function before it calls the function is in the parameters
here, and the call is `Factory.make`.

A factory can see the container that runs it (`View`) and register something with it
(`Registration`), as one with a parameter for the container does.  What it registers stays, also if
the factory fails behind it.  A factory never asks the container for parts, which would wait for the
request that runs the factory, and it neither starts nor stops the others.

* `Factory.define` accepts a declaration only if the names are words, no name is declared twice, and
  no required parameter stands behind an optional one.
* A factory defined in this way fails before it makes anything when a required argument is missing.

The parameters are what `DIContainer._create_instance` reads off a factory, and `missing?` is its
call without one of them.
-/

namespace Injection

/-- A parameter of a factory and the interface that it asks for, if it names one. -/
structure Parameter where
  name : String
  type? : Option String
  /-- Whether the factory can do without the argument. -/
  optional : Bool
deriving DecidableEq, Repr

/-- What is passed for a parameter. -/
inductive Argument (α : Type) where
  | container
  | part (a : α)
deriving DecidableEq, Repr

/-- A part that a factory made, with what it was made from. -/
structure Creation (α : Type) where
  part : α
  arguments : List (String × Argument α)
deriving DecidableEq, Repr

/-- What is registered with a container: a factory `φ` for an interface, or a part. -/
inductive Registration (φ α : Type) where
  | factory (interface : String) (f : φ) (shared : Bool)
  | part (interface : String) (a : α)

def Registration.interface {φ α : Type} : Registration φ α → String
  | .factory i _ _ => i
  | .part i _ => i

/-- What a factory sees of a container: all that is in it, and of the factories for which interfaces
there are any. -/
structure View (α : Type) where
  factories : List String
  services : List (String × α)
  singletons : List (String × Option α)
  created : List (Creation α)
  started : Bool

/-- What a run of a factory comes to: the state that it leaves, what it registered on its way, and
the part or what it failed with. -/
structure Making (φ σ α : Type) where
  state : σ
  registered : List (Registration φ α)
  outcome : Logged Failure α

/-- How to make and start a part from arguments by name. -/
structure Factory (σ α : Type) where
  params : List Parameter
  make : View α → List (String × Argument α) → σ → Making (Factory σ α) σ α

namespace Parameter

/-- Whether a character may stand in the name of a parameter; beyond ASCII every character may. -/
def isNameChar (c : Char) : Bool := c.isAlphanum || c = '_' || 0x80 ≤ c.toNat

/-- Whether a text is the name of a parameter: a word that does not start with a digit. -/
def isName (name : String) : Bool :=
  match name.toList with
  | [] => false
  | c :: cs => isNameChar c && !c.isDigit && cs.all isNameChar

/-- Check that all names are words. -/
def checkNames (ps : List Parameter) : Except Failure Unit :=
  match ps.find? fun p => !isName p.name with
  | some p => .error (.notAName p.name)
  | none => .ok ()

/-- Check order and names of parameters behind those named in `seen`; `relaxed` says that one of
these is optional. -/
def checkOrder (seen : List String) (relaxed : Bool) : List Parameter → Except Failure Unit
  | [] => .ok ()
  | p :: ps =>
    if relaxed && !p.optional then .error .requiredBehindOptional
    else if seen.contains p.name then .error (.repeatedParameter p.name)
    else checkOrder (p.name :: seen) (relaxed || p.optional) ps

/-- Check a declaration of parameters. -/
def check (ps : List Parameter) : Except Failure Unit := do
  checkNames ps
  checkOrder [] false ps

/-- The first required parameter without an argument. -/
def missing? {α : Type} (ps : List Parameter) (arguments : List (String × Argument α)) :
    Option Parameter :=
  ps.find? fun p => !p.optional && !Assoc.has p.name arguments

end Parameter

namespace Factory

variable {σ α : Type}

/-- The factory that makes a part by `make` and leaves the container alone. -/
def ofAct (ps : List Parameter) (make : List (String × Argument α) → Act σ Failure α) :
    Factory σ α where
  params := ps
  make _ arguments s := ⟨(make arguments s).1, [], (make arguments s).2⟩

/-- The factory with the given parameters that makes a part by `make`. -/
def define (ps : List Parameter) (make : List (String × Argument α) → Act σ Failure α) :
    Except Failure (Factory σ α) := do
  Parameter.check ps
  return ofAct ps fun arguments =>
    match Parameter.missing? ps arguments with
    | some p => Act.fail (.missingArgument p.name)
    | none => make arguments

end Factory

end Injection
