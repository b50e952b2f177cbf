import Injection.Log

/-! # Computations on a state

An `Act` changes a state, keeps a log and may fail.  What it did to the state before a failure stays
done.

The methods of `TransformService`, `TransformTools`, `DIContainer` and `InjectableCodemodMCP` are
such computations.
-/

namespace Injection

/-- A computation on states `σ` with failures `ε`. -/
def Act (σ ε α : Type) : Type := σ → σ × Logged ε α

namespace Act

variable {σ ε ε' α β : Type}

/-- Run one computation and then the next one, unless the first one fails. -/
def andThen (x : Act σ ε α) (f : α → Act σ ε β) : Act σ ε β := fun s =>
  match x s with
  | (s, ⟨log, .error e⟩) => (s, ⟨log, .error e⟩)
  | (s, ⟨log, .ok a⟩) =>
    let (s, r) := f a s
    (s, ⟨log ++ r.log, r.result⟩)

instance : Monad (Act σ ε) where
  pure a := fun s => (s, ⟨[], .ok a⟩)
  bind := andThen

/-- The state. -/
def state : Act σ ε σ := fun s => (s, ⟨[], .ok s⟩)

/-- Change the state. -/
def change (f : σ → σ) : Act σ ε Unit := fun s => (f s, ⟨[], .ok ()⟩)

/-- A computation that leaves the state alone. -/
def ofLogged (x : Logged ε α) : Act σ ε α := fun s => (s, x)

def ofExcept (x : Except ε α) : Act σ ε α := ofLogged (.ofExcept x)

def fail (e : ε) : Act σ ε α := ofLogged (.fail e)

/-- Write one entry. -/
def write (level : Level) (message : String) : Act σ ε Unit := ofLogged (.write level message)

/-- Run a computation and go on with its result, even if that is a failure. -/
def attempt (x : Act σ ε α) : Act σ ε' (Except ε α) := fun s =>
  let (s, r) := x s
  (s, ⟨r.log, .ok r.result⟩)

@[simp] theorem pure_run (a : α) (s : σ) : (pure a : Act σ ε α) s = (s, ⟨[], .ok a⟩) := rfl

@[simp] theorem state_run (s : σ) : (state : Act σ ε σ) s = (s, ⟨[], .ok s⟩) := rfl

@[simp] theorem change_run (f : σ → σ) (s : σ) :
    (change f : Act σ ε Unit) s = (f s, ⟨[], .ok ()⟩) := rfl

@[simp] theorem ofLogged_run (x : Logged ε α) (s : σ) : ofLogged x s = (s, x) := rfl

@[simp] theorem attempt_run (x : Act σ ε α) (s : σ) :
    (attempt x : Act σ ε' (Except ε α)) s = ((x s).1, ⟨(x s).2.log, .ok (x s).2.result⟩) := rfl

/-- Behind a computation that succeeds the next one starts from the state it left. -/
theorem bind_run_ok {x : Act σ ε α} {f : α → Act σ ε β} {s : σ} {a : α}
    (h : (x s).2.result = .ok a) :
    (x >>= f) s = ((f a (x s).1).1, ⟨(x s).2.log ++ (f a (x s).1).2.log,
      (f a (x s).1).2.result⟩) := by
  show andThen x f s = _
  unfold andThen
  rcases hx : x s with ⟨t, log, r⟩
  rw [hx] at h
  cases h
  rfl

/-- Nothing is run behind a computation that fails. -/
theorem bind_run_error {x : Act σ ε α} {f : α → Act σ ε β} {s : σ} {e : ε}
    (h : (x s).2.result = .error e) : (x >>= f) s = ((x s).1, ⟨(x s).2.log, .error e⟩) := by
  show andThen x f s = _
  unfold andThen
  rcases hx : x s with ⟨t, log, r⟩
  rw [hx] at h
  cases h
  rfl

end Act

end Injection
