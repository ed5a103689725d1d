import StackMachine.Fault

/-!
# Threads and mutexes

The registry of hosted threads and mutexes.  Threads and mutexes draw their numbers from one
counter, so no number is used twice.  A thread stays in the registry until it is joined, which
reports how its work ended; joining a number that is not there does nothing.
-/

namespace StackMachine

/-- How a thread's work ends. -/
inductive Outcome where
  | finished
  | failed (fault : Fault)
  | panicked
  deriving DecidableEq, Repr

/-- What joining a thread with this outcome reports. -/
def Outcome.report (id : Word) : Outcome → Except Cause Unit
  | .finished => .ok ()
  | .failed fault =>
    .error (.thread ("thread " ++ Numeral.signedDecimal id.toInt ++ " failed: " ++ fault.message))
  | .panicked => .error (.thread ("thread " ++ Numeral.signedDecimal id.toInt ++ " panicked"))

/-- Unjoined threads with their work, mutexes with their lock state, and the next number.  Zero
numbers nothing. -/
structure Registry (τ : Type) where
  threads : List (Word × τ) := []
  mutexes : List (Word × Bool) := []
  next : Word := 1
  deriving Repr

namespace Registry

variable {τ : Type}

/-- Registers a thread and answers its number. -/
def spawn (r : Registry τ) (work : τ) : Word × Registry τ :=
  (r.next, { r with threads := r.threads ++ [(r.next, work)], next := r.next + 1 })

/-- The number of unjoined threads. -/
def live (r : Registry τ) : Nat := r.threads.length

/-- The work of an unjoined thread. -/
def work? (r : Registry τ) (id : Word) : Option τ := r.threads.lookup id

/-- Forgets a thread. -/
def remove (r : Registry τ) (id : Word) : Registry τ :=
  { r with threads := r.threads.filter fun entry => entry.1 != id }

/-- Replaces the work of a thread. -/
def setWork (r : Registry τ) (id : Word) (work : τ) : Registry τ :=
  { r with
    threads := r.threads.map fun entry => if entry.1 == id then (id, work) else entry }

/-- Registers an unlocked mutex and answers its number. -/
def newMutex (r : Registry τ) : Word × Registry τ :=
  (r.next, { r with mutexes := r.mutexes ++ [(r.next, false)], next := r.next + 1 })

def mutexState (r : Registry τ) (id : Word) : Except Cause Bool :=
  match r.mutexes.lookup id with
  | some locked => .ok locked
  | none => .error (.thread ("unknown mutex " ++ Numeral.signedDecimal id.toInt))

def setMutex (r : Registry τ) (id : Word) (locked : Bool) : Registry τ :=
  { r with
    mutexes := r.mutexes.map fun entry => if entry.1 == id then (id, locked) else entry }

/-- Locks a mutex; `none` when it is locked already and the caller has to wait. -/
def lock (r : Registry τ) (id : Word) : Except Cause (Option (Registry τ)) := do
  if ← r.mutexState id then return none
  return some (r.setMutex id true)

/-- Unlocks a locked mutex. -/
def unlock (r : Registry τ) (id : Word) : Except Cause (Registry τ) := do
  if ← r.mutexState id then return r.setMutex id false
  throw (.thread ("mutex " ++ Numeral.signedDecimal id.toInt ++ " is not locked"))

end Registry

namespace Registry

/-! ### Threads whose outcome is known -/

/-- Joins a thread. -/
def join (r : Registry Outcome) (id : Word) : Except Cause Unit × Registry Outcome :=
  match r.work? id with
  | some outcome => (outcome.report id, r.remove id)
  | none => (.ok (), r)

/-- Joins threads in turn and reports the first failure. -/
def joinEach (r : Registry Outcome) : List Word → Except Cause Unit × Registry Outcome
  | [] => (.ok (), r)
  | id :: rest =>
    let (first, r) := r.join id
    let (later, r) := r.joinEach rest
    (match first with
      | .error cause => .error cause
      | .ok () => later, r)

/-- Joins every thread, also after a failure, and reports the first failure. -/
def joinAll (r : Registry Outcome) : Except Cause Unit × Registry Outcome :=
  r.joinEach (r.threads.map Prod.fst)

end Registry

end StackMachine
