import Pkgly.Algorithm.Pool
import Pkgly.Storage.S3.Equiv.S3Storage

/-!
# Probes of ancestors beside writers

`get_path_for_creation` and the writers of objects as processes over one storage, each section
under a mutex and each request to S3 one step.  `note_object_created` holds the lock of the
generation while it pops the key from the memo, so that it is one step; reading the generation,
comparing it and inserting into the memo are sections of their own.

The state also keeps what no code reads: how often `note_object_created` was called in all, which
the generation counts modulo `2 ^ 64`, and the keys whose writers have returned.  A writer returns
with its last note; what it does then (caches, listings) concerns neither the memo nor the objects.
-/

namespace Pkgly.S3

structure ProbedStorage where
  storage : S3Storage
  /-- `creation_probe_generation`. -/
  generation : ℕ
  /-- The number of notes. -/
  noted : ℕ
  /-- The keys whose writers have returned. -/
  returned : List String

namespace ProbedStorage

def start (storage : S3Storage) (generation : ℕ) : ProbedStorage :=
  ⟨storage, generation % 2 ^ 64, generation, []⟩

def noteObjectCreated (s : ProbedStorage) (path : String) : ProbedStorage where
  storage := s.storage.noteObjectCreated path
  generation := (s.generation + 1) % 2 ^ 64
  noted := s.noted + 1
  returned := s.returned

/-- `creation_probes.lock().put(path, ())`. -/
def rememberClear (s : ProbedStorage) (path : String) : ProbedStorage :=
  { s with storage := s.storage.rememberClear path }

def putObject (s : ProbedStorage) (path : String) (object : S3Object) : ProbedStorage :=
  { s with storage := s.storage.putObject path object }

def finish (s : ProbedStorage) (path : String) : ProbedStorage :=
  { s.noteObjectCreated path with returned := path :: s.returned }

end ProbedStorage

/-- Where a probe stands with the first of its pending ancestors. -/
inductive ProbeStage
  /-- Before it looks into the memo. -/
  | look
  /-- Before it reads the generation. -/
  | readGeneration
  /-- Before its request, with the generation and the number of notes that it has read. -/
  | head (generation noted : ℕ)
  /-- Before it compares the generation, after it has found no object. -/
  | compare (generation noted : ℕ)
  /-- Before it inserts into the memo, after the generation was the same. -/
  | insert
  | accepted
  | collision
  | failed
deriving DecidableEq

inductive WriteStage
  | noteBefore
  | put
  | noteAfter
  | returned
  | failed
deriving DecidableEq

inductive Task
  /-- `get_path_for_creation`: the ancestors that are still to be checked. -/
  | probe (pending : List String) (stage : ProbeStage)
  | write (path : String) (object : S3Object) (stage : WriteStage)
deriving DecidableEq

inductive TaskInput
  | getPathForCreation (repository : String) (location : StoragePath)
  | write (path : String) (object : S3Object)

/-- The outcome of a request to S3; one that fails may have been carried out. -/
inductive Outcome
  | ok
  | lost (done : Bool)
deriving DecidableEq

def TaskInput.init : TaskInput → Task
  | .getPathForCreation repository location =>
    .probe (S3Storage.ancestors repository location.components) .look
  | .write path object => .write path object .noteBefore

def Task.next (outcome : Outcome) (s : ProbedStorage) : Task → Option (ProbedStorage × Task)
  | .probe [] .look => some (s, .probe [] .accepted)
  | .probe (path :: rest) .look =>
    if (s.storage.creationProbes.peek path).isSome then some (s, .probe rest .look)
    else some (s, .probe (path :: rest) .readGeneration)
  | .probe (path :: rest) .readGeneration =>
    some (s, .probe (path :: rest) (.head s.generation s.noted))
  | .probe (path :: rest) (.head generation noted) =>
    match outcome with
    | .lost _ => some (s, .probe (path :: rest) .failed)
    | .ok =>
      if s.storage.doesPathExist path then some (s, .probe (path :: rest) .collision)
      else some (s, .probe (path :: rest) (.compare generation noted))
  | .probe (path :: rest) (.compare generation _) =>
    if s.generation = generation then some (s, .probe (path :: rest) .insert)
    else some (s, .probe rest .look)
  | .probe (path :: rest) .insert => some (s.rememberClear path, .probe rest .look)
  | .probe _ _ => none
  | .write path object .noteBefore => some (s.noteObjectCreated path, .write path object .put)
  | .write path object .put =>
    match outcome with
    | .ok => some (s.putObject path object, .write path object .noteAfter)
    | .lost true => some (s.putObject path object, .write path object .failed)
    | .lost false => some (s, .write path object .failed)
  | .write path object .noteAfter => some (s.finish path, .write path object .returned)
  | .write _ _ _ => none

def creationProbes : Program ProbedStorage Task TaskInput Outcome where
  init := TaskInput.init
  next := Task.next

end Pkgly.S3
