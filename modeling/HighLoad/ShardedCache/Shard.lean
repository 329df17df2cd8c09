import HighLoad.Lib.Transition
import HighLoad.Lib.KeyedLog

/-!
# One shard: storage, task queue, worker thread, destructor

`Shard.step` gives the steps of `Shard` in `cache.h`. A step of the worker is one access to state shared with other
threads: a read of `stop`, the acquisition of `tasks_mutex`, the evaluation of the wait predicate, the release and the
blocking of `wait`, the pop, the call of a task. The critical section of `push_task` touches only `tasks`, which all
others touch under `tasks_mutex`, so it is one step, enabled while the worker does not hold the mutex.

A `std::function` in the queue is the lambda of `set_async`, `remove_async` or `get_async` with its captures (`Task`).
Every step does one of four things (`step_cases`): queue a task, take the front task in hand, call the task in hand, or
neither touch the data nor the queue.
-/

namespace HighLoad.ShardedCache

open Transition

/-- A lambda given to `push_task`, with its captures; `promise` is the address of the shared promise. -/
inductive Task (K V : Type) where
  | set (key : K) (value : V)
  | remove (key : K)
  | get (key : K) (promise : Nat)
  deriving DecidableEq, Repr

/-- The shared state of a promise. -/
inductive Promise (V : Type) where
  | unallocated
  | pending
  | ready (value : Option V)
  deriving DecidableEq, Repr

/-- Where the worker is in `worker_loop`. -/
inductive Pc (K V : Type) where
  /-- About to evaluate `while (!stop)`. -/
  | loopHead
  /-- About to acquire `tasks_mutex`, on entry or after waking. -/
  | lock
  /-- Holding the mutex, about to evaluate the predicate of `wait`. -/
  | wait
  /-- The predicate was false: about to release the mutex and block. -/
  | block
  | blocked
  /-- `wait` returned, holding the mutex. -/
  | waited
  /-- The mutex released, about to call `task`. -/
  | call (task : Task K V)
  | exited
  deriving DecidableEq, Repr

/-- How far `~Shard` is. -/
inductive Dtor where
  | alive
  | stopped
  | notified
  | joined
  deriving DecidableEq, Repr

structure Shard (K V : Type) where
  storage : K → Option V
  tasks : List (Task K V)
  stop : Bool
  worker : Pc K V
  promises : Nat → Promise V
  /-- Calls of `push_task` between the release of the mutex and `notify_one`. -/
  notifies : Nat
  dtor : Dtor
  /-- History: the tasks called so far. No step reads it. -/
  ran : List (Task K V)

section Defs

variable {K V : Type}

def Task.key : Task K V → K
  | .set k _ => k
  | .remove k => k
  | .get k _ => k

/-- What a task does to the entry of its key. -/
def Task.eff : Task K V → Option V → Option V
  | .set _ v, _ => some v
  | .remove _, _ => none
  | .get _ _, o => o

/-- The entries after a sequence of calls on one sequential map. -/
def mapAfter [DecidableEq K] (l : List (Task K V)) : K → Option V := KeyedLog.replay Task.key Task.eff none l

def Pc.inHand : Pc K V → List (Task K V)
  | .call t => [t]
  | _ => []

def Pc.holdsMutex : Pc K V → Bool
  | .wait | .block | .waited => true
  | _ => false

/-- A notification reaches the worker only while it is blocked. -/
def Pc.notify : Pc K V → Pc K V
  | .blocked => .lock
  | pc => pc

/-- How many tasks the worker still pops before it reads `stop` again. -/
def Pc.popsLeft : Pc K V → Nat
  | .lock | .wait | .block | .blocked | .waited => 1
  | _ => 0

@[simp] theorem Pc.inHand_notify (pc : Pc K V) : pc.notify.inHand = pc.inHand := by cases pc <;> rfl

@[simp] theorem Pc.popsLeft_notify (pc : Pc K V) : pc.notify.popsLeft = pc.popsLeft := by cases pc <;> rfl

/-- The steps of a shard other than `push_task`'s critical section. -/
inductive Sys where
  | notifyOne
  | worker
  | spuriousWakeup
  | storeStop
  | notifyAll
  | join
  deriving DecidableEq, Repr

inductive Act (K V : Type) where
  | push (task : Task K V)
  | sys (e : Sys)
  deriving DecidableEq, Repr

namespace Shard

/-- A shard whose worker has just started. -/
def init : Shard K V where
  storage := fun _ => none
  tasks := []
  stop := false
  worker := .loopHead
  promises := fun _ => .unallocated
  notifies := 0
  dtor := .alive
  ran := []

def get (s : Shard K V) (key : K) : Option V := s.storage key

variable [DecidableEq K]

def set (s : Shard K V) (key : K) (value : V) : Shard K V :=
  { s with storage := Function.update s.storage key (some value) }

def remove (s : Shard K V) (key : K) : Shard K V := { s with storage := Function.update s.storage key none }

/-- The body of a lambda. -/
def call (s : Shard K V) : Task K V → Shard K V
  | .set k v => s.set k v
  | .remove k => s.remove k
  | .get k p => { s with promises := Function.update s.promises p (.ready (s.get k)) }

/-- The promise of a `get_async` is allocated before its task is pushed, at an address not in use. -/
def fresh (s : Shard K V) : Task K V → Bool
  | .get _ p => match s.promises p with
    | .unallocated => true
    | _ => false
  | _ => true

def allocate (s : Shard K V) : Task K V → Nat → Promise V
  | .get _ p => Function.update s.promises p .pending
  | _ => s.promises

/-- `push_task` up to the release of `tasks_mutex`. -/
def pushTask (s : Shard K V) (t : Task K V) : Shard K V :=
  { s with tasks := s.tasks ++ [t], promises := s.allocate t, notifies := s.notifies + 1 }

/-- The next step of `worker_loop`; none while blocked or after the return. -/
def workerStep (s : Shard K V) : Option (Shard K V) :=
  match s.worker with
  | .loopHead => some { s with worker := if s.stop then .exited else .lock }
  | .lock => some { s with worker := .wait }
  | .wait => some { s with worker := if !s.tasks.isEmpty || s.stop then .waited else .block }
  | .block => some { s with worker := .blocked }
  | .blocked => none
  | .waited =>
    match s.tasks with
    | [] => some { s with worker := if s.stop then .exited else .loopHead }
    | t :: ts => some { s with tasks := ts, worker := .call t }
  | .call t => some { s.call t with worker := .loopHead, ran := s.ran ++ [t] }
  | .exited => none

/-- The steps of a shard. Every `push_task` returns before `~Shard` starts. -/
def step (s : Shard K V) : Act K V → Option (Shard K V)
  | .push t =>
    if !s.worker.holdsMutex && s.dtor = .alive && s.fresh t then some (s.pushTask t) else none
  | .sys .notifyOne =>
    if s.notifies = 0 then none else some { s with notifies := s.notifies - 1, worker := s.worker.notify }
  | .sys .worker => s.workerStep
  | .sys .spuriousWakeup =>
    match s.worker with
    | .blocked => some { s with worker := .lock }
    | _ => none
  | .sys .storeStop =>
    if s.dtor = .alive ∧ s.notifies = 0 then some { s with stop := true, dtor := .stopped } else none
  | .sys .notifyAll =>
    if s.dtor = .stopped then some { s with worker := s.worker.notify, dtor := .notified } else none
  | .sys .join =>
    match s.worker with
    | .exited => if s.dtor = .notified then some { s with dtor := .joined } else none
    | _ => none

end Shard

/-- The tasks pushed along a list of labels, in order. -/
def pushed (as : List (Act K V)) : List (Task K V) :=
  as.filterMap fun
    | .push t => some t
    | .sys _ => none

@[simp] theorem pushed_nil : pushed ([] : List (Act K V)) = [] := rfl

theorem pushed_append (as bs : List (Act K V)) : pushed (as ++ bs) = pushed as ++ pushed bs := List.filterMap_append

@[simp] theorem pushed_push (t : Task K V) : pushed [.push t] = [t] := rfl

@[simp] theorem pushed_sys (e : Sys) : pushed [(.sys e : Act K V)] = [] := rfl

end Defs

end HighLoad.ShardedCache
