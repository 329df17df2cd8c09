import HighLoad.Lib.Transition

/-!
# The thread pool of the HTTP server

`Pool.step` gives the steps of `ThreadPool` in `thread_pool.cpp`, with `n` workers. A step of a worker is the
acquisition of `mtx`, the evaluation of the wait predicate, the release and the blocking of `wait`, the rest of the
critical section, or the run of a job. `mtx` names the worker that holds the mutex; the critical sections of `enqueue`
and of the destructor are one step each, enabled while no worker holds it.

Every step is one of those of `Pool.Step` (`step_inv`).
-/

namespace HighLoad.ThreadPool

open Transition

/-- Where a worker is in its `while (true)`. -/
inductive Pc (J : Type) where
  /-- About to acquire `mtx`, at the head of the loop or after waking. -/
  | lock
  /-- Holding the mutex, about to evaluate the predicate of `wait`. -/
  | wait
  /-- The predicate was false: about to release the mutex and block. -/
  | block
  | blocked
  /-- `wait` returned, holding the mutex. -/
  | waited
  /-- The mutex released, about to run `task`. -/
  | run (task : J)
  | returned
  deriving DecidableEq, Repr

/-- How far the destructor is. -/
inductive Dtor where
  | alive
  /-- `stop` is set, `notify_all` is to come. -/
  | stopped
  /-- `notify_all` is over and the first `joined` workers are joined. -/
  | joining (joined : Nat)
  deriving DecidableEq, Repr

structure Pool (n : Nat) (J : Type) where
  pc : Fin n → Pc J
  tasks : List J
  stop : Bool
  mtx : Option (Fin n)
  /-- Calls of `enqueue` between the release of the mutex and `notify_one`. -/
  notifies : Nat
  dtor : Dtor
  /-- History: the jobs taken from the queue, each with its worker. No step reads it. -/
  dequeued : List (Fin n × J)
  /-- History: the jobs that have returned, each with its worker. No step reads it. -/
  ran : List (Fin n × J)

inductive Label (n : Nat) (J : Type) where
  /-- The critical section of `enqueue`. -/
  | enqueue (job : J)
  /-- `notify_one` of an `enqueue`; it wakes a blocked worker, if there is one. -/
  | notifyOne (woken : Option (Fin n))
  | worker (i : Fin n)
  | spuriousWakeup (i : Fin n)
  /-- The critical section of the destructor. -/
  | storeStop
  | notifyAll
  | join
  deriving DecidableEq, Repr

section Defs

variable {n : Nat} {J : Type}

def Pc.holdsMutex : Pc J → Bool
  | .wait | .block | .waited => true
  | _ => false

/-- The job in the hands of a worker. -/
def Pc.inHand : Pc J → List J
  | .run t => [t]
  | _ => []

/-- A notification reaches a worker only while it is blocked. -/
def Pc.notify : Pc J → Pc J
  | .blocked => .lock
  | pc => pc

@[simp] theorem Pc.holdsMutex_notify (pc : Pc J) : pc.notify.holdsMutex = pc.holdsMutex := by cases pc <;> rfl

@[simp] theorem Pc.inHand_notify (pc : Pc J) : pc.notify.inHand = pc.inHand := by cases pc <;> rfl

/-- No worker is blocked. -/
def Pool.noneBlocked (s : Pool n J) : Bool := (List.finRange n).all fun i => match s.pc i with
  | .blocked => false
  | _ => true

namespace Pool

/-- The threads have started. -/
def init (n : Nat) (J : Type) : Pool n J where
  pc := fun _ => .lock
  tasks := []
  stop := false
  mtx := none
  notifies := 0
  dtor := .alive
  dequeued := []
  ran := []

def goto (s : Pool n J) (i : Fin n) (pc : Pc J) (mtx : Option (Fin n)) : Pool n J :=
  { s with pc := Function.update s.pc i pc, mtx }

/-- The next step of worker `i`; none while it is blocked, while another holds the mutex it wants, or after its
return. `front` of an empty queue has no step either. -/
def workerStep (s : Pool n J) (i : Fin n) : Option (Pool n J) :=
  match s.pc i with
  | .lock =>
    match s.mtx with
    | none => some (s.goto i .wait (some i))
    | some _ => none
  | .wait => some (s.goto i (if s.stop || !s.tasks.isEmpty then .waited else .block) s.mtx)
  | .block => some (s.goto i .blocked none)
  | .blocked => none
  | .waited =>
    match s.tasks with
    | [] => if s.stop then some (s.goto i .returned none) else none
    | t :: ts => some { s.goto i (.run t) none with tasks := ts, dequeued := s.dequeued ++ [(i, t)] }
  | .run t => some { s.goto i .lock s.mtx with ran := s.ran ++ [(i, t)] }
  | .returned => none

/-- The steps of a pool. Every `enqueue` returns before the destructor starts. -/
def step (s : Pool n J) : Label n J → Option (Pool n J)
  | .enqueue job =>
    if s.mtx = none ∧ s.dtor = .alive then some { s with tasks := s.tasks ++ [job], notifies := s.notifies + 1 }
    else none
  | .notifyOne none =>
    if s.notifies = 0 ∨ s.noneBlocked = false then none else some { s with notifies := s.notifies - 1 }
  | .notifyOne (some i) =>
    match s.pc i with
    | .blocked => if s.notifies = 0 then none else some { s.goto i .lock s.mtx with notifies := s.notifies - 1 }
    | _ => none
  | .worker i => s.workerStep i
  | .spuriousWakeup i =>
    match s.pc i with
    | .blocked => some (s.goto i .lock s.mtx)
    | _ => none
  | .storeStop =>
    if s.mtx = none ∧ s.dtor = .alive ∧ s.notifies = 0 then some { s with stop := true, dtor := .stopped } else none
  | .notifyAll =>
    if s.dtor = .stopped then some { s with pc := fun i => (s.pc i).notify, dtor := .joining 0 } else none
  | .join =>
    match s.dtor with
    | .joining k =>
      if h : k < n then
        match s.pc ⟨k, h⟩ with
        | .returned => some { s with dtor := .joining (k + 1) }
        | _ => none
      else none
    | _ => none

end Pool

/-- The jobs enqueued along a list of labels, in order. -/
def enqueued (as : List (Label n J)) : List J :=
  as.filterMap fun
    | .enqueue job => some job
    | _ => none

theorem enqueued_append (as bs : List (Label n J)) : enqueued (as ++ bs) = enqueued as ++ enqueued bs :=
  List.filterMap_append

@[simp] theorem enqueued_enqueue (job : J) : enqueued [(.enqueue job : Label n J)] = [job] := rfl

@[simp] theorem enqueued_worker (i : Fin n) : enqueued [(.worker i : Label n J)] = [] := rfl

end Defs

/-! ## The steps -/

variable {n : Nat} {J : Type} {s s' : Pool n J} {a : Label n J} {as : List (Label n J)} {i : Fin n}

theorem Pool.noneBlocked_iff : s.noneBlocked = true ↔ ∀ i, s.pc i ≠ .blocked := by
  simp only [Pool.noneBlocked, List.all_eq_true, List.mem_finRange, forall_const]
  refine forall_congr' fun i => ?_
  cases s.pc i <;> simp

/-- Everything one step of a pool can do, one constructor a branch of `Pool.step`. -/
inductive Pool.Step (s : Pool n J) : Label n J → Pool n J → Prop
  | enqueue (job : J) : s.mtx = none → s.dtor = .alive →
      Step s (.enqueue job) { s with tasks := s.tasks ++ [job], notifies := s.notifies + 1 }
  | notifyNone : s.notifies ≠ 0 → (∀ i, s.pc i ≠ .blocked) →
      Step s (.notifyOne none) { s with notifies := s.notifies - 1 }
  | notifyOne (i : Fin n) : s.notifies ≠ 0 → s.pc i = .blocked →
      Step s (.notifyOne (some i)) { s.goto i .lock s.mtx with notifies := s.notifies - 1 }
  | lock (i : Fin n) : s.pc i = .lock → s.mtx = none → Step s (.worker i) (s.goto i .wait (some i))
  | wait (i : Fin n) : s.pc i = .wait →
      Step s (.worker i) (s.goto i (if s.stop || !s.tasks.isEmpty then .waited else .block) s.mtx)
  | block (i : Fin n) : s.pc i = .block → Step s (.worker i) (s.goto i .blocked none)
  | ret (i : Fin n) : s.pc i = .waited → s.tasks = [] → s.stop = true → Step s (.worker i) (s.goto i .returned none)
  | pop (i : Fin n) (t : J) (ts : List J) : s.pc i = .waited → s.tasks = t :: ts →
      Step s (.worker i) { s.goto i (.run t) none with tasks := ts, dequeued := s.dequeued ++ [(i, t)] }
  | run (i : Fin n) (t : J) : s.pc i = .run t →
      Step s (.worker i) { s.goto i .lock s.mtx with ran := s.ran ++ [(i, t)] }
  | wakeup (i : Fin n) : s.pc i = .blocked → Step s (.spuriousWakeup i) (s.goto i .lock s.mtx)
  | storeStop : s.mtx = none → s.dtor = .alive → s.notifies = 0 →
      Step s .storeStop { s with stop := true, dtor := .stopped }
  | notifyAll : s.dtor = .stopped →
      Step s .notifyAll { s with pc := fun i => (s.pc i).notify, dtor := .joining 0 }
  | join (k : Nat) (h : k < n) : s.dtor = .joining k → s.pc ⟨k, h⟩ = .returned →
      Step s .join { s with dtor := .joining (k + 1) }

theorem step_inv (h : s.step a = some s') : s.Step a s' := by
  cases a with
  | enqueue job =>
    simp only [Pool.step, Option.ite_none_right_eq_some, Option.some.injEq] at h
    obtain ⟨⟨hm, hd⟩, rfl⟩ := h
    exact .enqueue job hm hd
  | notifyOne woken =>
    cases woken with
    | none =>
      simp only [Pool.step, Option.ite_none_left_eq_some, Option.some.injEq, not_or, Bool.not_eq_false] at h
      obtain ⟨⟨hn, hb⟩, rfl⟩ := h
      exact .notifyNone hn (Pool.noneBlocked_iff.mp hb)
    | some i =>
      simp only [Pool.step] at h
      split at h
      case h_1 hw =>
        simp only [Option.ite_none_left_eq_some, Option.some.injEq] at h
        obtain ⟨hn, rfl⟩ := h
        exact .notifyOne i hn hw
      case h_2 => cases h
  | worker i =>
    simp only [Pool.step, Pool.workerStep] at h
    split at h
    case h_1 hw =>
      split at h
      case h_1 hm => obtain rfl := Option.some.inj h; exact .lock i hw hm
      case h_2 => cases h
    case h_2 hw => obtain rfl := Option.some.inj h; exact .wait i hw
    case h_3 hw => obtain rfl := Option.some.inj h; exact .block i hw
    case h_5 hw =>
      split at h
      case h_1 ht =>
        simp only [Option.ite_none_right_eq_some, Option.some.injEq] at h
        obtain ⟨hs, rfl⟩ := h
        exact .ret i hw ht hs
      case h_2 t ts ht => obtain rfl := Option.some.inj h; exact .pop i t ts hw ht
    case h_6 t hw => obtain rfl := Option.some.inj h; exact .run i t hw
    case h_4 | h_7 => cases h
  | spuriousWakeup i =>
    simp only [Pool.step] at h
    split at h
    case h_1 hw => obtain rfl := Option.some.inj h; exact .wakeup i hw
    case h_2 => cases h
  | storeStop =>
    simp only [Pool.step, Option.ite_none_right_eq_some, Option.some.injEq] at h
    obtain ⟨⟨hm, hd, hn⟩, rfl⟩ := h
    exact .storeStop hm hd hn
  | notifyAll =>
    simp only [Pool.step, Option.ite_none_right_eq_some, Option.some.injEq] at h
    obtain ⟨hd, rfl⟩ := h
    exact .notifyAll hd
  | join =>
    simp only [Pool.step] at h
    split at h
    case h_1 k hd =>
      split at h
      case isTrue hk =>
        split at h
        case h_1 hw => obtain rfl := Option.some.inj h; exact .join k hk hd hw
        case h_2 => cases h
      case isFalse => cases h
    case h_2 => cases h

end HighLoad.ThreadPool
