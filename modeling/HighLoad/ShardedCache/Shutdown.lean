import Mathlib.Data.List.Basic
import HighLoad.ShardedCache.Invariant

/-!
# What `~Shard` leaves unexecuted

Once `stop` is stored, the worker reads it at the next loop head, whatever the queue holds: it still pops at most one
task, and that only when it was past the loop head (`Pc.popsLeft`). So the number of tasks left behind is known at the
store (`Shard.lost`, `stopped_step`): all tasks are executed exactly when the queue is no longer than what the worker
still pops (`join_ranAll_iff`).
-/

namespace HighLoad.ShardedCache

open Transition

variable {K V : Type} [DecidableEq K] {s s' : Shard K V} {a : Act K V} {as pre post : List (Act K V)}

/-- Every task pushed has been executed: the calls are the pushes, in order, the storage is the map after all of them,
and every promise handed out is ready. -/
structure RanAll (as : List (Act K V)) (s : Shard K V) : Prop where
  ran : s.ran = pushed as
  storage : s.storage = mapAfter (pushed as)
  ready : ∀ k p, .get k p ∈ pushed as → ∃ v, s.promises p = .ready v

/-- The tasks still queued when the worker returns, if `stop` is stored now. -/
def Shard.lost (s : Shard K V) : Nat := s.tasks.length - s.worker.popsLeft

/-- After the store of `stop` the flag stays, no task is pushed, and the number of lost tasks is settled. -/
structure Stopped (n : Nat) (s : Shard K V) : Prop where
  stop : s.stop = true
  dtor : s.dtor ≠ .alive
  lost : s.lost = n

/-- What the worker still does with `stop` set is settled: each step keeps the number of lost tasks. -/
theorem stopped_step {n : Nat} (hS : Stopped n s) (h : s.step a = some s') : Stopped n s' := by
  obtain ⟨hstop, hd, hl⟩ := hS
  unfold Shard.lost at hl
  cases step_inv h with
  | push t hm hd' => exact absurd hd' hd
  | storeStop hd' => exact absurd hd' hd
  | loopHead hw | wait hw => exact ⟨hstop, hd, by simpa [Shard.lost, hw, hstop, Pc.popsLeft] using hl⟩
  | lock hw | block hw | wakeup hw => exact ⟨hstop, hd, by simpa [Shard.lost, hw, Pc.popsLeft] using hl⟩
  | noTask hw hts => exact ⟨hstop, hd, by simpa [Shard.lost, hw, hts, hstop, Pc.popsLeft] using hl⟩
  | pop t ts hw hts => exact ⟨hstop, hd, by simpa [Shard.lost, hw, hts, Pc.popsLeft] using hl⟩
  | call t hw => exact ⟨by simpa using hstop, by simpa using hd, by simpa [Shard.lost, hw, Pc.popsLeft] using hl⟩
  | notifyOne => exact ⟨hstop, hd, by simpa [Shard.lost] using hl⟩
  | notifyAll => exact ⟨hstop, by simp, by simpa [Shard.lost] using hl⟩
  | join => exact ⟨hstop, by simp, hl⟩

/-- `join` returns only after the worker did. -/
theorem step_joined (hI : s.dtor = .joined → s.worker = .exited) (h : s.step a = some s') :
    s'.dtor = .joined → s'.worker = .exited := by
  intro hj
  cases step_inv h with
  | push t hm hd => simp [Shard.pushTask, hd] at hj
  | notifyOne => simp [hI hj, Pc.notify]
  | loopHead hw | lock hw | wait hw | block hw | noTask hw | pop _ _ hw | wakeup hw => rw [hI hj] at hw; cases hw
  | call t hw => rw [hI (by simpa using hj)] at hw; cases hw
  | storeStop | notifyAll => cases hj
  | join hd hw => exact hw

/-- A run in which `~Shard` has started passes through the store of `stop`, and what is lost is settled there. -/
theorem run_stopped (h : run Shard.step Shard.init as = some s) (hd : s.dtor ≠ .alive) :
    ∃ pre s₀ post, as = pre ++ .sys .storeStop :: post ∧ run Shard.step Shard.init pre = some s₀ ∧
      Stopped s₀.lost s := by
  induction as using List.reverseRecOn generalizing s with
  | nil => cases h; exact absurd rfl hd
  | append_singleton as a ih =>
    obtain ⟨t, ht, hs⟩ := run_concat.mp h
    by_cases hta : t.dtor = .alive
    · have hstop : a = .sys .storeStop ∧ Stopped t.lost s := by
        cases step_inv hs with
        | storeStop => exact ⟨rfl, rfl, by simp, rfl⟩
        | notifyAll hn | join hn => rw [hta] at hn; cases hn
        | push | call => exact absurd (by simpa [Shard.pushTask] using hta) hd
        | notifyOne | loopHead | lock | wait | block | noTask | pop | wakeup => exact absurd hta hd
      obtain ⟨rfl, hS⟩ := hstop
      exact ⟨as, t, [], rfl, ht, hS⟩
    · obtain ⟨pre, s₀, post, rfl, h₀, hS⟩ := ih ht hta
      exact ⟨pre, s₀, post ++ [a], by simp, h₀, stopped_step hS hs⟩

/-- At the return of `join`, all tasks were executed exactly when none is queued. -/
theorem ranAll_iff_tasks (h : run Shard.step Shard.init as = some s) (hw : s.worker = .exited) :
    RanAll as s ↔ s.tasks = [] := by
  have hI := run_logInv h
  have hlog : pushed as = s.ran ++ s.tasks := by simpa [hw, Pc.inHand] using hI.log
  constructor
  · intro hR
    simpa [hlog] using hR.ran
  · intro ht
    have hran : pushed as = s.ran := by simpa [ht] using hlog
    exact ⟨hran.symm, by rw [hran, hI.storage], fun k p hk => hI.called k p (hran ▸ hk)⟩

/-- **When `~Shard` loses nothing.** In a run to the return of `join`, every task pushed has been executed if and only
if, when `stop` is stored, the queue is no longer than what the worker still pops before it reads `stop` again. -/
theorem join_ranAll_iff (h : run Shard.step Shard.init as = some s) (hj : s.dtor = .joined) :
    ∃ pre s₀ post, as = pre ++ .sys .storeStop :: post ∧ run Shard.step Shard.init pre = some s₀ ∧
      (RanAll as s ↔ s₀.tasks.length ≤ s₀.worker.popsLeft) := by
  have hw : s.worker = .exited :=
    run_inv (I := fun s => s.dtor = .joined → s.worker = .exited) (fun _ _ _ hI hs => step_joined hI hs)
      (fun h => by cases h) h hj
  obtain ⟨pre, s₀, post, rfl, h₀, hS⟩ := run_stopped h (by simp [hj])
  refine ⟨pre, s₀, post, rfl, h₀, ?_⟩
  have hlost : s.tasks.length = s₀.lost := by simpa [Shard.lost, hw, Pc.popsLeft] using hS.lost
  rw [ranAll_iff_tasks h hw, ← List.length_eq_zero_iff, hlost, Shard.lost, Nat.sub_eq_zero_iff_le]

/-- `set(0, 1)` and `get(0)` are pushed before the worker first reads `stop`, then the shard is destroyed. -/
def lostRun : List (Act Nat Nat) :=
  [.push (.set 0 1), .sys .notifyOne, .push (.get 0 0), .sys .notifyOne, .sys .storeStop, .sys .notifyAll, .sys .worker,
    .sys .join]

/-- The worker finds `stop` set at the loop head and returns without popping: both tasks are lost. -/
theorem lostRun_loses :
    ∃ s, run Shard.step Shard.init lostRun = some s ∧ s.dtor = .joined ∧ s.tasks = [.set 0 1, .get 0 0] ∧
      s.storage 0 = none ∧ s.promises 0 = .pending ∧ ¬RanAll lostRun s :=
  ⟨_, rfl, rfl, rfl, rfl, rfl, fun hR => by cases hR.ran⟩

/-- The worker is blocked when `set(0, 1)` is pushed. -/
def blockedPush : List (Act Nat Nat) :=
  [.sys .worker, .sys .worker, .sys .worker, .sys .worker, .push (.set 0 1), .sys .notifyOne]

/-- Then the shard is destroyed. -/
def afterStop : List (Act Nat Nat) :=
  [.sys .notifyAll, .sys .worker, .sys .worker, .sys .worker, .sys .worker, .sys .worker, .sys .join]

def blockedRun : List (Act Nat Nat) := blockedPush ++ .sys .storeStop :: afterStop

/-- A task pushed while the worker is blocked is still executed. -/
theorem blockedRun_ranAll :
    ∃ s, run Shard.step Shard.init blockedRun = some s ∧ s.dtor = .joined ∧ s.storage 0 = some 1 ∧
      RanAll blockedRun s := by
  have hrun : run Shard.step Shard.init blockedRun = some _ := rfl
  obtain ⟨pre, s₀, post, hsplit, h₀, hiff⟩ := join_ranAll_iff hrun rfl
  obtain ⟨rfl, -, rfl⟩ := (List.append_cons_inj_of_notMem (by simp [blockedPush]) (by simp [afterStop])).mp hsplit
  obtain rfl := Option.some.inj h₀
  exact ⟨_, hrun, rfl, rfl, hiff.mpr (by decide)⟩

end HighLoad.ShardedCache
