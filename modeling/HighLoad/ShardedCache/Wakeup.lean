import HighLoad.ShardedCache.Invariant

/-!
# The wakeup that `~Shard` may lose

`~Shard` stores `stop` without holding `tasks_mutex`, so the store and `notify_all` may both fall between the worker's
evaluation of its predicate and its blocking. Then nothing wakes the worker any more (`hung_stuck`). That is the only
way to hang: a run hangs, or does so at the next step of its worker, exactly when its `notify_all` comes in that gap
(`shutdown_notHung_iff`).
-/

namespace HighLoad.ShardedCache

open Transition

variable {K V : Type} [DecidableEq K] {s s' t : Shard K V} {a : Act K V} {as bs : List (Act K V)}

/-- `stop` is set, `notify_all` is over, no `notify_one` is to come, and the worker is blocked in `wait`. -/
structure Hung (s : Shard K V) : Prop where
  stop : s.stop = true
  dtor : s.dtor = .notified
  worker : s.worker = .blocked
  notifies : s.notifies = 0

/-- `notify_all` does not come while the worker is about to block. -/
def notifyHeard (s : Shard K V) (a : Act K V) : Prop := a = .sys .notifyAll → s.worker ≠ .block

/-- A hung shard moves only by a spurious wakeup. -/
theorem hung_stuck (hs : Hung s) (h : s.step a = some s') : a = .sys .spuriousWakeup := by
  have hw := hs.worker
  cases step_inv h with
  | push _ _ hd => rw [hs.dtor] at hd; cases hd
  | notifyOne hn => exact absurd hs.notifies hn
  | loopHead hw' | lock hw' | wait hw' | block hw' | noTask hw' | pop _ _ hw' | call _ hw' => rw [hw] at hw'; cases hw'
  | wakeup => rfl
  | storeStop hd | notifyAll hd => rw [hs.dtor] at hd; cases hd
  | join _ hw' => rw [hw] at hw'; cases hw'

/-! ## What holds once `~Shard` has started -/

/-- The flag is set and every `push_task` has returned. -/
structure Started (s : Shard K V) : Prop where
  stop : s.dtor ≠ .alive → s.stop = true
  notifies : s.dtor ≠ .alive → s.notifies = 0

/-- After `notify_all` the worker neither blocks nor is blocked. -/
def Awake (s : Shard K V) : Prop := s.dtor = .notified → s.worker ≠ .block ∧ s.worker ≠ .blocked

omit [DecidableEq K] in
theorem init_started : Started (Shard.init : Shard K V) := ⟨fun h => absurd rfl h, fun h => absurd rfl h⟩

theorem step_started (hI : Started s) (h : s.step a = some s') : Started s' := by
  obtain ⟨hstop, hn⟩ := hI
  cases step_inv h with
  | push t _ hd => exact ⟨fun h => absurd hd h, fun h => absurd hd h⟩
  | notifyOne hne => exact ⟨hstop, fun hd => absurd (hn hd) hne⟩
  | loopHead | lock | wait | block | noTask | pop | wakeup => exact ⟨hstop, hn⟩
  | call t => exact ⟨by simpa using hstop, by cases t <;> simpa [Shard.call, Shard.set, Shard.remove] using hn⟩
  | storeStop _ hn' => exact ⟨fun _ => rfl, fun _ => hn'⟩
  | notifyAll hd | join hd => exact ⟨fun _ => hstop (by simp [hd]), fun _ => hn (by simp [hd])⟩

theorem run_started (h : run Shard.step Shard.init as = some s) : Started s :=
  run_inv (fun _ _ _ hI hs => step_started hI hs) init_started h

/-- Once the flag is set, the predicate is true: a worker that is awake stays awake. -/
theorem step_awake (hI : Started s) (ha : Awake s) (hok : notifyHeard s a) (h : s.step a = some s') : Awake s' := by
  intro hd'
  cases step_inv h with
  | push t _ hd => rw [Shard.pushTask, hd] at hd'; cases hd'
  | notifyOne hn => exact absurd (hI.notifies (by simp [show s.dtor = .notified from hd'])) hn
  | loopHead => constructor <;> simp <;> split <;> simp
  | lock | pop | wakeup => exact ⟨by simp, by simp⟩
  | wait =>
    have hstop := hI.stop (by simp [show s.dtor = .notified from hd'])
    simp [hstop]
  | block hw => exact absurd hw (ha hd').1
  | noTask => constructor <;> simp <;> split <;> simp
  | call t => exact ⟨by simp, by simp⟩
  | storeStop => cases hd'
  | notifyAll =>
    have hw := hok rfl
    cases hw' : s.worker <;> simp_all [Pc.notify]
  | join => cases hd'

theorem meets_notHung (hm : Meets Shard.step notifyHeard Shard.init as) (h : run Shard.step Shard.init as = some s) :
    ¬Hung s := by
  have hI : Started s ∧ Awake s := by
    refine meets_inv (I := fun s : Shard K V => Started s ∧ Awake s) ?_ ⟨init_started, fun h => by cases h⟩ hm h
    intro s a t hI hok hs
    exact ⟨step_started hI.1 hs, step_awake hI.1 hI.2 hok hs⟩
  intro hs
  exact (hI.2 hs.dtor).2 hs.worker

/-! ## The gap -/

/-- After a `notify_all` that the worker missed, its blocking is the only step left. -/
theorem gap_worker (hd : s.dtor = .notified) (hw : s.worker = .block) (hn : s.notifies = 0)
    (h : s.step a = some s') : a = .sys .worker := by
  cases step_inv h with
  | push _ _ hd' => rw [hd] at hd'; cases hd'
  | notifyOne hn' => exact absurd hn hn'
  | loopHead | lock | wait | block | noTask | pop | call => rfl
  | wakeup hw' => rw [hw] at hw'; cases hw'
  | storeStop hd' | notifyAll hd' => rw [hd] at hd'; cases hd'
  | join _ hw' => rw [hw] at hw'; cases hw'

/-- **When `~Shard` cannot hang.** In a run, and after one more step of its worker, no state is hung if and only if
`notify_all` does not come between the worker's evaluation of the predicate and its blocking. -/
theorem shutdown_notHung_iff (h : run Shard.step Shard.init as = some s) :
    (∀ bs t, bs <+: as ++ [.sys .worker] → run Shard.step Shard.init bs = some t → ¬Hung t) ↔
      Meets Shard.step notifyHeard Shard.init as := by
  constructor
  · intro hno
    refine meets_of_split fun pre a post t has ht => ?_
    rintro rfl hw
    obtain ⟨u, hu, hrest⟩ := run_append.mp (has ▸ h)
    obtain rfl : u = t := Option.some.inj (hu.symm.trans ht)
    obtain ⟨v, hv, hpost⟩ := run_cons.mp hrest
    have hI := run_started ht
    cases step_inv hv with
    | notifyAll hd =>
      have hstop := hI.stop (by simp [hd])
      have hn := hI.notifies (by simp [hd])
      -- The next label, if there is one, is the worker's.
      have hnext : pre ++ [.sys .notifyAll, .sys .worker] <+: as ++ [.sys .worker] := by
        cases post with
        | nil => exact ⟨[], by simp [has]⟩
        | cons b post =>
          obtain ⟨w, hb, -⟩ := run_cons.mp hpost
          obtain rfl : b = .sys .worker := by
            refine gap_worker ?_ ?_ ?_ hb
            · rfl
            · simp [hw, Pc.notify]
            · exact hn
          exact ⟨post ++ [.sys .worker], by simp [has]⟩
      refine hno _ { u with worker := .blocked, dtor := .notified } hnext ?_ ⟨hstop, rfl, rfl, hn⟩
      refine run_append.mpr ⟨u, ht, run_cons.mpr ⟨_, hv, ?_⟩⟩
      simp [run, Shard.step, Shard.workerStep, hw, Pc.notify]
  · intro hm bs t hpre ht
    refine meets_notHung ?_ ht
    have hm' : Meets Shard.step notifyHeard Shard.init (as ++ [.sys .worker]) := by
      refine meets_append.mpr ⟨hm, fun u _ => ⟨?_, fun _ _ => trivial⟩⟩
      intro ha
      cases ha
    obtain ⟨rest, hrest⟩ := hpre
    rw [← hrest] at hm'
    exact (meets_append.mp hm').1

/-- The worker finds no task and `stop` unset; the destructor stores `stop` and notifies; then the worker blocks. -/
def missedRun : List (Act Nat Nat) :=
  [.sys .worker, .sys .worker, .sys .worker, .sys .storeStop, .sys .notifyAll, .sys .worker]

theorem missedRun_hung : ∃ s, run Shard.step Shard.init missedRun = some s ∧ Hung s :=
  ⟨_, rfl, rfl, rfl, rfl, rfl⟩

/-- The same with the worker blocked before `stop` is stored: it is woken and returns. -/
theorem heardRun_notHung : ∃ s, run (Shard.step (K := Nat) (V := Nat)) Shard.init
    [.sys .worker, .sys .worker, .sys .worker, .sys .worker, .sys .storeStop, .sys .notifyAll] = some s ∧ ¬Hung s := by
  let as : List (Act Nat Nat) :=
    [.sys .worker, .sys .worker, .sys .worker, .sys .worker, .sys .storeStop, .sys .notifyAll]
  have hrun : run Shard.step Shard.init as = some _ := rfl
  have hm : Meets Shard.step notifyHeard Shard.init as := by
    simp [as, Meets, notifyHeard, Shard.step, Shard.workerStep, Shard.init, Pc.notify]
  exact ⟨_, hrun, (shutdown_notHung_iff hrun).mpr hm as _ (List.prefix_append _ _) hrun⟩

end HighLoad.ShardedCache
