import HighLoad.ShardedCache.Shard

/-!
# What the runs of a shard keep

Along every run, the tasks pushed so far are the tasks called, the task in hand and the queue, in that order; the
storage is the map after the tasks called; a promise is ready exactly when its `get` was called, with the value of the
map before that call (`LogInv`, `run_logInv`).
-/

namespace HighLoad.ShardedCache

open Transition

variable {K V : Type} [DecidableEq K] {s s' : Shard K V} {a : Act K V} {as : List (Act K V)}

/-! ## Calls on the map -/

@[simp] theorem mapAfter_nil (k : K) : mapAfter ([] : List (Task K V)) k = none := rfl

theorem mapAfter_concat (l : List (Task K V)) (t : Task K V) :
    mapAfter (l ++ [t]) = KeyedLog.apply Task.key Task.eff (mapAfter l) t := KeyedLog.replay_concat l t

/-- A task acts on the storage as a call on the sequential map. -/
theorem Shard.call_storage (s : Shard K V) (t : Task K V) :
    (s.call t).storage = KeyedLog.apply Task.key Task.eff s.storage t := by
  cases t with
  | set k v => rfl
  | remove k => rfl
  | get k p => exact (Function.update_eq_self k s.storage).symm

@[simp] theorem Shard.call_tasks (s : Shard K V) (t : Task K V) : (s.call t).tasks = s.tasks := by cases t <;> rfl

@[simp] theorem Shard.call_stop (s : Shard K V) (t : Task K V) : (s.call t).stop = s.stop := by cases t <;> rfl

@[simp] theorem Shard.call_dtor (s : Shard K V) (t : Task K V) : (s.call t).dtor = s.dtor := by cases t <;> rfl

/-! ## The steps -/

/-- Everything one step of a shard can do, one constructor a branch of `Shard.step`. -/
inductive Shard.Step (s : Shard K V) : Act K V → Shard K V → Prop
  | push (t : Task K V) : s.worker.holdsMutex = false → s.dtor = .alive → s.fresh t = true →
      Step s (.push t) (s.pushTask t)
  | notifyOne : s.notifies ≠ 0 →
      Step s (.sys .notifyOne) { s with notifies := s.notifies - 1, worker := s.worker.notify }
  | loopHead : s.worker = .loopHead →
      Step s (.sys .worker) { s with worker := if s.stop then .exited else .lock }
  | lock : s.worker = .lock → Step s (.sys .worker) { s with worker := .wait }
  | wait : s.worker = .wait →
      Step s (.sys .worker) { s with worker := if !s.tasks.isEmpty || s.stop then .waited else .block }
  | block : s.worker = .block → Step s (.sys .worker) { s with worker := .blocked }
  | noTask : s.worker = .waited → s.tasks = [] →
      Step s (.sys .worker) { s with worker := if s.stop then .exited else .loopHead }
  | pop (t : Task K V) (ts : List (Task K V)) : s.worker = .waited → s.tasks = t :: ts →
      Step s (.sys .worker) { s with tasks := ts, worker := .call t }
  | call (t : Task K V) : s.worker = .call t →
      Step s (.sys .worker) { s.call t with worker := .loopHead, ran := s.ran ++ [t] }
  | wakeup : s.worker = .blocked → Step s (.sys .spuriousWakeup) { s with worker := .lock }
  | storeStop : s.dtor = .alive → s.notifies = 0 →
      Step s (.sys .storeStop) { s with stop := true, dtor := .stopped }
  | notifyAll : s.dtor = .stopped →
      Step s (.sys .notifyAll) { s with worker := s.worker.notify, dtor := .notified }
  | join : s.dtor = .notified → s.worker = .exited → Step s (.sys .join) { s with dtor := .joined }

theorem step_inv (h : s.step a = some s') : s.Step a s' := by
  cases a with
  | push t =>
    simp only [Shard.step, Option.ite_none_right_eq_some, Option.some.injEq, Bool.and_eq_true, decide_eq_true_eq,
      Bool.not_eq_eq_eq_not, Bool.not_true] at h
    obtain ⟨⟨⟨hm, hd⟩, hf⟩, rfl⟩ := h
    exact .push t hm hd hf
  | sys e =>
    cases e with
    | worker =>
      simp only [Shard.step, Shard.workerStep] at h
      split at h
      case h_1 hw => obtain rfl := Option.some.inj h; exact .loopHead hw
      case h_2 hw => obtain rfl := Option.some.inj h; exact .lock hw
      case h_3 hw => obtain rfl := Option.some.inj h; exact .wait hw
      case h_4 hw => obtain rfl := Option.some.inj h; exact .block hw
      case h_6 hw =>
        split at h
        case h_1 hts => obtain rfl := Option.some.inj h; exact .noTask hw hts
        case h_2 t ts hts => obtain rfl := Option.some.inj h; exact .pop t ts hw hts
      case h_7 t hw => obtain rfl := Option.some.inj h; exact .call t hw
      case h_5 | h_8 => cases h
    | notifyOne =>
      simp only [Shard.step, Option.ite_none_left_eq_some, Option.some.injEq] at h
      obtain ⟨hn, rfl⟩ := h
      exact .notifyOne hn
    | spuriousWakeup =>
      simp only [Shard.step] at h
      split at h
      case h_1 hw => obtain rfl := Option.some.inj h; exact .wakeup hw
      case h_2 => cases h
    | storeStop =>
      simp only [Shard.step, Option.ite_none_right_eq_some, Option.some.injEq] at h
      obtain ⟨⟨hd, hn⟩, rfl⟩ := h
      exact .storeStop hd hn
    | notifyAll =>
      simp only [Shard.step, Option.ite_none_right_eq_some, Option.some.injEq] at h
      obtain ⟨hd, rfl⟩ := h
      exact .notifyAll hd
    | join =>
      simp only [Shard.step] at h
      split at h
      case h_1 hw =>
        simp only [Option.ite_none_right_eq_some, Option.some.injEq] at h
        obtain ⟨hd, rfl⟩ := h
        exact .join hd hw
      case h_2 => cases h

/-- A step that touches neither the data nor the queue. -/
structure Shard.Quiet (s s' : Shard K V) : Prop where
  storage : s'.storage = s.storage
  tasks : s'.tasks = s.tasks
  promises : s'.promises = s.promises
  ran : s'.ran = s.ran
  inHand : s'.worker.inHand = s.worker.inHand

/-- To its data and its queue, a step does one of three things or nothing. -/
theorem step_cases (h : s.step a = some s') :
    (∃ t, a = .push t ∧ s.dtor = .alive ∧ s.fresh t = true ∧ s' = s.pushTask t) ∨
    (∃ t ts, a = .sys .worker ∧ s.worker = .waited ∧ s.tasks = t :: ts ∧
      s' = { s with tasks := ts, worker := .call t }) ∨
    (∃ t, a = .sys .worker ∧ s.worker = .call t ∧
      s' = { s.call t with worker := .loopHead, ran := s.ran ++ [t] }) ∨
    (∃ e, a = .sys e ∧ s.Quiet s') := by
  cases step_inv h with
  | push t hm hd hf => exact .inl ⟨t, rfl, hd, hf, rfl⟩
  | pop t ts hw hts => exact .inr (.inl ⟨t, ts, rfl, hw, hts, rfl⟩)
  | call t hw => exact .inr (.inr (.inl ⟨t, rfl, hw, rfl⟩))
  | notifyOne | notifyAll => exact .inr (.inr (.inr ⟨_, rfl, rfl, rfl, rfl, rfl, Pc.inHand_notify _⟩))
  | lock hw | block hw | wakeup hw => exact .inr (.inr (.inr ⟨_, rfl, rfl, rfl, rfl, rfl, by rw [hw]; rfl⟩))
  | loopHead hw | wait hw | noTask hw =>
    exact .inr (.inr (.inr ⟨_, rfl, rfl, rfl, rfl, rfl, by rw [hw]; split <;> rfl⟩))
  | storeStop | join => exact .inr (.inr (.inr ⟨_, rfl, rfl, rfl, rfl, rfl, rfl⟩))

/-! ## The log invariant -/

structure LogInv (as : List (Act K V)) (s : Shard K V) : Prop where
  log : pushed as = s.ran ++ s.worker.inHand ++ s.tasks
  storage : s.storage = mapAfter s.ran
  ready : ∀ p v, s.promises p = .ready v → ∃ pre k post, s.ran = pre ++ .get k p :: post ∧ v = mapAfter pre k
  called : ∀ k p, .get k p ∈ s.ran → ∃ v, s.promises p = .ready v

theorem init_logInv : LogInv [] (Shard.init : Shard K V) where
  log := rfl
  storage := rfl
  ready := fun p v h => by cases h
  called := fun k p h => by cases h

omit [DecidableEq K] in
/-- Allocating a promise at a fresh address leaves the ready ones alone. -/
theorem allocate_ready {t : Task K V} (hf : s.fresh t = true) (p : Nat) (v : Option V) :
    s.allocate t p = .ready v ↔ s.promises p = .ready v := by
  cases t with
  | set | remove => rfl
  | get k q =>
    simp only [Shard.allocate]
    by_cases h : p = q
    · subst h
      simp only [Function.update_self, reduceCtorEq, false_iff]
      intro hp
      simp [Shard.fresh, hp] at hf
    · rw [Function.update_of_ne h]

/-- A call makes the promise of its `get` ready and leaves the others alone. -/
theorem call_promises (s : Shard K V) (t : Task K V) (p : Nat) :
    ((∃ k, t = .get k p) ∧ (s.call t).promises p = .ready (s.storage t.key)) ∨
      ((∀ k, t ≠ .get k p) ∧ (s.call t).promises p = s.promises p) := by
  cases t with
  | set k v => exact .inr ⟨by simp, rfl⟩
  | remove k => exact .inr ⟨by simp, rfl⟩
  | get k q =>
    by_cases h : q = p
    · subst h
      exact .inl ⟨⟨k, rfl⟩, by simp [Shard.call, Shard.get, Task.key]⟩
    · exact .inr ⟨by simp [h], by simp [Shard.call, Function.update_of_ne (Ne.symm h)]⟩

theorem step_logInv (hI : LogInv as s) (h : s.step a = some s') : LogInv (as ++ [a]) s' := by
  rcases step_cases h with ⟨t, rfl, -, hf, rfl⟩ | ⟨t, ts, rfl, hw, hts, rfl⟩ | ⟨t, rfl, hw, rfl⟩ | ⟨e, rfl, hq⟩
  · refine ⟨by simp [pushed_append, hI.log, Shard.pushTask], hI.storage, fun p v hp => ?_, fun k p hk => ?_⟩
    · exact hI.ready p v ((allocate_ready hf p v).mp hp)
    · obtain ⟨v, hv⟩ := hI.called k p hk
      exact ⟨v, (allocate_ready hf p v).mpr hv⟩
  · refine ⟨?_, hI.storage, hI.ready, hI.called⟩
    simp [pushed_append, hI.log, hw, hts, Pc.inHand]
  · refine ⟨by simp [pushed_append, hI.log, hw, Pc.inHand], ?_, fun p v hp => ?_, fun k p hk => ?_⟩
    · simp only [mapAfter_concat, ← hI.storage]
      exact s.call_storage t
    · rcases call_promises s t p with ⟨⟨k, rfl⟩, hc⟩ | ⟨-, hc⟩
      · simp only [hc, Promise.ready.injEq] at hp
        exact ⟨s.ran, k, [], rfl, by rw [← hI.storage, ← hp]; rfl⟩
      · simp only [hc] at hp
        obtain ⟨pre, k, post, hr, hv⟩ := hI.ready p v hp
        exact ⟨pre, k, post ++ [t], by simp [hr], hv⟩
    · rcases call_promises s t p with ⟨-, hc⟩ | ⟨hne, hc⟩
      · exact ⟨_, hc⟩
      · rcases List.mem_append.mp hk with hk | hk
        · simpa only [hc] using hI.called k p hk
        · exact absurd (List.mem_singleton.mp hk).symm (hne k)
  · refine ⟨?_, ?_, ?_, ?_⟩
    · simp [pushed_append, hI.log, hq.ran, hq.inHand, hq.tasks]
    · rw [hq.storage, hq.ran, hI.storage]
    · rw [hq.promises, hq.ran]; exact hI.ready
    · rw [hq.promises, hq.ran]; exact hI.called

/-- **Every run keeps the log invariant.** -/
theorem run_logInv (h : run Shard.step Shard.init as = some s) : LogInv as s :=
  run_hist init_logInv (fun _ _ _ _ hI hs => step_logInv hI hs) h

end HighLoad.ShardedCache
