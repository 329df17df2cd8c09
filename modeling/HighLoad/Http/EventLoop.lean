import HighLoad.Lib.Transition
import Mathlib.Data.List.Nodup

/-!
# The event loop

`Server::event_loop` beside the pool's workers. A step is a `select`, one pass of the scan of `read_set`, or the
`closesocket` that ends a job. `FD_SET` with its `accept`, and `FD_CLR` with its `enqueue`, are one step: only the loop
sees `master_set`, and the socket is the same. `accept` returns any socket that is not open.

An accepted socket is in `master_set` until its job is enqueued, and never again (`Bookkept`). `FD_SET` on a full set
does nothing: each client is tracked exactly as long as every accept found room (`tracked_iff`).
-/

namespace HighLoad.Http

open Transition

/-- `FD_SETSIZE` of `winsock2.h`. -/
def fdSetSize : Nat := 64

/-- An `fd_set`: the first `fd_count` sockets of its array. -/
structure FdSet where
  fdArray : List Nat
  nodup : fdArray.Nodup
  bounded : fdArray.length ≤ fdSetSize

namespace FdSet

/-- `FD_ISSET`. -/
instance : Membership Nat FdSet := ⟨fun set fd => fd ∈ set.fdArray⟩

instance (fd : Nat) (set : FdSet) : Decidable (fd ∈ set) := inferInstanceAs (Decidable (fd ∈ set.fdArray))

/-- `FD_ZERO`. -/
def zero : FdSet := ⟨[], List.nodup_nil, Nat.zero_le _⟩

def hasRoom (set : FdSet) : Prop := set.fdArray.length < fdSetSize

instance (set : FdSet) : Decidable set.hasRoom := inferInstanceAs (Decidable (_ < _))

/-- `FD_SET`. -/
def set (fd : Nat) (set : FdSet) : FdSet :=
  if h : fd ∉ set ∧ set.hasRoom then
    { fdArray := set.fdArray ++ [fd]
      nodup := List.nodup_append.mpr ⟨set.nodup, List.nodup_singleton fd, by
        intro a ha b hb he
        rw [List.mem_singleton.mp hb] at he
        exact h.1 (he ▸ ha)⟩
      bounded := by
        rw [List.length_append]
        exact h.2 }
  else set

/-- `FD_CLR`. -/
def clr (fd : Nat) (set : FdSet) : FdSet :=
  ⟨set.fdArray.erase fd, set.nodup.erase fd, Nat.le_trans List.erase_sublist.length_le set.bounded⟩

/-- What `select` leaves of a set of which the sockets `ready` are. -/
def select (ready : List Nat) (set : FdSet) : FdSet :=
  ⟨set.fdArray.filter (· ∈ ready), set.nodup.filter _, Nat.le_trans (List.length_filter_le _ _) set.bounded⟩

variable {fd x : Nat} {set : FdSet} {ready : List Nat}

theorem mem_set : x ∈ FdSet.set fd set ↔ x ∈ set ∨ x = fd ∧ set.hasRoom := by
  unfold FdSet.set
  split
  case isTrue h =>
    refine List.mem_append.trans ?_
    rw [List.mem_singleton, and_iff_left h.2]
    rfl
  case isFalse h =>
    refine ⟨Or.inl, ?_⟩
    rintro (hx | ⟨rfl, hroom⟩)
    · exact hx
    · by_contra hx
      exact h ⟨hx, hroom⟩

theorem mem_clr : x ∈ clr fd set ↔ x ≠ fd ∧ x ∈ set := set.nodup.mem_erase_iff

theorem mem_select : x ∈ select ready set ↔ x ∈ set ∧ x ∈ ready := by
  refine List.mem_filter.trans ?_
  rw [decide_eq_true_eq]
  rfl

end FdSet

structure EventLoop where
  listenFd : Nat
  masterSet : FdSet
  readSet : FdSet
  maxFd : Nat
  /-- The `i` of the scan; none at the head of the `while`. -/
  i : Option Nat
  /-- The client sockets that are open: accepted and not closed. -/
  clients : List Nat
  /-- The sockets of the jobs that were enqueued and have not closed theirs. -/
  jobs : List Nat

namespace EventLoop

inductive Label where
  /-- `select` returns with the sockets `ready`. -/
  | select (ready : List Nat)
  | selectFailed
  /-- A pass of the scan that calls `accept`; none when it fails. -/
  | accept (clientFd : Option Nat)
  /-- Any other pass of the scan. -/
  | pass
  /-- The end of the scan, and `Cache::cleanup`. -/
  | cleanup
  /-- The end of `handle_client`. -/
  | closesocket (clientFd : Nat)
  deriving DecidableEq, Repr

def init (listenFd : Nat) : EventLoop :=
  { listenFd, masterSet := FdSet.zero.set listenFd, readSet := FdSet.zero, maxFd := listenFd, i := none
    clients := [], jobs := [] }

/-- Whether the pass for `i` calls `accept`. -/
def Accepts (s : EventLoop) (i : Nat) : Prop := i ≤ s.maxFd ∧ i ∈ s.readSet ∧ i = s.listenFd

instance (s : EventLoop) (i : Nat) : Decidable (s.Accepts i) := inferInstanceAs (Decidable (_ ∧ _ ∧ _))

/-- `FD_SET(client_fd, &master_set)`, and the new `max_fd`. -/
def accepted (s : EventLoop) (clientFd : Nat) : EventLoop :=
  { s with
    masterSet := s.masterSet.set clientFd
    maxFd := if s.maxFd < clientFd then clientFd else s.maxFd
    clients := s.clients ++ [clientFd] }

/-- `FD_CLR(client_fd, &master_set)` and `pool.enqueue`. -/
def enqueued (s : EventLoop) (clientFd : Nat) : EventLoop :=
  { s with masterSet := s.masterSet.clr clientFd, jobs := s.jobs ++ [clientFd] }

/-- `++i`. -/
def next (s : EventLoop) (i : Nat) : EventLoop := { s with i := some (i + 1) }

def step (s : EventLoop) : Label → Option EventLoop
  | .select ready =>
    match s.i with
    | none => some { s with readSet := s.masterSet.select ready, i := some 0 }
    | some _ => none
  | .selectFailed =>
    match s.i with
    | none => some { s with readSet := s.masterSet }
    | some _ => none
  | .accept clientFd =>
    match s.i with
    | none => none
    | some i =>
      if s.Accepts i then
        match clientFd with
        | none => some (s.next i)
        | some fd => if fd ∈ s.clients ∨ fd = s.listenFd then none else some ((s.accepted fd).next i)
      else none
  | .pass =>
    match s.i with
    | none => none
    | some i =>
      if s.maxFd < i ∨ s.Accepts i then none
      else if i ∈ s.readSet then some ((s.enqueued i).next i)
      else some (s.next i)
  | .cleanup =>
    match s.i with
    | none => none
    | some i => if s.maxFd < i then some { s with i := none } else none
  | .closesocket fd =>
    if fd ∈ s.jobs then some { s with clients := s.clients.erase fd, jobs := s.jobs.erase fd } else none

/-- Every client is either in `master_set`, without a job, or in exactly one job and not in `master_set`. -/
def Tracked (s : EventLoop) : Prop :=
  ∀ fd ∈ s.clients, (fd ∈ s.masterSet ∧ s.jobs.count fd = 0) ∨ (fd ∉ s.masterSet ∧ s.jobs.count fd = 1)

/-- `FD_SET` finds room for an accepted socket. -/
def hasRoom (s : EventLoop) : Label → Prop
  | .accept (some _) => s.masterSet.hasRoom
  | _ => True

instance (s : EventLoop) (a : Label) : Decidable (s.hasRoom a) := by
  cases a with
  | accept clientFd => cases clientFd <;> unfold hasRoom <;> infer_instance
  | _ => exact inferInstanceAs (Decidable True)

end EventLoop

/-! ## Steps -/

variable {s s' : EventLoop} {a : EventLoop.Label} {as : List EventLoop.Label} {fd l : Nat}

/-- Everything one step can do, one constructor a branch of `EventLoop.step`. -/
inductive EventLoop.Step (s : EventLoop) : Label → EventLoop → Prop
  | select (ready : List Nat) : s.i = none →
      Step s (.select ready) { s with readSet := s.masterSet.select ready, i := some 0 }
  | selectFailed : s.i = none → Step s .selectFailed { s with readSet := s.masterSet }
  | acceptFailed (i : Nat) : s.i = some i → s.Accepts i → Step s (.accept none) (s.next i)
  | accept (i fd : Nat) : s.i = some i → s.Accepts i → fd ∉ s.clients → fd ≠ s.listenFd →
      Step s (.accept (some fd)) ((s.accepted fd).next i)
  | enqueue (i : Nat) : s.i = some i → i ≤ s.maxFd → i ∈ s.readSet → i ≠ s.listenFd →
      Step s .pass ((s.enqueued i).next i)
  | skip (i : Nat) : s.i = some i → i ≤ s.maxFd → i ∉ s.readSet → Step s .pass (s.next i)
  | cleanup (i : Nat) : s.i = some i → s.maxFd < i → Step s .cleanup { s with i := none }
  | closesocket (fd : Nat) : fd ∈ s.jobs →
      Step s (.closesocket fd) { s with clients := s.clients.erase fd, jobs := s.jobs.erase fd }

theorem EventLoop.step_inv (h : s.step a = some s') : s.Step a s' := by
  cases a with
  | select ready =>
    simp only [EventLoop.step] at h
    split at h
    case h_1 hi => obtain rfl := Option.some.inj h; exact .select ready hi
    case h_2 => cases h
  | selectFailed =>
    simp only [EventLoop.step] at h
    split at h
    case h_1 hi => obtain rfl := Option.some.inj h; exact .selectFailed hi
    case h_2 => cases h
  | accept clientFd =>
    simp only [EventLoop.step] at h
    split at h
    case h_1 => cases h
    case h_2 i hi =>
      rw [Option.ite_none_right_eq_some] at h
      obtain ⟨hacc, h⟩ := h
      cases clientFd with
      | none => obtain rfl := Option.some.inj h; exact .acceptFailed i hi hacc
      | some fd =>
        simp only [Option.ite_none_left_eq_some, not_or, Option.some.injEq] at h
        obtain ⟨⟨hc, hl⟩, rfl⟩ := h
        exact .accept i fd hi hacc hc hl
  | pass =>
    simp only [EventLoop.step] at h
    split at h
    case h_1 => cases h
    case h_2 i hi =>
      rw [Option.ite_none_left_eq_some, not_or, Nat.not_lt] at h
      obtain ⟨⟨hle, hacc⟩, h⟩ := h
      split at h
      case isTrue hr =>
        obtain rfl := Option.some.inj h
        exact .enqueue i hi hle hr fun hl => hacc ⟨hle, hr, hl⟩
      case isFalse hr =>
        obtain rfl := Option.some.inj h
        exact .skip i hi hle hr
  | cleanup =>
    simp only [EventLoop.step] at h
    split at h
    case h_1 => cases h
    case h_2 i hi =>
      rw [Option.ite_none_right_eq_some] at h
      obtain ⟨hlt, h⟩ := h
      obtain rfl := Option.some.inj h
      exact .cleanup i hi hlt
  | closesocket fd =>
    simp only [EventLoop.step, Option.ite_none_right_eq_some, Option.some.injEq] at h
    obtain ⟨hj, rfl⟩ := h
    exact .closesocket fd hj

/-! ## The sockets of the loop -/

/-- Only sockets that are open are watched or in a job, in one job and not both; those that the scan has still to reach
are watched. -/
structure Bookkept (s : EventLoop) : Prop where
  listen : s.listenFd ∉ s.clients
  clients : s.clients.Nodup
  jobs : s.jobs.Nodup
  watched : ∀ fd ∈ s.masterSet, fd = s.listenFd ∨ fd ∈ s.clients
  taken : ∀ fd ∈ s.jobs, fd ∈ s.clients
  apart : ∀ fd ∈ s.jobs, fd ∉ s.masterSet
  ready : ∀ i, s.i = some i → ∀ fd ∈ s.readSet, i ≤ fd → fd ∈ s.masterSet

theorem init_bookkept (l : Nat) : Bookkept (.init l) where
  listen := List.not_mem_nil
  clients := List.nodup_nil
  jobs := List.nodup_nil
  watched fd h := by
    rcases FdSet.mem_set.mp h with h | ⟨rfl, -⟩
    · exact absurd h List.not_mem_nil
    · exact .inl rfl
  taken fd h := by cases h
  apart fd h := by cases h
  ready i h := by cases h

/-- Between the passes, and at the next one, the same sockets are to be reached. -/
theorem next_bookkept (hI : Bookkept s) {i : Nat} (hi : s.i = some i) : Bookkept (s.next i) := by
  refine ⟨hI.listen, hI.clients, hI.jobs, hI.watched, hI.taken, hI.apart, ?_⟩
  rintro j ⟨⟩ fd hfd hle
  exact hI.ready i hi fd hfd (Nat.le_of_succ_le hle)

theorem accepted_bookkept (hI : Bookkept s) (hc : fd ∉ s.clients) (hl : fd ≠ s.listenFd) :
    Bookkept (s.accepted fd) := by
  refine ⟨?_, ?_, hI.jobs, fun x hx => ?_, fun x hx => ?_, fun x hx => ?_, fun i hi x hx hle => ?_⟩
  · rw [EventLoop.accepted, List.mem_append, List.mem_singleton, not_or]
    exact ⟨hI.listen, Ne.symm hl⟩
  · rw [EventLoop.accepted, List.nodup_append_comm]
    exact List.nodup_cons.mpr ⟨hc, hI.clients⟩
  · rw [EventLoop.accepted, List.mem_append, List.mem_singleton]
    rcases FdSet.mem_set.mp hx with hx | ⟨rfl, -⟩
    · exact (hI.watched x hx).imp_right .inl
    · exact .inr (.inr rfl)
  · exact List.mem_append_left _ (hI.taken x hx)
  · intro hm
    rcases FdSet.mem_set.mp hm with hm | ⟨rfl, -⟩
    · exact hI.apart x hx hm
    · exact hc (hI.taken x hx)
  · exact FdSet.mem_set.mpr (.inl (hI.ready i hi x hx hle))

/-- The pass that enqueues a socket is the last to look at it. -/
theorem enqueued_bookkept (hI : Bookkept s) {i : Nat} (hi : s.i = some i) (hr : i ∈ s.readSet) (hl : i ≠ s.listenFd) :
    Bookkept ((s.enqueued i).next i) := by
  have hm : i ∈ s.masterSet := hI.ready i hi i hr (Nat.le_refl i)
  have hclient : i ∈ s.clients := (hI.watched i hm).resolve_left hl
  have hjob : i ∉ s.jobs := fun hj => hI.apart i hj hm
  refine ⟨hI.listen, hI.clients, ?_, fun x hx => ?_, fun x hx => ?_, fun x hx => ?_, ?_⟩
  · rw [EventLoop.next, EventLoop.enqueued, List.nodup_append_comm]
    exact List.nodup_cons.mpr ⟨hjob, hI.jobs⟩
  · exact hI.watched x (FdSet.mem_clr.mp hx).2
  · rcases List.mem_append.mp hx with hx | hx
    · exact hI.taken x hx
    · rw [List.mem_singleton.mp hx]
      exact hclient
  · intro hm'
    obtain ⟨hne, hm'⟩ := FdSet.mem_clr.mp hm'
    rcases List.mem_append.mp hx with hx | hx
    · exact hI.apart x hx hm'
    · exact hne (List.mem_singleton.mp hx)
  · rintro j ⟨⟩ x hx hle
    refine FdSet.mem_clr.mpr ⟨Nat.ne_of_gt hle, hI.ready i hi x hx (Nat.le_of_succ_le hle)⟩

theorem closed_bookkept (hI : Bookkept s) (hj : fd ∈ s.jobs) :
    Bookkept { s with clients := s.clients.erase fd, jobs := s.jobs.erase fd } := by
  refine ⟨?_, hI.clients.erase fd, hI.jobs.erase fd, fun x hx => ?_, fun x hx => ?_, fun x hx => ?_, hI.ready⟩
  · exact fun hm => hI.listen (List.mem_of_mem_erase hm)
  · refine (hI.watched x hx).imp_right fun hc => hI.clients.mem_erase_iff.mpr ⟨?_, hc⟩
    rintro rfl
    exact hI.apart x hj hx
  · obtain ⟨hne, hx⟩ := hI.jobs.mem_erase_iff.mp hx
    exact hI.clients.mem_erase_iff.mpr ⟨hne, hI.taken x hx⟩
  · exact hI.apart x (List.mem_of_mem_erase hx)

theorem step_bookkept (hI : Bookkept s) (h : s.step a = some s') : Bookkept s' := by
  cases EventLoop.step_inv h with
  | select ready =>
    refine ⟨hI.listen, hI.clients, hI.jobs, hI.watched, hI.taken, hI.apart, ?_⟩
    rintro i ⟨⟩ fd hfd -
    exact (FdSet.mem_select.mp hfd).1
  | selectFailed hi =>
    refine ⟨hI.listen, hI.clients, hI.jobs, hI.watched, hI.taken, hI.apart, fun i hi' => ?_⟩
    cases hi.symm.trans hi'
  | acceptFailed i hi => exact next_bookkept hI hi
  | accept i fd hi _ hc hl => exact next_bookkept (accepted_bookkept hI hc hl) hi
  | enqueue i hi _ hr hl => exact enqueued_bookkept hI hi hr hl
  | skip i hi => exact next_bookkept hI hi
  | cleanup =>
    refine ⟨hI.listen, hI.clients, hI.jobs, hI.watched, hI.taken, hI.apart, fun i hi => ?_⟩
    cases hi
  | closesocket fd hj => exact closed_bookkept hI hj

/-! ## Lost sockets -/

/-- No client is ever in two jobs, or in a job and watched: what can fail is that it is in neither. -/
theorem tracked_iff_mem (hI : Bookkept s) : s.Tracked ↔ ∀ fd ∈ s.clients, fd ∈ s.masterSet ∨ fd ∈ s.jobs := by
  refine forall₂_congr fun fd _ => ?_
  constructor
  · rintro (⟨hm, -⟩ | ⟨-, hj⟩)
    · exact .inl hm
    · exact .inr (List.count_pos_iff.mp (by omega))
  · rintro (hm | hj)
    · exact .inl ⟨hm, List.count_eq_zero.mpr fun hj => hI.apart fd hj hm⟩
    · exact .inr ⟨hI.apart fd hj, List.count_eq_one_of_mem hI.jobs hj⟩

/-- A step keeps every client tracked unless it accepts one into a full set. -/
theorem step_tracked (hI : Bookkept s) (h : s.step a = some s') : s'.Tracked ↔ s.Tracked ∧ s.hasRoom a := by
  rw [tracked_iff_mem hI, tracked_iff_mem (step_bookkept hI h)]
  cases EventLoop.step_inv h with
  | select | selectFailed | acceptFailed | skip | cleanup => exact (and_iff_left trivial).symm
  | accept i fd _ _ hc hl =>
    have hnot : fd ∉ s.masterSet := fun hm => (hI.watched fd hm).elim hl hc
    constructor
    · intro hT
      have hnew := hT fd (List.mem_append_right _ (List.mem_singleton_self fd))
      constructor
      · intro x hx
        refine (hT x (List.mem_append_left _ hx)).imp_left fun hm => ?_
        refine (FdSet.mem_set.mp hm).resolve_right ?_
        rintro ⟨rfl, -⟩
        exact hc hx
      · rcases hnew with hm | hj
        · exact ((FdSet.mem_set.mp hm).resolve_left hnot).2
        · exact absurd (hI.taken fd hj) hc
    · rintro ⟨hT, hroom⟩ x hx
      rcases List.mem_append.mp hx with hx | hx
      · exact (hT x hx).imp_left fun hm => FdSet.mem_set.mpr (.inl hm)
      · exact .inl (FdSet.mem_set.mpr (.inr ⟨List.mem_singleton.mp hx, hroom⟩))
  | enqueue i hi _ hr hl =>
    have hm : i ∈ s.masterSet := hI.ready i hi i hr (Nat.le_refl i)
    refine Iff.trans (forall₂_congr fun x _ => ?_) (and_iff_left trivial).symm
    simp only [EventLoop.next, EventLoop.enqueued, FdSet.mem_clr, List.mem_append, List.mem_singleton]
    by_cases hx : x = i
    · subst hx
      simp [hm]
    · simp [hx]
  | closesocket fd hj =>
    refine Iff.trans ?_ (and_iff_left trivial).symm
    constructor
    · intro hT x hx
      by_cases hne : x = fd
      · exact .inr (hne ▸ hj)
      · exact (hT x (hI.clients.mem_erase_iff.mpr ⟨hne, hx⟩)).imp_right List.mem_of_mem_erase
    · intro hT x hx
      obtain ⟨hne, hx⟩ := hI.clients.mem_erase_iff.mp hx
      exact (hT x hx).imp_right fun hxj => hI.jobs.mem_erase_iff.mpr ⟨hne, hxj⟩

/-- **When no client is lost.** In every reachable state every open client is in `master_set`, without a job, or in
exactly one job and not in `master_set`, if and only if `FD_SET` had room for every socket accepted so far. -/
theorem tracked_iff (h : run EventLoop.step (.init l) as = some s) :
    s.Tracked ↔ Meets EventLoop.step EventLoop.hasRoom (.init l) as := by
  have hiff := meets_iff (fun _ _ _ hI hs => step_bookkept hI hs) (fun _ _ _ hI hs => step_tracked hI hs)
    (init_bookkept l) h
  have hinit : (EventLoop.init l).Tracked := fun fd hfd => absurd hfd List.not_mem_nil
  exact hiff.trans (and_iff_right hinit)

/-! ### Idle clients -/

/-- The socket of client `k`, beside a listening socket 4. -/
def clientFd (k : Nat) : Nat := 8 + 4 * k

/-- One iteration of the `while`, which accepts client `k`. -/
def idleRound (k : Nat) : List EventLoop.Label :=
  .select [4] :: (List.replicate 4 .pass ++ .accept (some (clientFd k)) ::
    (List.replicate (clientFd k - 4) .pass ++ [.cleanup]))

/-- `n` clients connect one by one and send nothing. -/
def idleClients (n : Nat) : List EventLoop.Label := (List.range n).flatMap idleRound

theorem run_pass (n : Nat) {i : Nat} (hi : s.i = some i) (hle : i + n ≤ s.maxFd + 1)
    (hr : ∀ j, i ≤ j → j < i + n → j ∉ s.readSet) :
    run EventLoop.step s (List.replicate n .pass) = some { s with i := some (i + n) } := by
  induction n generalizing s i with
  | zero => rw [List.replicate_zero, run_nil, Nat.add_zero, ← hi]
  | succ n ih =>
    have hpass : s.step .pass = some (s.next i) := by
      have hnot := hr i (Nat.le_refl i) (by omega)
      have hlt : ¬s.maxFd < i := by omega
      simp [EventLoop.step, hi, hnot, hlt, EventLoop.Accepts]
    refine run_cons.mpr ⟨_, hpass, ?_⟩
    rw [ih (s := s.next i) rfl (by simp only [EventLoop.next]; omega) fun j hj hj' => hr j (by omega) (by omega)]
    simp only [EventLoop.next]
    congr 3
    omega

/-- What holds of the loop between two rounds. -/
structure Idle (n : Nat) (s : EventLoop) : Prop where
  i : s.i = none
  listenFd : s.listenFd = 4
  listening : 4 ∈ s.masterSet
  maxFd : 4 ≤ s.maxFd ∧ s.maxFd < clientFd n
  clients : s.clients = (List.range n).map clientFd
  jobs : s.jobs = []

/-- A round accepts its client and finds no other socket ready. -/
theorem idleRound_run {n : Nat} (hI : Idle n s) : ∃ t, run EventLoop.step s (idleRound n) = some t ∧
    Idle (n + 1) t ∧ t.masterSet = s.masterSet.set (clientFd n) := by
  let s₁ : EventLoop := { s with readSet := s.masterSet.select [4], i := some 0 }
  have hmax := hI.maxFd
  have hselect : s.step (.select [4]) = some s₁ := by simp [EventLoop.step, hI.i, s₁]
  have hready : ∀ j, j ∈ s.masterSet.select [4] → j = 4 := fun j hj => List.mem_singleton.mp (FdSet.mem_select.mp hj).2
  have hfirst : run EventLoop.step s₁ (List.replicate 4 .pass) = some { s₁ with i := some (0 + 4) } := by
    refine run_pass 4 rfl (by simp only [s₁]; omega) fun j _ hj hr => ?_
    have := hready j hr
    omega
  let s₂ : EventLoop := ({ s₁ with i := some (0 + 4) } : EventLoop)
  let s₃ : EventLoop := (s₂.accepted (clientFd n)).next 4
  have haccept : s₂.step (.accept (some (clientFd n))) = some s₃ := by
    have hready₄ : 4 ∈ s.masterSet.select [4] := FdSet.mem_select.mpr ⟨hI.listening, List.mem_singleton_self 4⟩
    have hacc : s₂.Accepts 4 := ⟨hmax.1, hready₄, hI.listenFd.symm⟩
    have hnew : ¬(clientFd n ∈ s₂.clients ∨ clientFd n = s₂.listenFd) := by
      simp only [s₂, s₁, hI.clients, hI.listenFd, List.mem_map, List.mem_range, clientFd]
      omega
    simp only [EventLoop.step, s₂, s₁] at hacc hnew ⊢
    rw [if_pos hacc, if_neg hnew]
  have hmax₃ : s₃.maxFd = clientFd n := if_pos hmax.2
  have hrest : run EventLoop.step s₃ (List.replicate (clientFd n - 4) .pass) =
      some { s₃ with i := some (4 + 1 + (clientFd n - 4)) } := by
    refine run_pass _ rfl (by rw [hmax₃]; omega) fun j hj _ hr => ?_
    have := hready j hr
    omega
  have hcleanup : ({ s₃ with i := some (4 + 1 + (clientFd n - 4)) } : EventLoop).step .cleanup =
      some { s₃ with i := none } := by
    have hlt : s₃.maxFd < 4 + 1 + (clientFd n - 4) := by omega
    simp only [EventLoop.step, hlt, if_true]
  refine ⟨{ s₃ with i := none }, ?_, ⟨rfl, hI.listenFd, FdSet.mem_set.mpr (.inl hI.listening), ?_, ?_, hI.jobs⟩, rfl⟩
  · refine run_cons.mpr ⟨s₁, hselect, run_append.mpr ⟨s₂, hfirst, run_cons.mpr ⟨s₃, haccept, run_append.mpr ?_⟩⟩⟩
    exact ⟨_, hrest, run_cons.mpr ⟨_, hcleanup, rfl⟩⟩
  · simp only [hmax₃, clientFd] at hmax ⊢
    omega
  · simp [s₃, s₂, s₁, EventLoop.next, EventLoop.accepted, hI.clients, List.range_succ]

theorem clientFd_new {n : Nat} {set : FdSet} (h : set.fdArray = 4 :: (List.range n).map clientFd) :
    clientFd n ∉ set := by
  intro hm
  have hm : clientFd n ∈ set.fdArray := hm
  rw [h, List.mem_cons, List.mem_map] at hm
  rcases hm with hm | ⟨k, hk, hm⟩
  · simp only [clientFd] at hm
    omega
  · rw [List.mem_range] at hk
    simp only [clientFd] at hm
    omega

/-- The first 63 clients fit beside the listening socket. -/
theorem idleClients_run {n : Nat} (hn : n ≤ 63) : ∃ s, run EventLoop.step (.init 4) (idleClients n) = some s ∧
    Idle n s ∧ s.masterSet.fdArray = 4 :: (List.range n).map clientFd := by
  induction n with
  | zero =>
    refine ⟨.init 4, rfl, ⟨rfl, rfl, by decide, ?_, rfl, rfl⟩, rfl⟩
    simp [EventLoop.init, clientFd]
  | succ n ih =>
    obtain ⟨s, hs, hI, hset⟩ := ih (by omega)
    obtain ⟨t, ht, hI', hset'⟩ := idleRound_run hI
    refine ⟨t, ?_, hI', ?_⟩
    · rw [idleClients, List.range_succ, List.flatMap_append]
      exact run_append.mpr ⟨s, hs, by simpa using ht⟩
    · have hroom : s.masterSet.hasRoom := by
        simp only [FdSet.hasRoom, hset, fdSetSize, List.length_cons, List.length_map, List.length_range]
        omega
      rw [hset', FdSet.set, dif_pos ⟨clientFd_new hset, hroom⟩]
      simp [hset, List.range_succ]

/-- The 64th is lost: `FD_SET` drops its socket, and no job is enqueued for it. -/
theorem idleClients_lost : ∃ s, run EventLoop.step (.init 4) (idleClients 64) = some s ∧ clientFd 63 ∈ s.clients ∧
    clientFd 63 ∉ s.masterSet ∧ s.jobs = [] ∧ ¬s.Tracked := by
  obtain ⟨s, hs, hI, hset⟩ := idleClients_run (Nat.le_refl 63)
  obtain ⟨t, ht, hI', hset'⟩ := idleRound_run hI
  have hfull : ¬s.masterSet.hasRoom := by simp [FdSet.hasRoom, hset, fdSetSize]
  have hnot : clientFd 63 ∉ t.masterSet := by
    rw [hset', FdSet.mem_set, not_or]
    exact ⟨clientFd_new hset, fun hm => hfull hm.2⟩
  have hclient : clientFd 63 ∈ t.clients := by
    rw [hI'.clients]
    exact List.mem_map_of_mem (List.mem_range.mpr (by omega))
  refine ⟨t, ?_, hclient, hnot, hI'.jobs, fun hT => ?_⟩
  · rw [idleClients, List.range_succ, List.flatMap_append]
    exact run_append.mpr ⟨s, hs, by simpa using ht⟩
  · rcases hT _ hclient with ⟨hm, -⟩ | ⟨-, hj⟩
    · exact hnot hm
    · simp [hI'.jobs] at hj

/-- A client is served, and its socket is that of the next client. -/
def reusedSocket : List EventLoop.Label :=
  idleRound 0 ++ .select [8] :: (List.replicate 9 .pass ++ [.cleanup, .closesocket 8]) ++ idleRound 0

theorem reusedSocket_tracked : ∃ s, run EventLoop.step (.init 4) reusedSocket = some s ∧ s.clients = [8] ∧
    s.Tracked := by
  have hrun : run EventLoop.step (.init 4) reusedSocket = some _ := rfl
  exact ⟨_, hrun, rfl, (tracked_iff hrun).mpr (by decide)⟩

end HighLoad.Http
