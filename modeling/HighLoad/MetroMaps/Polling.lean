import HighLoad.MetroMaps.PostgreSQL

/-!
# Runs of the connection

What is expected of the polling is `Obeys`: a wait for reading or writing leaves the connection alone, an established
connection stays, with its pending queries sent or queued, and `handle_connection_error` runs on errors only. Since
every call of `poll_connection_status` ends in `handle_connection_error`, a run obeys exactly when every status that it
gets is a failure (`runs_obey_iff`), and no run makes a connection ready (`never_ready`).
-/

namespace HighLoad.MetroMaps

open ByteString Transition

namespace PostgreSQL

variable {s t u : PostgreSQL} {a : Label} {labels : List Label} {status : PollingStatus}

/-! ## Steps -/

theorem completeWait_some {i : Nat} {kinds : List Wait} (h : s.completeWait i kinds = some u) :
    (∃ wait ∈ kinds, s.waits[i]? = some wait) ∧ u = { s with waits := s.waits.eraseIdx i } := by
  unfold completeWait at h
  split at h
  case h_1 => cases h
  case h_2 wait hwait =>
    obtain ⟨hmem, h⟩ := Option.ite_none_right_eq_some.mp h
    exact ⟨⟨wait, hmem, hwait⟩, (Option.some.inj h).symm⟩

/-- Everything one step can do, one constructor a branch of `step`. -/
inductive Step (s : PostgreSQL) : Label → PostgreSQL → Prop
  | poll (status : PollingStatus) (accepts : Bytes → Bool) :
      Step s (.poll status accepts) (s.pollConnectionStatus status accepts)
  | pollHandler (i : Nat) (status : PollingStatus) (accepts : Bytes → Bool) :
      (∃ wait ∈ [Wait.pollRead, .pollWrite], s.waits[i]? = some wait) →
      Step s (.pollHandler i status accepts)
        ({ s with waits := s.waits.eraseIdx i }.pollConnectionStatus status accepts)
  | resultHandler (i : Nat) (isBusy : Bool) (results : List PGresult) :
      (∃ wait ∈ [Wait.queryResult], s.waits[i]? = some wait) →
      Step s (.resultHandler i isBusy results) ({ s with waits := s.waits.eraseIdx i }.onQueryResult isBusy results)
  | waitError (i : Nat) : (∃ wait ∈ [Wait.pollRead, .pollWrite, .queryResult], s.waits[i]? = some wait) →
      Step s (.waitError i) { s with waits := s.waits.eraseIdx i }.handleConnectionError
  | timer : s.timer = true → Step s .timer { s with timer := false }

theorem step_inv (h : s.step a = some t) : s.Step a t := by
  cases a with
  | poll status accepts =>
    obtain rfl := Option.some.inj h
    exact .poll status accepts
  | pollHandler i status accepts =>
    obtain ⟨u, hu, rfl⟩ := Option.map_eq_some_iff.mp h
    obtain ⟨hwait, rfl⟩ := completeWait_some hu
    exact .pollHandler i status accepts hwait
  | resultHandler i isBusy results =>
    obtain ⟨u, hu, rfl⟩ := Option.map_eq_some_iff.mp h
    obtain ⟨hwait, rfl⟩ := completeWait_some hu
    exact .resultHandler i isBusy results hwait
  | waitError i =>
    obtain ⟨u, hu, rfl⟩ := Option.map_eq_some_iff.mp h
    obtain ⟨hwait, rfl⟩ := completeWait_some hu
    exact .waitError i hwait
  | timer =>
    obtain ⟨htimer, h⟩ := Option.ite_none_right_eq_some.mp h
    obtain rfl := Option.some.inj h
    exact .timer htimer

/-- The handler for the results touches neither the connection nor the queue. -/
theorem onQueryResult_frame (isBusy : Bool) (results : List PGresult) (s : PostgreSQL) :
    (s.onQueryResult isBusy results).conn = s.conn ∧ (s.onQueryResult isBusy results).connReady = s.connReady ∧
      (s.onQueryResult isBusy results).connectionErrors = s.connectionErrors := by
  cases isBusy with
  | true => exact ⟨rfl, rfl, rfl⟩
  | false => exact ⟨rfl, rfl, rfl⟩

/-- A step with a status disconnects, by one call of `handle_connection_error`. -/
theorem step_status (h : s.step a = some t) (hstatus : a.status = some status) :
    Disconnected t ∧ t.connectionErrors = s.connectionErrors + 1 := by
  cases step_inv h with
  | poll status' accepts =>
    exact ⟨pollConnectionStatus_disconnects _ _ _, pollConnectionStatus_errors _ _ _⟩
  | pollHandler i status' accepts =>
    exact ⟨pollConnectionStatus_disconnects _ _ _, pollConnectionStatus_errors _ _ _⟩
  | resultHandler | waitError | timer => cases hstatus

/-- A step without a status or an error code calls no `handle_connection_error`. -/
theorem step_quiet (h : s.step a = some t) (hstatus : a.status = none) (herror : ¬a.HasError) :
    t.connectionErrors = s.connectionErrors := by
  cases step_inv h with
  | poll | pollHandler => cases hstatus
  | resultHandler i isBusy results => exact (onQueryResult_frame isBusy results _).2.2
  | waitError i => exact absurd trivial herror
  | timer => rfl

/-! ## No connection is ever ready -/

theorem step_not_ready (h : s.step a = some t) (hs : s.connReady = false) : t.connReady = false := by
  cases step_inv h with
  | poll status accepts => exact (pollConnectionStatus_disconnects _ _ _).connReady
  | pollHandler i status accepts => exact (pollConnectionStatus_disconnects _ _ _).connReady
  | resultHandler i isBusy results => exact (onQueryResult_frame isBusy results _).2.1.trans hs
  | waitError i => exact (handleConnectionError_disconnects _).connReady
  | timer => exact hs

/-- **No run makes a connection ready**, whatever libpq answers. -/
theorem never_ready (h : run step s labels = some t) (hs : s.connReady = false) : t.connReady = false :=
  run_inv (I := fun s => s.connReady = false) (fun _ _ _ hs h => step_not_ready h hs) hs h

/-! ## What is expected -/

/-- The wait that a status asks for. -/
def statusWait : PollingStatus → Option Wait
  | .reading => some .pollRead
  | .writing => some .pollWrite
  | .failed | .ok | .active => none

/-- What is expected of a step. -/
structure Obeys (s : PostgreSQL) (a : Label) (t : PostgreSQL) : Prop where
  /-- Of the waits the one that the status asks for is registered, and the connection is left as it was. -/
  waits : ∀ wait, a.status.bind statusWait = some wait →
    t.registered = s.registered ++ [wait] ∧ t.conn = s.conn ∧ t.connReady = s.connReady ∧
      t.socketOpen = s.socketOpen
  /-- The connection stands, and every pending query was accepted or is queued, in order. -/
  established : a.status = some .ok → t.conn = true ∧ t.connReady = true ∧ Kept s t
  /-- `handle_connection_error` runs on errors only. -/
  errors : t.connectionErrors ≠ s.connectionErrors → a.status = some .failed ∨ a.HasError

/-- The step from `s` obeys. -/
def StepObeys (s : PostgreSQL) (a : Label) : Prop := ∀ t, s.step a = some t → Obeys s a t

/-- If `PQconnectPoll` is called, it returns `PGRES_POLLING_FAILED`. -/
def PollFails (_ : PostgreSQL) (a : Label) : Prop := ∀ status, a.status = some status → status = .failed

theorem step_obeys_iff (h : s.step a = some t) : StepObeys s a ↔ PollFails s a := by
  constructor
  · intro hobeys status hstatus
    have herrors := (step_status h hstatus).2
    rcases (hobeys t h).errors (by omega) with hfailed | herror
    · exact Option.some.inj (hstatus.symm.trans hfailed)
    · cases a with
      | waitError i => cases hstatus
      | poll | pollHandler | resultHandler | timer => exact herror.elim
  · rintro hfails u hu
    obtain rfl := Option.some.inj (h.symm.trans hu)
    refine ⟨?_, fun hok => ?_, fun herrors => ?_⟩
    · intro wait hwait
      obtain ⟨status, hstatus, hasks⟩ := Option.bind_eq_some_iff.mp hwait
      obtain rfl := hfails status hstatus
      cases hasks
    · cases hfails _ hok
    · by_contra hnone
      rw [not_or] at hnone
      cases hstatus : a.status with
      | none => exact herrors (step_quiet h hstatus hnone.2)
      | some status => exact hnone.1 (by rw [hstatus, hfails status hstatus])

/-- **The steps of a run obey exactly when every status in it is a failure.** -/
theorem runs_obey_iff (h : run step s labels = some t) :
    Meets step StepObeys s labels ↔ Meets step PollFails s labels :=
  meets_congr (fun _ _ _ hs => step_obeys_iff hs) h

/-! ## Two runs -/

/-- A connection under way, with its pending queries. -/
def connecting (pendingQueries : List Bytes) : PostgreSQL :=
  ⟨true, false, true, pendingQueries, [], false, false, ⟨[], [], [], []⟩, [], [], 0⟩

/-- The first poll fails, and the timer expires. -/
theorem failedPoll_obeys :
    Meets step StepObeys (connecting [ascii "SELECT 1"]) [.poll .failed fun _ => true, .timer] := by
  refine (runs_obey_iff rfl).mpr ⟨?_, fun s hs => ⟨?_, fun t ht => trivial⟩⟩
  · intro status hstatus
    exact (Option.some.inj hstatus).symm
  · intro status hstatus
    cases hstatus

/-- The first poll asks for a wait for reading. -/
theorem readingPoll_disobeys :
    ¬Meets step StepObeys (connecting [ascii "SELECT 1"]) [.poll .reading fun _ => true] := by
  rintro ⟨hobeys, -⟩
  have hconn := ((hobeys _ rfl).waits .pollRead rfl).2.1
  rw [(pollConnectionStatus_disconnects .reading _ _).conn] at hconn
  cases hconn

end PostgreSQL

end HighLoad.MetroMaps
