import HighLoad.Lib.Transition
import HighLoad.MetroMaps.QueryResult

/-!
# The database connection of the map server

`PostgreSQL` runs on one `io_context` thread. A step is a call of `poll_connection_status` or the handler of a wait on
the socket or of the timer, with what libpq answers in its label. Nothing calls `start_conn`, so a run may start in any
state.

`poll_connection_status` has no `else`: whatever the status, it ends in `handle_connection_error`
(`pollConnectionStatus_disconnects`). And `on_conn_established` pops every pending query, sent or not, while libpq takes
one query at a time: at most one is ever accepted (`onConnEstablished_accepted`).
-/

namespace HighLoad.MetroMaps

open ByteString Transition

/-- `PostgresPollingStatusType`. -/
inductive PollingStatus where
  | failed
  | reading
  | writing
  | ok
  | active
  deriving DecidableEq, Repr

/-- A wait on the socket: for reading or writing, from `poll_connection_status`, or for the results of a query. -/
inductive Wait where
  | pollRead
  | pollWrite
  | queryResult
  deriving DecidableEq, Repr

structure PostgreSQL where
  /-- `conn_ != nullptr`. -/
  conn : Bool
  connReady : Bool
  socketOpen : Bool
  pendingQueries : List Bytes
  /-- The waits on the socket whose handlers have not been called. -/
  waits : List Wait
  /-- The timer has a handler. -/
  timer : Bool
  /-- A query was accepted whose results have not all been consumed. -/
  busy : Bool
  results : Results
  /-- History: the queries that `PQsendQuery` accepted. No step reads it. -/
  accepted : List Bytes
  /-- History: the waits registered on the socket. No step reads it. -/
  registered : List Wait
  /-- History: the calls of `handle_connection_error`. No step reads it. -/
  connectionErrors : Nat

inductive Label where
  /-- A call of `poll_connection_status`; `accepts` are the queries that `PQsendQuery` accepts when it can. -/
  | poll (status : PollingStatus) (accepts : Bytes → Bool)
  /-- The handler of the wait number `i`, one of `poll_connection_status`, without an error. -/
  | pollHandler (i : Nat) (status : PollingStatus) (accepts : Bytes → Bool)
  /-- The handler of the wait number `i`, one for the results of a query, without an error. -/
  | resultHandler (i : Nat) (isBusy : Bool) (results : List PGresult)
  /-- The handler of the wait number `i`, with an error code. -/
  | waitError (i : Nat)
  /-- The handler of the timer: `connect` does nothing. -/
  | timer

/-- The status that `PQconnectPoll` returns in a step. -/
def Label.status : Label → Option PollingStatus
  | poll status _ => some status
  | pollHandler _ status _ => some status
  | _ => none

/-- The step gets an error code. -/
def Label.HasError : Label → Prop
  | waitError _ => True
  | _ => False

namespace PostgreSQL

/-! ## The member functions -/

/-- `socket_.async_wait`. -/
def asyncWait (s : PostgreSQL) (wait : Wait) : PostgreSQL :=
  { s with waits := s.waits ++ [wait], registered := s.registered ++ [wait] }

/-- `PQfinish` discards the connection, with the results left on it. -/
def cleanupConnection (s : PostgreSQL) : PostgreSQL :=
  let s := if s.conn then { s with conn := false, busy := false } else s
  let s := { s with connReady := false }
  if s.socketOpen then { s with socketOpen := false } else s

def reconnAftDel (s : PostgreSQL) : PostgreSQL := { s with timer := true }

def handleConnectionError (s : PostgreSQL) : PostgreSQL :=
  { s with connectionErrors := s.connectionErrors + 1 }.cleanupConnection.reconnAftDel

def waitForQueryResult (s : PostgreSQL) : PostgreSQL := s.asyncWait .queryResult

/-- `PQsendQuery` refuses without a connection, and while results are left. -/
def sendQuery (accepts : Bytes → Bool) (s : PostgreSQL) (query : Bytes) : PostgreSQL :=
  if s.conn ∧ s.busy = false ∧ accepts query then
    { s with busy := true, accepted := s.accepted ++ [query] }.waitForQueryResult
  else s

/-- `while (!pending_queries_.empty())`, with the queue taken apart. -/
def sendPending (accepts : Bytes → Bool) : List Bytes → PostgreSQL → PostgreSQL
  | [], s => s
  | query :: queries, s => sendPending accepts queries { s.sendQuery accepts query with pendingQueries := queries }

def onConnEstablished (accepts : Bytes → Bool) (s : PostgreSQL) : PostgreSQL :=
  sendPending accepts s.pendingQueries { s with connReady := true }

def pollConnectionStatus (status : PollingStatus) (accepts : Bytes → Bool) (s : PostgreSQL) : PostgreSQL :=
  let s := if status = .ok then s.onConnEstablished accepts else s
  let s := if status = .reading then s.asyncWait .pollRead else s
  let s := if status = .writing then s.asyncWait .pollWrite else s
  s.handleConnectionError

/-- The handler of `wait_for_query_result`, after `PQconsumeInput`. -/
def onQueryResult (isBusy : Bool) (results : List PGresult) (s : PostgreSQL) : PostgreSQL :=
  if isBusy then s.waitForQueryResult
  else
    let results := Results.processQueryResult { s.results with waiting := results }
    { s with results, busy := !results.waiting.isEmpty }

/-- The wait number `i`, which is one of `kinds`, is over. -/
def completeWait (s : PostgreSQL) (i : Nat) (kinds : List Wait) : Option PostgreSQL :=
  match s.waits[i]? with
  | none => none
  | some wait => if wait ∈ kinds then some { s with waits := s.waits.eraseIdx i } else none

def step (s : PostgreSQL) : Label → Option PostgreSQL
  | .poll status accepts => some (s.pollConnectionStatus status accepts)
  | .pollHandler i status accepts =>
    (s.completeWait i [.pollRead, .pollWrite]).map (pollConnectionStatus status accepts)
  | .resultHandler i isBusy results => (s.completeWait i [.queryResult]).map (onQueryResult isBusy results)
  | .waitError i => (s.completeWait i [.pollRead, .pollWrite, .queryResult]).map handleConnectionError
  | .timer => if s.timer then some { s with timer := false } else none

/-! ## What they do -/

variable {accepts : Bytes → Bool} {status : PollingStatus} {s t : PostgreSQL}

/-- A connection that was cleaned up, and waits for the timer. -/
structure Disconnected (s : PostgreSQL) : Prop where
  conn : s.conn = false
  connReady : s.connReady = false
  socket : s.socketOpen = false
  timer : s.timer = true

/-- The two guards of `cleanup_connection` make no difference. -/
theorem cleanupConnection_eq (s : PostgreSQL) : s.cleanupConnection =
    { s with conn := false, connReady := false, socketOpen := false, busy := s.busy && !s.conn } := by
  obtain ⟨conn, connReady, socketOpen, pendingQueries, waits, timer, busy, results, accepted, registered, errors⟩ := s
  cases conn with
  | true => cases socketOpen <;> simp [cleanupConnection]
  | false => cases socketOpen <;> simp [cleanupConnection]

theorem handleConnectionError_disconnects (s : PostgreSQL) : Disconnected s.handleConnectionError := by
  rw [handleConnectionError, cleanupConnection_eq]
  exact ⟨rfl, rfl, rfl, rfl⟩

@[simp] theorem handleConnectionError_errors (s : PostgreSQL) :
    s.handleConnectionError.connectionErrors = s.connectionErrors + 1 := by
  rw [handleConnectionError, cleanupConnection_eq]
  rfl

@[simp] theorem sendQuery_errors (s : PostgreSQL) (query : Bytes) :
    (s.sendQuery accepts query).connectionErrors = s.connectionErrors := by
  unfold sendQuery
  split
  · rfl
  · rfl

@[simp] theorem sendPending_errors (queries : List Bytes) (s : PostgreSQL) :
    (sendPending accepts queries s).connectionErrors = s.connectionErrors := by
  induction queries generalizing s with
  | nil => rfl
  | cons query queries ih =>
    rw [sendPending, ih]
    exact sendQuery_errors s query

/-! ### The end of `poll_connection_status` -/

/-- **Every call of `poll_connection_status` ends disconnected**, whatever the status. -/
theorem pollConnectionStatus_disconnects (status : PollingStatus) (accepts : Bytes → Bool) (s : PostgreSQL) :
    Disconnected (s.pollConnectionStatus status accepts) := handleConnectionError_disconnects _

theorem pollConnectionStatus_errors (status : PollingStatus) (accepts : Bytes → Bool) (s : PostgreSQL) :
    (s.pollConnectionStatus status accepts).connectionErrors = s.connectionErrors + 1 := by
  unfold pollConnectionStatus
  rw [handleConnectionError_errors]
  cases status with
  | failed | active => rfl
  | reading | writing => rfl
  | ok => exact congrArg (· + 1) (sendPending_errors _ _)

/-! ### The pending queries -/

/-- The queries accepted, and what is queued after them. -/
def Kept (s t : PostgreSQL) : Prop :=
  ∃ taken, t.accepted = s.accepted ++ taken ∧ taken ++ t.pendingQueries = s.pendingQueries

theorem sendPending_queue {queries : List Bytes} (hs : s.pendingQueries = queries) :
    (sendPending accepts queries s).pendingQueries = [] := by
  induction queries generalizing s with
  | nil => exact hs
  | cons query queries ih => exact ih rfl

/-- libpq takes one query at a time: the first that it accepts. -/
theorem sendPending_accepted (queries : List Bytes) (s : PostgreSQL) :
    (sendPending accepts queries s).accepted =
      s.accepted ++ if s.conn ∧ s.busy = false then (queries.find? accepts).toList else [] := by
  induction queries generalizing s with
  | nil => simp [sendPending]
  | cons query queries ih =>
    rw [sendPending, ih]
    unfold sendQuery
    by_cases hfree : s.conn ∧ s.busy = false
    · cases haccepts : accepts query with
      | true =>
        rw [if_pos ⟨hfree.1, hfree.2, rfl⟩, if_pos hfree, List.find?_cons_of_pos haccepts]
        simp [waitForQueryResult, asyncWait]
      | false =>
        rw [if_neg (by simp), List.find?_cons_of_neg (by simp [haccepts])]
    · rw [if_neg fun h => hfree ⟨h.1, h.2.1⟩, if_neg hfree, if_neg hfree]

/-- **What `on_conn_established` does to the queue**: it is empty afterwards, with one query accepted at most. -/
theorem onConnEstablished_accepted (accepts : Bytes → Bool) (s : PostgreSQL) :
    (s.onConnEstablished accepts).pendingQueries = [] ∧
      (s.onConnEstablished accepts).accepted =
        s.accepted ++ if s.conn ∧ s.busy = false then (s.pendingQueries.find? accepts).toList else [] :=
  ⟨sendPending_queue rfl, sendPending_accepted _ _⟩

/-- It keeps the pending queries only if there is none, or one that is accepted. -/
theorem onConnEstablished_kept_iff (accepts : Bytes → Bool) (s : PostgreSQL) :
    Kept s (s.onConnEstablished accepts) ↔ s.pendingQueries = [] ∨
      ∃ query, s.pendingQueries = [query] ∧ s.conn = true ∧ s.busy = false ∧ accepts query = true := by
  obtain ⟨hqueue, haccepted⟩ := onConnEstablished_accepted accepts s
  unfold Kept
  rw [hqueue, haccepted]
  constructor
  · rintro ⟨taken, htaken, hpending⟩
    obtain rfl := List.append_cancel_left htaken
    rw [List.append_nil] at hpending
    split at hpending
    case isFalse => exact .inl hpending.symm
    case isTrue hfree =>
      cases hfind : s.pendingQueries.find? accepts with
      | none =>
        rw [hfind] at hpending
        exact .inl hpending.symm
      | some query =>
        rw [hfind] at hpending
        exact .inr ⟨query, hpending.symm, hfree.1, hfree.2, List.find?_some hfind⟩
  · rintro (hnil | ⟨query, hone, hconn, hbusy, haccepts⟩)
    · exact ⟨[], by simp [hnil], by simp [hnil]⟩
    · refine ⟨[query], ?_, by simp [hone]⟩
      rw [if_pos ⟨hconn, hbusy⟩, hone, List.find?_cons_of_pos haccepts]
      rfl

end PostgreSQL

end HighLoad.MetroMaps
