import HighLoad.Lib.Transition
import HighLoad.Account.Database

/-!
# Concurrent logins on one cursor

Every `POST /login` calls `cursor.execute` and `cursor.fetchone` twice, in `check_password` and in `data_builder`, on
the one cursor of the module, and the handlers run in a thread pool. A step is one such call of one request; a cursor
keeps the result of the last query only, so a `fetchone` may return a row another request selected. While every
`fetchone` takes a row of its own request's query, the token of a login carries the row of the account that logged in
(`login_identity`); one foreign row hands out a token of another account (`crossedLogins_token`).
-/

namespace HighLoad.Account

open Transition

/-- Where a `/login` request is. -/
inductive LoginPc where
  /-- About to evaluate the arguments and to `execute` in `check_password`. -/
  | checkExecute
  | checkFetch
  /-- `check_password` returned a row with this id: about to `execute` in `data_builder`. -/
  | buildExecute (userId : Nat)
  | buildFetch (userId : Nat)
  /-- `create_session(user_id, metadata)` was called: the token stored encodes `metadata`. -/
  | session (userId : Nat) (metadata : Metadata)
  /-- Returned or raised without a call of `create_session`. -/
  | refused
  deriving DecidableEq, Repr

/-- The requests, by an index, with the shared cursor. -/
structure Logins (ι : Type) where
  pc : ι → LoginPc
  cursor : Cursor

variable {ι : Type}

/-- All requests have arrived; no query has left a result. -/
def Logins.init : Logins ι := ⟨fun _ => .checkExecute, none⟩

variable [DecidableEq ι] (u : Users) (body : ι → Body)

def Logins.goto (s : Logins ι) (i : ι) (pc : LoginPc) (cursor : Cursor) : Logins ι :=
  ⟨Function.update s.pc i pc, cursor⟩

/-- The next call of request `i`. -/
def Logins.step (s : Logins ι) (i : ι) : Option (Logins ι) :=
  match s.pc i with
  | .checkExecute =>
    match body i "login", body i "password" with
    | some login, some _ =>
      match u.selectLogin login with
      | some rows => some (s.goto i .checkFetch (some rows))
      | none => some (s.goto i .refused none)
    | _, _ => some (s.goto i .refused s.cursor)
  | .checkFetch =>
    match s.cursor.fetchone with
    | none => some (s.goto i .refused s.cursor)
    | some (row, cursor) =>
      match checkRow ((body i "password").getD .null) row with
      | some r => some (s.goto i (.buildExecute r.id) cursor)
      | none => some (s.goto i .refused cursor)
  | .buildExecute userId => some (s.goto i (.buildFetch userId) (some (u.selectId userId)))
  | .buildFetch userId =>
    match s.cursor.fetchone with
    | none => some (s.goto i .refused s.cursor)
    | some (none, cursor) => some (s.goto i .refused cursor)
    | some (some r, cursor) => some (s.goto i (.session userId r.metadata) cursor)
  | .session _ _ | .refused => none

/-- If request `i` is about to `fetchone`, the next row in the cursor is one its own query selects. -/
def ownRow (s : Logins ι) (i : ι) : Bool :=
  match s.pc i, s.cursor with
  | .checkFetch, some (r :: _) => body i "login" = some (.str r.login)
  | .buildFetch userId, some (r :: _) => r.id = userId
  | _, _ => true

/-- A token of request `i` would carry its own row: what holds at each point of a request whose rows are its own. -/
def Own (i : ι) : LoginPc → Prop
  | .buildExecute userId | .buildFetch userId => ∃ r ∈ u.rows, body i "login" = some (.str r.login) ∧ r.id = userId
  | .session userId m => ∃ r ∈ u.rows, body i "login" = some (.str r.login) ∧ r.id = userId ∧ m = r.metadata
  | _ => True

/-- All requests are on their own rows, and the cursor holds rows of the table. -/
structure RaceInv (s : Logins ι) : Prop where
  own : ∀ i, Own u body i (s.pc i)
  rows : ∀ rs, s.cursor = some rs → ∀ r ∈ rs, r ∈ u.rows

variable {u body} {s s' : Logins ι} {i : ι} {as : List ι}

omit [DecidableEq ι] in
theorem ownRow_check {r : Row} {rs : List Row} (hpc : s.pc i = .checkFetch) (hc : s.cursor = some (r :: rs)) :
    ownRow body s i = true ↔ body i "login" = some (.str r.login) := by simp [ownRow, hpc, hc]

omit [DecidableEq ι] in
theorem ownRow_build {userId : Nat} {r : Row} {rs : List Row} (hpc : s.pc i = .buildFetch userId)
    (hc : s.cursor = some (r :: rs)) : ownRow body s i = true ↔ r.id = userId := by simp [ownRow, hpc, hc]

omit [DecidableEq ι] in
theorem init_raceInv : RaceInv u body .init := ⟨fun _ => trivial, fun _ h => by cases h⟩

/-- Moving one request keeps the invariant if its new place and the new cursor do. -/
theorem goto_inv (hI : RaceInv u body s) {pc : LoginPc} {cursor : Cursor} (hpc : Own u body i pc)
    (hc : ∀ rs, cursor = some rs → ∀ r ∈ rs, r ∈ u.rows) : RaceInv u body (s.goto i pc cursor) := by
  refine ⟨fun j => ?_, hc⟩
  by_cases hj : j = i
  · subst hj; simpa [Logins.goto] using hpc
  · simpa [Logins.goto, Function.update_of_ne hj] using hI.own j

/-- What `fetchone` returns and leaves are rows of the cursor. -/
theorem fetchone_rows {c c' : Cursor} {row : Option Row} (h : c.fetchone = some (row, c')) :
    (∀ r, row = some r → ∃ rs, c = some (r :: rs)) ∧
      ∀ rs', c' = some rs' → ∃ rs, c = some rs ∧ ∀ r ∈ rs', r ∈ rs := by
  match c with
  | none => cases h
  | some [] => cases h; exact ⟨by simp, by rintro rs' ⟨⟩; exact ⟨_, rfl, fun _ h => h⟩⟩
  | some (r :: rs) =>
    cases h
    refine ⟨by rintro r' ⟨⟩; exact ⟨rs, rfl⟩, ?_⟩
    rintro rs' ⟨⟩
    exact ⟨_, rfl, fun _ h => List.mem_cons_of_mem _ h⟩

theorem step_raceInv (hI : RaceInv u body s) (hown : ownRow body s i = true) (h : s.step u body i = some s') :
    RaceInv u body s' := by
  have hi := hI.own i
  unfold Logins.step at h
  split at h
  case h_1 hpc =>
    split at h
    · split at h
      case h_1 rows hrows =>
        obtain rfl := Option.some.inj h
        exact goto_inv hI trivial (by rintro rs ⟨⟩ r hr; exact selectLogin_mem hrows hr)
      case h_2 =>
        obtain rfl := Option.some.inj h
        exact goto_inv hI trivial (by simp)
    · obtain rfl := Option.some.inj h
      exact goto_inv hI trivial hI.rows
  case h_2 hpc =>
    split at h
    case h_1 =>
      obtain rfl := Option.some.inj h
      exact goto_inv hI trivial hI.rows
    case h_2 row cursor hf =>
      obtain ⟨hrow, hrest⟩ := fetchone_rows hf
      have hc : ∀ rs', cursor = some rs' → ∀ r ∈ rs', r ∈ u.rows := by
        intro rs' hrs r hr
        obtain ⟨rs, hs, hsub⟩ := hrest rs' hrs
        exact hI.rows rs hs r (hsub r hr)
      split at h
      case h_1 r hr =>
        obtain rfl := Option.some.inj h
        obtain ⟨rs, hs⟩ := hrow r (checkRow_some hr)
        exact goto_inv hI ⟨r, hI.rows _ hs r List.mem_cons_self, (ownRow_check hpc hs).mp hown, rfl⟩ hc
      case h_2 =>
        obtain rfl := Option.some.inj h
        exact goto_inv hI trivial hc
  case h_3 userId hpc =>
    obtain rfl := Option.some.inj h
    rw [hpc] at hi
    exact goto_inv hI hi (by rintro rs ⟨⟩ r hr; exact (List.mem_filter.mp hr).1)
  case h_4 userId hpc =>
    rw [hpc] at hi
    split at h
    case h_1 =>
      obtain rfl := Option.some.inj h
      exact goto_inv hI trivial hI.rows
    case h_2 cursor hf =>
      obtain rfl := Option.some.inj h
      obtain ⟨-, hrest⟩ := fetchone_rows hf
      refine goto_inv hI trivial fun rs' hrs r hr => ?_
      obtain ⟨rs, hs, hsub⟩ := hrest rs' hrs
      exact hI.rows rs hs r (hsub r hr)
    case h_3 r cursor hf =>
      obtain rfl := Option.some.inj h
      obtain ⟨hrow, hrest⟩ := fetchone_rows hf
      obtain ⟨rs, hs⟩ := hrow r rfl
      obtain ⟨r', hr', hlogin, hid⟩ := hi
      have hrid : r.id = r'.id := by rw [(ownRow_build hpc hs).mp hown, hid]
      obtain rfl : r = r' := u.eq_of_id (hI.rows _ hs r List.mem_cons_self) hr' hrid
      refine goto_inv hI ⟨r, hr', hlogin, hid, rfl⟩ fun rs' hrs x hx => ?_
      obtain ⟨rs, hs, hsub⟩ := hrest rs' hrs
      exact hI.rows rs hs x (hsub x hx)
  case h_5 | h_6 => cases h

/-- **A token carries the identity of the account that logged in**, in every run in which each `fetchone` takes a row
of its own request's query: a request for a login that reaches `create_session` passes the metadata of the row of that
login. -/
theorem login_identity (hu : (u.rows.map Row.login).Nodup)
    (hown : Meets (Logins.step u body) (fun s i => ownRow body s i = true) .init as)
    (h : run (Logins.step u body) .init as = some s) {i : ι} {userId : Nat} {m : Metadata}
    (hs : s.pc i = .session userId m) {r : Row} (hr : r ∈ u.rows) (hl : body i "login" = some (.str r.login)) :
    userId = r.id ∧ m = r.metadata := by
  have hI : RaceInv u body s :=
    meets_inv (fun _ _ _ hI ho hs => step_raceInv hI ho hs) init_raceInv hown h
  have hi := hI.own i
  rw [hs] at hi
  obtain ⟨r', hr', hl', rfl, rfl⟩ := hi
  have hlogin : r'.login = r.login := by simpa [hl'] using hl
  obtain rfl : r' = r := List.inj_on_of_nodup_map hu hr' hr hlogin
  exact ⟨rfl, rfl⟩

/-! ## Two crossed logins -/

/-- Alice (1) and Bob (2). -/
def twoUsers : Users := (Users.empty.insert "alice" "a" none).insert "bob" "b" none

def loginBody (login password : String) : Body := fun k =>
  if k = "login" then some (.str login) else if k = "password" then some (.str password) else none

/-- Request 0 is Alice's, request 1 Bob's, both with the right password. -/
def twoLogins (i : Fin 2) : Body := if i = 0 then loginBody "alice" "a" else loginBody "bob" "b"

/-- Bob's login runs between Alice's two queries, each `fetchone` after its own `execute`. -/
def orderedLogins : List (Fin 2) := [0, 0, 1, 1, 1, 1, 0, 0]

theorem orderedLogins_own :
    Meets (Logins.step twoUsers twoLogins) (fun s i => ownRow twoLogins s i = true) .init orderedLogins := by
  decide

theorem orderedLogins_identity :
    ∃ s m, run (Logins.step twoUsers twoLogins) .init orderedLogins = some s ∧ s.pc 0 = .session 1 m ∧
      m = ⟨1, "alice", none⟩ :=
  ⟨_, _, rfl, rfl, (login_identity (i := 0) (r := ⟨1, "alice", "a", none⟩) (by decide) orderedLogins_own rfl rfl
    (by decide) rfl).2⟩

/-- Alice's `data_builder` has executed its query when Bob's `check_password` executes his; then Alice fetches. -/
def crossedLogins : List (Fin 2) := [0, 0, 0, 1, 0]

/-- Alice's token carries Bob's identity. -/
theorem crossedLogins_token :
    ∃ s, run (Logins.step twoUsers twoLogins) .init crossedLogins = some s ∧
      s.pc 0 = .session 1 ⟨2, "bob", none⟩ ∧ (twoUsers.rows.map Row.login).Nodup ∧
      ⟨1, "alice", "a", none⟩ ∈ twoUsers.rows ∧
      twoLogins 0 "login" = some (.str "alice") ∧ twoLogins 0 "password" = some (.str "a") :=
  ⟨_, rfl, rfl, by decide, by decide, rfl, rfl⟩

end HighLoad.Account
