import HighLoad.Account.Logout
import HighLoad.Account.Register

/-!
# Error responses

An error response should leave both stores as they were. But `/register` commits its `INSERT` and `/login` sets its
Redis entry before they reach `log.info`, which raises: `/register` keeps the table exactly when it inserts nothing,
`/login` keeps the sessions exactly when it gets no token, and `/login` never returns, since its `except` clause calls
`log.info` as well (`errors_iff`).
-/

namespace HighLoad.Account

variable {jwt : Jwt} {s : Server} {data : Body}

/-! ## What the handlers promise -/

/-- If `/register` raises or answers with a status other than 200, the users table is unchanged. -/
def RegisterKeeps (s : Server) (data : Body) : Prop :=
  (∀ content, (s.register data).2 ≠ .json 200 content) → (s.register data).1.users = s.users

/-- If `/login` raises, it created no session. -/
def LoginKeeps (jwt : Jwt) (s : Server) (data : Body) : Prop :=
  (∃ error, (s.login jwt data).2 = .raised error) →
    (s.login jwt data).1.sessions = s.sessions ∧ (s.login jwt data).1.issued = s.issued

/-- `/login` returns. -/
def LoginReturns (jwt : Jwt) (s : Server) (data : Body) : Prop := ∀ error, (s.login jwt data).2 ≠ .raised error

/-- The login is not found, and the columns take the values of the body. -/
def Inserts (s : Server) (data : Body) : Prop :=
  (∃ login, data "login" = some login ∧ checkLogin s.users login = some false) ∧ (storedLogin data).isSome

/-- The password is that of the row found, and the row's data has a token. -/
def OpensSession (jwt : Jwt) (s : Server) (data : Body) : Prop :=
  ∃ login password row token, data "login" = some login ∧ data "password" = some password ∧
    checkPassword s.users login password = some row ∧ createToken jwt row.metadata = some token ∧ token ≠ ""

/-! ## What they do -/

/-- `/register` inserts a row when it can and then raises, and otherwise changes nothing and raises. -/
theorem register_effect (s : Server) (data : Body) :
    (Inserts s data ∧ (∃ l p i, (s.register data).1.users = s.users.insert l p i) ∨
      ¬Inserts s data ∧ (s.register data).1.users = s.users) ∧ ∃ error, (s.register data).2 = .raised error := by
  unfold Server.register
  split
  case h_1 hl => exact ⟨.inr ⟨by simp [Inserts, hl], rfl⟩, _, rfl⟩
  case h_2 login hl =>
    split
    case h_1 hc => exact ⟨.inr ⟨by simp [Inserts, hl, hc], rfl⟩, _, rfl⟩
    case h_2 hc => exact ⟨.inr ⟨by simp [Inserts, hl, hc], rfl⟩, _, rfl⟩
    case h_3 hc =>
      split
      case h_1 password info hp hi =>
        rcases register_cases hl hp hi s.users with ⟨l, p, inf, hs, hu⟩ | ⟨hs, hu⟩
        · rw [hu]
          exact ⟨.inl ⟨⟨⟨login, hl, hc⟩, by simp [hs]⟩, l, p, inf, rfl⟩, _, rfl⟩
        · rw [hu]
          exact ⟨.inr ⟨by simp [Inserts, hs], rfl⟩, _, rfl⟩
      case h_2 hno =>
        refine ⟨.inr ⟨?_, rfl⟩, _, rfl⟩
        rintro ⟨-, hs⟩
        obtain ⟨l, hs⟩ := Option.isSome_iff_exists.mp hs
        simp only [storedLogin, Option.bind_eq_bind, Option.bind_eq_some_iff] at hs
        obtain ⟨_, -, password, hp, info, hi, -⟩ := hs
        exact hno password info hp hi

/-- A row more is another table. -/
theorem insert_ne (u : Users) (l p : String) (i : Option String) : u.insert l p i ≠ u := by
  intro h
  have hlen : (u.insert l p i).rows.length = u.rows.length := by rw [h]
  simp [Users.insert] at hlen

/-- Every path of `/login` ends in `log.info`. -/
theorem login_raises (jwt : Jwt) (s : Server) (data : Body) : ∃ error, (s.login jwt data).2 = .raised error := by
  unfold Server.login
  split
  · split
    · split
      · split
        · exact ⟨_, rfl⟩
        · exact ⟨_, rfl⟩
      · exact ⟨_, rfl⟩
    · exact ⟨_, rfl⟩
  · exact ⟨_, rfl⟩

theorem opensSession_iff : OpensSession jwt s data ↔ ∃ t, s.newToken jwt data = some t := by
  simp only [newToken_iff]
  constructor
  · rintro ⟨login, password, row, t, h⟩
    exact ⟨t, login, password, row, h⟩
  · rintro ⟨t, login, password, row, h⟩
    exact ⟨login, password, row, t, h⟩

/-! ## When they keep their word -/

theorem registerKeeps_iff : RegisterKeeps s data ↔ ¬Inserts s data := by
  obtain ⟨heff, error, hraise⟩ := register_effect s data
  have hno : ∀ content, (s.register data).2 ≠ .json 200 content := by simp [hraise]
  constructor
  · intro h hins
    rcases heff with ⟨-, l, p, i, hu⟩ | ⟨hn, -⟩
    · exact insert_ne s.users l p i (hu.symm.trans (h hno))
    · exact hn hins
  · intro hins _
    rcases heff with ⟨h, -⟩ | ⟨-, hu⟩
    · exact absurd h hins
    · exact hu

theorem loginKeeps_iff : LoginKeeps jwt s data ↔ ¬OpensSession jwt s data := by
  rw [opensSession_iff]
  rcases login_fst jwt s data with ⟨hn, hs⟩ | ⟨t, userId, ht, hs⟩
  · simp [LoginKeeps, hs, hn]
  · constructor
    · intro h
      have hiss := (h (login_raises jwt s data)).2
      rw [hs] at hiss
      simp at hiss
    · intro h
      exact absurd ⟨t, ht⟩ h

/-- **What error responses leave behind.** For every state and body: `/register` keeps its promise if and only if it
inserts nothing, `/login` keeps the sessions if and only if it opens none, and `/login` does not return. -/
theorem errors_iff (jwt : Jwt) (s : Server) (data : Body) :
    (RegisterKeeps s data ↔ ¬Inserts s data) ∧ (LoginKeeps jwt s data ↔ ¬OpensSession jwt s data) ∧
      ¬LoginReturns jwt s data := by
  refine ⟨registerKeeps_iff, loginKeeps_iff, fun h => ?_⟩
  obtain ⟨error, hraise⟩ := login_raises jwt s data
  exact h error hraise

/-- Alice's registration is committed and raises; her login then opens a session and raises. -/
theorem aliceErrors :
    ¬RegisterKeeps (.init .empty) aliceBody ∧
      ¬LoginKeeps textJwt ((Server.init .empty).after textJwt [.register aliceBody]) aliceBody ∧
      ¬LoginReturns textJwt (.init .empty) aliceBody := by
  refine ⟨fun h => ?_, fun h => ?_, fun h => ?_⟩
  · have hrows := congrArg (fun u => u.rows.length) (h (by rintro _ ⟨⟩))
    exact absurd hrows (by decide)
  · have hiss := (h ⟨_, rfl⟩).2
    exact absurd hiss (by decide)
  · exact h _ rfl

end HighLoad.Account
