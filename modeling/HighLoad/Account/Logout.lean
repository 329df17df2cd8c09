import HighLoad.Account.Session
import Mathlib.Data.List.NodupEquivFin

/-!
# Logging out

A session is stored under its token, and the token is a function of the account's row, so two logins of one account get
the same token. Hence a login after a logout brings the old token back, and a logout ends the sessions of all logins
that share the token. A run in which neither happens keeps both promises, and no other run does (`logout_iff`).
-/

namespace HighLoad.Account

open Transition

variable {jwt : Jwt} {u : Users} {s s' : Server} {r : Request} {rs : List Request} {t : String}

/-- The token a login body would get: the token of the row it logs in to. -/
def Server.newToken (jwt : Jwt) (s : Server) (data : Body) : Option String := do
  let login ← data "login"
  let password ← data "password"
  let user ← checkPassword s.users login password
  let metadata ← dataBuilder s.users user.id
  let token ← createToken jwt metadata
  if token = "" then none else some token

/-- The request neither stores a token that was logged out nor logs out a token that two logins got. -/
def freshLogout (jwt : Jwt) (s : Server) : Request → Bool
  | .login data => (s.newToken jwt data).all fun t => t ∉ s.loggedOut
  | .logout (some t) => !s.checkSession (some t) || s.issued.count t ≤ 1
  | _ => true

/-- A successful logout with `t`. -/
def LogsOut (jwt : Jwt) (s : Server) (t : String) : Prop :=
  (s.serve jwt (.logout (some t))).2 = .json 200 [("info", some "You have been logged out")]

/-- Once logged out, a token is not authorised, whatever followed. -/
def StaysOut (jwt : Jwt) (u : Users) (rs : List Request) : Prop :=
  ∀ rs₁ t rs₂, rs = rs₁ ++ .logout (some t) :: rs₂ → LogsOut jwt (.after jwt (.init u) rs₁) t →
    (Server.after jwt (.init u) rs).autorization (some t) = false

/-- A logout with the token of login `i` leaves the session of every other login `j` authorised if it was. -/
def EndsOnlyOne (jwt : Jwt) (u : Users) (rs : List Request) : Prop :=
  ∀ rs₁ t, rs = rs₁ ++ [.logout (some t)] → LogsOut jwt (.after jwt (.init u) rs₁) t →
    ∀ (i j : Nat) (t' : String), i ≠ j → (Server.after jwt (.init u) rs₁).issued[i]? = some t →
      (Server.after jwt (.init u) rs₁).issued[j]? = some t' →
      (Server.after jwt (.init u) rs₁).autorization (some t') = true →
      (Server.after jwt (.init u) rs).autorization (some t') = true

/-! ## What a request does to the sessions -/

@[simp] theorem autorization_eq (s : Server) (c : Option String) : s.autorization c = s.checkSession c := by
  unfold Server.autorization; split <;> simp_all

/-- Everything a request does to the sessions: store a token, delete one, or nothing, while time may pass. -/
inductive SessionStep (jwt : Jwt) (s : Server) : Request → Server → Prop
  | login (data : Body) (t : String) (userId : Nat) : s.newToken jwt data = some t →
      SessionStep jwt s (.login data) { s with
        sessions := Function.update s.sessions t (some ⟨toString userId, s.now + 1800⟩)
        issued := s.issued ++ [t] }
  | logout (t : String) : s.checkSession (some t) = true →
      SessionStep jwt s (.logout (some t)) { s.deleteSession t with loggedOut := s.loggedOut ++ [t] }
  | other (r : Request) (s' : Server) : s'.sessions = s.sessions → s'.issued = s.issued →
      s'.loggedOut = s.loggedOut → (∀ t, r = .logout (some t) → s.checkSession (some t) = false) →
      (∀ data, r = .login data → s.newToken jwt data = none) → SessionStep jwt s r s'

theorem checkPassword_mem {login password : Value} {row : Row} (h : checkPassword u login password = some row) :
    row ∈ u.rows := by
  unfold checkPassword at h
  cases hs : u.selectLogin login with
  | none => rw [hs] at h; cases h
  | some rows =>
    rw [hs] at h
    exact selectLogin_mem hs (List.mem_of_mem_head? (checkRow_some h))

/-- A login body gets a token when its row is found and the data of this row has a token. -/
theorem newToken_iff {data : Body} : s.newToken jwt data = some t ↔
    ∃ login password row, data "login" = some login ∧ data "password" = some password ∧
      checkPassword s.users login password = some row ∧ createToken jwt row.metadata = some t ∧ t ≠ "" := by
  simp only [Server.newToken, Option.bind_eq_bind, Option.bind_eq_some_iff]
  constructor
  · rintro ⟨login, hl, password, hp, row, hrow, m, hm, t', ht', he⟩
    rw [dataBuilder, selectId_head (checkPassword_mem hrow)] at hm
    obtain rfl := Option.some.inj hm
    by_cases he' : t' = ""
    · rw [if_pos he'] at he; cases he
    · rw [if_neg he'] at he
      obtain rfl := Option.some.inj he
      exact ⟨login, password, row, hl, hp, hrow, ht', he'⟩
  · rintro ⟨login, password, row, hl, hp, hrow, ht, he⟩
    refine ⟨login, hl, password, hp, row, hrow, row.metadata, ?_, t, ht, by rw [if_neg he]⟩
    rw [dataBuilder, selectId_head (checkPassword_mem hrow), Option.map_some]

/-- `register` changes the users table only. -/
theorem register_fst (s : Server) (data : Body) : ∃ u', (s.register data).1 = { s with users := u' } := by
  unfold Server.register
  split
  · exact ⟨s.users, rfl⟩
  · split
    · exact ⟨s.users, rfl⟩
    · exact ⟨s.users, rfl⟩
    · split
      · split
        · exact ⟨_, rfl⟩
        · exact ⟨s.users, rfl⟩
      · exact ⟨s.users, rfl⟩

/-- `login` stores the new token, if there is one, and changes nothing else. -/
theorem login_fst (jwt : Jwt) (s : Server) (data : Body) :
    (s.newToken jwt data = none ∧ (s.login jwt data).1 = s) ∨
      ∃ (t : String) (userId : Nat), s.newToken jwt data = some t ∧ (s.login jwt data).1 = { s with
        sessions := Function.update s.sessions t (some ⟨toString userId, s.now + 1800⟩)
        issued := s.issued ++ [t] } := by
  unfold Server.login Server.newToken
  split
  case h_1 login password hl hp =>
    simp only [hl, hp, Option.bind_eq_bind, Option.bind_some]
    cases hu : checkPassword s.users login password with
    | none => exact .inl ⟨rfl, rfl⟩
    | some user =>
      cases hm : dataBuilder s.users user.id with
      | none => exact .inl ⟨by simp [hm], by simp [hm]⟩
      | some m =>
        cases ht : createToken jwt m with
        | none => exact .inl ⟨by simp [hm, ht], by simp [hm, Server.createSession, ht]⟩
        | some t =>
          by_cases he : t = ""
          · exact .inl ⟨by simp [hm, ht, he], by simp [hm, Server.createSession, ht, he]⟩
          · exact .inr ⟨t, user.id, by simp [hm, ht, he], by simp [hm, Server.createSession, ht, he]⟩
  case h_2 h =>
    refine .inl ⟨?_, rfl⟩
    cases hl : data "login" with
    | none => rfl
    | some login =>
      cases hp : data "password" with
      | none => rfl
      | some password => exact absurd hp (h login password hl)

theorem serve_sessionStep (jwt : Jwt) (s : Server) (r : Request) : SessionStep jwt s r (s.serve jwt r).1 := by
  cases r with
  | register data =>
    obtain ⟨u', hu⟩ := register_fst s data
    simp only [Server.serve, hu]
    exact .other _ _ rfl rfl rfl (by simp) (by simp)
  | login data =>
    simp only [Server.serve]
    rcases login_fst jwt s data with ⟨hn, hs⟩ | ⟨t, userId, ht, hs⟩
    · rw [hs]; exact .other _ _ rfl rfl rfl (by simp) (by rintro _ ⟨⟩; exact hn)
    · rw [hs]; exact .login data t userId ht
  | logout c =>
    simp only [Server.serve, Server.logout, autorization_eq]
    cases hc : s.checkSession c with
    | false => exact .other _ _ rfl rfl rfl (by rintro t ⟨⟩; exact hc) (by simp)
    | true =>
      cases c with
      | none => cases hc
      | some t => exact .logout t hc
  | me c => exact .other _ _ rfl rfl rfl (by simp) (by simp)
  | active c => exact .other _ _ rfl rfl rfl (by simp) (by simp)
  | tick d => exact .other _ _ rfl rfl rfl (by simp) (by simp)

/-- A logout succeeds exactly for an authorised token. -/
theorem logsOut_iff : LogsOut jwt s t ↔ s.checkSession (some t) = true := by
  unfold LogsOut
  simp only [Server.serve, Server.logout, autorization_eq]
  cases s.checkSession (some t) <;> simp

/-! ## Runs -/

theorem after_concat (jwt : Jwt) (s : Server) (rs : List Request) (r : Request) :
    s.after jwt (rs ++ [r]) = ((s.after jwt rs).serve jwt r).1 := by simp [Server.after]

theorem after_append (jwt : Jwt) (s : Server) (rs rs' : List Request) :
    s.after jwt (rs ++ rs') = (s.after jwt rs).after jwt rs' := by simp [Server.after]

theorem run_eq_after (jwt : Jwt) : ∀ (rs : List Request) (s : Server), run (Server.step jwt) s rs = some (s.after jwt rs)
  | [], _ => rfl
  | _ :: rs, _ => run_cons.mpr ⟨_, rfl, run_eq_after jwt rs _⟩

/-- Tokens logged out stay in the history. -/
theorem loggedOut_mono (h : t ∈ s.loggedOut) (rs : List Request) : t ∈ (s.after jwt rs).loggedOut := by
  induction rs using List.reverseRecOn with
  | nil => exact h
  | append_singleton rs r ih =>
    rw [after_concat]
    generalize s.after jwt rs = s₁ at ih ⊢
    have hs := serve_sessionStep jwt s₁ r
    generalize (s₁.serve jwt r).1 = s₂ at hs ⊢
    cases hs with
    | login => exact ih
    | logout t' => exact List.mem_append_left _ ih
    | other _ _ _ _ ho => rw [ho]; exact ih

/-- A token in the history was logged out by some request. -/
theorem loggedOut_split (h : t ∈ ((Server.init u).after jwt rs).loggedOut) :
    ∃ rs₁ rs₂, rs = rs₁ ++ .logout (some t) :: rs₂ ∧ LogsOut jwt ((Server.init u).after jwt rs₁) t := by
  induction rs using List.reverseRecOn with
  | nil => cases h
  | append_singleton rs r ih =>
    rw [after_concat] at h
    have hs := serve_sessionStep jwt ((Server.init u).after jwt rs) r
    generalize (((Server.init u).after jwt rs).serve jwt r).1 = s₂ at hs h
    cases hs with
    | login data =>
      obtain ⟨rs₁, rs₂, hr, hl⟩ := ih h
      exact ⟨rs₁, rs₂ ++ [.login data], by simp [hr], hl⟩
    | other _ _ _ _ ho =>
      rw [ho] at h
      obtain ⟨rs₁, rs₂, hr, hl⟩ := ih h
      exact ⟨rs₁, rs₂ ++ [r], by simp [hr], hl⟩
    | logout t' hc =>
      rcases List.mem_append.mp h with h | h
      · obtain ⟨rs₁, rs₂, hr, hl⟩ := ih h
        exact ⟨rs₁, rs₂ ++ [.logout (some t')], by simp [hr], hl⟩
      · obtain rfl := List.mem_singleton.mp h
        exact ⟨rs, [], rfl, logsOut_iff.mpr hc⟩

/-- Along a run that meets the condition, no token in the history has a session. -/
theorem step_deleted (hI : ∀ t ∈ s.loggedOut, s.sessions t = none) (hok : freshLogout jwt s r = true) :
    ∀ t ∈ (s.serve jwt r).1.loggedOut, (s.serve jwt r).1.sessions t = none := by
  have hs := serve_sessionStep jwt s r
  generalize (s.serve jwt r).1 = s₂ at hs ⊢
  cases hs with
  | login data t userId ht =>
    intro t' h'
    have hne : t' ≠ t := by
      rintro rfl
      simp [freshLogout, ht] at hok
      exact hok h'
    simpa [Function.update_of_ne hne] using hI t' h'
  | logout t hc =>
    intro t' h'
    by_cases he : t' = t
    · subst he; simp [Server.deleteSession]
    · rcases List.mem_append.mp h' with h' | h'
      · simpa [Server.deleteSession, Function.update_of_ne he] using hI t' h'
      · exact absurd (List.mem_singleton.mp h') he
  | other _ _ hse _ ho => rw [ho, hse]; exact hI

/-- A deleted token is not authorised. -/
theorem checkSession_deleted (h : s.sessions t = none) : s.checkSession (some t) = false := by
  simp [Server.checkSession, Server.redisGet, h]

/-- A token just stored is authorised. -/
theorem checkSession_stored (userId : Nat) (h : s.sessions t = some ⟨toString userId, s.now + 1800⟩) :
    s.checkSession (some t) = true := by
  simp [Server.checkSession, Server.redisGet, h]

/-- A successful logout puts its token in the history and changes no other session. -/
theorem serve_logout (hl : LogsOut jwt s t) :
    (s.serve jwt (.logout (some t))).1 = { s.deleteSession t with loggedOut := s.loggedOut ++ [t] } := by
  simp [Server.serve, Server.logout, logsOut_iff.mp hl]

theorem staysOut_of_meets (hm : Meets (Server.step jwt) (fun s r => freshLogout jwt s r = true) (.init u) rs) :
    StaysOut jwt u rs := by
  intro rs₁ t rs₂ hr hl
  have hI : ∀ t ∈ ((Server.init u).after jwt rs).loggedOut, ((Server.init u).after jwt rs).sessions t = none := by
    refine meets_inv (I := fun s : Server => ∀ t ∈ s.loggedOut, s.sessions t = none) ?_ (by simp [Server.init]) hm
      (run_eq_after jwt rs _)
    rintro s r s' hI hok ⟨⟩
    exact step_deleted hI hok
  have hmem : t ∈ ((Server.init u).after jwt rs).loggedOut := by
    have hrs : rs = rs₁ ++ [.logout (some t)] ++ rs₂ := by simp [hr]
    rw [hrs, after_append]
    refine loggedOut_mono ?_ rs₂
    rw [after_concat, serve_logout hl]
    exact List.mem_append_right _ (List.mem_singleton.mpr rfl)
  rw [autorization_eq]
  exact checkSession_deleted (hI t hmem)

/-- Two logins got `t` when it is twice in the history. -/
theorem two_le_count_iff {l : List String} :
    2 ≤ l.count t ↔ ∃ i j : Nat, i ≠ j ∧ l[i]? = some t ∧ l[j]? = some t := by
  rw [← List.duplicate_iff_two_le_count, List.duplicate_iff_exists_distinct_get]
  constructor
  · rintro ⟨i, j, hij, hi, hj⟩
    exact ⟨i, j, by omega, by simp [hi], by simp [hj]⟩
  · rintro ⟨i, j, hij, hi, hj⟩
    obtain ⟨hi', hi⟩ := List.getElem?_eq_some_iff.mp hi
    obtain ⟨hj', hj⟩ := List.getElem?_eq_some_iff.mp hj
    rcases Nat.lt_or_gt_of_ne hij with h | h
    · exact ⟨⟨i, hi'⟩, ⟨j, hj'⟩, h, hi.symm, hj.symm⟩
    · exact ⟨⟨j, hj'⟩, ⟨i, hi'⟩, h, hj.symm, hi.symm⟩

/-- Whether a token is authorised depends on its entry and the clock. -/
theorem checkSession_congr (h : s'.sessions t = s.sessions t) (hn : s'.now = s.now) :
    s'.checkSession (some t) = s.checkSession (some t) := by
  simp only [Server.checkSession, Server.redisGet, h, hn]

theorem endsOnlyOne_of_meets (hm : Meets (Server.step jwt) (fun s r => freshLogout jwt s r = true) (.init u) rs) :
    EndsOnlyOne jwt u rs := by
  rintro rs₁ t rfl hl i j t' hij hi hj ha
  rw [after_concat, serve_logout hl]
  rw [autorization_eq] at ha ⊢
  have hok := ((meets_append.mp hm).2 _ (run_eq_after jwt rs₁ _)).1
  simp only [freshLogout, logsOut_iff.mp hl, Bool.not_true, Bool.false_or, decide_eq_true_eq] at hok
  have hne : t' ≠ t := by
    rintro rfl
    have h2 := two_le_count_iff.mpr ⟨i, j, hij, hi, hj⟩
    omega
  rw [← ha]
  exact checkSession_congr (Function.update_of_ne hne _ _) rfl

/-- **When logouts keep their word.** Along a run, every state reached keeps logged-out tokens out and every logout
ends no session but its own, if and only if no request of the run stores a token that was logged out or logs out a token
that two logins got. -/
theorem logout_iff (jwt : Jwt) (u : Users) (rs : List Request) :
    (∀ rs', rs' <+: rs → StaysOut jwt u rs' ∧ EndsOnlyOne jwt u rs') ↔
      Meets (Server.step jwt) (fun s r => freshLogout jwt s r = true) (.init u) rs := by
  constructor
  · intro hP
    refine meets_of_split fun rs₁ r rs₂ s hrs hs => ?_
    obtain rfl : (Server.init u).after jwt rs₁ = s := Option.some.inj ((run_eq_after jwt rs₁ _).symm.trans hs)
    have hpre : rs₁ ++ [r] <+: rs := ⟨rs₂, by simp [hrs]⟩
    obtain ⟨hstay, hends⟩ := hP _ hpre
    cases r with
    | register | me | active | tick => rfl
    | login data =>
      -- A token that was logged out would be stored again, and be authorised.
      simp only [freshLogout, Option.all_eq_true, decide_eq_true_eq]
      intro t ht hout
      obtain ⟨rs₃, rs₄, rfl, hl⟩ := loggedOut_split hout
      have hno := hstay rs₃ t (rs₄ ++ [.login data]) (by simp) hl
      rw [autorization_eq, after_concat] at hno
      rcases login_fst jwt ((Server.init u).after jwt (rs₃ ++ .logout (some t) :: rs₄)) data with ⟨hn, -⟩ | h
      · rw [hn] at ht; cases ht
      · obtain ⟨t', userId, ht', hs'⟩ := h
        obtain rfl : t' = t := by simpa [ht'] using ht
        have hyes := checkSession_stored (s := (((Server.init u).after jwt
          (rs₃ ++ .logout (some t') :: rs₄)).login jwt data).1) (t := t') userId (by simp [hs'])
        simp only [Server.serve] at hno
        rw [hyes] at hno
        cases hno
    | logout c =>
      cases c with
      | none => rfl
      | some t =>
        -- The logout would end the session of the other login that got the token.
        by_contra hok
        simp only [freshLogout, Bool.or_eq_true, Bool.not_eq_true', decide_eq_true_eq, not_or, Bool.not_eq_false,
          not_le] at hok
        obtain ⟨i, j, hij, hi, hj⟩ := two_le_count_iff.mp hok.2
        have hl : LogsOut jwt _ t := logsOut_iff.mpr hok.1
        have hyes := hends rs₁ t rfl hl i j t hij hi hj (by rw [autorization_eq]; exact hok.1)
        rw [autorization_eq, after_concat, serve_logout hl,
          checkSession_deleted (by simp [Server.deleteSession])] at hyes
        cases hyes
  · rintro hm rs' ⟨rest, rfl⟩
    have hm' := (meets_append.mp hm).1
    exact ⟨staysOut_of_meets hm', endsOnlyOne_of_meets hm'⟩

/-! ## One account, two logins -/

/-- Tokens as readable text. -/
def textJwt : Jwt where
  encode m := some (toString m.userId ++ "." ++ m.login)
  decode t := if t = "1.alice" then some ⟨1, "alice", none⟩ else none

def aliceBody : Body := fun k =>
  if k = "login" then some (.str "alice") else if k = "password" then some (.str "a")
  else if k = "info" then some .null else none

/-- Alice registers, logs in, logs out and logs in again: her old token is back. -/
def loginAgain : List Request :=
  [.register aliceBody, .login aliceBody, .logout (some "1.alice"), .login aliceBody]

/-- Alice logs in twice and logs out once: both sessions are gone. -/
def loginTwice : List Request :=
  [.register aliceBody, .login aliceBody, .tick 60, .login aliceBody, .logout (some "1.alice")]

theorem loginAgain_authorised : ¬StaysOut textJwt .empty loginAgain ∧ ¬EndsOnlyOne textJwt .empty loginTwice := by
  constructor
  · intro h
    have hno := h [.register aliceBody, .login aliceBody] "1.alice" [.login aliceBody] rfl
      (by unfold LogsOut; decide)
    have hyes : (Server.after textJwt (.init .empty) loginAgain).autorization (some "1.alice") = true := by decide
    rw [hyes] at hno
    cases hno
  · intro h
    have hyes := h [.register aliceBody, .login aliceBody, .tick 60, .login aliceBody] "1.alice" rfl
      (by unfold LogsOut; decide) 0 1 "1.alice" (by decide) (by decide) (by decide) (by decide)
    have hno : (Server.after textJwt (.init .empty) loginTwice).autorization (some "1.alice") = false := by decide
    rw [hno] at hyes
    cases hyes

end HighLoad.Account
