import HighLoad.Account.Logout

/-!
# Authorised requests

Along a sequential run, the entry of a token says what the latest call of `create_session` or `delete_session` for it
left: gone after a `delete`, and after a `create` the id of a registered user, under a token that encodes this user's
data (`SessionInv`). So a cookie is authorised exactly while the latest call created it less than 1800 seconds ago, and
`/me` and `/active` answer with the data of the user whose id is stored (`authorisation`).
-/

namespace HighLoad.Account

variable {jwt : Jwt} {u : Users} {s s' : Server} {r : Request} {rs : List Request} {t : String}

/-- `jwt.decode` undoes `jwt.encode` with the same key. -/
def Jwt.RoundTrip (jwt : Jwt) : Prop := ∀ m t, jwt.encode m = some t → jwt.decode t = some m

/-- A call that was performed for a token. -/
inductive SessionCall where
  /-- `create_session` at this time. -/
  | create (token : String) (time : Nat)
  | delete (token : String)
  deriving DecidableEq, Repr

def SessionCall.token : SessionCall → String
  | .create token _ | .delete token => token

namespace Server

/-- The call that a request performs. -/
def sessionCall (jwt : Jwt) (s : Server) : Request → Option SessionCall
  | .login data => (s.newToken jwt data).map fun t => .create t s.now
  | .logout (some t) => if s.autorization (some t) then some (.delete t) else none
  | _ => none

/-- The calls that a run performs, in order. -/
def calls (jwt : Jwt) : Server → List Request → List SessionCall
  | _, [] => []
  | s, r :: rs => (s.sessionCall jwt r).toList ++ (s.serve jwt r).1.calls jwt rs

/-- The latest call that a run performs for `t`. -/
def latestCall (jwt : Jwt) (s : Server) (rs : List Request) (t : String) : Option SessionCall :=
  ((s.calls jwt rs).filter (·.token = t)).getLast?

end Server

/-! ## What a request does to the entry of a token -/

theorem calls_concat (jwt : Jwt) (s : Server) (rs : List Request) (r : Request) :
    s.calls jwt (rs ++ [r]) = s.calls jwt rs ++ ((s.after jwt rs).sessionCall jwt r).toList := by
  induction rs generalizing s with
  | nil => simp [Server.calls, Server.after]
  | cons r' rs ih =>
    simp only [List.cons_append, Server.calls, ih, List.append_assoc]
    rfl

/-- The latest call is the one of the last request, if that performs one for `t`. -/
theorem latestCall_concat (jwt : Jwt) (s : Server) (rs : List Request) (r : Request) (t : String) :
    s.latestCall jwt (rs ++ [r]) t =
      (((s.after jwt rs).sessionCall jwt r).filter (·.token = t)).or (s.latestCall jwt rs t) := by
  unfold Server.latestCall
  rw [calls_concat, List.filter_append, List.getLast?_append]
  cases (s.after jwt rs).sessionCall jwt r with
  | none => rfl
  | some c =>
    rw [Option.filter_some]
    by_cases h : c.token = t
    · simp [h]
    · simp [h]

/-- A login that gets a token is the login of a row, whose id it stores and whose data the token encodes. -/
theorem login_row {data : Body} (h : s.newToken jwt data = some t) : ∃ row ∈ s.users.rows,
    createToken jwt row.metadata = some t ∧ (s.login jwt data).1 = { s with
      sessions := Function.update s.sessions t (some ⟨toString row.id, s.now + 1800⟩)
      issued := s.issued ++ [t] } := by
  obtain ⟨login, password, row, hl, hp, hrow, ht, he⟩ := newToken_iff.mp h
  have hm : dataBuilder s.users row.id = some row.metadata := by
    rw [dataBuilder, selectId_head (checkPassword_mem hrow), Option.map_some]
  exact ⟨row, checkPassword_mem hrow, ht, by simp [Server.login, hl, hp, hrow, hm, Server.createSession, ht, he]⟩

/-- Rows are only added. -/
theorem serve_rows (jwt : Jwt) (s : Server) (r : Request) : s.users.rows ⊆ (s.serve jwt r).1.users.rows := by
  cases r with
  | register data =>
    simp only [Server.serve, Server.register]
    split
    · exact List.Subset.refl _
    · split
      · exact List.Subset.refl _
      · exact List.Subset.refl _
      · split
        · split
          case h_1 u' hu =>
            unfold Users.register at hu
            split at hu
            · obtain rfl := Option.some.inj hu
              exact List.subset_append_left _ _
            · cases hu
          · exact List.Subset.refl _
        · exact List.Subset.refl _
  | login data =>
    rcases login_fst jwt s data with ⟨-, hs⟩ | ⟨_, _, -, hs⟩
    · simp [Server.serve, hs]
    · simp [Server.serve, hs]
  | logout c =>
    simp only [Server.serve, Server.logout]
    split
    · exact List.Subset.refl _
    · exact List.Subset.refl _
  | me | active | tick => exact List.Subset.refl _

/-! ## The invariant -/

/-- What the latest call for `t` left under `t`. -/
def Left (jwt : Jwt) (s : Server) (t : String) : Option SessionCall → Prop
  | some (.create t' time) => t' = t ∧ ∃ row ∈ s.users.rows,
      createToken jwt row.metadata = some t ∧ s.sessions t = some ⟨toString row.id, time + 1800⟩
  | _ => s.sessions t = none

/-- The entry of every token is what its latest call left. -/
def SessionInv (jwt : Jwt) (s₀ : Server) (rs : List Request) : Prop :=
  ∀ t, Left jwt (s₀.after jwt rs) t (s₀.latestCall jwt rs t)

/-- A step that keeps the entry of `t` and the rows keeps what was left. -/
theorem Left.mono {c : Option SessionCall} (h : Left jwt s t c) (hs : s'.sessions t = s.sessions t)
    (hu : s.users.rows ⊆ s'.users.rows) : Left jwt s' t c := by
  rcases c with _ | ⟨t', time⟩ | t'
  · exact hs.trans h
  · obtain ⟨ht, row, hrow, henc, hse⟩ := h
    exact ⟨ht, row, hu hrow, henc, hs.trans hse⟩
  · exact hs.trans h

/-- One request leaves what its call says under the token of the call, and other entries alone. -/
theorem serve_left (jwt : Jwt) (s : Server) (r : Request) (t : String) {c : Option SessionCall}
    (h : Left jwt s t c) : Left jwt (s.serve jwt r).1 t (((s.sessionCall jwt r).filter (·.token = t)).or c) := by
  have hrows := serve_rows jwt s r
  have hs := serve_sessionStep jwt s r
  generalize hs' : (s.serve jwt r).1 = s' at hs hrows ⊢
  cases hs with
  | login data t' userId ht' =>
    by_cases he : t' = t
    · subst he
      obtain ⟨row, hrow, henc, hlog⟩ := login_row ht'
      simp only [Server.sessionCall, ht', Option.map_some, Option.filter_some, SessionCall.token]
      rw [Server.serve, hlog] at hs'
      rw [← hs']
      exact ⟨rfl, row, hrow, henc, Function.update_self _ _ _⟩
    · have hcall : (s.sessionCall jwt (.login data)).filter (·.token = t) = none := by
        simp [Server.sessionCall, ht', SessionCall.token, he]
      rw [hcall, Option.none_or]
      exact h.mono (Function.update_of_ne (Ne.symm he) _ _) hrows
  | logout t' ht' =>
    by_cases he : t' = t
    · subst he
      simp [Server.sessionCall, ht', SessionCall.token, Left, Server.deleteSession]
    · have hcall : (s.sessionCall jwt (.logout (some t'))).filter (·.token = t) = none := by
        simp [Server.sessionCall, ht', SessionCall.token, he]
      rw [hcall, Option.none_or]
      exact h.mono (Function.update_of_ne (Ne.symm he) _ _) hrows
  | other r s' hse _ _ hout hin =>
    have hcall : s.sessionCall jwt r = none := by
      cases r with
      | register | me | active | tick => rfl
      | login data => simp [Server.sessionCall, hin data rfl]
      | logout cookie =>
        cases cookie with
        | none => rfl
        | some t' => simp [Server.sessionCall, hout t' rfl]
    rw [hcall]
    exact h.mono (congrFun hse t) hrows

theorem after_sessionInv (jwt : Jwt) (u : Users) (rs : List Request) : SessionInv jwt (.init u) rs := by
  intro t
  induction rs using List.reverseRecOn with
  | nil => rfl
  | append_singleton rs r ih =>
    rw [after_concat, latestCall_concat]
    exact serve_left jwt _ r t ih

/-! ## What the invariant says of a cookie -/

/-- The text of an id names it. -/
theorem toString_id_inj {m n : Nat} (h : toString m = toString n) : m = n := by
  have hd : Nat.toDigits 10 m = Nat.toDigits 10 n := by
    rw [← Nat.toList_repr, ← Nat.toList_repr]
    exact congrArg String.toList h
  calc m = Nat.ofDigitChars 10 (Nat.toDigits 10 m) 0 := Nat.ofDigitChars_ten_toDigits.symm
    _ = Nat.ofDigitChars 10 (Nat.toDigits 10 n) 0 := by rw [hd]
    _ = n := Nat.ofDigitChars_ten_toDigits

/-- The session of `t` as its latest call left it and the clock see it. -/
theorem redisGet_left {c : Option SessionCall} (h : Left jwt s t c) :
    (∃ time, c = some (.create t time) ∧ s.now < time + 1800 ∧ ∃ row ∈ s.users.rows,
      createToken jwt row.metadata = some t ∧ s.redisGet t = some (toString row.id)) ∨
    (∀ time, c = some (.create t time) → ¬s.now < time + 1800) ∧ s.redisGet t = none := by
  rcases c with _ | ⟨t', time⟩ | t'
  · have hse : s.sessions t = none := h
    exact .inr ⟨by simp, by simp [Server.redisGet, hse]⟩
  · obtain ⟨rfl, row, hrow, henc, hse⟩ := h
    by_cases hn : s.now < time + 1800
    · exact .inl ⟨time, rfl, hn, row, hrow, henc, by simp [Server.redisGet, hse, hn]⟩
    · exact .inr ⟨by rintro _ ⟨⟩; exact hn, by simp [Server.redisGet, hse, hn]⟩
  · have hse : s.sessions t = none := h
    exact .inr ⟨by simp, by simp [Server.redisGet, hse]⟩

/-- A stored id is a text the handlers take for true. -/
theorem checkSession_iff {c : Option SessionCall} (h : Left jwt s t c) :
    s.checkSession (some t) = true ↔ ∃ time, c = some (.create t time) ∧ s.now < time + 1800 := by
  rcases redisGet_left h with ⟨time, hc, hn, row, -, -, hget⟩ | ⟨hc, hget⟩
  · have hne : toString row.id ≠ "" := Nat.repr_ne_empty
    simp only [Server.checkSession, hget, Option.any_some, ne_eq, hne, not_false_eq_true, decide_true, true_iff]
    exact ⟨time, hc, hn⟩
  · simp only [Server.checkSession, hget, Option.any_none, Bool.false_eq_true, false_iff, not_exists, not_and]
    exact hc

/-- A refused cookie changes nothing. -/
theorem serve_unauthorised {c : Option String} (h : s.autorization c = false)
    (hr : r = .logout c ∨ r = .me c ∨ r = .active c) : (s.serve jwt r).1 = s := by
  rcases hr with rfl | rfl | rfl
  · rw [Server.serve, Server.logout, h, Bool.not_false, if_pos rfl]
  · rfl
  · rfl

/-- **Session authorisation.** After every run: a cookie is authorised if and only if the latest call for it is a
`create_session` less than 1800 seconds old; an authorised token decodes to the data of the one registered user whose id
is stored under it, and `/me` and `/active` answer with that; an unauthorised request changes neither store. -/
theorem authorisation (hjwt : jwt.RoundTrip) (u : Users) (rs : List Request) :
    (∀ cookie, ((Server.init u).after jwt rs).autorization cookie = true ↔
      ∃ t time, cookie = some t ∧ (Server.init u).latestCall jwt rs t = some (.create t time) ∧
        ((Server.init u).after jwt rs).now < time + 1800) ∧
    (∀ t, ((Server.init u).after jwt rs).autorization (some t) = true →
      ∃ row ∈ ((Server.init u).after jwt rs).users.rows,
        ((Server.init u).after jwt rs).redisGet t = some (toString row.id) ∧
        (∀ row' ∈ ((Server.init u).after jwt rs).users.rows, toString row'.id = toString row.id → row' = row) ∧
        decodeToken jwt t = some row.metadata ∧
        (((Server.init u).after jwt rs).me jwt (some t)).2 = .json 200 [("info", row.info)] ∧
        (((Server.init u).after jwt rs).active jwt (some t)).2 = .json 200 [("info", some row.login)]) ∧
    ∀ cookie, ((Server.init u).after jwt rs).autorization cookie = false →
      ∀ r, r = .logout cookie ∨ r = .me cookie ∨ r = .active cookie →
        (((Server.init u).after jwt rs).serve jwt r).1 = (Server.init u).after jwt rs := by
  have hI := after_sessionInv jwt u rs
  unfold SessionInv at hI
  generalize (Server.init u).after jwt rs = s at hI ⊢
  refine ⟨fun cookie => ?_, fun t ht => ?_, fun cookie hc r hr => serve_unauthorised hc hr⟩
  · rw [autorization_eq]
    cases cookie with
    | none => simp [Server.checkSession]
    | some t =>
      rw [checkSession_iff (hI t)]
      constructor
      · rintro ⟨time, h, hn⟩
        exact ⟨t, time, rfl, h, hn⟩
      · rintro ⟨_, time, ⟨⟩, h, hn⟩
        exact ⟨time, h, hn⟩
  · have hc : s.checkSession (some t) = true := by rwa [autorization_eq] at ht
    obtain ⟨time, hcall, hn⟩ := (checkSession_iff (hI t)).mp hc
    rcases redisGet_left (hI t) with ⟨-, -, -, row, hrow, henc, hget⟩ | ⟨hno, -⟩
    · have hdec : decodeToken jwt t = some row.metadata := hjwt _ _ henc
      refine ⟨row, hrow, hget, fun row' hrow' hid => s.users.eq_of_id hrow' hrow (toString_id_inj hid), hdec, ?_, ?_⟩
      · simp [Server.me, Server.answer, hc, hdec, Row.metadata]
      · simp [Server.active, Server.answer, hc, hdec, Row.metadata]
    · exact absurd hn (hno time hcall)

/-- Encodes and decodes the data of one user. -/
def aliceJwt : Jwt where
  encode m := if m = ⟨1, "alice", none⟩ then some "1.alice" else none
  decode t := if t = "1.alice" then some ⟨1, "alice", none⟩ else none

/-- Alice logs in again before her session expires, and is authorised 2400 seconds after the first login. -/
theorem refreshedLogin_authorised : ∃ rs : List Request,
    rs = [.register aliceBody, .login aliceBody, .tick 1200, .login aliceBody, .tick 1200] ∧
      ((Server.init .empty).after aliceJwt rs).autorization (some "1.alice") = true := by
  refine ⟨_, rfl, ?_⟩
  have hjwt : aliceJwt.RoundTrip := by
    intro m t h
    simp only [aliceJwt, Option.ite_none_right_eq_some, Option.some.injEq] at h
    obtain ⟨rfl, rfl⟩ := h
    rfl
  exact ((authorisation hjwt .empty _).1 (some "1.alice")).mpr ⟨"1.alice", 1200, rfl, by decide, by decide⟩

end HighLoad.Account
