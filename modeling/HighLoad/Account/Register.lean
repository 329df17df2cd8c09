import HighLoad.Account.Session

/-!
# Concurrent registrations

A `POST /register` calls `check_login` and then `SQL.register`. Each call is one step; the requests run in a thread
pool, so other requests may move between the two. The table has no constraint on the logins: they stay distinct exactly
when every login is still free when it is stored (`register_unique_iff`), which the check before promises only if no
other request stores the login in between, and if the login is stored as it was checked.
-/

namespace HighLoad.Account

open Transition

/-! ## The table after an insertion -/

/-- The login that `SQL.register` stores for a body; none when it is not called or raises. -/
def storedLogin (data : Body) : Option String := do
  let login ← data "login"
  let password ← data "password"
  let info ← data "info"
  match varchar 32 login, varchar 32 password, varchar 100 info with
  | some (some l), some (some _), some _ => some l
  | _, _, _ => none

theorem insert_nodup {u : Users} {l p : String} {i : Option String} :
    ((u.insert l p i).rows.map Row.login).Nodup ↔ (u.rows.map Row.login).Nodup ∧ ∀ r ∈ u.rows, r.login ≠ l := by
  simp only [Users.insert, List.map_append, List.map_cons, List.map_nil, List.nodup_append, List.mem_map,
    List.mem_singleton, forall_exists_index, and_imp, forall_apply_eq_imp_iff₂, forall_eq]
  simp

/-! ## Requests -/

/-- Where a `/register` request is. -/
inductive RegisterPc where
  /-- About to call `check_login`. -/
  | check
  /-- About to call `SQL.register`. History: `check_login` found no row among the `seen` first ones. -/
  | register (seen : Nat)
  | answered (response : Response)
  deriving DecidableEq, Repr

/-- The requests, by an index, with the shared table. -/
structure Registers (ι : Type) where
  pc : ι → RegisterPc
  users : Users

namespace Registers

variable {ι : Type}

def init (u : Users) : Registers ι := ⟨fun _ => .check, u⟩

variable [DecidableEq ι] (body : ι → Body)

def goto (s : Registers ι) (i : ι) (pc : RegisterPc) (users : Users) : Registers ι :=
  ⟨Function.update s.pc i pc, users⟩

/-- The next call of request `i`. -/
def step (s : Registers ι) (i : ι) : Option (Registers ι) :=
  match s.pc i with
  | .check =>
    match body i "login" with
    | none => some (s.goto i (.answered (.raised "KeyError")) s.users)
    | some login =>
      match checkLogin s.users login with
      | none => some (s.goto i (.answered (.raised "DatabaseError")) s.users)
      | some true =>
        some (s.goto i (.answered (logInfo (.json 400 [("message", some "This login is already registered")]))) s.users)
      | some false => some (s.goto i (.register s.users.rows.length) s.users)
  | .register _ =>
    match body i "login", body i "password", body i "info" with
    | some login, some password, some info =>
      match s.users.register login password info with
      | some u =>
        some (s.goto i (.answered (logInfo (.json 200 [("message", some "has been registered successfully")]))) u)
      | none => some (s.goto i (.answered (.raised "DatabaseError")) s.users)
    | _, _, _ => some (s.goto i (.answered (.raised "KeyError")) s.users)
  | .answered _ => none

end Registers

variable {ι : Type} [DecidableEq ι] (body : ι → Body)

/-- If request `i` is about to store a login, no row with it was stored since the request's check, and none before
either; the check itself says so unless the login is stored cut. -/
def freshLogin (s : Registers ι) (i : ι) : Bool :=
  match s.pc i, storedLogin (body i) with
  | .register seen, some l =>
    (s.users.rows.drop seen).all (·.login ≠ l) ∧
      (body i "login" = some (.str l) ∨ (s.users.rows.take seen).all (·.login ≠ l))
  | _, _ => true

variable {body} {u : Users} {s s' : Registers ι} {i : ι} {as : List ι}

/-! ## The steps -/

/-- `SQL.register` inserts the login that the body stores, or raises. -/
theorem register_cases {data : Body} {login password info : Value} (hl : data "login" = some login)
    (hp : data "password" = some password) (hi : data "info" = some info) (u : Users) :
    (∃ l p inf, storedLogin data = some l ∧ u.register login password info = some (u.insert l p inf)) ∨
      storedLogin data = none ∧ u.register login password info = none := by
  simp only [storedLogin, Users.register, hl, hp, hi, Option.bind_eq_bind, Option.bind_some]
  rcases varchar 32 login with _ | _ | l
  · exact .inr ⟨rfl, rfl⟩
  · exact .inr ⟨rfl, rfl⟩
  · rcases varchar 32 password with _ | _ | p
    · exact .inr ⟨rfl, rfl⟩
    · exact .inr ⟨rfl, rfl⟩
    · cases varchar 100 info with
      | none => exact .inr ⟨rfl, rfl⟩
      | some inf => exact .inl ⟨l, p, inf, rfl, rfl⟩

/-- What `check_login` says of a login it did not find. -/
theorem checkLogin_false {login : Value} (h : checkLogin u login = some false) :
    ∀ r ∈ u.rows, login ≠ .str r.login := by
  rintro r hr rfl
  have hmem : r ∈ u.rows.filter (·.login = r.login) := List.mem_filter.mpr ⟨hr, by simp⟩
  simp only [checkLogin, Users.selectLogin, Option.map_some, Option.some.injEq, Bool.not_eq_false'] at h
  rw [List.isEmpty_iff.mp h] at hmem
  cases hmem

/-- A step stores a login, passes the check, or answers without touching the table. -/
theorem registers_step_cases (h : s.step body i = some s') :
    (∃ seen l p inf response, s.pc i = .register seen ∧ storedLogin (body i) = some l ∧
      s' = s.goto i (.answered response) (s.users.insert l p inf)) ∨
    (∃ login, s.pc i = .check ∧ body i "login" = some login ∧ checkLogin s.users login = some false ∧
      s' = s.goto i (.register s.users.rows.length) s.users) ∨
    (∃ response, (s.pc i = .check ∨ storedLogin (body i) = none) ∧ s' = s.goto i (.answered response) s.users) := by
  unfold Registers.step at h
  split at h
  case h_1 hpc =>
    split at h
    case h_1 =>
      obtain rfl := Option.some.inj h
      exact .inr (.inr ⟨_, .inl hpc, rfl⟩)
    case h_2 login hlogin =>
      split at h
      case h_1 | h_2 =>
        obtain rfl := Option.some.inj h
        exact .inr (.inr ⟨_, .inl hpc, rfl⟩)
      case h_3 hcheck =>
        obtain rfl := Option.some.inj h
        exact .inr (.inl ⟨login, hpc, hlogin, hcheck, rfl⟩)
  case h_2 seen hpc =>
    split at h
    case h_1 login password info hl hp hi =>
      rcases register_cases hl hp hi s.users with ⟨l, p, inf, hs, hu⟩ | ⟨hs, hu⟩
      · rw [hu] at h
        obtain rfl := Option.some.inj h
        exact .inl ⟨seen, l, p, inf, _, hpc, hs, rfl⟩
      · rw [hu] at h
        obtain rfl := Option.some.inj h
        exact .inr (.inr ⟨_, .inr hs, rfl⟩)
    case h_2 hno =>
      obtain rfl := Option.some.inj h
      refine .inr (.inr ⟨_, .inr ?_, rfl⟩)
      by_contra hs
      obtain ⟨l, hs⟩ := Option.ne_none_iff_exists'.mp hs
      simp only [storedLogin, Option.bind_eq_bind, Option.bind_eq_some_iff] at hs
      obtain ⟨login, hl, password, hp, info, hi, -⟩ := hs
      exact hno login password info hl hp hi
  case h_3 => cases h

/-- A request that is not interrupted does what the handler does. -/
theorem register_alone (srv : Server) {pc : ι → RegisterPc} (hpc : pc i = .check) :
    ∃ as, (as = [i] ∨ as = [i, i]) ∧ run (Registers.step body) ⟨pc, srv.users⟩ as =
      some ⟨Function.update pc i (.answered (srv.register (body i)).2), (srv.register (body i)).1.users⟩ := by
  unfold Server.register
  cases hl : body i "login" with
  | none => exact ⟨[i], .inl rfl, by simp [run, Registers.step, Registers.goto, hpc, hl]⟩
  | some login =>
    rcases hc : checkLogin srv.users login with _ | _ | _
    · exact ⟨[i], .inl rfl, by simp [run, Registers.step, Registers.goto, hpc, hl, hc]⟩
    · refine ⟨[i, i], .inr rfl, ?_⟩
      simp only [run, Registers.step, Registers.goto, hpc, hl, hc, Option.bind_some, Function.update_self,
        Function.update_idem]
      cases hp : body i "password" with
      | none => rfl
      | some password =>
        cases hi : body i "info" with
        | none => rfl
        | some info =>
          cases hu : srv.users.register login password info with
          | none => simp [hu]
          | some u' => simp [hu]
    · exact ⟨[i], .inl rfl, by simp [run, Registers.step, Registers.goto, hpc, hl, hc]⟩

/-! ## What the check still says -/

/-- What the check of a request said of the rows it saw, which are still the first ones. -/
def Checked (body : ι → Body) (s : Registers ι) : Prop :=
  ∀ i seen, s.pc i = .register seen →
    seen ≤ s.users.rows.length ∧ ∀ r ∈ s.users.rows.take seen, body i "login" ≠ some (.str r.login)

omit [DecidableEq ι] in
theorem init_checked : Checked body (.init u) := fun _ _ h => by cases h

/-- Moving one request keeps what the checks said, if rows are only appended. -/
theorem goto_checked (hI : Checked body s) {pc : RegisterPc} {rows : List Row} {u : Users}
    (hu : u.rows = s.users.rows ++ rows)
    (hpc : ∀ seen, pc = .register seen →
      seen ≤ u.rows.length ∧ ∀ r ∈ u.rows.take seen, body i "login" ≠ some (.str r.login)) :
    Checked body (s.goto i pc u) := by
  intro j seen hj
  by_cases hji : j = i
  · subst hji
    simp only [Registers.goto, Function.update_self] at hj
    exact hpc seen hj
  · simp only [Registers.goto, Function.update_of_ne hji] at hj
    obtain ⟨hle, hno⟩ := hI j seen hj
    simp only [Registers.goto, hu]
    refine ⟨by rw [List.length_append]; omega, ?_⟩
    rwa [List.take_append_of_le_length hle]

theorem step_checked (hI : Checked body s) (h : s.step body i = some s') : Checked body s' := by
  rcases registers_step_cases h with ⟨seen, l, p, inf, response, -, -, rfl⟩ | ⟨login, -, hl, hc, rfl⟩ |
    ⟨response, -, rfl⟩
  · exact goto_checked hI rfl (by simp)
  · refine goto_checked hI (List.append_nil _).symm ?_
    rintro seen ⟨⟩
    refine ⟨Nat.le_refl _, fun r hr he => ?_⟩
    rw [List.take_length] at hr
    exact checkLogin_false hc r hr (Option.some.inj (hl.symm.trans he))
  · exact goto_checked hI (List.append_nil _).symm (by simp)

omit [DecidableEq ι] in
/-- The login about to be stored is new to the table exactly when the condition says so. -/
theorem freshLogin_iff (hI : Checked body s) {seen : Nat} {l : String} (hpc : s.pc i = .register seen)
    (hl : storedLogin (body i) = some l) : freshLogin body s i = true ↔ ∀ r ∈ s.users.rows, r.login ≠ l := by
  have hsplit : ∀ r, r ∈ s.users.rows ↔ r ∈ s.users.rows.take seen ∨ r ∈ s.users.rows.drop seen := by
    intro r
    rw [← List.mem_append, List.take_append_drop]
  simp only [freshLogin, hpc, hl, Bool.decide_and, Bool.decide_or, Bool.and_eq_true, Bool.or_eq_true,
    decide_eq_true_eq, List.all_eq_true]
  constructor
  · rintro ⟨hdrop, htake⟩ r hr
    rcases (hsplit r).mp hr with hr | hr
    · rcases htake with he | htake
      · rintro rfl
        exact (hI i seen hpc).2 r hr he
      · exact htake r hr
    · exact hdrop r hr
  · intro h
    exact ⟨fun r hr => h r ((hsplit r).mpr (.inr hr)), .inr fun r hr => h r ((hsplit r).mpr (.inl hr))⟩

/-- A step keeps the logins distinct exactly when its login is free. -/
theorem step_nodup (hI : Checked body s) (h : s.step body i = some s') :
    (s'.users.rows.map Row.login).Nodup ↔
      (s.users.rows.map Row.login).Nodup ∧ freshLogin body s i = true := by
  rcases registers_step_cases h with ⟨seen, l, p, inf, response, hpc, hl, rfl⟩ | ⟨login, hpc, -, -, rfl⟩ |
    ⟨response, hpc, rfl⟩
  · rw [freshLogin_iff hI hpc hl]
    exact insert_nodup
  · have hfresh : freshLogin body s i = true := by simp [freshLogin, hpc]
    simp [Registers.goto, hfresh]
  · have hfresh : freshLogin body s i = true := by
      rcases hpc with hpc | hl
      · simp [freshLogin, hpc]
      · simp [freshLogin, hl]
    simp [Registers.goto, hfresh]

/-- **When logins stay unique.** Along any run of concurrent registrations, from a table with distinct logins, the
logins are distinct if and only if every login was still free, in the sense of `freshLogin`, when it was stored. -/
theorem register_unique_iff (hu : (u.rows.map Row.login).Nodup) (h : run (Registers.step body) (.init u) as = some s) :
    (s.users.rows.map Row.login).Nodup ↔
      Meets (Registers.step body) (fun s i => freshLogin body s i = true) (.init u) as := by
  have hiff := meets_iff (P := fun s => (s.users.rows.map Row.login).Nodup)
    (fun _ _ _ hI hs => step_checked hI hs) (fun _ _ _ hI hs => step_nodup hI hs) init_checked h
  exact hiff.trans (and_iff_right hu)

/-- Two requests for one login. -/
def sameLogin (_ : Fin 2) : Body := fun k =>
  if k = "login" then some (.str "alice") else if k = "password" then some (.str "a") else some .null

/-- Both check before either stores. -/
theorem racingRegisters_duplicate :
    ∃ s, run (Registers.step sameLogin) (.init .empty) [0, 1, 0, 1] = some s ∧
      s.users.rows.map Row.login = ["alice", "alice"] ∧ ¬(s.users.rows.map Row.login).Nodup :=
  ⟨_, rfl, rfl, by decide⟩

/-- One request after the other: the second finds the row of the first. -/
theorem orderedRegisters_unique :
    ∃ s, run (Registers.step sameLogin) (.init .empty) [0, 0, 1] = some s ∧ (s.users.rows.map Row.login).Nodup := by
  have hrun : run (Registers.step sameLogin) (.init .empty) [0, 0, 1] = some _ := rfl
  exact ⟨_, hrun, (register_unique_iff (by decide) hrun).mpr (by decide)⟩

end HighLoad.Account
