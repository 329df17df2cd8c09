import Mathlib.Data.List.Basic
import Mathlib.Data.List.Nodup

/-!
# The users table and its cursor

The functions of `database.py`, over the table `users` and the one cursor of the connection. A request body is a JSON
object; a key may be missing. A cursor keeps the rows of the last query executed on it that were not fetched yet, or no
result when that query failed.

Two things that psycopg2 does with parameters are left out: it refuses a string with a NUL character before it sends the
query, and it adapts a list to an `ARRAY`.
-/

namespace HighLoad.Account

/-! ## Values and rows -/

/-- A JSON value, as far as PostgreSQL and the handlers tell values apart; a string has no NUL character. -/
inductive Value where
  | null
  | str (s : String)
  /-- Neither a string nor null; `text` is what a `VARCHAR` column stores for it, if psycopg2 can adapt it. -/
  | other (text : Option String)
  deriving DecidableEq, Repr

/-- The keys of a request body. -/
abbrev Body := String → Option Value

structure Row where
  id : Nat
  login : String
  password : String
  info : Option String
  deriving DecidableEq, Repr

/-- What `data_builder` returns and the token encodes. -/
structure Metadata where
  userId : Nat
  login : String
  info : Option String
  deriving DecidableEq, Repr

def Row.metadata (r : Row) : Metadata := ⟨r.id, r.login, r.info⟩

/-- The table `users`: `id SERIAL PRIMARY KEY`. -/
structure Users where
  rows : List Row
  nextId : Nat
  idLt : ∀ r ∈ rows, r.id < nextId
  idNodup : (rows.map Row.id).Nodup

def Users.empty : Users := ⟨[], 1, by simp, by simp⟩

/-- A new row takes the next id. -/
def Users.insert (u : Users) (login password : String) (info : Option String) : Users where
  rows := u.rows ++ [⟨u.nextId, login, password, info⟩]
  nextId := u.nextId + 1
  idLt := by
    intro r hr
    rcases List.mem_append.mp hr with hr | hr
    · exact Nat.lt_succ_of_lt (u.idLt r hr)
    · rw [List.mem_singleton.mp hr]; exact Nat.lt_succ_self _
  idNodup := by
    rw [List.map_append, List.nodup_append]
    refine ⟨u.idNodup, by simp, ?_⟩
    intro a ha b hb
    obtain ⟨r, hr, rfl⟩ := List.mem_map.mp ha
    obtain rfl : b = u.nextId := by simpa using hb
    exact Nat.ne_of_lt (u.idLt r hr)

/-- An id names one row. -/
theorem Users.eq_of_id (u : Users) {r r' : Row} (hr : r ∈ u.rows) (hr' : r' ∈ u.rows) (h : r.id = r'.id) : r = r' :=
  List.inj_on_of_nodup_map u.idNodup hr hr' h

/-! ## Queries -/

/-- `SELECT * FROM users WHERE login = %s`; no result when the value cannot be compared to a `VARCHAR`, as no number,
boolean, list or object can. -/
def Users.selectLogin (u : Users) : Value → Option (List Row)
  | .null => some []
  | .str s => some (u.rows.filter (·.login = s))
  | .other _ => none

/-- `SELECT * FROM users WHERE id = %s`. -/
def Users.selectId (u : Users) (id : Nat) : List Row := u.rows.filter (·.id = id)

theorem selectLogin_mem {u : Users} {v : Value} {rows : List Row} (h : u.selectLogin v = some rows) {r : Row}
    (hr : r ∈ rows) : r ∈ u.rows := by
  cases v with
  | null => cases h; cases hr
  | str x => cases h; exact (List.mem_filter.mp hr).1
  | other t => cases h

/-- The id of a row selects that row first. -/
theorem selectId_head {u : Users} {r : Row} (hr : r ∈ u.rows) : (u.selectId r.id).head? = some r := by
  cases hs : u.selectId r.id with
  | nil =>
    have hmem : r ∈ u.selectId r.id := List.mem_filter.mpr ⟨hr, by simp⟩
    rw [hs] at hmem
    cases hmem
  | cons r' rs =>
    have hmem : r' ∈ u.selectId r.id := by rw [hs]; exact List.mem_cons_self
    obtain ⟨hr', hid⟩ := List.mem_filter.mp hmem
    rw [List.head?_cons, u.eq_of_id hr' hr (of_decide_eq_true hid)]

/-- The rows of the last query not fetched yet; none when it failed. -/
abbrev Cursor := Option (List Row)

/-- `fetchone`: the next row, if any, and the cursor after it; none when it raises. -/
def Cursor.fetchone : Cursor → Option (Option Row × Cursor)
  | none => none
  | some [] => some (none, some [])
  | some (r :: rs) => some (some r, some rs)

/-- What a `VARCHAR(n)` column stores: null as null, excess spaces cut; none when the value is rejected. -/
def varchar (n : Nat) : Value → Option (Option String)
  | .null => some none
  | .str s => fit s
  | .other text => text.bind fit
where
  fit (s : String) : Option (Option String) :=
    if (s.toList.drop n).all (· = ' ') then some (some (String.ofList (s.toList.take n))) else none

/-- `INSERT INTO users`: `login` and `password` are `VARCHAR(32) NOT NULL`, `info` is `VARCHAR(100)`. -/
def Users.register (u : Users) (login password info : Value) : Option Users :=
  match varchar 32 login, varchar 32 password, varchar 100 info with
  | some (some l), some (some p), some i => some (u.insert l p i)
  | _, _, _ => none

/-- The row found by `check_password`, if its password is the one given. A missing row raises and is caught. -/
def checkRow (password : Value) : Option Row → Option Row
  | some r => if Value.str r.password = password then some r else none
  | none => none

theorem checkRow_some {v : Value} {row : Option Row} {r : Row} (h : checkRow v row = some r) : row = some r := by
  cases row with
  | none => cases h
  | some r' =>
    simp only [checkRow, Option.ite_none_right_eq_some] at h
    exact h.2

end HighLoad.Account
