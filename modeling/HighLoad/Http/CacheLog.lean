import Mathlib.Data.Int.Order.Basic
import HighLoad.Lib.Expiry
import HighLoad.Http.Cache

/-!
# The response cache as a log

What a `get` returns is said by the calls before it: the value of the last `put` on its key, unless that one is over
(`logGet`). The cache returns the same (`results_log`), since its data and the last puts agree from the last call on
(`call_agree`): a put replaces, and a `get` or a `cleanup` erases only what is over. So calls that put nothing may
be left out or inserted without changing what the other calls return (`results_kept`).
-/

namespace HighLoad.Http

open ByteString Expiry

namespace Cache

inductive Op where
  | put (key value : Bytes) (ttl : Int)
  | get (key : Bytes)
  | cleanup
  deriving DecidableEq

def Op.isPut : Op → Bool
  | .put .. => true
  | _ => false

/-- An operation and what the clock says inside it. -/
structure Call where
  now : Int
  op : Op

/-- One call: what it returns, if anything, and the data after it. -/
def call (data : Data) (c : Call) : Option Bytes × Data :=
  match c.op with
  | .put key value ttl => (none, put c.now key value ttl data)
  | .get key => ((get c.now key data).1, (get c.now key data).2)
  | .cleanup => (none, cleanup c.now data)

/-- What the calls return, one after the other. -/
def results : Data → List Call → List (Option Bytes)
  | _, [] => []
  | data, c :: calls => (call data c).1 :: results (call data c).2 calls

def dataAfter (data : Data) (calls : List Call) : Data := calls.foldl (fun data c => (call data c).2) data

/-- The clock does not go back. -/
def Clocked (calls : List Call) : Prop := calls.Pairwise fun c c' => c.now ≤ c'.now

/-! ## The log -/

/-- The value, the time and the `ttl_seconds` of a put on the key. -/
def Call.putOn (key : Bytes) (c : Call) : Option (Bytes × Int × Int) :=
  match c.op with
  | .put k value ttl => if k = key then some (value, c.now, ttl) else none
  | _ => none

/-- The most recent put on the key. -/
def lastPut (key : Bytes) (calls : List Call) : Option (Bytes × Int × Int) :=
  (calls.filterMap (Call.putOn key)).getLast?

/-- What the calls so far say of `get(key)` at `now`. -/
def logGet (now : Int) (key : Bytes) (calls : List Call) : Bytes :=
  match lastPut key calls with
  | some (value, t₀, ttl) => if now < t₀ + nanoseconds ttl then value else notFounded
  | none => notFounded

def logResult (past : List Call) (c : Call) : Option Bytes :=
  match c.op with
  | .get key => some (logGet c.now key past)
  | _ => none

/-- What the log says that the calls return, after the calls `past`. -/
def logResults : List Call → List Call → List (Option Bytes)
  | _, [] => []
  | past, c :: calls => logResult past c :: logResults (past ++ [c]) calls

/-- The entry that the most recent put has made. -/
def logEntry (calls : List Call) (key : Bytes) : Option Entry :=
  (lastPut key calls).map fun p => ⟨p.1, p.2.1 + nanoseconds p.2.2⟩

variable {now t ttl : Int} {key k value : Bytes} {data : Data} {calls past past' : List Call} {c : Call}

/-- Another call counts if it is a put on the key. -/
theorem lastPut_concat : lastPut key (calls ++ [c]) = (c.putOn key).or (lastPut key calls) := by
  unfold lastPut
  rw [List.filterMap_append, List.filterMap_cons, List.filterMap_nil]
  cases c.putOn key with
  | none => rw [List.append_nil, Option.none_or]
  | some p => rw [List.getLast?_append, List.getLast?_singleton, Option.some_or]

theorem putOn_put :
    Call.putOn k ⟨now, .put key value ttl⟩ = if key = k then some (value, now, ttl) else none := rfl

theorem logEntry_put :
    logEntry (calls ++ [⟨now, .put key value ttl⟩]) =
      Function.update (logEntry calls) key (some ⟨value, now + nanoseconds ttl⟩) := by
  funext k
  unfold logEntry
  rw [lastPut_concat, putOn_put]
  by_cases hk : key = k
  · rw [if_pos hk, ← hk, Function.update_self]
    rfl
  · rw [if_neg hk, Function.update_of_ne (Ne.symm hk), Option.none_or]

/-- A call that is no put leaves the log as it is. -/
theorem lastPut_skip (hc : c.op.isPut = false) (key : Bytes) : lastPut key (calls ++ [c]) = lastPut key calls := by
  have hnone : c.putOn key = none := by
    unfold Call.putOn
    cases hop : c.op with
    | put => rw [hop] at hc; cases hc
    | get | cleanup => rfl
  rw [lastPut_concat, hnone, Option.none_or]

theorem logEntry_skip (hc : c.op.isPut = false) : logEntry (calls ++ [c]) = logEntry calls := by
  funext k
  rw [logEntry, lastPut_skip hc, logEntry]

/-- A get sees what is live of the last put. -/
theorem logGet_eq :
    logGet now key calls = ((live Entry.expiresAt now (logEntry calls key)).map Entry.value).getD notFounded := by
  unfold logGet logEntry
  cases lastPut key calls with
  | none => rfl
  | some p =>
    obtain ⟨value, t₀, ttl⟩ := p
    dsimp only
    rw [Option.map_some, live_some]
    split
    · rfl
    · rfl

/-! ## The data agrees with the log -/

theorem get_eq : (get now key data).1 =
    ((live Entry.expiresAt now (data.lookup key)).map Entry.value).getD notFounded := by
  unfold get
  cases data.lookup key with
  | none => rfl
  | some e =>
    dsimp only
    rw [live_some]
    split
    · rfl
    · rfl

/-- A get erases what is over only. -/
theorem get_keeps {e : Entry} (h : data.lookup k = some e) (hlive : now < e.expiresAt) :
    (get now key data).2.lookup k = some e := by
  unfold get
  cases hkey : data.lookup key with
  | none => exact h
  | some e' =>
    dsimp only
    split
    case isTrue => exact h
    case isFalse hover =>
      have hne : k ≠ key := fun hk => by
        rw [hk, hkey] at h
        cases h
        exact hover hlive
      rwa [AList.lookup_erase_ne hne]

theorem put_lookup : (fun k => (put now key value ttl data).lookup k) =
    Function.update (fun k => data.lookup k) key (some ⟨value, now + nanoseconds ttl⟩) := by
  funext k
  by_cases hk : k = key
  · rw [hk, put, AList.lookup_insert, Function.update_self]
  · rw [put, AList.lookup_insert_ne hk, Function.update_of_ne hk]

/-- **One call keeps the agreement.** -/
theorem call_agree (h : Agree Entry.expiresAt c.now (fun k => data.lookup k) (logEntry past)) :
    Agree Entry.expiresAt c.now (fun k => (call data c).2.lookup k) (logEntry (past ++ [c])) := by
  obtain ⟨now, op⟩ := c
  cases op with
  | put key value ttl =>
    rw [logEntry_put]
    have hput := h.update key (some ⟨value, now + nanoseconds ttl⟩)
    rwa [← put_lookup] at hput
  | get key =>
    rw [logEntry_skip rfl]
    exact h.drop (fun _ _ => lookup_get) fun _ _ => get_keeps
  | cleanup =>
    rw [logEntry_skip rfl]
    exact h.drop (fun _ _ he => (lookup_cleanup.mp he).1) fun _ _ he hlive => lookup_cleanup.mpr ⟨he, hlive⟩

theorem call_result (h : Agree Entry.expiresAt c.now (fun k => data.lookup k) (logEntry past)) :
    (call data c).1 = logResult past c := by
  obtain ⟨now, op⟩ := c
  cases op with
  | put | cleanup => rfl
  | get key =>
    show some (get now key data).1 = some (logGet now key past)
    rw [get_eq, logGet_eq, h.live_eq key]

/-- The calls that follow return what the log says. -/
theorem results_agree (h : Agree Entry.expiresAt now (fun k => data.lookup k) (logEntry past)) (hc : Clocked calls)
    (hnow : ∀ c ∈ calls, now ≤ c.now) : results data calls = logResults past calls := by
  induction calls generalizing now data past with
  | nil => rfl
  | cons c calls ih =>
    obtain ⟨hhead, htail⟩ := List.pairwise_cons.mp hc
    have hagree := h.mono (hnow c List.mem_cons_self)
    rw [results, logResults, call_result hagree, ih (call_agree hagree) htail hhead]

/-- **The cache returns what the log says.** -/
theorem results_log (hc : Clocked calls) : results ∅ calls = logResults [] calls := by
  cases calls with
  | nil => rfl
  | cons c calls =>
    have hhead := (List.pairwise_cons.mp hc).1
    have hfirst : ∀ c' ∈ c :: calls, c.now ≤ c'.now := by
      intro c' hc'
      rcases List.mem_cons.mp hc' with rfl | hc'
      · exact le_rfl
      · exact hhead c' hc'
    exact results_agree (Agree.refl c.now _) hc hfirst

/-! ## Calls that put nothing -/

/-- The entries that are marked. -/
def marked {α : Type} : List Bool → List α → List α
  | true :: marks, a :: l => a :: marked marks l
  | false :: marks, _ :: l => marked marks l
  | _, _ => []

theorem marked_sublist {α : Type} : ∀ (marks : List Bool) (l : List α), (marked marks l).Sublist l
  | true :: marks, a :: l => (marked_sublist marks l).cons_cons a
  | false :: marks, a :: l => (marked_sublist marks l).cons a
  | [], _ => List.nil_sublist _
  | true :: _, [] => List.nil_sublist _
  | false :: _, [] => List.nil_sublist _

/-- The log is read through its puts. -/
theorem logResult_congr (h : ∀ k, lastPut k past = lastPut k past') : logResult past c = logResult past' c := by
  unfold logResult
  split
  · rw [logGet, logGet, h]
  · rfl

/-- Only puts may not be left out of the log. -/
theorem logResults_marked {marks : List Bool} (h : ∀ k, lastPut k past = lastPut k past')
    (hmarks : ∀ p ∈ marks.zip calls, p.1 = false → p.2.op.isPut = false) :
    marked marks (logResults past calls) = logResults past' (marked marks calls) := by
  induction calls generalizing marks past past' with
  | nil => cases marks with
    | nil => rfl
    | cons mark marks => cases mark <;> rfl
  | cons c calls ih =>
    cases marks with
    | nil => rfl
    | cons mark marks =>
      rw [List.zip_cons_cons, List.forall_mem_cons] at hmarks
      cases mark with
      | true =>
        have hnext : ∀ k, lastPut k (past ++ [c]) = lastPut k (past' ++ [c]) := fun k => by
          rw [lastPut_concat, lastPut_concat, h]
        rw [logResults, marked, marked, logResults, logResult_congr h, ih hnext hmarks.2]
      | false =>
        have hnext : ∀ k, lastPut k (past ++ [c]) = lastPut k past' := fun k => by
          rw [lastPut_skip (hmarks.1 rfl), h]
        rw [logResults, marked, marked, ih hnext hmarks.2]

/-- **Calls that put nothing may be left out**: the other ones return the same. -/
theorem results_kept {marks : List Bool} (hc : Clocked calls)
    (hmarks : ∀ p ∈ marks.zip calls, p.1 = false → p.2.op.isPut = false) :
    marked marks (results ∅ calls) = results ∅ (marked marks calls) := by
  rw [results_log hc, results_log (hc.sublist (marked_sublist marks calls))]
  exact logResults_marked (fun _ => rfl) hmarks

/-- What the log says of one call among others. -/
theorem logResults_get (rest : List Call) (c : Call) : ∀ past calls : List Call,
    (logResults past (calls ++ c :: rest))[calls.length]? = some (logResult (past ++ calls) c)
  | past, [] => by rw [List.append_nil]; rfl
  | past, c' :: calls => by
    rw [List.append_cons past c' calls]
    exact logResults_get rest c (past ++ [c']) calls

/-- After a cleanup nothing that is over is stored. -/
theorem cleanup_live {e : Entry} (h : (dataAfter data (calls ++ [⟨t, .cleanup⟩])).lookup k = some e) :
    t < e.expiresAt := by
  rw [dataAfter, List.foldl_append] at h
  exact (lookup_cleanup.mp h).2

/-- **The cache refines its log**: a get returns the value of the last put on its key until that is over, and the miss
marker otherwise; calls that put nothing, left out or inserted, change no other result; and a cleanup leaves nothing that
is over. -/
theorem cache_refines (hc : Clocked calls) :
    (∀ past t key rest, calls = past ++ ⟨t, .get key⟩ :: rest →
      (results ∅ calls)[past.length]? = some (some (logGet t key past))) ∧
    (∀ marks : List Bool, (∀ p ∈ marks.zip calls, p.1 = false → p.2.op.isPut = false) →
      marked marks (results ∅ calls) = results ∅ (marked marks calls)) ∧
    ∀ past t k e, (dataAfter ∅ (past ++ [⟨t, .cleanup⟩])).lookup k = some e → t < e.expiresAt := by
  refine ⟨fun past t key rest hcalls => ?_, fun marks => results_kept hc, fun past t k e => cleanup_live⟩
  rw [results_log hc, hcalls, logResults_get rest _ [] past]
  rfl

/-- A put for a second, looked at before and when it is over. -/
def secondPut : List Call :=
  [⟨0, .put (ascii "/") (ascii "page") 1⟩, ⟨999999999, .get (ascii "/")⟩, ⟨999999999, .cleanup⟩,
    ⟨1000000000, .get (ascii "/")⟩]

theorem secondPut_results :
    (results ∅ secondPut)[1]? = some (some (ascii "page")) ∧ (results ∅ secondPut)[3]? = some (some notFounded) := by
  have hc : Clocked secondPut := by
    unfold Clocked secondPut
    decide
  have hget := (cache_refines hc).1
  exact ⟨hget [⟨0, .put (ascii "/") (ascii "page") 1⟩] 999999999 (ascii "/") _ rfl,
    hget [⟨0, .put (ascii "/") (ascii "page") 1⟩, ⟨999999999, .get (ascii "/")⟩, ⟨999999999, .cleanup⟩] 1000000000
      (ascii "/") [] rfl⟩

end Cache

end HighLoad.Http
