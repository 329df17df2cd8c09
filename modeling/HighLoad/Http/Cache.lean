import Mathlib.Data.List.AList
import HighLoad.Lib.Bytes

/-!
# The response cache

`Cache` keeps rendered responses with an expiry time. Its three operations take a mutex, so each is one step; `now` is
what `steady_clock::now` returns inside it, in nanoseconds. The data is a finite map: a list of entries whose keys
differ, in the order of the hash table.

The loop of `cleanup` erases under its own iterator; what it leaves are the entries that are not over (`cleanup_loop`).
An operation leaves of the old entries some, and adds at most the one it puts (`lookup_put`, `lookup_get`,
`lookup_cleanup`); a hit returns a stored value (`get_hit`).
-/

namespace HighLoad.Http

open ByteString

structure Entry where
  value : Bytes
  expiresAt : Int
  deriving DecidableEq

abbrev Data := AList fun _ : Bytes => Entry

namespace Cache

/-- What `get` returns on a miss. -/
def notFounded : Bytes := ascii "Not Founded"

def nanoseconds (seconds : Int) : Int := seconds * 1000000000

/-- `ttl_seconds` of `put` when the caller gives none. -/
def defaultTtl : Int := 60

def put (now : Int) (key value : Bytes) (ttl : Int) (data : Data) : Data :=
  data.insert key ⟨value, now + nanoseconds ttl⟩

def get (now : Int) (key : Bytes) (data : Data) : Bytes × Data :=
  match data.lookup key with
  | some e => if now < e.expiresAt then (e.value, data) else (notFounded, data.erase key)
  | none => (notFounded, data)

/-- The loop of `cleanup` visits each entry once and erases the expired ones. -/
def cleanup (now : Int) (data : Data) : Data where
  entries := data.entries.filter fun e => now < e.2.expiresAt
  nodupKeys := data.nodupKeys.sublist List.filter_sublist

/-- The loop itself: the iterator stands on the first entry of the list, `kept` are the ones it has passed. -/
def cleanupLoop (now : Int) (kept : List (Sigma fun _ : Bytes => Entry)) :
    List (Sigma fun _ : Bytes => Entry) → List (Sigma fun _ : Bytes => Entry)
  | [] => kept
  | e :: rest =>
    if e.2.expiresAt ≤ now then cleanupLoop now kept rest
    else cleanupLoop now (kept ++ [e]) rest

variable {now ttl : Int} {key k value : Bytes} {data : Data} {e : Entry}

theorem cleanupLoop_eq (now : Int) : ∀ kept rest : List (Sigma fun _ : Bytes => Entry),
    cleanupLoop now kept rest = kept ++ rest.filter fun e => now < e.2.expiresAt
  | kept, [] => by rw [cleanupLoop, List.filter_nil, List.append_nil]
  | kept, e :: rest => by
    unfold cleanupLoop
    split
    case isTrue hover =>
      rw [cleanupLoop_eq now kept rest, List.filter_cons_of_neg (by simpa using hover)]
    case isFalse hlive =>
      rw [cleanupLoop_eq now (kept ++ [e]) rest, List.filter_cons_of_pos (by simpa using hlive), List.append_assoc]
      rfl

theorem cleanup_loop (now : Int) (data : Data) : (cleanup now data).entries = cleanupLoop now [] data.entries := by
  rw [cleanupLoop_eq, List.nil_append]
  rfl

theorem lookup_put (h : (put now key value ttl data).lookup k = some e) :
    (k = key ∧ e.value = value) ∨ data.lookup k = some e := by
  by_cases hk : k = key
  · subst hk
    rw [put, AList.lookup_insert, Option.some.injEq] at h
    subst h
    exact .inl ⟨rfl, rfl⟩
  · rw [put, AList.lookup_insert_ne hk] at h
    exact .inr h

theorem lookup_get (h : (get now key data).2.lookup k = some e) : data.lookup k = some e := by
  unfold get at h
  split at h
  case h_2 => exact h
  case h_1 =>
    split at h
    case isTrue => exact h
    case isFalse =>
      by_cases hk : k = key
      · subst hk
        rw [AList.lookup_erase] at h
        cases h
      · rwa [AList.lookup_erase_ne hk] at h

theorem lookup_cleanup : (cleanup now data).lookup k = some e ↔ data.lookup k = some e ∧ now < e.expiresAt := by
  have hmem : (⟨k, e⟩ : Sigma fun _ : Bytes => Entry) ∈ (cleanup now data).entries ↔
      ⟨k, e⟩ ∈ data.entries ∧ now < e.expiresAt := by
    simp [cleanup]
  rwa [← AList.mem_lookup_iff, ← AList.mem_lookup_iff] at hmem

/-- A hit returns the value stored under the key. -/
theorem get_hit (h : (get now key data).1 ≠ notFounded) :
    ∃ e, data.lookup key = some e ∧ (get now key data).1 = e.value := by
  unfold get at h ⊢
  split
  case h_2 hl =>
    rw [hl] at h
    exact absurd rfl h
  case h_1 e hl =>
    rw [hl] at h
    split
    case isTrue => exact ⟨e, hl, rfl⟩
    case isFalse hlt => simp [hlt] at h

end Cache

end HighLoad.Http
