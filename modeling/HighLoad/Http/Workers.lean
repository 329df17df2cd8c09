import HighLoad.Lib.Transition
import HighLoad.Http.Parser

/-!
# The workers of the server

The pool's workers handle requests side by side. They share the response cache; between the `Cache::get` of a missed GET
and its `Cache::put` other workers, the `cleanup` of the event loop and the clock may move. `answered` is a history: the
requests handled so far and what each was answered.

In every reachable state an entry of the cache holds the response rendered for its key, so that every request is
answered as by a server without a cache (`run_fresh`).
-/

namespace HighLoad.Http

open ByteString Transition

inductive Worker where
  | idle
  /-- A GET missed: `response` is rendered and not yet put under `path`. -/
  | putting (raw path response : Bytes)
  deriving DecidableEq

structure Server (ι : Type) where
  data : Data
  now : Int
  worker : ι → Worker
  answered : List (Bytes × Bytes)

inductive Label (ι : Type) where
  /-- Worker `i` handles `raw`, up to `Cache::put` when it misses. -/
  | handle (i : ι) (raw : Bytes)
  | put (i : ι)
  | cleanup
  | tick (d : Nat)

variable {ι : Type} {json : Bytes → Option (List (Bytes × Bytes))}

namespace Server

/-- An empty cache, idle workers. -/
def init (ι : Type) : Server ι := ⟨∅, 0, fun _ => .idle, []⟩

def handle (json : Bytes → Option (List (Bytes × Bytes))) (s : Server ι) (raw : Bytes) : Answer × Data :=
  handleRequest json s.now raw s.data

def step [DecidableEq ι] (json : Bytes → Option (List (Bytes × Bytes))) (s : Server ι) : Label ι → Option (Server ι)
  | .handle i raw =>
    match s.worker i with
    | .putting .. => none
    | .idle =>
      match s.handle json raw with
      | (.ret response, data) => some { s with data, answered := s.answered ++ [(raw, response)] }
      | (.put path response, data) =>
        some { s with data, worker := Function.update s.worker i (.putting raw path response) }
  | .put i =>
    match s.worker i with
    | .idle => none
    | .putting raw path response => some
        { s with
          data := Cache.put s.now path response Cache.defaultTtl s.data
          worker := Function.update s.worker i .idle
          answered := s.answered ++ [(raw, response)] }
  | .cleanup => some { s with data := Cache.cleanup s.now s.data }
  | .tick d => some { s with now := s.now + d }

end Server

/-! ## What the cache holds -/

/-- The answer of a server without a cache. -/
def uncached (json : Bytes → Option (List (Bytes × Bytes))) (raw : Bytes) : Bytes :=
  if requestMethod raw = ascii "GET" then getResponse (requestPath raw)
  else if requestMethod raw = ascii "POST" then handlePost json raw
  else notImplemented

/-- Entries are the responses rendered for their path; what is answered, and what is put first, is the answer of a
server without a cache. -/
structure Fresh (json : Bytes → Option (List (Bytes × Bytes))) (s : Server ι) : Prop where
  entry : ∀ {path e}, s.data.lookup path = some e → e.value = getResponse path
  putting : ∀ {i raw path response}, s.worker i = .putting raw path response →
    response = getResponse path ∧ response = uncached json raw
  answered : ∀ {raw response}, (raw, response) ∈ s.answered → response = uncached json raw

variable {s t : Server ι} {l : Label ι}

theorem fresh_init : Fresh json (Server.init ι) where
  entry h := by cases h
  putting h := by cases h
  answered h := by cases h

/-- A request is answered as without a cache, on a hit and on a miss. -/
theorem handle_response (hs : Fresh json s) (raw : Bytes) : (s.handle json raw).1.response = uncached json raw := by
  unfold Server.handle handleRequest uncached
  split
  case isTrue =>
    dsimp only
    split
    case isTrue hhit =>
      obtain ⟨e, he, hv⟩ := Cache.get_hit hhit
      exact hv.trans (hs.entry he)
    case isFalse => rfl
  case isFalse =>
    split
    · rfl
    · rfl

/-- Handling a request leaves of the cache some entries. -/
theorem handle_lookup {raw path : Bytes} {e : Entry} (h : (s.handle json raw).2.lookup path = some e) :
    s.data.lookup path = some e := by
  unfold Server.handle handleRequest at h
  split at h
  case isTrue =>
    dsimp only at h
    split at h
    · exact Cache.lookup_get h
    · exact Cache.lookup_get h
  case isFalse =>
    split at h
    · exact h
    · exact h

/-- Handling a request of a fresh server: the answer, and the entries it leaves. -/
theorem handle_fresh {raw : Bytes} {a : Answer} {data : Data} (hs : Fresh json s)
    (hh : s.handle json raw = (a, data)) :
    a.response = uncached json raw ∧ ∀ {path e}, data.lookup path = some e → e.value = getResponse path := by
  have hr := handle_response hs raw
  have hdata : (s.handle json raw).2 = data := by rw [hh]
  rw [hh] at hr
  exact ⟨hr, fun he => hs.entry (handle_lookup (hdata ▸ he))⟩

/-- What is put is rendered for the path it is put under. -/
theorem handle_put {raw path response : Bytes} (h : (s.handle json raw).1 = .put path response) :
    response = getResponse path := by
  unfold Server.handle handleRequest at h
  split at h
  case isTrue =>
    dsimp only at h
    split at h
    · cases h
    · cases h
      rfl
  case isFalse =>
    split at h
    · cases h
    · cases h

/-- One more answer. -/
theorem answered_concat {raw response : Bytes} (hs : Fresh json s) (hr : response = uncached json raw)
    (ht : t.answered = s.answered ++ [(raw, response)]) {raw' r : Bytes} (h : (raw', r) ∈ t.answered) :
    r = uncached json raw' := by
  rw [ht] at h
  rcases List.mem_append.mp h with h | h
  · exact hs.answered h
  · cases List.mem_singleton.mp h
    exact hr

variable [DecidableEq ι]

/-- What a step can do: handle a request at once, handle it up to the put, put, or leave the requests alone. -/
theorem step_cases (h : s.step json l = some t) :
    (∃ raw response, s.handle json raw = (.ret response, t.data) ∧ t.worker = s.worker ∧
      t.answered = s.answered ++ [(raw, response)]) ∨
    (∃ i raw path response, s.handle json raw = (.put path response, t.data) ∧
      t.worker = Function.update s.worker i (.putting raw path response) ∧ t.answered = s.answered) ∨
    (∃ i raw path response, s.worker i = .putting raw path response ∧
      t.data = Cache.put s.now path response Cache.defaultTtl s.data ∧
      t.worker = Function.update s.worker i .idle ∧ t.answered = s.answered ++ [(raw, response)]) ∨
    ((t.data = s.data ∨ t.data = Cache.cleanup s.now s.data) ∧ t.worker = s.worker ∧ t.answered = s.answered) := by
  cases l with
  | handle i raw =>
    simp only [Server.step] at h
    split at h
    · cases h
    · split at h
      case h_1 response data hh =>
        cases h
        exact .inl ⟨raw, response, hh, rfl, rfl⟩
      case h_2 path response data hh =>
        cases h
        exact .inr (.inl ⟨i, raw, path, response, hh, rfl, rfl⟩)
  | put i =>
    simp only [Server.step] at h
    split at h
    · cases h
    · cases h
      exact .inr (.inr (.inl ⟨i, _, _, _, ‹_›, rfl, rfl, rfl⟩))
  | cleanup =>
    cases h
    exact .inr (.inr (.inr ⟨.inr rfl, rfl, rfl⟩))
  | tick d =>
    cases h
    exact .inr (.inr (.inr ⟨.inl rfl, rfl, rfl⟩))

theorem step_fresh (hs : Fresh json s) (h : s.step json l = some t) : Fresh json t := by
  rcases step_cases h with ⟨raw, response, hh, hw, ha⟩ | ⟨i, raw, path, response, hh, hw, ha⟩ |
    ⟨i, raw, path, response, hi, hd, hw, ha⟩ | ⟨hd, hw, ha⟩
  · obtain ⟨hr, hentry⟩ := handle_fresh hs hh
    exact ⟨hentry, fun hj => hs.putting (hw ▸ hj), answered_concat hs hr ha⟩
  · obtain ⟨hr, hentry⟩ := handle_fresh hs hh
    refine ⟨hentry, fun {j raw' p r} hj => ?_, fun hm => hs.answered (ha ▸ hm)⟩
    rw [hw] at hj
    by_cases hij : j = i
    · subst hij
      rw [Function.update_self] at hj
      cases hj
      exact ⟨handle_put (by rw [hh]), hr⟩
    · rw [Function.update_of_ne hij] at hj
      exact hs.putting hj
  · refine ⟨fun {p e} he => ?_, fun {j raw' p r} hj => ?_, answered_concat hs (hs.putting hi).2 ha⟩
    · rw [hd] at he
      rcases Cache.lookup_put he with ⟨rfl, hv⟩ | he
      · exact hv.trans (hs.putting hi).1
      · exact hs.entry he
    · rw [hw] at hj
      by_cases hij : j = i
      · subst hij
        rw [Function.update_self] at hj
        cases hj
      · rw [Function.update_of_ne hij] at hj
        exact hs.putting hj
  · refine ⟨fun {p e} he => ?_, fun hj => hs.putting (hw ▸ hj), fun hm => hs.answered (ha ▸ hm)⟩
    rcases hd with hd | hd
    · exact hs.entry (hd ▸ he)
    · rw [hd] at he
      exact hs.entry (Cache.lookup_cleanup.mp he).1

/-- **The cache holds rendered responses and is not seen in the answers**, in every reachable state. -/
theorem run_fresh {ls : List (Label ι)} (h : run (Server.step json) (Server.init ι) ls = some s) : Fresh json s :=
  run_inv (fun _ _ _ => step_fresh) fresh_init h

/-! ## Transparency -/

/-- A rendered response begins like no miss marker. -/
theorem getResponse_ne_notFounded (path : Bytes) : getResponse path ≠ Cache.notFounded := by
  intro h
  have hhead : (getResponse path).head? = some 72 := rfl
  rw [h] at hhead
  exact absurd hhead (by decide)

theorem uncached_get {raw : Bytes} (hraw : requestMethod raw = ascii "GET") :
    uncached json raw = getResponse (requestPath raw) := by
  rw [uncached, if_pos hraw]

/-- **GET caching is transparent.** In every reachable state, an entry under `path` is the response rendered for `path`,
which is not the miss marker; and every GET, handled now or answered before, gets the response rendered for its path. -/
theorem cache_transparent {ls : List (Label ι)} (h : run (Server.step json) (Server.init ι) ls = some s) :
    (∀ path e, s.data.lookup path = some e → e.value = getResponse path ∧ e.value ≠ Cache.notFounded) ∧
    (∀ raw, requestMethod raw = ascii "GET" → (s.handle json raw).1.response = getResponse (requestPath raw)) ∧
    (∀ raw response, (raw, response) ∈ s.answered → requestMethod raw = ascii "GET" →
      response = getResponse (requestPath raw)) := by
  have hs := run_fresh h
  refine ⟨fun path e he => ?_, fun raw hraw => ?_, fun raw response hr hraw => ?_⟩
  · have hv := hs.entry he
    exact ⟨hv, hv ▸ getResponse_ne_notFounded path⟩
  · rw [handle_response hs, uncached_get hraw]
  · rw [hs.answered hr, uncached_get hraw]

/-- Two workers miss the same path before either puts; a later GET hits. -/
def racingMisses : List (Label Bool) :=
  [.handle false (ascii "GET /a"), .handle true (ascii "GET /a"), .put true, .put false, .handle true (ascii "GET /a")]

theorem racingMisses_transparent : ∃ s, run (Server.step fun _ => none) (Server.init Bool) racingMisses = some s ∧
    (s.handle (fun _ => none) (ascii "GET /a")).1.response = getResponse (ascii "/a") := by
  have hrun : run (Server.step fun _ => none) (Server.init Bool) racingMisses = some _ := rfl
  exact ⟨_, hrun, (cache_transparent hrun).2.1 (ascii "GET /a") (by decide)⟩

end HighLoad.Http
