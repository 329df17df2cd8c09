import HighLoad.Lib.Words
import HighLoad.Http.Client

/-!
# The request line

`handle_request` takes method, path and version off the whole request with `>>`, which skips line ends like any other
white space: they are the first three tokens of the request (`requestMethod_eq`, `requestPath_eq`, `requestVersion_eq`),
whatever lines these stand on. Where the first line has three tokens they are those (`tokens_firstLine`). A request
whose first line has not is answered with 200 all the same when its first token is GET, or POST and its body is JSON
(`handle_request_line_iff`).
-/

namespace HighLoad.Http

open ByteString Words Transition

/-! ## Tokens -/

/-- The third token, which `handle_request` reads and does not use. -/
def requestVersion (raw : Bytes) : Bytes := (extract (extract (extract raw).2).2).1

def tokens (bs : Bytes) : List Bytes := words isSpace bs

/-- Up to the first CRLF, or all of it. -/
def firstLine (raw : Bytes) : Bytes :=
  match find (ascii "\r\n") raw with
  | some pos => raw.take pos
  | none => raw

variable {ι : Type} {json : Bytes → Option (List (Bytes × Bytes))} {raw : Bytes}

theorem extract_eq (stream : Bytes) : extract stream = takeWord isSpace stream := by
  rw [extract, List.span_eq_takeWhile_dropWhile, takeWord]

theorem extract_tokens (stream : Bytes) :
    (extract stream).1 = (tokens stream).headD [] ∧ tokens (extract stream).2 = (tokens stream).tail := by
  rw [extract_eq]
  exact words_takeWord isSpace stream

theorem requestMethod_eq (raw : Bytes) : requestMethod raw = (tokens raw).headD [] := (extract_tokens raw).1

theorem requestPath_eq (raw : Bytes) : requestPath raw = (tokens raw).tail.headD [] := by
  rw [requestPath, (extract_tokens _).1, (extract_tokens raw).2]

theorem requestVersion_eq (raw : Bytes) : requestVersion raw = (tokens raw).tail.tail.headD [] := by
  rw [requestVersion, (extract_tokens _).1, (extract_tokens _).2, (extract_tokens raw).2]

/-- What `find` has found. -/
theorem find_split {sub : Bytes} : ∀ {bs : Bytes} {pos : Nat}, find sub bs = some pos →
    bs = bs.take pos ++ (sub ++ bs.drop (pos + sub.length))
  | [], pos, h => by
    simp only [find, Option.ite_none_right_eq_some, Option.some.injEq] at h
    obtain ⟨rfl, rfl⟩ := h
    rfl
  | b :: bs, pos, h => by
    unfold find at h
    split at h
    case isTrue htake =>
      obtain rfl := Option.some.inj h
      have hcut := List.take_append_drop sub.length (b :: bs)
      rw [htake] at hcut
      rw [List.take_zero, List.nil_append, Nat.zero_add]
      exact hcut.symm
    case isFalse =>
      obtain ⟨p, hp, rfl⟩ := Option.map_eq_some_iff.mp h
      rw [Nat.add_right_comm, List.take_succ_cons, List.drop_succ_cons, List.cons_append, ← find_split hp]

/-- **The tokens of a request begin with those of its first line.** -/
theorem tokens_firstLine (raw : Bytes) : ∃ rest, tokens raw = tokens (firstLine raw) ++ rest := by
  unfold firstLine
  cases hf : find (ascii "\r\n") raw with
  | none => exact ⟨[], (List.append_nil _).symm⟩
  | some pos =>
    have hcr : isSpace 13 := by decide
    have hcrlf : ascii "\r\n" = [13, 10] := by decide
    have hsplit := find_split hf
    rw [hcrlf, List.cons_append] at hsplit
    refine ⟨words isSpace ([10] ++ raw.drop (pos + 2)), ?_⟩
    rw [tokens, hsplit, words_append hcr, ← hsplit]
    rfl

/-- Three tokens in the first line are method, path and version. -/
theorem firstLine_request {method path version : Bytes} (h : tokens (firstLine raw) = [method, path, version]) :
    requestMethod raw = method ∧ requestPath raw = path ∧ requestVersion raw = version ∧ path ≠ [] := by
  obtain ⟨rest, hrest⟩ := tokens_firstLine raw
  have hpath : path ∈ tokens (firstLine raw) := by simp [h]
  rw [h] at hrest
  rw [requestMethod_eq, requestPath_eq, requestVersion_eq, hrest]
  exact ⟨rfl, rfl, rfl, ne_nil_of_mem_words hpath⟩

/-! ## The status -/

def StatusOk (response : Bytes) : Prop := ascii "HTTP/1.1 200 OK\r\n" <+: response

theorem StatusOk.digit {response : Bytes} (h : StatusOk response) : statusDigit response = some 50 := by
  obtain ⟨rest, rfl⟩ := h
  rfl

theorem not_statusOk {response : Bytes} {digit : UInt8} (h : statusDigit response = some digit) (hne : digit ≠ 50) :
    ¬StatusOk response := by
  intro hok
  exact hne (Option.some.inj (h.symm.trans hok.digit))

theorem statusOk_textResponse (body : Bytes) : StatusOk (textResponse "200 OK" body) :=
  ⟨ascii "Content-Length: " ++ (decimal body.length ++
    (ascii "\r\nContent-Type: text/plain\r\nConnection: close\r\n\r\n" ++ body)),
    by simp only [textResponse, List.append_assoc]; rfl⟩

/-- The first token is GET, or POST with a header block and a body that is JSON. -/
def Accepted (json : Bytes → Option (List (Bytes × Bytes))) (raw : Bytes) : Prop :=
  requestMethod raw = ascii "GET" ∨ requestMethod raw = ascii "POST" ∧
    ∃ pos, find (ascii "\r\n\r\n") raw = some pos ∧ (json (raw.drop (pos + 4))).isSome

theorem Accepted.method (h : Accepted json raw) : requestMethod raw = ascii "GET" ∨ requestMethod raw = ascii "POST" :=
  h.imp id And.left

theorem statusOk_handlePost_iff : StatusOk (handlePost json raw) ↔
    ∃ pos, find (ascii "\r\n\r\n") raw = some pos ∧ (json (raw.drop (pos + 4))).isSome := by
  unfold handlePost
  cases hf : find (ascii "\r\n\r\n") raw with
  | none =>
    refine iff_of_false (not_statusOk statusDigit_badRequest (by decide)) ?_
    rintro ⟨pos, hpos, -⟩
    cases hpos
  | some pos =>
    dsimp only
    cases hj : json (raw.drop (pos + 4)) with
    | none =>
      refine iff_of_false (not_statusOk statusDigit_invalidJson (by decide)) ?_
      rintro ⟨pos', hpos, hsome⟩
      cases hpos
      rw [hj] at hsome
      cases hsome
    | some pairs => exact iff_of_true (statusOk_textResponse _) ⟨pos, rfl, by rw [hj]; rfl⟩

/-- **The requests answered with 200.** -/
theorem statusOk_uncached_iff : StatusOk (uncached json raw) ↔ Accepted json raw := by
  unfold Accepted
  by_cases hget : requestMethod raw = ascii "GET"
  · rw [uncached_get hget]
    exact iff_of_true (statusOk_textResponse _) (.inl hget)
  by_cases hpost : requestMethod raw = ascii "POST"
  · rw [uncached_post hpost, statusOk_handlePost_iff]
    exact ⟨fun h => .inr ⟨hpost, h⟩, fun h => (h.resolve_left hget).2⟩
  · rw [uncached_other hget hpost]
    refine iff_of_false (not_statusOk statusDigit_notImplemented (by decide)) ?_
    rintro (h | ⟨h, -⟩)
    · exact hget h
    · exact hpost h

/-! ## The first line -/

/-- A request answered with 200 has a request line: three tokens, the first of them GET or POST, and these are what
`handle_request` takes for method, path and version. -/
def LineParsed (json : Bytes → Option (List (Bytes × Bytes))) (s : Server ι) (raw : Bytes) : Prop :=
  StatusOk (s.handle json raw).1.response → ∃ method path version, tokens (firstLine raw) = [method, path, version] ∧
    (method = ascii "GET" ∨ method = ascii "POST") ∧
    requestMethod raw = method ∧ requestPath raw = path ∧ requestVersion raw = version ∧ path ≠ []

/-- **When the request line is read from the first line**, in any reachable state of the cache: exactly when that has
three tokens, or the request is not accepted. -/
theorem handle_request_line_iff [DecidableEq ι] {ls : List (Label ι)} {s : Server ι}
    (h : run (Server.step json) (Server.init ι) ls = some s) (raw : Bytes) :
    LineParsed json s raw ↔ (tokens (firstLine raw)).length = 3 ∨ ¬Accepted json raw := by
  unfold LineParsed
  rw [handle_response (run_fresh h), statusOk_uncached_iff]
  constructor
  · intro hline
    by_cases hacc : Accepted json raw
    · obtain ⟨method, path, version, htokens, -⟩ := hline hacc
      exact .inl (by rw [htokens]; rfl)
    · exact .inr hacc
  · rintro (hthree | hacc) haccepted
    · obtain ⟨method, path, version, htokens⟩ := List.length_eq_three.mp hthree
      obtain ⟨hm, hp, hv, hne⟩ := firstLine_request htokens
      exact ⟨method, path, version, htokens, hm ▸ haccepted.method, hm, hp, hv, hne⟩
    · exact absurd haccepted hacc

/-- The bytes of a word, tested one by one. -/
theorem not_space_of_all {word : Bytes} (h : word.all fun b => !isSpace b) : ∀ b ∈ word, isSpace b = false := by
  intro b hb
  simpa using List.all_eq_true.mp h b hb

/-- `GET / HTTP/1.1` is read from its line. -/
theorem plainGet_line : LineParsed (fun _ => none) (Server.init Unit) (ascii "GET / HTTP/1.1\r\n\r\n") := by
  have hrun : run (Server.step fun _ => none) (Server.init Unit) [] = some (Server.init Unit) := rfl
  refine (handle_request_line_iff hrun _).mpr (.inl ?_)
  have hline : firstLine (ascii "GET / HTTP/1.1\r\n\r\n") = ascii "GET" ++ 32 :: (ascii "/" ++ 32 :: ascii "HTTP/1.1") := by
    decide
  have hget : ∀ b ∈ ascii "GET", isSpace b = false := not_space_of_all (by decide)
  have hpath : ∀ b ∈ ascii "/", isSpace b = false := not_space_of_all (by decide)
  have hversion : ∀ b ∈ ascii "HTTP/1.1", isSpace b = false := not_space_of_all (by decide)
  rw [hline, tokens, words_append (by decide), words_append (by decide), words_single hget (by decide),
    words_single hpath (by decide), words_single hversion (by decide)]
  rfl

/-- The path of a GET without one is taken from the header line that follows; without any, it is empty. -/
theorem bareGet_path : (∀ (json : Bytes → Option (List (Bytes × Bytes))),
      ¬LineParsed json (Server.init Unit) (ascii "GET\r\nHost: a\r\n\r\n")) ∧
    requestPath (ascii "GET\r\nHost: a\r\n\r\n") = ascii "Host:" ∧
    ((Server.init Unit).handle (fun _ => none) (ascii "GET")).1.response = getResponse [] := by
  refine ⟨fun json h => ?_, by decide, by decide⟩
  have hline : firstLine (ascii "GET\r\nHost: a\r\n\r\n") = ascii "GET" := by decide
  have hget : ∀ b ∈ ascii "GET", isSpace b = false := not_space_of_all (by decide)
  have hstatus : StatusOk ((Server.init Unit).handle json (ascii "GET\r\nHost: a\r\n\r\n")).1.response := by
    rw [handle_response fresh_init, statusOk_uncached_iff]
    exact .inl (by decide)
  obtain ⟨method, path, version, htokens, -⟩ := h hstatus
  rw [hline, tokens, words_single hget (by decide)] at htokens
  cases htokens

end HighLoad.Http
