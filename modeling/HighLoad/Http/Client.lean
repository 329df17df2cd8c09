import HighLoad.Http.Framing
import Mathlib.Data.List.TakeDrop

/-!
# `Server::handle_client`

`handle_client` calls `recv` once, on a buffer of 4096 bytes, and answers what it got; the response is sent in a loop.
TCP delivers a request in chunks of any sizes, so the answer is the one to the first chunk. It is the answer to the
whole request exactly when the first chunk holds what `handle_request` reads of it (`handleClient_whole_iff`): the
method and the path, or the method, the header block and a body that parses like the whole one.
-/

namespace HighLoad.Http

open ByteString Transition

variable {ι : Type} {json : Bytes → Option (List (Bytes × Bytes))}

/-- `sizeof(buffer)`. -/
def recvSize : Nat := 4096

/-- The loop that sends `rest`; `send n` is what `send` returns when `n` bytes remain. A result that is not positive
ends the loop, and each other one takes at least a byte, so that `fuel` may be the number of bytes. -/
def sendLoop (send : Nat → Int) : Nat → Bytes → Bytes
  | 0, _ => []
  | fuel + 1, rest =>
    if rest = [] then []
    else if send rest.length ≤ 0 then []
    else rest.take (send rest.length).toNat ++ sendLoop send fuel (rest.drop (send rest.length).toNat)

/-- The bytes sent to a client whose `recv` calls would return `chunks` in turn. -/
def handleClient (json : Bytes → Option (List (Bytes × Bytes))) (send : Nat → Int) (s : Server ι) : List Bytes → Bytes
  | [] => []
  | request :: _ =>
    let response := (s.handle json request).1.response
    sendLoop send response.length response

/-- What `recv` can return of `raw`: nonempty chunks that fit into the buffer. -/
structure Segments (raw : Bytes) (chunks : List Bytes) : Prop where
  flatten : chunks.flatten = raw
  chunk : ∀ c ∈ chunks, c ≠ [] ∧ c.length ≤ recvSize

/-- A JSON text that extends another one says the same: only white space may follow a complete value. -/
def JsonExtends (json : Bytes → Option (List (Bytes × Bytes))) : Prop :=
  ∀ body rest pairs pairs', json body = some pairs → json (body ++ rest) = some pairs' → pairs = pairs'

/-- `first` holds what `handle_request` reads of `raw`: of a GET the method and the path; of a POST the method, the
header block and a body that is JSON exactly if that of `raw` is; of any other enough to see that it is neither. -/
def Enough (json : Bytes → Option (List (Bytes × Bytes))) (first raw : Bytes) : Prop :=
  if requestMethod raw = ascii "GET" then
    requestMethod first = ascii "GET" ∧ requestPath first = requestPath raw
  else if requestMethod raw = ascii "POST" then
    requestMethod first = ascii "POST" ∧ ∃ pos, find (ascii "\r\n\r\n") first = some pos ∧
      (json (first.drop (pos + 4))).isSome = (json (raw.drop (pos + 4))).isSome
  else requestMethod first ≠ ascii "GET" ∧ requestMethod first ≠ ascii "POST"

/-! ## Sending -/

/-- When every `send` takes something, the loop sends everything. -/
theorem sendLoop_all {send : Nat → Int} (hsend : ∀ n, 0 < n → 0 < send n) :
    ∀ {fuel : Nat} {rest : Bytes}, rest.length ≤ fuel → sendLoop send fuel rest = rest
  | 0, rest, h => (List.length_eq_zero_iff.mp (Nat.le_zero.mp h)).symm
  | fuel + 1, rest, h => by
    unfold sendLoop
    split
    case isTrue hnil => exact hnil.symm
    case isFalse hne =>
      have hpos := hsend rest.length (List.length_pos_iff.mpr hne)
      rw [if_neg (by omega), sendLoop_all hsend (by rw [List.length_drop]; omega), List.take_append_drop]

/-! ## Reading a part of a request -/

theorem extract_fst (stream : Bytes) : (extract stream).1 = (stream.dropWhile isSpace).takeWhile (!isSpace ·) := by
  rw [extract, List.span_eq_takeWhile_dropWhile]

/-- The first token of a part of the stream is a part of its first token. -/
theorem extract_prefix (first rest : Bytes) : (extract first).1 <+: (extract (first ++ rest)).1 := by
  rw [extract_fst, extract_fst, List.dropWhile_append]
  split
  case isTrue hempty =>
    rw [List.isEmpty_iff.mp hempty]
    exact List.nil_prefix
  case isFalse =>
    rw [List.takeWhile_append]
    split
    · exact (List.takeWhile_prefix _).trans (List.prefix_append _ _)
    · exact List.prefix_rfl

theorem requestMethod_prefix (first rest : Bytes) : requestMethod first <+: requestMethod (first ++ rest) :=
  extract_prefix first rest

/-- An occurrence lies within the text. -/
theorem find_le {sub : Bytes} : ∀ {bs : Bytes} {pos : Nat}, find sub bs = some pos → pos + sub.length ≤ bs.length
  | [], pos, h => by
    simp only [find, Option.ite_none_right_eq_some, Option.some.injEq] at h
    obtain ⟨rfl, rfl⟩ := h
    exact Nat.le_refl _
  | b :: bs, pos, h => by
    unfold find at h
    split at h
    case isTrue htake =>
      obtain rfl := Option.some.inj h
      have hlen := congrArg List.length htake
      rw [List.length_take] at hlen
      omega
    case isFalse =>
      obtain ⟨p, hp, rfl⟩ := Option.map_eq_some_iff.mp h
      have hle := find_le hp
      rw [List.length_cons]
      omega

/-- The first occurrence in a part of a text is the first one in the text. -/
theorem find_append {sub : Bytes} (rest : Bytes) : ∀ {bs : Bytes} {pos : Nat}, find sub bs = some pos →
    find sub (bs ++ rest) = some pos
  | [], pos, h => by
    simp only [find, Option.ite_none_right_eq_some, Option.some.injEq] at h
    obtain ⟨rfl, rfl⟩ := h
    cases rest <;> simp [find]
  | b :: bs, pos, h => by
    have hle := find_le h
    have htake : (b :: (bs ++ rest)).take sub.length = (b :: bs).take sub.length := by
      rw [← List.cons_append, List.take_append_of_le_length (by omega)]
    unfold find at h
    rw [List.cons_append, find, htake]
    split at h
    case isTrue hhere => rw [if_pos hhere]; exact h
    case isFalse hthere =>
      obtain ⟨p, hp, rfl⟩ := Option.map_eq_some_iff.mp h
      rw [if_neg hthere, find_append rest hp, Option.map_some]

/-! ## Telling responses apart -/

/-- The first digit of the status code. -/
def statusDigit (response : Bytes) : Option UInt8 := response[9]?

theorem statusDigit_getResponse (path : Bytes) : statusDigit (getResponse path) = some 50 := rfl

theorem statusDigit_postResponse (pairs : List (Bytes × Bytes)) : statusDigit (postResponse pairs) = some 50 := rfl

theorem statusDigit_invalidJson : statusDigit invalidJson = some 52 := rfl

theorem statusDigit_badRequest : statusDigit badRequest = some 52 := rfl

theorem statusDigit_notImplemented : statusDigit notImplemented = some 53 := rfl

/-- A POST is answered with 200 or 400. -/
theorem handlePost_ne_notImplemented (raw : Bytes) : handlePost json raw ≠ notImplemented := by
  intro h
  have hdigit := congrArg statusDigit h
  rw [statusDigit_notImplemented] at hdigit
  unfold handlePost at hdigit
  split at hdigit
  · rw [statusDigit_badRequest] at hdigit
    exact absurd hdigit (by decide)
  · split at hdigit
    · rw [statusDigit_postResponse] at hdigit
      exact absurd hdigit (by decide)
    · rw [statusDigit_invalidJson] at hdigit
      exact absurd hdigit (by decide)

theorem getResponse_ne_notImplemented (path : Bytes) : getResponse path ≠ notImplemented := by
  intro h
  have hdigit := congrArg statusDigit h
  rw [statusDigit_getResponse, statusDigit_notImplemented] at hdigit
  exact absurd hdigit (by decide)

theorem postResponse_ne_invalidJson (pairs : List (Bytes × Bytes)) : postResponse pairs ≠ invalidJson := by
  intro h
  have hdigit := congrArg statusDigit h
  rw [statusDigit_postResponse, statusDigit_invalidJson] at hdigit
  exact absurd hdigit (by decide)

theorem getResponse_injective {path path' : Bytes} (h : getResponse path = getResponse path') : path = path' :=
  List.append_cancel_left (textResponse_injective (by decide) h)

theorem uncached_post {raw : Bytes} (hraw : requestMethod raw = ascii "POST") :
    uncached json raw = handlePost json raw := by
  rw [uncached, if_neg (by rw [hraw]; decide), if_pos hraw]

theorem uncached_other {raw : Bytes} (hget : requestMethod raw ≠ ascii "GET")
    (hpost : requestMethod raw ≠ ascii "POST") :
    uncached json raw = notImplemented := by
  rw [uncached, if_neg hget, if_neg hpost]

/-! ## The first chunk and the whole request -/

variable {first rest : Bytes}

/-- A part of a POST with an end of its header block is answered like the whole if it has that end, and a body that is
JSON if that of the whole is. -/
theorem handlePost_append_iff (hjson : JsonExtends json) (hend : (find (ascii "\r\n\r\n") (first ++ rest)).isSome) :
    handlePost json first = handlePost json (first ++ rest) ↔
      ∃ pos, find (ascii "\r\n\r\n") first = some pos ∧
        (json (first.drop (pos + 4))).isSome = (json ((first ++ rest).drop (pos + 4))).isSome := by
  cases hf : find (ascii "\r\n\r\n") first with
  | none =>
    obtain ⟨pos, hpos⟩ := Option.isSome_iff_exists.mp hend
    have hbad : handlePost json first = badRequest := by rw [handlePost, hf]
    refine iff_of_false (fun h => ?_) (by simp)
    rw [hbad, handlePost, hpos] at h
    simp only at h
    split at h
    · have hdigit := congrArg statusDigit h
      rw [statusDigit_postResponse, statusDigit_badRequest] at hdigit
      exact absurd hdigit (by decide)
    · exact absurd h (by decide)
  | some pos =>
    have hpos := find_append rest hf
    have hle := find_le hf
    have hlen : (ascii "\r\n\r\n").length = 4 := by decide
    have hdrop : (first ++ rest).drop (pos + 4) = first.drop (pos + 4) ++ rest :=
      List.drop_append_of_le_length (by omega)
    simp only [handlePost, hf, hpos, hdrop, Option.some.injEq, exists_eq_left']
    cases hp : json (first.drop (pos + 4)) with
    | none =>
      cases hp' : json (first.drop (pos + 4) ++ rest) with
      | none => simp
      | some pairs' => simpa using (postResponse_ne_invalidJson pairs').symm
    | some pairs =>
      cases hp' : json (first.drop (pos + 4) ++ rest) with
      | none => simpa using postResponse_ne_invalidJson pairs
      | some pairs' => simp [hjson _ _ _ _ hp hp']

theorem uncached_append_iff (hjson : JsonExtends json) (hend : (find (ascii "\r\n\r\n") (first ++ rest)).isSome) :
    uncached json first = uncached json (first ++ rest) ↔ Enough json first (first ++ rest) := by
  have hprefix := requestMethod_prefix first rest
  unfold Enough
  split
  case isTrue hraw =>
    rw [uncached_get hraw]
    rw [hraw] at hprefix
    by_cases hget : requestMethod first = ascii "GET"
    · rw [uncached_get hget]
      exact ⟨fun h => ⟨hget, getResponse_injective h⟩, fun h => by rw [h.2]⟩
    · have hpost : requestMethod first ≠ ascii "POST" := fun h => absurd (h ▸ hprefix) (by decide)
      rw [uncached_other hget hpost]
      exact iff_of_false (getResponse_ne_notImplemented _).symm (fun h => hget h.1)
  case isFalse hraw =>
    split
    case isTrue hraw' =>
      rw [uncached_post hraw']
      rw [hraw'] at hprefix
      by_cases hpost : requestMethod first = ascii "POST"
      · rw [uncached_post hpost, handlePost_append_iff hjson hend]
        exact (and_iff_right hpost).symm
      · have hget : requestMethod first ≠ ascii "GET" := fun h => absurd (h ▸ hprefix) (by decide)
        rw [uncached_other hget hpost]
        exact iff_of_false (handlePost_ne_notImplemented _).symm (fun h => hpost h.1)
    case isFalse hraw' =>
      rw [uncached_other hraw hraw']
      by_cases hget : requestMethod first = ascii "GET"
      · rw [uncached_get hget]
        exact iff_of_false (getResponse_ne_notImplemented _) (fun h => h.1 hget)
      by_cases hpost : requestMethod first = ascii "POST"
      · rw [uncached_post hpost]
        exact iff_of_false (handlePost_ne_notImplemented _) (fun h => h.2 hpost)
      · exact iff_of_true (uncached_other hget hpost) ⟨hget, hpost⟩

/-- **When the segmentation is not seen.** A client whose request arrives in chunks gets the response to the whole
request, in any reachable state of the cache, if and only if the first chunk is enough. -/
theorem handleClient_whole_iff {ls : List (Label ι)} {s : Server ι} [DecidableEq ι]
    (h : run (Server.step json) (Server.init ι) ls = some s) (hjson : JsonExtends json) {send : Nat → Int}
    (hsend : ∀ n, 0 < n → 0 < send n) {raw : Bytes} (hend : (find (ascii "\r\n\r\n") raw).isSome)
    {first : Bytes} {chunks : List Bytes} (hseg : Segments raw (first :: chunks)) :
    handleClient json send s (first :: chunks) = (s.handle json raw).1.response ↔ Enough json first raw := by
  have hs := run_fresh h
  have hraw : raw = first ++ chunks.flatten := hseg.flatten.symm
  subst hraw
  rw [handleClient, sendLoop_all hsend (Nat.le_refl _), handle_response hs, handle_response hs]
  exact uncached_append_iff hjson hend

/-- What the JSON library makes of an empty object. -/
def emptyObject (body : Bytes) : Option (List (Bytes × Bytes)) := if body = ascii "\x7b\x7d" then some [] else none

theorem emptyObject_extends : JsonExtends emptyObject := by
  intro body rest pairs pairs' h h'
  simp only [emptyObject, Option.ite_none_right_eq_some, Option.some.injEq] at h h'
  rw [← h.2, ← h'.2]

/-- The header block of a POST of two bytes. -/
def sampleHead : Bytes := ascii "POST / HTTP/1.1\r\nContent-Length: 2\r\n\r\n"

/-- A GET that has been put into the cache. -/
def filledRun : List (Label Unit) := [.handle () (ascii "GET /a HTTP/1.1\r\n\r\n"), .put ()]

/-- The same GET in two chunks, answered from the cache, and the POST in one, both sent eight bytes at a time. -/
theorem twoChunks_answered : ∃ s, run (Server.step emptyObject) (Server.init Unit) filledRun = some s ∧
    (s.handle emptyObject (ascii "GET /a")).1 = .ret (getResponse (ascii "/a")) ∧
    handleClient emptyObject (fun n => (min n 8 : Nat)) s [ascii "GET /a HTTP/1.1\r\n", ascii "\r\n"] =
      (s.handle emptyObject (ascii "GET /a HTTP/1.1\r\n\r\n")).1.response ∧
    handleClient emptyObject (fun n => (min n 8 : Nat)) s [sampleHead ++ ascii "\x7b\x7d"] =
      (s.handle emptyObject (sampleHead ++ ascii "\x7b\x7d")).1.response := by
  have hrun : run (Server.step emptyObject) (Server.init Unit) filledRun = some _ := rfl
  have hsend : ∀ n, 0 < n → 0 < ((min n 8 : Nat) : Int) := fun n hn => Int.natCast_pos.mpr (by omega)
  have hget : Segments (ascii "GET /a HTTP/1.1\r\n\r\n") [ascii "GET /a HTTP/1.1\r\n", ascii "\r\n"] :=
    ⟨by decide, by decide⟩
  have hpost : Segments (sampleHead ++ ascii "\x7b\x7d") [sampleHead ++ ascii "\x7b\x7d"] := ⟨by decide, by decide⟩
  refine ⟨_, hrun, rfl, (handleClient_whole_iff hrun emptyObject_extends hsend (by decide) hget).mpr ?_,
    (handleClient_whole_iff hrun emptyObject_extends hsend (by decide) hpost).mpr ?_⟩
  · unfold Enough
    rw [if_pos (by decide)]
    exact ⟨by decide, by decide⟩
  · unfold Enough
    rw [if_neg (by decide), if_pos (by decide)]
    exact ⟨by decide, _, rfl, rfl⟩

/-- The same POST with its body in a second chunk is answered with 400. -/
theorem splitPost_refused :
    Segments (sampleHead ++ ascii "\x7b\x7d") [sampleHead, ascii "\x7b\x7d"] ∧
      handleClient emptyObject (fun n => n) (Server.init (Fin 1)) [sampleHead, ascii "\x7b\x7d"] = invalidJson ∧
      ((Server.init (Fin 1)).handle emptyObject (sampleHead ++ ascii "\x7b\x7d")).1.response = postResponse [] ∧
      handleClient emptyObject (fun n => n) (Server.init (Fin 1)) [sampleHead, ascii "\x7b\x7d"] ≠
        ((Server.init (Fin 1)).handle emptyObject (sampleHead ++ ascii "\x7b\x7d")).1.response := by
  have hseg : Segments (sampleHead ++ ascii "\x7b\x7d") [sampleHead, ascii "\x7b\x7d"] := ⟨by decide, by decide⟩
  have hsplit : handleClient emptyObject (fun n => n) (Server.init (Fin 1)) [sampleHead, ascii "\x7b\x7d"] =
      invalidJson := by
    have hresponse : ((Server.init (Fin 1)).handle emptyObject sampleHead).1.response = invalidJson := by
      decide +kernel
    rw [handleClient, hresponse]
    exact sendLoop_all (fun n hn => Int.natCast_pos.mpr hn) (Nat.le_refl _)
  have hwhole : ((Server.init (Fin 1)).handle emptyObject (sampleHead ++ ascii "\x7b\x7d")).1.response =
      postResponse [] := by
    decide +kernel
  refine ⟨hseg, hsplit, hwhole, ?_⟩
  rw [hsplit, hwhole]
  exact (postResponse_ne_invalidJson []).symm

end HighLoad.Http
