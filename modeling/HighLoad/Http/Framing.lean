import HighLoad.Lib.HttpMessage
import HighLoad.Http.Workers

/-!
# The framing of the responses

Each template of `handle_request` but one is a `Message` with the length of its body and `Connection: close`, whatever
the path, the pairs or the length (`framed_textResponse`, `framed_badRequest`). The literals of the 501 response lack
the CRLF between their two headers, which makes one header of them (`not_framed_notImplemented`). Since the cache is not
seen in the answers, a response is framed exactly when its request is a GET or a POST (`handle_request_framed_iff`).
-/

namespace HighLoad.Http

open ByteString HttpMessage Transition

/-! ## The templates -/

/-- `Content-Length` with the decimal number of body bytes. -/
def contentLength (n : Nat) : Header where
  name := ascii "Content-Length"
  value := decimal n
  name_ne := by decide
  colon_notMem := by decide
  name_cr := by decide
  value_cr := cr_notMem_decimal n

def contentType : Header where
  name := ascii "Content-Type"
  value := ascii "text/plain"
  name_ne := by decide
  colon_notMem := by decide
  name_cr := by decide
  value_cr := by decide

def connectionClose : Header where
  name := ascii "Connection"
  value := ascii "close"
  name_ne := by decide
  colon_notMem := by decide
  name_cr := by decide
  value_cr := by decide

/-- The message of a text response. -/
def textMessage (status : String) (hs : 13 ∉ ascii status) (body : Bytes) : Message where
  status := ascii "HTTP/1.1 " ++ ascii status
  headers := [contentLength body.length, contentType, connectionClose]
  body := body
  status_ne := List.append_ne_nil_of_left_ne_nil (by decide) _
  status_cr := by
    have h : (13 : UInt8) ∉ ascii "HTTP/1.1 " := by decide
    simp [h, hs]

theorem textMessage_bytes {status : String} (hs : 13 ∉ ascii status) (body : Bytes) :
    (textMessage status hs body).bytes = textResponse status body := by
  have h₁ : ascii "\r\nContent-Length: " = crlf ++ (ascii "Content-Length" ++ ascii ": ") := by decide +kernel
  have h₂ : ascii "\r\nContent-Type: text/plain\r\nConnection: close\r\n\r\n" =
      crlf ++ (ascii "Content-Type" ++ (ascii ": " ++ (ascii "text/plain" ++
        (crlf ++ (ascii "Connection" ++ (ascii ": " ++ (ascii "close" ++ (crlf ++ crlf)))))))) := by decide +kernel
  simp only [textResponse, h₁, h₂, Message.bytes, Header.lines, List.flatMap_cons, List.flatMap_nil, Header.line,
    contentLength, contentType, connectionClose, textMessage, List.append_assoc, List.append_nil]

/-- Text responses with one status differ with their bodies. -/
theorem textResponse_injective {status : String} (hs : 13 ∉ ascii status) {body body' : Bytes}
    (h : textResponse status body = textResponse status body') : body = body' := by
  rw [← textMessage_bytes hs, ← textMessage_bytes hs] at h
  exact congrArg Message.body (Message.bytes_injective h)

/-- A text response is the message with its status, length and type. -/
theorem framed_textResponse {status : String} (hs : 13 ∉ ascii status) (body : Bytes) :
    Framed (textResponse status body) := by
  rw [← textMessage_bytes hs, framed_bytes_iff]
  refine ⟨⟨decimal body.length, ?_, parseDecimal_decimal _⟩, ?_⟩
  · have hne : ascii "Content-Type" ≠ ascii "Content-Length" ∧ ascii "Connection" ≠ ascii "Content-Length" := by decide
    simp [Message.values, textMessage, contentLength, contentType, connectionClose, hne]
  · have hmem : connectionClose ∈ (textMessage status hs body).headers := by simp [textMessage]
    exact List.mem_map.mpr ⟨connectionClose, List.mem_filter.mpr ⟨hmem, by decide⟩, rfl⟩

theorem framed_badRequest : Framed badRequest := by
  let m : Message :=
    { status := ascii "HTTP/1.1 400 Bad Request"
      headers := [contentLength 0, connectionClose]
      body := []
      status_ne := by decide
      status_cr := by decide }
  have hbytes : m.bytes = badRequest := by decide +kernel
  rw [← hbytes, framed_bytes_iff]
  exact ⟨⟨decimal 0, by decide, parseDecimal_decimal 0⟩, by decide⟩

/-- Without the CRLF after its `0` the length swallows the next header. -/
theorem not_framed_notImplemented : ¬ Framed notImplemented := by
  let m : Message :=
    { status := ascii "HTTP/1.1 501 Not Implemented"
      headers := [⟨ascii "Content-Length", ascii "0Connection: close", by decide, by decide, by decide, by decide⟩]
      body := []
      status_ne := by decide
      status_cr := by decide }
  have hbytes : m.bytes = notImplemented := by decide +kernel
  rw [← hbytes, framed_bytes_iff]
  rintro ⟨-, hclose⟩
  exact absurd hclose (by decide)

variable {ι : Type} [DecidableEq ι] {json : Bytes → Option (List (Bytes × Bytes))}

theorem framed_handlePost (raw : Bytes) : Framed (handlePost json raw) := by
  unfold handlePost
  split
  · exact framed_badRequest
  · split
    · exact framed_textResponse (by decide) _
    · exact framed_textResponse (by decide) _

theorem framed_uncached_iff (raw : Bytes) :
    Framed (uncached json raw) ↔ requestMethod raw = ascii "GET" ∨ requestMethod raw = ascii "POST" := by
  unfold uncached
  split
  case isTrue hget => exact iff_of_true (framed_textResponse (by decide) _) (.inl hget)
  case isFalse hget =>
    split
    case isTrue hpost => exact iff_of_true (framed_handlePost raw) (.inr hpost)
    case isFalse hpost => exact iff_of_false not_framed_notImplemented (by simp [hget, hpost])

/-- **A response is framed exactly when its request is a GET or a POST**: what `handle_request` returns in any reachable
state of the cache, for any outcome of the JSON parsing, and what has been answered so far. -/
theorem handle_request_framed_iff {ls : List (Label ι)} {s : Server ι}
    (h : run (Server.step json) (Server.init ι) ls = some s) :
    (∀ raw, Framed (s.handle json raw).1.response ↔
      requestMethod raw = ascii "GET" ∨ requestMethod raw = ascii "POST") ∧
    (∀ raw response, (raw, response) ∈ s.answered →
      (Framed response ↔ requestMethod raw = ascii "GET" ∨ requestMethod raw = ascii "POST")) := by
  have hs := run_fresh h
  refine ⟨fun raw => ?_, fun raw response hr => ?_⟩
  · rw [handle_response hs]
    exact framed_uncached_iff raw
  · rw [hs.answered hr]
    exact framed_uncached_iff raw

/-- A missed GET, put and then a hit, all of one worker. -/
def hitRun : List (Label (Fin 1)) :=
  [.handle 0 (ascii "GET /a HTTP/1.1\r\n\r\n"), .put 0, .handle 0 (ascii "GET /a")]

/-- The hit is framed. -/
theorem hitRun_framed : ∃ s, run (Server.step fun _ => none) (Server.init (Fin 1)) hitRun = some s ∧
    Framed (s.handle (fun _ => none) (ascii "GET /a")).1.response := by
  have h : run (Server.step fun _ => none) (Server.init (Fin 1)) hitRun = some _ := rfl
  exact ⟨_, h, ((handle_request_framed_iff h).1 _).mpr (.inl (by decide))⟩

/-- A PUT is answered without framing. -/
theorem put_not_framed : ¬ ∀ (json : Bytes → Option (List (Bytes × Bytes))) (raw : Bytes),
    Framed ((Server.init (Fin 1)).handle json raw).1.response := by
  intro h
  have h' := h (fun _ => none) (ascii "PUT / HTTP/1.1\r\n\r\n")
  have hr : ((Server.init (Fin 1)).handle (fun _ => none) (ascii "PUT / HTTP/1.1\r\n\r\n")).1.response =
      notImplemented := by decide
  exact not_framed_notImplemented (hr ▸ h')

end HighLoad.Http
