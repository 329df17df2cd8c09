import HighLoad.Http.Cache

/-!
# `HttpParser::handle_request`

Requests and responses are byte strings. `handle_request` reads the first three whitespace-separated tokens of the
request and answers by the first: GET from the cache or with a rendered greeting, POST with the pairs of the JSON body,
anything else with 501. It returns at once, except on a cache miss, where it still puts what it rendered (`Answer.put`)
before it returns it.

`json` is what the JSON library makes of a body: the keys and dumped values that the loop visits, or `none` when
`parse`, `key` or `dump` throws.
-/

namespace HighLoad.Http

open ByteString

/-! ## Reading the request -/

/-- `stream >> s`: skips whitespace, then takes the bytes up to the next; a stream at its end leaves `s` empty. -/
def extract (stream : Bytes) : Bytes × Bytes := (stream.dropWhile isSpace).span (!isSpace ·)

def requestMethod (raw : Bytes) : Bytes := (extract raw).1

def requestPath (raw : Bytes) : Bytes := (extract (extract raw).2).1

/-- `raw.find(sub)`, `none` for `npos`. -/
def find (sub : Bytes) : Bytes → Option Nat
  | [] => if sub = [] then some 0 else none
  | b :: bs => if (b :: bs).take sub.length = sub then some 0 else (find sub bs).map (· + 1)

/-! ## Rendering the responses -/

/-- The template of the responses with a text body. -/
def textResponse (status : String) (body : Bytes) : Bytes :=
  ascii "HTTP/1.1 " ++ ascii status ++ ascii "\r\nContent-Length: " ++ decimal body.length ++
    ascii "\r\nContent-Type: text/plain\r\nConnection: close\r\n\r\n" ++ body

def getResponse (path : Bytes) : Bytes := textResponse "200 OK" (ascii "Hello from GET " ++ path)

/-- The loop over the JSON pairs; `reply` is the text so far. -/
def replyLoop (reply : Bytes) : List (Bytes × Bytes) → Bytes
  | [] => reply
  | (key, dump) :: rest =>
    let reply := reply ++ (key ++ ascii ": " ++ dump)
    replyLoop (if rest = [] then reply else reply ++ ascii ", ") rest

def postResponse (pairs : List (Bytes × Bytes)) : Bytes :=
  textResponse "200 OK" (replyLoop (ascii "Received JSON with pairs: ") pairs)

def invalidJson : Bytes := textResponse "400 Bad Request" (ascii "Invalid JSON")

def badRequest : Bytes := ascii "HTTP/1.1 400 Bad Request\r\nContent-Length: 0\r\nConnection: close\r\n\r\n"

/-- The literals of the source, as the compiler joins them. -/
def notImplemented : Bytes := ascii "HTTP/1.1 501 Not Implemented\r\nContent-Length: 0Connection: close\r\n\r\n"

/-! ## Handling the request -/

/-- What `handle_request` does after its `Cache::get`, if any: return `response`, at once or after `Cache::put`. -/
inductive Answer where
  | ret (response : Bytes)
  | put (path response : Bytes)
  deriving DecidableEq

/-- What `handle_request` returns. -/
def Answer.response : Answer → Bytes
  | ret response => response
  | put _ response => response

def handlePost (json : Bytes → Option (List (Bytes × Bytes))) (raw : Bytes) : Bytes :=
  match find (ascii "\r\n\r\n") raw with
  | none => badRequest
  | some pos =>
    match json (raw.drop (pos + 4)) with
    | some pairs => postResponse pairs
    | none => invalidJson

def handleRequest (json : Bytes → Option (List (Bytes × Bytes))) (now : Int) (raw : Bytes) (data : Data) :
    Answer × Data :=
  if requestMethod raw = ascii "GET" then
    let path := requestPath raw
    let (cached, data) := Cache.get now path data
    if cached ≠ Cache.notFounded then (.ret cached, data) else (.put path (getResponse path), data)
  else if requestMethod raw = ascii "POST" then
    (.ret (handlePost json raw), data)
  else
    (.ret notImplemented, data)

end HighLoad.Http
