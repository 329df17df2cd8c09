import HighLoad.Lib.Transition
import HighLoad.Account.Database

/-!
# Sessions and the endpoints, one request at a time

The Redis store of `cache.py` (a map with expiry), `create_token` and `decode_token` with the JWT library as parameters,
and the handlers of `main.py`. `log` in `main.py` is the function `logging.log`, which has no attribute `info`: every
path through `log.info` raises there, so what follows it is not reached (`logInfo`).
-/

namespace HighLoad.Account

/-- A Redis value and the time from which it is gone. -/
structure Entry where
  value : String
  expiresAt : Nat
  deriving DecidableEq, Repr

/-- Both stores and the clock. -/
structure Server where
  users : Users
  sessions : String → Option Entry
  now : Nat
  /-- History: the tokens stored by `create_session`, one a login. No handler reads it. -/
  issued : List String
  /-- History: the tokens of the logouts answered with 200. No handler reads it. -/
  loggedOut : List String

/-- What a handler answers. -/
inductive Response where
  | json (status : Nat) (content : List (String × Option String))
  | raised (error : String)
  deriving DecidableEq, Repr

inductive Request where
  | register (data : Body)
  | login (data : Body)
  | logout (cookie : Option String)
  | me (cookie : Option String)
  | active (cookie : Option String)
  /-- Time passes. -/
  | tick (seconds : Nat)

/-- `log.info(...)` before `next`. -/
def logInfo (_next : Response) : Response := .raised "AttributeError: 'function' object has no attribute 'info'"

/-- The JWT library: `encode(metadata, KEY, algorithm='HS256')` and `decode`, none when they raise. -/
structure Jwt where
  encode : Metadata → Option String
  decode : String → Option Metadata

/-! ## `database.py`, `token2.py`, `cache.py` -/

def checkLogin (u : Users) (login : Value) : Option Bool := (u.selectLogin login).map (!·.isEmpty)

def checkPassword (u : Users) (login password : Value) : Option Row :=
  match u.selectLogin login with
  | some rows => checkRow password rows.head?
  | none => none

def dataBuilder (u : Users) (userId : Nat) : Option Metadata := (u.selectId userId).head?.map Row.metadata

def createToken (jwt : Jwt) (m : Metadata) : Option String := jwt.encode m

def decodeToken (jwt : Jwt) (token : String) : Option Metadata := jwt.decode token

namespace Server

def init (u : Users) : Server := ⟨u, fun _ => none, 0, [], []⟩

/-- `cache.get`: an entry vanishes exactly at its expiry. -/
def redisGet (s : Server) (key : String) : Option String :=
  match s.sessions key with
  | some e => if s.now < e.expiresAt then some e.value else none
  | none => none

/-- The token, stored under itself for 1800 seconds; none when `CacheException` is raised. -/
def createSession (jwt : Jwt) (s : Server) (userId : Nat) (m : Metadata) : Option (Server × String) :=
  match createToken jwt m with
  | some token =>
    if token = "" then none else
      some ({ s with
        sessions := Function.update s.sessions token (some ⟨toString userId, s.now + 1800⟩)
        issued := s.issued ++ [token] }, token)
  | none => none

/-- A request without the cookie passes `None`, which `cache.get` refuses; the exception is caught. -/
def checkSession (s : Server) : Option String → Bool
  | some token => (s.redisGet token).any (· ≠ "")
  | none => false

def deleteSession (s : Server) (token : String) : Server :=
  { s with sessions := Function.update s.sessions token none }

/-! ## `main.py` -/

def register (s : Server) (data : Body) : Server × Response :=
  match data "login" with
  | none => (s, .raised "KeyError")
  | some login =>
    match checkLogin s.users login with
    | none => (s, .raised "DatabaseError")
    | some true => (s, logInfo (.json 400 [("message", some "This login is already registered")]))
    | some false =>
      match data "password", data "info" with
      | some password, some info =>
        match s.users.register login password info with
        | some u => ({ s with users := u }, logInfo (.json 200 [("message", some "has been registered successfully")]))
        | none => (s, .raised "DatabaseError")
      | _, _ => (s, .raised "KeyError")

/-- Every path ends in `log.info`, in the `try` block or in its `except` clause. -/
def login (jwt : Jwt) (s : Server) (data : Body) : Server × Response :=
  match data "login", data "password" with
  | some login, some password =>
    match checkPassword s.users login password with
    | some user =>
      match dataBuilder s.users user.id with
      | some metadata =>
        match createSession jwt s user.id metadata with
        | some (s', token) => (s', logInfo (.json 200 [("token", some token)]))
        | none => (s, logInfo (.json 200 []))
      | none => (s, logInfo (.json 200 []))
    | none => (s, logInfo (.json 200 []))
  | _, _ => (s, logInfo (.json 200 []))

def autorization (s : Server) (token : Option String) : Bool := if s.checkSession token then true else false

def logout (s : Server) (cookie : Option String) : Server × Response :=
  if !s.autorization cookie then (s, .json 401 [("error", some "You has been already logged out")])
  else
    ({ s.deleteSession (cookie.getD "") with loggedOut := s.loggedOut ++ [cookie.getD ""] },
      .json 200 [("info", some "You have been logged out")])

/-- The answer of `/me` and `/active`: a field of the decoded token. -/
def answer (jwt : Jwt) (s : Server) (cookie : Option String) (field : Metadata → Option String) : Response :=
  if !s.autorization cookie then .json 401 [("error", some "Invalid token")]
  else
    match decodeToken jwt (cookie.getD "") with
    | some m => .json 200 [("info", field m)]
    | none => .raised "TypeError: 'NoneType' object is not subscriptable"

def me (jwt : Jwt) (s : Server) (cookie : Option String) : Server × Response := (s, s.answer jwt cookie Metadata.info)

def active (jwt : Jwt) (s : Server) (cookie : Option String) : Server × Response :=
  (s, s.answer jwt cookie fun m => some m.login)

/-- One request, or time passing. -/
def serve (jwt : Jwt) (s : Server) : Request → Server × Response
  | .register data => s.register data
  | .login data => s.login jwt data
  | .logout cookie => s.logout cookie
  | .me cookie => s.me jwt cookie
  | .active cookie => s.active jwt cookie
  | .tick d => ({ s with now := s.now + d }, .json 200 [])

/-- The stores after a run of requests. -/
def after (jwt : Jwt) (s : Server) (rs : List Request) : Server := rs.foldl (fun s r => (s.serve jwt r).1) s

def step (jwt : Jwt) (s : Server) (r : Request) : Option Server := some (s.serve jwt r).1

end Server

end HighLoad.Account
