import Nasd.Server.Session
import Nasd.Server.Router

/-!
# Nasd.Server.Machine

The server as a machine: requests, garbage collections of the sessions and the passing of time.
A request runs the middlewares of its endpoint (`internal/middleware/middleware.go`), then the
handler (`internal/api/handlers.go`). The handlers of accounts and sessions are given here; those
of the other modules act on the rest of the system, a state `ω` of their own.

* `passes_guarded` — what a request has shown when the three middlewares let it through.
-/

namespace Nasd
namespace Server

open Text

structure LoginReq where
  Username : Str
  Password : Str
  deriving DecidableEq

structure CreateReq where
  Username : Str
  Comment : Str
  Password : Str
  IsAdmin : Bool
  deriving DecidableEq

/-- A JSON body as each handler decodes it, `none` when it cannot. -/
structure Body where
  login : Option LoginReq
  create : Option CreateReq
  password : Option Str
  deriving DecidableEq

structure Request where
  method : Method
  path : Str
  cookie : Option Str
  csrfHeader : Str
  body : Body
  deriving DecidableEq

/-- What the surroundings answer while a request runs: the random tokens, the hash of the new
password unless bcrypt fails, the error of setting the system's password if there is one. -/
structure Draw where
  token : Str
  csrf : Str
  hash : Option Str
  passwordErr : Option Str
  deriving DecidableEq

inductive Reply where
  | error (status : Nat) (msg : Str)
  | status (status : Nat) (msg : Str)
  | session (sess : Session)
  | users (rows : List AppUser)
  | module (h : Handler)
  deriving DecidableEq

structure State (ω : Type) where
  accounts : Accounts
  store : SessionStore
  now : Nat
  world : ω

/-- The configuration, the router, bcrypt, and the handlers of the other modules on the rest of
the system, where those that only query change nothing. -/
structure App (ω : Type) where
  csrfEnabled : Bool
  router : Matcher
  CheckPassword : Str → Str → Bool
  handle : Handler → Request → ω → ω
  reads : ∀ h r w, h.mutates = false → handle h r w = w

variable {ω : Type}

/-! ## Middlewares -/

/-- `next` with the session that the context carries, or the answer of the first middleware that
stops the request. -/
def passes (A : App ω) (s : State ω) (r : Request) :
    List Middleware → Option Session → Except Reply (Option Session)
  | [], ctx => .ok ctx
  | .auth :: ms, _ =>
    match r.cookie with
    | none => .error (.error 401 "unauthorized")
    | some token =>
      match s.store.Get token s.now with
      | none => .error (.error 401 "unauthorized")
      | some sess => passes A s r ms (some sess)
  | .requireAdmin :: ms, ctx =>
    match ctx with
    | none => .error (.error 403 "forbidden")
    | some sess =>
      if sess.IsAdmin then passes A s r ms ctx else .error (.error 403 "forbidden")
  | .csrf :: ms, ctx =>
    if !A.csrfEnabled || r.method = .get || r.method = .head || r.method = .options then
      passes A s r ms ctx
    else match ctx with
    | none => .error (.error 403 "csrf_invalid")
    | some sess =>
      if r.csrfHeader = [] || r.csrfHeader ≠ sess.CSRFToken then
        .error (.error 403 "csrf_invalid")
      else passes A s r ms ctx

/-! ## Handlers -/

def login (A : App ω) (r : Request) (d : Draw) (s : State ω) : Reply × State ω :=
  match r.body.login with
  | none => (.error 400 "bad_request", s)
  | some req =>
    match s.accounts.lookup req.Username with
    | none => (.error 401 "invalid_credentials", s)
    | some u =>
      if A.CheckPassword u.passwordHash req.Password then
        let out := s.store.Create req.Username u.isAdmin d.token d.csrf s.now
        (.session out.1, { s with store := out.2 })
      else (.error 401 "invalid_credentials", s)

def logout (ctx : Option Session) (s : State ω) : Reply × State ω :=
  match ctx with
  | none => (.status 200 "ok", s)
  | some sess => (.status 200 "ok", { s with store := s.store.Delete sess.Token })

def me (ctx : Option Session) (s : State ω) : Reply × State ω :=
  match ctx with
  | none => (.error 500 "internal_error", s)
  | some sess => (.session sess, s)

def uniqueViolation : Str :=
  "constraint failed: UNIQUE constraint failed: app_users.username (2067)"

def create (A : App ω) (r : Request) (d : Draw) (s : State ω) : Reply × State ω :=
  match r.body.create with
  | none => (.error 400 "bad_request", s)
  | some req =>
    if req.Password = [] then (.error 400 "password_required", s)
    else
      -- the system account and its password come first, and their errors are ignored
      let world := A.handle .userCreate r s.world
      match d.hash with
      | none => (.error 500 "hash_error", { s with world := world })
      | some hash =>
        match s.accounts.insert ⟨req.Username, hash, req.IsAdmin⟩ with
        | none => (.error 422 uniqueViolation, { s with world := world })
        | some accounts => (.status 201 "created", { s with accounts := accounts, world := world })

def setPassword (A : App ω) (r : Request) (d : Draw) (username : Str) (s : State ω) :
    Reply × State ω :=
  match r.body.password with
  | none => (.error 400 "bad_request", s)
  | some password =>
    if password = [] then (.error 400 "bad_request", s)
    else
      let world := A.handle .userSetPassword r s.world
      match d.passwordErr with
      | some e => (.error 422 e, { s with world := world })
      | none =>
        match d.hash with
        | none => (.error 500 "hash_error", { s with world := world })
        | some hash =>
          (.status 200 "ok",
            { s with accounts := s.accounts.setHash username hash, world := world })

def delete (A : App ω) (r : Request) (username : Str) (s : State ω) : Reply × State ω :=
  (.status 200 "deleted",
    { s with accounts := s.accounts.delete username, world := A.handle .userDelete r s.world })

def handle (A : App ω) (r : Request) (d : Draw) (h : Handler) (params : Str → Str)
    (ctx : Option Session) (s : State ω) : Reply × State ω :=
  match h with
  | .authLogin => login A r d s
  | .authLogout => logout ctx s
  | .authMe => me ctx s
  | .userList => (.users s.accounts.rows, s)
  | .userCreate => create A r d s
  | .userSetPassword => setPassword A r d (params "username") s
  | .userDelete => delete A r (params "username") s
  | h => (.module h, { s with world := A.handle h r s.world })

/-! ## Machine -/

/-- The endpoint that a request gets to, with its parameters and the session in its context. A
request that matches no route is answered with the page of the interface. -/
def reach (A : App ω) (s : State ω) (r : Request) :
    Except Reply (Endpoint × (Str → Str) × Option Session) :=
  match A.router.find r.method r.path with
  | none => .error (.status 200 "index.html")
  | some (e, params) =>
    match passes A s r e.middlewares none with
    | .error reply => .error reply
    | .ok ctx => .ok (e, params, ctx)

def serve (A : App ω) (r : Request) (d : Draw) (s : State ω) : Reply × State ω :=
  match reach A s r with
  | .error reply => (reply, s)
  | .ok (e, params, ctx) => handle A r d e.handler params ctx s

inductive Event where
  | request (r : Request) (d : Draw)
  | gc
  | tick (n : Nat)

def step (A : App ω) (s : State ω) : Event → State ω
  | .request r d => (serve A r d s).2
  | .gc => { s with store := s.store.gc s.now }
  | .tick n => { s with now := s.now + n }

/-- The server as it starts: the accounts of the database and no session. -/
def State.start (accounts : Accounts) (ttl now : Nat) (world : ω) : State ω :=
  ⟨accounts, .NewSessionStore ttl, now, world⟩

/-! ## What a request has shown -/

variable {A : App ω} {s : State ω} {r : Request} {d : Draw}

theorem passes_auth {ms : List Middleware} {ctx ctx' : Option Session}
    (h : passes A s r (.auth :: ms) ctx = .ok ctx') :
    ∃ token sess, r.cookie = some token ∧ s.store.Get token s.now = some sess ∧
      passes A s r ms (some sess) = .ok ctx' := by
  simp only [passes] at h
  split at h
  · cases h
  · rename_i token hcookie
    split at h
    · cases h
    · rename_i sess hget
      exact ⟨token, sess, hcookie, hget, h⟩

theorem passes_csrf {ms : List Middleware} {sess : Session} {ctx' : Option Session}
    (h : passes A s r (.csrf :: ms) (some sess) = .ok ctx') :
    (A.csrfEnabled = true → r.method ≠ .get → r.method ≠ .head → r.method ≠ .options →
      r.csrfHeader = sess.CSRFToken) ∧ passes A s r ms (some sess) = .ok ctx' := by
  simp only [passes] at h
  split at h
  · rename_i hfree
    refine ⟨?_, h⟩
    intro hon hget hhead hoptions
    simp [hon, hget, hhead, hoptions] at hfree
  · split at h
    · cases h
    · rename_i hheader
      refine ⟨fun _ _ _ _ => ?_, h⟩
      simp only [Bool.or_eq_true, decide_eq_true_eq, not_or, not_not] at hheader
      exact hheader.2

theorem passes_requireAdmin {ms : List Middleware} {sess : Session} {ctx' : Option Session}
    (h : passes A s r (.requireAdmin :: ms) (some sess) = .ok ctx') :
    sess.IsAdmin = true ∧ passes A s r ms (some sess) = .ok ctx' := by
  simp only [passes] at h
  split at h
  · rename_i hadmin; exact ⟨hadmin, h⟩
  · cases h

theorem passes_guarded {ctx ctx' : Option Session}
    (h : passes A s r [.auth, .csrf, .requireAdmin] ctx = .ok ctx') :
    ∃ token sess, r.cookie = some token ∧ s.store.Get token s.now = some sess ∧
      sess.IsAdmin = true ∧
      (A.csrfEnabled = true → r.method ≠ .get → r.method ≠ .head → r.method ≠ .options →
        r.csrfHeader = sess.CSRFToken) := by
  obtain ⟨token, sess, hcookie, hget, h⟩ := passes_auth h
  obtain ⟨hcsrf, h⟩ := passes_csrf h
  exact ⟨token, sess, hcookie, hget, (passes_requireAdmin h).1, hcsrf⟩

end Server
end Nasd
