import Nasd.Server.Access

/-!
# Nasd.Server.Browser

The other end of a session: `request` of `src/js/api.js` with the `csrfToken` of its module, the
component `App` of `src/js/app.js` with its `user`, and between the pages and the server the browser,
which keeps one cookie for all of them. Requests and answers are under way for as long as they like
and overtake each other. The browser stores the cookie of an answer when the head of the answer
arrives; the page reads the body later.

* `step`    — the pages, the cookie, what is under way, and the server with its other clients.
* `InStep`  — a page that shows a user holds the CSRF token of the session that the cookie names.
* `InOrder` — the order in which answers have to come for that.
-/

namespace Nasd
namespace Server
namespace Browser

open Text Machine

variable {ω : Type}

/-! ## Page -/

/-- The data of an answer, of which a property that is missing is `undefined`. -/
structure Me where
  username : Option Str
  is_admin : Option Bool
  csrf_token : Option Str
  deriving DecidableEq

/-- What `{}` reads as. -/
def Me.empty : Me := ⟨none, none, none⟩

/-- A page as it was loaded: the token that `setCsrfToken` left, and the state of `App`. -/
structure Page where
  csrfToken : Option Str
  user : Option Me
  deriving DecidableEq

inductive Call where
  | me
  | login (username password : Str)
  | logout
  | other (method : Method) (path : Str) (body : Body)
  deriving DecidableEq

/-- What the page makes the session of: the callers of `api.me` and `api.login` read the answer. -/
def Call.signsIn : Call → Bool
  | .me | .login _ _ => true
  | .logout | .other _ _ _ => false

/-- `request`, with the cookie that the browser adds. -/
def request (cookie csrfToken : Option Str) (method : Method) (path : Str) (body : Body) :
    Request where
  method := method
  path := "/api" ++ path
  cookie := cookie
  csrfHeader := if method = .get then [] else csrfToken.getD []
  body := body

def Call.request (cookie csrfToken : Option Str) : Call → Request
  | .me => Browser.request cookie csrfToken .get "/auth/me" ⟨none, none, none⟩
  | .login username password =>
    Browser.request cookie csrfToken .post "/auth/login"
      ⟨some ⟨username, password⟩, some ⟨username, [], password, false⟩, some password⟩
  | .logout => Browser.request cookie csrfToken .post "/auth/logout" ⟨none, none, none⟩
  | .other method path body => Browser.request cookie csrfToken method path body

/-- `res.json()` of an answer that is not an error. -/
def data : Reply → Me
  | .session sess => ⟨some sess.Username, some sess.IsAdmin, some sess.CSRFToken⟩
  | _ => .empty

def Page.resolved (data : Me) (p : Page) : Call → Page
  | .me | .login _ _ => ⟨data.csrf_token, some data⟩
  | .logout => { p with user := none }
  | .other _ _ _ => p

def Page.rejected (p : Page) : Call → Page
  | .me | .logout => { p with user := none }
  | .login _ _ | .other _ _ _ => p

/-- What an answer does to the page, with the data that its body was read as. -/
def Page.answered (call : Call) (reply : Reply) (data : Me) (p : Page) : Page :=
  match reply with
  | .error status _ =>
    -- the listener of `session-expired` runs before the promise is rejected
    if status = 401 then Page.rejected { p with user := none } call else p.rejected call
  | _ => p.resolved data call

/-! ## Browser -/

structure Sent where
  page : Nat
  call : Call
  req : Request
  deriving DecidableEq

/-- `setCookie` is the cookie that the answer sets, `some none` when it removes it. -/
structure Answer where
  page : Nat
  call : Call
  reply : Reply
  setCookie : Option (Option Str)
  deriving DecidableEq

/-- `jar` is the cookie `nasd_session`; `answers` are under way whole, and of those in `bodies` the
head has arrived. -/
structure Net (ω : Type) where
  server : State ω
  jar : Option Str
  pages : List Page
  requests : List Sent
  answers : List Answer
  bodies : List Answer

/-- `http.SetCookie` in the handlers of `login` and `logout`. -/
def setCookie (A : App ω) (s : State ω) (r : Request) (reply : Reply) : Option (Option Str) :=
  match reach A s r with
  | .error _ => none
  | .ok (e, _, _) =>
    match e.handler, reply with
    | .authLogin, .session sess => some (some sess.Token)
    | .authLogout, _ => some none
    | _, _ => none

/-- What the server answers to a request. -/
def Sent.answer (A : App ω) (d : Draw) (s : State ω) (q : Sent) : Answer :=
  ⟨q.page, q.call, (serve A q.req d s).1, setCookie A s q.req (serve A q.req d s).1⟩

/-- `load` loads the page anew or in another tab. `head`, `body` and `cut` are the parts of an answer
as they arrive, `cut` when the body breaks off; `dropRequest` and `dropAnswer` are connections that
fail before that. `forget` is a cookie that expires or that the user removes, and `server` what
other clients and the time do. -/
inductive Event where
  | load
  | login (page : Nat) (username password : Str)
  | logout (page : Nat)
  | call (page : Nat) (method : Method) (path : Str) (body : Body)
  | deliver (k : Nat) (d : Draw)
  | head (k : Nat)
  | body (k : Nat)
  | cut (k : Nat)
  | dropRequest (k : Nat)
  | dropAnswer (k : Nat)
  | forget
  | server (e : Server.Event)

namespace Net

def user (n : Net ω) (i : Nat) : Option Me := n.pages[i]?.bind Page.user

def send (i : Nat) (c : Call) (n : Net ω) : Net ω :=
  match n.pages[i]? with
  | none => n
  | some p => { n with requests := n.requests ++ [⟨i, c, c.request n.jar p.csrfToken⟩] }

def settle (i : Nat) (f : Page → Page) (n : Net ω) : Net ω := { n with pages := n.pages.modify i f }

def deliver (A : App ω) (k : Nat) (d : Draw) (n : Net ω) : Net ω :=
  match n.requests[k]? with
  | none => n
  | some q =>
    { n with
      server := (serve A q.req d n.server).2
      requests := n.requests.eraseIdx k
      answers := n.answers ++ [q.answer A d n.server] }

def head (k : Nat) (n : Net ω) : Net ω :=
  match n.answers[k]? with
  | none => n
  | some a =>
    { n with
      jar := a.setCookie.getD n.jar
      answers := n.answers.eraseIdx k
      bodies := n.bodies ++ [a] }

/-- A body that was read as these data. -/
def read (k : Nat) (data : Reply → Me) (n : Net ω) : Net ω :=
  match n.bodies[k]? with
  | none => n
  | some a =>
    ({ n with bodies := n.bodies.eraseIdx k } : Net ω).settle a.page
      (Page.answered a.call a.reply (data a.reply))

def dropRequest (k : Nat) (n : Net ω) : Net ω :=
  match n.requests[k]? with
  | none => n
  | some q =>
    ({ n with requests := n.requests.eraseIdx k } : Net ω).settle q.page fun p => p.rejected q.call

def dropAnswer (k : Nat) (n : Net ω) : Net ω :=
  match n.answers[k]? with
  | none => n
  | some a =>
    ({ n with answers := n.answers.eraseIdx k } : Net ω).settle a.page fun p => p.rejected a.call

end Net

/-- `App` shows the form of `Login` as long as it has no user, and the rest once it has one. -/
def step (A : App ω) (n : Net ω) : Event → Net ω
  | .load => ({ n with pages := n.pages ++ [⟨none, none⟩] } : Net ω).send n.pages.length .me
  | .login i username password =>
    if (n.user i).isSome then n else n.send i (.login username password)
  | .logout i => if (n.user i).isSome then n.send i .logout else n
  | .call i method path body =>
    if (n.user i).isSome then n.send i (.other method path body) else n
  | .deliver k d => n.deliver A k d
  | .head k => n.head k
  | .body k => n.read k data
  | .cut k => n.read k fun _ => .empty
  | .dropRequest k => n.dropRequest k
  | .dropAnswer k => n.dropAnswer k
  | .forget => { n with jar := none }
  | .server e => { n with server := Server.step A n.server e }

/-- The server starts, in front of a browser that may hold a cookie from before. -/
def start (accounts : Accounts) (ttl now : Nat) (world : ω) (jar : Option Str) : Net ω :=
  ⟨.start accounts ttl now world, jar, [], [], [], []⟩

/-! ## Tokens that are drawn -/

/-- The session is in the store, or in an answer under way. -/
def Net.Knows (n : Net ω) (sess : Session) : Prop :=
  (∃ t, n.server.store.sessions t = some sess) ∨ ∃ a ∈ n.answers ++ n.bodies, a.reply = .session sess

/-- Neither of the two random tokens is empty or in use anywhere. -/
structure Net.Fresh (n : Net ω) (d : Draw) : Prop where
  csrf : d.csrf ≠ []
  unknown : ∀ sess, n.Knows sess → sess.Token ≠ d.token ∧ sess.CSRFToken ≠ d.csrf
  jar : n.jar ≠ some d.token
  requests : ∀ q ∈ n.requests, q.req.cookie ≠ some d.token
  pages : ∀ p ∈ n.pages, p.csrfToken ≠ some d.csrf

def FreshDraw (n : Net ω) : Event → Prop
  | .deliver _ d => n.Fresh d
  | .server (.request _ d) => n.Fresh d
  | _ => True

/-! ## Pages in step -/

/-- The cookie names a session that the server admits. -/
def Net.Live (n : Net ω) (sess : Session) : Prop :=
  ∃ t, n.jar = some t ∧ n.server.store.Get t n.server.now = some sess

/-- As long as the page shows a user, it holds the CSRF token of the session that its requests
belong to. -/
def InStep (i : Nat) (n : Net ω) : Prop :=
  ∀ p sess, n.pages[i]? = some p → p.user ≠ none → n.Live sess → p.csrfToken = some sess.CSRFToken

/-- The head of an answer brings the cookie of an admitted session only while the page shows no
user; the page reads a session from a body only when the cookie names no other one, and the body
breaks off only when it names none. -/
def InOrder (i : Nat) (n : Net ω) : Event → Prop
  | .head k => ∀ a t sess, n.answers[k]? = some a → a.setCookie = some (some t) →
      n.server.store.Get t n.server.now = some sess → n.user i = none
  | .body k => ∀ a sess, n.bodies[k]? = some a → a.page = i → a.call.signsIn →
      a.reply = .session sess → ∀ live, n.Live live → live.Token = sess.Token
  | .cut k => ∀ a sess, n.bodies[k]? = some a → a.page = i → a.call.signsIn →
      a.reply = .session sess → ∀ live, ¬ n.Live live
  | _ => True

/-- No answer under way to the page is `csrf_invalid`. -/
def Accepted (i : Nat) (n : Net ω) : Prop :=
  ∀ a ∈ n.answers ++ n.bodies, a.page = i → a.reply ≠ .error 403 "csrf_invalid"

end Browser
end Server
end Nasd
