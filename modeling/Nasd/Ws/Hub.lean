import Nasd.Server.Access

/-!
# Nasd.Ws.Hub

The WebSocket hub (`internal/ws/hub.go`) next to the server: upgrades of requests to `/ws`, the
loop of `Hub.Run` over its three channels, `Emit`, and the two goroutines of every connection.
Each event below is one receive or send on a channel, so a list of events is one interleaving.

* `step_session`             — a connection keeps the session its upgrade request carried.
* `upgrades_decide_audience` — who receives events, against what upgrade requests carry.
-/

namespace Nasd
namespace Ws

open Text Machine Server

variable {ω μ : Type}

/-- A connection from its upgrade to its end: waiting to be registered, in the hub's map, in the
map with its reader gone, out of the map with its channel closed. -/
inductive Phase where
  | joining | member | leaving | closed
  deriving DecidableEq

/-- `session` is what the cookie of the upgrade request stood for at that time; nothing in the hub
reads it. `taken` is what the writer has received from the channel `send`. -/
structure Client (μ : Type) where
  request : Request
  session : Option Session
  phase : Phase
  send : List μ
  writing : Bool
  taken : List μ
  deriving DecidableEq

structure Hub (μ : Type) where
  conns : List (Client μ)
  broadcast : List μ

structure Sys (ω μ : Type) where
  server : State ω
  hub : Hub μ

/-! ## Hub -/

def NewHub : Hub μ := ⟨[], []⟩

/-- `ServeWS`: the upgraded connection waits for the hub to register it. -/
def ServeWS (r : Request) (session : Option Session) (h : Hub μ) : Hub μ :=
  { h with conns := h.conns ++ [⟨r, session, .joining, [], true, []⟩] }

def modify (i : Nat) (f : Client μ → Client μ) (h : Hub μ) : Hub μ :=
  { h with conns := h.conns.modify i f }

def Client.register (c : Client μ) : Client μ :=
  if c.phase = .joining then { c with phase := .member } else c

/-- `readPump` ends and waits for the hub to unregister the connection. -/
def Client.readError (c : Client μ) : Client μ :=
  if c.phase = .member then { c with phase := .leaving } else c

def Client.unregister (c : Client μ) : Client μ :=
  if c.phase = .leaving then { c with phase := .closed } else c

def Client.inMap (c : Client μ) : Bool := c.phase = .member || c.phase = .leaving

/-- A message of the broadcast; a client whose queue is full misses it. -/
def Client.deliver (m : μ) (c : Client μ) : Client μ :=
  if c.inMap && c.send.length < 32 then { c with send := c.send ++ [m] } else c

/-- `writePump` takes a message and writes it; it ends when writing fails, or when the channel is
closed and empty. -/
def Client.write (ok : Bool) (c : Client μ) : Client μ :=
  if !c.writing then c
  else match c.send with
  | [] => if c.phase = .closed then { c with writing := false } else c
  | m :: ms => { c with send := ms, taken := c.taken ++ [m], writing := ok }

/-- The buffer of 64 drops what does not fit. -/
def Emit (m : μ) (h : Hub μ) : Hub μ :=
  if h.broadcast.length < 64 then { h with broadcast := h.broadcast ++ [m] } else h

def dispatch (h : Hub μ) : Hub μ :=
  match h.broadcast with
  | [] => h
  | m :: ms => ⟨h.conns.map (Client.deliver m), ms⟩

/-! ## Machine -/

inductive Event (μ : Type) where
  | server (e : Server.Event)
  | upgrade (r : Request) (d : Draw) (handshake : Bool)
  | register (i : Nat)
  | readError (i : Nat)
  | unregister (i : Nat)
  | emit (m : μ)
  | dispatch
  | write (i : Nat) (ok : Bool)

/-- The session that a request's cookie stands for. -/
def sessionOf (s : State ω) (r : Request) : Option Session :=
  r.cookie.bind fun token => s.store.Get token s.now

def reachesWS (A : App ω) (s : State ω) (r : Request) : Bool :=
  match reach A s r with
  | .ok (ep, _, _) => ep.handler = .hubServeWS
  | .error _ => false

def step (A : App ω) (s : Sys ω μ) : Event μ → Sys ω μ
  | .server e => { s with server := Server.step A s.server e }
  | .upgrade r d handshake =>
    ⟨Server.step A s.server (.request r d),
      if reachesWS A s.server r && handshake then ServeWS r (sessionOf s.server r) s.hub else s.hub⟩
  | .register i => { s with hub := modify i Client.register s.hub }
  | .readError i => { s with hub := modify i Client.readError s.hub }
  | .unregister i => { s with hub := modify i Client.unregister s.hub }
  | .emit m => { s with hub := Emit m s.hub }
  | .dispatch => { s with hub := dispatch s.hub }
  | .write i ok => { s with hub := modify i (Client.write ok) s.hub }

/-! ## Who receives events -/

/-- A connection whose upgrade carried no session has never been sent anything. -/
def OnlySessionsReceive (s : Sys ω μ) : Prop :=
  ∀ c ∈ s.hub.conns, c.session = none → c.send = [] ∧ c.taken = []

/-- An upgrade that the hub serves carries a session. -/
def CarriesSession (A : App ω) (s : Sys ω μ) : Event μ → Prop
  | .upgrade r _ handshake =>
    (reachesWS A s.server r && handshake) = true → sessionOf s.server r ≠ none
  | _ => True

variable {A : App ω} {s : Sys ω μ} {e : Event μ}

section

variable {c : Client μ} {m : μ} {ok : Bool}

@[simp] theorem register_session : c.register.session = c.session := by
  unfold Client.register; split <;> rfl

@[simp] theorem readError_session : c.readError.session = c.session := by
  unfold Client.readError; split <;> rfl

@[simp] theorem unregister_session : c.unregister.session = c.session := by
  unfold Client.unregister; split <;> rfl

@[simp] theorem deliver_session : (c.deliver m).session = c.session := by
  unfold Client.deliver; split <;> rfl

@[simp] theorem write_session : (c.write ok).session = c.session := by
  unfold Client.write
  split
  · rfl
  · split
    · split <;> rfl
    · rfl

end

theorem mem_modify {α : Type} {f : α → α} {l : List α} {i : Nat} {a : α} (h : a ∈ l.modify i f) :
    ∃ b ∈ l, a = b ∨ a = f b := by
  obtain ⟨j, hj⟩ := List.mem_iff_getElem?.mp h
  rw [List.getElem?_modify] at hj
  obtain ⟨b, hb, rfl⟩ := Option.map_eq_some_iff.mp hj
  refine ⟨b, List.mem_of_getElem? hb, ?_⟩
  split
  · exact .inr rfl
  · exact .inl rfl

/-- A connection after an event was opened by it, or was there with the same session. -/
theorem step_session {c : Client μ} (hc : c ∈ (step A s e).hub.conns) :
    (∃ r d, e = .upgrade r d true ∧ reachesWS A s.server r = true ∧
      c.session = sessionOf s.server r) ∨
    ∃ c' ∈ s.hub.conns, c'.session = c.session := by
  have hmodify : ∀ {i} {f : Client μ → Client μ}, (∀ c, (f c).session = c.session) →
      c ∈ (modify i f s.hub).conns → ∃ c' ∈ s.hub.conns, c'.session = c.session := by
    intro i f hf hmem
    obtain ⟨c', hc', rfl | rfl⟩ := mem_modify hmem
    · exact ⟨c, hc', rfl⟩
    · exact ⟨c', hc', (hf c').symm⟩
  cases e with
  | server e => exact .inr ⟨c, hc, rfl⟩
  | upgrade r d handshake =>
    simp only [step] at hc
    split at hc
    · rename_i hserved
      rw [Bool.and_eq_true] at hserved
      rcases List.mem_append.mp hc with hc | hc
      · exact .inr ⟨c, hc, rfl⟩
      · rw [List.mem_singleton] at hc
        subst hc
        exact .inl ⟨r, d, by rw [hserved.2], hserved.1, rfl⟩
    · exact .inr ⟨c, hc, rfl⟩
  | register i => exact .inr (hmodify (fun _ => register_session) hc)
  | readError i => exact .inr (hmodify (fun _ => readError_session) hc)
  | unregister i => exact .inr (hmodify (fun _ => unregister_session) hc)
  | emit m =>
    simp only [step, Emit] at hc
    split at hc <;> exact .inr ⟨c, hc, rfl⟩
  | dispatch =>
    simp only [step, dispatch] at hc
    split at hc
    · exact .inr ⟨c, hc, rfl⟩
    · obtain ⟨c', hc', rfl⟩ := List.mem_map.mp hc
      exact .inr ⟨c', hc', deliver_session.symm⟩
  | write i ok => exact .inr (hmodify (fun _ => write_session) hc)

/-- Every connection carried a session when it was opened. -/
def AllCarrySession (s : Sys ω μ) : Prop := ∀ c ∈ s.hub.conns, c.session ≠ none

theorem step_allCarrySession (h : AllCarrySession s) (hg : CarriesSession A s e) :
    AllCarrySession (step A s e) := by
  intro c hc
  rcases step_session hc with ⟨r, d, rfl, hws, hsess⟩ | ⟨c', hc', hsess⟩
  · rw [hsess]
    exact hg (by rw [hws]; rfl)
  · rw [← hsess]
    exact h c' hc'

theorem AllCarrySession.onlySessionsReceive (h : AllCarrySession s) : OnlySessionsReceive s :=
  fun c hc hnone => absurd hnone (h c hc)

theorem modify_last {α : Type} (f : α → α) (l : List α) (a : α) :
    (l ++ [a]).modify l.length f = l ++ [f a] := by
  induction l with
  | nil => rfl
  | cons b l ih => simpa using ih

/-- The next event of the hub reaches a connection that has just been opened. -/
theorem new_connection_receives (A : App ω) (srv : State ω) (h : Hub μ) (r : Request)
    (session : Option Session) (m : μ) :
    ∃ c ∈ (run (step A) ⟨srv, ServeWS r session h⟩
      [.register h.conns.length, .emit m, .dispatch]).hub.conns,
      c.session = session ∧ c.send ≠ [] := by
  have hqueue : ∃ x xs, (Emit m h).broadcast = x :: xs := by
    unfold Emit
    split
    · cases h.broadcast with
      | nil => exact ⟨m, [], rfl⟩
      | cons x xs => exact ⟨x, xs ++ [m], rfl⟩
    · rename_i hfull
      cases hb : h.broadcast with
      | nil => simp [hb] at hfull
      | cons x xs => exact ⟨x, xs, rfl⟩
  obtain ⟨x, xs, hx⟩ := hqueue
  have hemit : Emit m (modify h.conns.length Client.register (ServeWS r session h)) =
      ⟨h.conns ++ [⟨r, session, .member, [], true, []⟩], x :: xs⟩ := by
    rw [← hx]
    unfold Emit
    simp only [modify, ServeWS, modify_last]
    split <;> rfl
  simp only [run_cons, run_nil, step, hemit, dispatch]
  refine ⟨⟨r, session, .member, [x], true, []⟩, ?_, rfl, by simp⟩
  rw [List.map_append]
  exact List.mem_append_right _ (by simp [Client.deliver, Client.inMap])

/-- If every upgrade carries a session, only connections with a session receive events; and after
an upgrade without one, there is a run in which its connection does. -/
theorem upgrades_decide_audience (A : App ω) (srv : State ω) (m : μ) (es : List (Event μ)) :
    (Guarded (step A) (CarriesSession A) ⟨srv, NewHub⟩ es →
      Always (step A) OnlySessionsReceive ⟨srv, NewHub⟩ es) ∧
    ∀ pre e post, es = pre ++ e :: post →
      ¬ CarriesSession A (run (step A) ⟨srv, NewHub⟩ pre) e →
      ∃ more, ¬ Always (step A) OnlySessionsReceive ⟨srv, NewHub⟩ (pre ++ e :: more) := by
  constructor
  · refine always_of_guarded (fun s e h hg => step_allCarrySession h hg)
      (fun s h => h.onlySessionsReceive) ?_
    intro c hc
    cases hc
  · intro pre e post _ hbad
    cases e with
    | upgrade r d handshake =>
      simp only [CarriesSession, ne_eq, Classical.not_imp, not_not] at hbad
      obtain ⟨hserved, hnone⟩ := hbad
      obtain ⟨c, hc, hsess, hsend⟩ := new_connection_receives A
        (Server.step A (run (step A) ⟨srv, NewHub⟩ pre).server (.request r d))
        (run (step A) ⟨srv, NewHub⟩ pre).hub r none m
      refine ⟨[.register (run (step A) ⟨srv, NewHub⟩ pre).hub.conns.length, .emit m, .dispatch], ?_⟩
      intro hall
      have hend := always_iff_prefix.mp hall _ [] (List.append_nil _).symm
      rw [run_append, run_cons] at hend
      have hopen : step A (run (step A) ⟨srv, NewHub⟩ pre) (.upgrade r d handshake) =
          ⟨Server.step A (run (step A) ⟨srv, NewHub⟩ pre).server (.request r d),
            ServeWS r none (run (step A) ⟨srv, NewHub⟩ pre).hub⟩ := by
        simp only [step, hserved, hnone, if_true]
      rw [hopen] at hend
      exact hsend (hend c hc hsess).1
    | server e => exact absurd trivial hbad
    | register i => exact absurd trivial hbad
    | readError i => exact absurd trivial hbad
    | unregister i => exact absurd trivial hbad
    | emit m => exact absurd trivial hbad
    | dispatch => exact absurd trivial hbad
    | write i ok => exact absurd trivial hbad

/-- An upgrade request without a cookie. -/
def stranger : Request := ⟨.get, "/ws", none, [], ⟨none, none, none⟩⟩

/-- A connection without a session is sent the next event. -/
theorem stranger_receives :
    ¬ Always (step demo) OnlySessionsReceive (⟨demoStart, NewHub⟩ : Sys Nat Str)
      [.upgrade stranger noDraw true, .register 0, .emit "raid.status", .dispatch] := by
  rintro ⟨-, -, -, -, hlast⟩
  have hsent := (hlast ⟨stranger, none, .member, ["raid.status"], true, []⟩ (by decide) rfl).1
  cases hsent

end Ws
end Nasd
