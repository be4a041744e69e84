import Nasd.Lib.Chan
import Nasd.Lib.Run

/-!
# Nasd.Ws.Channels

The hub (`internal/ws/hub.go`) down to its channels: the loop of `Hub.Run` offers a message to its
clients one after the other, and the goroutines of the connections, `Emit` and new upgrades run in
between. An event below is one receive or send, so a list of events is one interleaving.

* `step`        — the hub and its connections; a send on a closed channel, or closing one again,
  sets `panicked`.
* `observe`     — the same run with a record of what was accepted, dispatched and offered.
* `observe_inv` — the invariant of every interleaving.
* `hub_delivers` — what every client is sent.
-/

namespace Nasd
namespace Ws
namespace Channels

open Machine

variable {μ : Type}

/-! ## Hub -/

/-- Where the goroutine of `ServeWS` stands: it waits for `register`, it reads, it waits for
`unregister`, or it has ended. -/
inductive Reader where
  | registering | reading | unregistering | done
  deriving DecidableEq

/-- `inMap` says that the client is a key of `clients`; `taken` is what `writePump` has received. -/
structure Conn (μ : Type) where
  reader : Reader
  inMap : Bool
  send : Chan μ 32
  writing : Bool
  taken : List μ

/-- `Run` waits in its `select`, or it is sending a message to the clients that are left. -/
inductive Loop (μ : Type) where
  | idle
  | sending (m : μ) (left : List Nat)

structure Hub (μ : Type) where
  conns : List (Conn μ)
  broadcast : Chan μ 64
  loop : Loop μ
  panicked : Bool

def NewHub : Hub μ := ⟨[], .make, .idle, false⟩

def Conn.opened : Conn μ := ⟨.registering, false, .make, false, []⟩

def Conn.register (c : Conn μ) : Conn μ :=
  if c.reader = .registering then { c with reader := .reading, inMap := true, writing := true }
  else c

def Conn.readError (c : Conn μ) : Conn μ :=
  if c.reader = .reading then { c with reader := .unregistering } else c

/-- The hub takes the client out of its map and closes the channel, if it is there. -/
def Conn.unregister (c : Conn μ) : Option (Conn μ) :=
  if c.reader = .unregistering then
    if c.inMap then c.send.close.map fun ch => { c with reader := .done, inMap := false, send := ch }
    else some { c with reader := .done }
  else some c

def Conn.offer (m : μ) (c : Conn μ) : Option (Conn μ) :=
  (c.send.trySend m).map fun ch => { c with send := ch }

/-- `writePump` receives a message and writes it; it ends when that fails, or when the channel is
closed and empty. -/
def Conn.write (ok : Bool) (c : Conn μ) : Conn μ :=
  if !c.writing then c
  else match c.send.receive with
  | some (m, ch) => { c with send := ch, taken := c.taken ++ [m], writing := ok }
  | none => if c.send.closed then { c with writing := false } else c

def Conn.pingError (c : Conn μ) : Conn μ := { c with writing := false }

def onConn (i : Nat) (f : Conn μ → Option (Conn μ)) (s : Hub μ) : Hub μ :=
  match s.conns[i]? with
  | none => s
  | some c =>
    match f c with
    | none => { s with panicked := true }
    | some c' => { s with conns := s.conns.set i c' }

/-- The clients in the map. -/
def clients (s : Hub μ) : List Nat :=
  (List.range s.conns.length).filter fun i => s.conns[i]?.any Conn.inMap

inductive Event (μ : Type) where
  | serveWS
  | register (i : Nat)
  | readError (i : Nat)
  | unregister (i : Nat)
  | emit (m : μ)
  | receive
  | offer (i : Nat)
  | finish
  | write (i : Nat) (ok : Bool)
  | pingError (i : Nat)

def step (s : Hub μ) : Event μ → Hub μ
  | .serveWS => { s with conns := s.conns ++ [.opened] }
  | .register i =>
    match s.loop with
    | .idle => onConn i (some ∘ Conn.register) s
    | .sending _ _ => s
  | .readError i => onConn i (some ∘ Conn.readError) s
  | .unregister i =>
    match s.loop with
    | .idle => onConn i Conn.unregister s
    | .sending _ _ => s
  | .emit m =>
    match s.broadcast.trySend m with
    | none => { s with panicked := true }
    | some ch => { s with broadcast := ch }
  | .receive =>
    match s.loop, s.broadcast.receive with
    | .idle, some (m, ch) => { s with broadcast := ch, loop := .sending m (clients s) }
    | _, _ => s
  | .offer i =>
    match s.loop with
    | .idle => s
    | .sending m left =>
      if i ∈ left then onConn i (Conn.offer m) { s with loop := .sending m (left.erase i) } else s
  | .finish =>
    match s.loop with
    | .sending _ [] => { s with loop := .idle }
    | _ => s
  | .write i ok => onConn i (some ∘ Conn.write ok) s
  | .pingError i => onConn i (some ∘ Conn.pingError) s

/-! ## Record of a run -/

/-- How many messages had been dispatched when the client was put into the map and taken out of it,
and the messages offered to it, each with the number of messages that waited in its channel. -/
structure Log (μ : Type) where
  joined : Option Nat
  removed : Option Nat
  offers : List (μ × Nat)

def Log.empty : Log μ := ⟨none, none, []⟩

/-- The log of a connection that was `c` and is `c'`, after `n` dispatched messages. -/
def Log.watch (n : Nat) (offers : List (μ × Nat)) : Option (Conn μ) → Option (Conn μ) → Log μ → Log μ
  | some c, some c', l =>
    { joined := if !c.inMap && c'.inMap then some n else l.joined
      removed := if c.inMap && !c'.inMap then some n else l.removed
      offers := l.offers ++ offers }
  | _, _, l => l

/-- `accepted` are the messages that found room in the broadcast buffer, `dispatched` those that the
hub received from it, in their order. -/
structure Observed (μ : Type) where
  hub : Hub μ
  accepted : List μ
  dispatched : List μ
  logs : Nat → Log μ

def start : Observed μ := ⟨NewHub, [], [], fun _ => .empty⟩

def acceptedBy (s : Hub μ) : Event μ → List μ
  | .emit m => if s.broadcast.buf.length < 64 then [m] else []
  | _ => []

def dispatchedBy (s : Hub μ) : Event μ → List μ
  | .receive =>
    match s.loop with
    | .idle => s.broadcast.buf.take 1
    | .sending _ _ => []
  | _ => []

def offeredBy (s : Hub μ) (i : Nat) : Event μ → List (μ × Nat)
  | .offer j =>
    match s.loop, s.conns[i]? with
    | .sending m left, some c => if j = i ∧ i ∈ left then [(m, c.send.buf.length)] else []
    | _, _ => []
  | _ => []

def observe (o : Observed μ) (e : Event μ) : Observed μ where
  hub := step o.hub e
  accepted := o.accepted ++ acceptedBy o.hub e
  dispatched := o.dispatched ++ dispatchedBy o.hub e
  logs i := (o.logs i).watch o.dispatched.length (offeredBy o.hub i e) o.hub.conns[i]?
    (step o.hub e).conns[i]?

theorem run_hub (o : Observed μ) (es : List (Event μ)) :
    (run observe o es).hub = run step o.hub es := by
  induction es generalizing o with
  | nil => rfl
  | cons e es ih => exact ih (observe o e)

/-! ## One connection -/

/-- The messages dispatched between the registration and the removal. -/
def window (dispatched : List μ) (l : Log μ) : List μ :=
  match l.joined with
  | none => []
  | some a =>
    match l.removed with
    | none => dispatched.drop a
    | some b => (dispatched.take b).drop a

/-- The messages that found room in the channel. -/
def queued (offers : List (μ × Nat)) : List μ := (offers.filter fun o => o.2 < 32).map Prod.fst

/-- The map, the channel and the log agree with where the goroutine stands. -/
def Stands (n : Nat) (c : Conn μ) (l : Log μ) : Prop :=
  match c.reader with
  | .registering => c.inMap = false ∧ c.send.closed = false ∧ l.joined = none ∧ l.removed = none
  | .reading | .unregistering => c.inMap = true ∧ c.send.closed = false ∧
      ∃ a, l.joined = some a ∧ l.removed = none ∧ a ≤ n
  | .done => c.inMap = false ∧ c.send.closed = true ∧
      ∃ a b, l.joined = some a ∧ l.removed = some b ∧ a ≤ b ∧ b ≤ n

/-- `todo` is what the hub has still to offer of the message it is sending. -/
structure ConnInv (dispatched todo : List μ) (c : Conn μ) (l : Log μ) : Prop where
  stands : Stands dispatched.length c l
  absent : c.inMap = false → todo = []
  offered : l.offers.map Prod.fst ++ todo = window dispatched l
  queued : c.taken ++ c.send.buf = queued l.offers
  room : ∀ o ∈ l.offers, o.2 ≤ 32

variable {d todo : List μ} {c c' : Conn μ} {l : Log μ} {m : μ} {n : Nat} {offers : List (μ × Nat)}

theorem watch_same (h : c'.inMap = c.inMap) :
    l.watch n offers (some c) (some c') = { l with offers := l.offers ++ offers } := by
  cases hc : c.inMap <;> simp [Log.watch, h, hc]

theorem watch_silent (h : c'.inMap = c.inMap) : l.watch n [] (some c) (some c') = l := by
  rw [watch_same h, List.append_nil]

theorem watch_self : l.watch n [] (some c) (some c) = l := watch_silent rfl

theorem Stands.congr (h : Stands n c l) (hr : c'.reader = c.reader) (hm : c'.inMap = c.inMap)
    (hs : c'.send.closed = c.send.closed) : Stands n c' l := by
  unfold Stands at h ⊢
  rw [hr, hm, hs]
  exact h

theorem Stands.of_inMap (h : Stands n c l) (hm : c.inMap = true) :
    c.send.closed = false ∧ ∃ a, l.joined = some a ∧ l.removed = none ∧ a ≤ n := by
  unfold Stands at h
  split at h
  · exact absurd (hm.symm.trans h.1) (by decide)
  · exact h.2
  · exact h.2
  · exact absurd (hm.symm.trans h.1) (by decide)

/-- Steps that leave the map alone are not in the log. -/
theorem ConnInv.silent (h : ConnInv d todo c' l) (hm : c'.inMap = c.inMap) :
    ConnInv d todo c' (l.watch d.length [] (some c) (some c')) := by
  rw [watch_silent hm]
  exact h

theorem connInv_opened (d : List μ) : ConnInv d [] .opened .empty :=
  ⟨⟨rfl, rfl, rfl, rfl⟩, fun _ => rfl, rfl, rfl, fun _ h => absurd h List.not_mem_nil⟩

/-- A client begins with what is dispatched next. -/
theorem ConnInv.register (h : ConnInv d [] c l) :
    ConnInv d [] c.register (l.watch d.length [] (some c) (some c.register)) := by
  unfold Conn.register
  split
  · rename_i hreader
    have hstands := h.stands
    simp only [Stands, hreader] at hstands
    obtain ⟨hmap, hopen, hjoined, hremoved⟩ := hstands
    have hnone : l.offers = [] := by
      have hoffered := h.offered
      simpa [window, hjoined] using hoffered
    have hqueued := h.queued
    rw [hnone] at hqueued
    refine ⟨?_, fun _ => rfl, ?_, ?_, ?_⟩
    · refine ⟨rfl, hopen, d.length, ?_, ?_, Nat.le_refl _⟩
      · simp [Log.watch, hmap]
      · simp [Log.watch, hmap, hremoved]
    · simp [Log.watch, hmap, hnone, window, hremoved]
    · simpa [Log.watch, hnone] using hqueued
    · simp [Log.watch, hnone]
  · rw [watch_self]
    exact h

theorem ConnInv.readError (h : ConnInv d todo c l) :
    ConnInv d todo c.readError (l.watch d.length [] (some c) (some c.readError)) := by
  unfold Conn.readError
  split
  · rename_i hreader
    refine ConnInv.silent ⟨?_, h.absent, h.offered, h.queued, h.room⟩ rfl
    have hstands := h.stands
    simp only [Stands, hreader] at hstands
    exact hstands
  · rw [watch_self]
    exact h

/-- The hub closes the channel of a client that it takes out of its map, and it was open. -/
theorem ConnInv.unregister (h : ConnInv d [] c l) :
    ∃ c', c.unregister = some c' ∧
      ConnInv d [] c' (l.watch d.length [] (some c) (some c')) := by
  unfold Conn.unregister
  split
  · rename_i hreader
    have hstands := h.stands
    simp only [Stands, hreader] at hstands
    obtain ⟨hmap, hopen, a, hjoined, hremoved, ha⟩ := hstands
    rw [if_pos hmap, Chan.close_of_open hopen]
    refine ⟨_, rfl, ?_, fun _ => rfl, ?_, ?_, ?_⟩
    · refine ⟨rfl, rfl, a, d.length, ?_, ?_, ha, Nat.le_refl _⟩
      · simp [Log.watch, hmap, hjoined]
      · simp [Log.watch, hmap]
    · have hoffered := h.offered
      simp only [window, hjoined, hremoved] at hoffered
      simp only [Log.watch, hmap, window, hjoined, List.append_nil, Bool.not_true,
        Bool.not_false, Bool.and_self, if_true, Bool.false_eq_true, if_false, List.take_length]
      simpa using hoffered
    · simpa [Log.watch] using h.queued
    · simpa [Log.watch] using h.room
  · refine ⟨c, rfl, ?_⟩
    rw [watch_self]
    exact h

/-- A message is queued, or the channel holds 32 messages already. -/
theorem ConnInv.offer (h : ConnInv d [m] c l) :
    ∃ c', c.offer m = some c' ∧
      ConnInv d [] c' (l.watch d.length [(m, c.send.buf.length)] (some c) (some c')) := by
  have hmap : c.inMap = true := by
    by_contra hnot
    have htodo := h.absent (Bool.not_eq_true _ ▸ hnot)
    cases htodo
  obtain ⟨hopen, -⟩ := h.stands.of_inMap hmap
  obtain ⟨ch, hch, hopen', hbuf⟩ := Chan.trySend_of_open hopen m
  refine ⟨{ c with send := ch }, by rw [Conn.offer, hch]; rfl, ?_⟩
  have hsame : ({ c with send := ch } : Conn μ).inMap = c.inMap := rfl
  rw [watch_same hsame]
  refine ⟨h.stands.congr rfl rfl (hopen'.trans hopen.symm), fun _ => rfl, ?_, ?_, ?_⟩
  · have hoffered := h.offered
    simpa [window] using hoffered
  · show c.taken ++ ch.buf = _
    rw [hbuf, Channels.queued, List.filter_append, List.map_append, ← Channels.queued, ← h.queued]
    split
    · rename_i hroom; simp [hroom]
    · rename_i hfull; simp [hfull]
  · intro o ho
    rcases List.mem_append.mp ho with ho | ho
    · exact h.room o ho
    · rw [List.mem_singleton.mp ho]
      exact c.send.bound

theorem ConnInv.write {ok : Bool} (h : ConnInv d todo c l) :
    ConnInv d todo (c.write ok) (l.watch d.length [] (some c) (some (c.write ok))) := by
  unfold Conn.write
  split
  · rw [watch_self]
    exact h
  · split
    · rename_i m ch hrecv
      obtain ⟨hbuf, hclosed⟩ := Chan.receive_eq_some hrecv
      refine ConnInv.silent
        ⟨h.stands.congr rfl rfl hclosed, h.absent, h.offered, ?_, h.room⟩ rfl
      show c.taken ++ [m] ++ ch.buf = _
      rw [← h.queued, hbuf, List.append_assoc]
      rfl
    · split
      · exact .silent ⟨h.stands, h.absent, h.offered, h.queued, h.room⟩ rfl
      · rw [watch_self]
        exact h

theorem ConnInv.pingError (h : ConnInv d todo c l) :
    ConnInv d todo c.pingError (l.watch d.length [] (some c) (some c.pingError)) :=
  .silent ⟨h.stands, h.absent, h.offered, h.queued, h.room⟩ rfl

/-- The next message is to be offered to the clients in the map. -/
theorem ConnInv.dispatch (h : ConnInv d [] c l) (m : μ) :
    ConnInv (d ++ [m]) (if c.inMap = true then [m] else []) c l := by
  have hoffered := h.offered
  have hlen : (d ++ [m]).length = d.length + 1 := by simp
  rw [List.append_nil] at hoffered
  refine ⟨?_, fun hm => if_neg (by simp [hm]), ?_, h.queued, h.room⟩
  · have hstands := h.stands
    unfold Stands at hstands ⊢
    rw [hlen]
    split at hstands
    · exact hstands
    · obtain ⟨hm, hc, a, hj, hr, ha⟩ := hstands
      exact ⟨hm, hc, a, hj, hr, by omega⟩
    · obtain ⟨hm, hc, a, hj, hr, ha⟩ := hstands
      exact ⟨hm, hc, a, hj, hr, by omega⟩
    · obtain ⟨hm, hc, a, b, hj, hr, hab, hb⟩ := hstands
      exact ⟨hm, hc, a, b, hj, hr, hab, by omega⟩
  · rw [hoffered]
    split
    · rename_i hmap
      obtain ⟨-, a, hj, hr, ha⟩ := h.stands.of_inMap hmap
      simp only [window, hj, hr]
      rw [List.drop_append_of_le_length ha]
    · rename_i hmap
      have hstands := h.stands
      unfold Stands at hstands
      rw [List.append_nil]
      split at hstands
      · simp [window, hstands.2.2.1]
      · exact absurd hstands.1 hmap
      · exact absurd hstands.1 hmap
      · obtain ⟨-, -, a, b, hj, hr, hab, hb⟩ := hstands
        simp only [window, hj, hr]
        rw [List.take_append_of_le_length hb]

/-! ## Hub and connections -/

/-- What is still to be offered to a client. -/
def pending (loop : Loop μ) (i : Nat) : List μ :=
  match loop with
  | .idle => []
  | .sending m left => if i ∈ left then [m] else []

structure Inv (o : Observed μ) : Prop where
  calm : o.hub.panicked = false
  opened : o.hub.broadcast.closed = false
  accepted : o.accepted = o.dispatched ++ o.hub.broadcast.buf
  left : ∀ m left, o.hub.loop = .sending m left →
    left.Nodup ∧ ∀ i ∈ left, i < o.hub.conns.length
  unborn : ∀ i, o.hub.conns.length ≤ i → o.logs i = .empty
  conn : ∀ i c, o.hub.conns[i]? = some c →
    ConnInv o.dispatched (pending o.hub.loop i) c (o.logs i)

variable {o o' : Observed μ} {s s' : Hub μ} {i j : Nat} {e : Event μ}

theorem inv_start : Inv (start : Observed μ) where
  calm := rfl
  opened := rfl
  accepted := rfl
  left _ _ h := by cases h
  unborn _ _ := rfl
  conn i c h := by simp [start, NewHub] at h

theorem clients_nodup : (clients s).Nodup := List.nodup_range.filter _

theorem lt_of_mem_clients (h : i ∈ clients s) : i < s.conns.length :=
  List.mem_range.mp (List.mem_filter.mp h).1

theorem mem_clients (hc : s.conns[i]? = some c) : i ∈ clients s ↔ c.inMap = true := by
  obtain ⟨hlt, hget⟩ := List.getElem?_eq_some_iff.mp hc
  simp [clients, hlt, hget]

theorem watch_other (l : Log μ) (n : Nat) (c? : Option (Conn μ)) : l.watch n [] c? c? = l := by
  cases c? with
  | none => rfl
  | some c => exact watch_self

/-- An event that does nothing. -/
theorem Inv.still (h : Inv o) (hstep : step o.hub e = o.hub) (hacc : acceptedBy o.hub e = [])
    (hdisp : dispatchedBy o.hub e = []) (hoff : ∀ i, offeredBy o.hub i e = []) :
    Inv (observe o e) := by
  have hsame : observe o e = o := by
    unfold observe
    simp only [hstep, hacc, hdisp, hoff, List.append_nil, watch_other]
  rw [hsame]
  exact h

/-- An event that concerns one connection: it is enough to look at that one. -/
theorem Inv.onConn (h : Inv o) {loop : Loop μ} (hat : o.hub.conns[i]? = some c)
    (hstep : step o.hub e = { o.hub with loop := loop, conns := o.hub.conns.set i c' })
    (hacc : acceptedBy o.hub e = []) (hdisp : dispatchedBy o.hub e = [])
    (hoff : ∀ j, j ≠ i → offeredBy o.hub j e = [])
    (hleft : ∀ m left, loop = .sending m left → left.Nodup ∧ ∀ i ∈ left, i < o.hub.conns.length)
    (hpend : ∀ j, j ≠ i → pending loop j = pending o.hub.loop j)
    (hconn : ConnInv o.dispatched (pending loop i) c'
      ((o.logs i).watch o.dispatched.length (offeredBy o.hub i e) (some c) (some c'))) :
    Inv (observe o e) := by
  obtain ⟨hlt, -⟩ := List.getElem?_eq_some_iff.mp hat
  have hlogs : ∀ j, j ≠ i → (observe o e).logs j = o.logs j := by
    intro j hji
    simp only [observe, hstep, hoff j hji, List.getElem?_set_ne (Ne.symm hji), watch_other]
  have hdispatched : (observe o e).dispatched = o.dispatched := by
    simp only [observe, hdisp, List.append_nil]
  have hhub : (observe o e).hub =
      { o.hub with loop := loop, conns := o.hub.conns.set i c' } := hstep
  refine ⟨?_, ?_, ?_, ?_, ?_, ?_⟩
  · rw [hhub]; exact h.calm
  · rw [hhub]; exact h.opened
  · rw [hhub, hdispatched, observe, hacc, List.append_nil]; exact h.accepted
  · rw [hhub]
    simpa only [List.length_set] using hleft
  · intro j hj
    rw [hhub, List.length_set] at hj
    rw [hlogs j (by omega)]
    exact h.unborn j hj
  · intro j cj hcj
    rw [hdispatched, hhub]
    rw [hhub] at hcj
    by_cases hji : j = i
    · subst hji
      simp only [List.getElem?_set_self hlt, Option.some.injEq] at hcj
      subst hcj
      have hlog : (observe o e).logs j = (o.logs j).watch o.dispatched.length
          (offeredBy o.hub j e) (some c) (some c') := by
        simp only [observe, hstep, hat, List.getElem?_set_self hlt]
      rw [hlog]
      exact hconn
    · simp only [List.getElem?_set_ne (Ne.symm hji)] at hcj
      rw [hlogs j hji, hpend j hji]
      exact h.conn j cj hcj

/-- What a goroutine or the idle hub does to a connection. -/
theorem Inv.onConn_quiet (h : Inv o) {f : Conn μ → Option (Conn μ)}
    (hstep : step o.hub e = Channels.onConn i f o.hub) (hacc : acceptedBy o.hub e = [])
    (hdisp : dispatchedBy o.hub e = []) (hoff : ∀ j, offeredBy o.hub j e = [])
    (hconn : ∀ c, ConnInv o.dispatched (pending o.hub.loop i) c (o.logs i) → ∃ c', f c = some c' ∧
      ConnInv o.dispatched (pending o.hub.loop i) c'
        ((o.logs i).watch o.dispatched.length [] (some c) (some c'))) :
    Inv (observe o e) := by
  cases hat : o.hub.conns[i]? with
  | none =>
    refine h.still ?_ hacc hdisp hoff
    rw [hstep, Channels.onConn, hat]
  | some c =>
    obtain ⟨c', hf, hconn⟩ := hconn c (h.conn i c hat)
    have hhub : step o.hub e = { o.hub with
        loop := o.hub.loop, conns := o.hub.conns.set i c' } := by
      rw [hstep, Channels.onConn, hat]
      simp only [hf]
    refine h.onConn hat hhub hacc hdisp (fun j _ => hoff j) h.left (fun _ _ => rfl) ?_
    · rw [hoff]
      exact hconn

/-- An event of the hub alone: the connections and their logs stay as they are. -/
theorem Inv.onHub (h : Inv o) {ch : Chan μ 64} {loop : Loop μ}
    (hstep : step o.hub e = { o.hub with broadcast := ch, loop := loop })
    (hoff : ∀ j, offeredBy o.hub j e = []) (hopen : ch.closed = false)
    (hacc : o.accepted ++ acceptedBy o.hub e = o.dispatched ++ dispatchedBy o.hub e ++ ch.buf)
    (hleft : ∀ m left, loop = .sending m left → left.Nodup ∧ ∀ i ∈ left, i < o.hub.conns.length)
    (hconn : ∀ i c, o.hub.conns[i]? = some c →
      ConnInv (o.dispatched ++ dispatchedBy o.hub e) (pending loop i) c (o.logs i)) :
    Inv (observe o e) := by
  have hlogs : (observe o e).logs = o.logs := by
    funext i
    simp only [observe, hstep, hoff, watch_other]
  have hhub : (observe o e).hub = { o.hub with broadcast := ch, loop := loop } := hstep
  refine ⟨?_, ?_, ?_, ?_, ?_, ?_⟩
  · rw [hhub]; exact h.calm
  · rw [hhub]; exact hopen
  · rw [hhub]; exact hacc
  · rw [hhub]; exact hleft
  · rw [hhub, hlogs]; exact h.unborn
  · rw [hhub, hlogs]; exact hconn

theorem observe_serveWS (h : Inv o) : Inv (observe o .serveWS) := by
  have hconns : (observe o .serveWS).hub.conns = o.hub.conns ++ [.opened] := rfl
  have hold : ∀ i, i < o.hub.conns.length →
      (o.hub.conns ++ [.opened])[i]? = o.hub.conns[i]? := fun i hi => List.getElem?_append_left hi
  have hlogs : (observe o .serveWS).logs = o.logs := by
    funext i
    show (o.logs i).watch _ [] o.hub.conns[i]? (o.hub.conns ++ [.opened])[i]? = o.logs i
    by_cases hi : i < o.hub.conns.length
    · rw [hold i hi, watch_other]
    · rw [List.getElem?_eq_none (by omega)]
      rfl
  have hdisp : (observe o .serveWS).dispatched = o.dispatched := List.append_nil _
  refine ⟨h.calm, h.opened, ?_, ?_, ?_, ?_⟩
  · show o.accepted ++ [] = (o.dispatched ++ []) ++ o.hub.broadcast.buf
    rw [List.append_nil, List.append_nil]
    exact h.accepted
  · intro m left hloop
    obtain ⟨hnodup, hlt⟩ := h.left m left hloop
    refine ⟨hnodup, fun i hi => ?_⟩
    have := hlt i hi
    rw [hconns, List.length_append]
    omega
  · intro i hi
    rw [hconns, List.length_append] at hi
    rw [hlogs]
    exact h.unborn i (by omega)
  · intro i c hc
    rw [hconns] at hc
    rw [hlogs, hdisp]
    by_cases hi : i < o.hub.conns.length
    · rw [hold i hi] at hc
      exact h.conn i c hc
    · -- the new connection: nothing is pending for it, its log is empty
      obtain ⟨hlt, hget⟩ := List.getElem?_eq_some_iff.mp hc
      rw [List.length_append, List.length_singleton] at hlt
      have hi' : i = o.hub.conns.length := by omega
      subst hi'
      have hnew : c = .opened := by simpa using hget.symm
      have hpend : pending o.hub.loop o.hub.conns.length = [] := by
        cases hloop : o.hub.loop with
        | idle => rfl
        | sending m left =>
          refine if_neg fun hmem => ?_
          have := (h.left m left hloop).2 _ hmem
          omega
      show ConnInv _ (pending o.hub.loop _) _ _
      rw [hnew, h.unborn _ (Nat.le_refl _), hpend]
      exact connInv_opened _

theorem observe_emit (h : Inv o) (m : μ) : Inv (observe o (.emit m)) := by
  obtain ⟨ch, hch, hopen, hbuf⟩ := Chan.trySend_of_open h.opened m
  have hstep : step o.hub (.emit m) = { o.hub with broadcast := ch } := by
    simp only [step, hch]
  have hnone : o.dispatched ++ dispatchedBy o.hub (.emit m) = o.dispatched := List.append_nil _
  refine h.onHub hstep (fun _ => rfl) hopen ?_ h.left ?_
  · rw [hnone, h.accepted, hbuf, acceptedBy]
    split <;> simp
  · rw [hnone]
    exact h.conn

theorem observe_receive (h : Inv o) : Inv (observe o .receive) := by
  cases hloop : o.hub.loop with
  | sending m left =>
    refine h.still ?_ rfl ?_ fun _ => rfl
    · simp only [step, hloop]
    · simp only [dispatchedBy, hloop]
  | idle =>
    cases hrecv : o.hub.broadcast.receive with
    | none =>
      have hempty : o.hub.broadcast.buf = [] := by
        unfold Chan.receive at hrecv
        split at hrecv
        · assumption
        · cases hrecv
      refine h.still ?_ rfl ?_ fun _ => rfl
      · simp only [step, hloop, hrecv]
      · simp only [dispatchedBy, hloop, hempty, List.take_nil]
    | some r =>
      obtain ⟨m, ch⟩ := r
      obtain ⟨hbuf, hclosed⟩ := Chan.receive_eq_some hrecv
      have hstep : step o.hub .receive =
          { o.hub with broadcast := ch, loop := .sending m (clients o.hub) } := by
        simp only [step, hloop, hrecv]
      have hdisp : dispatchedBy o.hub .receive = [m] := by
        simp only [dispatchedBy, hloop, hbuf, List.take_succ_cons, List.take_zero]
      refine h.onHub hstep (fun _ => rfl) (hclosed.trans h.opened) ?_ ?_ ?_
      · rw [hdisp]
        show o.accepted ++ [] = o.dispatched ++ [m] ++ ch.buf
        rw [List.append_nil, h.accepted, hbuf, List.append_assoc]
        rfl
      · intro m' left hsend
        cases hsend
        exact ⟨clients_nodup, fun i hi => lt_of_mem_clients hi⟩
      · intro i c hc
        have hinv := h.conn i c hc
        rw [hloop] at hinv
        have hmem : i ∈ clients o.hub ↔ c.inMap = true := mem_clients (s := o.hub) hc
        have hpend : pending (.sending m (clients o.hub)) i = if c.inMap = true then [m] else [] := by
          simp only [pending, hmem]
        rw [hdisp, hpend]
        exact hinv.dispatch m

theorem offeredBy_other {left : List Nat} (hloop : s.loop = .sending m left)
    (h : ¬ (i = j ∧ j ∈ left)) : offeredBy s j (.offer i) = [] := by
  simp only [offeredBy, hloop]
  cases s.conns[j]? with
  | none => rfl
  | some c => exact if_neg h

theorem observe_offer (h : Inv o) (i : Nat) : Inv (observe o (.offer i)) := by
  cases hloop : o.hub.loop with
  | idle =>
    refine h.still ?_ rfl rfl fun j => ?_
    · simp only [step, hloop]
    · simp only [offeredBy, hloop]
  | sending m left =>
    obtain ⟨hnodup, hlt⟩ := h.left m left hloop
    by_cases hmem : i ∈ left
    · obtain ⟨c, hat⟩ : ∃ c, o.hub.conns[i]? = some c :=
        ⟨_, List.getElem?_eq_getElem (hlt i hmem)⟩
      have hinv := h.conn i _ hat
      have hpend : pending o.hub.loop i = [m] := by rw [hloop]; exact if_pos hmem
      rw [hpend] at hinv
      obtain ⟨c', hc', hinv'⟩ := hinv.offer
      have hgone : i ∉ left.erase i := fun hmem' => (hnodup.mem_erase_iff.mp hmem').1 rfl
      have hhub : step o.hub (.offer i) = { o.hub with
          loop := .sending m (left.erase i), conns := o.hub.conns.set i c' } := by
        simp only [step, hloop, if_pos hmem, Channels.onConn, hat, hc']
      refine h.onConn hat hhub rfl rfl ?_ ?_ ?_ ?_
      · exact fun j hji => offeredBy_other hloop fun hij => hji hij.1.symm
      · intro m' left' hsend
        cases hsend
        exact ⟨hnodup.erase i, fun j hj => hlt j (List.mem_of_mem_erase hj)⟩
      · intro j hji
        rw [hloop]
        simp only [pending, List.mem_erase_of_ne hji]
      · have hoff : offeredBy o.hub i (.offer i) = [(m, c.send.buf.length)] := by
          simp only [offeredBy, hloop, hat, hmem, and_self, if_true]
        rw [hoff]
        have hnone : pending (.sending m (left.erase i)) i = [] := if_neg hgone
        rw [hnone]
        exact hinv'
    · refine h.still ?_ rfl rfl fun j => offeredBy_other hloop fun hij => hmem (hij.1 ▸ hij.2)
      simp only [step, hloop, if_neg hmem]

theorem observe_finish (h : Inv o) : Inv (observe o .finish) := by
  cases hloop : o.hub.loop with
  | idle => exact h.still (by simp only [step, hloop]) rfl rfl fun _ => rfl
  | sending m left =>
    cases left with
    | cons i left => exact h.still (by simp only [step, hloop]) rfl rfl fun _ => rfl
    | nil =>
      have hstep : step o.hub .finish = { o.hub with loop := .idle } := by simp only [step, hloop]
      have hnone : o.dispatched ++ dispatchedBy o.hub .finish = o.dispatched := List.append_nil _
      refine h.onHub hstep (fun _ => rfl) h.opened ?_ ?_ ?_
      · rw [hnone]
        exact (List.append_nil _).trans h.accepted
      · intro m' left' hsend
        cases hsend
      · intro i c hc
        have hinv := h.conn i c hc
        rw [hloop] at hinv
        rw [hnone]
        exact hinv

/-- Every event keeps the invariant. -/
theorem observe_inv (h : Inv o) (e : Event μ) : Inv (observe o e) := by
  cases e with
  | serveWS => exact observe_serveWS h
  | register i =>
    cases hloop : o.hub.loop with
    | sending m left => exact h.still (by simp only [step, hloop]) rfl rfl fun _ => rfl
    | idle =>
      have hstep : step o.hub (.register i) = onConn i (some ∘ Conn.register) o.hub := by
        simp only [step, hloop]
      refine h.onConn_quiet hstep rfl rfl (fun _ => rfl) ?_
      intro c hc
      rw [hloop] at hc ⊢
      exact ⟨c.register, rfl, hc.register⟩
  | readError i =>
    exact h.onConn_quiet (i := i) rfl rfl rfl (fun _ => rfl) fun c hc => ⟨_, rfl, hc.readError⟩
  | unregister i =>
    cases hloop : o.hub.loop with
    | sending m left => exact h.still (by simp only [step, hloop]) rfl rfl fun _ => rfl
    | idle =>
      have hstep : step o.hub (.unregister i) = onConn i Conn.unregister o.hub := by
        simp only [step, hloop]
      refine h.onConn_quiet hstep rfl rfl (fun _ => rfl) ?_
      intro c hc
      rw [hloop] at hc ⊢
      exact hc.unregister
  | emit m => exact observe_emit h m
  | receive => exact observe_receive h
  | offer i => exact observe_offer h i
  | finish => exact observe_finish h
  | write i ok =>
    exact h.onConn_quiet (i := i) rfl rfl rfl (fun _ => rfl) fun c hc => ⟨_, rfl, hc.write⟩
  | pingError i =>
    exact h.onConn_quiet (i := i) rfl rfl rfl (fun _ => rfl) fun c hc => ⟨_, rfl, hc.pingError⟩

theorem run_inv (h : Inv o) (es : List (Event μ)) : Inv (run observe o es) := by
  induction es generalizing o with
  | nil => exact h
  | cons e es ih => exact ih (observe_inv h e)

/-! ## What every client is sent -/

/-- What a client was sent is what found room of the messages offered to it, in their order; the
messages offered, with the one that is about to be, are those dispatched while it was in the map.
One that found no room met a channel with 32 messages. -/
structure Delivers (o : Observed μ) (i : Nat) (c : Conn μ) : Prop where
  sent : c.taken ++ c.send.buf = queued (o.logs i).offers
  offered : (o.logs i).offers.map Prod.fst ++ pending o.hub.loop i = window o.dispatched (o.logs i)
  missed : ∀ m n, (m, n) ∈ (o.logs i).offers → n ≤ 32
  accepted : (window o.dispatched (o.logs i)).Sublist o.accepted
  subsequence : (c.taken ++ c.send.buf).Sublist (window o.dispatched (o.logs i))

theorem window_sublist : (window d l).Sublist d := by
  unfold window
  split
  · exact List.nil_sublist _
  · split
    · exact List.drop_sublist _ _
    · exact (List.drop_sublist _ _).trans (List.take_sublist _ _)

theorem Inv.delivers (h : Inv o) (hc : o.hub.conns[i]? = some c) : Delivers o i c := by
  have hinv := h.conn i c hc
  refine ⟨hinv.queued, hinv.offered, fun m n hmem => hinv.room _ hmem, ?_, ?_⟩
  · rw [h.accepted]
    exact window_sublist.trans (List.sublist_append_left _ _)
  · rw [hinv.queued, ← hinv.offered]
    exact (List.filter_sublist.map _).trans (List.sublist_append_left _ _)

theorem ConnInv.closed_iff (h : ConnInv d todo c l) : c.send.closed = true ↔ l.removed ≠ none := by
  have hstands := h.stands
  unfold Stands at hstands
  split at hstands
  · simp [hstands.2.1, hstands.2.2.2]
  · obtain ⟨-, hopen, a, -, hremoved, -⟩ := hstands; simp [hopen, hremoved]
  · obtain ⟨-, hopen, a, -, hremoved, -⟩ := hstands; simp [hopen, hremoved]
  · obtain ⟨-, hclosed, a, b, -, hremoved, -⟩ := hstands; simp [hclosed, hremoved]

/-- A channel is closed by the event that takes its client out of the map, and stays closed. -/
theorem closes_on_removal (h : Inv o) (hc : o.hub.conns[i]? = some c)
    (hc' : (observe o e).hub.conns[i]? = some c') :
    (c.send.closed = false ∧ c'.send.closed = true ↔ c.inMap = true ∧ c'.inMap = false) ∧
      (c.send.closed = true → c'.send.closed = true) := by
  have hclosed := (h.conn i c hc).closed_iff
  have hclosed' := ((observe_inv h e).conn i c' hc').closed_iff
  have hlog : ((observe o e).logs i).removed =
      if c.inMap && !c'.inMap then some o.dispatched.length else (o.logs i).removed := by
    have hnext : (step o.hub e).conns[i]? = some c' := hc'
    simp only [observe, hc, hnext, Log.watch]
  have hmember : c.inMap = true → (o.logs i).removed = none := by
    intro hmap
    obtain ⟨-, a, -, hremoved, -⟩ := (h.conn i c hc).stands.of_inMap hmap
    exact hremoved
  rw [← Bool.not_eq_true, hclosed, hclosed', hlog]
  cases hmap : c.inMap with
  | false => simp
  | true =>
    rw [hmember hmap]
    cases c'.inMap <;> simp

/-- In every interleaving the hub never sends on a closed channel and never closes one twice; a
channel is closed exactly when its client is taken out of the map; and what a client is sent is a
subsequence of the messages dispatched while it was in the map, from which only those are missing
that met a full channel. -/
theorem hub_delivers (es : List (Event μ)) :
    (run step NewHub es).panicked = false ∧
    (∀ i c, (run step NewHub es).conns[i]? = some c → Delivers (run observe start es) i c) ∧
    ∀ (e : Event μ) (i : Nat) (c c' : Conn μ), (run step NewHub es).conns[i]? = some c →
      (run step NewHub (es ++ [e])).conns[i]? = some c' →
      (c.send.closed = false ∧ c'.send.closed = true ↔ c.inMap = true ∧ c'.inMap = false) ∧
        (c.send.closed = true → c'.send.closed = true) := by
  have hinv : Inv (run observe start es) := run_inv inv_start es
  have hhub : run step NewHub es = (run observe start es).hub := (run_hub start es).symm
  refine ⟨?_, ?_, ?_⟩
  · rw [hhub]; exact hinv.calm
  · intro i c hc
    rw [hhub] at hc
    exact hinv.delivers hc
  · intro e i c c' hc hc'
    rw [run_append, hhub] at hc'
    rw [hhub] at hc
    exact closes_on_removal hinv hc hc'

/-- A client whose writer has ended is offered 33 messages and misses the last one. -/
example : ((run observe start ([.serveWS, .register 0, .pingError 0] ++
    (List.range 33).flatMap fun m => [.emit m, .receive, .offer 0, .finish])).logs 0).offers.getLast? =
      some (32, 32) := by decide +kernel

end Channels
end Ws
end Nasd
