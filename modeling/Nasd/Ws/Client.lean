import Mathlib.Data.List.Count
import Mathlib.Data.List.Perm.Basic
import Nasd.Lib.Run

/-!
# Nasd.Ws.Client

The other end of the hub's connections: `connectWS` of `src/js/api.js` and the effects of `RaidView`
and `FilesView` in `app.js`, which call it when the component is mounted and close the socket that
it returned when it is unmounted. An event is one task of the browser.

* `step`                     — the page: components, sockets, timers, the calls of the callbacks.
* `oneToOne_step_iff`        — which events keep the connections and the components in step.
* `connections_faithful_iff` — the runs in which they always are.
-/

namespace Nasd

open Machine

namespace Ws
namespace Client

variable {μ : Type}

/-! ## Page -/

/-- `readyState` of a socket. -/
inductive Ready where
  | connecting | opened | closing | closed
  deriving DecidableEq

/-- A socket calls the callback of the component for which it was made. -/
structure Socket where
  sub : Nat
  ready : Ready
  deriving DecidableEq

/-- A component, with the socket that `connectWS` returned to it. -/
structure Subscriber where
  handle : Nat
  mounted : Bool
  deriving DecidableEq

/-- `timers` are the calls of `connectWS` that are scheduled, by their components; a call of a
callback is a component with a message. -/
structure Page (μ : Type) where
  subs : List Subscriber
  sockets : List Socket
  timers : List Nat
  calls : List (Nat × μ)
  deriving DecidableEq

def start : Page μ := ⟨[], [], [], []⟩

/-- What `connectWS` does at once: a new socket. -/
def connectWS (sub : Nat) (p : Page μ) : Page μ :=
  { p with sockets := p.sockets ++ [⟨sub, .connecting⟩] }

/-- `close()`, which does nothing to a socket that is closing or closed. -/
def Socket.close (k : Socket) : Socket :=
  match k.ready with
  | .connecting | .opened => { k with ready := .closing }
  | .closing | .closed => k

/-- `unmount` runs the function that the effect returned. `ended` is the close event of a socket:
the connection failed, or was lost, or it is closed because `close()` was called. `fired` is a
timer, `message` is what arrives on a connection, `none` when it cannot be parsed. -/
inductive Event (μ : Type) where
  | mount
  | unmount (sub : Nat)
  | opened (socket : Nat)
  | ended (socket : Nat)
  | fired (timer : Nat)
  | message (socket : Nat) (msg : Option μ)

def mount (p : Page μ) : Page μ :=
  connectWS p.subs.length { p with subs := p.subs ++ [⟨p.sockets.length, true⟩] }

def unmount (sub : Nat) (p : Page μ) : Page μ :=
  match p.subs[sub]? with
  | some ⟨handle, true⟩ =>
    { p with
      subs := p.subs.set sub ⟨handle, false⟩
      sockets := p.sockets.modify handle Socket.close }
  | _ => p

/-- `onclose`, for a deliberate close as for any other. -/
def onclose (socket : Nat) (p : Page μ) : Page μ :=
  match p.sockets[socket]? with
  | none | some ⟨_, .closed⟩ => p
  | some ⟨sub, _⟩ =>
    { p with sockets := p.sockets.set socket ⟨sub, .closed⟩, timers := p.timers ++ [sub] }

/-- The callbacks that a message on a socket calls. -/
def Socket.callbacks (k : Socket) : List Nat := if k.ready = .opened then [k.sub] else []

def called (p : Page μ) (socket : Nat) : List Nat :=
  (p.sockets[socket]?.map Socket.callbacks).getD []

def step (p : Page μ) : Event μ → Page μ
  | .mount => mount p
  | .unmount sub => unmount sub p
  | .opened i =>
    match p.sockets[i]? with
    | some ⟨sub, .connecting⟩ => { p with sockets := p.sockets.set i ⟨sub, .opened⟩ }
    | _ => p
  | .ended i => onclose i p
  | .fired k =>
    match p.timers[k]? with
    | none => p
    | some sub => connectWS sub { p with timers := p.timers.eraseIdx k }
  | .message _ none => p
  | .message i (some m) => { p with calls := p.calls ++ (called p i).map fun sub => (sub, m) }

/-! ## Connections and components -/

def Socket.isLive (k : Socket) : Bool := k.ready = .connecting || k.ready = .opened

/-- The components of the connections that are open or scheduled to open. -/
def live (p : Page μ) : List Nat := (p.sockets.filter Socket.isLive).map Socket.sub ++ p.timers

def isMounted (p : Page μ) (sub : Nat) : Bool := (p.subs[sub]?).any Subscriber.mounted

def mounted (p : Page μ) : List Nat := (List.range p.subs.length).filter (isMounted p)

/-- The components of the open connections. -/
def connected (p : Page μ) : List Nat := p.sockets.flatMap Socket.callbacks

/-- The connections are those of the mounted components, one each, and a message that comes in on
every open connection, in any order, is one call for each mounted component that is connected. What
is closed calls nothing and has nothing scheduled. -/
structure Faithful (p : Page μ) : Prop where
  connections : (live p).Perm (mounted p)
  delivered : ∀ m (order : List Nat), order.Perm (List.range p.sockets.length) → ∃ subs : List Nat,
    subs.Nodup ∧ (∀ sub, sub ∈ subs ↔ sub ∈ mounted p ∧ sub ∈ connected p) ∧
      (run step p (order.map fun i => .message i (some m))).calls =
        p.calls ++ subs.map fun sub => (sub, m)
  silent : ∀ i, ∀ sub ∈ called p i, sub ∈ mounted p
  unscheduled : ∀ sub ∈ p.timers, sub ∈ mounted p

/-- A component is unmounted only while the socket of its handle is still connecting or open, and no
close event comes of a socket that was closed by an unmount. -/
def allowed (p : Page μ) : Event μ → Bool
  | .unmount sub =>
    match p.subs[sub]? with
    | some ⟨handle, true⟩ => (p.sockets[handle]?).any Socket.isLive
    | _ => true
  | .ended i => (p.sockets[i]?).all fun k => k.ready ≠ .closing
  | _ => true

variable {p : Page μ} {i sub a : Nat} {k c : Socket}

/-! ## Counting -/

/-- A live socket of the component `a`. -/
def mine (a : Nat) (k : Socket) : Bool := k.isLive && k.sub = a

theorem count_live : (live p).count a = p.sockets.countP (mine a) + p.timers.count a := by
  rw [live, List.count_append, List.count, List.countP_map, List.countP_filter]
  congr 1
  refine List.countP_congr fun k _ => ?_
  simp [mine, and_comm]

theorem countP_set_add {α : Type} {q : α → Bool} {l : List α} {x y : α} (h : l[i]? = some x) :
    (l.set i y).countP q + (if q x then 1 else 0) = l.countP q + (if q y then 1 else 0) := by
  obtain ⟨hlt, rfl⟩ := List.getElem?_eq_some_iff.mp h
  rw [List.countP_set hlt]
  cases hq : q l[i] with
  | false => simp
  | true =>
    have hpos : 0 < l.countP q := List.countP_pos_iff.mpr ⟨_, List.getElem_mem hlt, hq⟩
    simp only [if_true]
    omega

theorem isMounted_iff : isMounted p a = true ↔ ∃ handle, p.subs[a]? = some ⟨handle, true⟩ := by
  unfold isMounted
  cases p.subs[a]? with
  | none => simp
  | some m =>
    obtain ⟨handle, mounted⟩ := m
    cases mounted <;> simp

theorem count_mounted : (mounted p).count a = if isMounted p a then 1 else 0 := by
  have hnodup : (mounted p).Nodup := List.nodup_range.filter _
  have hmem : a ∈ mounted p ↔ isMounted p a = true := by
    refine List.mem_filter.trans ⟨fun h => h.2, fun h => ⟨?_, h⟩⟩
    obtain ⟨handle, hget⟩ := isMounted_iff.mp h
    exact List.mem_range.mpr (List.getElem?_eq_some_iff.mp hget).1
  simp only [hnodup.count, hmem]

def OneToOne (p : Page μ) : Prop := ∀ a, (live p).count a = if isMounted p a then 1 else 0

theorem oneToOne_iff : OneToOne p ↔ (live p).Perm (mounted p) := by
  simp only [OneToOne, List.perm_iff_count, count_mounted]

/-- Where the numbers in a page point to. -/
structure Linked (p : Page μ) : Prop where
  handle : ∀ (sub handle : Nat) (mounted : Bool), p.subs[sub]? = some ⟨handle, mounted⟩ →
    ∃ ready, p.sockets[handle]? = some ⟨sub, ready⟩
  owner : ∀ k ∈ p.sockets, k.sub < p.subs.length
  due : ∀ sub ∈ p.timers, sub < p.subs.length

/-! ## What an event does -/

theorem close_sub : k.close.sub = k.sub := by
  unfold Socket.close
  split <;> rfl

theorem close_isLive : k.close.isLive = false := by
  obtain ⟨sub, ready⟩ := k
  cases ready <;> rfl

theorem modify_eq_set {α : Type} {l : List α} {f : α → α} {x : α} (h : l[i]? = some x) :
    l.modify i f = l.set i (f x) := by
  rw [List.modify_eq_set_getElem?, h]
  rfl

theorem isMounted_mount : isMounted (mount p) a = (isMounted p a || a = p.subs.length) := by
  unfold isMounted mount connectWS
  dsimp only
  by_cases hlt : a < p.subs.length
  · have hne : a ≠ p.subs.length := Nat.ne_of_lt hlt
    rw [List.getElem?_append_left hlt]
    simp [hne]
  · by_cases heq : a = p.subs.length
    · subst heq
      simp
    · have hnone : p.subs[a]? = none := List.getElem?_eq_none (by omega)
      have hnone' : (p.subs ++ [(⟨p.sockets.length, true⟩ : Subscriber)])[a]? = none :=
        List.getElem?_eq_none (by simp; omega)
      rw [hnone, hnone']
      simp [heq]

theorem count_connectWS : (live (connectWS sub p)).count a =
    (live p).count a + if sub = a then 1 else 0 := by
  simp only [count_live, connectWS, List.countP_append, List.countP_singleton, mine,
    Socket.isLive, decide_true, Bool.true_or, Bool.true_and, decide_eq_true_eq]
  omega

theorem count_fired {t : Nat} (h : p.timers[t]? = some sub) :
    (live (connectWS sub { p with timers := p.timers.eraseIdx t })).count a = (live p).count a := by
  obtain ⟨hlt, rfl⟩ := List.getElem?_eq_some_iff.mp h
  have hperm := (List.getElem_cons_eraseIdx_perm hlt).count_eq a
  rw [count_connectWS, count_live, count_live, ← hperm, List.count_cons]
  simp only [beq_iff_eq]
  omega

/-- An unmount of a mounted component closes the socket of its handle. -/
theorem unmount_eq {handle : Nat} (hsub : p.subs[sub]? = some ⟨handle, true⟩)
    (hk : p.sockets[handle]? = some k) :
    unmount sub p = { p with
      subs := p.subs.set sub ⟨handle, false⟩
      sockets := p.sockets.set handle k.close } := by
  simp only [unmount, hsub, modify_eq_set hk]

theorem unmount_other (hsub : isMounted p sub = false) : unmount sub p = p := by
  unfold unmount
  split
  · rename_i handle hget
    rw [isMounted_iff.mpr ⟨handle, hget⟩] at hsub
    cases hsub
  · rfl

/-- A socket that changes its state, with what is scheduled then. -/
theorem count_set (hk : p.sockets[i]? = some k) (subs : List Subscriber) (timers : List Nat)
    (calls : List (Nat × μ)) :
    (live ⟨subs, p.sockets.set i c, p.timers ++ timers, calls⟩).count a +
        (if mine a k then 1 else 0) =
      (live p).count a + (if mine a c then 1 else 0) + timers.count a := by
  have hset := countP_set_add (q := mine a) (y := c) hk
  rw [count_live, count_live, List.count_append]
  dsimp only
  omega

theorem isMounted_unmount {handle : Nat} (hsub : p.subs[sub]? = some ⟨handle, true⟩)
    (hk : p.sockets[handle]? = some k) :
    isMounted (unmount sub p) a = (isMounted p a && a ≠ sub) := by
  rw [unmount_eq hsub hk]
  unfold isMounted
  by_cases heq : a = sub
  · subst heq
    simp [List.getElem?_set_self (List.getElem?_eq_some_iff.mp hsub).1]
  · rw [List.getElem?_set_ne (Ne.symm heq)]
    simp [heq]

/-- Of the connections only that of the handle goes. -/
theorem count_unmount {handle : Nat} (hsub : p.subs[sub]? = some ⟨handle, true⟩)
    (hk : p.sockets[handle]? = some k) :
    (live (unmount sub p)).count a + (if mine a k then 1 else 0) = (live p).count a := by
  rw [unmount_eq hsub hk]
  have hset := count_set (a := a) (c := k.close) hk (p.subs.set sub ⟨handle, false⟩) [] p.calls
  rw [List.append_nil] at hset
  simpa only [mine, close_isLive, Bool.false_and, Bool.false_eq_true, if_false, Nat.add_zero,
    List.count_nil] using hset

/-! ## One event -/

theorem mount_keeps (hone : OneToOne p) : OneToOne (mount p) := by
  intro a
  have hcount : (live (mount p)).count a = (live p).count a + if p.subs.length = a then 1 else 0 :=
    count_connectWS
  rw [hcount, isMounted_mount, hone a]
  by_cases heq : a = p.subs.length
  · subst heq
    have hnone : isMounted p p.subs.length = false := by
      unfold isMounted
      rw [List.getElem?_eq_none (Nat.le_refl _)]
      rfl
    simp [hnone]
  · simp [heq, Ne.symm heq]

theorem unmount_keeps_iff (hone : OneToOne p) (hlinked : Linked p) :
    OneToOne (unmount sub p) ↔ allowed p (.unmount sub) = true := by
  cases hmount : isMounted p sub with
  | false =>
    rw [unmount_other hmount, allowed]
    refine iff_of_true hone ?_
    split
    · rename_i handle hget
      rw [isMounted_iff.mpr ⟨handle, hget⟩] at hmount
      cases hmount
    · rfl
  | true =>
    obtain ⟨handle, hsub⟩ := isMounted_iff.mp hmount
    obtain ⟨ready, hk⟩ := hlinked.handle sub handle true hsub
    have hallowed : allowed p (.unmount sub) = Socket.isLive ⟨sub, ready⟩ := by
      rw [allowed, hsub]
      dsimp only
      rw [hk, Option.any_some]
    rw [hallowed]
    constructor
    · -- the component is gone, so none of its connections may be left
      intro hafter
      have hleft := count_unmount (a := sub) hsub hk
      rw [hafter sub, isMounted_unmount hsub hk, hone sub, hmount] at hleft
      cases hlive : Socket.isLive ⟨sub, ready⟩ with
      | true => rfl
      | false => simp [mine, hlive] at hleft
    · intro hlive a
      have hleft := count_unmount (a := a) hsub hk
      rw [hone a] at hleft
      rw [isMounted_unmount hsub hk]
      by_cases heq : a = sub
      · subst heq
        simp only [mine, hlive, hmount, decide_true, Bool.and_self, if_true] at hleft
        simp
        omega
      · have hne : ¬ sub = a := fun h => heq h.symm
        simp only [mine, hlive, hne, decide_false, Bool.and_false, Bool.false_eq_true, if_false,
          Nat.add_zero] at hleft
        simp [hleft, heq]

theorem onclose_keeps_iff (hone : OneToOne p) :
    OneToOne (onclose i p) ↔ allowed p (.ended i) = true := by
  have hallowed : allowed p (.ended i) = (p.sockets[i]?).all fun k => k.ready ≠ .closing := rfl
  rw [hallowed]
  unfold onclose
  cases hk : p.sockets[i]? with
  | none => exact iff_of_true hone rfl
  | some k =>
    obtain ⟨sub, ready⟩ := k
    have hcount : ∀ a, (live { p with
        sockets := p.sockets.set i ⟨sub, .closed⟩
        timers := p.timers ++ [sub] }).count a + (if mine a ⟨sub, ready⟩ then 1 else 0) =
          (live p).count a + if sub = a then 1 else 0 := by
      intro a
      have hset := count_set (a := a) (c := ⟨sub, .closed⟩) hk p.subs [sub] p.calls
      simpa [mine, Socket.isLive, List.count_singleton] using hset
    have hlive : Socket.isLive ⟨sub, ready⟩ = true → OneToOne { p with
        sockets := p.sockets.set i ⟨sub, .closed⟩
        timers := p.timers ++ [sub] } := by
      intro hlive a
      have hsame := hcount a
      have hmine : mine a ⟨sub, ready⟩ = decide (sub = a) := by rw [mine, hlive, Bool.true_and]
      rw [hmine] at hsame
      simp only [decide_eq_true_eq] at hsame
      have hkept := hone a
      show (live _).count a = if isMounted p a then 1 else 0
      omega
    cases ready with
    | connecting => exact iff_of_true (hlive rfl) rfl
    | opened => exact iff_of_true (hlive rfl) rfl
    | closed => exact iff_of_true hone rfl
    | closing =>
      refine iff_of_false (fun hafter => ?_) Bool.false_ne_true
      -- the component has one connection more than before
      have hmore := hcount sub
      have hmounted := hone sub
      have hnow : (live _).count sub = if isMounted p sub then 1 else 0 := hafter sub
      rw [hnow] at hmore
      simp [mine, Socket.isLive] at hmore
      omega

theorem opened_keeps (hone : OneToOne p) : OneToOne (step p (.opened i)) := by
  show OneToOne (match p.sockets[i]? with | some ⟨sub, .connecting⟩ => _ | _ => p)
  split
  · rename_i sub hk
    intro a
    have hset := count_set (a := a) (c := ⟨sub, .opened⟩) hk p.subs [] p.calls
    rw [List.append_nil] at hset
    have hkept := hone a
    simp [mine, Socket.isLive] at hset
    show (live _).count a = if isMounted p a then 1 else 0
    omega
  · exact hone

theorem fired_keeps {t : Nat} (hone : OneToOne p) : OneToOne (step p (.fired t)) := by
  show OneToOne (match p.timers[t]? with | none => p | some sub => _)
  cases ht : p.timers[t]? with
  | none => exact hone
  | some sub =>
    intro a
    rw [count_fired ht]
    exact hone a

/-- An event keeps the connections and the components in step exactly when it is allowed. -/
theorem oneToOne_step_iff (hone : OneToOne p) (hlinked : Linked p) (e : Event μ) :
    OneToOne (step p e) ↔ allowed p e = true := by
  cases e with
  | mount => exact iff_of_true (mount_keeps hone) rfl
  | unmount sub => exact unmount_keeps_iff hone hlinked
  | opened i => exact iff_of_true (opened_keeps hone) rfl
  | ended i => exact onclose_keeps_iff hone
  | fired t => exact iff_of_true (fired_keeps hone) rfl
  | message i msg => cases msg <;> exact iff_of_true hone rfl

/-! ## Links -/

theorem Linked.set (h : Linked p) (hk : p.sockets[i]? = some k) (hsub : c.sub = k.sub)
    {timers : List Nat} (hdue : ∀ sub ∈ timers, sub < p.subs.length) (calls : List (Nat × μ)) :
    Linked ⟨p.subs, p.sockets.set i c, timers, calls⟩ := by
  obtain ⟨hlt, hget⟩ := List.getElem?_eq_some_iff.mp hk
  refine ⟨?_, ?_, hdue⟩
  · intro sub handle mounted hm
    obtain ⟨ready, hkeep⟩ := h.handle sub handle mounted hm
    by_cases hi : i = handle
    · subst hi
      rw [hk, Option.some.injEq] at hkeep
      subst hkeep
      obtain ⟨owner, ready'⟩ := c
      cases hsub
      exact ⟨ready', List.getElem?_set_self hlt⟩
    · exact ⟨ready, (List.getElem?_set_ne hi).trans hkeep⟩
  · intro x hx
    rcases List.mem_or_eq_of_mem_set hx with hx | rfl
    · exact h.owner x hx
    · rw [hsub]
      exact h.owner k (List.mem_of_getElem? hk)

theorem Linked.connectWS (h : Linked p) (hsub : sub < p.subs.length) :
    Linked (connectWS sub p) := by
  refine ⟨?_, ?_, h.due⟩
  · intro s handle mounted hm
    obtain ⟨ready, hk⟩ := h.handle s handle mounted hm
    exact ⟨ready, (List.getElem?_append_left (List.getElem?_eq_some_iff.mp hk).1).trans hk⟩
  · intro x hx
    rcases List.mem_append.mp hx with hx | hx
    · exact h.owner x hx
    · rw [List.mem_singleton.mp hx]
      exact hsub

theorem Linked.mount (h : Linked p) : Linked (mount p) := by
  have hlen : (p.subs ++ [(⟨p.sockets.length, true⟩ : Subscriber)]).length = p.subs.length + 1 := by
    simp
  refine ⟨?_, ?_, ?_⟩
  · intro s handle mounted hm
    by_cases hs : s < p.subs.length
    · obtain ⟨ready, hk⟩ := h.handle s handle mounted ((List.getElem?_append_left hs).symm.trans hm)
      exact ⟨ready, (List.getElem?_append_left (List.getElem?_eq_some_iff.mp hk).1).trans hk⟩
    · have hlt : s < p.subs.length + 1 := hlen ▸ (List.getElem?_eq_some_iff.mp hm).1
      have heq : s = p.subs.length := by omega
      subst heq
      have hnew : (⟨p.sockets.length, true⟩ : Subscriber) = ⟨handle, mounted⟩ :=
        Option.some.inj (List.getElem?_concat_length.symm.trans hm)
      cases hnew
      exact ⟨.connecting, List.getElem?_concat_length⟩
  · intro x hx
    show x.sub < (p.subs ++ [_]).length
    rw [hlen]
    rcases List.mem_append.mp hx with hx | hx
    · exact Nat.lt_succ_of_lt (h.owner x hx)
    · rw [List.mem_singleton.mp hx]
      exact Nat.lt_succ_self _
  · intro s hs
    show s < (p.subs ++ [_]).length
    rw [hlen]
    exact Nat.lt_succ_of_lt (h.due s hs)

theorem Linked.unmount (h : Linked p) : Linked (unmount sub p) := by
  cases hmount : isMounted p sub with
  | false =>
    rw [unmount_other hmount]
    exact h
  | true =>
    obtain ⟨handle, hsub⟩ := isMounted_iff.mp hmount
    obtain ⟨ready, hk⟩ := h.handle sub handle true hsub
    rw [unmount_eq hsub hk]
    obtain ⟨hhandle, howner, hdue⟩ := h.set hk close_sub h.due p.calls
    refine ⟨?_, ?_, ?_⟩
    · intro s handle' mounted hm
      by_cases hs : sub = s
      · subst hs
        rw [List.getElem?_set_self (List.getElem?_eq_some_iff.mp hsub).1] at hm
        cases hm
        exact hhandle sub handle true hsub
      · exact hhandle s handle' mounted ((List.getElem?_set_ne hs).symm.trans hm)
    · simpa only [List.length_set] using howner
    · simpa only [List.length_set] using hdue

theorem Linked.onclose (h : Linked p) : Linked (onclose i p) := by
  unfold Client.onclose
  split
  · exact h
  · exact h
  · rename_i sub ready _ hk
    refine h.set (c := ⟨sub, .closed⟩) hk rfl ?_ p.calls
    intro s hs
    rcases List.mem_append.mp hs with hs | hs
    · exact h.due s hs
    · rw [List.mem_singleton.mp hs]
      exact h.owner _ (List.mem_of_getElem? hk)

theorem linked_step (h : Linked p) (e : Event μ) : Linked (step p e) := by
  cases e with
  | mount => exact h.mount
  | unmount sub => exact h.unmount
  | opened i =>
    show Linked (match p.sockets[i]? with | some ⟨sub, .connecting⟩ => _ | _ => p)
    split
    · rename_i sub hk
      exact h.set (c := ⟨sub, .opened⟩) hk rfl h.due p.calls
    · exact h
  | ended i => exact h.onclose
  | fired t =>
    show Linked (match p.timers[t]? with | none => p | some sub => _)
    cases ht : p.timers[t]? with
    | none => exact h
    | some sub =>
      have hrest : Linked { p with timers := p.timers.eraseIdx t } :=
        ⟨h.handle, h.owner, fun s hs => h.due s (List.mem_of_mem_eraseIdx hs)⟩
      exact hrest.connectWS (h.due sub (List.mem_of_getElem? ht))
  | message i msg =>
    cases msg with
    | none => exact h
    | some m => exact ⟨h.handle, h.owner, h.due⟩

/-! ## Messages -/

theorem flatMap_range_get {α β : Type} (f : α → List β) (l : List α) :
    (List.range l.length).flatMap (fun i => (l[i]?.map f).getD []) = l.flatMap f := by
  induction l with
  | nil => rfl
  | cons x l ih =>
    rw [List.length_cons, List.range_succ_eq_map, List.flatMap_cons, List.flatMap_map,
      List.flatMap_cons, ← ih]
    rfl

theorem flatMap_called : (List.range p.sockets.length).flatMap (called p) = connected p :=
  flatMap_range_get Socket.callbacks p.sockets

theorem flatMap_callbacks (ks : List Socket) :
    ks.flatMap Socket.callbacks = (ks.filter fun k => k.ready = .opened).map Socket.sub := by
  induction ks with
  | nil => rfl
  | cons k ks ih =>
    rw [List.flatMap_cons, ih]
    by_cases hk : k.ready = .opened
    · simp [Socket.callbacks, hk]
    · simp [Socket.callbacks, hk]

/-- Messages one after another only add to the calls. -/
theorem run_messages (m : μ) (order : List Nat) (p : Page μ) :
    (run step p (order.map fun i => .message i (some m))).calls =
      p.calls ++ (order.flatMap (called p)).map fun sub => (sub, m) := by
  induction order generalizing p with
  | nil => simp
  | cons i order ih =>
    rw [List.map_cons, run_cons, ih, List.flatMap_cons, List.map_append, ← List.append_assoc]
    rfl

theorem connected_sublist : (connected p).Sublist (live p) := by
  have hfilter : (p.sockets.filter fun k => k.ready = .opened).Sublist
      (p.sockets.filter Socket.isLive) := by
    refine List.monotone_filter_right _ fun k hk => ?_
    rw [Socket.isLive, hk, Bool.or_true]
  rw [connected, flatMap_callbacks]
  exact (hfilter.map _).trans (List.sublist_append_left _ _)

theorem faithful_of_oneToOne (hone : OneToOne p) : Faithful p := by
  have hperm := oneToOne_iff.mp hone
  have hnodup : (live p).Nodup := hperm.nodup_iff.mpr (List.nodup_range.filter _)
  have hmounted : ∀ sub ∈ connected p, sub ∈ mounted p := fun sub hsub =>
    hperm.mem_iff.mp (connected_sublist.subset hsub)
  have hcalled : ∀ i, ∀ sub ∈ called p i, sub ∈ connected p := by
    intro i sub hsub
    rw [← flatMap_called]
    by_cases hi : i < p.sockets.length
    · exact List.mem_flatMap.mpr ⟨i, List.mem_range.mpr hi, hsub⟩
    · unfold called at hsub
      rw [List.getElem?_eq_none (Nat.le_of_not_lt hi)] at hsub
      cases hsub
  refine ⟨hperm, ?_, fun i sub hsub => hmounted sub (hcalled i sub hsub), ?_⟩
  · intro m order horder
    have hsubs : (order.flatMap (called p)).Perm (connected p) := by
      rw [← flatMap_called]
      exact horder.flatMap_right _
    refine ⟨order.flatMap (called p), ?_, fun sub => ?_, run_messages m order p⟩
    · exact hsubs.nodup_iff.mpr (connected_sublist.nodup hnodup)
    · rw [hsubs.mem_iff]
      exact ⟨fun hsub => ⟨hmounted sub hsub, hsub⟩, fun h => h.2⟩
  · intro sub hsub
    exact hperm.mem_iff.mp (List.mem_append_right _ hsub)

/-! ## Any run -/

/-- The connections are those of the mounted components in every state of a run if and only if every
event of it is allowed. -/
theorem connections_faithful_iff (es : List (Event μ)) :
    Always step Faithful start es ↔ Guarded step (fun p e => allowed p e = true) start es := by
  have hstart : OneToOne (start : Page μ) ∧ Linked (start : Page μ) := by
    refine ⟨fun a => rfl, ?_, ?_, ?_⟩
    · intro sub handle mounted hm
      cases hm
    · exact fun k hk => absurd hk List.not_mem_nil
    · exact fun sub hsub => absurd hsub List.not_mem_nil
  refine always_iff_guarded (I := fun p => OneToOne p ∧ Linked p) ?_ ?_ ?_ hstart
  · intro p e hinv hallowed
    exact ⟨(oneToOne_step_iff hinv.1 hinv.2 e).mpr hallowed, linked_step hinv.2 e⟩
  · exact fun p hinv => faithful_of_oneToOne hinv.1
  · intro p e hinv hfaithful
    exact (oneToOne_step_iff hinv.1 hinv.2 e).mp (oneToOne_iff.mpr hfaithful.connections)

/-- A component is unmounted while it is connected, and the close event of its socket reconnects
it: its callback is called though its handle was closed. The same without that event, when the
connection had been lost before and the handle was a socket of the past. -/
theorem reconnects_unmounted :
    ¬ Always step Faithful (start : Page Unit) [.mount, .opened 0, .unmount 0, .ended 0] ∧
      (run step (start : Page Unit) [.mount, .opened 0, .unmount 0, .ended 0, .fired 0, .opened 1,
        .message 1 (some ())]).calls = [(0, ())] ∧
      ¬ Always step Faithful (start : Page Unit)
        [.mount, .opened 0, .ended 0, .fired 0, .opened 1, .unmount 0] := by
  refine ⟨?_, rfl, ?_⟩
  · intro h
    have hlast := always_iff_prefix.mp h _ [] (List.append_nil _).symm
    exact absurd hlast.connections (by decide)
  · intro h
    have hlast := always_iff_prefix.mp h _ [] (List.append_nil _).symm
    exact absurd hlast.connections (by decide)

end Client
end Ws
end Nasd
