import Nasd.Raid.View
import Nasd.Ws.Heard

/-!
# Nasd.Raid.Live

How `RaidView` keeps up with the backend: a handler changes the arrays and emits `raid.status`, the
hub sends that to its clients (`internal/ws/hub.go`), the view loads the lists anew, and the answers
show what the backend had when it wrote them. An event is one step of one of these.

* `inv_step`     — a change that the view has heard of is in the lists it was given, or in those it
  has asked for.
* `live_current` — a view that is connected shows the lists of the backend when all is at rest.
-/

namespace Nasd
namespace Raid

open Text Machine
open Ws.Channels (Observed observe Listens Keeps heard)

namespace Live

/-- The messages of the hub. -/
inductive Note where
  | raidStatus (change : Nat)
  | other
  deriving DecidableEq

/-- What the backend would list. -/
structure Lists where
  arrays : List View.RaidArray
  disks : List View.Disk
  deriving DecidableEq

/-- An answer on its way, with the number of changes that went before it. -/
structure Answer where
  request : View.Request
  version : Nat
  lists : Lists
  deriving DecidableEq

end Live

/-- The hub, the view, how many messages it has handled, the lists of the backend and how often they
have changed, the changes that are not announced yet, the answers on their way, and how many changes
are in the lists that the view was given. -/
structure Live where
  hub : Observed Live.Note
  view : View
  handled : Nat
  lists : Live.Lists
  version : Nat
  unannounced : List Nat
  answers : List Live.Answer
  stamp : View.Which → Nat

namespace Live

open View (Which)

def Answer.event (a : Answer) : View.Event :=
  match a.request.list with
  | .arrays => .arrays a.request.reload (.ok (some a.lists.arrays))
  | .disks => .disks a.request.reload (.ok (some a.lists.disks))

/-- The reload whose answer the view was given last. -/
def told (v : View) : Which → Nat
  | .arrays => v.toldArrays.1
  | .disks => v.toldDisks.1

/-- The view was given these lists. -/
def Given (v : View) (lists : Lists) : Which → Prop
  | .arrays => v.toldArrays.2 = lists.arrays
  | .disks => v.toldDisks.2 = lists.disks

/-- `change` is the work of a handler and `announce` its call of `Emit`; `other` is an `Emit` of
another type. `message` calls `onmessage`, `serve` and `answer` are the two ends of a request for a
list. -/
inductive Event where
  | change (lists : Lists)
  | announce (k : Nat)
  | other
  | hub (e : Ws.Channels.Event Note)
  | message
  | serve (k : Nat)
  | answer (k : Nat)
  | view (e : View.Event)

/-- The events of the view that do not come from the backend. -/
def isLocal : View.Event → Bool
  | .raidStatus | .arrays _ _ | .disks _ _ => false
  | _ => true

def isEmit : Ws.Channels.Event Note → Bool
  | .emit _ => true
  | _ => false

/-- What was sent to the page. -/
def sent (i : Nat) (s : Live) : List Note := ((s.hub.hub.conns[i]?).map (·.taken)).getD []

def serve (k : Nat) (s : Live) : Live :=
  match s.view.requests[k]? with
  | none => s
  | some r =>
    if r ∈ s.answers.map Answer.request then s
    else { s with answers := s.answers ++ [⟨r, s.version, s.lists⟩] }

def answer (k : Nat) (s : Live) : Live :=
  match s.answers[k]? with
  | none => s
  | some a =>
    { s with
      view := View.step s.view a.event
      answers := s.answers.eraseIdx k
      stamp := if a.request ∈ s.view.requests then Function.update s.stamp a.request.list a.version
        else s.stamp }

/-- One event, for the page whose connection has this number. -/
def step (i : Nat) (s : Live) : Event → Live
  | .change lists =>
    { s with
      lists := lists
      version := s.version + 1
      unannounced := s.unannounced ++ [s.version] }
  | .announce k =>
    match s.unannounced[k]? with
    | none => s
    | some n =>
      { s with
        hub := observe s.hub (.emit (.raidStatus n))
        unannounced := s.unannounced.eraseIdx k }
  | .other => { s with hub := observe s.hub (.emit .other) }
  | .hub e => if isEmit e then s else { s with hub := observe s.hub e }
  | .message =>
    match (sent i s)[s.handled]? with
    | none => s
    | some .other => { s with handled := s.handled + 1 }
    | some (.raidStatus _) =>
      { s with handled := s.handled + 1, view := View.step s.view .raidStatus }
  | .serve k => serve k s
  | .answer k => answer k s
  | .view e => if isLocal e then { s with view := View.step s.view e } else s

/-- The page has just been opened, at a hub that has done this so far. -/
def opened (before : List (Ws.Channels.Event Note)) (lists : Lists) : Live where
  hub := run observe Ws.Channels.start before
  view := View.start
  handled := 0
  lists := lists
  version := 0
  unannounced := []
  answers := []
  stamp _ := 0

/-- No message is lost, and no answer is overtaken by one to a later reload. -/
def Heeds (i : Nat) (s : Live) : Event → Prop
  | .announce _ | .other => s.hub.hub.broadcast.buf.length < 64
  | .hub e => Keeps i s.hub.hub e
  | .answer k => ∀ a, s.answers[k]? = some a → told s.view a.request.list ≤ a.request.reload
  | _ => True

/-- Every change is announced, every message has reached the view, and every request is answered. -/
structure AtRest (i : Nat) (s : Live) : Prop where
  announced : s.unannounced = []
  broadcast : s.hub.hub.broadcast.buf = []
  loop : s.hub.hub.loop = .idle
  handled : ∃ c, s.hub.hub.conns[i]? = some c ∧ c.send.buf = [] ∧ s.handled = c.taken.length
  answered : s.view.requests = []

/-! ## Invariant -/

/-- The view has yet to hear of a change. -/
def Pending (i : Nat) (s : Live) (k : Nat) : Prop :=
  k ∈ s.unannounced ∨ Note.raidStatus k ∈ (heard s.hub i).drop s.handled

/-- The lists of this reload and of later ones have the change in them. -/
def Since (s : Live) (k n : Nat) : Prop :=
  (∀ a ∈ s.answers, n ≤ a.request.reload → k < a.version) ∧
    ∀ w, n ≤ told s.view w → k < s.stamp w

structure Inv (i : Nat) (s : Live) : Prop where
  hub : Ws.Channels.Inv s.hub
  listens : Listens s.hub i
  handled : s.handled ≤ (sent i s).length
  current : View.Current s.view
  stamps : ∀ w, s.stamp w ≤ s.version
  given : ∀ w, 1 ≤ told s.view w → s.stamp w = s.version → Given s.view s.lists w
  answers : ∀ a ∈ s.answers, a.request.reload ≤ s.view.reloads ∧ a.version ≤ s.version ∧
    (a.version = s.version → a.lists = s.lists)
  requests : ∀ r ∈ s.view.requests, r.reload ≤ s.view.reloads
  told : ∀ w, told s.view w ≤ s.view.reloads
  latest : ∀ w, ⟨w, s.view.reloads⟩ ∈ s.view.requests ∨ Live.told s.view w = s.view.reloads
  reloads : 1 ≤ s.view.reloads
  covered : ∀ k < s.version, Pending i s k ∨ ∃ n ≤ s.view.reloads, 1 ≤ n ∧ Since s k n

variable {i : Nat} {s : Live} {e : Event} {k : Nat}

/-! ## The view -/

/-- What an event other than an answer does to the requests: nothing, or it is a reload. -/
theorem requests_step {v : View} {e : View.Event} (he : isLocal e = true ∨ e = .raidStatus) :
    (View.step v e).toldArrays = v.toldArrays ∧ (View.step v e).toldDisks = v.toldDisks ∧
      (((View.step v e).requests = v.requests ∧ (View.step v e).reloads = v.reloads) ∨
        ((View.step v e).requests =
            v.requests ++ [⟨.arrays, v.reloads + 1⟩, ⟨.disks, v.reloads + 1⟩] ∧
          (View.step v e).reloads = v.reloads + 1)) := by
  have hsame : v.toldArrays = v.toldArrays ∧ v.toldDisks = v.toldDisks ∧
      ((v.requests = v.requests ∧ v.reloads = v.reloads) ∨
        (v.requests = v.requests ++ [⟨.arrays, v.reloads + 1⟩, ⟨.disks, v.reloads + 1⟩] ∧
          v.reloads = v.reloads + 1)) := ⟨rfl, rfl, .inl ⟨rfl, rfl⟩⟩
  cases e with
  | raidStatus => exact ⟨rfl, rfl, .inr ⟨rfl, rfl⟩⟩
  | onLoad => exact ⟨rfl, rfl, .inr ⟨rfl, rfl⟩⟩
  | arrays reload res => rcases he with he | he <;> cases he
  | disks reload res => rcases he with he | he <;> cases he
  | returned k res =>
    unfold View.step View.returned
    dsimp only
    split
    · exact hsame
    · exact hsame
    · exact ⟨rfl, rfl, .inr ⟨rfl, rfl⟩⟩
    · exact ⟨rfl, rfl, .inr ⟨rfl, rfl⟩⟩
    · exact ⟨rfl, rfl, .inr ⟨rfl, rfl⟩⟩
    · exact hsame
  | tick k =>
    unfold View.step View.tick
    dsimp only
    split
    · exact hsame
    · split
      · exact ⟨rfl, rfl, .inr ⟨rfl, rfl⟩⟩
      · exact hsame
  | press row button =>
    have h := View.press_same row button v
    exact ⟨h.toldArrays, h.toldDisks, .inl ⟨h.requests, h.reloads⟩⟩
  | openCreate => exact hsame
  | openWipe k =>
    have h := View.openWipe_same k v
    exact ⟨h.toldArrays, h.toldDisks, .inl ⟨h.requests, h.reloads⟩⟩
  | close => exact hsame
  | select device =>
    have h := View.select_same device v
    exact ⟨h.toldArrays, h.toldDisks, .inl ⟨h.requests, h.reloads⟩⟩
  | confirm =>
    unfold View.step View.confirm
    dsimp only
    split
    · exact hsame
    · split
      · exact hsame
      · split <;> exact hsame
    · split <;> exact hsame
    · split <;> exact hsame
    · exact hsame
    · exact hsame

theorem inOrder_of_local {v : View} {e : View.Event} (he : isLocal e = true ∨ e = .raidStatus) :
    View.InOrder v e := by
  cases e with
  | arrays reload res => rcases he with he | he <;> cases he
  | disks reload res => rcases he with he | he <;> cases he
  | _ => trivial

/-- An answer that was waited for and was not overtaken. -/
theorem answer_step {v : View} {a : Answer} (hmem : a.request ∈ v.requests)
    (hle : told v a.request.list ≤ a.request.reload) :
    (View.step v a.event).requests = v.requests.erase a.request ∧
      (View.step v a.event).reloads = v.reloads ∧
      told (View.step v a.event) a.request.list = a.request.reload ∧
      Given (View.step v a.event) a.lists a.request.list ∧
      ∀ w, w ≠ a.request.list → told (View.step v a.event) w = told v w ∧
        ∀ lists, Given (View.step v a.event) lists w ↔ Given v lists w := by
  obtain ⟨⟨list, reload⟩, version, lists⟩ := a
  cases list with
  | arrays =>
    have hstep : View.step v (.arrays reload (.ok (some lists.arrays))) = _ := if_pos hmem
    have hnew : v.toldArrays.1 ≤ reload := hle
    simp only [Answer.event, hstep, told, Given, if_pos hnew]
    refine ⟨trivial, trivial, trivial, rfl, fun w hw => ?_⟩
    cases w with
    | arrays => exact absurd rfl hw
    | disks => exact ⟨rfl, fun _ => .rfl⟩
  | disks =>
    have hstep : View.step v (.disks reload (.ok (some lists.disks))) = _ := if_pos hmem
    have hnew : v.toldDisks.1 ≤ reload := hle
    simp only [Answer.event, hstep, told, Given, if_pos hnew]
    refine ⟨trivial, trivial, trivial, rfl, fun w hw => ?_⟩
    cases w with
    | arrays => exact ⟨rfl, fun _ => .rfl⟩
    | disks => exact absurd rfl hw

theorem answer_ignored {v : View} {a : Answer} (hmem : a.request ∉ v.requests) :
    View.step v a.event = v := by
  obtain ⟨⟨list, reload⟩, version, lists⟩ := a
  cases list with
  | arrays => exact if_neg hmem
  | disks => exact if_neg hmem

theorem inOrder_answer {v : View} {a : Answer} (hle : told v a.request.list ≤ a.request.reload) :
    View.InOrder v a.event := by
  obtain ⟨⟨list, reload⟩, version, lists⟩ := a
  cases list with
  | arrays => exact hle
  | disks => exact hle

/-! ## Steps -/

/-- Changes that are announced or handled in the meantime have to be in the lists to come. -/
theorem Inv.recover (h : Inv i s) (m : Nat) (unannounced : List Nat) (hm : m ≤ (sent i s).length)
    (hcov : ∀ k < s.version,
      Pending i { s with handled := m, unannounced := unannounced } k ∨
        ∃ n ≤ s.view.reloads, 1 ≤ n ∧ Since s k n) :
    Inv i { s with handled := m, unannounced := unannounced } :=
  ⟨h.hub, h.listens, hm, h.current, h.stamps, h.given, h.answers, h.requests, h.told, h.latest,
    h.reloads, hcov⟩

theorem Inv.onView (h : Inv i s) {e : View.Event} (he : isLocal e = true ∨ e = .raidStatus) :
    Inv i { s with view := View.step s.view e } := by
  obtain ⟨harrays, hdisks, hrequests⟩ := requests_step (v := s.view) he
  have htold : ∀ w, Live.told (View.step s.view e) w = Live.told s.view w := by
    intro w
    cases w with
    | arrays => exact congrArg Prod.fst harrays
    | disks => exact congrArg Prod.fst hdisks
  have hgiven : ∀ w, Given (View.step s.view e) s.lists w ↔ Given s.view s.lists w := by
    intro w
    cases w with
    | arrays => unfold Given; rw [harrays]
    | disks => unfold Given; rw [hdisks]
  have hle : s.view.reloads ≤ (View.step s.view e).reloads := by
    rcases hrequests with ⟨-, hr⟩ | ⟨-, hr⟩ <;> omega
  refine ⟨h.hub, h.listens, h.handled, View.current_step h.current (inOrder_of_local he), h.stamps,
    fun w hw hstamp => ?_, fun a ha => ?_, fun r hr => ?_, fun w => ?_, fun w => ?_, ?_,
    fun k hk => ?_⟩
  · rw [htold] at hw
    exact (hgiven w).mpr (h.given w hw hstamp)
  · obtain ⟨hreload, hrest⟩ := h.answers a ha
    exact ⟨hreload.trans hle, hrest⟩
  · rcases hrequests with ⟨hreq, hrel⟩ | ⟨hreq, hrel⟩
    · dsimp only at hr ⊢
      rw [hreq] at hr
      rw [hrel]
      exact h.requests r hr
    · dsimp only at hr ⊢
      rw [hreq] at hr
      rw [hrel]
      rcases List.mem_append.mp hr with hr | hr
      · exact Nat.le_succ_of_le (h.requests r hr)
      · simp only [List.mem_cons, List.not_mem_nil, or_false] at hr
        rcases hr with rfl | rfl <;> exact Nat.le_refl _
  · dsimp only
    rw [htold]
    exact (h.told w).trans hle
  · dsimp only
    rw [htold]
    rcases hrequests with ⟨hreq, hrel⟩ | ⟨hreq, hrel⟩
    · rw [hreq, hrel]
      exact h.latest w
    · rw [hreq, hrel]
      left
      cases w <;> simp
  · exact h.reloads.trans hle
  · rcases h.covered k hk with hp | ⟨n, hn, hone, hanswers, hstamps⟩
    · exact .inl hp
    · refine .inr ⟨n, hn.trans hle, hone, hanswers, fun w hw => hstamps w ?_⟩
      dsimp only at hw
      rwa [htold] at hw

theorem sent_le_heard (h : Inv i s) : s.handled ≤ (heard s.hub i).length := by
  obtain ⟨c, hc, -⟩ := h.listens.inMap
  have hle := h.handled
  unfold sent at hle
  rw [hc, Option.map_some, Option.getD_some] at hle
  rw [Ws.Channels.heard_eq h.hub h.listens hc]
  simp only [List.length_append]
  omega

theorem Inv.onHub (h : Inv i s) {e : Ws.Channels.Event Note} (hk : Keeps i s.hub.hub e) :
    Inv i { s with hub := observe s.hub e } := by
  obtain ⟨hlistens, hheard⟩ := Ws.Channels.listens_step h.hub h.listens hk
  obtain ⟨c, hc, hmap⟩ := h.listens.inMap
  have hnot : e ≠ .unregister i := by
    rintro rfl
    exact hk rfl
  obtain ⟨c', hc', -, hprefix⟩ := Ws.Channels.conn_step hc hmap hnot
  refine ⟨Ws.Channels.observe_inv h.hub e, hlistens, ?_, h.current, h.stamps, h.given, h.answers,
    h.requests, h.told, h.latest, h.reloads, fun k hk => ?_⟩
  · have hle := h.handled
    have hnext : (observe s.hub e).hub.conns[i]? = some c' := hc'
    unfold sent at hle ⊢
    rw [hc, Option.map_some, Option.getD_some] at hle
    rw [hnext, Option.map_some, Option.getD_some]
    exact hle.trans hprefix.length_le
  · refine (h.covered k hk).imp (fun hp => hp.imp id fun hmem => ?_) id
    dsimp only
    rw [hheard, List.drop_append]
    exact List.mem_append_left _ hmem

theorem inv_change (h : Inv i s) (lists : Lists) : Inv i (step i s (.change lists)) := by
  refine ⟨h.hub, h.listens, h.handled, h.current, fun w => Nat.le_succ_of_le (h.stamps w),
    fun w _ hstamp => ?_, fun a ha => ?_, h.requests, h.told, h.latest, h.reloads, fun k hk => ?_⟩
  · have hle := h.stamps w
    have heq : s.stamp w = s.version + 1 := hstamp
    omega
  · obtain ⟨hreload, hversion, -⟩ := h.answers a ha
    refine ⟨hreload, Nat.le_succ_of_le hversion, fun heq => ?_⟩
    have heq' : a.version = s.version + 1 := heq
    omega
  · rcases Nat.lt_succ_iff_lt_or_eq.mp hk with hk | rfl
    · exact (h.covered k hk).imp (fun hp => hp.imp (List.mem_append_left _) id) id
    · exact .inl (.inl (List.mem_append_right _ List.mem_cons_self))

theorem inv_announce (h : Inv i s) (hroom : s.hub.hub.broadcast.buf.length < 64) (j : Nat) :
    Inv i (step i s (.announce j)) := by
  unfold step
  dsimp only
  split
  · exact h
  · rename_i n hn
    have hemit := h.onHub (e := .emit (.raidStatus n)) hroom
    refine hemit.recover s.handled (s.unannounced.eraseIdx j) hemit.handled
      fun k hk => ?_
    have hheard : (heard (observe s.hub (.emit (.raidStatus n))) i).drop s.handled =
        (heard s.hub i).drop s.handled ++ [.raidStatus n] := by
      rw [(Ws.Channels.listens_step (e := .emit (.raidStatus n)) h.hub h.listens hroom).2,
        List.drop_append_of_le_length (sent_le_heard h)]
      rfl
    rcases h.covered k hk with (hmem | hmem) | hsince
    · by_cases hkn : k = n
      · refine .inl (.inr ?_)
        dsimp only
        rw [hheard, hkn]
        exact List.mem_append_right _ List.mem_cons_self
      · obtain ⟨l, hl⟩ := List.mem_iff_getElem?.mp hmem
        refine .inl (.inl (List.mem_eraseIdx_iff_getElem?.mpr ⟨l, ?_, hl⟩))
        rintro rfl
        exact hkn (Option.some.inj (hl.symm.trans hn))
    · refine .inl (.inr ?_)
      dsimp only
      rw [hheard]
      exact List.mem_append_left _ hmem
    · exact .inr hsince

/-- The next message that was sent is the next one heard. -/
theorem heard_next (h : Inv i s) {m : Note} (hm : (sent i s)[s.handled]? = some m) :
    (heard s.hub i).drop s.handled = m :: (heard s.hub i).drop (s.handled + 1) := by
  obtain ⟨c, hc, -⟩ := h.listens.inMap
  unfold sent at hm
  rw [hc, Option.map_some, Option.getD_some] at hm
  obtain ⟨hlt, hget⟩ := List.getElem?_eq_some_iff.mp hm
  rw [Ws.Channels.heard_eq h.hub h.listens hc, List.append_assoc, List.append_assoc]
  rw [List.drop_append_of_le_length (Nat.le_of_lt hlt), List.drop_append_of_le_length hlt,
    List.drop_eq_getElem_cons hlt, hget]
  rfl

theorem inv_message (h : Inv i s) : Inv i (step i s .message) := by
  unfold step
  dsimp only
  split
  · exact h
  · rename_i hm
    have hlt := (List.getElem?_eq_some_iff.mp hm).1
    refine h.recover (s.handled + 1) s.unannounced hlt fun k hk => ?_
    refine (h.covered k hk).imp (fun hp => hp.imp id fun hmem => ?_) id
    rw [heard_next h hm] at hmem
    exact (List.mem_cons.mp hmem).resolve_left fun heq => by cases heq
  · rename_i n hm
    have hlt := (List.getElem?_eq_some_iff.mp hm).1
    have hload := h.onView (e := .raidStatus) (.inr rfl)
    refine hload.recover (s.handled + 1) s.unannounced hlt fun k hk => ?_
    -- the lists of the new reload have every change in them so far
    have hnew : Since { s with view := View.step s.view .raidStatus } k (s.view.reloads + 1) := by
      refine ⟨fun a ha hreload => ?_, fun w hw => ?_⟩
      · have hle := (h.answers a ha).1
        omega
      · have hle := h.told w
        have heq : Live.told (View.step s.view .raidStatus) w = Live.told s.view w := by
          cases w <;> rfl
        dsimp only at hw
        omega
    rcases hload.covered k hk with (hmem | hmem) | hsince
    · exact .inl (.inl hmem)
    · exact .inr ⟨s.view.reloads + 1, Nat.le_refl _, Nat.le_add_left 1 _, hnew⟩
    · exact .inr hsince

theorem inv_serve (h : Inv i s) (j : Nat) : Inv i (serve j s) := by
  unfold serve
  split
  · exact h
  · rename_i r hr
    split
    · exact h
    · refine ⟨h.hub, h.listens, h.handled, h.current, h.stamps, h.given, fun a ha => ?_, h.requests,
        h.told, h.latest, h.reloads, fun k hk => ?_⟩
      · rcases List.mem_append.mp ha with ha | ha
        · exact h.answers a ha
        · rw [List.mem_singleton.mp ha]
          exact ⟨h.requests r (List.mem_of_getElem? hr), Nat.le_refl _, fun _ => rfl⟩
      · refine (h.covered k hk).imp id ?_
        rintro ⟨n, hn, hone, hanswers, hstamps⟩
        refine ⟨n, hn, hone, fun a ha hreload => ?_, hstamps⟩
        rcases List.mem_append.mp ha with ha | ha
        · exact hanswers a ha hreload
        · rw [List.mem_singleton.mp ha]
          exact hk

theorem inv_answer (h : Inv i s) {j : Nat}
    (horder : ∀ a, s.answers[j]? = some a → Live.told s.view a.request.list ≤ a.request.reload) :
    Inv i (answer j s) := by
  unfold answer
  split
  · exact h
  · rename_i a ha
    have hle := horder a ha
    have hin : a ∈ s.answers := List.mem_of_getElem? ha
    have hless : ∀ b ∈ s.answers.eraseIdx j, b ∈ s.answers :=
      fun b hb => List.mem_of_mem_eraseIdx hb
    have hcurrent := View.current_step h.current (inOrder_answer hle)
    by_cases hmem : a.request ∈ s.view.requests
    · rw [if_pos hmem]
      obtain ⟨hrequests, hreloads, htold, hgiven, hother⟩ := answer_step hmem hle
      obtain ⟨hreload, hversion, hlists⟩ := h.answers a hin
      refine ⟨h.hub, h.listens, h.handled, hcurrent, fun w => ?_, fun w hw hstamp => ?_,
        fun b hb => ?_, fun r hr => ?_, fun w => ?_, fun w => ?_, ?_, fun k hk => ?_⟩
      · by_cases hw : w = a.request.list
        · subst hw
          dsimp only
          rwa [Function.update_self]
        · dsimp only
          rw [Function.update_of_ne hw]
          exact h.stamps w
      · dsimp only at hw hstamp ⊢
        by_cases hlist : w = a.request.list
        · subst hlist
          rw [Function.update_self] at hstamp
          rw [← hlists hstamp]
          exact hgiven
        · obtain ⟨htoldw, hgivenw⟩ := hother w hlist
          rw [Function.update_of_ne hlist] at hstamp
          rw [htoldw] at hw
          exact (hgivenw s.lists).mpr (h.given w hw hstamp)
      · dsimp only
        rw [hreloads]
        exact h.answers b (hless b hb)
      · dsimp only at hr ⊢
        rw [hrequests] at hr
        rw [hreloads]
        exact h.requests r (List.mem_of_mem_erase hr)
      · dsimp only
        rw [hreloads]
        by_cases hlist : w = a.request.list
        · rw [hlist, htold]
          exact hreload
        · rw [(hother w hlist).1]
          exact h.told w
      · dsimp only
        rw [hrequests, hreloads]
        by_cases hrequest : (⟨w, s.view.reloads⟩ : View.Request) = a.request
        · rw [← hrequest] at htold
          exact .inr htold
        · refine (h.latest w).imp (fun hr => (List.mem_erase_of_ne hrequest).mpr hr) fun hlast => ?_
          by_cases hlist : w = a.request.list
          · subst hlist
            rw [htold]
            have hup := h.told a.request.list
            omega
          · rw [(hother w hlist).1]
            exact hlast
      · dsimp only
        rw [hreloads]
        exact h.reloads
      · dsimp only
        rw [hreloads]
        refine (h.covered k hk).imp id ?_
        rintro ⟨n, hn, hone, hanswers, hstamps⟩
        refine ⟨n, hn, hone, fun b hb => hanswers b (hless b hb), fun w hw => ?_⟩
        dsimp only at hw ⊢
        by_cases hlist : w = a.request.list
        · subst hlist
          rw [Function.update_self]
          rw [htold] at hw
          exact hanswers a hin hw
        · rw [Function.update_of_ne hlist]
          rw [(hother w hlist).1] at hw
          exact hstamps w hw
    · rw [if_neg hmem, answer_ignored hmem]
      refine ⟨h.hub, h.listens, h.handled, h.current, h.stamps, h.given,
        fun b hb => h.answers b (hless b hb), h.requests, h.told, h.latest, h.reloads,
        fun k hk => ?_⟩
      refine (h.covered k hk).imp id ?_
      rintro ⟨n, hn, hone, hanswers, hstamps⟩
      exact ⟨n, hn, hone, fun b hb => hanswers b (hless b hb), hstamps⟩

/-- A change that the view has heard of is in the lists it was given last, or in those it has asked
for since. -/
theorem inv_step (h : Inv i s) (he : Heeds i s e) : Inv i (step i s e) := by
  cases e with
  | change lists => exact inv_change h lists
  | announce k => exact inv_announce h he k
  | other => exact h.onHub (e := .emit .other) he
  | hub e =>
    unfold step
    dsimp only
    split
    · exact h
    · exact h.onHub he
  | message => exact inv_message h
  | serve k => exact inv_serve h k
  | answer k => exact inv_answer h he
  | view e =>
    unfold step
    dsimp only
    split
    · rename_i hlocal
      exact h.onView (.inl hlocal)
    · exact h

theorem inv_opened {before : List (Ws.Channels.Event Note)} {lists : Lists}
    (hl : Listens (run observe Ws.Channels.start before) i) : Inv i (opened before lists) where
  hub := Ws.Channels.run_inv Ws.Channels.inv_start before
  listens := hl
  handled := Nat.zero_le _
  current := ⟨rfl, rfl⟩
  stamps _ := Nat.le_refl _
  given w hw _ := by cases w <;> cases hw
  answers a ha := absurd ha List.not_mem_nil
  requests r hr := by
    have hone : ∀ r ∈ View.start.requests, r.reload ≤ View.start.reloads := by decide
    exact hone r hr
  told w := by cases w <;> exact Nat.zero_le _
  latest w := by
    have hboth : ∀ w, (⟨w, 1⟩ : View.Request) ∈ View.start.requests := by
      intro w
      cases w <;> decide
    exact .inl (hboth w)
  reloads := Nat.le_refl _
  covered k hk := absurd hk (Nat.not_lt_zero k)

/-- At rest nothing is pending. -/
theorem AtRest.not_pending (h : Inv i s) (hrest : AtRest i s) {k : Nat} : ¬ Pending i s k := by
  obtain ⟨c, hc, hbuf, hhandled⟩ := hrest.handled
  have hheard : heard s.hub i = c.taken := by
    rw [Ws.Channels.heard_eq h.hub h.listens hc, hbuf, hrest.loop, hrest.broadcast]
    simp [Ws.Channels.pending]
  rintro (hmem | hmem)
  · rw [hrest.announced] at hmem
    cases hmem
  · rw [hheard, hhandled, List.drop_length] at hmem
    cases hmem

theorem AtRest.given (h : Inv i s) (hrest : AtRest i s) (w : Which) : Given s.view s.lists w := by
  have hlast : Live.told s.view w = s.view.reloads := by
    refine (h.latest w).resolve_left fun hmem => ?_
    rw [hrest.answered] at hmem
    cases hmem
  refine h.given w (hlast ▸ h.reloads) ?_
  have hle := h.stamps w
  by_contra hne
  have hlt : s.stamp w < s.version := by omega
  rcases h.covered _ hlt with hpending | ⟨n, hn, -, -, hstamps⟩
  · exact hrest.not_pending h hpending
  · exact Nat.lt_irrefl _ (hstamps w (hlast ▸ hn))

def joined : List (Ws.Channels.Event Note) := [.serveWS, .register 0]

def noArray : Lists := ⟨[], [⟨"/dev/sdb", 1000⟩, ⟨"/dev/sdc", 1000⟩]⟩

def mirrorArray : Lists :=
  { noArray with arrays := [⟨"/dev/md0", "1", "clean", some ["/dev/sdb", "/dev/sdc"]⟩] }

/-- The first lists are loaded; then an array is created, and the page hears of it. -/
def created : List Event :=
  [.serve 0, .serve 1, .answer 0, .answer 0, .change mirrorArray, .announce 0, .hub .receive,
    .hub (.offer 0), .hub .finish, .hub (.write 0 true), .message, .serve 0, .serve 1, .answer 0,
    .answer 0]

theorem listens_joined : Listens (run observe Ws.Channels.start joined) 0 :=
  ⟨⟨_, rfl, rfl⟩, fun _ hm => absurd hm List.not_mem_nil⟩

theorem heeds_created : Guarded (step 0) (Heeds 0) (opened joined noArray) created := by
  refine ⟨trivial, trivial, ?_, ?_, trivial, ?_, trivial, ?_, trivial, trivial, trivial, trivial,
    trivial, ?_, ?_, trivial⟩
  · intro a ha; cases ha; decide
  · intro a ha; cases ha; decide
  · show (0 : Nat) < 64
    omega
  · intro _ c hc; cases hc; decide
  · intro a ha; cases ha; decide
  · intro a ha; cases ha; decide

/-- A page whose connection has ended hears of nothing. -/
example : (run (step 0) (opened joined noArray)
    [.serve 0, .serve 1, .answer 0, .answer 0, .hub (.readError 0), .hub (.unregister 0),
      .change mirrorArray, .announce 0, .hub .receive, .hub .finish]).view.arrays = some [] := by
  decide +kernel

end Live
end Raid
end Nasd
