import Nasd.Ws.Channels

/-!
# Nasd.Ws.Heard

What reaches a connection that stays in the map of the hub: every message that was accepted since it
was put there, as long as its channel and the broadcast buffer have room.

* `heard_eq`     — what it has heard is what it was sent, and what is on the way to it.
* `listens_step` — an event that loses nothing leaves that as it is, but for what it emits.
-/

namespace Nasd
namespace Ws
namespace Channels

variable {μ : Type} {o : Observed μ} {s : Hub μ} {i j : Nat} {c : Conn μ} {e : Event μ}

/-- The messages accepted since the connection was put into the map. -/
def heard (o : Observed μ) (i : Nat) : List μ :=
  match (o.logs i).joined with
  | none => []
  | some a => o.accepted.drop a

/-- The connection is in the map, and it has missed nothing. -/
structure Listens (o : Observed μ) (i : Nat) : Prop where
  inMap : ∃ c, o.hub.conns[i]? = some c ∧ c.inMap = true
  room : ∀ m ∈ (o.logs i).offers, m.2 < 32

/-- The event loses no message to the connection. -/
def Keeps (i : Nat) (s : Hub μ) : Event μ → Prop
  | .emit _ => s.broadcast.buf.length < 64
  | .offer j => j = i → ∀ c, s.conns[i]? = some c → c.send.buf.length < 32
  | .unregister j => j ≠ i
  | _ => True

def emitted : Event μ → List μ
  | .emit m => [m]
  | _ => []

theorem heard_eq (h : Inv o) (hl : Listens o i) (hc : o.hub.conns[i]? = some c) :
    heard o i = c.taken ++ c.send.buf ++ pending o.hub.loop i ++ o.hub.broadcast.buf := by
  obtain ⟨c', hc', hmap⟩ := hl.inMap
  obtain rfl : c = c' := Option.some.inj (hc.symm.trans hc')
  have hconn := h.conn i c hc
  obtain ⟨-, a, hjoined, hremoved, ha⟩ := hconn.stands.of_inMap hmap
  have hall : queued (o.logs i).offers = (o.logs i).offers.map Prod.fst := by
    rw [queued, List.filter_eq_self.mpr fun m hm => decide_eq_true (hl.room m hm)]
  have hwindow : window o.dispatched (o.logs i) = o.dispatched.drop a := by
    simp only [window, hjoined, hremoved]
  rw [hconn.queued, hall, hconn.offered, hwindow, heard, hjoined, h.accepted]
  exact List.drop_append_of_le_length ha

/-! ## One event -/

theorem onConn_keeps {f : Conn μ → Option (Conn μ)} {P : Conn μ → Prop}
    (hc : s.conns[i]? = some c) (hP : P c) (hf : j = i → ∀ c', f c = some c' → P c') :
    ∃ c', (onConn j f s).conns[i]? = some c' ∧ P c' := by
  unfold onConn
  cases hj : s.conns[j]? with
  | none => exact ⟨c, hc, hP⟩
  | some cj =>
    dsimp only
    cases hfj : f cj with
    | none => exact ⟨c, hc, hP⟩
    | some c' =>
      by_cases hji : j = i
      · subst hji
        obtain rfl : cj = c := Option.some.inj (hj.symm.trans hc)
        have hlt := (List.getElem?_eq_some_iff.mp hc).1
        exact ⟨c', List.getElem?_set_self hlt, hf rfl c' hfj⟩
      · refine ⟨c, ?_, hP⟩
        dsimp only
        rw [List.getElem?_set_ne hji, hc]

/-- A connection in the map stays there until it is unregistered, and keeps what it was sent. -/
theorem conn_step (hc : s.conns[i]? = some c) (hmap : c.inMap = true) (he : e ≠ .unregister i) :
    ∃ c', (step s e).conns[i]? = some c' ∧ c'.inMap = true ∧ c.taken <+: c'.taken := by
  have hself : c.inMap = true ∧ c.taken <+: c.taken := ⟨hmap, List.prefix_rfl⟩
  have hstay : ∃ c', s.conns[i]? = some c' ∧ c'.inMap = true ∧ c.taken <+: c'.taken :=
    ⟨c, hc, hself⟩
  cases e with
  | serveWS =>
    have hlt := (List.getElem?_eq_some_iff.mp hc).1
    exact ⟨c, (List.getElem?_append_left hlt).trans hc, hself⟩
  | register j =>
    unfold step
    dsimp only
    split
    · refine onConn_keeps hc hself fun _ c' hf => ?_
      cases hf
      unfold Conn.register
      split
      · exact ⟨rfl, List.prefix_rfl⟩
      · exact hself
    · exact hstay
  | readError j =>
    refine onConn_keeps hc hself fun _ c' hf => ?_
    cases hf
    unfold Conn.readError
    split
    · exact hself
    · exact hself
  | unregister j =>
    unfold step
    dsimp only
    split
    · refine onConn_keeps hc hself fun hji _ _ => ?_
      exact absurd (hji ▸ rfl) he
    · exact hstay
  | emit m =>
    unfold step
    dsimp only
    split <;> exact hstay
  | receive =>
    unfold step
    dsimp only
    split <;> exact hstay
  | offer j =>
    unfold step
    dsimp only
    split
    · exact hstay
    · split
      · refine onConn_keeps (s := { s with loop := _ }) hc hself fun _ c' hf => ?_
        obtain ⟨ch, -, rfl⟩ := Option.map_eq_some_iff.mp hf
        exact hself
      · exact hstay
  | finish =>
    unfold step
    dsimp only
    split <;> exact hstay
  | write j ok =>
    refine onConn_keeps hc hself fun _ c' hf => ?_
    cases hf
    unfold Conn.write
    split
    · exact hself
    · split
      · exact ⟨hmap, List.prefix_append _ _⟩
      · split <;> exact hself
  | pingError j =>
    refine onConn_keeps hc hself fun _ c' hf => ?_
    cases hf
    exact hself

theorem offeredBy_room {m : μ × Nat} (hk : Keeps i s e) (hm : m ∈ offeredBy s i e) : m.2 < 32 := by
  cases e with
  | offer j =>
    unfold offeredBy at hm
    dsimp only at hm
    split at hm
    · rename_i c _ hc
      split at hm
      · rename_i hji
        rw [List.mem_singleton.mp hm]
        exact hk hji.1 c hc
      · cases hm
    · cases hm
  | _ => cases hm

theorem acceptedBy_emitted (hk : Keeps i s e) : acceptedBy s e = emitted e := by
  cases e with
  | emit m => exact if_pos hk
  | _ => rfl

theorem listens_step (h : Inv o) (hl : Listens o i) (hk : Keeps i o.hub e) :
    Listens (observe o e) i ∧ heard (observe o e) i = heard o i ++ emitted e := by
  obtain ⟨c, hc, hmap⟩ := hl.inMap
  have he : e ≠ .unregister i := by
    rintro rfl
    exact hk rfl
  obtain ⟨c', hc', hmap', -⟩ := conn_step hc hmap he
  have hlog : (observe o e).logs i =
      { o.logs i with offers := (o.logs i).offers ++ offeredBy o.hub i e } := by
    simp only [observe, hc, hc', watch_same (hmap'.trans hmap.symm)]
  obtain ⟨-, a, hjoined, -, ha⟩ := (h.conn i c hc).stands.of_inMap hmap
  refine ⟨⟨⟨c', hc', hmap'⟩, fun m hm => ?_⟩, ?_⟩
  · rw [hlog] at hm
    rcases List.mem_append.mp hm with hm | hm
    · exact hl.room m hm
    · exact offeredBy_room hk hm
  · have hle : a ≤ o.accepted.length := by
      rw [h.accepted, List.length_append]
      omega
    unfold heard
    rw [hlog]
    dsimp only
    rw [hjoined]
    dsimp only [observe]
    rw [acceptedBy_emitted hk, List.drop_append_of_le_length hle]

end Channels
end Ws
end Nasd
