import Mathlib.Data.List.Basic

/-!
# Nasd.Lib.Chan

Buffered channels as Go has them. A channel never holds more than its capacity; sending on a closed
channel and closing it again panic, which is `none` here.

* `trySend` — the `select` of a send with an empty default: a message that finds no room is dropped.
* `receive` — a value that waits in the buffer, also after the channel was closed.
-/

structure Chan (α : Type*) (cap : Nat) where
  buf : List α
  closed : Bool
  bound : buf.length ≤ cap
  deriving DecidableEq

namespace Chan

variable {α : Type*} {cap : Nat} {c c' : Chan α cap} {a : α}

def make : Chan α cap := ⟨[], false, Nat.zero_le _⟩

def trySend (a : α) (c : Chan α cap) : Option (Chan α cap) :=
  if c.closed then none
  else if h : c.buf.length < cap then
    some ⟨c.buf ++ [a], c.closed, by simpa [Nat.succ_le_iff] using h⟩
  else some c

def receive (c : Chan α cap) : Option (α × Chan α cap) :=
  match h : c.buf with
  | [] => none
  | a :: rest => some (a, ⟨rest, c.closed, by
      have hbound := c.bound
      rw [h, List.length_cons] at hbound
      omega⟩)

def close (c : Chan α cap) : Option (Chan α cap) :=
  if c.closed then none else some { c with closed := true }

/-- On an open channel the message is queued, or the buffer is full and stays as it is. -/
theorem trySend_of_open (h : c.closed = false) (a : α) :
    ∃ c', c.trySend a = some c' ∧ c'.closed = false ∧
      c'.buf = if c.buf.length < cap then c.buf ++ [a] else c.buf := by
  unfold trySend
  rw [h, if_neg Bool.false_ne_true]
  split
  · exact ⟨_, rfl, rfl, rfl⟩
  · exact ⟨c, rfl, h, rfl⟩

theorem receive_eq_some (h : c.receive = some (a, c')) :
    c.buf = a :: c'.buf ∧ c'.closed = c.closed := by
  unfold receive at h
  split at h
  · cases h
  · rename_i b rest hbuf
    cases h
    exact ⟨hbuf, rfl⟩

theorem close_of_open (h : c.closed = false) : c.close = some { c with closed := true } := by
  simp [close, h]

end Chan
