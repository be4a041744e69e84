import Mathlib.Data.List.Basic

/-!
# Nasd.Lib.Pool

Processes that share a state, each with a program of atomic steps: `next p d` is the next step of a
process at `p` on the shared state `d`. Processes join at any time and any of them may move next,
so a list of events is one interleaving.

* `step_cases`  — what one event can do.
* `at_arrive`, `at_advance` — where every process stands after it.
-/

namespace Pool

variable {δ φ ρ : Type*}

/-- The shared state, and where every process stands, in the order of their arrival. -/
structure State (δ φ : Type*) where
  shared : δ
  procs : List φ

inductive Event (ρ : Type*) where
  | arrive (q : ρ)
  | advance (i : Nat)

def arrive (p : φ) (s : State δ φ) : State δ φ := { s with procs := s.procs ++ [p] }

def advance (i : Nat) (out : φ × δ) (s : State δ φ) : State δ φ := ⟨out.2, s.procs.set i out.1⟩

def step (start : ρ → φ) (next : φ → δ → φ × δ) (s : State δ φ) : Event ρ → State δ φ
  | .arrive q => arrive (start q) s
  | .advance i =>
    match s.procs[i]? with
    | none => s
    | some p => advance i (next p s.shared) s

/-- Process `i` stands at `p`. -/
def At (s : State δ φ) (i : Nat) (p : φ) : Prop := s.procs[i]? = some p

variable {start : ρ → φ} {next : φ → δ → φ × δ} {s : State δ φ} {i j : Nat} {p q : φ}

theorem At.unique (hp : At s i p) (hq : At s i q) : p = q := Option.some.inj (hp.symm.trans hq)

theorem At.mem (h : At s i p) : p ∈ s.procs := List.mem_of_getElem? h

theorem step_advance (h : At s i p) :
    step start next s (.advance i) = advance i (next p s.shared) s := by
  have hget : s.procs[i]? = some p := h
  simp only [step, hget]

theorem step_cases (start : ρ → φ) (next : φ → δ → φ × δ) (s : State δ φ) (e : Event ρ) :
    (∃ q, e = .arrive q ∧ step start next s e = arrive (start q) s) ∨
    (∃ i p, e = .advance i ∧ At s i p ∧ step start next s e = advance i (next p s.shared) s) ∨
    (∃ i, e = .advance i ∧ step start next s e = s) := by
  cases e with
  | arrive q => exact .inl ⟨q, rfl, rfl⟩
  | advance i =>
    cases hget : s.procs[i]? with
    | none => exact .inr (.inr ⟨i, rfl, by simp only [step, hget]⟩)
    | some p => exact .inr (.inl ⟨i, p, rfl, hget, step_advance hget⟩)

theorem at_arrive : At (arrive q s) j p ↔ At s j p ∨ (j = s.procs.length ∧ p = q) := by
  simp only [At, arrive]
  by_cases hlt : j < s.procs.length
  · rw [List.getElem?_append_left hlt]
    have hne : j ≠ s.procs.length := by omega
    simp [hne]
  · have hnone : s.procs[j]? = none := List.getElem?_eq_none (by omega)
    rw [List.getElem?_append_right (by omega), hnone]
    by_cases heq : j = s.procs.length
    · subst heq
      simp [eq_comm]
    · have hpos : j - s.procs.length ≠ 0 := by omega
      simp [heq, hpos]

/-- The process that moved stands where its step took it, every other one where it stood. -/
theorem at_advance {out : φ × δ} (h : At s i q) :
    At (advance i out s) j p ↔ (j = i ∧ p = out.1) ∨ (j ≠ i ∧ At s j p) := by
  have hlt : i < s.procs.length := (List.getElem?_eq_some_iff.mp h).1
  simp only [At, advance]
  by_cases heq : j = i
  · subst heq
    rw [List.getElem?_set_self hlt]
    simp [eq_comm]
  · rw [List.getElem?_set_ne (Ne.symm heq)]
    simp [heq]

end Pool
