import Mathlib.Data.List.Induction

/-!
# Nasd.Lib.Run

Runs of a deterministic machine `step : σ → ε → σ` under an arbitrary list of events. The events
carry every choice (a scheduler's pick, a random token, an answer from outside), so a property of
every list is a property of every run.

* `run step s es`        — the state after the events `es`.
* `Always step P s es`   — `P` holds in `s` and in every state reached along `es`.
* `Guarded step G s es`  — every event of `es` is taken in a state that meets its guard `G`.

`always_of_guarded` is the invariant rule; `always_iff_guarded` is its exact form, for a guard
whose violation breaks the property at once. `run_origin` traces what a state holds back to the
event that put it there.
-/

namespace Machine

variable {σ ε α : Type*} {step : σ → ε → σ}

def run (step : σ → ε → σ) (s : σ) (es : List ε) : σ := es.foldl step s

@[simp] theorem run_nil (s : σ) : run step s [] = s := rfl

@[simp] theorem run_cons (s : σ) (e : ε) (es : List ε) :
    run step s (e :: es) = run step (step s e) es := rfl

@[simp] theorem run_append (s : σ) (es₁ es₂ : List ε) :
    run step s (es₁ ++ es₂) = run step (run step s es₁) es₂ := by
  simp [run, List.foldl_append]

/-- `P` holds in `s` and in every state reached along the events. -/
def Always (step : σ → ε → σ) (P : σ → Prop) (s : σ) : List ε → Prop
  | [] => P s
  | e :: es => P s ∧ Always step P (step s e) es

/-- Every event is taken in a state that meets its guard. -/
def Guarded (step : σ → ε → σ) (G : σ → ε → Prop) (s : σ) : List ε → Prop
  | [] => True
  | e :: es => G s e ∧ Guarded step G (step s e) es

theorem always_iff_prefix {P : σ → Prop} {s : σ} {es : List ε} :
    Always step P s es ↔ ∀ pre post, es = pre ++ post → P (run step s pre) := by
  induction es generalizing s with
  | nil =>
    constructor
    · intro h pre post he
      obtain ⟨rfl, rfl⟩ := List.append_eq_nil_iff.mp he.symm
      exact h
    · intro h; exact h [] [] rfl
  | cons e es ih =>
    simp only [Always, ih]
    constructor
    · rintro ⟨h0, h⟩ pre post he
      cases pre with
      | nil => exact h0
      | cons e' pre =>
        simp only [List.cons_append, List.cons.injEq] at he
        obtain ⟨rfl, rfl⟩ := he
        exact h pre post rfl
    · intro h
      refine ⟨h [] _ rfl, ?_⟩
      rintro pre post rfl
      exact h (e :: pre) post rfl

theorem guarded_append {G : σ → ε → Prop} {s : σ} {es₁ es₂ : List ε} :
    Guarded step G s (es₁ ++ es₂) ↔
      Guarded step G s es₁ ∧ Guarded step G (run step s es₁) es₂ := by
  induction es₁ generalizing s with
  | nil => simp [Guarded]
  | cons e es ih => simp only [List.cons_append, Guarded, ih, run_cons, and_assoc]

/-- The invariant rule, in every state of a guarded run. -/
theorem always_of_guarded {I P : σ → Prop} {G : σ → ε → Prop}
    (hstep : ∀ s e, I s → G s e → I (step s e)) (hP : ∀ s, I s → P s) {s : σ} {es : List ε}
    (h0 : I s) (hg : Guarded step G s es) : Always step P s es := by
  induction es generalizing s with
  | nil => exact hP s h0
  | cons e es ih => exact ⟨hP s h0, ih (hstep s e h0 hg.1) hg.2⟩

/-- When a step outside its guard breaks `P` at once, a run that meets `P` all along meets the
guard. Only the steps of the run, which meet `H`, need to break it. -/
theorem guarded_of_always {I P : σ → Prop} {G H : σ → ε → Prop}
    (hstep : ∀ s e, I s → H s e → G s e → I (step s e))
    (hbreak : ∀ s e, I s → H s e → P (step s e) → G s e) {s : σ} {es : List ε} (h0 : I s)
    (hH : Guarded step H s es) (hP : Always step P s es) : Guarded step G s es := by
  induction es generalizing s with
  | nil => trivial
  | cons e es ih =>
    obtain ⟨hHe, hH⟩ := hH
    obtain ⟨_, hP⟩ := hP
    have hnext : P (step s e) := by
      cases es with
      | nil => exact hP
      | cons _ _ => exact hP.1
    have hg : G s e := hbreak s e h0 hHe hnext
    exact ⟨hg, ih (hstep s e h0 hHe hg) hH hP⟩

theorem guarded_of_forall {G : σ → ε → Prop} (hG : ∀ s e, G s e) (s : σ) (es : List ε) :
    Guarded step G s es := by
  induction es generalizing s with
  | nil => trivial
  | cons e es ih => exact ⟨hG s e, ih _⟩

theorem Guarded.mono {G H : σ → ε → Prop} (himp : ∀ s e, G s e → H s e) {s : σ} {es : List ε}
    (hg : Guarded step G s es) : Guarded step H s es := by
  induction es generalizing s with
  | nil => trivial
  | cons e es ih => exact ⟨himp s e hg.1, ih hg.2⟩

theorem Guarded.and {G H : σ → ε → Prop} {s : σ} {es : List ε} (hg : Guarded step G s es)
    (hh : Guarded step H s es) : Guarded step (fun s e => G s e ∧ H s e) s es := by
  induction es generalizing s with
  | nil => trivial
  | cons e es ih => exact ⟨⟨hg.1, hh.1⟩, ih hg.2 hh.2⟩

/-- The exact invariant rule: when a step outside its guard breaks `P` at once, `P` holds along
the whole run if and only if every step meets its guard. -/
theorem always_iff_guarded {I P : σ → Prop} {G : σ → ε → Prop}
    (hstep : ∀ s e, I s → G s e → I (step s e)) (hP : ∀ s, I s → P s)
    (hbreak : ∀ s e, I s → P (step s e) → G s e) {s : σ} {es : List ε} (h0 : I s) :
    Always step P s es ↔ Guarded step G s es :=
  ⟨guarded_of_always (H := fun _ _ => True) (fun s e hI _ => hstep s e hI)
    (fun s e hI _ => hbreak s e hI) h0 (guarded_of_forall (fun _ _ => trivial) s es),
    always_of_guarded hstep hP h0⟩

/-- What a state holds was there at the start, or some event of the run put it there; since then
every event kept it. -/
theorem run_origin {Q : σ → α → Prop} {Born Keep : σ → ε → α → Prop}
    (hstep : ∀ s e a, Q (step s e) a → Born s e a ∨ (Q s a ∧ Keep s e a)) (s : σ) (a : α) :
    ∀ es : List ε, Q (run step s es) a →
      (Q s a ∧ Guarded step (fun s e => Keep s e a) s es) ∨
      ∃ pre e post, es = pre ++ e :: post ∧ Born (run step s pre) e a ∧
        Guarded step (fun s e => Keep s e a) (run step s (pre ++ [e])) post := by
  intro es
  induction es using List.reverseRecOn with
  | nil => intro h; exact .inl ⟨h, trivial⟩
  | append_singleton es e ih =>
    intro h
    rw [run_append] at h
    rcases hstep _ e a h with hb | ⟨hq, hk⟩
    · exact .inr ⟨es, e, [], rfl, hb, trivial⟩
    · rcases ih hq with ⟨h0, hg⟩ | ⟨pre, e', post, rfl, hb, hg⟩
      · exact .inl ⟨h0, guarded_append.mpr ⟨hg, hk, trivial⟩⟩
      · refine .inr ⟨pre, e', post ++ [e], by simp, hb, guarded_append.mpr ⟨hg, ?_, trivial⟩⟩
        simpa using hk

end Machine
