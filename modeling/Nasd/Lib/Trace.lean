import Nasd.Lib.Run

/-!
# Nasd.Lib.Trace

Machines that answer every event, and what a state holds at addresses that the events move about.

* `trace`          — the answers along a run, and the state after it.
* `trace_refines`  — a relation that one step keeps, the answers agreeing, is kept by every run.
* `run_born`       — what is at an address after a run was at the address it came from, or some event
  of the run put it where it came from.
* `run_kept`       — what is at an address before a run is where the run takes it, if no event
  spoils it on the way.
-/

namespace Machine

variable {σ τ ε ω ω' α : Type*}

def trace (step : σ → ε → ω × σ) : σ → List ε → List ω × σ
  | s, [] => ([], s)
  | s, e :: es => ((step s e).1 :: (trace step (step s e).2 es).1, (trace step (step s e).2 es).2)

variable {step : σ → ε → ω × σ}

theorem trace_cons (s : σ) (e : ε) (es : List ε) : trace step s (e :: es) =
    ((step s e).1 :: (trace step (step s e).2 es).1, (trace step (step s e).2 es).2) := rfl

theorem trace_state (s : σ) (es : List ε) :
    (trace step s es).2 = run (fun s e => (step s e).2) s es := by
  induction es generalizing s with
  | nil => rfl
  | cons e es ih => rw [trace_cons, run_cons, ih]

theorem trace_refines {step' : τ → ε → ω' × τ} {f : ω → ω'} {R : σ → τ → Prop}
    (hstep : ∀ s t e, R s t → f (step s e).1 = (step' t e).1 ∧ R (step s e).2 (step' t e).2)
    {s : σ} {t : τ} (h : R s t) (es : List ε) :
    (trace step s es).1.map f = (trace step' t es).1 ∧
      R (trace step s es).2 (trace step' t es).2 := by
  induction es generalizing s t with
  | nil => exact ⟨rfl, h⟩
  | cons e es ih =>
    obtain ⟨hanswer, hnext⟩ := hstep s t e h
    obtain ⟨hanswers, hlast⟩ := ih hnext
    refine ⟨?_, hlast⟩
    rw [trace_cons, trace_cons, List.map_cons, hanswer, hanswers]

/-! ## Addresses that move -/

variable {next : σ → ε → σ} {back fwd : σ → ε → α → α} {Q : σ → α → Prop}
  {Born Spared : σ → ε → α → Prop}

/-- The address before a run of what is at `a` after it. -/
def backs (next : σ → ε → σ) (back : σ → ε → α → α) : σ → List ε → α → α
  | _, [], a => a
  | s, e :: es, a => back s e (backs next back (next s e) es a)

/-- The address after a run of what is at `a` before it. -/
def fwds (next : σ → ε → σ) (fwd : σ → ε → α → α) : σ → List ε → α → α
  | _, [], a => a
  | s, e :: es, a => fwds next fwd (next s e) es (fwd s e a)

theorem run_born (hstep : ∀ s e a, Q (next s e) a → Born s e a ∨ Q s (back s e a)) (s : σ)
    (es : List ε) (a : α) (h : Q (run next s es) a) :
    Q s (backs next back s es a) ∨
      ∃ pre e post, es = pre ++ e :: post ∧
        Born (run next s pre) e (backs next back (next (run next s pre) e) post a) := by
  induction es generalizing s with
  | nil => exact .inl h
  | cons e es ih =>
    rcases ih (next s e) h with hq | ⟨pre, e', post, rfl, hborn⟩
    · rcases hstep s e _ hq with hborn | hq
      · exact .inr ⟨[], e, es, rfl, hborn⟩
      · exact .inl hq
    · exact .inr ⟨e :: pre, e', post, rfl, hborn⟩

/-- No event of the run spoils what is at `a` before it. -/
def SparedAlong (next : σ → ε → σ) (fwd : σ → ε → α → α) (Spared : σ → ε → α → Prop) :
    σ → List ε → α → Prop
  | _, [], _ => True
  | s, e :: es, a => Spared s e a ∧ SparedAlong next fwd Spared (next s e) es (fwd s e a)

theorem run_kept (hstep : ∀ s e a, Q s a → Spared s e a → Q (next s e) (fwd s e a)) (s : σ)
    (es : List ε) (a : α) (h : Q s a) (hsp : SparedAlong next fwd Spared s es a) :
    Q (run next s es) (fwds next fwd s es a) := by
  induction es generalizing s a with
  | nil => exact h
  | cons e es ih => exact ih (next s e) (fwd s e a) (hstep s e a h hsp.1) hsp.2

end Machine
