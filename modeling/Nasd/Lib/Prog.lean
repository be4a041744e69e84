import Nasd.Lib.Pool

/-!
# Nasd.Lib.Prog

Programs that ask an environment: `ask a k` asks for the action `a` and goes on with the answer.
What an action does to a state, and what it answers, is for the environment to say.

* `exec`      — a program from its first action to its last, with nothing in between.
* `Asks P p`  — whatever the answers are, every action that `p` asks for meets `P`.
* `Gives Q p` — whatever the answers are, the outcome meets `Q`.
* `next`      — one action, so that programs that share a state can take turns in a `Pool`.
-/

inductive Prog (A : Type) (Ans : A → Type) (α : Type) : Type where
  | done (x : α)
  | ask (a : A) (k : Ans a → Prog A Ans α)

namespace Prog

variable {A : Type} {Ans : A → Type} {α β σ : Type}

def bind (p : Prog A Ans α) (f : α → Prog A Ans β) : Prog A Ans β :=
  match p with
  | .done x => f x
  | .ask a k => .ask a fun x => (k x).bind f

instance : Monad (Prog A Ans) where
  pure := .done
  bind := bind

/-- One action, and its answer. -/
def act (a : A) : Prog A Ans (Ans a) := .ask a .done

theorem bind_assoc {γ : Type} (p : Prog A Ans α) (f : α → Prog A Ans β) (g : β → Prog A Ans γ) :
    p >>= f >>= g = p >>= fun x => f x >>= g := by
  induction p with
  | done x => rfl
  | ask a k ih => exact congrArg (Prog.ask a) (funext ih)

variable {E : (a : A) → σ → Ans a × σ} {P : A → Prop}

/-! ## Alone -/

def exec (E : (a : A) → σ → Ans a × σ) : Prog A Ans α → σ → α × σ
  | .done x, s => (x, s)
  | .ask a k, s => exec E (k (E a s).1) (E a s).2

@[simp] theorem exec_pure (x : α) (s : σ) : (pure x : Prog A Ans α).exec E s = (x, s) := rfl

@[simp] theorem exec_act (a : A) (s : σ) : (act a : Prog A Ans (Ans a)).exec E s = E a s := rfl

@[simp] theorem exec_bind (p : Prog A Ans α) (f : α → Prog A Ans β) (s : σ) :
    (p >>= f).exec E s = (f (p.exec E s).1).exec E (p.exec E s).2 := by
  induction p generalizing s with
  | done x => rfl
  | ask a k ih => exact ih _ _

/-! ## What a program asks for -/

def Asks (P : A → Prop) : Prog A Ans α → Prop
  | .done _ => True
  | .ask a k => P a ∧ ∀ x, Asks P (k x)

theorem Asks.pure (x : α) : Asks P (pure x : Prog A Ans α) := trivial

theorem Asks.act {a : A} (h : P a) : Asks P (act a : Prog A Ans (Ans a)) := ⟨h, fun _ => trivial⟩

theorem Asks.bind {p : Prog A Ans α} {f : α → Prog A Ans β} (hp : Asks P p)
    (hf : ∀ x, Asks P (f x)) : Asks P (p >>= f) := by
  induction p with
  | done x => exact hf x
  | ask a k ih => exact ⟨hp.1, fun x => ih x (hp.2 x)⟩

theorem Asks.ite {c : Prop} [Decidable c] {p q : Prog A Ans α} (hp : Asks P p) (hq : Asks P q) :
    Asks P (if c then p else q) := by
  split
  · exact hp
  · exact hq

theorem Asks.mono {Q : A → Prop} (himp : ∀ a, P a → Q a) {p : Prog A Ans α} (hp : Asks P p) :
    Asks Q p := by
  induction p with
  | done x => trivial
  | ask a k ih => exact ⟨himp a hp.1, fun x => ih x (hp.2 x)⟩

/-! ## What it comes to -/

/-- Whatever the answers are, the outcome meets `Q`. -/
def Gives (Q : α → Prop) : Prog A Ans α → Prop
  | .done x => Q x
  | .ask _ k => ∀ x, Gives Q (k x)

theorem Gives.bind {Q : α → Prop} {R : β → Prop} {p : Prog A Ans α} {f : α → Prog A Ans β}
    (hp : Gives Q p) (hf : ∀ x, Q x → Gives R (f x)) : Gives R (p >>= f) := by
  induction p with
  | done x => exact hf x hp
  | ask a k ih => exact fun x => ih x (hp x)

theorem Gives.all {p : Prog A Ans α} {Q : α → Prop} (h : ∀ x, Q x) : Gives Q p := by
  induction p with
  | done x => exact h x
  | ask a k ih => exact fun x => ih x

theorem Asks.bind_gives {Q : α → Prop} {p : Prog A Ans α} {f : α → Prog A Ans β} (hp : Asks P p)
    (hq : Gives Q p) (hf : ∀ x, Q x → Asks P (f x)) : Asks P (p >>= f) := by
  induction p with
  | done x => exact hf x hq
  | ask a k ih => exact ⟨hp.1, fun x => ih x (hp.2 x) (hq x)⟩

theorem Gives.exec {Q : α → Prop} {p : Prog A Ans α} (hp : Gives Q p) (s : σ) :
    Q (p.exec E s).1 := by
  induction p generalizing s with
  | done x => exact hp
  | ask a k ih => exact ih _ (hp _) _

/-! ## Taking turns -/

def next (E : (a : A) → σ → Ans a × σ) : Prog A Ans α → σ → Prog A Ans α × σ
  | .done x, s => (.done x, s)
  | .ask a k, s => (k (E a s).1, (E a s).2)

/-- The action whose turn it is. -/
def head? : Prog A Ans α → Option A
  | .done _ => none
  | .ask a _ => some a

def Finished (p : Prog A Ans α) : Prop := p.head? = none

instance (p : Prog A Ans α) : Decidable p.Finished :=
  decidable_of_iff (p.head?.isNone = true) Option.isNone_iff_eq_none

end Prog
