import Nasd.Lib.Run
import Nasd.Server.Session

/-!
# Nasd.Server.Expiry

The session store over runs of its operations and of the clock. `Create` and the sweep read the
clock before they take the lock and `Get` reads it after its lookup, so an operation carries how
far its reading is from the moment it takes effect.

* `Clocked`, `step`, `answers` — the store beside the clock, and what the calls of `Get` return.
* `Ledger`                     — the sessions issued and not deleted; nothing in it expires.
* `admits_iff_held`            — `Get` admits what was issued, not deleted, and is not expired.
-/

namespace Nasd
namespace Server
namespace Expiry

open Text Machine

/-- `lag` is the age of the clock's reading, `wait` the time until the clock is read. -/
inductive Op where
  | tick (n : Nat)
  | Create (username : Str) (isAdmin : Bool) (token csrf : Str) (lag : Nat)
  | Get (token : Str) (wait : Nat)
  | Delete (token : Str)
  | gc (lag : Nat)
  deriving DecidableEq

def Op.isGc : Op → Bool
  | .gc _ => true
  | _ => false

def Op.issues : Op → Option Str
  | .Create _ _ token _ _ => some token
  | _ => none

structure Clocked where
  store : SessionStore
  now : Nat

def start (ttl t0 : Nat) : Clocked := ⟨.NewSessionStore ttl, t0⟩

def step (s : Clocked) : Op → Clocked
  | .tick n => { s with now := s.now + n }
  | .Create username isAdmin token csrf lag =>
    { s with store := (s.store.Create username isAdmin token csrf (s.now - lag)).2 }
  | .Get _ _ => s
  | .Delete token => { s with store := s.store.Delete token }
  | .gc lag => { s with store := s.store.gc (s.now - lag) }

def answer (s : Clocked) : Op → List (Option Session)
  | .Get token wait => [s.store.Get token (s.now + wait)]
  | _ => []

/-- What the calls of `Get` along a run return. -/
def answers (s : Clocked) : List Op → List (Option Session)
  | [] => []
  | op :: ops => answer s op ++ answers (step s op) ops

/-! ## Ledger -/

/-- The sessions issued and not deleted, and the clock. -/
structure Ledger where
  issued : Str → Option Session
  now : Nat

namespace Ledger

def empty (t0 : Nat) : Ledger := ⟨fun _ => none, t0⟩

/-- A sweep does nothing here. -/
def step (ttl : Nat) (l : Ledger) : Op → Ledger
  | .tick n => { l with now := l.now + n }
  | .Create username isAdmin token csrf lag =>
    let sess : Session := ⟨token, username, isAdmin, csrf, l.now - lag + ttl⟩
    { l with issued := Function.update l.issued token (some sess) }
  | .Get _ _ => l
  | .Delete token => { l with issued := Function.update l.issued token none }
  | .gc _ => l

/-- The session of a token, unless the time `t` is past its end. -/
def admits (l : Ledger) (token : Str) (t : Nat) : Option Session :=
  (l.issued token).filter fun sess => t ≤ sess.ExpiresAt

def answer (l : Ledger) : Op → List (Option Session)
  | .Get token wait => [l.admits token (l.now + wait)]
  | _ => []

def answers (ttl : Nat) (l : Ledger) : List Op → List (Option Session)
  | [] => []
  | op :: ops => l.answer op ++ answers ttl (l.step ttl op) ops

end Ledger

variable {ttl t0 : Nat} {s : Clocked} {l : Ledger} {op : Op} {ops : List Op} {token : Str}
  {sess : Session}

theorem admits_eq_some {t : Nat} :
    l.admits token t = some sess ↔ l.issued token = some sess ∧ t ≤ sess.ExpiresAt := by
  simp [Ledger.admits, Option.filter_eq_some_iff]

/-! ## Refinement -/

/-- From now on the store admits what the ledger does. -/
structure Refines (ttl : Nat) (s : Clocked) (l : Ledger) : Prop where
  ttl : s.store.ttl = ttl
  now : s.now = l.now
  admits : ∀ token t, s.now ≤ t → s.store.Get token t = l.admits token t

theorem Refines.iff (h : Refines ttl s l) {t : Nat} (ht : s.now ≤ t) :
    (s.store.sessions token = some sess ∧ t ≤ sess.ExpiresAt) ↔
      (l.issued token = some sess ∧ t ≤ sess.ExpiresAt) := by
  rw [← SessionStore.Get_eq_some, h.admits token t ht, admits_eq_some]

theorem refines_of_iff (httl : s.store.ttl = ttl) (hnow : s.now = l.now)
    (h : ∀ token sess t, s.now ≤ t → ((s.store.sessions token = some sess ∧ t ≤ sess.ExpiresAt) ↔
      (l.issued token = some sess ∧ t ≤ sess.ExpiresAt))) : Refines ttl s l := by
  refine ⟨httl, hnow, ?_⟩
  intro token t ht
  apply Option.ext
  intro sess
  rw [SessionStore.Get_eq_some, admits_eq_some]
  exact h token sess t ht

/-- The entry of one token is set on both sides. -/
theorem Refines.update (h : Refines ttl s l) (tok : Str) (entry : Option Session) {t : Nat}
    (ht : s.now ≤ t) :
    (Function.update s.store.sessions tok entry token = some sess ∧ t ≤ sess.ExpiresAt) ↔
      (Function.update l.issued tok entry token = some sess ∧ t ≤ sess.ExpiresAt) := by
  by_cases htok : token = tok
  · subst htok
    simp only [Function.update_self]
  · simp only [Function.update_of_ne htok]
    exact h.iff ht

theorem refines_start : Refines ttl (start ttl t0) (.empty t0) :=
  refines_of_iff rfl rfl fun _ _ _ _ => by simp [start, SessionStore.NewSessionStore, Ledger.empty]

/-- A sweep takes only what is past its end already, and stays so. -/
theorem refines_gc (h : Refines ttl s l) (lag : Nat) : Refines ttl (step s (.gc lag)) l := by
  refine refines_of_iff h.ttl h.now ?_
  intro token sess t ht
  rw [← h.iff ht]
  show (s.store.gc (s.now - lag)).sessions token = some sess ∧ _ ↔ _
  rw [SessionStore.sessions_gc_eq, SessionStore.Get_eq_some]
  have hage : s.now - lag ≤ t := by
    have : s.now ≤ t := ht
    omega
  constructor
  · rintro ⟨⟨hsess, -⟩, hexp⟩
    exact ⟨hsess, hexp⟩
  · rintro ⟨hsess, hexp⟩
    exact ⟨⟨hsess, by omega⟩, hexp⟩

theorem refines_step (h : Refines ttl s l) (op : Op) : Refines ttl (step s op) (l.step ttl op) := by
  cases op with
  | tick n =>
    refine ⟨h.ttl, by simp only [step, Ledger.step, h.now], ?_⟩
    intro token t ht
    have hnow : s.now + n ≤ t := ht
    exact h.admits token t (by omega)
  | Create username isAdmin tok csrf lag =>
    refine refines_of_iff h.ttl h.now ?_
    intro token sess t ht
    simp only [step, SessionStore.Create, Ledger.step, h.ttl, h.now]
    exact h.update tok _ ht
  | Get tok wait => exact h
  | Delete tok =>
    refine refines_of_iff h.ttl h.now ?_
    exact fun token sess t ht => h.update tok none ht
  | gc lag => exact refines_gc h lag

theorem refines_run (h : Refines ttl s l) (ops : List Op) :
    Refines ttl (run step s ops) (run (Ledger.step ttl) l ops) := by
  induction ops generalizing s l with
  | nil => exact h
  | cons op ops ih => exact ih (refines_step h op)

theorem answers_refines (h : Refines ttl s l) (ops : List Op) :
    answers s ops = l.answers ttl ops := by
  induction ops generalizing s l with
  | nil => rfl
  | cons op ops ih =>
    have hanswer : answer s op = l.answer op := by
      cases op with
      | Get token wait =>
        simp only [answer, Ledger.answer, ← h.now]
        rw [h.admits token _ (Nat.le_add_right _ _)]
      | tick n => rfl
      | Create username isAdmin tok csrf lag => rfl
      | Delete tok => rfl
      | gc lag => rfl
    simp only [answers, Ledger.answers, hanswer, ih (refines_step h op)]

/-- Sweeps can be taken out of a run of the ledger. -/
theorem answers_filter (ttl : Nat) (l : Ledger) (ops : List Op) :
    l.answers ttl (ops.filter fun op => !op.isGc) = l.answers ttl ops := by
  induction ops generalizing l with
  | nil => rfl
  | cons op ops ih =>
    cases hgc : op.isGc with
    | true =>
      have hskip : l.answer op = [] ∧ l.step ttl op = l := by
        cases op <;> first | exact ⟨rfl, rfl⟩ | cases hgc
      rw [List.filter_cons_of_neg (by simp [hgc]), ih, Ledger.answers, hskip.1, hskip.2]
      rfl
    | false => rw [List.filter_cons_of_pos (by simp [hgc]), Ledger.answers, Ledger.answers, ih]

/-! ## History -/

/-- The clock after the operations. -/
def clock (t0 : Nat) : List Op → Nat
  | [] => t0
  | .tick n :: ops => clock (t0 + n) ops
  | _ :: ops => clock t0 ops

/-- The session was issued with these values, and its token was not deleted since. -/
def Held (ttl t0 : Nat) (ops : List Op) (sess : Session) : Prop :=
  ∃ pre post lag,
    ops = pre ++ .Create sess.Username sess.IsAdmin sess.Token sess.CSRFToken lag :: post ∧
    .Delete sess.Token ∉ post ∧ sess.ExpiresAt = clock t0 pre - lag + ttl

theorem ledger_now (ops : List Op) : (run (Ledger.step ttl) l ops).now = clock l.now ops := by
  induction ops generalizing l with
  | nil => rfl
  | cons op ops ih =>
    rw [run_cons, ih]
    cases op <;> rfl

theorem held_append : Held ttl t0 (ops ++ [op]) sess ↔
    (Held ttl t0 ops sess ∧ op ≠ .Delete sess.Token) ∨
    ∃ lag, op = .Create sess.Username sess.IsAdmin sess.Token sess.CSRFToken lag ∧
      sess.ExpiresAt = clock t0 ops - lag + ttl := by
  constructor
  · rintro ⟨pre, post, lag, heq, hdel, hexp⟩
    rcases List.eq_nil_or_concat post with rfl | ⟨post, last, rfl⟩
    · obtain ⟨rfl, hop⟩ := List.append_inj' heq rfl
      exact .inr ⟨lag, by simpa using hop, hexp⟩
    · rw [List.concat_eq_append, ← List.cons_append, ← List.append_assoc] at heq
      obtain ⟨rfl, hop⟩ := List.append_inj' heq rfl
      simp only [List.cons.injEq, and_true] at hop
      subst hop
      simp only [List.concat_eq_append, List.mem_append, List.mem_singleton, not_or] at hdel
      exact .inl ⟨⟨pre, post, lag, rfl, hdel.1, hexp⟩, Ne.symm hdel.2⟩
  · rintro (⟨⟨pre, post, lag, rfl, hdel, hexp⟩, hop⟩ | ⟨lag, rfl, hexp⟩)
    · refine ⟨pre, post ++ [op], lag, by simp, ?_, hexp⟩
      simp only [List.mem_append, List.mem_singleton, not_or]
      exact ⟨hdel, Ne.symm hop⟩
    · exact ⟨ops, [], lag, rfl, List.not_mem_nil, hexp⟩

theorem Held.token_mem (h : Held ttl t0 ops sess) : sess.Token ∈ ops.filterMap Op.issues := by
  obtain ⟨pre, post, lag, rfl, -, -⟩ := h
  refine List.mem_filterMap.mpr ⟨_, List.mem_append_right _ List.mem_cons_self, rfl⟩

/-- The ledger holds what the history says, when no token is issued twice. -/
theorem ledger_held (hdistinct : (ops.filterMap Op.issues).Nodup) :
    (run (Ledger.step ttl) (.empty t0) ops).issued token = some sess ↔
      sess.Token = token ∧ Held ttl t0 ops sess := by
  induction ops using List.reverseRecOn generalizing token sess with
  | nil =>
    simp only [run_nil, Ledger.empty, reduceCtorEq, false_iff, not_and]
    rintro - ⟨pre, post, lag, heq, -⟩
    simp at heq
  | append_singleton ops op ih =>
    rw [List.filterMap_append, List.nodup_append] at hdistinct
    obtain ⟨hprev, -, hfresh⟩ := hdistinct
    have hlast : run (Ledger.step ttl) (.empty t0) (ops ++ [op]) =
        (run (Ledger.step ttl) (.empty t0) ops).step ttl op := by simp
    rw [hlast, held_append]
    cases op with
    | tick n => simpa [Ledger.step] using ih hprev
    | Get tok wait => simpa [Ledger.step] using ih hprev
    | gc lag => simpa [Ledger.step] using ih hprev
    | Delete tok =>
      simp only [Ledger.step, ne_eq, Op.Delete.injEq, reduceCtorEq, false_and, exists_const,
        or_false]
      by_cases htok : token = tok
      · subst htok
        simp only [Function.update_self, reduceCtorEq, false_iff]
        rintro ⟨rfl, -, hne⟩
        exact hne rfl
      · rw [Function.update_of_ne htok, ih hprev]
        constructor
        · rintro ⟨rfl, hheld⟩; exact ⟨rfl, hheld, Ne.symm htok⟩
        · rintro ⟨rfl, hheld, -⟩; exact ⟨rfl, hheld⟩
    | Create username isAdmin tok csrf lag =>
      have hnew : ∀ sess, Held ttl t0 ops sess → sess.Token ≠ tok := by
        intro sess hheld heq
        exact hfresh _ hheld.token_mem tok (by simp [Op.issues]) heq
      have hclock : (run (Ledger.step ttl) (.empty t0) ops).now = clock t0 ops := ledger_now ops
      simp only [Ledger.step, ne_eq, reduceCtorEq, not_false_eq_true, and_true, hclock]
      by_cases htok : token = tok
      · subst htok
        simp only [Function.update_self, Option.some.injEq]
        constructor
        · rintro rfl
          exact ⟨rfl, .inr ⟨lag, rfl, rfl⟩⟩
        · rintro ⟨htoken, hheld | ⟨lag', heq, hexp⟩⟩
          · exact absurd htoken (hnew sess hheld)
          · cases sess
            cases heq
            simp only at hexp
            rw [hexp]
      · rw [Function.update_of_ne htok, ih hprev]
        constructor
        · rintro ⟨rfl, hheld⟩; exact ⟨rfl, .inl hheld⟩
        · rintro ⟨rfl, hheld | ⟨lag', heq, -⟩⟩
          · exact ⟨rfl, hheld⟩
          · cases heq
            exact absurd rfl htok

/-- `Get` returns a session if and only if it was issued with that token, not deleted since, and
the time is not past its end; and sweeps put into the run or taken out of it change no answer. -/
theorem admits_iff_held (ttl t0 : Nat) (ops : List Op)
    (hdistinct : (ops.filterMap Op.issues).Nodup) :
    (∀ token wait sess,
      (run step (start ttl t0) ops).store.Get token ((run step (start ttl t0) ops).now + wait) =
          some sess ↔
        sess.Token = token ∧ Held ttl t0 ops sess ∧ clock t0 ops + wait ≤ sess.ExpiresAt) ∧
    ∀ ops', (ops'.filter fun op => !op.isGc) = (ops.filter fun op => !op.isGc) →
      answers (start ttl t0) ops' = answers (start ttl t0) ops := by
  constructor
  · intro token wait sess
    have href : Refines ttl (run step (start ttl t0) ops)
        (run (Ledger.step ttl) (.empty t0) ops) := refines_run refines_start ops
    rw [href.admits token _ (Nat.le_add_right _ _), admits_eq_some, ledger_held hdistinct, href.now,
      ledger_now, and_assoc]
    rfl
  · intro ops' hsame
    rw [answers_refines refines_start, answers_refines refines_start, ← answers_filter ttl _ ops',
      hsame, answers_filter]

/-- Two sessions, with sweeps; the first one is deleted. -/
def twoSessions : List Op :=
  [.Create "admin" true "t" "c" 0, .tick 2, .Create "anna" false "u" "d" 1, .gc 0, .Get "t" 0,
    .Delete "t", .tick 7, .gc 2, .Get "t" 0, .Get "u" 0]

/-- The second session is admitted at the moment it ends, and not later; the first one is not,
though it would not have ended yet. Without the sweeps the answers are the same. -/
theorem admits_two_sessions :
    (run step (start 8 0) twoSessions).store.Get "u" 9 = some ⟨"u", "anna", false, "d", 9⟩ ∧
    (run step (start 8 0) twoSessions).store.Get "u" 10 = none ∧
    (run step (start 9 0) twoSessions).store.Get "t" 9 = none ∧
    answers (start 8 0) (twoSessions.filter fun op => !op.isGc) =
      answers (start 8 0) twoSessions := by
  have hdistinct : (twoSessions.filterMap Op.issues).Nodup := by decide
  have hheld : Held 8 0 twoSessions ⟨"u", "anna", false, "d", 9⟩ :=
    ⟨twoSessions.take 2, twoSessions.drop 3, 1, rfl, by decide, rfl⟩
  have hboth := admits_iff_held 8 0 twoSessions hdistinct
  exact ⟨(hboth.1 "u" 0 _).mpr ⟨rfl, hheld, by decide⟩, rfl, rfl, hboth.2 _ (by decide)⟩

end Expiry
end Server
end Nasd
