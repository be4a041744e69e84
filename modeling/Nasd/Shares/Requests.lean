import Nasd.Lib.Pool
import Nasd.Lib.Run
import Nasd.Shares.Apply
import Nasd.Shares.Table

/-!
# Nasd.Shares.Requests

The handlers of the shares (`internal/api/handlers.go`) served at once. Each statement, each reading
of the table, each writing of a temporary file and each rename is one step of a request, and a list
of events is one interleaving. External commands succeed and leave the files and the table alone.

* `write_rename` — the two steps on a file are what `ApplyNFS` and `ApplySMB` do to it.
* `step_inv`         — what an orderly step preserves.
* `files_follow_table` — orderly runs leave the files as the table says.
-/

namespace Nasd
namespace Shares

open Text Go Sys Json Machine Pool

variable {U : PrintTable}

/-! ## Requests -/

/-- A request as the handlers read it: `none` for a body that is not a share, or for an id that is
not a number. -/
inductive Request where
  | create (body : Option Share)
  | update (id : Option Int) (body : Option (Share × Bool))
  | delete (id : Option Int) (confirm : Bool)

/-- A status code and the text that goes with it. -/
structure Reply where
  code : Nat
  text : Str
  deriving DecidableEq

inductive Stmt where
  | insert (s : ValidShare)
  | update (id : Int) (s : ValidShare)
  | delete (id : Int)

/-- The checks of `create`, `update` and `delete` before they touch the database. -/
def check : Request → Except Reply Stmt
  | .create none => .error ⟨400, "bad_request"⟩
  | .create (some s) =>
    match h : validateShare s with
    | .error e => .error ⟨422, e⟩
    | .ok () => .ok (.insert ⟨s, h⟩)
  | .update none _ => .error ⟨400, "bad_id"⟩
  | .update (some _) none => .error ⟨400, "bad_request"⟩
  | .update (some id) (some (s, confirm)) =>
    match h : validateShare s with
    | .error e => .error ⟨422, e⟩
    | .ok () =>
      if !s.enabled && !confirm then .error ⟨428, "confirmation_required"⟩
      else .ok (.update id ⟨s, h⟩)
  | .delete none _ => .error ⟨400, "bad_id"⟩
  | .delete (some id) confirm =>
    if confirm then .ok (.delete id) else .error ⟨428, "confirmation_required"⟩

def Stmt.exec : Stmt → Table → Table.Outcome
  | .insert s, t => t.insert s
  | .update id s, t => t.update id s
  | .delete id, t => t.delete id

def duplicateText (s : Share) : Str :=
  "esiste già una share '" ++ s.name ++ "' con protocollo " ++ s.protocol

def Stmt.conflict : Stmt → Reply
  | .insert s => ⟨409, duplicateText s.share⟩
  | .update _ s => ⟨409, duplicateText s.share⟩
  | .delete _ => ⟨500, []⟩

def Stmt.reply : Stmt → Reply
  | .insert _ => ⟨201, "created"⟩
  | .update _ _ => ⟨200, "updated"⟩
  | .delete _ => ⟨200, "deleted"⟩

def applyFailed (e : Str) : Reply := ⟨500, "apply_failed: " ++ e⟩

/-! ## Steps -/

inductive Target where
  | exports | samba
  deriving DecidableEq

def Target.path : Target → Str
  | .exports => exportsPath
  | .samba => includePath

/-- `ApplyNFS` and `ApplySMB` up to the writing of the file. -/
def Target.text (U : PrintTable) : Target → List Share → Except Str Str
  | .exports => exportsText U
  | .samba => smbText

/-- Where a request stands: what it does next, with the list it has read from the table. -/
inductive Phase where
  | statement (q : Stmt)
  | load (q : Stmt)
  | write (f : Target) (all : List Share) (q : Stmt)
  | rename (f : Target) (all : List Share) (q : Stmt)
  | done (r : Reply)

structure Disk where
  table : Table
  files : Files

def receive (q : Request) : Phase :=
  match check q with
  | .error r => .done r
  | .ok q => .statement q

/-- `reapply` goes from `ApplyNFS` to `ApplySMB`. -/
def Target.after (all : List Share) (q : Stmt) : Target → Phase
  | .exports => .write .samba all q
  | .samba => .done q.reply

def next (U : PrintTable) : Phase → Disk → Phase × Disk
  | .statement q, d =>
    match q.exec d.table with
    | .duplicate => (.done q.conflict, d)
    | .missing => (.done ⟨404, "not_found"⟩, d)
    | .changed t => (.load q, { d with table := t })
  | .load q, d => (.write .exports (loadShares d.table) q, d)
  | .write f all q, d =>
    match f.text U all with
    | .error e => (.done (applyFailed e), d)
    | .ok t =>
      (.rename f all q, { d with files := Function.update d.files (tmpOf f.path) (some t) })
  | .rename f all q, d =>
    match Files.rename (tmpOf f.path) f.path d.files with
    | .error e => (.done (applyFailed e), d)
    | .ok fs => (f.after all q, { d with files := fs })
  | .done r, d => (.done r, d)

abbrev Server := Pool.State Disk Phase

def step (U : PrintTable) : Server → Event Request → Server := Pool.step receive (next U)

def idle (table : Table) (files : Files) : Server := ⟨⟨table, files⟩, []⟩

/-- Writing and renaming with no step of another request in between is `ApplyNFS`, or `ApplySMB`,
when no command fails. -/
theorem write_rename (f : Target) (all : List Share) (q : Stmt) (d : Disk) {t : Str}
    (ht : f.text U all = .ok t) :
    let out := next U (.write f all q) d
    next U out.1 out.2 = (f.after all q, { d with files := afterApply f.path (.ok t) d.files }) := by
  have hread : Function.update d.files (tmpOf f.path) (some t) (tmpOf f.path) = some t :=
    Function.update_self ..
  simp only [next, ht, rename_written hread, afterApply, replaced, Function.update_idem]

/-! ## Files and table -/

/-- The file holds the rendering of the table. -/
def Current (U : PrintTable) (f : Target) (d : Disk) : Prop :=
  ∃ t, f.text U (loadShares d.table) = .ok t ∧ d.files f.path = some t

def InSync (U : PrintTable) (d : Disk) : Prop := ∀ f, Current U f d

/-- No request is in flight. -/
def Quiescent (s : Server) : Prop := ∀ p ∈ s.procs, ∃ r, p = .done r

/-- With no request in flight, both files are as the table says, unless no statement has changed the
table since the start. -/
def FilesFollow (U : PrintTable) (d₀ : Disk) (s : Server) : Prop :=
  Quiescent s → InSync U s.shared ∨ s.shared = d₀

/-- The list gives the file the text that the table gives it. -/
def Fresh (U : PrintTable) (f : Target) (table : Table) (all : List Share) : Prop :=
  f.text U all = f.text U (loadShares table)

/-- Neither generator refuses the list. -/
def Accepted (U : PrintTable) (all : List Share) : Prop := ∀ f, ∃ t, Target.text U f all = .ok t

/-- A request writes a temporary file only when no other one is about to rename it, and does not
write an older list's text while the file is up to date; the lists it reads are accepted. -/
def Orderly (U : PrintTable) (s : Server) : Event Request → Prop
  | .arrive _ => True
  | .advance i =>
    match s.procs[i]? with
    | some (.load _) => Accepted U (loadShares s.shared.table)
    | some (.write f all _) =>
      (∀ j all' q, ¬ At s j (.rename f all' q)) ∧
      (Fresh U f s.shared.table all ∨ ¬ Current U f s.shared)
    | _ => True

/-! ## Invariant -/

/-- The request is going to bring the file up to date. -/
def Pending (U : PrintTable) (f : Target) (table : Table) : Phase → Prop
  | .load _ => True
  | .write g all _ => (g = .exports ∨ g = f) ∧ Fresh U f table all
  | .rename g all _ => (g = .exports ∨ g = f) ∧ Fresh U f table all
  | _ => False

def Phase.Carries (all : List Share) : Phase → Prop
  | .write _ all' _ => all' = all
  | .rename _ all' _ => all' = all
  | _ => False

/-- The file is up to date and nobody is about to replace it. -/
def Settled (U : PrintTable) (f : Target) (s : Server) : Prop :=
  Current U f s.shared ∧ ∀ i all q, ¬ At s i (.rename f all q)

structure Inv (U : PrintTable) (s : Server) : Prop where
  accepted : ∀ i p all, At s i p → p.Carries all → Accepted U all
  holds : ∀ i f all q, At s i (.rename f all q) →
    ∃ t, f.text U all = .ok t ∧ s.shared.files (tmpOf f.path) = some t
  alone : ∀ i j f all q all' q', At s i (.rename f all q) → At s j (.rename f all' q') → i = j
  settled : ∀ f, (∃ i p, At s i p ∧ Pending U f s.shared.table p) ∨ Settled U f s

variable {s : Server} {d : Disk} {f g : Target} {all : List Share} {q : Stmt} {i : Nat} {p : Phase}

theorem Target.path_ne_tmp (f g : Target) : f.path ≠ tmpOf g.path := by
  cases f <;> cases g <;> decide

theorem Target.path_ne (h : f ≠ g) : f.path ≠ g.path := by
  cases f <;> cases g <;> first | exact absurd rfl h | decide

theorem Target.tmp_ne (h : f ≠ g) : tmpOf f.path ≠ tmpOf g.path := by
  cases f <;> cases g <;> first | exact absurd rfl h | decide

theorem Current.of_files {d' : Disk} (h : Current U f d) (ht : d'.table = d.table)
    (hf : d'.files f.path = d.files f.path) : Current U f d' := by
  simpa only [Current, ht, hf] using h

theorem replaced_path {path t : Str} {fs : Files} : replaced path t fs path = some t :=
  Function.update_self ..

theorem replaced_other {path path' t : Str} {fs : Files} (h : path' ≠ path)
    (htmp : path' ≠ tmpOf path) : replaced path t fs path' = fs path' := by
  rw [replaced, Function.update_of_ne h, Function.update_of_ne htmp]

/-- What a step has to show for the invariant: where the moving request goes, what it does to the
temporary files of the others, and who brings each file up to date. -/
theorem Inv.advance {out : Phase × Disk} (h : Inv U s) (hi : At s i p)
    (haccepted : ∀ all, out.1.Carries all → Accepted U all)
    (hholds : ∀ f all q, out.1 = .rename f all q →
      ∃ t, f.text U all = .ok t ∧ out.2.files (tmpOf f.path) = some t)
    (hkeep : ∀ j f all q, j ≠ i → At s j (.rename f all q) →
      out.2.files (tmpOf f.path) = s.shared.files (tmpOf f.path))
    (halone : ∀ f all q, out.1 = .rename f all q →
      ∀ j all' q', j ≠ i → ¬ At s j (.rename f all' q'))
    (hsettled : ∀ f, Pending U f out.2.table out.1 ∨
      (∃ j p, j ≠ i ∧ At s j p ∧ Pending U f out.2.table p) ∨ Settled U f (advance i out s)) :
    Inv U (advance i out s) where
  accepted j p' all hj hcarries := by
    rcases (at_advance hi).mp hj with ⟨-, rfl⟩ | ⟨-, hj⟩
    · exact haccepted all hcarries
    · exact h.accepted j p' all hj hcarries
  holds j f all q hj := by
    rcases (at_advance hi).mp hj with ⟨-, heq⟩ | ⟨hne, hj⟩
    · exact hholds f all q heq.symm
    · obtain ⟨t, ht, hfile⟩ := h.holds j f all q hj
      exact ⟨t, ht, (hkeep j f all q hne hj).trans hfile⟩
  alone j k f all q all' q' hj hk := by
    rcases (at_advance hi).mp hj with ⟨hji, heq⟩ | ⟨hji, hj'⟩
    · rcases (at_advance hi).mp hk with ⟨hki, -⟩ | ⟨hki, hk'⟩
      · rw [hji, hki]
      · exact absurd hk' (halone f all q heq.symm k all' q' hki)
    · rcases (at_advance hi).mp hk with ⟨hki, heq⟩ | ⟨-, hk'⟩
      · exact absurd hj' (halone f all' q' heq.symm j all q hji)
      · exact h.alone j k f all q all' q' hj' hk'
  settled f := by
    rcases hsettled f with hself | ⟨j, p', hne, hj, hpending⟩ | hsettled
    · exact .inl ⟨i, out.1, (at_advance hi).mpr (.inl ⟨rfl, rfl⟩), hself⟩
    · exact .inl ⟨j, p', (at_advance hi).mpr (.inr ⟨hne, hj⟩), hpending⟩
    · exact .inr hsettled

/-- Who is to bring a file up to date: the request whose turn it is, another one, or nobody. -/
theorem Inv.settled_at (h : Inv U s) (hi : At s i p) (f : Target) :
    Pending U f s.shared.table p ∨
      (∃ j p', j ≠ i ∧ At s j p' ∧ Pending U f s.shared.table p') ∨ Settled U f s := by
  rcases h.settled f with ⟨j, p', hj, hpending⟩ | hsettled
  · by_cases hji : j = i
    · subst hji
      rw [hj.unique hi] at hpending
      exact .inl hpending
    · exact .inr (.inl ⟨j, p', hji, hj, hpending⟩)
  · exact .inr (.inr hsettled)

/-- A step that only ends a request which had nothing to bring up to date. -/
theorem Inv.advance_done {r : Reply} (h : Inv U s) (hi : At s i p)
    (hidle : ∀ f, ¬ Pending U f s.shared.table p) : Inv U (Pool.advance i (.done r, s.shared) s) := by
  refine h.advance hi ?_ ?_ ?_ ?_ ?_
  · intro all hcarries; cases hcarries
  · intro f all q heq; cases heq
  · intro j f all q _ _; rfl
  · intro f all q heq; cases heq
  · intro f
    rcases h.settled_at hi f with hpending | hother | ⟨hcurrent, hnone⟩
    · exact absurd hpending (hidle f)
    · exact .inr (.inl hother)
    · refine .inr (.inr ⟨hcurrent, ?_⟩)
      intro j all q hj
      rcases (at_advance hi).mp hj with ⟨-, heq⟩ | ⟨-, hj⟩
      · cases heq
      · exact hnone j all q hj

theorem Inv.statement (h : Inv U s) (hi : At s i (.statement q)) :
    Inv U (Pool.advance i (next U (.statement q) s.shared) s) := by
  simp only [next]
  split
  · exact h.advance_done hi fun f hpending => hpending
  · exact h.advance_done hi fun f hpending => hpending
  · refine h.advance hi ?_ ?_ ?_ ?_ ?_
    · intro all hcarries; cases hcarries
    · intro f all q heq; cases heq
    · intro j f all q _ _; rfl
    · intro f all q heq; cases heq
    · intro f; exact .inl trivial

theorem Inv.load (h : Inv U s) (hi : At s i (.load q))
    (haccepted : Accepted U (loadShares s.shared.table)) :
    Inv U (Pool.advance i (next U (.load q) s.shared) s) := by
  refine h.advance hi ?_ ?_ ?_ ?_ ?_
  · rintro all rfl; exact haccepted
  · intro f all q heq; cases heq
  · intro j f all q _ _; rfl
  · intro f all q heq; cases heq
  · intro f; exact .inl ⟨.inl rfl, rfl⟩

theorem Inv.write (h : Inv U s) (hi : At s i (.write f all q))
    (hnone : ∀ j all' q, ¬ At s j (.rename f all' q))
    (hfresh : Fresh U f s.shared.table all ∨ ¬ Current U f s.shared) :
    Inv U (Pool.advance i (next U (.write f all q) s.shared) s) := by
  obtain ⟨t, ht⟩ := h.accepted i _ all hi rfl f
  simp only [next, ht]
  refine h.advance hi ?_ ?_ ?_ ?_ ?_
  · rintro all rfl; exact h.accepted i _ _ hi rfl
  · intro f' all' q' heq
    cases heq
    exact ⟨t, ht, Function.update_self ..⟩
  · intro j f' all' q' _ hj
    have hne : f' ≠ f := by rintro rfl; exact hnone j all' q' hj
    exact Function.update_of_ne (Target.tmp_ne hne) ..
  · intro f' all' q' heq j all'' q'' _
    cases heq
    exact hnone j all'' q''
  · intro g
    rcases h.settled_at hi g with hpending | hother | ⟨hcurrent, hg⟩
    · exact .inl hpending
    · exact .inr (.inl hother)
    · by_cases hgf : g = f
      · subst hgf
        rcases hfresh with hfresh | hstale
        · exact .inl ⟨.inr rfl, hfresh⟩
        · exact absurd hcurrent hstale
      · refine .inr (.inr ⟨?_, ?_⟩)
        · exact hcurrent.of_files rfl (Function.update_of_ne (Target.path_ne_tmp g f) ..)
        · intro j all' q' hj
          rcases (at_advance hi).mp hj with ⟨-, heq⟩ | ⟨-, hj⟩
          · cases heq; exact hgf rfl
          · exact hg j all' q' hj

theorem after_ne_rename {f g : Target} {all all' : List Share} {q q' : Stmt} :
    f.after all q ≠ .rename g all' q' := by
  cases f <;> intro h <;> cases h

theorem Inv.rename (h : Inv U s) (hi : At s i (.rename f all q)) :
    Inv U (Pool.advance i (next U (.rename f all q) s.shared) s) := by
  obtain ⟨t, ht, hfile⟩ := h.holds i f all q hi
  simp only [next, rename_written hfile]
  -- nobody is about to rename the file any more
  have hleft : ∀ d, ∀ j all' q', ¬ At (Pool.advance i (f.after all q, d) s) j (.rename f all' q') := by
    intro d j all' q' hj
    rcases (at_advance hi).mp hj with ⟨-, heq⟩ | ⟨hne, hj⟩
    · exact after_ne_rename heq.symm
    · exact hne (h.alone j i f all' q' all q hj hi)
  refine h.advance hi ?_ ?_ ?_ ?_ ?_
  · intro all' hcarries
    cases f with
    | exports => rw [← (hcarries : all = all')]; exact h.accepted i _ all hi rfl
    | samba => cases hcarries
  · intro f' all' q' heq; exact absurd heq after_ne_rename
  · intro j f' all' q' hne hj
    have hff : f' ≠ f := by rintro rfl; exact hne (h.alone j i f' all' q' all q hj hi)
    exact replaced_other (Target.path_ne_tmp f f').symm (Target.tmp_ne hff)
  · intro f' all' q' heq; exact absurd heq after_ne_rename
  · intro g
    rcases h.settled_at hi g with hpending | hother | ⟨hcurrent, hg⟩
    · by_cases hfg : f = g
      · subst hfg
        exact .inr (.inr ⟨⟨t, hpending.2 ▸ ht, replaced_path⟩, hleft _⟩)
      · cases f with
        | exports =>
          cases g with
          | exports => exact absurd rfl hfg
          | samba => exact .inl ⟨.inr rfl, hpending.2⟩
        | samba =>
          rcases hpending.1 with hbad | hbad
          · cases hbad
          · exact absurd hbad hfg
    · exact .inr (.inl hother)
    · have hgf : g ≠ f := by rintro rfl; exact hg i all q hi
      refine .inr (.inr ⟨?_, ?_⟩)
      · exact hcurrent.of_files rfl (replaced_other (Target.path_ne hgf) (Target.path_ne_tmp g f))
      · intro j all' q' hj
        rcases (at_advance hi).mp hj with ⟨-, heq⟩ | ⟨-, hj⟩
        · exact after_ne_rename heq.symm
        · exact hg j all' q' hj

theorem receive_cases (q : Request) : (∃ r, receive q = .done r) ∨ ∃ st, receive q = .statement st := by
  unfold receive
  split
  · exact .inl ⟨_, rfl⟩
  · exact .inr ⟨_, rfl⟩

theorem Inv.arrive (h : Inv U s) (q : Request) : Inv U (Pool.arrive (receive q) s) := by
  have hfrom : ∀ j p, At (Pool.arrive (receive q) s) j p →
      At s j p ∨ (∃ r, p = .done r) ∨ ∃ st, p = .statement st := by
    intro j p hj
    rcases at_arrive.mp hj with hj | ⟨-, rfl⟩
    · exact .inl hj
    · exact .inr (receive_cases q)
  have hback : ∀ {j f all q'}, At (Pool.arrive (receive q) s) j (.rename f all q') →
      At s j (.rename f all q') := by
    intro j f all q' hj
    rcases hfrom j _ hj with hj | ⟨r, hr⟩ | ⟨st, hst⟩
    · exact hj
    · cases hr
    · cases hst
  refine ⟨?_, ?_, ?_, ?_⟩
  · intro j p all hj hcarries
    rcases hfrom j p hj with hj | ⟨r, rfl⟩ | ⟨st, rfl⟩
    · exact h.accepted j p all hj hcarries
    · cases hcarries
    · cases hcarries
  · intro j f all q' hj
    exact h.holds j f all q' (hback hj)
  · intro j k f all q₁ all' q₂ hj hk
    exact h.alone j k f all q₁ all' q₂ (hback hj) (hback hk)
  · intro f
    rcases h.settled f with ⟨j, p, hj, hpending⟩ | ⟨hcurrent, hnone⟩
    · exact .inl ⟨j, p, at_arrive.mpr (.inl hj), hpending⟩
    · exact .inr ⟨hcurrent, fun j all q' hj => hnone j all q' (hback hj)⟩

theorem step_inv {e : Event Request} (h : Inv U s) (hg : Orderly U s e) : Inv U (step U s e) := by
  rcases step_cases receive (next U) s e with ⟨q, -, hs⟩ | ⟨i, p, rfl, hi, hs⟩ | ⟨i, -, hs⟩
  · rw [step, hs]; exact h.arrive q
  · rw [step, hs]
    have hget : s.procs[i]? = some p := hi
    cases p with
    | statement q => exact h.statement hi
    | load q =>
      simp only [Orderly, hget] at hg
      exact h.load hi hg
    | write f all q =>
      simp only [Orderly, hget] at hg
      exact h.write hi hg.1 hg.2
    | rename f all q => exact h.rename hi
    | done r => exact h.advance_done hi fun f hpending => hpending
  · rw [step, hs]; exact h

/-! ## Runs -/

/-- Nothing has changed the table or the files yet: every request is before its statement, or was
refused. -/
def Untouched (d₀ : Disk) (s : Server) : Prop :=
  s.shared = d₀ ∧ ∀ i p, At s i p → (∃ q, p = .statement q) ∨ ∃ r, p = .done r

theorem Untouched.step {d₀ : Disk} {e : Event Request} (h : Untouched d₀ s) :
    Untouched d₀ (step U s e) ∨ Inv U (step U s e) := by
  obtain ⟨hshared, hphase⟩ := h
  have hstay : ∀ {i p r}, At s i p → Untouched d₀ (Pool.advance i (.done r, s.shared) s) := by
    intro i p r hi
    refine ⟨hshared, ?_⟩
    intro j p' hj
    rcases (at_advance hi).mp hj with ⟨-, rfl⟩ | ⟨-, hj⟩
    · exact .inr ⟨r, rfl⟩
    · exact hphase j p' hj
  rcases step_cases receive (next U) s e with ⟨q, -, hs⟩ | ⟨i, p, rfl, hi, hs⟩ | ⟨i, -, hs⟩
  · left
    rw [Shares.step, hs]
    refine ⟨hshared, ?_⟩
    intro j p hj
    rcases at_arrive.mp hj with hj | ⟨-, rfl⟩
    · exact hphase j p hj
    · exact (receive_cases q).symm
  · rw [Shares.step, hs]
    rcases hphase i p hi with ⟨q, rfl⟩ | ⟨r, rfl⟩
    · simp only [next]
      split
      · exact .inl (hstay hi)
      · exact .inl (hstay hi)
      · rename_i t ht
        right
        have hother : ∀ {j p}, At (Pool.advance i (.load q, { s.shared with table := t }) s) j p →
            p = .load q ∨ (∃ q, p = .statement q) ∨ ∃ r, p = .done r := by
          intro j p hj
          rcases (at_advance hi).mp hj with ⟨-, rfl⟩ | ⟨-, hj⟩
          · exact .inl rfl
          · exact .inr (hphase j p hj)
        refine ⟨?_, ?_, ?_, ?_⟩
        · intro j p all hj hcarries
          rcases hother hj with rfl | ⟨q, rfl⟩ | ⟨r, rfl⟩ <;> cases hcarries
        · intro j f all q' hj
          rcases hother hj with hp | ⟨q, hp⟩ | ⟨r, hp⟩ <;> cases hp
        · intro j k f all q' all' q'' hj
          rcases hother hj with hp | ⟨q, hp⟩ | ⟨r, hp⟩ <;> cases hp
        · intro f
          exact .inl ⟨i, .load q, (at_advance hi).mpr (.inl ⟨rfl, rfl⟩), trivial⟩
    · exact .inl (hstay hi)
  · left
    rw [Shares.step, hs]
    exact ⟨hshared, hphase⟩

theorem Inv.inSync (h : Inv U s) (hq : Quiescent s) : InSync U s.shared := by
  intro f
  rcases h.settled f with ⟨i, p, hi, hpending⟩ | ⟨hcurrent, -⟩
  · obtain ⟨r, rfl⟩ := hq p hi.mem
    cases hpending
  · exact hcurrent

/-- In a run whose steps are all orderly, whenever no request is in flight both files are as the
table says, or no statement has changed the table yet. -/
theorem files_follow_table (U : PrintTable) (table : Table) (files : Files)
    (es : List (Event Request)) (hg : Guarded (step U) (Orderly U) (idle table files) es) :
    Always (step U) (FilesFollow U ⟨table, files⟩) (idle table files) es := by
  refine always_of_guarded (I := fun s => Untouched ⟨table, files⟩ s ∨ Inv U s) ?_ ?_ ?_ hg
  · intro s e h horderly
    rcases h with h | h
    · exact h.step
    · exact .inr (step_inv h horderly)
  · intro s h hquiet
    rcases h with h | h
    · exact .inr h.1
    · exact .inl (h.inSync hquiet)
  · left
    refine ⟨rfl, ?_⟩
    intro i p hi
    simp [At, idle] at hi

/-- An NFS share of that name, open to everyone. -/
def plain (name : Str) : Share := ⟨name, '/' :: name, NFS, false, [], [], true, none⟩

def noFiles : Files := fun _ => none

theorem not_rename_of_two {p p' : Phase} (hs : s.procs = [p, p'])
    (hp : ∀ all q, p ≠ .rename f all q) (hp' : ∀ all q, p' ≠ .rename f all q) :
    ∀ j all q, ¬ At s j (.rename f all q) := by
  intro j all q hj
  have hmem := hj.mem
  rw [hs, List.mem_cons, List.mem_singleton] at hmem
  rcases hmem with h | h
  · exact hp all q h.symm
  · exact hp' all q h.symm

/-- The second request changes the table while the first one is about to write, and reads it once
the first one has written the exports. -/
def overlapping : List (Event Request) :=
  [.arrive (.create (some (plain "a"))), .arrive (.create (some (plain "b"))), .advance 0,
    .advance 0, .advance 1, .advance 0, .advance 0, .advance 1, .advance 0, .advance 0, .advance 1,
    .advance 1, .advance 1, .advance 1]

theorem files_follow_two :
    Always (step .asciiOnly) (FilesFollow .asciiOnly ⟨.empty, noFiles⟩) (idle .empty noFiles)
      overlapping := by
  refine files_follow_table .asciiOnly .empty noFiles _
    ⟨trivial, trivial, trivial, ?_, trivial, ⟨?_, .inr ?_⟩, trivial, ?_, ⟨?_, .inl rfl⟩, trivial,
      ⟨?_, .inl rfl⟩, trivial, ⟨?_, .inl rfl⟩, trivial, trivial⟩
  · intro f; cases f <;> exact ⟨_, rfl⟩
  · exact not_rename_of_two rfl (by intro all q h; cases h) (by intro all q h; cases h)
  · rintro ⟨t, -, hfile⟩
    cases hfile
  · intro f; cases f <;> exact ⟨_, rfl⟩
  all_goals exact not_rename_of_two rfl (by intro all q h; cases h) (by intro all q h; cases h)

/-- The first request reads the table, the second one is served whole, the first one goes on. -/
def overtaken : List (Event Request) :=
  [.arrive (.create (some (plain "a"))), .arrive (.create (some (plain "b"))), .advance 0,
    .advance 0, .advance 1, .advance 1, .advance 1, .advance 1, .advance 1, .advance 1, .advance 0,
    .advance 0, .advance 0, .advance 0]

/-- Both requests succeed, and the share of the second one is not exported. -/
theorem overtaken_loses_share :
    ¬ Always (step .asciiOnly) (FilesFollow .asciiOnly ⟨.empty, noFiles⟩) (idle .empty noFiles)
      overtaken := by
  intro hall
  have hend := always_iff_prefix.mp hall overtaken [] (List.append_nil _).symm
  have hprocs : (run (step .asciiOnly) (idle .empty noFiles) overtaken).procs =
      [.done ⟨201, "created"⟩, .done ⟨201, "created"⟩] := rfl
  rcases hend (by intro p hp; rw [hprocs] at hp; simp at hp; exact ⟨_, hp⟩) with hsync | hsame
  · obtain ⟨t, htext, hfile⟩ := hsync .exports
    have hdiffer : (run (step .asciiOnly) (idle .empty noFiles) overtaken).shared.files exportsPath ≠
        (exportsText .asciiOnly (loadShares
          (run (step .asciiOnly) (idle .empty noFiles) overtaken).shared.table)).toOption := by
      decide
    refine hdiffer (hfile.trans ?_)
    have htext' : exportsText .asciiOnly (loadShares
        (run (step .asciiOnly) (idle .empty noFiles) overtaken).shared.table) = .ok t := htext
    rw [htext']
    rfl
  · have hchanges : (run (step .asciiOnly) (idle .empty noFiles) overtaken).shared.table.changes = 2 :=
      rfl
    rw [hsame] at hchanges
    cases hchanges

end Shares
end Nasd
