import Mathlib.Data.Char
import Mathlib.Data.List.Lex
import Mathlib.Data.List.Sort
import Nasd.Go
import Nasd.Lib.Pool
import Nasd.Lib.Run

/-!
# Nasd.Config.Migrate

`Migrate` of `internal/config/config.go`, as `nasd` and `nasctl` call it on one database, each
statement a step of its own. A transaction works on the content that its first statement found and
is committed only if that is still the content of the database; any statement may fail besides.

The scripts act on the tables of the application; `schema_migrations` is `Migrate`'s own.

* `next`           — the next statement of a call.
* `statement_spec` — what one statement can do.
* `committed_once` — what the database holds in any state of any interleaving.
-/

namespace Nasd
namespace Config

open Text Go Machine Pool

variable {δ stmt : Type}

/-! ## Database -/

/-- The content of the database: whether `schema_migrations` is there and the versions in it, which
is its primary key, and the other tables. -/
structure Db (δ : Type) where
  tracking : Bool
  versions : List Str
  tables : δ
  deriving DecidableEq

/-- A transaction that has begun to read: what it found, and what it has made of it. -/
structure Tx (δ : Type) where
  base : Db δ
  view : Db δ

/-- The first statement of a transaction sees the content that is committed then. -/
def opened (tx : Option (Tx δ)) (d : Db δ) : Tx δ := tx.getD ⟨d, d⟩

structure Entry where
  name : Str
  isDir : Bool

/-- The directory of the migrations, the statements of each script, and what a statement does to the
tables. -/
structure Dir (δ stmt : Type) where
  path : Str
  entries : List Entry
  script : Str → List stmt
  exec : stmt → δ → Except Str δ

/-- The `.sql` files, by `sort.Strings`. -/
def sqlFiles (D : Dir δ stmt) : List Str :=
  ((D.entries.filter fun e => !e.isDir && HasSuffix e.name ".sql").map Entry.name).insertionSort
    (· ≤ ·)

/-! ## Migrate -/

/-- The error of a statement or of a file access; `os.IsNotExist` of it. -/
structure Failure where
  text : Str
  notExist : Bool

/-- Where a call of `Migrate` stands: before `CREATE TABLE`, `os.ReadDir`, the query for `f`,
`os.ReadFile`, `BEGIN`, the statements `rest` of the script, `INSERT`, `COMMIT` or `ROLLBACK`, with
the files `fs` after `f`; or it has returned. -/
inductive Phase (δ stmt : Type) where
  | create
  | readDir
  | query (f : Str) (fs : List Str)
  | readFile (f : Str) (fs : List Str)
  | begin (f : Str) (fs : List Str)
  | script (f : Str) (fs : List Str) (tx : Option (Tx δ)) (rest : List stmt)
  | insert (f : Str) (fs : List Str) (tx : Option (Tx δ))
  | commit (f : Str) (fs : List Str) (tx : Tx δ)
  | rollback (err : Str)
  | returned (err : Option Str)

/-- The loop over the files. -/
def loop : List Str → Phase δ stmt
  | [] => .returned none
  | f :: fs => .query f fs

def uniqueVersion : Str :=
  "constraint failed: UNIQUE constraint failed: schema_migrations.version (1555)"

def noSuchTable : Str := "SQL logic error: no such table: schema_migrations (1)"

def busy : Str := "database is locked (5) (SQLITE_BUSY)"

/-- The next statement, which fails when it is given a failure. -/
def statement [DecidableEq δ] (D : Dir δ stmt) (fail : Option Failure) (p : Phase δ stmt) (d : Db δ) :
    Phase δ stmt × Db δ :=
  match p, fail with
  | .create, some e => (.returned (some e.text), d)
  | .create, none => (.readDir, { d with tracking := true })
  | .readDir, some e =>
    (.returned (some (if e.notExist then "directory migrazioni non trovata: " ++ D.path else e.text)), d)
  | .readDir, none => (loop (sqlFiles D), d)
  -- the error of the query is ignored, and `exists` stays 0
  | .query f fs, some _ => (.readFile f fs, d)
  | .query f fs, none => (if d.tracking && f ∈ d.versions then loop fs else .readFile f fs, d)
  | .readFile _ _, some e => (.returned (some e.text), d)
  | .readFile f fs, none => (.begin f fs, d)
  | .begin _ _, some e => (.returned (some e.text), d)
  | .begin f fs, none => (.script f fs none (D.script f), d)
  | .script f fs tx [], _ => (.insert f fs tx, d)
  | .script f _ _ (_ :: _), some e => (.rollback ("migrazione " ++ f ++ ": " ++ e.text), d)
  | .script f fs tx (q :: rest), none =>
    let tx := opened tx d
    match D.exec q tx.view.tables with
    | .error e => (.rollback ("migrazione " ++ f ++ ": " ++ e), d)
    | .ok t => (.script f fs (some { tx with view := { tx.view with tables := t } }) rest, d)
  | .insert _ _ _, some e => (.rollback e.text, d)
  | .insert f fs tx, none =>
    let tx := opened tx d
    if !tx.view.tracking then (.rollback noSuchTable, d)
    else if f ∈ tx.view.versions then (.rollback uniqueVersion, d)
    else (.commit f fs { tx with view := { tx.view with versions := tx.view.versions ++ [f] } }, d)
  | .commit _ _ _, some e => (.returned (some e.text), d)
  | .commit _ fs tx, none => if d = tx.base then (loop fs, tx.view) else (.returned (some busy), d)
  | .rollback err, _ => (.returned (some err), d)
  | .returned err, _ => (.returned err, d)

/-- A call of `Migrate`, with the failures that its statements will meet. -/
structure Call (δ stmt : Type) where
  phase : Phase δ stmt
  fates : List (Option Failure)

def Migrate (fates : List (Option Failure)) : Call δ stmt := ⟨.create, fates⟩

def next [DecidableEq δ] (D : Dir δ stmt) (c : Call δ stmt) (d : Db δ) : Call δ stmt × Db δ :=
  let out := statement D (c.fates.headD none) c.phase d
  (⟨out.1, c.fates.tail⟩, out.2)

/-- Any number of calls, any of which may move next. -/
def migrations [DecidableEq δ] (D : Dir δ stmt) (d₀ : Db δ)
    (es : List (Event (List (Option Failure)))) : Pool.State (Db δ) (Call δ stmt) :=
  run (Pool.step Migrate (next D)) ⟨d₀, []⟩ es

/-! ## Effects of scripts -/

def runScript (D : Dir δ stmt) : List stmt → δ → Option δ
  | [], t => some t
  | q :: rest, t =>
    match D.exec q t with
    | .error _ => none
    | .ok t => runScript D rest t

/-- The scripts of the files, completely and one after the other. -/
def runScripts (D : Dir δ stmt) : List Str → δ → Option δ
  | [], t => some t
  | f :: fs, t => (runScript D (D.script f) t).bind (runScripts D fs)

theorem runScript_append {D : Dir δ stmt} {ran rest : List stmt} {t : δ} :
    runScript D (ran ++ rest) t = (runScript D ran t).bind (runScript D rest) := by
  induction ran generalizing t with
  | nil => rfl
  | cons q ran ih =>
    simp only [List.cons_append, runScript]
    cases D.exec q t with
    | error e => rfl
    | ok t => exact ih

theorem runScripts_append {D : Dir δ stmt} {fs : List Str} {f : Str} {t : δ} :
    runScripts D (fs ++ [f]) t = (runScripts D fs t).bind (runScript D (D.script f)) := by
  induction fs generalizing t with
  | nil =>
    simp only [List.nil_append, runScripts, Option.bind_some]
    cases runScript D (D.script f) t <;> rfl
  | cons g fs ih =>
    simp only [List.cons_append, runScripts, Option.bind_assoc]
    congr 1
    funext t
    exact ih

/-! ## One call -/

/-- The files before `f` are recorded. -/
def Past (D : Dir δ stmt) (d : Db δ) (fs : List Str) : Prop :=
  ∃ done, sqlFiles D = done ++ fs ∧ ∀ g ∈ done, g ∈ d.versions

/-- The transaction has run these statements on the content that it found. -/
structure Ran (D : Dir δ stmt) (ran : List stmt) (tx : Tx δ) : Prop where
  versions : tx.view.versions = tx.base.versions
  tables : runScript D ran tx.base.tables = some tx.view.tables

/-- The transaction has run the script of `f` up to `rest`. -/
def RanUpTo (D : Dir δ stmt) (f : Str) (rest : List stmt) : Option (Tx δ) → Prop
  | none => rest = D.script f
  | some tx => ∃ ran, D.script f = ran ++ rest ∧ Ran D ran tx

def PhaseInv (D : Dir δ stmt) (d : Db δ) : Phase δ stmt → Prop
  | .create | .readDir | .rollback _ => True
  | .query f fs | .readFile f fs | .begin f fs => Past D d (f :: fs)
  | .script f fs tx rest => Past D d (f :: fs) ∧ RanUpTo D f rest tx
  | .insert f fs tx => Past D d (f :: fs) ∧ RanUpTo D f [] tx
  | .commit f fs tx => Past D d (f :: fs) ∧ f ∉ tx.base.versions ∧
      tx.view.versions = tx.base.versions ++ [f] ∧
      runScript D (D.script f) tx.base.tables = some tx.view.tables
  | .returned err => err = none → ∀ f ∈ sqlFiles D, f ∈ d.versions

/-- What a statement does to the database: nothing to the versions and the tables, or it commits the
script of a file that is not recorded, of which all files before are. -/
inductive Change (D : Dir δ stmt) (d d' : Db δ) : Prop where
  | same (hv : d'.versions = d.versions) (ht : d'.tables = d.tables)
  | applied (f : Str) (fs : List Str) (hpast : Past D d (f :: fs)) (hnew : f ∉ d.versions)
      (hv : d'.versions = d.versions ++ [f])
      (ht : runScript D (D.script f) d.tables = some d'.tables)

variable {D : Dir δ stmt} {d d' d₀ : Db δ} {p : Phase δ stmt} {fail : Option Failure} {f : Str}
  {fs : List Str} {tx : Option (Tx δ)} {rest : List stmt}

theorem Change.refl : Change D d d := .same rfl rfl

theorem Change.mono (h : Change D d d') : ∀ f ∈ d.versions, f ∈ d'.versions := by
  intro f hf
  cases h with
  | same hv _ => rw [hv]; exact hf
  | applied g fs _ _ hv _ => rw [hv]; exact List.mem_append_left _ hf

theorem Past.mono (h : Past D d fs) (hle : ∀ f ∈ d.versions, f ∈ d'.versions) : Past D d' fs := by
  obtain ⟨done, hfiles, hdone⟩ := h
  exact ⟨done, hfiles, fun g hg => hle g (hdone g hg)⟩

theorem Past.next (h : Past D d (f :: fs)) (hf : f ∈ d.versions) : Past D d fs := by
  obtain ⟨done, hfiles, hdone⟩ := h
  refine ⟨done ++ [f], by rw [hfiles, List.append_assoc]; rfl, ?_⟩
  intro g hg
  rcases List.mem_append.mp hg with hg | hg
  · exact hdone g hg
  · rw [List.mem_singleton.mp hg]
    exact hf

theorem Past.loop (h : Past D d fs) : PhaseInv D d (loop fs) := by
  cases fs with
  | nil =>
    intro _ f hf
    obtain ⟨done, hfiles, hdone⟩ := h
    rw [hfiles, List.append_nil] at hf
    exact hdone f hf
  | cons f fs => exact h

/-- Other calls only add versions, so a call stands as it stood. -/
theorem PhaseInv.mono (h : PhaseInv D d p) (hle : ∀ f ∈ d.versions, f ∈ d'.versions) :
    PhaseInv D d' p := by
  cases p with
  | create => trivial
  | readDir => trivial
  | query f fs => exact Past.mono h hle
  | readFile f fs => exact Past.mono h hle
  | begin f fs => exact Past.mono h hle
  | script f fs tx rest => exact ⟨h.1.mono hle, h.2⟩
  | insert f fs tx => exact ⟨h.1.mono hle, h.2⟩
  | commit f fs tx => exact ⟨h.1.mono hle, h.2⟩
  | rollback err => trivial
  | returned err => exact fun hnil f hf => hle f (h hnil f hf)

theorem phaseInv_error {e : Str} : PhaseInv D d (.returned (some e)) := fun h => nomatch h

theorem RanUpTo.opened (h : RanUpTo D f rest tx) (d : Db δ) :
    ∃ ran, D.script f = ran ++ rest ∧ Ran D ran (opened tx d) := by
  cases tx with
  | none => exact ⟨[], h.symm, rfl, rfl⟩
  | some tx => exact h

/-- What one statement is to show: the call keeps its place, and the database is changed by a whole
script or not at all. -/
def Sound [DecidableEq δ] (D : Dir δ stmt) (fail : Option Failure) (p : Phase δ stmt) (d : Db δ) :
    Prop :=
  PhaseInv D (statement D fail p d).2 (statement D fail p d).1 ∧ Change D d (statement D fail p d).2

theorem script_sound [DecidableEq δ] (hpast : Past D d (f :: fs)) (hran : RanUpTo D f rest tx) :
    Sound D fail (.script f fs tx rest) d := by
  cases rest with
  | nil => cases fail <;> exact ⟨⟨hpast, hran⟩, .refl⟩
  | cons q rest =>
    cases fail with
    | some e => exact ⟨trivial, .refl⟩
    | none =>
      obtain ⟨ran, hscript, hv, ht⟩ := hran.opened d
      simp only [Sound, statement]
      cases hexec : D.exec q (opened tx d).view.tables with
      | error e => exact ⟨trivial, .refl⟩
      | ok t =>
        refine ⟨⟨hpast, ran ++ [q], by rw [hscript, List.append_assoc]; rfl, hv, ?_⟩, .refl⟩
        rw [runScript_append, ht, Option.bind_some, runScript, hexec]
        rfl

theorem insert_sound [DecidableEq δ] (hpast : Past D d (f :: fs)) (hran : RanUpTo D f [] tx) :
    Sound D fail (.insert f fs tx) d := by
  cases fail with
  | some e => exact ⟨trivial, .refl⟩
  | none =>
    obtain ⟨ran, hscript, hv, ht⟩ := hran.opened d
    rw [List.append_nil] at hscript
    simp only [Sound, statement]
    split
    · exact ⟨trivial, .refl⟩
    · split
      · exact ⟨trivial, .refl⟩
      · rename_i hnew
        rw [hv] at hnew
        refine ⟨⟨hpast, hnew, ?_, ?_⟩, .refl⟩
        · show (opened tx d).view.versions ++ [f] = _
          rw [hv]
        · rw [hscript]
          exact ht

theorem commit_sound [DecidableEq δ] {tx : Tx δ} (h : PhaseInv D d (.commit f fs tx)) :
    Sound D fail (.commit f fs tx) d := by
  obtain ⟨hpast, hnew, hv, ht⟩ := h
  cases fail with
  | some e => exact ⟨phaseInv_error, .refl⟩
  | none =>
    simp only [Sound, statement]
    split
    · rename_i hbase
      subst hbase
      have hchange : Change D tx.base tx.view := .applied f fs hpast hnew hv ht
      refine ⟨((hpast.mono hchange.mono).next ?_).loop, hchange⟩
      rw [hv]
      exact List.mem_append_right _ List.mem_cons_self
    · exact ⟨phaseInv_error, .refl⟩

/-- One statement of a call keeps its place, and changes the database as a whole script or not at
all. -/
theorem statement_spec [DecidableEq δ] (h : PhaseInv D d p) :
    PhaseInv D (statement D fail p d).2 (statement D fail p d).1 ∧
      Change D d (statement D fail p d).2 := by
  cases p with
  | create =>
    cases fail with
    | some e => exact ⟨phaseInv_error, .refl⟩
    | none => exact ⟨trivial, .same rfl rfl⟩
  | readDir =>
    cases fail with
    | some e => exact ⟨phaseInv_error, .refl⟩
    | none => exact ⟨Past.loop ⟨[], rfl, fun _ hg => absurd hg List.not_mem_nil⟩, .refl⟩
  | query f fs =>
    cases fail with
    | some e => exact ⟨h, .refl⟩
    | none =>
      refine ⟨?_, .refl⟩
      simp only [statement]
      split
      · rename_i hexists
        rw [Bool.and_eq_true, decide_eq_true_eq] at hexists
        exact (Past.next h hexists.2).loop
      · exact h
  | readFile f fs =>
    cases fail with
    | some e => exact ⟨phaseInv_error, .refl⟩
    | none => exact ⟨h, .refl⟩
  | begin f fs =>
    cases fail with
    | some e => exact ⟨phaseInv_error, .refl⟩
    | none => exact ⟨⟨h, rfl⟩, .refl⟩
  | script f fs tx rest => exact script_sound h.1 h.2
  | insert f fs tx => exact insert_sound h.1 h.2
  | commit f fs tx => exact commit_sound h
  | rollback err => cases fail <;> exact ⟨phaseInv_error, .refl⟩
  | returned err => cases fail <;> exact ⟨h, .refl⟩

/-! ## Any number of calls -/

/-- Since `d₀` the scripts of `new` were run, each completely and once, and recorded. -/
structure Applied (D : Dir δ stmt) (d₀ d : Db δ) (new : List Str) : Prop where
  versions : d.versions = d₀.versions ++ new
  once : new.Nodup
  fresh : ∀ f ∈ new, f ∈ sqlFiles D ∧ f ∉ d₀.versions
  tables : runScripts D new d₀.tables = some d.tables

/-- The versions are those of the first files. -/
def FirstFiles (D : Dir δ stmt) (d : Db δ) : Prop :=
  ∃ k, ∀ f, f ∈ d.versions ↔ f ∈ (sqlFiles D).take k

structure Inv (D : Dir δ stmt) (d₀ : Db δ) (s : Pool.State (Db δ) (Call δ stmt)) : Prop where
  applied : ∃ new, Applied D d₀ s.shared new
  first : FirstFiles D d₀ → FirstFiles D s.shared
  calls : ∀ i c, At s i c → PhaseInv D s.shared c.phase

theorem Change.keeps_applied (h : Change D d d') {new : List Str} (ha : Applied D d₀ d new) :
    ∃ new', Applied D d₀ d' new' := by
  cases h with
  | same hv ht => exact ⟨new, hv.trans ha.versions, ha.once, ha.fresh, by rw [ht]; exact ha.tables⟩
  | applied f fs hpast hnew hv ht =>
    rw [ha.versions, List.mem_append, not_or] at hnew
    obtain ⟨done, hfiles, -⟩ := hpast
    refine ⟨new ++ [f], ?_, ?_, ?_, ?_⟩
    · rw [hv, ha.versions, List.append_assoc]
    · rw [List.nodup_append]
      refine ⟨ha.once, List.nodup_singleton _, ?_⟩
      intro g hg g' hg' heq
      rw [List.mem_singleton.mp hg'] at heq
      exact hnew.2 (heq ▸ hg)
    · intro g hg
      rcases List.mem_append.mp hg with hg | hg
      · exact ha.fresh g hg
      · rw [List.mem_singleton.mp hg]
        exact ⟨by rw [hfiles]; simp, hnew.1⟩
    · rw [runScripts_append, ha.tables]
      exact ht

/-- A script is committed after all the files before it, so it is the next of the first files. -/
theorem Change.keeps_first (h : Change D d d') (hfirst : FirstFiles D d) : FirstFiles D d' := by
  obtain ⟨k, hk⟩ := hfirst
  cases h with
  | same hv _ => exact ⟨k, by rw [hv]; exact hk⟩
  | applied f fs hpast hnew hv _ =>
    obtain ⟨done, hfiles, hdone⟩ := hpast
    have hle : k ≤ done.length := by
      by_contra hlt
      refine hnew ((hk f).mpr ?_)
      obtain ⟨j, hj⟩ : ∃ j, k = done.length + 1 + j := ⟨k - (done.length + 1), by omega⟩
      rw [hfiles, hj, Nat.add_assoc, List.take_length_add_append, Nat.add_comm 1 j,
        List.take_succ_cons]
      exact List.mem_append_right _ List.mem_cons_self
    have hmem : ∀ g, g ∈ d.versions ↔ g ∈ done := by
      intro g
      refine ⟨fun hg => ?_, hdone g⟩
      rw [hk g, hfiles, List.take_append_of_le_length hle] at hg
      exact List.mem_of_mem_take hg
    refine ⟨done.length + 1, ?_⟩
    intro g
    rw [hv, hfiles, List.take_length_add_append, List.take_succ_cons, List.take_zero,
      List.mem_append, List.mem_append, hmem g]

theorem step_inv [DecidableEq δ] {s : Pool.State (Db δ) (Call δ stmt)} (h : Inv D d₀ s)
    (e : Event (List (Option Failure))) : Inv D d₀ (Pool.step Migrate (next D) s e) := by
  obtain ⟨⟨new, ha⟩, hfirst, hcalls⟩ := h
  rcases Pool.step_cases Migrate (next D) s e with ⟨fates, -, hs⟩ | ⟨i, c, -, hat, hs⟩ | ⟨i, -, hs⟩
  · rw [hs]
    refine ⟨⟨new, ha⟩, hfirst, ?_⟩
    intro j c hc
    rcases Pool.at_arrive.mp hc with hc | ⟨-, rfl⟩
    · exact hcalls j c hc
    · trivial
  · rw [hs]
    obtain ⟨hphase, hchange⟩ := statement_spec (hcalls i c hat)
    refine ⟨hchange.keeps_applied ha, fun h₀ => hchange.keeps_first (hfirst h₀), ?_⟩
    intro j c' hc'
    rcases (Pool.at_advance hat).mp hc' with ⟨-, rfl⟩ | ⟨-, hc'⟩
    · exact hphase
    · exact (hcalls j c' hc').mono hchange.mono
  · rw [hs]
    exact ⟨⟨new, ha⟩, hfirst, hcalls⟩

theorem run_inv [DecidableEq δ] (es : List (Event (List (Option Failure)))) :
    Inv D d₀ (migrations D d₀ es) := by
  have hstart : Inv D d₀ ⟨d₀, []⟩ := by
    refine ⟨⟨[], ?_⟩, id, ?_⟩
    · exact ⟨(List.append_nil _).symm, List.nodup_nil, fun _ hf => absurd hf List.not_mem_nil, rfl⟩
    · intro i c hc
      simp [At] at hc
  have hall : Always (Pool.step Migrate (next D)) (Inv D d₀) ⟨d₀, []⟩ es :=
    always_of_guarded (I := Inv D d₀) (G := fun _ _ => True) (fun s e hs _ => step_inv hs e)
      (fun _ hs => hs) hstart (guarded_of_forall (fun _ _ => trivial) _ es)
  exact always_iff_prefix.mp hall es [] (List.append_nil _).symm

/-- In every state of any number of interleaved calls: the tables are what the scripts recorded
since the start make of the tables then, each run completely and once; the versions recorded are
those of the first files if they were at the start; and a call that has returned `nil` leaves every
file recorded. -/
theorem committed_once [DecidableEq δ] (D : Dir δ stmt) (d₀ : Db δ)
    (es : List (Event (List (Option Failure)))) :
    (∃ new, Applied D d₀ (migrations D d₀ es).shared new) ∧
    (FirstFiles D d₀ → FirstFiles D (migrations D d₀ es).shared) ∧
    ∀ i fates, At (migrations D d₀ es) i ⟨.returned none, fates⟩ →
      ∀ f ∈ sqlFiles D, f ∈ (migrations D d₀ es).shared.versions := by
  have hinv : Inv D d₀ (migrations D d₀ es) := run_inv es
  exact ⟨hinv.applied, hinv.first, fun i fates hat => hinv.calls i _ hat rfl⟩

/-- One script that adds a number to a list. -/
def oneScript : Dir (List Nat) Nat where
  path := "/usr/share/nasd/migrations"
  entries := [⟨"0001_init.sql", false⟩, ⟨"README", false⟩]
  script _ := [1]
  exec q t := .ok (t ++ [q])

/-- `nasd` and `nasctl` both find the script missing; the second one to commit is turned away. -/
example : (migrations oneScript ⟨false, [], []⟩ ([.arrive [], .arrive []] ++
    (List.range 9).flatMap fun _ => [.advance 0, .advance 1])).shared =
      ⟨true, ["0001_init.sql"], [1]⟩ := by decide +kernel

end Config
end Nasd
