import Nasd.System

/-!
# Nasd.Script

A succession of operations on the host, of which the first that fails ends it: commands, file writes
and renames, and commands whose failure is ignored. Code that stops at the first error carries out
such a script, up to the error.

* `performs`       — the host after a script, `none` when an operation of it failed.
* `performs_append`, `performs_must`, `performs_files` — its parts, its log and its files.
-/

namespace Nasd
namespace Sys

open Text

variable {σ : Type} {O : OS σ} {h h' : Host σ} {ops : List Op}

inductive Op where
  | must (c : Cmd)
  | may (c : Cmd)
  | write (path content : Str)
  | rename (old new : Str)

def Op.perform (O : OS σ) : Op → Host σ → Option (Host σ)
  | .must c, h => if (h.run O.run c).1.err = none then some (h.run O.run c).2 else none
  | .may c, h => some (h.run O.run c).2
  | .write path content, h =>
    match h.tryWrite O path content with
    | (.ok (), h) => some h
    | (.error _, _) => none
  | .rename old new, h =>
    match h.tryRename O old new with
    | (.ok (), h) => some h
    | (.error _, _) => none

variable {path content old new : Str} {c : Cmd}

theorem perform_must :
    (Op.must c).perform O h = some h' ↔
      (h.run O.run c).1.err = none ∧ h' = (h.run O.run c).2 := by
  rw [Op.perform]
  split
  · rename_i hok; simp [hok, eq_comm]
  · rename_i hbad; simp [hbad]

theorem perform_write (hop : (Op.write path content).perform O h = some h') :
    h'.files = Function.update h.files path (some content) ∧ h'.log = h.log := by
  simp only [Op.perform, Host.tryWrite] at hop
  cases hout : (O.write path content h.env).1 with
  | none =>
    simp only [hout, Option.some.injEq] at hop
    rw [← hop]
    exact ⟨rfl, rfl⟩
  | some e => simp [hout] at hop

theorem perform_rename (hop : (Op.rename old new).perform O h = some h') :
    ∃ t, h.files old = some t ∧
      h'.files = Function.update (Function.update h.files old none) new (some t) ∧
      h'.log = h.log := by
  simp only [Op.perform, Host.tryRename, Files.rename] at hop
  cases hout : (O.rename old new h.env).1 with
  | some e => simp [hout] at hop
  | none =>
    cases hold : h.files old with
    | none => simp [hout, hold] at hop
    | some t =>
      simp only [hout, hold, Option.some.injEq] at hop
      rw [← hop]
      exact ⟨t, rfl, rfl, rfl⟩

def performs (O : OS σ) : List Op → Host σ → Option (Host σ)
  | [], h => some h
  | op :: ops, h => (op.perform O h).bind (performs O ops)

@[simp] theorem performs_nil : performs O [] h = some h := rfl

theorem performs_cons {op : Op} :
    performs O (op :: ops) h = some h' ↔
      ∃ h₁, op.perform O h = some h₁ ∧ performs O ops h₁ = some h' := Option.bind_eq_some_iff

theorem performs_append {ops' : List Op} :
    performs O (ops ++ ops') h = some h' ↔
      ∃ h₁, performs O ops h = some h₁ ∧ performs O ops' h₁ = some h' := by
  induction ops generalizing h with
  | nil => simp
  | cons op ops ih =>
    simp only [List.cons_append, performs_cons, ih]
    constructor
    · rintro ⟨h₁, hop, h₂, hops, hrest⟩
      exact ⟨h₂, ⟨h₁, hop, hops⟩, hrest⟩
    · rintro ⟨h₂, ⟨h₁, hop, hops⟩, hrest⟩
      exact ⟨h₁, hop, h₂, hops, hrest⟩

/-! ## Log -/

def Op.cmd : Op → Option Cmd
  | .must c => some c
  | .may c => some c
  | _ => none

/-- An operation adds its own command to the log. -/
theorem perform_log {op : Op} (hop : op.perform O h = some h') :
    ∃ log, h'.log = h.log ++ log ∧ log.map (·.1) = op.cmd.toList := by
  cases op with
  | must c =>
    obtain ⟨-, rfl⟩ := perform_must.mp hop
    exact ⟨[_], rfl, rfl⟩
  | may c =>
    cases hop
    exact ⟨[_], rfl, rfl⟩
  | write path content => exact ⟨[], by simp [(perform_write hop).2], rfl⟩
  | rename old new =>
    obtain ⟨t, -, -, hlog⟩ := perform_rename hop
    exact ⟨[], by simp [hlog], rfl⟩

theorem performs_log (hops : performs O ops h = some h') :
    ∃ log, h'.log = h.log ++ log ∧ log.map (·.1) = ops.filterMap Op.cmd := by
  induction ops generalizing h with
  | nil => cases hops; exact ⟨[], by simp, rfl⟩
  | cons op ops ih =>
    obtain ⟨h₁, hop, hrest⟩ := performs_cons.mp hops
    obtain ⟨log, hlog, hcmd⟩ := perform_log hop
    obtain ⟨log', hlog', hcmds⟩ := ih hrest
    refine ⟨log ++ log', by rw [hlog', hlog, List.append_assoc], ?_⟩
    rw [List.map_append, hcmd, hcmds]
    cases hc : op.cmd <;> simp [hc]

/-- A command that must succeed has succeeded, and only the commands after it have run since. -/
theorem performs_must {ops' : List Op} (hops : performs O (ops ++ .must c :: ops') h = some h') :
    ∃ before r after, h'.log = h.log ++ before ++ (c, r) :: after ∧ r.err = none ∧
      after.map (·.1) = ops'.filterMap Op.cmd := by
  obtain ⟨h₁, hfirst, hrest⟩ := performs_append.mp hops
  obtain ⟨h₂, hmust, hlast⟩ := performs_cons.mp hrest
  obtain ⟨hok, rfl⟩ := perform_must.mp hmust
  obtain ⟨before, hbefore, -⟩ := performs_log hfirst
  obtain ⟨after, hafter, hcmds⟩ := performs_log hlast
  refine ⟨before, _, after, ?_, hok, hcmds⟩
  rw [hafter, Host.run_log, hbefore]
  simp

/-! ## Files -/

/-- The paths that an operation writes. -/
def Op.writes : Op → List Str
  | .write path _ => [path]
  | .rename old new => [old, new]
  | _ => []

theorem perform_files {op : Op} {q : Str} (hq : q ∉ op.writes) (hop : op.perform O h = some h') :
    h'.files q = h.files q := by
  cases op with
  | must c =>
    obtain ⟨-, rfl⟩ := perform_must.mp hop
    rfl
  | may c => cases hop; rfl
  | write path content =>
    have hne : q ≠ path := by simpa [Op.writes] using hq
    rw [(perform_write hop).1]
    exact Function.update_of_ne hne ..
  | rename old new =>
    have hne : q ≠ old ∧ q ≠ new := by simpa [Op.writes] using hq
    obtain ⟨t, -, hfiles, -⟩ := perform_rename hop
    rw [hfiles, Function.update_of_ne hne.2, Function.update_of_ne hne.1]

/-- A script leaves the files alone that none of its operations writes. -/
theorem performs_files {q : Str} (hq : ∀ op ∈ ops, q ∉ op.writes)
    (hops : performs O ops h = some h') : h'.files q = h.files q := by
  induction ops generalizing h with
  | nil => cases hops; rfl
  | cons op ops ih =>
    obtain ⟨h₁, hop, hrest⟩ := performs_cons.mp hops
    rw [ih (fun o ho => hq o (List.mem_cons_of_mem _ ho)) hrest,
      perform_files (hq op List.mem_cons_self) hop]

/-- What a script wrote last is there at its end. -/
theorem performs_written (ops : List Op) {ops' : List Op} (hq : ∀ op ∈ ops', path ∉ op.writes)
    (hops : performs O (ops ++ .write path content :: ops') h = some h') :
    h'.files path = some content := by
  obtain ⟨h₁, -, hrest⟩ := performs_append.mp hops
  obtain ⟨h₂, hwrite, hlast⟩ := performs_cons.mp hrest
  rw [performs_files hq hlast, (perform_write hwrite).1]
  exact Function.update_self ..

/-- Writing a file under another name and renaming it. -/
theorem performs_replace {tmp : Str}
    (hops : performs O [.write tmp content, .rename tmp path] h = some h') :
    h'.files path = some content := by
  obtain ⟨h₁, hwrite, hrest⟩ := performs_cons.mp hops
  obtain ⟨h₂, hrename, hend⟩ := performs_cons.mp hrest
  cases hend
  obtain ⟨t, hread, hfiles, -⟩ := perform_rename hrename
  have ht : t = content := by
    rw [(perform_write hwrite).1, Function.update_self] at hread
    exact (Option.some.inj hread).symm
  rw [hfiles, Function.update_self, ht]

end Sys
end Nasd
