import Mathlib.Logic.Function.Basic
import Nasd.Go

/-!
# Nasd.System

The machine that `nasd` runs on, as the daemon's modules see it: external commands go through a
`Runner`, configuration files are read and written directly.

A `Runner` answers each command from a state `σ` of its own that the command may change, so it can
be any machine: commands may fail, and the same command may answer differently each time. `Host`
adds the files and a log of the commands run. The validators are the ones shared by every module.
-/

namespace Nasd
namespace Sys

open Text Go

/-- A command line: `Run(ctx, name, args...)`. -/
structure Cmd where
  name : Str
  args : List Str
  deriving DecidableEq

/-- What a command returns; `err` is `none` on success. -/
structure Result where
  stdout : Str
  stderr : Str
  err : Option Str
  deriving DecidableEq

abbrev Runner (σ : Type) := Cmd → σ → Result × σ

abbrev Files := Str → Option Str

/-- `os.Rename`, within one file system. -/
def Files.rename (old new : Str) (fs : Files) : Except Str Files :=
  match fs old with
  | none => .error ("rename " ++ old ++ " " ++ new ++ ": no such file or directory")
  | some t => .ok (Function.update (Function.update fs old none) new (some t))

/-- The state of the runner, the files by path, and the commands run so far with their answers. -/
structure Host (σ : Type) where
  env : σ
  files : Files
  log : List (Cmd × Result)

/-- The operating system, for code whose writes may fail as its commands may. A failed write gives
the error with what is left at the path; a rename that the system carries out moves the file. -/
structure OS (σ : Type) where
  run : Runner σ
  write : Str → Str → σ → Option (Str × Option Str) × σ
  rename : Str → Str → σ → Option Str × σ

/-- Every command, write and rename succeeds. -/
structure OS.Works {σ : Type} (O : OS σ) : Prop where
  run : ∀ c env, (O.run c env).1.err = none
  write : ∀ path content env, (O.write path content env).1 = none
  rename : ∀ old new env, (O.rename old new env).1 = none

/-- The system on which nothing fails and every command is silent. -/
def OS.faultless : OS Unit where
  run _ env := (⟨[], [], none⟩, env)
  write _ _ env := (none, env)
  rename _ _ env := (none, env)

theorem OS.faultless_works : faultless.Works := ⟨fun _ _ => rfl, fun _ _ _ => rfl, fun _ _ _ => rfl⟩

variable {σ : Type} {R : Runner σ} {O : OS σ}

namespace Host

/-- No command has been run yet. -/
def start (env : σ) (files : Files) : Host σ := ⟨env, files, []⟩

/-- `Runner.Run`. -/
def run (R : Runner σ) (c : Cmd) (h : Host σ) : Result × Host σ :=
  ((R c h.env).1, { h with env := (R c h.env).2, log := h.log ++ [(c, (R c h.env).1)] })

@[simp] theorem run_files (c : Cmd) (h : Host σ) : (run R c h).2.files = h.files := rfl
@[simp] theorem run_log (c : Cmd) (h : Host σ) :
    (run R c h).2.log = h.log ++ [(c, (run R c h).1)] := rfl

/-- `os.WriteFile`. -/
def writeFile (path content : Str) (h : Host σ) : Host σ :=
  { h with files := Function.update h.files path (some content) }

@[simp] theorem writeFile_log (p t : Str) (h : Host σ) : (writeFile p t h).log = h.log := rfl
@[simp] theorem writeFile_env (p t : Str) (h : Host σ) : (writeFile p t h).env = h.env := rfl
@[simp] theorem writeFile_self (p t : Str) (h : Host σ) :
    (writeFile p t h).files p = some t := Function.update_self ..

theorem writeFile_other {p q : Str} (hne : q ≠ p) (t : Str) (h : Host σ) :
    (writeFile p t h).files q = h.files q := Function.update_of_ne hne ..

/-- `os.WriteFile`, which may fail. -/
def tryWrite (O : OS σ) (path content : Str) (h : Host σ) : Except Str Unit × Host σ :=
  let out := O.write path content h.env
  match out.1 with
  | none => (.ok (), { h.writeFile path content with env := out.2 })
  | some (e, left) =>
    (.error e, { h with env := out.2, files := Function.update h.files path left })

/-- `os.Rename`, which may fail. -/
def tryRename (O : OS σ) (old new : Str) (h : Host σ) : Except Str Unit × Host σ :=
  let out := O.rename old new h.env
  match out.1 with
  | some e => (.error e, { h with env := out.2 })
  | none =>
    match Files.rename old new h.files with
    | .error e => (.error e, { h with env := out.2 })
    | .ok files => (.ok (), { h with env := out.2, files := files })

end Host

/-! ## Names of the kernel -/

/-- A partition is its disk's name and a number, with a `p` between them when the name of the disk
ends in a digit. -/
def IsPartitionOf (disk name : Str) : Bool :=
  let stem := if disk.getLast?.any Char.isDigit then disk ++ ['p'] else disk
  HasPrefix name stem && name.drop stem.length ≠ [] && (name.drop stem.length).all Char.isDigit

/-! ## Validators -/

/-- `^[a-z_][a-z0-9_-]{0,31}$` -/
def ValidUsername : Str → Bool
  | [] => false
  | c :: cs => (c.isLower || c = '_') && cs.length ≤ 31 &&
      cs.all fun c => c.isLower || c.isDigit || c = '_' || c = '-'

/-- `^[A-Za-z0-9 _.-]{1,80}$` -/
def ValidShareName (s : Str) : Bool :=
  s ≠ [] && s.length ≤ 80 &&
    s.all fun c => c.isAlphanum || c = ' ' || c = '_' || c = '.' || c = '-'

/-- `^/dev/[a-zA-Z0-9/]+$` -/
def ValidDevice (s : Str) : Bool :=
  HasPrefix s "/dev/" && s.drop 5 ≠ [] && (s.drop 5).all fun c => c.isAlphanum || c = '/'

/-- `^/dev/md[0-9]+$` -/
def ValidMDDevice (s : Str) : Bool :=
  HasPrefix s "/dev/md" && s.drop 7 ≠ [] && (s.drop 7).all Char.isDigit

end Sys
end Nasd
