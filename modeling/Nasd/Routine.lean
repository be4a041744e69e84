import Nasd.Lib.Prog
import Nasd.System

/-!
# Nasd.Routine

What a request does, as a program that other requests may get in between: it runs a command, reads
or writes a file, and reads or updates its row of the database. Each of these is one step.

* `Alone` — what a routine that nothing gets in between of comes to.
* `Quiet` — the commands that leave services and mounts as they are.
-/

namespace Nasd
namespace Sys

open Text Go

/-- `save` is a write whose outcome is ignored. An update comes with its error, if it has one. -/
inductive Action (ρ : Type) where
  | run (c : Cmd)
  | read (path : Str)
  | save (path content : Str)
  | write (path content : Str)
  | load
  | store (row : ρ) (error : Option Str)

variable {ρ σ α : Type}

def Action.Answer : Action ρ → Type
  | .run _ => Result
  | .read _ => Option Str
  | .save _ _ => Unit
  | .write _ _ => Except Str Unit
  | .load => ρ
  | .store _ _ => Option Str

/-- The row and the host. -/
structure Site (ρ σ : Type) where
  row : ρ
  host : Host σ

def perform (O : OS σ) : (a : Action ρ) → Site ρ σ → a.Answer × Site ρ σ
  | .run c, s => let out := s.host.run O.run c; (out.1, { s with host := out.2 })
  | .read path, s => (s.host.files path, s)
  | .save path content, s => ((), { s with host := s.host.writeFile path content })
  | .write path content, s =>
    let out := s.host.tryWrite O path content
    (out.1, { s with host := out.2 })
  | .load, s => (s.row, s)
  | .store row error, s => (error, if error.isNone then { s with row } else s)

abbrev Routine (ρ α : Type) := Prog (Action ρ) Action.Answer α

namespace Routine

def run (c : Cmd) : Routine ρ Result := Prog.act (Action.run c)
def read (path : Str) : Routine ρ (Option Str) := Prog.act (Action.read path)
def save (path content : Str) : Routine ρ Unit := Prog.act (Action.save path content)
def write (path content : Str) : Routine ρ (Except Str Unit) := Prog.act (Action.write path content)
def load : Routine ρ ρ := Prog.act Action.load
def store (row : ρ) (error : Option Str) : Routine ρ (Option Str) :=
  Prog.act (Action.store row error)

/-- A routine that nothing gets in between of comes to `out`, and leaves the row as it is. -/
def Alone (O : OS σ) (p : Routine ρ α) (h : Host σ) (out : α × Host σ) : Prop :=
  ∀ row, p.exec (perform O) ⟨row, h⟩ = (out.1, ⟨row, out.2⟩)

namespace Alone

variable {O : OS σ} {β : Type} {h : Host σ} {out : α × Host σ} {p : Routine ρ α}

theorem pure (x : α) (h : Host σ) : Alone O (pure x : Routine ρ α) h (x, h) := fun _ => rfl

theorem run (c : Cmd) (h : Host σ) : Alone O (run c : Routine ρ Result) h (h.run O.run c) :=
  fun _ => rfl

theorem read (path : Str) (h : Host σ) :
    Alone O (read path : Routine ρ (Option Str)) h (h.files path, h) := fun _ => rfl

theorem save (path content : Str) (h : Host σ) :
    Alone O (save path content : Routine ρ Unit) h ((), h.writeFile path content) := fun _ => rfl

theorem write (path content : Str) (h : Host σ) :
    Alone O (write path content : Routine ρ (Except Str Unit)) h (h.tryWrite O path content) :=
  fun _ => rfl

theorem bind {k : α → Routine ρ β} {out' : β × Host σ} (hp : Alone O p h out)
    (hk : Alone O (k out.1) out.2 out') : Alone O (p >>= k) h out' := by
  intro row
  rw [Prog.exec_bind, hp row]
  exact hk row

theorem ite {c : Prop} [Decidable c] {q : Routine ρ α} {out' : α × Host σ}
    (hp : Alone O p h out) (hq : Alone O q h out') :
    Alone O (if c then p else q) h (if c then out else out') := by
  split
  · exact hp
  · exact hq

end Alone

end Routine

/-! ## Commands -/

/-- The programs that `nasd` runs besides `mdadm`, `umount`, `systemctl`, `sh` and `systemd-run`. -/
def tools : List Str :=
  ["cat", "df", "blkid", "wipefs", "partprobe", "update-initramfs", "mkfs.ext4", "mkfs.ext3",
    "mkfs.btrfs", "mkfs.xfs", "mkdir", "rmdir", "mount", "resize2fs", "xfs_growfs", "btrfs",
    "groupadd", "id", "useradd", "usermod", "chown", "chmod", "setfacl", "runuser"]

/-- A command that starts no service, undoes no mount and stops no array. -/
inductive Quiet : Cmd → Prop where
  | tool {c : Cmd} (h : tools.contains c.name = true) : Quiet c
  | mdadm {mode : Str} {args : List Str} (h : mode ≠ "--stop") : Quiet ⟨"mdadm", mode :: args⟩
  | look (cmd : Str) : Quiet ⟨"sh", ["-c", "command -v " ++ cmd ++ " >/dev/null 2>&1"]⟩
  | apt {script : Str} (h : HasPrefix script "apt-get " = true ∨ HasPrefix script "dpkg " = true) :
      Quiet ⟨"systemd-run", ["--wait", "--collect", "--pipe", "--quiet", "--", "sh", "-c",
        "DEBIAN_FRONTEND=noninteractive " ++ script ++ " 2>&1"]⟩

end Sys
end Nasd
