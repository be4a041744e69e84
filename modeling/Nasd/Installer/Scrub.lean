import Mathlib.Data.List.DropRight
import Nasd.Go

/-!
# Nasd.Installer.Scrub

`scripts/scrub-disks.sh`, which the installer runs before partitioning: it wipes every disk that
it has not protected. Disks on the USB bus are protected, and so is the disk under the installation
medium, which is looked for through at most eight devices, always down the first slave.

The devices are a `Topology`: what the script reads from `/sys`, `/dev` and `/proc/mounts`, and what
is mounted, which it does not see. `writes` is the list of the devices that it writes to, in order.
-/

namespace Nasd
namespace Installer

open Text Go

structure Topology where
  /-- `/sys/block`, in the order of its globs. -/
  sysBlock : List Str
  /-- The block device nodes of `/dev`, in the order of its globs. -/
  dev : List Str
  /-- The path of the disk in `/sys` goes through the USB bus. -/
  usb : Str → Bool
  /-- The disk of a partition. -/
  parent : Str → Option Str
  slaves : Str → List Str
  /-- The size of a disk in sectors. -/
  size : Str → Option Nat
  procMounts : Str
  /-- `[ -b path ]` -/
  isBlock : Str → Bool
  /-- `readlink -f` -/
  realPath : Str → Str
  /-- The device of the file system that is seen at a directory, by the kernel's name. -/
  mountedFrom : Str → Option Str
  name_clean : ∀ n ∈ sysBlock, n ≠ [] ∧ ∀ c ∈ n, c ≠ ' '
  parent_mem : ∀ p d, parent p = some d → d ∈ sysBlock
  parent_disk : ∀ d ∈ sysBlock, parent d = none

variable (T : Topology)

/-! ## Protected names -/

/-- `sd*|vd*|nvme*` -/
def isDiskName (n : Str) : Bool := HasPrefix n "sd" || HasPrefix n "vd" || HasPrefix n "nvme"

/-- `/sys/block/sd* /sys/block/vd* /sys/block/nvme*` -/
def disks : List Str :=
  T.sysBlock.filter (HasPrefix · "sd") ++ T.sysBlock.filter (HasPrefix · "vd") ++
    T.sysBlock.filter (HasPrefix · "nvme")

def add_prot (n protectedNames : Str) : Str := protectedNames ++ " " ++ n ++ " "

def is_prot (n protectedNames : Str) : Bool :=
  Contains (" " ++ protectedNames ++ " ") (" " ++ n ++ " ")

def parent_disk (pn : Str) : Option Str :=
  match T.parent pn with
  | some d => some d
  | none => if isDiskName pn && pn ∈ T.sysBlock then some pn else none

/-- The loop of resolve_medium, with the number of tries left. -/
def resolve : Nat → Str → Str → Str
  | 0, _, prot => prot
  | tries + 1, kn, prot =>
    if isDiskName kn then
      match parent_disk T kn with
      | some pd => add_prot pd prot
      | none => prot
    else match (T.slaves kn).head? with
    | none => prot
    | some sl => resolve tries sl prot

/-- `${p##*/}` -/
def baseName (p : Str) : Str := p.rtakeWhile (· ≠ '/')

def resolve_medium (src prot : Str) : Str :=
  if T.isBlock src then resolve T 8 (baseName (T.realPath src)) prot else prot

def mediumMountPoints : List Str :=
  ["/cdrom", "/run/live/medium", "/lib/live/mount/medium", "/run/live/persistence"]

/-- `awk '$2==m{print $1; exit}'` -/
def sourceAt (mp : Str) : List Str → Option Str
  | [] => none
  | line :: rest =>
    match words isBlank line with
    | src :: field :: _ => if field = mp then some src else sourceAt mp rest
    | _ => sourceAt mp rest

def protectUSB : Str := ((disks T).filter T.usb).foldl (fun prot n => add_prot n prot) []

def protectMedium (prot mp : Str) : Str :=
  match sourceAt mp (lines T.procMounts) with
  | none => prot
  | some src => resolve_medium T src prot

def protect : Str := mediumMountPoints.foldl (protectMedium T) (protectUSB T)

/-! ## Writes -/

inductive Write where
  | zeroSuperblock (device : Str)
  | dd (device : Str)
  deriving DecidableEq

def Write.target : Write → Str
  | .zeroSuperblock p => p
  | .dd d => d

/-- What the script writes for one disk: `"$d"*`, the head of the disk, and its tail if it is large
enough. -/
def scrubDisk (n : Str) : List Write :=
  (T.dev.filter (HasPrefix · n)).map .zeroSuperblock ++ [.dd n] ++
    if (T.size n).any (40960 < ·) then [.dd n] else []

def scrubbed : List Str :=
  (disks T).filter fun n => n ∈ T.dev && !is_prot n (protect T)

def writes : List Write := (scrubbed T).flatMap (scrubDisk T)

end Installer
end Nasd
