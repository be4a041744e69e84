import Nasd.Raid.Edits

/-!
# Nasd.Raid.Filesystem

The filesystem of an array: formatting, mounting, unmounting and wiping in `internal/raid/raid.go`,
with the lines of `/etc/fstab`, and the handlers of `internal/api/handlers.go` that call them.

`mountNew` and `mountExisting` are `CreateFilesystem` and `MountOnly` up to the line of
`/etc/fstab`.
-/

namespace Nasd
namespace Raid

open Text Go Sys

variable {σ : Type}

/-! ## Commands -/

def commandV (cmd : Str) : Cmd := ⟨"sh", ["-c", "command -v " ++ cmd ++ " >/dev/null 2>&1"]⟩

/-- A script run outside the sandbox of `nasd`. -/
def apt (script : Str) : Cmd where
  name := "systemd-run"
  args := ["--wait", "--collect", "--pipe", "--quiet", "--", "sh", "-c",
    "DEBIAN_FRONTEND=noninteractive " ++ script ++ " 2>&1"]

def mkdir (path : Str) : Cmd := ⟨"mkdir", ["-p", path]⟩
def rmdir (path : Str) : Cmd := ⟨"rmdir", [path]⟩

def mount (fsType device mountPoint : Str) : Cmd where
  name := "mount"
  args := if fsType ≠ [] then ["-t", fsType, device, mountPoint] else [device, mountPoint]

def blkid (device : Str) : Cmd := ⟨"blkid", ["-s", "UUID", "-o", "value", device]⟩

/-- Commands one after another, each with the text before its error; the first that fails ends
them. -/
def runEach (R : Runner σ) : List (Cmd × Str) → Host σ → Except Str Unit × Host σ
  | [], h => (.ok (), h)
  | (c, what) :: rest, h =>
    let out := h.run R c
    match out.1.err with
    | some e => (.error (what ++ e), out.2)
    | none => runEach R rest out.2

/-! ## Formatting -/

/-- The command that formats, and its option that forces it. -/
def validFS (fsType : Str) : Option (Str × Str) :=
  if fsType = "ext4" then some ("mkfs.ext4", "-F")
  else if fsType = "ext3" then some ("mkfs.ext3", "-F")
  else if fsType = "btrfs" then some ("mkfs.btrfs", "-f")
  else if fsType = "xfs" then some ("mkfs.xfs", "-f")
  else none

/-- The filesystems that can be made. -/
theorem validFS_cases {fsType cmd flag : Str} (h : validFS fsType = some (cmd, flag)) :
    (fsType = "ext4" ∧ cmd = "mkfs.ext4") ∨ (fsType = "ext3" ∧ cmd = "mkfs.ext3") ∨
      (fsType = "btrfs" ∧ cmd = "mkfs.btrfs") ∨ (fsType = "xfs" ∧ cmd = "mkfs.xfs") := by
  unfold validFS at h
  split at h
  · cases h
    exact .inl ⟨by assumption, rfl⟩
  · split at h
    · cases h
      exact .inr (.inl ⟨by assumption, rfl⟩)
    · split at h
      · cases h
        exact .inr (.inr (.inl ⟨by assumption, rfl⟩))
      · split at h
        · cases h
          exact .inr (.inr (.inr ⟨by assumption, rfl⟩))
        · cases h

def mkfsPkg (fsType : Str) : Str :=
  if fsType = "ext4" ∨ fsType = "ext3" then "e2fsprogs"
  else if fsType = "btrfs" then "btrfs-progs"
  else if fsType = "xfs" then "xfsprogs"
  else []

def has (R : Runner σ) (cmd : Str) (h : Host σ) : Bool × Host σ :=
  let out := h.run R (commandV cmd)
  (out.1.err.isNone, out.2)

/-- Installing the package, after an update of the package lists when the first try does not help;
then the command is looked for once more. -/
def install (R : Runner σ) (cmd pkg : Str) (h : Host σ) : Bool × Host σ :=
  let script := "apt-get install -y --no-install-recommends " ++ pkg
  let found := has R cmd (h.run R (apt script)).2
  if found.1 then has R cmd found.2
  else has R cmd (found.2.run R (apt ("apt-get update -y; " ++ script))).2

def ensureMkfs (R : Runner σ) (cmd fsType : Str) (h : Host σ) : Except Str Unit × Host σ :=
  let found := has R cmd h
  let pkg := mkfsPkg fsType
  if found.1 then (.ok (), found.2)
  else if pkg = [] then
    (.error (cmd ++ " non trovato e nessun pacchetto noto per il filesystem " ++ fsType), found.2)
  else
    let installed := install R cmd pkg found.2
    if installed.1 then (.ok (), installed.2)
    else (.error (cmd ++ " non disponibile: installazione del pacchetto " ++ pkg ++
      " fallita (serve connessione di rete)"), installed.2)

/-! ## Lines of fstab -/

/-- The device by the UUID of its filesystem, when it has one. -/
def fstabSource (R : Runner σ) (device : Str) (h : Host σ) : Str × Host σ :=
  let out := h.run R (blkid device)
  match out.1.err with
  | some _ => (device, out.2)
  | none =>
    let uuid := TrimSpace out.1.stdout
    (if uuid ≠ [] then "UUID=" ++ uuid else device, out.2)

def fstabEntry (src mountPoint fsType : Str) : Str :=
  src ++ "\t" ++ mountPoint ++ "\t" ++ fsType ++ "\tnofail,x-systemd.device-timeout=10s\t0\t0"

def fstabAdd (R : Runner σ) (device mountPoint fsType : Str) (h : Host σ) : Host σ :=
  let src := fstabSource R device h
  let entry := fstabEntry src.1 mountPoint fsType
  match src.2.files fstab with
  | none => src.2
  | some data =>
    if entry ∈ (lines data).map TrimSpace then src.2
    else src.2.writeFile fstab (data ++ entry ++ "\n")

def fstabMountPoint (device : Str) (h : Host σ) : Str :=
  match h.files fstab with
  | none => []
  | some data => mountPointOf device (lines data)

/-! ## Operations -/

def validMountPoint (mountPoint : Str) : Bool :=
  HasPrefix mountPoint "/" && !ContainsAny mountPoint "\n\r\x00\"'`"

def mountOps (fsType mdDevice mountPoint : Str) : List (Cmd × Str) :=
  [(mkdir mountPoint, "mkdir fallito: "), (mount fsType mdDevice mountPoint, "mount fallito: ")]

def mountNew (R : Runner σ) (mdDevice fsType mountPoint : Str) (h : Host σ) :
    Except Str Unit × Host σ :=
  if !ValidMDDevice mdDevice then (.error ("device md non valido: " ++ mdDevice), h)
  else match validFS fsType with
  | none => (.error ("filesystem non supportato: " ++ fsType), h)
  | some (cmd, flag) =>
    if !validMountPoint mountPoint then (.error ("mount point non valido: " ++ mountPoint), h)
    else
      let ready := ensureMkfs R cmd fsType h
      match ready.1 with
      | .error e => (.error e, ready.2)
      | .ok () =>
        runEach R ((⟨cmd, [flag, mdDevice]⟩, "mkfs fallito: ") :: mountOps fsType mdDevice mountPoint)
          ready.2

def CreateFilesystem (R : Runner σ) (mdDevice fsType mountPoint : Str) (h : Host σ) :
    Except Str Unit × Host σ :=
  let mounted := mountNew R mdDevice fsType mountPoint h
  match mounted.1 with
  | .error e => (.error e, mounted.2)
  | .ok () => (.ok (), fstabAdd R mdDevice mountPoint fsType mounted.2)

def mountExisting (R : Runner σ) (mdDevice fsType mountPoint : Str) (h : Host σ) :
    Except Str Unit × Host σ :=
  if !ValidMDDevice mdDevice then (.error ("device md non valido: " ++ mdDevice), h)
  else if !validMountPoint mountPoint then (.error ("mount point non valido: " ++ mountPoint), h)
  else runEach R (mountOps fsType mdDevice mountPoint) h

def MountOnly (R : Runner σ) (mdDevice fsType mountPoint : Str) (h : Host σ) :
    Except Str Unit × Host σ :=
  let mounted := mountExisting R mdDevice fsType mountPoint h
  match mounted.1 with
  | .error e => (.error e, mounted.2)
  | .ok () => (.ok (), fstabAdd R mdDevice mountPoint fsType mounted.2)

def UnmountFilesystem (R : Runner σ) (mountPoint : Str) (h : Host σ) : Except Str Unit × Host σ :=
  if !validMountPoint mountPoint then (.error "mount point non valido", h)
  else
    let unmounted := runEach R [(umount mountPoint, "umount fallito: ")] h
    match unmounted.1 with
    | .error e => (.error e, unmounted.2)
    | .ok () => (.ok (), fstabRemove mountPoint unmounted.2)

/-- The mount point whose line WipeFilesystem removes: the mounted one, which is unmounted first,
else that of the device's line in fstab, else the folder that the interface proposes. -/
def wipedMountPoint (R : Runner σ) (mdDevice : Str) (h : Host σ) : Except Str Str × Host σ :=
  let mp := findMountPoint R mdDevice h
  if mp.1 ≠ [] then
    let unmounted := runEach R [(umount mdDevice, "umount fallito: ")] mp.2
    match unmounted.1 with
    | .error e => (.error e, unmounted.2)
    | .ok () => (.ok mp.1, unmounted.2)
  else if fstabMountPoint mdDevice mp.2 ≠ [] then (.ok (fstabMountPoint mdDevice mp.2), mp.2)
  else (.ok ("/srv/nas/" ++ TrimPrefix mdDevice "/dev/"), mp.2)

def WipeFilesystem (R : Runner σ) (mdDevice : Str) (h : Host σ) : Except Str Unit × Host σ :=
  if !ValidMDDevice mdDevice then (.error ("device md non valido: " ++ mdDevice), h)
  else
    let mp := wipedMountPoint R mdDevice h
    match mp.1 with
    | .error e => (.error e, mp.2)
    | .ok mountPoint =>
      let wiped := runEach R [(wipefs mdDevice, "wipefs fallito: ")] (fstabRemove mountPoint mp.2)
      match wiped.1 with
      | .error e => (.error e, wiped.2)
      | .ok () =>
        if HasPrefix mountPoint "/" ∧ mountPoint ≠ "/" then
          (.ok (), (wiped.2.run R (rmdir mountPoint)).2)
        else (.ok (), wiped.2)

/-! ## Handlers -/

structure MountBody where
  fstype : Str
  mount_point : Str
  confirm : Bool
  deriving DecidableEq

structure UnmountBody where
  mount_point : Str
  confirm : Bool
  deriving DecidableEq

/-- The requests on one array, by the parameter `md` of the path: a body, `none` when it cannot be
decoded, or the query's `confirm`. -/
inductive Action where
  | createFilesystem (body : Option MountBody)
  | mountFilesystem (body : Option MountBody)
  | unmountFilesystem (body : Option UnmountBody)
  | deleteFilesystem (confirm : Str)
  | deleteArray (confirm : Str)
  deriving DecidableEq

structure Request where
  md : Str
  action : Action
  deriving DecidableEq

def Request.device (q : Request) : Str := "/dev/" ++ q.md

structure Reply where
  code : Nat
  text : Str
  deriving DecidableEq

def reply (code : Nat) (text : Str) (out : Except Str Unit × Host σ) : Reply × Host σ :=
  match out.1 with
  | .error e => (⟨422, e⟩, out.2)
  | .ok () => (⟨code, text⟩, out.2)

def confirmationRequired : Reply := ⟨428, "confirmation_required"⟩

def handle (R : Runner σ) (q : Request) (h : Host σ) : Reply × Host σ :=
  match q.action with
  | .createFilesystem none => (⟨400, "bad_request"⟩, h)
  | .createFilesystem (some req) =>
    if !req.confirm then (confirmationRequired, h)
    else reply 201 "created" (CreateFilesystem R q.device req.fstype req.mount_point h)
  | .mountFilesystem none => (⟨400, "bad_request"⟩, h)
  | .mountFilesystem (some req) =>
    if !req.confirm then (confirmationRequired, h)
    else reply 200 "mounted" (MountOnly R q.device req.fstype req.mount_point h)
  | .unmountFilesystem none => (⟨400, "bad_request"⟩, h)
  | .unmountFilesystem (some req) =>
    -- the device goes into the event only
    if !req.confirm then (confirmationRequired, h)
    else reply 200 "unmounted" (UnmountFilesystem R req.mount_point h)
  | .deleteFilesystem confirm =>
    if confirm ≠ "true" then (confirmationRequired, h)
    else reply 200 "deleted" (WipeFilesystem R q.device h)
  | .deleteArray confirm =>
    if confirm ≠ "true" then (confirmationRequired, h)
    else reply 200 "deleted" (Stop R q.device h)

def serve (R : Runner σ) (h : Host σ) (q : Request) : Host σ := (handle R q h).2

end Raid
end Nasd
