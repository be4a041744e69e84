import Nasd.System

/-!
# Nasd.Raid.Manager

`internal/raid/raid.go`: creating, stopping and wiping, with the edits of `/etc/mdadm/mdadm.conf`
and `/etc/fstab` that go with them. Each operation takes the host and returns Go's `error`
(`Except Str Unit`) with the host it leaves behind; a call whose error the source ignores keeps
only the host.
-/

namespace Nasd
namespace Raid

open Text Go Sys

variable {σ : Type}

def mdadmConf : Str := "/etc/mdadm/mdadm.conf"
def fstab : Str := "/etc/fstab"
def procMounts : Str := "/proc/mounts"
def procMdstat : Str := "/proc/mdstat"

/-! ## Commands -/

def cat (path : Str) : Cmd := ⟨"cat", [path]⟩
def umount (mountPoint : Str) : Cmd := ⟨"umount", [mountPoint]⟩
def wipefs (device : Str) : Cmd := ⟨"wipefs", ["-a", device]⟩
def partprobe (device : Str) : Cmd := ⟨"partprobe", [device]⟩
def updateInitramfs : Cmd := ⟨"update-initramfs", ["-u"]⟩
def mdadmStop (mdDevice : Str) : Cmd := ⟨"mdadm", ["--stop", mdDevice]⟩
def mdadmDetail (mdDevice : Str) : Cmd := ⟨"mdadm", ["--detail", mdDevice]⟩
def mdadmScan (mdDevice : Str) : Cmd := ⟨"mdadm", ["--detail", "--scan", mdDevice]⟩
def mdadmZero (device : Str) : Cmd := ⟨"mdadm", ["--zero-superblock", device]⟩
def mdadmCreate (mdDevice level : Str) (devices : List Str) : Cmd where
  name := "mdadm"
  args := "--create" :: mdDevice :: ("--level=" ++ level) ::
    ("--raid-devices=" ++ Itoa devices.length) :: (devices ++ [("--run" : Str)])

def validLevels (level : Str) : Option Nat :=
  if level = "0" ∨ level = "1" ∨ level = "linear" then some 2
  else if level = "5" then some 3
  else if level = "6" ∨ level = "10" then some 4
  else none

/-! ## Mount table -/

def mountPointOf (device : Str) : List Str → Str
  | [] => []
  | line :: rest =>
    match Fields line with
    | src :: mp :: _ => if src = device then mp else mountPointOf device rest
    | _ => mountPointOf device rest

def findMountPoint (R : Runner σ) (mdDevice : Str) (h : Host σ) : Str × Host σ :=
  let out := h.run R (cat procMounts)
  match out.1.err with
  | some _ => ([], out.2)
  | none => (mountPointOf mdDevice (lines out.1.stdout), out.2)

def mountsDevice (device line : Str) : Bool :=
  match Fields line with
  | src :: _ => src = device || HasPrefix src device
  | [] => false

def isMounted (R : Runner σ) (device : Str) (h : Host σ) : Bool × Host σ :=
  let out := h.run R (cat procMounts)
  match out.1.err with
  | some _ => (false, out.2)
  | none => ((lines out.1.stdout).any (mountsDevice device), out.2)

/-! ## Arrays of a disk -/

def mdLines (mdstat : Str) : List Str := (lines mdstat).filter fun l => HasPrefix l "md"

/-- `strings.SplitN(line, " ", 2)[0]` -/
def arrayName (line : Str) : Str := line.takeWhile (· ≠ ' ')

/-- The member names of an array's line: the tokens like `sdb[1]`, up to the bracket. -/
def lineMembers (line : Str) : List Str :=
  (Fields line).filterMap fun f =>
    if '[' ∈ f ∧ f.head? ≠ some '[' then some (f.takeWhile (· ≠ '[')) else none

def matchesDisk (base line : Str) : Bool :=
  (lineMembers line).any fun mb => mb = base || HasPrefix mb base

def arraysForDisk (R : Runner σ) (device : Str) (h : Host σ) : List Str × Host σ :=
  let base := TrimPrefix device "/dev/"
  let out := h.run R (cat procMdstat)
  match out.1.err with
  | some _ => ([], out.2)
  | none =>
    (((mdLines out.1.stdout).filter (matchesDisk base)).map fun l => "/dev/" ++ arrayName l, out.2)

/-! ## Configuration files -/

def namesArray (mdDevice line : Str) : Bool :=
  HasPrefix (TrimSpace line) "ARRAY" && Contains line mdDevice

def mdadmConfRemove (mdDevice : Str) (h : Host σ) : Host σ :=
  match h.files mdadmConf with
  | none => h
  | some data =>
    h.writeFile mdadmConf (keepLines (fun l => !namesArray mdDevice l) data)

def fstabRemove (mountPoint : Str) (h : Host σ) : Host σ :=
  match h.files fstab with
  | none => h
  | some data =>
    h.writeFile fstab (keepLines (fun l => (Fields l)[1]? ≠ some mountPoint) data)

/-- The text persistArray looks for in `mdadm.conf`: the line's UUID token, else the device. -/
def dedupKey (mdDevice line : Str) : Str :=
  ((Fields line).find? fun tok => HasPrefix tok "UUID=").getD mdDevice

/-- The line the scan reports is appended, unless the file already contains its key. -/
def persistArray (R : Runner σ) (mdDevice : Str) (h : Host σ) : Host σ :=
  let out := h.run R (mdadmScan mdDevice)
  match out.1.err with
  | some _ => out.2
  | none =>
    let line := TrimSpace out.1.stdout
    if !HasPrefix line "ARRAY" then out.2
    else
      let data := (out.2.files mdadmConf).getD []
      if Contains data (dedupKey mdDevice line) then out.2
      else ((out.2.writeFile mdadmConf (data ++ line ++ "\n")).run R updateInitramfs).2

/-! ## Operations -/

def Create (R : Runner σ) (mdDevice level : Str) (devices : List Str) (h : Host σ) :
    Except Str Unit × Host σ :=
  if !ValidMDDevice mdDevice then (.error ("device md non valido: " ++ mdDevice), h)
  else match validLevels level with
  | none => (.error ("livello RAID non supportato: " ++ level), h)
  | some minDisks =>
    if devices.length < minDisks then
      (.error ("RAID " ++ level ++ " richiede almeno " ++ Itoa minDisks ++ " dischi, forniti " ++
        Itoa devices.length), h)
    else match devices.find? fun d => !ValidDevice d with
    | some d => (.error ("device non valido: " ++ d), h)
    | none =>
      let out := h.run R (mdadmCreate mdDevice level devices)
      match out.1.err with
      | some e => (.error e, out.2)
      | none => (.ok (), persistArray R mdDevice (out.2.run R (wipefs mdDevice)).2)

/-- The loop of WipeDisk over the arrays of the disk: a mounted one ends it with an error. -/
def releaseArrays (R : Runner σ) : List Str → Host σ → Except Str Unit × Host σ
  | [], h => (.ok (), h)
  | md :: mds, h =>
    let mp := findMountPoint R md h
    if mp.1 ≠ [] then
      (.error ("disk belongs to a RAID array mounted at " ++ mp.1 ++ "; unmount it first"), mp.2)
    else releaseArrays R mds (mdadmConfRemove md (mp.2.run R (mdadmStop md)).2)

def WipeDisk (R : Runner σ) (device : Str) (h : Host σ) : Except Str Unit × Host σ :=
  if !ValidDevice device then (.error ("invalid device: " ++ device), h)
  else
    let mounted := isMounted R device h
    if mounted.1 then (.error "disk is mounted; unmount it first", mounted.2)
    else
      let arrays := arraysForDisk R device mounted.2
      let released := releaseArrays R arrays.1 arrays.2
      match released.1 with
      | .error e => (.error e, released.2)
      | .ok () =>
        let zeroed := (released.2.run R (mdadmZero device)).2
        let wiped := zeroed.run R (wipefs device)
        match wiped.1.err with
        | some e => (.error ("wipefs failed: " ++ e), wiped.2)
        | none => (.ok (), (wiped.2.run R (partprobe device)).2)

def memberDevices (mdDevice : Str) : List Str → List Str → List Str
  | [], devs => devs
  | line :: rest, devs =>
    match (Fields line).getLast? with
    | none => memberDevices mdDevice rest devs
    | some last =>
      if HasPrefix last "/dev/" ∧ last ≠ mdDevice ∧ last ∉ devs then
        memberDevices mdDevice rest (devs ++ [last])
      else memberDevices mdDevice rest devs

def arrayMembers (R : Runner σ) (mdDevice : Str) (h : Host σ) : List Str × Host σ :=
  let out := h.run R (mdadmDetail mdDevice)
  match out.1.err with
  | some _ => ([], out.2)
  | none => (memberDevices mdDevice (lines out.1.stdout) [], out.2)

def clearMembers (R : Runner σ) : List Str → Host σ → Host σ
  | [], h => h
  | d :: ds, h =>
    let zeroed := (h.run R (mdadmZero d)).2
    let wiped := (zeroed.run R (wipefs d)).2
    clearMembers R ds (wiped.run R (partprobe d)).2

/-- Stop up to the command that stops the array: the mount is undone and both files are edited. -/
def prepareStop (R : Runner σ) (mdDevice : Str) (h : Host σ) : List Str × Host σ :=
  let mp := findMountPoint R mdDevice h
  let unmounted := if mp.1 ≠ [] then fstabRemove mp.1 (mp.2.run R (umount mp.1)).2 else mp.2
  let members := arrayMembers R mdDevice unmounted
  (members.1, mdadmConfRemove mdDevice members.2)

def Stop (R : Runner σ) (mdDevice : Str) (h : Host σ) : Except Str Unit × Host σ :=
  if !ValidMDDevice mdDevice then (.error ("device md non valido: " ++ mdDevice), h)
  else
    let ready := prepareStop R mdDevice h
    let out := ready.2.run R (mdadmStop mdDevice)
    match out.1.err with
    | some e => (.error e, out.2)
    | none => (.ok (), clearMembers R ready.1 out.2)

end Raid
end Nasd
