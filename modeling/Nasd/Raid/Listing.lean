import Nasd.Raid.Asked

/-!
# Nasd.Raid.Listing

The arrays and their filesystems as `internal/raid/raid.go` reports them: `/proc/mdstat` and
`mdadm --detail`, then `/proc/mounts` and `df`.

* `ListFilesystems_asks` — what the listing runs.
* `filesystems_gives`    — without an entry in `/proc/mounts` nothing is mounted.
-/

namespace Nasd
namespace Raid

open Text Go Sys

/-! ## What the commands print -/

/-- `fmt.Sscanf(s, "%d", &n)` -/
def scanInt (s : Str) : Option Int :=
  let digits := if s.head? = some '-' ∨ s.head? = some '+' then s.drop 1 else s
  Atoi (s.take (s.length - digits.length) ++ digits.takeWhile Char.isDigit)

/-- `Array` of the source. -/
structure ArrayInfo where
  device : Str
  level : Str
  state : Str
  numDevices : Int
  devices : List Str
  deriving DecidableEq

structure FilesystemInfo where
  device : Str
  level : Str
  state : Str
  fsType : Str
  mountPoint : Str
  totalBytes : Int
  usedBytes : Int
  freeBytes : Int
  isMounted : Bool
  deriving DecidableEq

def detailField (a : ArrayInfo) (line : Str) : ArrayInfo :=
  match cut ':' line with
  | none => a
  | some (k, v) =>
    if TrimSpace k = "Raid Level" then { a with level := TrimPrefix (TrimSpace v) "raid" }
    else if TrimSpace k = "State" then { a with state := TrimSpace v }
    else if TrimSpace k = "Raid Devices" then
      { a with numDevices := (scanInt (TrimSpace v)).getD a.numDevices }
    else a

/-- The lines of the members have at least six fields, the device last. -/
def detailMember (line : Str) : Option Str :=
  (Fields line).getLast?.bind fun last =>
    if 6 ≤ (Fields line).length ∧ HasPrefix last "/dev/" then some last else none

def detailLine (a : ArrayInfo) (line : Str) : ArrayInfo :=
  { detailField a line with
    devices := (detailField a line).devices ++ (detailMember line).toList }

def readDetail (mdDevice out : Str) : ArrayInfo :=
  (lines out).foldl detailLine ⟨mdDevice, [], [], 0, []⟩

/-- An array's entry in `/proc/mounts`: device, mount point and type. -/
def mountEntry (line : Str) : Option (Str × Str × Str) :=
  match Fields line with
  | dev :: mp :: fs :: _ => if HasPrefix dev "/dev/md" then some (dev, mp, fs) else none
  | _ => none

/-- Of several entries of a device the last one counts. -/
def mountOf (mounts dev : Str) : Option (Str × Str) :=
  (((lines mounts).filterMap mountEntry).filter (·.1 = dev)).getLast?.map (·.2)

/-- A table that cannot be read has no entries. -/
def mountsText (out : Result) : Str :=
  match out.err with
  | some _ => []
  | none => out.stdout

/-- The line of `df` on a device: its size, what is used and what is free. -/
def readUsage : List Str → Int × Int × Int
  | [] => (0, 0, 0)
  | line :: rest =>
    match Fields line with
    | dev :: total :: used :: free :: _ =>
      if HasPrefix dev "/dev/" then
        ((scanInt total).getD 0, (scanInt used).getD 0, (scanInt free).getD 0)
      else readUsage rest
    | _ => readUsage rest

namespace Routine

open Sys.Routine
open Prog (Asks)

variable {ρ : Type}

/-! ## Listings -/

def df (mountPoint : Str) : Cmd := ⟨"df", ["-B1", mountPoint]⟩
def blkidType (device : Str) : Cmd := ⟨"blkid", ["-s", "TYPE", "-o", "value", device]⟩

def Detail (mdDevice : Str) : Routine ρ (Except Str ArrayInfo) := do
  let out ← run (mdadmDetail mdDevice)
  match out.err with
  | some e => pure (.error e)
  | none => pure (.ok (readDetail mdDevice out.stdout))

/-- The arrays of which the details can be had. -/
def details : List Str → Routine ρ (List ArrayInfo)
  | [] => pure []
  | dev :: devs => do
    let a ← Detail dev
    let rest ← details devs
    pure (a.toOption.toList ++ rest)

def ListArrays : Routine ρ (Except Str (List ArrayInfo)) := do
  let out ← run (cat procMdstat)
  match out.err with
  | some e => pure (.error e)
  | none => do
    let arrays ← details ((mdLines out.stdout).map fun line => "/dev/" ++ arrayName line)
    pure (.ok arrays)

def dfUsage (mountPoint : Str) : Routine ρ (Int × Int × Int) := do
  let out ← run (df mountPoint)
  match out.err with
  | some _ => pure (0, 0, 0)
  | none => pure (readUsage (lines out.stdout))

def filesystem (mounts : Str) (a : ArrayInfo) : Routine ρ FilesystemInfo :=
  match mountOf mounts a.device with
  | some (mp, fsType) => do
    let usage ← dfUsage mp
    pure ⟨a.device, a.level, a.state, fsType, mp, usage.1, usage.2.1, usage.2.2, true⟩
  | none => do
    let out ← run (blkidType a.device)
    let fsType := match out.err with
      | some _ => []
      | none => TrimSpace out.stdout
    pure ⟨a.device, a.level, a.state, fsType, [], 0, 0, 0, false⟩

def filesystems (mounts : Str) : List ArrayInfo → Routine ρ (List FilesystemInfo)
  | [] => pure []
  | a :: arrays => do
    let fs ← filesystem mounts a
    let rest ← filesystems mounts arrays
    pure (fs :: rest)

def ListFilesystems : Routine ρ (List FilesystemInfo) := do
  match ← ListArrays with
  | .error _ => pure []
  | .ok arrays => do
    let out ← run (cat procMounts)
    filesystems (mountsText out) arrays

/-! ## What they ask for -/

theorem Detail_asks (md : Str) : Asks Storage (Detail md : Routine ρ _) := by
  refine .bind (asks_mdadm (by decide)) fun out => ?_
  split <;> exact .pure _

theorem details_asks (devs : List Str) : Asks Storage (details devs : Routine ρ _) := by
  induction devs with
  | nil => exact .pure _
  | cons dev devs ih => exact .bind (Detail_asks dev) fun _ => .bind ih fun _ => .pure _

theorem filesystem_asks (mounts : Str) (a : ArrayInfo) :
    Asks Storage (filesystem mounts a : Routine ρ _) := by
  unfold filesystem
  split
  · refine .bind (.bind (asks_tool rfl) fun out => ?_) fun _ => .pure _
    split <;> exact .pure _
  · exact .bind (asks_tool rfl) fun _ => .pure _

theorem filesystems_asks (mounts : Str) (arrays : List ArrayInfo) :
    Asks Storage (filesystems mounts arrays : Routine ρ _) := by
  induction arrays with
  | nil => exact .pure _
  | cons a arrays ih => exact .bind (filesystem_asks mounts a) fun _ => .bind ih fun _ => .pure _

theorem ListFilesystems_asks : Asks Storage (ListFilesystems : Routine ρ _) := by
  refine .bind (.bind (asks_tool rfl) fun out => ?_) fun listed => ?_
  · split
    · exact .pure _
    · exact .bind (details_asks _) fun _ => .pure _
  · split
    · exact .pure _
    · exact .bind (asks_tool rfl) fun _ => filesystems_asks _ _

/-! ## What they come to -/

/-- A field of the report is neither the array nor one of its devices. -/
theorem detailField_frame (a : ArrayInfo) (line : Str) :
    (detailField a line).device = a.device ∧ (detailField a line).devices = a.devices := by
  unfold detailField
  split
  · exact ⟨rfl, rfl⟩
  · split
    · exact ⟨rfl, rfl⟩
    · split
      · exact ⟨rfl, rfl⟩
      · split <;> exact ⟨rfl, rfl⟩

theorem readDetail_device (md out : Str) : (readDetail md out).device = md := by
  have hlines : ∀ (ls : List Str) (a : ArrayInfo), (ls.foldl detailLine a).device = a.device := by
    intro ls
    induction ls with
    | nil => exact fun a => rfl
    | cons l ls ih => exact fun a => (ih _).trans (detailField_frame a l).1
  exact hlines _ _

/-- The arrays that are listed are some of those that were asked about. -/
theorem details_gives (devs : List Str) :
    Prog.Gives (fun arrays => ∀ a ∈ arrays, a.device ∈ devs)
      (details devs : Routine ρ (List ArrayInfo)) := by
  induction devs with
  | nil => exact List.forall_mem_nil _
  | cons dev devs ih =>
    have hdetail : Prog.Gives (fun a => ∀ info, a = .ok info → info.device = dev)
        (Detail dev : Routine ρ (Except Str ArrayInfo)) := by
      refine .bind (Q := fun _ => True) (.all fun _ => trivial) fun out _ => ?_
      split
      · intro info hinfo
        cases hinfo
      · intro info hinfo
        cases hinfo
        exact readDetail_device dev _
    refine .bind hdetail fun a ha => .bind ih fun rest hrest info hinfo => ?_
    rcases List.mem_append.mp hinfo with hinfo | hinfo
    · cases a with
      | error e => cases hinfo
      | ok a =>
        rw [List.mem_singleton.mp hinfo, ha a rfl]
        exact List.mem_cons_self
    · exact List.mem_cons_of_mem _ (hrest info hinfo)

/-- Arrays that are not in the table of mounts are not mounted. -/
theorem filesystems_gives {mounts : Str} {arrays : List ArrayInfo}
    (hnone : ∀ a ∈ arrays, mountOf mounts a.device = none) :
    Prog.Gives (fun fss => ∀ f ∈ fss, f.isMounted = false)
      (filesystems mounts arrays : Routine ρ (List FilesystemInfo)) := by
  induction arrays with
  | nil => exact List.forall_mem_nil _
  | cons a arrays ih =>
    have ha : Prog.Gives (fun f => f.isMounted = false) (filesystem mounts a : Routine ρ _) := by
      unfold filesystem
      rw [hnone a List.mem_cons_self]
      exact fun out => rfl
    refine .bind ha fun f hf => .bind (ih fun a ha => hnone a (List.mem_cons_of_mem _ ha)) ?_
    exact fun rest hrest => List.forall_mem_cons.mpr ⟨hf, hrest⟩

end Routine
end Raid
end Nasd
