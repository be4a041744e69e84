import Nasd.Raid.Client
import Nasd.Raid.Filesystem
import Nasd.Routine

/-!
# Nasd.Raid.Routines

The operations of `Nasd.Raid.Manager` and `Nasd.Raid.Filesystem` command by command, for requests
that are served at the same time.

* `handle_alone` — alone, a request is served as in `Nasd.Raid.Filesystem`; so for each operation.
-/

namespace Nasd
namespace Raid
namespace Routine

open Text Go Sys Sys.Routine

variable {ρ σ : Type} {O : OS σ} {h : Host σ}

/-! ## Tables and files -/

def findMountPoint (mdDevice : Str) : Routine ρ Str := do
  let out ← run (cat procMounts)
  match out.err with
  | some _ => pure []
  | none => pure (mountPointOf mdDevice (lines out.stdout))

def isMounted (device : Str) : Routine ρ Bool := do
  let out ← run (cat procMounts)
  match out.err with
  | some _ => pure false
  | none => pure ((lines out.stdout).any (mountsDevice device))

def arraysForDisk (device : Str) : Routine ρ (List Str) := do
  let base := TrimPrefix device "/dev/"
  let out ← run (cat procMdstat)
  match out.err with
  | some _ => pure []
  | none =>
    pure (((mdLines out.stdout).filter (matchesDisk base)).map fun l => "/dev/" ++ arrayName l)

def mdadmConfRemove (mdDevice : Str) : Routine ρ Unit := do
  match ← read mdadmConf with
  | none => pure ()
  | some data => save mdadmConf (keepLines (fun l => !namesArray mdDevice l) data)

def fstabRemove (mountPoint : Str) : Routine ρ Unit := do
  match ← read fstab with
  | none => pure ()
  | some data => save fstab (keepLines (fun l => (Fields l)[1]? ≠ some mountPoint) data)

def persistArray (mdDevice : Str) : Routine ρ Unit := do
  let out ← run (mdadmScan mdDevice)
  match out.err with
  | some _ => pure ()
  | none =>
    let line := TrimSpace out.stdout
    if !HasPrefix line "ARRAY" then pure ()
    else do
      let data := (← read mdadmConf).getD []
      if Contains data (dedupKey mdDevice line) then pure ()
      else do
        save mdadmConf (data ++ line ++ "\n")
        let _ ← run updateInitramfs

/-! ## Arrays -/

def Create (mdDevice level : Str) (devices : List Str) : Routine ρ (Except Str Unit) :=
  if !ValidMDDevice mdDevice then pure (.error ("device md non valido: " ++ mdDevice))
  else match validLevels level with
  | none => pure (.error ("livello RAID non supportato: " ++ level))
  | some minDisks =>
    if devices.length < minDisks then
      pure (.error ("RAID " ++ level ++ " richiede almeno " ++ Itoa minDisks ++
        " dischi, forniti " ++ Itoa devices.length))
    else match devices.find? fun d => !ValidDevice d with
    | some d => pure (.error ("device non valido: " ++ d))
    | none => do
      let out ← run (mdadmCreate mdDevice level devices)
      match out.err with
      | some e => pure (.error e)
      | none => do
        let _ ← run (wipefs mdDevice)
        persistArray mdDevice
        pure (.ok ())

def releaseArrays : List Str → Routine ρ (Except Str Unit)
  | [] => pure (.ok ())
  | md :: mds => do
    let mp ← findMountPoint md
    if mp ≠ [] then
      pure (.error ("disk belongs to a RAID array mounted at " ++ mp ++ "; unmount it first"))
    else do
      let _ ← run (mdadmStop md)
      mdadmConfRemove md
      releaseArrays mds

def WipeDisk (device : Str) : Routine ρ (Except Str Unit) :=
  if !ValidDevice device then pure (.error ("invalid device: " ++ device))
  else do
    if ← isMounted device then pure (.error "disk is mounted; unmount it first")
    else do
      let arrays ← arraysForDisk device
      match ← releaseArrays arrays with
      | .error e => pure (.error e)
      | .ok () => do
        let _ ← run (mdadmZero device)
        let wiped ← run (wipefs device)
        match wiped.err with
        | some e => pure (.error ("wipefs failed: " ++ e))
        | none => do
          let _ ← run (partprobe device)
          pure (.ok ())

def arrayMembers (mdDevice : Str) : Routine ρ (List Str) := do
  let out ← run (mdadmDetail mdDevice)
  match out.err with
  | some _ => pure []
  | none => pure (memberDevices mdDevice (lines out.stdout) [])

def clearMembers : List Str → Routine ρ Unit
  | [] => pure ()
  | d :: ds => do
    let _ ← run (mdadmZero d)
    let _ ← run (wipefs d)
    let _ ← run (partprobe d)
    clearMembers ds

/-- The mount of an array that is stopped; no mount point, no mount. -/
def undoMount (mp : Str) : Routine ρ Unit :=
  if mp ≠ [] then do
    let _ ← run (umount mp)
    fstabRemove mp
  else pure ()

def prepareStop (mdDevice : Str) : Routine ρ (List Str) := do
  let mp ← findMountPoint mdDevice
  undoMount mp
  let members ← arrayMembers mdDevice
  mdadmConfRemove mdDevice
  pure members

def Stop (mdDevice : Str) : Routine ρ (Except Str Unit) :=
  if !ValidMDDevice mdDevice then pure (.error ("device md non valido: " ++ mdDevice))
  else do
    let members ← prepareStop mdDevice
    let out ← run (mdadmStop mdDevice)
    match out.err with
    | some e => pure (.error e)
    | none => do
      clearMembers members
      pure (.ok ())

def mdadmAdd (mdDevice disk : Str) : Cmd := ⟨"mdadm", ["--add", mdDevice, disk]⟩
def mdadmFail (mdDevice disk : Str) : Cmd := ⟨"mdadm", ["--fail", mdDevice, disk]⟩
def mdadmRemove (mdDevice disk : Str) : Cmd := ⟨"mdadm", ["--remove", mdDevice, disk]⟩

/-- `_, _, err := m.run.Run(...); return err` -/
def runErr (c : Cmd) : Routine ρ (Except Str Unit) := do
  let out ← run c
  match out.err with
  | some e => pure (.error e)
  | none => pure (.ok ())

def AddDisk (mdDevice disk : Str) : Routine ρ (Except Str Unit) :=
  if !ValidMDDevice mdDevice || !ValidDevice disk then pure (.error "parametri non validi")
  else runErr (mdadmAdd mdDevice disk)

def RemoveDisk (mdDevice disk : Str) : Routine ρ (Except Str Unit) :=
  if !ValidMDDevice mdDevice || !ValidDevice disk then pure (.error "parametri non validi")
  else do
    match ← runErr (mdadmFail mdDevice disk) with
    | .error e => pure (.error e)
    | .ok () => runErr (mdadmRemove mdDevice disk)

/-! ## Filesystems -/

def runEach : List (Cmd × Str) → Routine ρ (Except Str Unit)
  | [] => pure (.ok ())
  | (c, what) :: rest => do
    let out ← run c
    match out.err with
    | some e => pure (.error (what ++ e))
    | none => runEach rest

def has (cmd : Str) : Routine ρ Bool := do
  let out ← run (commandV cmd)
  pure out.err.isNone

def install (cmd pkg : Str) : Routine ρ Bool := do
  let script := "apt-get install -y --no-install-recommends " ++ pkg
  let _ ← run (apt script)
  if ← has cmd then has cmd
  else do
    let _ ← run (apt ("apt-get update -y; " ++ script))
    has cmd

def ensureMkfs (cmd fsType : Str) : Routine ρ (Except Str Unit) := do
  let pkg := mkfsPkg fsType
  if ← has cmd then pure (.ok ())
  else if pkg = [] then
    pure (.error (cmd ++ " non trovato e nessun pacchetto noto per il filesystem " ++ fsType))
  else do
    if ← install cmd pkg then pure (.ok ())
    else pure (.error (cmd ++ " non disponibile: installazione del pacchetto " ++ pkg ++
      " fallita (serve connessione di rete)"))

def fstabSource (device : Str) : Routine ρ Str := do
  let out ← run (blkid device)
  match out.err with
  | some _ => pure device
  | none =>
    let uuid := TrimSpace out.stdout
    pure (if uuid ≠ [] then "UUID=" ++ uuid else device)

def fstabAdd (device mountPoint fsType : Str) : Routine ρ Unit := do
  let src ← fstabSource device
  let entry := fstabEntry src mountPoint fsType
  match ← read fstab with
  | none => pure ()
  | some data =>
    if entry ∈ (lines data).map TrimSpace then pure ()
    else save fstab (data ++ entry ++ "\n")

def fstabMountPoint (device : Str) : Routine ρ Str := do
  match ← read fstab with
  | none => pure []
  | some data => pure (mountPointOf device (lines data))

def mountNew (mdDevice fsType mountPoint : Str) : Routine ρ (Except Str Unit) :=
  if !ValidMDDevice mdDevice then pure (.error ("device md non valido: " ++ mdDevice))
  else match validFS fsType with
  | none => pure (.error ("filesystem non supportato: " ++ fsType))
  | some (cmd, flag) =>
    if !validMountPoint mountPoint then pure (.error ("mount point non valido: " ++ mountPoint))
    else do
      match ← ensureMkfs cmd fsType with
      | .error e => pure (.error e)
      | .ok () =>
        runEach ((⟨cmd, [flag, mdDevice]⟩, "mkfs fallito: ") :: mountOps fsType mdDevice mountPoint)

def CreateFilesystem (mdDevice fsType mountPoint : Str) : Routine ρ (Except Str Unit) := do
  match ← mountNew mdDevice fsType mountPoint with
  | .error e => pure (.error e)
  | .ok () => do
    fstabAdd mdDevice mountPoint fsType
    pure (.ok ())

def mountExisting (mdDevice fsType mountPoint : Str) : Routine ρ (Except Str Unit) :=
  if !ValidMDDevice mdDevice then pure (.error ("device md non valido: " ++ mdDevice))
  else if !validMountPoint mountPoint then pure (.error ("mount point non valido: " ++ mountPoint))
  else runEach (mountOps fsType mdDevice mountPoint)

def MountOnly (mdDevice fsType mountPoint : Str) : Routine ρ (Except Str Unit) := do
  match ← mountExisting mdDevice fsType mountPoint with
  | .error e => pure (.error e)
  | .ok () => do
    fstabAdd mdDevice mountPoint fsType
    pure (.ok ())

def UnmountFilesystem (mountPoint : Str) : Routine ρ (Except Str Unit) :=
  if !validMountPoint mountPoint then pure (.error "mount point non valido")
  else do
    match ← runEach [(umount mountPoint, "umount fallito: ")] with
    | .error e => pure (.error e)
    | .ok () => do
      fstabRemove mountPoint
      pure (.ok ())

def wipedMountPoint (mdDevice : Str) : Routine ρ (Except Str Str) := do
  let mp ← findMountPoint mdDevice
  if mp ≠ [] then do
    match ← runEach [(umount mdDevice, "umount fallito: ")] with
    | .error e => pure (.error e)
    | .ok () => pure (.ok mp)
  else do
    let fm ← fstabMountPoint mdDevice
    if fm ≠ [] then pure (.ok fm) else pure (.ok ("/srv/nas/" ++ TrimPrefix mdDevice "/dev/"))

def WipeFilesystem (mdDevice : Str) : Routine ρ (Except Str Unit) :=
  if !ValidMDDevice mdDevice then pure (.error ("device md non valido: " ++ mdDevice))
  else do
    match ← wipedMountPoint mdDevice with
    | .error e => pure (.error e)
    | .ok mountPoint => do
      fstabRemove mountPoint
      match ← runEach [(wipefs mdDevice, "wipefs fallito: ")] with
      | .error e => pure (.error e)
      | .ok () =>
        if HasPrefix mountPoint "/" ∧ mountPoint ≠ "/" then do
          let _ ← run (rmdir mountPoint)
          pure (.ok ())
        else pure (.ok ())

def xfsGrow (mountPoint : Str) : Cmd := ⟨"xfs_growfs", [mountPoint]⟩
def btrfsResize (mountPoint : Str) : Cmd := ⟨"btrfs", ["filesystem", "resize", "max", mountPoint]⟩

/-- The filesystems that are grown by their mount point. -/
def growMounted (fsType mdDevice : Str) (grow : Str → Cmd) : Routine ρ (Except Str Unit) := do
  let mp ← findMountPoint mdDevice
  if mp = [] then pure (.error (fsType ++ ": dispositivo non montato"))
  else runErr (grow mp)

def GrowFilesystem (mdDevice fsType : Str) : Routine ρ (Except Str Unit) :=
  if !ValidMDDevice mdDevice then pure (.error ("device md non valido: " ++ mdDevice))
  else if fsType = "ext4" ∨ fsType = "ext3" then runErr ⟨"resize2fs", [mdDevice]⟩
  else if fsType = "xfs" then growMounted fsType mdDevice xfsGrow
  else if fsType = "btrfs" then growMounted fsType mdDevice btrfsResize
  else pure (.error ("grow non supportato per filesystem: " ++ fsType))

/-! ## Handlers -/

def respond (code : Nat) (text : Str) (p : Routine ρ (Except Str Unit)) : Routine ρ Reply := do
  match ← p with
  | .error e => pure ⟨422, e⟩
  | .ok () => pure ⟨code, text⟩

def handle (q : Request) : Routine ρ Reply :=
  match q.action with
  | .createFilesystem none => pure ⟨400, "bad_request"⟩
  | .createFilesystem (some req) =>
    if !req.confirm then pure confirmationRequired
    else respond 201 "created" (CreateFilesystem q.device req.fstype req.mount_point)
  | .mountFilesystem none => pure ⟨400, "bad_request"⟩
  | .mountFilesystem (some req) =>
    if !req.confirm then pure confirmationRequired
    else respond 200 "mounted" (MountOnly q.device req.fstype req.mount_point)
  | .unmountFilesystem none => pure ⟨400, "bad_request"⟩
  | .unmountFilesystem (some req) =>
    if !req.confirm then pure confirmationRequired
    else respond 200 "unmounted" (UnmountFilesystem req.mount_point)
  | .deleteFilesystem confirm =>
    if confirm ≠ "true" then pure confirmationRequired
    else respond 200 "deleted" (WipeFilesystem q.device)
  | .deleteArray confirm =>
    if confirm ≠ "true" then pure confirmationRequired
    else respond 200 "deleted" (Stop q.device)

structure CreateBody where
  device : Str
  level : Str
  devices : List Str
  confirm : Bool
  deriving DecidableEq

/-- The requests on the storage: those on one array's filesystem, and the others. -/
inductive Mutation where
  | filesystem (q : Request)
  | create (body : Option CreateBody)
  | wipeDisk (device : Str) (confirm : Bool)
  | growFilesystem (md : Str) (fstype : Option Str)
  | addDisk (md disk : Str)
  | removeDisk (md disk : Str)
  deriving DecidableEq

def mutate : Mutation → Routine ρ Reply
  | .filesystem q => handle q
  | .create none => pure ⟨400, "bad_request"⟩
  | .create (some req) =>
    if !req.confirm then pure confirmationRequired
    else respond 201 "created" (Create req.device req.level req.devices)
  | .wipeDisk device confirm =>
    -- a body that cannot be decoded confirms nothing
    if !confirm then pure confirmationRequired
    else respond 200 "wiped" (WipeDisk ("/dev/" ++ device))
  | .growFilesystem _ none => pure ⟨400, "bad_request"⟩
  | .growFilesystem md (some fstype) => respond 200 "grown" (GrowFilesystem ("/dev/" ++ md) fstype)
  | .addDisk md disk => respond 200 "added" (AddDisk ("/dev/" ++ md) disk)
  | .removeDisk md disk => respond 200 "removed" (RemoveDisk ("/dev/" ++ md) ("/dev/" ++ disk))

/-! ## Alone -/

theorem findMountPoint_alone (md : Str) (h : Host σ) :
    Alone O (findMountPoint md : Routine ρ Str) h (Raid.findMountPoint O.run md h) := by
  refine .bind (.run _ h) ?_
  unfold Raid.findMountPoint
  dsimp only
  cases (h.run O.run (cat procMounts)).1.err <;> exact .pure _ _

theorem isMounted_alone (device : Str) (h : Host σ) :
    Alone O (isMounted device : Routine ρ Bool) h (Raid.isMounted O.run device h) := by
  refine .bind (.run _ h) ?_
  unfold Raid.isMounted
  dsimp only
  cases (h.run O.run (cat procMounts)).1.err <;> exact .pure _ _

theorem arraysForDisk_alone (device : Str) (h : Host σ) :
    Alone O (arraysForDisk device : Routine ρ (List Str)) h (Raid.arraysForDisk O.run device h) := by
  refine .bind (.run _ h) ?_
  unfold Raid.arraysForDisk
  dsimp only
  cases (h.run O.run (cat procMdstat)).1.err <;> exact .pure _ _

theorem mdadmConfRemove_alone (md : Str) (h : Host σ) :
    Alone O (mdadmConfRemove md : Routine ρ Unit) h ((), Raid.mdadmConfRemove md h) := by
  refine .bind (.read _ h) ?_
  unfold Raid.mdadmConfRemove
  dsimp only
  cases h.files mdadmConf with
  | none => exact .pure _ _
  | some data => exact .save _ _ _

theorem fstabRemove_alone (mp : Str) (h : Host σ) :
    Alone O (fstabRemove mp : Routine ρ Unit) h ((), Raid.fstabRemove mp h) := by
  refine .bind (.read _ h) ?_
  unfold Raid.fstabRemove
  dsimp only
  cases h.files fstab with
  | none => exact .pure _ _
  | some data => exact .save _ _ _

theorem persistArray_alone (md : Str) (h : Host σ) :
    Alone O (persistArray md : Routine ρ Unit) h ((), Raid.persistArray O.run md h) := by
  refine .bind (.run _ h) ?_
  unfold Raid.persistArray
  dsimp only
  cases (h.run O.run (mdadmScan md)).1.err with
  | some e => exact .pure _ _
  | none =>
    dsimp only
    split
    · exact .pure _ _
    · refine .bind (.read _ _) ?_
      dsimp only
      split
      · exact .pure _ _
      · exact .bind (.save _ _ _) (.bind (.run _ _) (.pure _ _))

theorem Create_alone (md level : Str) (devices : List Str) (h : Host σ) :
    Alone O (Create md level devices : Routine ρ _) h (Raid.Create O.run md level devices h) := by
  unfold Create Raid.Create
  refine .ite (.pure _ _) ?_
  cases validLevels level with
  | none => exact .pure _ _
  | some minDisks =>
    refine .ite (.pure _ _) ?_
    cases devices.find? fun d => !ValidDevice d with
    | some d => exact .pure _ _
    | none =>
      refine .bind (.run _ h) ?_
      dsimp only
      cases (h.run O.run (mdadmCreate md level devices)).1.err with
      | some e => exact .pure _ _
      | none => exact .bind (.run _ _) (.bind (persistArray_alone md _) (.pure _ _))

theorem releaseArrays_alone (mds : List Str) (h : Host σ) :
    Alone O (releaseArrays mds : Routine ρ _) h (Raid.releaseArrays O.run mds h) := by
  induction mds generalizing h with
  | nil => exact .pure _ _
  | cons md mds ih =>
    refine .bind (findMountPoint_alone md h) (.ite (.pure _ _) ?_)
    exact .bind (.run _ _) (.bind (mdadmConfRemove_alone md _) (ih _))

theorem WipeDisk_alone (device : Str) (h : Host σ) :
    Alone O (WipeDisk device : Routine ρ _) h (Raid.WipeDisk O.run device h) := by
  refine .ite (.pure _ _) (.bind (isMounted_alone device h) (.ite (.pure _ _) ?_))
  refine .bind (arraysForDisk_alone device _) (.bind (releaseArrays_alone _ _) ?_)
  dsimp only
  generalize Raid.releaseArrays O.run _ _ = released
  obtain ⟨e | u, h₁⟩ := released
  · exact .pure _ _
  · refine .bind (.run _ _) (.bind (.run _ _) ?_)
    dsimp only
    generalize Host.run O.run (wipefs device) _ = wiped
    cases wiped.1.err with
    | some e => exact .pure _ _
    | none => exact .bind (.run _ _) (.pure _ _)

theorem arrayMembers_alone (md : Str) (h : Host σ) :
    Alone O (arrayMembers md : Routine ρ (List Str)) h (Raid.arrayMembers O.run md h) := by
  refine .bind (.run _ h) ?_
  unfold Raid.arrayMembers
  dsimp only
  cases (h.run O.run (mdadmDetail md)).1.err <;> exact .pure _ _

theorem clearMembers_alone (ds : List Str) (h : Host σ) :
    Alone O (clearMembers ds : Routine ρ Unit) h ((), Raid.clearMembers O.run ds h) := by
  induction ds generalizing h with
  | nil => exact .pure _ _
  | cons d ds ih => exact .bind (.run _ _) (.bind (.run _ _) (.bind (.run _ _) (ih _)))

theorem prepareStop_alone (md : Str) (h : Host σ) :
    Alone O (prepareStop md : Routine ρ (List Str)) h (Raid.prepareStop O.run md h) := by
  have hundo : ∀ mp h, Alone O (undoMount mp : Routine ρ Unit) h
      ((), if mp ≠ [] then Raid.fstabRemove mp (h.run O.run (umount mp)).2 else h) := by
    intro mp h
    unfold undoMount
    split
    · exact .bind (.run _ _) (fstabRemove_alone _ _)
    · exact .pure _ _
  refine .bind (findMountPoint_alone md h) (.bind (hundo _ _) ?_)
  exact .bind (arrayMembers_alone _ _) (.bind (mdadmConfRemove_alone _ _) (.pure _ _))

theorem Stop_alone (md : Str) (h : Host σ) :
    Alone O (Stop md : Routine ρ _) h (Raid.Stop O.run md h) := by
  refine .ite (.pure _ _) (.bind (prepareStop_alone md h) (.bind (.run _ _) ?_))
  generalize Raid.prepareStop O.run md h = ready
  dsimp only
  generalize Host.run O.run (mdadmStop md) ready.2 = out
  cases out.1.err with
  | some e => exact .pure _ _
  | none => exact .bind (clearMembers_alone _ _) (.pure _ _)

theorem runErr_alone (c : Cmd) (h : Host σ) :
    Alone O (runErr c : Routine ρ _) h
      (match (h.run O.run c).1.err with
        | some e => (.error e, (h.run O.run c).2)
        | none => (.ok (), (h.run O.run c).2)) := by
  refine .bind (.run _ h) ?_
  cases (h.run O.run c).1.err <;> exact .pure _ _

theorem runEach_alone (cs : List (Cmd × Str)) (h : Host σ) :
    Alone O (runEach cs : Routine ρ _) h (Raid.runEach O.run cs h) := by
  induction cs generalizing h with
  | nil => exact .pure _ _
  | cons c cs ih =>
    refine .bind (.run _ h) ?_
    unfold Raid.runEach
    dsimp only
    cases (h.run O.run c.1).1.err with
    | some e => exact .pure _ _
    | none => exact ih _

theorem has_alone (cmd : Str) (h : Host σ) :
    Alone O (has cmd : Routine ρ Bool) h (Raid.has O.run cmd h) :=
  .bind (.run _ h) (.pure _ _)

theorem install_alone (cmd pkg : Str) (h : Host σ) :
    Alone O (install cmd pkg : Routine ρ Bool) h (Raid.install O.run cmd pkg h) :=
  .bind (.run _ h) (.bind (has_alone cmd _)
    (.ite (has_alone cmd _) (.bind (.run _ _) (has_alone cmd _))))

theorem ensureMkfs_alone (cmd fsType : Str) (h : Host σ) :
    Alone O (ensureMkfs cmd fsType : Routine ρ _) h (Raid.ensureMkfs O.run cmd fsType h) :=
  .bind (has_alone cmd h) (.ite (.pure _ _) (.ite (.pure _ _)
    (.bind (install_alone cmd _ _) (.ite (.pure _ _) (.pure _ _)))))

theorem fstabSource_alone (device : Str) (h : Host σ) :
    Alone O (fstabSource device : Routine ρ Str) h (Raid.fstabSource O.run device h) := by
  refine .bind (.run _ h) ?_
  unfold Raid.fstabSource
  dsimp only
  cases (h.run O.run (blkid device)).1.err <;> exact .pure _ _

theorem fstabAdd_alone (device mp fsType : Str) (h : Host σ) :
    Alone O (fstabAdd device mp fsType : Routine ρ Unit) h
      ((), Raid.fstabAdd O.run device mp fsType h) := by
  refine .bind (fstabSource_alone device h) (.bind (.read _ _) ?_)
  unfold Raid.fstabAdd
  dsimp only
  cases (Raid.fstabSource O.run device h).2.files fstab with
  | none => exact .pure _ _
  | some data =>
    dsimp only
    split
    · exact .pure _ _
    · exact .save _ _ _

theorem fstabMountPoint_alone (device : Str) (h : Host σ) :
    Alone O (fstabMountPoint device : Routine ρ Str) h (Raid.fstabMountPoint device h, h) := by
  refine .bind (.read _ h) ?_
  unfold Raid.fstabMountPoint
  dsimp only
  cases h.files fstab <;> exact .pure _ _

theorem AddDisk_alone (md disk : Str) (h : Host σ) :
    Alone O (AddDisk md disk : Routine ρ _) h (Client.AddDisk O.run md disk h) :=
  .ite (.pure _ _) (runErr_alone _ h)

/-- One operation, and another when it gives no error. -/
theorem andThen_alone {p : Routine ρ (Except Str Unit)} {q : Routine ρ (Except Str Unit)}
    {out : Except Str Unit × Host σ} {f : Host σ → Except Str Unit × Host σ}
    (hp : Alone O p h out) (hq : ∀ h, Alone O q h (f h)) :
    Alone O (p >>= fun x => match x with | .error e => pure (.error e) | .ok () => q) h
      (match out.1 with | .error e => (.error e, out.2) | .ok () => f out.2) := by
  refine .bind hp ?_
  obtain ⟨e | u, h₁⟩ := out
  · exact .pure _ _
  · exact hq h₁

theorem RemoveDisk_alone (md disk : Str) (h : Host σ) :
    Alone O (RemoveDisk md disk : Routine ρ _) h (Client.RemoveDisk O.run md disk h) := by
  refine .ite (.pure _ _) (.bind (runErr_alone _ h) ?_)
  unfold mdadmFail
  dsimp only
  cases (h.run O.run ⟨"mdadm", ["--fail", md, disk]⟩).1.err with
  | some e => exact .pure _ _
  | none => exact runErr_alone _ _

theorem mountNew_alone (md fsType mp : Str) (h : Host σ) :
    Alone O (mountNew md fsType mp : Routine ρ _) h (Raid.mountNew O.run md fsType mp h) := by
  unfold mountNew Raid.mountNew
  refine .ite (.pure _ _) ?_
  cases validFS fsType with
  | none => exact .pure _ _
  | some tool => exact .ite (.pure _ _) (andThen_alone (ensureMkfs_alone _ _ h) (runEach_alone _))

theorem CreateFilesystem_alone (md fsType mp : Str) (h : Host σ) :
    Alone O (CreateFilesystem md fsType mp : Routine ρ _) h
      (Raid.CreateFilesystem O.run md fsType mp h) :=
  andThen_alone (f := fun h => (.ok (), Raid.fstabAdd O.run md mp fsType h))
    (mountNew_alone md fsType mp h) fun h => .bind (fstabAdd_alone md mp fsType h) (.pure _ _)

theorem mountExisting_alone (md fsType mp : Str) (h : Host σ) :
    Alone O (mountExisting md fsType mp : Routine ρ _) h (Raid.mountExisting O.run md fsType mp h) :=
  .ite (.pure _ _) (.ite (.pure _ _) (runEach_alone _ h))

theorem MountOnly_alone (md fsType mp : Str) (h : Host σ) :
    Alone O (MountOnly md fsType mp : Routine ρ _) h (Raid.MountOnly O.run md fsType mp h) :=
  andThen_alone (f := fun h => (.ok (), Raid.fstabAdd O.run md mp fsType h))
    (mountExisting_alone md fsType mp h) fun h => .bind (fstabAdd_alone md mp fsType h) (.pure _ _)

theorem UnmountFilesystem_alone (mp : Str) (h : Host σ) :
    Alone O (UnmountFilesystem mp : Routine ρ _) h (Raid.UnmountFilesystem O.run mp h) := by
  refine .ite (.pure _ _) (andThen_alone (f := fun h => (.ok (), Raid.fstabRemove mp h))
    (runEach_alone _ h) fun h => ?_)
  exact .bind (fstabRemove_alone mp h) (.pure _ _)

theorem wipedMountPoint_alone (md : Str) (h : Host σ) :
    Alone O (wipedMountPoint md : Routine ρ _) h (Raid.wipedMountPoint O.run md h) := by
  refine .bind (findMountPoint_alone md h) (.ite (.bind (runEach_alone _ _) ?_) ?_)
  · generalize Raid.runEach O.run _ _ = unmounted
    obtain ⟨e | u, h₁⟩ := unmounted
    · exact .pure _ _
    · exact .pure _ _
  · exact .bind (fstabMountPoint_alone _ _) (.ite (.pure _ _) (.pure _ _))

theorem WipeFilesystem_alone (md : Str) (h : Host σ) :
    Alone O (WipeFilesystem md : Routine ρ _) h (Raid.WipeFilesystem O.run md h) := by
  refine .ite (.pure _ _) (.bind (wipedMountPoint_alone md h) ?_)
  dsimp only
  generalize Raid.wipedMountPoint O.run md h = out
  obtain ⟨e | mp, h₁⟩ := out
  · exact .pure _ _
  · refine .bind (fstabRemove_alone mp h₁) (andThen_alone (f := fun h =>
      if HasPrefix mp "/" ∧ mp ≠ "/" then (.ok (), (h.run O.run (rmdir mp)).2) else (.ok (), h))
      (runEach_alone _ _) fun h => ?_)
    exact .ite (.bind (.run _ _) (.pure _ _)) (.pure _ _)

theorem respond_alone {p : Routine ρ (Except Str Unit)} {out : Except Str Unit × Host σ} (code : Nat)
    (text : Str) (hp : Alone O p h out) : Alone O (respond code text p) h (reply code text out) := by
  refine .bind hp ?_
  obtain ⟨e | u, h₁⟩ := out
  · exact .pure _ _
  · exact .pure _ _

/-- A request that nothing gets in between of is served as in `Nasd.Raid.Filesystem`. -/
theorem handle_alone (q : Request) (h : Host σ) :
    Alone O (handle q : Routine ρ Reply) h (Raid.handle O.run q h) := by
  obtain ⟨md, action⟩ := q
  cases action with
  | createFilesystem body =>
    cases body with
    | none => exact .pure _ _
    | some req => exact .ite (.pure _ _) (respond_alone _ _ (CreateFilesystem_alone _ _ _ h))
  | mountFilesystem body =>
    cases body with
    | none => exact .pure _ _
    | some req => exact .ite (.pure _ _) (respond_alone _ _ (MountOnly_alone _ _ _ h))
  | unmountFilesystem body =>
    cases body with
    | none => exact .pure _ _
    | some req => exact .ite (.pure _ _) (respond_alone _ _ (UnmountFilesystem_alone _ h))
  | deleteFilesystem confirm =>
    exact .ite (.pure _ _) (respond_alone _ _ (WipeFilesystem_alone _ h))
  | deleteArray confirm => exact .ite (.pure _ _) (respond_alone _ _ (Stop_alone _ h))

end Routine
end Raid
end Nasd
