import Nasd.Lib.Mangle
import Nasd.Raid.Listing
import Nasd.Raid.MountTable

/-!
# Nasd.Raid.MountPoint

The mount point of a filesystem between the request, the line of `/etc/fstab` and `/proc/mounts`.
The kernel escapes white space and backslashes in its table; nothing is escaped in the line of
fstab, and what is read from either is compared as it stands.

* `mountedBy_ok`            — what a mount that succeeds has done.
* `listedAt_iff`            — the mount point that `ListFilesystems` reports.
* `isEntry_append_iff`      — the line that is written, read as an entry.
* `entered_iff`             — what is in fstab after the call.
* `mount_point_survives_iff` — when the mount point is the same everywhere.
-/

namespace Nasd
namespace Raid

open Text Go Sys

variable {σ : Type} {h : Host σ} {md fsType mp : Str}

/-! ## The mount table -/

/-- An entry of the mount table. -/
structure Mount where
  device : Str
  dir : Str
  fsType : Str
  opts : Str

def Mount.line (m : Mount) : Str :=
  mangle m.device ++ " " ++ mangle m.dir ++ " " ++ mangle m.fsType ++ " " ++ mangle m.opts ++ " 0 0"

/-- `/proc/mounts`, the oldest mount first. -/
def printMounts (ms : List Mount) : Str := (ms.map Mount.line).flatMap (· ++ ['\n'])

/-- A machine with a mount table. `real` is the path that the kernel shows for a path, and `knows`
are the types that `mount -t` takes. Only `mount` and `umount` change the table. -/
structure MountSystem (σ : Type) where
  run : Runner σ
  mounts : σ → List Mount
  real : Str → Str
  knows : Str → Prop
  real_abs : ∀ {p}, HasPrefix p "/" = true → HasPrefix (real p) "/" = true
  knows_word : ∀ {t}, knows t → t ≠ [] ∧ ∀ c ∈ t, isSpace c = false ∧ c ≠ '/'
  uuid_word : ∀ device s, ∀ c ∈ TrimSpace (run (blkid device) s).1.stdout, isSpace c = false
  shows : ∀ s, (run (cat procMounts) s).1 = ⟨printMounts (mounts s), [], none⟩
  others : ∀ (c : Cmd) s, c.name ≠ ("mount" : Str) → c.name ≠ ("umount" : Str) →
    mounts (run c s).2 = mounts s
  mount_type : ∀ {t device p s}, (run (mount t device p) s).1.err = none → t = [] ∨ knows t
  mount_new : ∀ {t device p s}, (run (mount t device p) s).1.err = none →
    ∃ t' opts, mounts (run (mount t device p) s).2 = mounts s ++ [⟨device, real p, t', opts⟩]

variable {S : MountSystem σ}

/-- What `/proc/mounts` shows of the mount point, up to white space. -/
def MountSystem.shown (S : MountSystem σ) (mp : Str) : Str :=
  (mangle (S.real mp)).takeWhile (!isSpace ·)

/-- The mount point of the array before the call, as `nasd` reads it. -/
def MountSystem.before (S : MountSystem σ) (md : Str) (h : Host σ) : Str :=
  mountPointOf md (lines (printMounts (S.mounts h.env)))

/-! ## The two operations -/

inductive MountOp where
  | create
  | existing
  deriving DecidableEq

namespace MountOp

/-- Up to the line of fstab. -/
def mounted (R : Runner σ) (md fsType mp : Str) (h : Host σ) : MountOp → Except Str Unit × Host σ
  | .create => mountNew R md fsType mp h
  | .existing => mountExisting R md fsType mp h

def exec (R : Runner σ) (md fsType mp : Str) (h : Host σ) : MountOp → Except Str Unit × Host σ
  | .create => CreateFilesystem R md fsType mp h
  | .existing => MountOnly R md fsType mp h

end MountOp

/-- A source of fstab that is the array: its name, or the UUID that `blkid` prints for it. -/
def MountSystem.Names (S : MountSystem σ) (md : Str) (s : σ) (src : Str) : Prop :=
  src = md ∨ (S.run (blkid md) s).1.err = none ∧
    src = "UUID=" ++ TrimSpace (S.run (blkid md) s).1.stdout

/-- A line of six fields that mounts the array at the mount point. -/
def MountSystem.IsEntry (S : MountSystem σ) (md mp : Str) (s : σ) (line : Str) : Prop :=
  ∃ src path type opts : Str, words isBlank line = [src, path, type, opts, "0", "0"] ∧
    S.Names md s src ∧ unmangle path = mp ∧ S.knows type

/-- A line that the second text has more often than the first. -/
def Added (t t' line : Str) : Prop := line ≠ [] ∧ (lines t).count line < (lines t').count line

/-- What `h'` has in fstab, where `t` was before: an entry, and no line more that is not one or that
removing the mount point would leave. -/
structure Entered (S : MountSystem σ) (md mp : Str) (s : σ) (t : Str) (h' : Host σ) : Prop where
  entry : ∃ t', h'.files fstab = some t' ∧ ∃ line ∈ lines t', S.IsEntry md mp s line
  added : ∀ t' line, h'.files fstab = some t' → Added t t' line → S.IsEntry md mp s line
  removed : ∀ t' u line, h'.files fstab = some t' → Added t t' line →
    (fstabRemove mp h').files fstab = some u → line ∉ lines u

/-- On every machine with this mount table, the array is listed with the mount point. -/
def ListedAt (table md mp : Str) : Prop :=
  ∀ (σ : Type) (O : OS σ) (s : Site Unit σ),
    (∀ env, (O.run (cat procMounts) env).1 = ⟨table, [], none⟩) →
    ∀ f ∈ ((Routine.ListFilesystems : Routine Unit _).exec (perform O) s).1,
      f.device = md → f.mountPoint = mp

/-- The mount point is the same in fstab, when there is one, in what is read of the mount table, and
when the line is removed. -/
structure Survives (S : MountSystem σ) (md fsType mp : Str) (h : Host σ) (op : MountOp) : Prop where
  entered : ∀ t, h.files fstab = some t →
    Entered S md mp (op.mounted S.run md fsType mp h).2.env t (op.exec S.run md fsType mp h).2
  found : (findMountPoint S.run md (op.exec S.run md fsType mp h).2).1 = mp
  listed : ListedAt (printMounts (S.mounts (op.exec S.run md fsType mp h).2.env)) md mp

/-- The line is in `t` already, but for white space around it, and so is an entry; or it has a type,
its mount point is read as it stands, and the last line of `t` is blank. -/
def Prepared (S : MountSystem σ) (md fsType mp : Str) (h : Host σ) (op : MountOp) (t : Str) : Prop :=
  if fstabEntry (fstabSource S.run md (op.mounted S.run md fsType mp h).2).1 mp fsType ∈
      (lines t).map TrimSpace then
    ∃ line ∈ lines t, S.IsEntry md mp (op.mounted S.run md fsType mp h).2.env line
  else
    fsType ≠ [] ∧ '\\' ∉ mp ∧ ∀ last, (lines t).getLast? = some last → ∀ c ∈ last, isBlank c = true

/-! ## Mounting -/

section

variable {R : Runner σ} {c : Cmd} {what : Str} {cs : List (Cmd × Str)}

theorem runEach_cons : runEach R ((c, what) :: cs) h =
    match (R c h.env).1.err with
    | some e => (.error (what ++ e), (h.run R c).2)
    | none => runEach R cs (h.run R c).2 := rfl

theorem runEach_cons_ok (hok : (runEach R ((c, what) :: cs) h).1 = .ok ()) :
    (R c h.env).1.err = none ∧ runEach R ((c, what) :: cs) h = runEach R cs (h.run R c).2 := by
  rw [runEach_cons] at hok ⊢
  cases herr : (R c h.env).1.err with
  | none => exact ⟨rfl, rfl⟩
  | some e =>
    rw [herr] at hok
    cases hok

end

theorem run_env (R : Runner σ) (c : Cmd) (h : Host σ) : (h.run R c).2.env = (R c h.env).2 := rfl

theorem mounts_run {c : Cmd} (hc : [("mount" : Str), "umount"].contains c.name = false)
    (h : Host σ) : S.mounts (h.run S.run c).2.env = S.mounts h.env := by
  simp only [List.contains_cons, List.contains_nil, Bool.or_eq_false_iff, beq_eq_false_iff_ne] at hc
  exact S.others c h.env hc.1 hc.2.1

theorem mounts_has (cmd : Str) (h : Host σ) :
    S.mounts (has S.run cmd h).2.env = S.mounts h.env :=
  mounts_run (c := commandV cmd) rfl h

theorem mounts_apt (script : Str) (h : Host σ) :
    S.mounts (h.run S.run (apt script)).2.env = S.mounts h.env :=
  mounts_run (c := apt script) rfl h

theorem mounts_install (cmd pkg : Str) (h : Host σ) :
    S.mounts (install S.run cmd pkg h).2.env = S.mounts h.env := by
  unfold install
  dsimp only
  split
  · rw [mounts_has, mounts_has, mounts_apt]
  · rw [mounts_has, mounts_apt, mounts_has, mounts_apt]

theorem mounts_ensureMkfs (cmd fsType : Str) (h : Host σ) :
    S.mounts (ensureMkfs S.run cmd fsType h).2.env = S.mounts h.env := by
  unfold ensureMkfs
  dsimp only
  split
  · exact mounts_has cmd h
  · split
    · exact mounts_has cmd h
    · split <;> rw [mounts_install, mounts_has]

/-- The host is as `h` with the filesystem mounted. -/
def MountsNow (S : MountSystem σ) (md mp : Str) (h h' : Host σ) : Prop :=
  ∃ t opts, S.mounts h'.env = S.mounts h.env ++ [⟨md, S.real mp, t, opts⟩]

theorem mountOps_ok (hok : (runEach S.run (mountOps fsType md mp) h).1 = .ok ()) :
    (fsType = [] ∨ S.knows fsType) ∧
      MountsNow S md mp h (runEach S.run (mountOps fsType md mp) h).2 := by
  obtain ⟨-, hmkdir⟩ := runEach_cons_ok hok
  have hok' : (runEach S.run [(mount fsType md mp, "mount fallito: ")]
      (h.run S.run (mkdir mp)).2).1 = .ok () := by
    rw [← hok]
    exact congrArg Prod.fst hmkdir.symm
  obtain ⟨herr, hmount⟩ := runEach_cons_ok hok'
  obtain ⟨t, opts, hnew⟩ := S.mount_new herr
  refine ⟨S.mount_type herr, t, opts, ?_⟩
  have hfinal : (runEach S.run (mountOps fsType md mp) h).2 =
      ((h.run S.run (mkdir mp)).2.run S.run (mount fsType md mp)).2 :=
    congrArg Prod.snd (hmkdir.trans hmount)
  rw [hfinal, run_env, hnew, mounts_run (c := mkdir mp) rfl]

theorem mountedBy_ok {op : MountOp} (hok : (op.mounted S.run md fsType mp h).1 = .ok ()) :
    ValidMDDevice md = true ∧ validMountPoint mp = true ∧ (fsType = [] ∨ S.knows fsType) ∧
      MountsNow S md mp h (op.mounted S.run md fsType mp h).2 := by
  cases op with
  | existing =>
    unfold MountOp.mounted mountExisting at hok ⊢
    dsimp only at hok ⊢
    cases hv : ValidMDDevice md with
    | false => simp [hv] at hok
    | true =>
      cases hp : validMountPoint mp with
      | false => simp [hv, hp] at hok
      | true =>
        simp only [hv, hp, Bool.not_true, Bool.false_eq_true, if_false] at hok ⊢
        exact ⟨trivial, trivial, mountOps_ok hok⟩
  | create =>
    unfold MountOp.mounted mountNew at hok ⊢
    dsimp only at hok ⊢
    cases hv : ValidMDDevice md with
    | false => simp [hv] at hok
    | true =>
      cases hfs : validFS fsType with
      | none => simp [hv, hfs] at hok
      | some mc =>
        cases hp : validMountPoint mp with
        | false => simp [hv, hfs, hp] at hok
        | true =>
          obtain ⟨cmd, flag⟩ := mc
          simp only [hv, hfs, hp, Bool.not_true, Bool.false_eq_true, if_false] at hok ⊢
          cases hready : (ensureMkfs S.run cmd fsType h).1 with
          | error e => simp [hready] at hok
          | ok u =>
            simp only [hready] at hok ⊢
            obtain ⟨-, hmkfs⟩ := runEach_cons_ok hok
            rw [hmkfs] at hok ⊢
            obtain ⟨htype, t, opts, hnew⟩ := mountOps_ok hok
            have hname : [("mount" : Str), "umount"].contains cmd = false := by
              rcases validFS_cases hfs with ⟨-, rfl⟩ | ⟨-, rfl⟩ | ⟨-, rfl⟩ | ⟨-, rfl⟩ <;> rfl
            refine ⟨trivial, trivial, htype, t, opts, ?_⟩
            rw [hnew, mounts_run (c := ⟨cmd, [flag, md]⟩) hname, mounts_ensureMkfs]

/-! ## Reading the table -/

theorem line_line (m : Mount) : '\n' ∉ m.line := by
  have hblank : '\n' ∉ (" " : Str) := by decide
  have hend : '\n' ∉ (" 0 0" : Str) := by decide
  simp only [Mount.line, List.mem_append, mangle_line, hblank, hend, or_self, not_false_eq_true]

theorem lines_printMounts (ms : List Mount) :
    lines (printMounts ms) = ms.map Mount.line ++ [[]] := by
  refine lines_terminated fun l hl => ?_
  obtain ⟨m, -, rfl⟩ := List.mem_map.mp hl
  exact line_line m

theorem mountPointOf_append (ls ls' : List Str) : mountPointOf md (ls ++ ls') =
    if mountPointOf md ls ≠ [] then mountPointOf md ls else mountPointOf md ls' := by
  induction ls with
  | nil => rfl
  | cons l ls ih =>
    by_cases hl : ∃ mp rest, Fields l = md :: mp :: rest
    · obtain ⟨mp, rest, hf⟩ := hl
      have hmem : mp ∈ Fields l := hf ▸ List.mem_cons_of_mem _ List.mem_cons_self
      have hhit : ∀ ls, mountPointOf md (l :: ls) = mp := fun ls => by simp [mountPointOf, hf]
      rw [List.cons_append, hhit, hhit, if_pos (mem_words hmem).1]
    · have hskip : ∀ ls, mountPointOf md (l :: ls) = mountPointOf md ls := by
        intro ls
        rw [mountPointOf]
        split
        · rename_i src mp rest hf
          refine if_neg fun hsrc => hl ⟨mp, rest, ?_⟩
          rw [hf, hsrc]
        · rfl
      rw [List.cons_append, hskip, hskip, ih]

theorem ValidMDDevice_plain (hv : ValidMDDevice md = true) :
    (∀ c ∈ md, Plain c) ∧ HasPrefix md "/dev/md" = true := by
  have hspace := (ValidMDDevice_clean hv).2
  simp only [ValidMDDevice, Bool.and_eq_true, List.all_eq_true] at hv
  obtain ⟨⟨hpre, -⟩, hdigits⟩ := hv
  refine ⟨fun c hc => ⟨?_, ?_, ?_, ?_⟩, hpre⟩
  · rintro rfl
    cases hspace _ hc
  · rintro rfl
    cases hspace _ hc
  · rintro rfl
    cases hspace _ hc
  · rintro rfl
    obtain ⟨rest, rfl⟩ := HasPrefix_iff.mp hpre
    rcases List.mem_append.mp hc with hc | hc
    · revert hc
      decide
    · cases hdigits _ hc

/-- The line of a new mount: the array, what is shown of the mount point, and more. -/
theorem Fields_new (hv : ValidMDDevice md = true) (hmp : HasPrefix mp "/" = true) (t opts : Str) :
    ∃ x ws, Fields (Mount.line ⟨md, S.real mp, t, opts⟩) = md :: S.shown mp :: x :: ws := by
  obtain ⟨hne, hclean⟩ := ValidMDDevice_clean hv
  have hdev : mangle md = md := mangle_plain (ValidMDDevice_plain hv).1
  obtain ⟨rest, hrest⟩ := HasPrefix_iff.mp (S.real_abs hmp)
  have hdir : mangle (S.real mp) = '/' :: mangle rest := by
    rw [← hrest]
    rfl
  have hline : Mount.line ⟨md, S.real mp, t, opts⟩ =
      md ++ ' ' :: (mangle (S.real mp) ++ ' ' :: (mangle t ++ ' ' :: (mangle opts ++ " 0 0"))) := by
    simp only [Mount.line, hdev, List.append_assoc]
    rfl
  have hspace : isSpace ' ' = true := rfl
  have hend : words isSpace (mangle t ++ ' ' :: (mangle opts ++ " 0 0")) =
      words isSpace (mangle t) ++ (words isSpace (mangle opts) ++ [['0'], ['0']]) := by
    rw [words_append_sep hspace]
    exact congrArg (words isSpace (mangle t) ++ ·) (words_append_sep hspace (mangle opts) "0 0")
  have htail : words isSpace (mangle t ++ ' ' :: (mangle opts ++ " 0 0")) ≠ [] := by
    rw [hend]
    simp
  obtain ⟨x, ws, hx⟩ := List.exists_cons_of_ne_nil htail
  have hshown : words isSpace (mangle (S.real mp)) = S.shown mp ::
      words isSpace ((mangle (S.real mp)).dropWhile (!isSpace ·)) := by
    rw [MountSystem.shown, hdir]
    exact words_takeWhile rfl (mangle rest)
  rw [Fields, hline, words_append_sep hspace, words_append_sep hspace, words_of_clean hne hclean,
    hshown, hx]
  cases words isSpace ((mangle (S.real mp)).dropWhile (!isSpace ·)) with
  | nil => exact ⟨x, ws, rfl⟩
  | cons y ys => exact ⟨y, ys ++ x :: ws, rfl⟩

section

variable {h' : Host σ}

/-- The first entry of the array counts: that of an earlier mount, if there was one. -/
theorem found_iff (hv : ValidMDDevice md = true) (hmp : HasPrefix mp "/" = true)
    (hnow : MountsNow S md mp h h') : mountPointOf md (lines (printMounts (S.mounts h'.env))) = mp ↔
      if S.before md h ≠ [] then S.before md h = mp else S.shown mp = mp := by
  obtain ⟨t, opts, hnew⟩ := hnow
  obtain ⟨x, ws, hfields⟩ := Fields_new (S := S) hv hmp t opts
  have hbefore : S.before md h = mountPointOf md ((S.mounts h.env).map Mount.line) := by
    rw [MountSystem.before, lines_printMounts, mountPointOf_append]
    simp [mountPointOf, Fields_nil]
  have hlast : mountPointOf md [Mount.line ⟨md, S.real mp, t, opts⟩, []] = S.shown mp := by
    simp [mountPointOf, hfields]
  rw [hnew, lines_printMounts, List.map_append, List.append_assoc, mountPointOf_append, ← hbefore]
  split
  · exact Iff.rfl
  · exact Eq.congr_left hlast

/-- The last entry of the array counts. -/
theorem mountOf_new (hv : ValidMDDevice md = true) (hmp : HasPrefix mp "/" = true)
    (hnow : MountsNow S md mp h h') :
    (mountOf (printMounts (S.mounts h'.env)) md).map (·.1) = some (S.shown mp) := by
  obtain ⟨t, opts, hnew⟩ := hnow
  obtain ⟨x, ws, hfields⟩ := Fields_new (S := S) hv hmp t opts
  have hentry : mountEntry (Mount.line ⟨md, S.real mp, t, opts⟩) = some (md, S.shown mp, x) := by
    simp only [mountEntry, hfields]
    exact if_pos (ValidMDDevice_plain hv).2
  have hnil : mountEntry [] = none := rfl
  rw [mountOf, hnew, lines_printMounts, List.map_append, List.append_assoc, List.filterMap_append,
    List.filter_append]
  simp [hentry, hnil]

end

/-! ## The listing -/

section

variable {ρ : Type} {table : Str}

open Routine

/-- What is listed: each array, with the mount point of its last entry. -/
def places (mounts : Str) (arrays : List ArrayInfo) : List (Str × Str) :=
  arrays.map fun a => (a.device, ((mountOf mounts a.device).map (·.1)).getD [])

theorem filesystems_places (mounts : Str) (arrays : List ArrayInfo) :
    Prog.Gives (fun fss => fss.map (fun f => (f.device, f.mountPoint)) = places mounts arrays)
      (filesystems mounts arrays : Routine ρ (List FilesystemInfo)) := by
  induction arrays with
  | nil => exact (rfl : places mounts [] = [])
  | cons a arrays ih =>
    have ha : Prog.Gives (fun f => (f.device, f.mountPoint) =
        (a.device, ((mountOf mounts a.device).map (·.1)).getD []))
        (filesystem mounts a : Routine ρ _) := by
      unfold filesystem
      cases mountOf mounts a.device with
      | none => exact fun out => rfl
      | some m => exact .bind (Q := fun _ => True) (.all fun _ => trivial) fun usage _ => rfl
    refine .bind ha fun f hf => .bind ih fun rest hrest => ?_
    exact congrArg₂ List.cons hf hrest

/-- The listing on a machine with this mount table. -/
theorem listed_places (O : OS σ) (s : Site Unit σ)
    (htable : ∀ env, (O.run (cat procMounts) env).1 = ⟨table, [], none⟩) {arrays : List ArrayInfo}
    (harrays : ((ListArrays : Routine Unit _).exec (perform O) s).1 = .ok arrays) :
    ((ListFilesystems : Routine Unit _).exec (perform O) s).1.map
      (fun f => (f.device, f.mountPoint)) = places table arrays := by
  have hread : ∀ s' : Site Unit σ, ((run (cat procMounts) : Routine Unit Result).exec
      (perform O) s').1 = ⟨table, [], none⟩ := fun s' => htable s'.host.env
  unfold ListFilesystems
  rw [Prog.exec_bind, harrays]
  dsimp only
  rw [Prog.exec_bind, hread]
  exact (filesystems_places table arrays).exec _

theorem listed_mountPoint (O : OS σ) (s : Site Unit σ)
    (htable : ∀ env, (O.run (cat procMounts) env).1 = ⟨table, [], none⟩) :
    ∀ f ∈ ((ListFilesystems : Routine Unit _).exec (perform O) s).1,
      f.mountPoint = ((mountOf table f.device).map (·.1)).getD [] := by
  cases harrays : ((ListArrays : Routine Unit _).exec (perform O) s).1 with
  | error e =>
    unfold ListFilesystems
    rw [Prog.exec_bind, harrays]
    exact List.forall_mem_nil _
  | ok arrays =>
    intro f hf
    have hplace := List.mem_map_of_mem (f := fun f => (f.device, f.mountPoint)) hf
    rw [listed_places O s htable harrays] at hplace
    obtain ⟨a, -, ha⟩ := List.mem_map.mp hplace
    have hdevice : a.device = f.device := congrArg Prod.fst ha
    rw [← hdevice]
    exact (congrArg Prod.snd ha).symm

/-- A machine that has the array and the mount table. -/
def lister (md table : Str) : OS Unit where
  run c env := (⟨if c = cat procMdstat then TrimPrefix md "/dev/"
    else if c = cat procMounts then table else [], [], none⟩, env)
  write _ _ env := (none, env)
  rename _ _ env := (none, env)

theorem mdLines_name (hv : ValidMDDevice md = true) :
    (mdLines (TrimPrefix md "/dev/")).map (fun line => ("/dev/" : Str) ++ arrayName line) =
      [md] := by
  have hplain := (ValidMDDevice_plain hv).1
  obtain ⟨rest, rfl⟩ := HasPrefix_iff.mp (ValidMDDevice_plain hv).2
  have htrim : TrimPrefix ("/dev/md" ++ rest) "/dev/" = "md" ++ rest := rfl
  have hmem : ∀ c ∈ ("md" ++ rest : Str), Plain c := fun c hc =>
    hplain c (List.mem_append_right ("/dev/" : Str) hc)
  have hline : '\n' ∉ ("md" ++ rest : Str) := fun hc => (hmem _ hc).2.2.1 rfl
  have hname : arrayName ("md" ++ rest) = "md" ++ rest :=
    List.takeWhile_eq_self_iff.mpr fun c hc => by simpa using (hmem c hc).1
  have hmd : HasPrefix ("md" ++ rest) "md" = true := HasPrefix_iff.mpr (List.prefix_append _ _)
  have hkept : mdLines ("md" ++ rest) = ["md" ++ rest] := by
    rw [mdLines, lines_of_not_mem hline]
    exact List.filter_cons_of_pos hmd
  rw [htrim, hkept, List.map_singleton, hname]
  rfl

/-- The array is listed there. -/
theorem lister_lists (table : Str) (hv : ValidMDDevice md = true) (s : Site Unit Unit) :
    ∃ a, a.device = md ∧
      ((ListArrays : Routine Unit _).exec (perform (lister md table)) s).1 = .ok [a] := by
  unfold ListArrays
  rw [Prog.exec_bind]
  have hout : ((run (cat procMdstat) : Routine Unit Result).exec (perform (lister md table)) s).1 =
      ⟨TrimPrefix md "/dev/", [], none⟩ := rfl
  rw [hout]
  dsimp only
  rw [mdLines_name hv]
  exact ⟨readDetail md _, readDetail_device md _, rfl⟩

theorem listedAt_iff (table mp : Str) (hv : ValidMDDevice md = true) :
    ListedAt table md mp ↔ ((mountOf table md).map (·.1)).getD [] = mp := by
  constructor
  · intro hlisted
    have hshows : ∀ env, ((lister md table).run (cat procMounts) env).1 = ⟨table, [], none⟩ :=
      fun _ => rfl
    obtain ⟨a, rfl, harrays⟩ := lister_lists table hv ⟨(), Host.start () fun _ => none⟩
    have hplaces := listed_places _ _ hshows harrays
    have hmem : (a.device, ((mountOf table a.device).map (·.1)).getD []) ∈ places table [a] :=
      List.mem_singleton_self _
    rw [← hplaces] at hmem
    obtain ⟨f, hf, hplace⟩ := List.mem_map.mp hmem
    have hreported := hlisted Unit _ _ hshows f hf (congrArg Prod.fst hplace)
    rw [← hreported]
    exact (congrArg Prod.snd hplace).symm
  · rintro rfl σ O s htable f hf rfl
    exact listed_mountPoint O s htable f hf

end

/-! ## The line of fstab -/

theorem source_word (hv : ValidMDDevice md = true) (h : Host σ) :
    (fstabSource S.run md h).1 ≠ [] ∧ ∀ c ∈ (fstabSource S.run md h).1, isSpace c = false := by
  have hprefix : ("UUID=" : Str).all (fun c => !isSpace c) = true := rfl
  have huuid := S.uuid_word md h.env
  unfold fstabSource
  dsimp only
  split
  · exact ValidMDDevice_clean hv
  · split
    · refine ⟨by simp, fun c hc => ?_⟩
      rcases List.mem_append.mp hc with hc | hc
      · simpa using List.all_eq_true.mp hprefix c hc
      · exact huuid c hc
    · exact ValidMDDevice_clean hv

theorem words_fstabEntry (mp fsType : Str) {p : Char → Bool} {src : Str} (htab : p '\t' = true)
    (hne : src ≠ []) (hsrc : ∀ c ∈ src, p c = false) :
    words p (fstabEntry src mp fsType) = src :: (words p mp ++ (words p fsType ++
      words p "nofail,x-systemd.device-timeout=10s\t0\t0")) := by
  have hend : ("\tnofail,x-systemd.device-timeout=10s\t0\t0" : Str) =
      '\t' :: ("nofail,x-systemd.device-timeout=10s\t0\t0" : Str) := rfl
  rw [Kernel.fstabEntry_eq, hend, words_append_sep htab, words_append_sep htab,
    words_append_sep htab, words_of_clean hne hsrc]
  rfl

theorem words_options : words isBlank "nofail,x-systemd.device-timeout=10s\t0\t0" =
    [("nofail,x-systemd.device-timeout=10s" : Str), "0", "0"] := by decide +kernel

theorem isBlank_of_isSpace {c : Char} (hc : isSpace c = false) : isBlank c = false := by
  by_contra hblank
  rw [Bool.not_eq_false] at hblank
  rw [isSpace_of_isBlank hblank] at hc
  cases hc

/-- A word of the line that white space ends is one word to every reader. -/
theorem words_clean {t : Str} (hne : t ≠ []) (ht : ∀ c ∈ t, isSpace c = false) :
    words isBlank t = [t] ∧ words isSpace t = [t] :=
  ⟨words_of_clean hne fun c hc => isBlank_of_isSpace (ht c hc), words_of_clean hne ht⟩

/-- Removing the mount point deletes the line. -/
theorem not_mem_removed {line t u : Str} (hfields : (Fields line)[1]? = some mp)
    (ht : (some u).map (Edit.remove mp).apply = some t) : line ∉ lines t := by
  intro hl
  have hnil : line ≠ [] := by
    rintro rfl
    rw [Fields_nil] at hfields
    cases hfields
  rw [← Option.some.inj ht, Edit.apply_remove] at hl
  have hkept := ((mem_lines_keepLines hnil).mp hl).2
  simp [hfields] at hkept

theorem count_concat (ls : List Str) (last line : Str) :
    (ls ++ [last]).count line = ls.count line + if last = line then 1 else 0 := by
  rw [List.count_append, List.count_singleton]
  simp only [beq_iff_eq]

/-- A line that is appended is added behind what the last line has. -/
theorem added_append {t entry : Str} (hne : entry ≠ []) (hline : '\n' ∉ entry) :
    ∃ last, (lines t).getLast? = some last ∧ last ++ entry ∈ lines (t ++ entry ++ "\n") ∧
      ∀ line, Added t (t ++ entry ++ "\n") line ↔ line = last ++ entry := by
  obtain ⟨ls, last, hlast, happend⟩ := lines_append t
  have hone : '\n' ∉ last ++ entry := by
    rw [List.mem_append, not_or]
    refine ⟨newline_not_mem_of_mem_lines (t := t) ?_, hline⟩
    rw [hlast]
    exact List.mem_append_right _ (List.mem_singleton_self _)
  have hsplit : lines (last ++ (entry ++ "\n")) = [last ++ entry] ++ [[]] := by
    have hend : last ++ (entry ++ "\n") = last ++ entry ++ '\n' :: [] := by simp
    rw [hend, lines_append_newline, lines_of_not_mem hone, lines_nil]
  have hlines : lines (t ++ entry ++ "\n") = ls ++ [last ++ entry] ++ [[]] := by
    rw [List.append_assoc, happend, hsplit, List.append_assoc]
  refine ⟨last, by rw [hlast, List.getLast?_concat], by rw [hlines]; simp, fun line => ?_⟩
  have hnil : last ++ entry ≠ [] := fun h => hne (List.append_eq_nil_iff.mp h).2
  have hother : last ≠ last ++ entry := fun h => hne (List.self_eq_append_right.mp h)
  rw [Added, hlines, hlast, count_concat, count_concat, count_concat]
  constructor
  · rintro ⟨hsome, hmore⟩
    rw [if_neg (Ne.symm hsome)] at hmore
    by_contra hdiff
    rw [if_neg (Ne.symm hdiff)] at hmore
    omega
  · rintro rfl
    refine ⟨hnil, ?_⟩
    rw [if_neg hother, if_pos rfl]
    omega

/-! ## The mount point -/

theorem exec_eq (R : Runner σ) (op : MountOp) : op.exec R md fsType mp h =
    match (op.mounted R md fsType mp h).1 with
    | .error e => (.error e, (op.mounted R md fsType mp h).2)
    | .ok () => (.ok (), fstabAdd R md mp fsType (op.mounted R md fsType mp h).2) := by
  cases op <;> rfl

theorem mounts_fstabAdd (h : Host σ) :
    S.mounts (fstabAdd S.run md mp fsType h).env = S.mounts h.env := by
  have hsource : (fstabSource S.run md h).2 = (h.run S.run (blkid md)).2 := by
    unfold fstabSource
    dsimp only
    split <;> rfl
  unfold fstabAdd
  simp only [hsource]
  split
  · exact mounts_run (c := blkid md) rfl h
  · split
    · exact mounts_run (c := blkid md) rfl h
    · exact mounts_run (c := blkid md) rfl h

theorem findMountPoint_shown (h : Host σ) : (findMountPoint S.run md h).1 =
    mountPointOf md (lines (printMounts (S.mounts h.env))) := by
  have hrun : (h.run S.run (cat procMounts)).1 = ⟨printMounts (S.mounts h.env), [], none⟩ :=
    S.shows h.env
  rw [findMountPoint, hrun]

/-- A mount point that is shown as it is has no white space; and when the text is the same decoded,
it has no backslash. -/
theorem shown_clean (hshown : S.shown mp = mp) : ∀ c ∈ mp, isSpace c = false := by
  intro c hc
  rw [← hshown] at hc
  simpa using List.mem_takeWhile_imp hc

theorem shown_unmangled_iff (hshown : S.shown mp = mp) : unmangle mp = mp ↔ '\\' ∉ mp := by
  have hfixed := unmangle_fixed_iff (p := isSpace) rfl (fun _ => isSpace_of_isDigit) (S.real mp)
  change unmangle (S.shown mp) = S.shown mp ↔ '\\' ∉ S.shown mp at hfixed
  rwa [hshown] at hfixed

/-- An operation that succeeds has mounted the array, whatever the line says. -/
theorem exec_ok {op : MountOp} (hexec : (op.exec S.run md fsType mp h).1 = .ok ()) :
    ValidMDDevice md = true ∧ HasPrefix mp "/" = true ∧ (fsType = [] ∨ S.knows fsType) ∧
      MountsNow S md mp h (op.exec S.run md fsType mp h).2 := by
  have hok : (op.mounted S.run md fsType mp h).1 = .ok () := by
    rw [exec_eq] at hexec
    cases hm : (op.mounted S.run md fsType mp h).1 with
    | error e =>
      rw [hm] at hexec
      cases hexec
    | ok u => rfl
  have hend : (op.exec S.run md fsType mp h).2 =
      fstabAdd S.run md mp fsType (op.mounted S.run md fsType mp h).2 := by
    rw [exec_eq, hok]
  obtain ⟨hv, hp, htype, t, opts, hnew⟩ := mountedBy_ok hok
  exact ⟨hv, (Bool.and_eq_true_iff.mp hp).1, htype, t, opts, by rw [hend, mounts_fstabAdd, hnew]⟩

/-- The source of the line is the array; with anything in front of it, it is no longer. -/
theorem names_source (h : Host σ) : S.Names md h.env (fstabSource S.run md h).1 := by
  unfold fstabSource MountSystem.Names
  have hrun : (h.run S.run (blkid md)).1 = (S.run (blkid md) h.env).1 := rfl
  simp only [hrun]
  cases (S.run (blkid md) h.env).1.err with
  | some e => exact .inl rfl
  | none =>
    simp only
    split
    · exact .inr ⟨trivial, rfl⟩
    · exact .inl rfl

theorem names_glued {w : Str} (hv : ValidMDDevice md = true) (h : Host σ)
    (hnames : S.Names md h.env (w ++ (fstabSource S.run md h).1)) : w = [] := by
  have hself : ∀ {t : Str}, w ++ t = t → w = [] := List.self_eq_append_left.mp ∘ Eq.symm
  have hletter : 'U' ∉ md := by
    simp only [ValidMDDevice, Bool.and_eq_true, List.all_eq_true, HasPrefix_iff] at hv
    obtain ⟨⟨⟨rest, rfl⟩, -⟩, hdigits⟩ := hv
    intro hc
    rcases List.mem_append.mp hc with hc | hc
    · exact absurd hc (by decide)
    · exact absurd (hdigits _ hc) (by decide)
  have hslash : '/' ∈ md := by
    obtain ⟨rest, rfl⟩ := HasPrefix_iff.mp (ValidMDDevice_plain hv).2
    exact List.mem_append_left _ (by decide)
  revert hnames
  unfold fstabSource MountSystem.Names
  have hrun : (h.run S.run (blkid md)).1 = (S.run (blkid md) h.env).1 := rfl
  simp only [hrun]
  cases (S.run (blkid md) h.env).1.err with
  | some e =>
    rintro (hsame | ⟨hnone, -⟩)
    · exact hself hsame
    · cases hnone
  | none =>
    simp only
    split
    · rintro (hmd | ⟨-, hsame⟩)
      · refine absurd ?_ hletter
        rw [← hmd]
        exact List.mem_append_right _ List.mem_cons_self
      · exact hself hsame
    · rename_i hnone
      rw [not_not.mp hnone]
      rintro (hsame | ⟨-, hempty⟩)
      · exact hself hsame
      · have hmem : '/' ∈ w ++ md := List.mem_append_right _ hslash
        rw [hempty] at hmem
        exact absurd hmem (by decide)

/-- The source of an entry is the array's alone, so that what stands before it is blank. -/
theorem blank_of_names {last src : Str} (hv : ValidMDDevice md = true) (h : Host σ)
    (hfirst : words isBlank (last ++ (fstabSource S.run md h).1) = [src])
    (hnames : S.Names md h.env src) : ∀ c ∈ last, isBlank c = true := by
  obtain ⟨hsrcne, hsrc⟩ := source_word (S := S) hv h
  have hblank : ∀ c ∈ (fstabSource S.run md h).1, isBlank c = false := fun c hc =>
    isBlank_of_isSpace (hsrc c hc)
  refine words_eq_nil_iff.mp ?_
  by_cases hends : ∀ c, last.getLast? = some c → isBlank c = true
  · rw [words_append_clean hends hsrcne hblank] at hfirst
    exact (List.append_eq_singleton_iff.mp hfirst).elim And.left fun h => absurd h.2 (by simp)
  · -- its last word is glued to the source
    simp only [not_forall, Bool.not_eq_true] at hends
    obtain ⟨c, hc, hcb⟩ := hends
    obtain ⟨ws, w, hlast, hglued, -⟩ := words_append_glue hc hcb hblank
    rw [hglued] at hfirst
    obtain ⟨rfl, hw⟩ : ws = [] ∧ w ++ (fstabSource S.run md h).1 = src := by
      cases ws with
      | nil => exact ⟨rfl, (List.cons.inj hfirst).1⟩
      | cons v ws => simp at hfirst
    rw [← hw] at hnames
    have hempty := names_glued hv h hnames
    have hmem : w ∈ words isBlank last := by
      rw [hlast]
      exact List.mem_singleton_self _
    exact absurd hempty (mem_words hmem).1

/-- Behind `last`, the line is an entry exactly when `last` is blank, it has a type, and its mount
point is read as it stands. -/
theorem isEntry_append_iff {last : Str} {h : Host σ} (hv : ValidMDDevice md = true)
    (hslash : '/' ∈ mp) (hclean : ∀ c ∈ mp, isSpace c = false)
    (htype : fsType = [] ∨ S.knows fsType) :
    S.IsEntry md mp h.env (last ++ fstabEntry (fstabSource S.run md h).1 mp fsType) ↔
      fsType ≠ [] ∧ unmangle mp = mp ∧ ∀ c ∈ last, isBlank c = true := by
  have htab : isBlank '\t' = true := rfl
  have hwords : words isBlank (last ++ fstabEntry (fstabSource S.run md h).1 mp fsType) =
      words isBlank (last ++ (fstabSource S.run md h).1) ++ (mp :: (words isBlank fsType ++
        [("nofail,x-systemd.device-timeout=10s" : Str), "0", "0"])) := by
    have hend : ("\tnofail,x-systemd.device-timeout=10s\t0\t0" : Str) =
        '\t' :: ("nofail,x-systemd.device-timeout=10s\t0\t0" : Str) := rfl
    rw [Kernel.fstabEntry_eq, hend, ← List.append_assoc, words_append_sep htab,
      words_append_sep htab, words_append_sep htab, words_options,
      (words_clean (List.ne_nil_of_mem hslash) hclean).1]
    rfl
  rw [MountSystem.IsEntry, hwords]
  constructor
  · rintro ⟨src, path, type, opts, hentry, hnames, hpath, hknows⟩
    have hnoslash := (S.knows_word hknows).2
    have hfs : fsType ≠ [] := by
      rintro rfl
      -- without a type the mount point stands in its place
      obtain ⟨-, htail⟩ : words isBlank (last ++ (fstabSource S.run md h).1) = [src, path] ∧
          mp :: [("nofail,x-systemd.device-timeout=10s" : Str), "0", "0"] = [type, opts, "0", "0"] :=
        List.append_inj' hentry rfl
      rw [← (List.cons.inj htail).1] at hnoslash
      exact (hnoslash _ hslash).2 rfl
    have hfsWord := (words_clean hfs fun c hc =>
      ((S.knows_word (htype.resolve_left hfs)).2 c hc).1).1
    rw [hfsWord] at hentry
    obtain ⟨hfirst, htail⟩ : words isBlank (last ++ (fstabSource S.run md h).1) = [src] ∧
        mp :: fsType :: [("nofail,x-systemd.device-timeout=10s" : Str), "0", "0"] =
          [path, type, opts, "0", "0"] := List.append_inj' hentry rfl
    rw [← (List.cons.inj htail).1] at hpath
    exact ⟨hfs, hpath, blank_of_names hv h hfirst hnames⟩
  · rintro ⟨hfs, hpath, hlast⟩
    obtain ⟨hsrcne, hsrc⟩ := source_word (S := S) hv h
    have hknown := htype.resolve_left hfs
    refine ⟨(fstabSource S.run md h).1, mp, fsType, "nofail,x-systemd.device-timeout=10s", ?_,
      names_source h, hpath, hknown⟩
    rw [words_append_left hlast, words_of_clean hsrcne fun c hc => isBlank_of_isSpace (hsrc c hc),
      (words_clean hfs fun c hc => ((S.knows_word hknown).2 c hc).1).1]
    rfl

theorem fields_append {last src : Str} (hlast : ∀ c ∈ last, isBlank c = true) (hne : src ≠ [])
    (hsrc : ∀ c ∈ src, isSpace c = false) (hmp : words isSpace mp = [mp]) :
    (Fields (last ++ fstabEntry src mp fsType))[1]? = some mp := by
  rw [Fields, words_append_left fun c hc => isSpace_of_isBlank (hlast c hc),
    words_fstabEntry mp fsType rfl hne hsrc, hmp]
  rfl

theorem entry_oneLine {src : Str} (hsrc : ∀ c ∈ src, isSpace c = false)
    (hclean : ∀ c ∈ mp, isSpace c = false) (htype : fsType = [] ∨ S.knows fsType) :
    '\n' ∉ fstabEntry src mp fsType := by
  have hword : ∀ {w : Str}, (∀ c ∈ w, isSpace c = false) → '\n' ∉ w := fun hw hc => by
    cases hw _ hc
  have hfs : '\n' ∉ fsType := by
    rcases htype with rfl | hknown
    · exact List.not_mem_nil
    · exact hword fun c hc => ((S.knows_word hknown).2 c hc).1
  have htab : '\n' ∉ ("\t" : Str) := by decide
  have hend : '\n' ∉ ("\tnofail,x-systemd.device-timeout=10s\t0\t0" : Str) := by decide
  simp only [fstabEntry, List.mem_append, hword hsrc, hword hclean, hfs, htab, hend, or_self,
    not_false_eq_true]

theorem mounted_files {R : Runner σ} (op : MountOp) :
    (op.mounted R md fsType mp h).2.files = h.files := by
  cases op with
  | create => exact mountNew_files
  | existing => exact mountExisting_files

/-- The file after an operation that succeeds. -/
theorem exec_fstab {op : MountOp} {t : Str} (hexec : (op.exec S.run md fsType mp h).1 = .ok ())
    (ht : h.files fstab = some t) :
    (op.exec S.run md fsType mp h).2.files fstab =
      some ((addEdit S.run md mp fsType (op.mounted S.run md fsType mp h).2).apply t) := by
  have hfiles : (op.mounted S.run md fsType mp h).2.files fstab = some t :=
    (congrFun (mounted_files op) _).trans ht
  rw [exec_eq] at hexec ⊢
  cases hm : (op.mounted S.run md fsType mp h).1 with
  | error e =>
    rw [hm] at hexec
    cases hexec
  | ok u => exact (fstabAdd_fstab).trans (by rw [hfiles]; rfl)

/-- When the file is left as it was, an entry must be in it already. -/
theorem entered_same {env : σ} {t : Str} {h' : Host σ} (hfile : h'.files fstab = some t) :
    Entered S md mp env t h' ↔ ∃ line ∈ lines t, S.IsEntry md mp env line := by
  have hnone : ∀ t' line, h'.files fstab = some t' → ¬ Added t t' line := by
    intro t' line ht' hadd
    rw [hfile] at ht'
    cases ht'
    exact absurd hadd.2 (Nat.lt_irrefl _)
  constructor
  · intro hs
    obtain ⟨t', ht', hentry⟩ := hs.entry
    rw [hfile] at ht'
    cases ht'
    exact hentry
  · intro hentry
    exact ⟨⟨t, hfile, hentry⟩, fun t' line ht' hadd => absurd hadd (hnone t' line ht'),
      fun t' u line ht' hadd _ => absurd hadd (hnone t' line ht')⟩

/-- When one line is added that names the mount point, it must be an entry. -/
theorem entered_added {env : σ} {t t' new : Str} {h' : Host σ} (hfile : h'.files fstab = some t')
    (hmem : new ∈ lines t') (hadded : ∀ line, Added t t' line ↔ line = new)
    (hfield : S.IsEntry md mp env new → (Fields new)[1]? = some mp) :
    Entered S md mp env t h' ↔ S.IsEntry md mp env new := by
  constructor
  · intro hs
    exact hs.added _ _ hfile ((hadded _).mpr rfl)
  · intro hentry
    refine ⟨⟨_, hfile, _, hmem, hentry⟩, fun u line hu hadd => ?_, fun u v line hu hadd hv => ?_⟩
    · rw [hfile] at hu
      cases hu
      rw [(hadded _).mp hadd]
      exact hentry
    · rw [hfile] at hu
      cases hu
      rw [fstabRemove_fstab, hfile] at hv
      rw [(hadded _).mp hadd]
      exact not_mem_removed (hfield hentry) hv

theorem entered_iff {op : MountOp} {t : Str} (hexec : (op.exec S.run md fsType mp h).1 = .ok ())
    (ht : h.files fstab = some t) (hshown : S.shown mp = mp) :
    Entered S md mp (op.mounted S.run md fsType mp h).2.env t (op.exec S.run md fsType mp h).2 ↔
      Prepared S md fsType mp h op t := by
  obtain ⟨hv, habs, htype, -⟩ := exec_ok hexec
  have hfile := exec_fstab hexec ht
  have hclean := shown_clean hshown
  have hslash : '/' ∈ mp := by
    obtain ⟨rest, rfl⟩ := HasPrefix_iff.mp habs
    exact List.mem_cons_self
  have hfiles : (op.mounted S.run md fsType mp h).2.files fstab = some t :=
    (congrFun (mounted_files op) _).trans ht
  rw [addEdit, hfiles] at hfile
  unfold Prepared
  generalize hm : (op.mounted S.run md fsType mp h).2 = hm' at *
  obtain ⟨hsrcne, hsrc⟩ := source_word (S := S) hv hm'
  dsimp only at hfile
  split
  · rename_i hpresent
    rw [if_pos hpresent] at hfile
    exact entered_same hfile
  · rename_i habsent
    rw [if_neg habsent, Edit.apply] at hfile
    have hne : fstabEntry (fstabSource S.run md hm').1 mp fsType ≠ [] := by
      simp [fstabEntry]
    obtain ⟨last, hlast, hmem, hadded⟩ :=
      added_append (t := t) hne (entry_oneLine (S := S) hsrc hclean htype)
    have hiff : S.IsEntry md mp hm'.env
        (last ++ fstabEntry (fstabSource S.run md hm').1 mp fsType) ↔ _ :=
      isEntry_append_iff hv hslash hclean htype
    rw [shown_unmangled_iff hshown] at hiff
    have hblank : (∀ l, (lines t).getLast? = some l → ∀ c ∈ l, isBlank c = true) ↔
        ∀ c ∈ last, isBlank c = true := by
      rw [hlast]
      exact ⟨fun h => h last rfl, fun h l hl => Option.some.inj hl ▸ h⟩
    rw [hblank, ← hiff]
    exact entered_added hfile hmem hadded fun hentry =>
      fields_append (hiff.mp hentry).2.2 hsrcne hsrc
        (words_clean (List.ne_nil_of_mem hslash) hclean).2

/-- A mount point survives exactly when it is the path that the kernel shows, the array is not
mounted elsewhere already, and its line fits in fstab. -/
theorem mount_point_survives_iff (S : MountSystem σ) (md fsType mp : Str) (h : Host σ)
    (op : MountOp) :
    ((op.exec S.run md fsType mp h).1 = .ok () → Survives S md fsType mp h op) ↔
      ((op.exec S.run md fsType mp h).1 = .ok () →
        S.shown mp = mp ∧ (S.before md h ≠ [] → S.before md h = mp) ∧
          ∀ t, h.files fstab = some t → Prepared S md fsType mp h op t) := by
  refine forall_congr' fun hexec => ?_
  obtain ⟨hv, habs, -, hnow⟩ := exec_ok hexec
  have hfound := found_iff hv habs hnow
  have hlisted := listedAt_iff (printMounts (S.mounts (op.exec S.run md fsType mp h).2.env)) mp hv
  rw [mountOf_new hv habs hnow] at hlisted
  constructor
  · intro hs
    have hshown : S.shown mp = mp := hlisted.mp hs.listed
    refine ⟨hshown, fun hbefore => ?_, fun t ht => (entered_iff hexec ht hshown).mp (hs.entered t ht)⟩
    have hsame := hfound.mp ((findMountPoint_shown _).symm.trans hs.found)
    rwa [if_pos hbefore] at hsame
  · rintro ⟨hshown, hbefore, hfits⟩
    constructor
    · intro t ht
      exact (entered_iff hexec ht hshown).mpr (hfits t ht)
    · rw [findMountPoint_shown, hfound]
      split
      · rename_i hb
        exact hbefore hb
      · exact hshown
    · exact hlisted.mpr hshown

/-- No file system type has it. -/
def notType (c : Char) : Bool := isSpace c || c = '/'

/-- A machine with a mount table on which every command succeeds, but for `mount` with a type that
is no word, or has a slash. -/
def tableRun : Runner (List Mount) := fun c ms =>
  if c = cat procMounts then (⟨printMounts ms, [], none⟩, ms)
  else if c.name = "mount" then
    match c.args with
    | [_, t, device, p] =>
      if t = [] ∨ t.any notType then (⟨[], "unknown filesystem type", some "exit status 32"⟩, ms)
      else (⟨[], [], none⟩, ms ++ [⟨device, p, t, "rw"⟩])
    | [device, p] => (⟨[], [], none⟩, ms ++ [⟨device, p, "ext4", "rw"⟩])
    | _ => (⟨[], [], some "exit status 1"⟩, ms)
  else (⟨[], [], none⟩, ms)

theorem tableRun_mount (t device p : Str) (ms : List Mount) :
    tableRun (mount t device p) ms =
      if t = [] then (⟨[], [], none⟩, ms ++ [⟨device, p, "ext4", "rw"⟩])
      else if t.any notType then (⟨[], "unknown filesystem type", some "exit status 32"⟩, ms)
      else (⟨[], [], none⟩, ms ++ [⟨device, p, t, "rw"⟩]) := by
  have hcat : mount t device p ≠ cat procMounts := fun h => by
    cases congrArg Cmd.name h
  have hname : (mount t device p).name = "mount" := rfl
  rw [tableRun, if_neg hcat, if_pos hname]
  by_cases ht : t = []
  · have hargs : (mount t device p).args = [device, p] := if_neg fun h => h ht
    rw [if_pos ht, hargs]
  · have hargs : (mount t device p).args = [("-t" : Str), t, device, p] := if_pos ht
    rw [if_neg ht, hargs]
    simp only [ht, false_or]

def tableSystem : MountSystem (List Mount) where
  run := tableRun
  mounts := id
  real := id
  knows t := t ≠ [] ∧ ∀ c ∈ t, isSpace c = false ∧ c ≠ '/'
  real_abs := id
  knows_word := id
  uuid_word device s := by
    have hout : TrimSpace (tableRun (blkid device) s).1.stdout = [] := rfl
    rw [hout]
    exact List.forall_mem_nil _
  shows _ := rfl
  others c s hmount _ := by
    by_cases hcat : c = cat procMounts
    · rw [tableRun, if_pos hcat]
    · rw [tableRun, if_neg hcat, if_neg hmount]
  mount_type {t device p s} hok := by
    rw [tableRun_mount] at hok
    by_cases ht : t = []
    · exact .inl ht
    · rw [if_neg ht] at hok
      split at hok
      · cases hok
      · rename_i hspace
        exact .inr ⟨ht, by simpa [notType] using hspace⟩
  mount_new {t device p s} hok := by
    rw [tableRun_mount] at hok ⊢
    split
    · exact ⟨_, _, rfl⟩
    · rename_i ht
      rw [if_neg ht] at hok
      split at hok
      · cases hok
      · rename_i hspace
        rw [if_neg hspace]
        exact ⟨_, _, rfl⟩

/-- A host on which nothing is mounted, with this fstab. -/
def hostWith (text : Str) : Host (List Mount) :=
  .start [] fun p => if p = fstab then some text else none

/-- A mount point with a space: the line of fstab has seven fields, and what is read of the mount
table is `/srv/my\040data`. -/
theorem space_lost :
    ¬ ((MountOp.existing.exec tableSystem.run "/dev/md0" "ext4" "/srv/my data" (hostWith [])).1 =
        .ok () →
      Survives tableSystem "/dev/md0" "ext4" "/srv/my data" (hostWith []) .existing) := by
  intro hs
  have hfound := (hs (by decide +kernel)).found
  revert hfound
  decide +kernel

/-- Behind a last line without a line break, the line is no entry. -/
example : ((MountOp.existing.exec tableSystem.run "/dev/md0" "ext4" "/srv/data"
    (hostWith "/dev/sda1 / ext4 defaults 0 1")).2.files fstab).map
      (fun t => (lines t).map fun l => (words isBlank l).length) = some [11, 0] := by
  decide +kernel

end Raid
end Nasd
