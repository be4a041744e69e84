import Nasd.Raid.Fstab

/-!
# Nasd.Raid.Removal

Which lines of `/etc/fstab` a `WipeFilesystem` or a `Stop` that succeeds takes out. `fstabAdd`
writes the filesystem's UUID as the source of an entry; what is removed goes by the mount point,
which is looked up by the device.

* `WipeFilesystem_ok_iff`     — when `WipeFilesystem` succeeds, and with which mount point.
* `removes_own_entries_iff`   — when the lines taken out are the entries of the array.
-/

namespace Nasd
namespace Raid

open Text Go Sys

variable {σ : Type} {R : Runner σ} {h : Host σ} {md mp : Str} {uuid : Option Str}

/-! ## Entries -/

/-- An entry of the array's filesystem, as fstab is read: a source, the device or the UUID, and a
mount point. -/
def ownEntry (uuid : Option Str) (md line : Str) : Bool :=
  match words isBlank line with
  | src :: _ :: _ => src = md || uuid.any fun u => src = "UUID=" ++ u
  | _ => false

/-- Exactly the entries of the array's filesystem are gone. -/
def RemovesOwn (uuid : Option Str) (md : Str) (h h' : Host σ) : Prop :=
  h'.files fstab = (h.files fstab).map (keepLines fun l => !ownEntry uuid md l)

/-- The mount point by which lines are removed, against the entries. -/
def OnlyOwnAt (uuid : Option Str) (md mp : Str) (h : Host σ) : Prop :=
  ∀ l ∈ lines (fstabText h), (Fields l)[1]? = some mp ↔ ownEntry uuid md l = true

/-- There is no entry to be removed. -/
def NoOwn (uuid : Option Str) (md : Str) (h : Host σ) : Prop :=
  ∀ l ∈ lines (fstabText h), ownEntry uuid md l = false

theorem removes_iff {h' : Host σ}
    (hfile : h'.files fstab = (h.files fstab).map (Edit.remove mp).apply) :
    RemovesOwn uuid md h h' ↔ OnlyOwnAt uuid md mp h := by
  have hagree : ∀ l, (decide ((Fields l)[1]? ≠ some mp) = !ownEntry uuid md l) ↔
      ((Fields l)[1]? = some mp ↔ ownEntry uuid md l = true) := by
    intro l
    cases ownEntry uuid md l <;> simp
  unfold RemovesOwn OnlyOwnAt fstabText
  rw [hfile, Edit.apply_remove]
  cases h.files fstab with
  | none => simp [ownEntry, Fields_nil]
  | some t =>
    have hnil : decide ((Fields [])[1]? ≠ some mp) = true := by simp [Fields_nil]
    simp only [Option.map_some, Option.some.injEq, Option.getD_some]
    rw [keepLines_inj hnil rfl]
    exact forall₂_congr fun l _ => hagree l

theorem removes_none_iff {h' : Host σ} (hfile : h'.files fstab = h.files fstab) :
    RemovesOwn uuid md h h' ↔ NoOwn uuid md h := by
  unfold RemovesOwn NoOwn fstabText
  rw [hfile]
  cases h.files fstab with
  | none => simp [ownEntry]
  | some t =>
    simp only [Option.map_some, Option.some.injEq, Option.getD_some]
    rw [eq_comm, keepLines_eq_self rfl]
    simp

/-! ## The two operations -/

/-- The mount point in `/proc/mounts`, else that of the device in fstab, else a guess. -/
def wipePoint (R : Runner σ) (md : Str) (h : Host σ) : Str :=
  if mountedAt R md h ≠ [] then mountedAt R md h
  else if fstabMountPoint md h ≠ [] then fstabMountPoint md h
  else "/srv/nas/" ++ TrimPrefix md "/dev/"

/-- The host when `WipeFilesystem` has taken out the lines. -/
def emptied (R : Runner σ) (md : Str) (h : Host σ) : Host σ :=
  fstabRemove (wipePoint R md h)
    (if mountedAt R md h ≠ [] then ((looked R h).run R (umount md)).2 else looked R h)

/-- The name is valid, and neither unmounting nor `wipefs` fails. -/
def Wipes (R : Runner σ) (md : Str) (h : Host σ) : Prop :=
  ValidMDDevice md = true ∧
    (mountedAt R md h ≠ [] → (R (umount md) (looked R h).env).1.err = none) ∧
    (R (wipefs md) (emptied R md h).env).1.err = none

/-- The name is valid and `mdadm --stop` does not fail. -/
def Stops (R : Runner σ) (md : Str) (h : Host σ) : Prop :=
  ValidMDDevice md = true ∧ (stopAnswer R md h).err = none

theorem wipedMountPoint_eq (R : Runner σ) (md : Str) (h : Host σ) :
    (∃ e, wipedMountPoint R md h = (.error e, ((looked R h).run R (umount md)).2) ∧
      mountedAt R md h ≠ [] ∧ (R (umount md) (looked R h).env).1.err ≠ none) ∨
    (fstabRemove (wipePoint R md h) (wipedMountPoint R md h).2 = emptied R md h ∧
      (wipedMountPoint R md h).1 = .ok (wipePoint R md h) ∧
      (mountedAt R md h ≠ [] → (R (umount md) (looked R h).env).1.err = none)) := by
  have hlook : (findMountPoint R md h).2 = looked R h := findMountPoint_snd
  have hrun : ((looked R h).run R (umount md)).1 = (R (umount md) (looked R h).env).1 := rfl
  have hfstab : fstabMountPoint md (looked R h) = fstabMountPoint md h := rfl
  unfold wipedMountPoint emptied wipePoint
  simp only [hlook, hfstab, runEach, hrun]
  by_cases hmp : mountedAt R md h = []
  · have hmp' : (findMountPoint R md h).1 = [] := hmp
    refine .inr ?_
    simp only [hmp, hmp', ne_eq, not_true_eq_false, if_false]
    split <;> exact ⟨rfl, rfl, fun hno => absurd hno id⟩
  · have hmp' : (findMountPoint R md h).1 ≠ [] := hmp
    simp only [hmp, hmp', ne_eq, not_false_eq_true, if_true]
    cases herr : (R (umount md) (looked R h).env).1.err with
    | none => exact .inr ⟨rfl, rfl, fun _ => rfl⟩
    | some e => exact .inl ⟨_, rfl, trivial, Option.some_ne_none e⟩

theorem WipeFilesystem_ok_iff : (WipeFilesystem R md h).1 = .ok () ↔ Wipes R md h := by
  unfold WipeFilesystem Wipes
  cases hv : ValidMDDevice md with
  | false => simp
  | true =>
    rcases wipedMountPoint_eq R md h with ⟨e, hfail, hmp, herr⟩ | ⟨hhost, hok, hunmount⟩
    · simp [hfail, hmp, herr]
    · have hrun : ((emptied R md h).run R (wipefs md)).1 =
          (R (wipefs md) (emptied R md h).env).1 := rfl
      simp only [Bool.not_true, Bool.false_eq_true, if_false, hok, hhost, runEach, hrun]
      cases (R (wipefs md) (emptied R md h).env).1.err with
      | some e => simp
      | none =>
        refine iff_of_true ?_ ⟨trivial, hunmount, rfl⟩
        dsimp only
        split <;> rfl

theorem Stop_ok_iff : (Stop R md h).1 = .ok () ↔ Stops R md h := by
  have herror : (∃ e, (Stop R md h).1 = .error e) ↔
      ValidMDDevice md = false ∨ (stopAnswer R md h).err ≠ none := Stop_error_iff
  unfold Stops
  cases hout : (Stop R md h).1 with
  | error e =>
    rw [hout] at herror
    have hbad := herror.mp ⟨e, rfl⟩
    refine iff_of_false (fun hno => by cases hno) ?_
    rintro ⟨hv, hstop⟩
    rcases hbad with hbad | hbad
    · rw [hv] at hbad
      cases hbad
    · exact hbad hstop
  | ok u =>
    rw [hout] at herror
    have hgood : ¬ (ValidMDDevice md = false ∨ (stopAnswer R md h).err ≠ none) := by
      intro hbad
      obtain ⟨e, he⟩ := herror.mpr hbad
      cases he
    simp only [not_or, Bool.not_eq_false, ne_eq, not_not] at hgood
    exact iff_of_true rfl hgood

/-! ## Both operations -/

theorem wipe_removes_iff (hw : Wipes R md h) :
    RemovesOwn uuid md h (WipeFilesystem R md h).2 ↔ OnlyOwnAt uuid md (wipePoint R md h) h := by
  refine removes_iff ?_
  have hedit : wipeEdit R md h = .remove (wipePoint R md h) := by
    rcases wipedMountPoint_eq R md h with ⟨e, -, hmp, herr⟩ | ⟨-, hok, -⟩
    · exact absurd (hw.2.1 hmp) herr
    · unfold wipeEdit
      rw [if_pos hw.1, hok]
  rw [WipeFilesystem_fstab, hedit]

theorem stop_removes_iff (hs : Stops R md h) :
    RemovesOwn uuid md h (Stop R md h).2 ↔
      if mountedAt R md h ≠ [] then OnlyOwnAt uuid md (mountedAt R md h) h
      else NoOwn uuid md h := by
  have hfile : (Stop R md h).2.files fstab = (h.files fstab).map (stopEdit R md h).apply :=
    Stop_fstab
  unfold stopEdit at hfile
  split
  · rename_i hmp
    rw [if_pos ⟨hs.1, hmp⟩] at hfile
    exact removes_iff hfile
  · rename_i hmp
    rw [if_neg fun hboth => hmp hboth.2] at hfile
    exact removes_none_iff (by rw [hfile]; simp)

/-- What a `WipeFilesystem` or a `Stop` that succeeds takes out of fstab are exactly the entries of
the array's filesystem if and only if the lines with the mount point that it looked up are. -/
theorem removes_own_entries_iff (R : Runner σ) (uuid : Option Str) (md : Str) (h : Host σ) :
    (((WipeFilesystem R md h).1 = .ok () → RemovesOwn uuid md h (WipeFilesystem R md h).2) ∧
      ((Stop R md h).1 = .ok () → RemovesOwn uuid md h (Stop R md h).2)) ↔
    (Wipes R md h → OnlyOwnAt uuid md (wipePoint R md h) h) ∧
      (Stops R md h → if mountedAt R md h ≠ [] then OnlyOwnAt uuid md (mountedAt R md h) h
        else NoOwn uuid md h) := by
  rw [WipeFilesystem_ok_iff, Stop_ok_iff]
  exact and_congr (forall_congr' fun hw => wipe_removes_iff hw)
    (forall_congr' fun hs => stop_removes_iff hs)

/-- A machine with nothing mounted, on which every command succeeds. -/
def unmounted : Runner Unit := fun _ s => (⟨[], [], none⟩, s)

/-- `md0` is not mounted; its filesystem has an entry for `/srv/data`, and another one has the
folder that the interface proposes for `md0`. -/
def dataHost : Host Unit :=
  Host.start () (Function.update (fun _ => none) fstab
    (some "UUID=a\t/srv/data\text4\nUUID=b\t/srv/nas/md0\text4\n"))

/-- Wiping `md0` takes out the entry of the other filesystem and leaves its own; stopping it leaves
its own as well. -/
theorem wipe_takes_other :
    ¬ ((WipeFilesystem unmounted "/dev/md0" dataHost).1 = .ok () →
        RemovesOwn (some "a") "/dev/md0" dataHost
          (WipeFilesystem unmounted "/dev/md0" dataHost).2) ∧
      (WipeFilesystem unmounted "/dev/md0" dataHost).2.files fstab =
        some "UUID=a\t/srv/data\text4\n" ∧
      ¬ ((Stop unmounted "/dev/md0" dataHost).1 = .ok () →
        RemovesOwn (some "a") "/dev/md0" dataHost (Stop unmounted "/dev/md0" dataHost).2) := by
  refine ⟨fun h => ?_, ?_, fun h => ?_⟩
  · exact absurd (h (by decide +kernel)) (by unfold RemovesOwn; decide +kernel)
  · decide +kernel
  · exact absurd (h (by decide +kernel)) (by unfold RemovesOwn; decide +kernel)

end Raid
end Nasd
