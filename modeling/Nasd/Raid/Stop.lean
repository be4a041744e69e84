import Nasd.Raid.Edits

/-!
# Nasd.Raid.Stop

What a failed `Stop` leaves in `/etc/fstab` and `/etc/mdadm/mdadm.conf`. Both are edited before
the command that stops the array, so a failure keeps them only when there was nothing to edit.

* `Stop_error_iff` — when `Stop` returns an error.
* `Stop_conf`, `Stop_fstab_mounted`, `Stop_fstab_unmounted` — both files after any run of `Stop` on a
  valid name.
-/

namespace Nasd
namespace Raid

open Text Go Sys

variable {σ : Type} {R : Runner σ} {md : Str} {h : Host σ}

/-- The system's answer to the command that stops the array. -/
def stopAnswer (R : Runner σ) (md : Str) (h : Host σ) : Result :=
  (R (mdadmStop md) (prepareStop R md h).2.env).1

def MountedAt (R : Runner σ) (md mp : Str) (h : Host σ) : Prop :=
  mp ≠ [] ∧ (R (cat procMounts) h.env).1.err = none ∧
    mountPointOf md (lines (R (cat procMounts) h.env).1.stdout) = mp

/-- No line of `/etc/fstab` mounts something where the array is mounted. -/
def FstabSilent (R : Runner σ) (md : Str) (h : Host σ) : Prop :=
  ∀ mp, MountedAt R md mp h →
    ∀ t, h.files fstab = some t → ∀ l ∈ lines t, (Fields l)[1]? ≠ some mp

/-- No `ARRAY` line of `mdadm.conf` contains the array's name. -/
def ConfSilent (md : Str) (h : Host σ) : Prop :=
  ∀ t, h.files mdadmConf = some t → ∀ l ∈ lines t, namesArray md l = false

/-! ## The two outcomes -/

theorem Stop_invalid (hv : ValidMDDevice md = false) :
    Stop R md h = (.error ("device md non valido: " ++ md), h) := by
  simp [Stop, hv]

theorem Stop_error_iff :
    (∃ e, (Stop R md h).1 = .error e) ↔
      ValidMDDevice md = false ∨ (stopAnswer R md h).err ≠ none := by
  cases hv : ValidMDDevice md with
  | false => simp [Stop_invalid hv]
  | true =>
    have hrun : ((prepareStop R md h).2.run R (mdadmStop md)).1 = stopAnswer R md h := rfl
    simp only [Stop, hv, Bool.not_true, Bool.false_eq_true, if_false, hrun]
    split
    · rename_i e he; simp [he]
    · rename_i he; simp [he]

/-! ## Files -/

theorem Stop_files (hv : ValidMDDevice md = true) :
    (Stop R md h).2.files = (prepareStop R md h).2.files := by
  simp only [Stop, hv, Bool.not_true, Bool.false_eq_true, if_false]
  split
  · rfl
  · rw [clearMembers_files]; rfl

theorem MountedAt_iff {mp : Str} :
    MountedAt R md mp h ↔ mp ≠ [] ∧ (findMountPoint R md h).1 = mp := by
  have hrun : (h.run R (cat procMounts)).1 = (R (cat procMounts) h.env).1 := rfl
  simp only [MountedAt, findMountPoint, hrun]
  refine and_congr_right fun hmp => ?_
  split
  · rename_i e he; simp [he, hmp.symm]
  · rename_i he; simp [he]

theorem Stop_conf (hv : ValidMDDevice md = true) :
    (Stop R md h).2.files mdadmConf =
      (h.files mdadmConf).map (keepLines fun l => !namesArray md l) := by
  rw [Stop_files hv]
  simp only [prepareStop, mdadmConfRemove_conf, arrayMembers_snd, Host.run_files]
  split
  · simp
  · simp

theorem Stop_fstab_mounted {mp : Str} (hv : ValidMDDevice md = true) (hm : MountedAt R md mp h) :
    (Stop R md h).2.files fstab =
      (h.files fstab).map (keepLines fun l => (Fields l)[1]? ≠ some mp) := by
  obtain ⟨hmp, hfind⟩ := MountedAt_iff.mp hm
  rw [Stop_files hv]
  simp only [prepareStop, mdadmConfRemove_fstab, arrayMembers_snd, Host.run_files, hfind]
  rw [if_pos hmp]
  simp

theorem Stop_fstab_unmounted (hv : ValidMDDevice md = true) (hm : ∀ mp, ¬ MountedAt R md mp h) :
    (Stop R md h).2.files fstab = h.files fstab := by
  have hfind : (findMountPoint R md h).1 = [] := by
    by_contra hne
    exact hm _ (MountedAt_iff.mpr ⟨hne, rfl⟩)
  rw [Stop_files hv]
  simp [prepareStop, hfind, arrayMembers_snd]

/-- Filtering leaves a file alone when no line of it is dropped. -/
theorem map_keepLines_eq_self {p : Str → Bool} (hp : p [] = true) {o : Option Str} :
    o.map (keepLines p) = o ↔ ∀ t, o = some t → ∀ l ∈ lines t, p l = true := by
  cases o with
  | none => simp
  | some t => simp [keepLines_eq_self hp]

theorem Stop_conf_unchanged_iff (hv : ValidMDDevice md = true) :
    (Stop R md h).2.files mdadmConf = h.files mdadmConf ↔ ConfSilent md h := by
  rw [Stop_conf hv, map_keepLines_eq_self rfl]
  simp [ConfSilent]

theorem Stop_fstab_unchanged_iff (hv : ValidMDDevice md = true) :
    (Stop R md h).2.files fstab = h.files fstab ↔ FstabSilent R md h := by
  by_cases hm : ∃ mp, MountedAt R md mp h
  · obtain ⟨mp, hm⟩ := hm
    have honly : ∀ mp', MountedAt R md mp' h → mp' = mp := fun mp' hm' =>
      hm'.2.2.symm.trans hm.2.2
    rw [Stop_fstab_mounted hv hm, map_keepLines_eq_self (by simp [Fields_nil])]
    constructor
    · intro hkeep mp' hm' t ht l hl
      rw [honly mp' hm']
      simpa using hkeep t ht l hl
    · intro hsilent t ht l hl
      simpa using hsilent mp hm t ht l hl
  · have hnone : ∀ mp, ¬ MountedAt R md mp h := fun mp hm' => hm ⟨mp, hm'⟩
    simp only [Stop_fstab_unmounted hv hnone, true_iff]
    intro mp hm'
    exact absurd hm' (hnone mp)

/-- A failed `Stop` has left both files alone exactly when the name was refused, or neither file
had a line to lose. -/
theorem Stop_error_keeps_files_iff (R : Runner σ) (md : Str) (h : Host σ) :
    ((∃ e, (Stop R md h).1 = .error e) →
      (Stop R md h).2.files fstab = h.files fstab ∧
      (Stop R md h).2.files mdadmConf = h.files mdadmConf) ↔
    ValidMDDevice md = false ∨ (stopAnswer R md h).err = none ∨
      (FstabSilent R md h ∧ ConfSilent md h) := by
  rw [Stop_error_iff]
  cases hv : ValidMDDevice md with
  | false => simp [Stop_invalid hv]
  | true =>
    rw [Stop_fstab_unchanged_iff hv, Stop_conf_unchanged_iff hv]
    simp only [Bool.true_eq_false, false_or]
    by_cases herr : (stopAnswer R md h).err = none
    · simp [herr]
    · simp [herr]

/-- A system where the array is busy: every command succeeds but `mdadm`. -/
def busy : Runner Unit := fun c s =>
  (⟨[], [], if c.name = ("mdadm" : Str) then some "exit status 1" else none⟩, s)

def busyHost : Host Unit where
  env := ()
  files := Function.update (fun _ => none) mdadmConf (some "ARRAY /dev/md0 UUID=a\n")
  log := []

/-- `mdadm --stop` fails, and the array's line is gone. -/
theorem Stop_error_loses_conf :
    (Stop busy "/dev/md0" busyHost).1 = .error "exit status 1" ∧
    busyHost.files mdadmConf = some ("ARRAY /dev/md0 UUID=a\n" : Str) ∧
    (Stop busy "/dev/md0" busyHost).2.files mdadmConf = some [] := by
  decide

end Raid
end Nasd
