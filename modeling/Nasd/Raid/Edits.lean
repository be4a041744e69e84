import Nasd.Raid.Manager

/-!
# Nasd.Raid.Edits

What each operation of `Nasd.Raid.Manager` does to the two configuration files and to the log of
commands. Commands leave the files alone, so every change is one of the two line filters.
-/

namespace Nasd
namespace Raid

open Text Go Sys

variable {σ : Type} {R : Runner σ} {h : Host σ} {md : Str}

theorem fstab_ne_mdadmConf : (fstab : Str) ≠ mdadmConf := by decide

/-! ## Line filters -/

@[simp] theorem namesArray_nil : namesArray md [] = false := rfl

theorem Fields_nil : Fields [] = [] := rfl

/-- The line of `mdadm.conf` that declares the array: `ARRAY`, then its device. -/
def lineOf (md line : Str) : Bool :=
  match Fields line with
  | kw :: dev :: _ => kw = "ARRAY" ∧ dev = md
  | _ => false

@[simp] theorem lineOf_nil : lineOf md [] = false := rfl

theorem lineOf_iff {line : Str} :
    lineOf md line = true ↔ ∃ rest, Fields line = ("ARRAY" : Str) :: md :: rest := by
  unfold lineOf
  split
  · rename_i kw dev rest hf
    rw [hf]
    simp [and_comm]
  · rename_i hf
    simp only [Bool.false_eq_true, false_iff]
    rintro ⟨rest, hrest⟩
    exact hf _ _ _ hrest

/-- The filter takes the array's own line, and possibly more. -/
theorem namesArray_of_lineOf {line : Str} (hl : lineOf md line = true) :
    namesArray md line = true := by
  obtain ⟨rest, hf⟩ := lineOf_iff.mp hl
  have hmem : md ∈ Fields line := by rw [hf]; simp
  have hpre := words_head_trim hf
  have hin := (mem_words hmem).2.2
  simp only [namesArray, Bool.and_eq_true]
  exact ⟨HasPrefix_iff.mpr hpre, Contains_iff.mpr hin⟩

@[simp] theorem mdadmConfRemove_conf : (mdadmConfRemove md h).files mdadmConf =
    (h.files mdadmConf).map (keepLines fun l => !namesArray md l) := by
  unfold mdadmConfRemove
  split
  · rename_i hconf; rw [hconf]; rfl
  · rename_i hconf; rw [hconf]; simp

theorem mdadmConfRemove_other {q : Str} (hq : q ≠ mdadmConf) :
    (mdadmConfRemove md h).files q = h.files q := by
  unfold mdadmConfRemove
  split
  · rfl
  · exact Host.writeFile_other hq ..

@[simp] theorem mdadmConfRemove_fstab : (mdadmConfRemove md h).files fstab = h.files fstab :=
  mdadmConfRemove_other fstab_ne_mdadmConf

@[simp] theorem mdadmConfRemove_log : (mdadmConfRemove md h).log = h.log := by
  unfold mdadmConfRemove
  split <;> rfl

@[simp] theorem mdadmConfRemove_env : (mdadmConfRemove md h).env = h.env := by
  unfold mdadmConfRemove
  split <;> rfl

@[simp] theorem fstabRemove_fstab {mp : Str} : (fstabRemove mp h).files fstab =
    (h.files fstab).map (keepLines fun l => (Fields l)[1]? ≠ some mp) := by
  unfold fstabRemove
  split
  · rename_i hfstab; rw [hfstab]; rfl
  · rename_i hfstab; rw [hfstab]; simp

@[simp] theorem fstabRemove_conf {mp : Str} :
    (fstabRemove mp h).files mdadmConf = h.files mdadmConf := by
  unfold fstabRemove
  split
  · rfl
  · exact Host.writeFile_other fstab_ne_mdadmConf.symm ..

@[simp] theorem fstabRemove_log {mp : Str} : (fstabRemove mp h).log = h.log := by
  unfold fstabRemove
  split <;> rfl

@[simp] theorem fstabRemove_env {mp : Str} : (fstabRemove mp h).env = h.env := by
  unfold fstabRemove
  split <;> rfl

/-! ## Reads of the system -/

/-- Where the array is mounted as far as `/proc/mounts` can be read. -/
def mountedAt (R : Runner σ) (md : Str) (h : Host σ) : Str := (findMountPoint R md h).1

/-- The host when the mount table has been read. -/
def looked (R : Runner σ) (h : Host σ) : Host σ := (h.run R (cat procMounts)).2

theorem findMountPoint_snd : (findMountPoint R md h).2 = (h.run R (cat procMounts)).2 := by
  simp only [findMountPoint]
  split <;> rfl

@[simp] theorem findMountPoint_files : (findMountPoint R md h).2.files = h.files := by
  rw [findMountPoint_snd]; rfl

theorem isMounted_snd {d : Str} : (isMounted R d h).2 = (h.run R (cat procMounts)).2 := by
  simp only [isMounted]
  split <;> rfl

theorem arraysForDisk_snd {d : Str} :
    (arraysForDisk R d h).2 = (h.run R (cat procMdstat)).2 := by
  simp only [arraysForDisk]
  split <;> rfl

theorem arrayMembers_snd :
    (arrayMembers R md h).2 = (h.run R (mdadmDetail md)).2 := by
  simp only [arrayMembers]
  split <;> rfl

/-! ## Arrays stopped -/

/-- What a command of the log does to an array: it stops one, or reports the line of a new one. -/
inductive ArrayEvent where
  | stopped (md : Str)
  | scanned (line : Str)
  deriving DecidableEq

def arrayEvent (c : Cmd) (r : Result) : Option ArrayEvent :=
  if c.name ≠ "mdadm" then none
  else match c.args with
  | [opt, md] => if opt = "--stop" then some (.stopped md) else none
  | [opt, opt', _] =>
    if opt = "--detail" ∧ opt' = "--scan" then some (.scanned (TrimSpace r.stdout)) else none
  | _ => none

def arrayEvents (log : List (Cmd × Result)) : List ArrayEvent :=
  log.filterMap fun e => arrayEvent e.1 e.2

@[simp] theorem arrayEvents_nil : arrayEvents [] = [] := rfl

@[simp] theorem arrayEvents_append (l₁ l₂ : List (Cmd × Result)) :
    arrayEvents (l₁ ++ l₂) = arrayEvents l₁ ++ arrayEvents l₂ := List.filterMap_append

@[simp] theorem arrayEvents_cons (c : Cmd) (r : Result) (log : List (Cmd × Result)) :
    arrayEvents ((c, r) :: log) = (arrayEvent c r).toList ++ arrayEvents log := by
  cases hc : arrayEvent c r <;> simp [arrayEvents, hc]

section

variable {d path : Str} {r : Result}

@[simp] theorem arrayEvent_stop : arrayEvent (mdadmStop md) r = some (.stopped md) := rfl
@[simp] theorem arrayEvent_scan :
    arrayEvent (mdadmScan md) r = some (.scanned (TrimSpace r.stdout)) := rfl
@[simp] theorem arrayEvent_detail : arrayEvent (mdadmDetail md) r = none := rfl
@[simp] theorem arrayEvent_zero : arrayEvent (mdadmZero d) r = none := rfl
@[simp] theorem arrayEvent_cat : arrayEvent (cat path) r = none := rfl
@[simp] theorem arrayEvent_umount : arrayEvent (umount path) r = none := rfl
@[simp] theorem arrayEvent_wipefs : arrayEvent (wipefs d) r = none := rfl
@[simp] theorem arrayEvent_partprobe : arrayEvent (partprobe d) r = none := rfl
@[simp] theorem arrayEvent_initramfs : arrayEvent updateInitramfs r = none := rfl

@[simp] theorem arrayEvent_create {level : Str} {devices : List Str} :
    arrayEvent (mdadmCreate md level devices) r = none := by
  cases devices with
  | nil => rfl
  | cons d ds => cases ds <;> rfl

end

/-- The arrays of the list that the loop of WipeDisk stops: those before the first mounted one. -/
def released (R : Runner σ) : List Str → Host σ → List Str
  | [], _ => []
  | md :: mds, h =>
    let mp := findMountPoint R md h
    if mp.1 ≠ [] then []
    else md :: released R mds (mdadmConfRemove md (mp.2.run R (mdadmStop md)).2)

/-- The arrays that WipeDisk stops. -/
def wiped (R : Runner σ) (d : Str) (h : Host σ) : List Str :=
  if !ValidDevice d then []
  else
    let mounted := isMounted R d h
    if mounted.1 then []
    else
      let arrays := arraysForDisk R d mounted.2
      released R arrays.1 arrays.2

theorem releaseArrays_events (mds : List Str) : ∀ h : Host σ,
    arrayEvents (releaseArrays R mds h).2.log =
      arrayEvents h.log ++ (released R mds h).map .stopped := by
  induction mds with
  | nil => intro h; simp [releaseArrays, released]
  | cons md mds ih =>
    intro h
    simp only [releaseArrays, released]
    split
    · simp [findMountPoint_snd]
    · rw [ih]; simp [findMountPoint_snd]

/-- The file without the lines that match one of the arrays. -/
def without (lineMatches : Str → Str → Bool) (mds : List Str) (t : Str) : Str :=
  keepLines (fun l => !mds.any (lineMatches · l)) t

section

variable {lineMatches : Str → Str → Bool} {mds : List Str}

@[simp] theorem without_nil : without lineMatches [] = id := by
  funext t; simp [without, keepLines]

theorem without_cons (hnil : ∀ md, lineMatches md [] = false) (t : Str) :
    without lineMatches (md :: mds) t =
      without lineMatches mds (keepLines (fun l => !lineMatches md l) t) := by
  rw [without, without, keepLines_keepLines (by simp [hnil])]
  simp

theorem without_singleton : without lineMatches [md] = keepLines fun l => !lineMatches md l := by
  funext t; simp [without]

theorem mem_without {t l : Str} (hl : l ≠ []) :
    l ∈ lines (without lineMatches mds t) ↔ l ∈ lines t ∧ ∀ md ∈ mds, lineMatches md l = false := by
  rw [without, mem_lines_keepLines hl]
  simp

end

theorem releaseArrays_conf (mds : List Str) : ∀ h : Host σ,
    (releaseArrays R mds h).2.files mdadmConf =
      (h.files mdadmConf).map (without namesArray (released R mds h)) := by
  induction mds with
  | nil => intro h; simp [releaseArrays, released, without_nil]
  | cons md mds ih =>
    intro h
    simp only [releaseArrays, released]
    split
    · simp [without_nil]
    · rw [ih]
      simp only [mdadmConfRemove_conf, Host.run_files, findMountPoint_files, Option.map_map]
      congr 1
      funext t
      exact (without_cons (fun _ => namesArray_nil) t).symm

theorem WipeDisk_events (d : Str) :
    arrayEvents (WipeDisk R d h).2.log = arrayEvents h.log ++ (wiped R d h).map .stopped := by
  simp only [WipeDisk, wiped]
  split
  · simp
  · split
    · simp [isMounted_snd]
    · have hreleased := releaseArrays_events (R := R) (arraysForDisk R d (isMounted R d h).2).1
        (arraysForDisk R d (isMounted R d h).2).2
      simp only [arraysForDisk_snd, isMounted_snd, Host.run_log, arrayEvents_append, arrayEvents_cons,
        arrayEvent_cat, Option.toList_none, arrayEvents_nil, List.append_nil] at hreleased ⊢
      split
      · exact hreleased
      · split <;> simp [hreleased]

theorem WipeDisk_conf (d : Str) : (WipeDisk R d h).2.files mdadmConf =
    (h.files mdadmConf).map (without namesArray (wiped R d h)) := by
  simp only [WipeDisk, wiped]
  split
  · simp [without_nil]
  · split
    · simp [isMounted_snd, without_nil]
    · have hreleased := releaseArrays_conf (R := R) (arraysForDisk R d (isMounted R d h).2).1
        (arraysForDisk R d (isMounted R d h).2).2
      simp only [arraysForDisk_snd, isMounted_snd, Host.run_files] at hreleased ⊢
      split
      · exact hreleased
      · split <;> exact hreleased

@[simp] theorem clearMembers_files (ds : List Str) :
    ∀ h : Host σ, (clearMembers R ds h).files = h.files := by
  induction ds with
  | nil => intro h; rfl
  | cons d ds ih => intro h; simp only [clearMembers, ih, Host.run_files]

end Raid
end Nasd
