import Nasd.Raid.Edits

/-!
# Nasd.Raid.Wipe

Which arrays `WipeDisk` touches, for any contents of `/proc/mdstat` and `/proc/mounts`. The source
takes a member whose name begins with the disk's; a member of the disk is the disk itself or one
of its partitions (`OfDisk`), which is less.

* `withProc`        — a system with the two tables fixed and every other command arbitrary.
* `mem_wiped_iff`   — the arrays stopped: those of the matching lines before a mounted one.
-/

namespace Nasd
namespace Raid

open Text Go Sys

variable {σ : Type} {R : Runner σ}

/-- The names of a disk and of its partitions. -/
def OfDisk (base member : Str) : Bool := member = base || IsPartitionOf base member

def deviceOf (line : Str) : Str := "/dev/" ++ arrayName line

/-- The array `md` is assembled with the disk `d` or a partition of it. -/
def HasMember (mdstat d md : Str) : Prop :=
  ∃ line ∈ mdLines mdstat, deviceOf line = md ∧
    ∃ m ∈ lineMembers line, OfDisk (TrimPrefix d "/dev/") m = true

/-- A line of `mdadm.conf` that was there before the call and is not after it. -/
def Dropped (before after : Option Str) (l : Str) : Prop :=
  (∃ t, before = some t ∧ l ∈ lines t) ∧ ∀ t, after = some t → l ∉ lines t

/-- Every array stopped has a member on `d`, and so has every assembled array whose line is gone
from `mdadm.conf`. Of one that is not assembled the members are not known, and nothing is said. -/
def TouchesOnlyMembers (mdstat d : Str) (before : Option Str) (after : Host σ) : Prop :=
  (∀ md, .stopped md ∈ arrayEvents after.log → HasMember mdstat d md) ∧
  ∀ l, Dropped before (after.files mdadmConf) l →
    ∀ line ∈ mdLines mdstat, lineOf (deviceOf line) l = true → HasMember mdstat d (deviceOf line)

/-! ## Fixed tables -/

def withProc (mdstat mounts : Str) (R : Runner σ) : Runner σ := fun c s =>
  if c = cat procMdstat then (⟨mdstat, [], none⟩, s)
  else if c = cat procMounts then (⟨mounts, [], none⟩, s)
  else R c s

section

variable {mdstat mounts d md : Str} {h : Host σ}

theorem run_procMdstat : (h.run (withProc mdstat mounts R) (cat procMdstat)).1 =
    ⟨mdstat, [], none⟩ := by
  simp [Host.run, withProc]

theorem run_procMounts : (h.run (withProc mdstat mounts R) (cat procMounts)).1 =
    ⟨mounts, [], none⟩ := by
  have hne : cat procMounts ≠ cat procMdstat := by decide
  simp [Host.run, withProc, hne]

@[simp] theorem findMountPoint_withProc :
    (findMountPoint (withProc mdstat mounts R) md h).1 = mountPointOf md (lines mounts) := by
  simp only [findMountPoint, run_procMounts]

@[simp] theorem isMounted_withProc :
    (isMounted (withProc mdstat mounts R) d h).1 = (lines mounts).any (mountsDevice d) := by
  simp only [isMounted, run_procMounts]

@[simp] theorem arraysForDisk_withProc :
    (arraysForDisk (withProc mdstat mounts R) d h).1 =
      ((mdLines mdstat).filter (matchesDisk (TrimPrefix d "/dev/"))).map deviceOf := by
  simp only [arraysForDisk, run_procMdstat]
  rfl

theorem released_withProc (mds : List Str) : ∀ h : Host σ,
    released (withProc mdstat mounts R) mds h =
      mds.takeWhile fun md => mountPointOf md (lines mounts) = [] := by
  induction mds with
  | nil => intro h; rfl
  | cons md mds ih =>
    intro h
    simp only [released, findMountPoint_withProc, ih]
    by_cases hmp : mountPointOf md (lines mounts) = []
    · simp [hmp]
    · simp [hmp]

end

/-! ## Arrays stopped -/

/-- The loop reaches the array of this line: the disk is not mounted, the line has a member whose
name begins with the disk's, and neither its array nor one of an earlier such line is mounted. -/
def Reached (mdstat mounts d line : Str) : Prop :=
  ValidDevice d = true ∧ (lines mounts).any (mountsDevice d) = false ∧
    ∃ pre post, (mdLines mdstat).filter (matchesDisk (TrimPrefix d "/dev/")) = pre ++ line :: post ∧
      ∀ l ∈ pre ++ [line], mountPointOf (deviceOf l) (lines mounts) = []

theorem mem_map_takeWhile {α β : Type} {p : β → Bool} {f : α → β} {b : β} {l : List α} :
    b ∈ (l.map f).takeWhile p ↔
      ∃ a, f a = b ∧ ∃ pre post, l = pre ++ a :: post ∧ ∀ x ∈ pre ++ [a], p (f x) = true := by
  constructor
  · intro hb
    rw [List.takeWhile_map, List.mem_map] at hb
    obtain ⟨a, ha, rfl⟩ := hb
    obtain ⟨pre, mid, hsplit⟩ := List.append_of_mem ha
    refine ⟨a, rfl, pre, mid ++ l.dropWhile (p ∘ f), ?_, ?_⟩
    · have := List.takeWhile_append_dropWhile (p := p ∘ f) (l := l)
      rw [hsplit] at this
      simpa using this.symm
    · intro x hx
      have hmem : x ∈ l.takeWhile (p ∘ f) := by
        rw [hsplit]
        rcases List.mem_append.mp hx with hx | hx
        · exact List.mem_append_left _ hx
        · simp at hx; simp [hx]
      exact List.mem_takeWhile_imp (p := p ∘ f) hmem
  · rintro ⟨a, rfl, pre, post, rfl, hall⟩
    have hpre : ∀ b ∈ pre.map f, p b = true := by
      intro b hb
      obtain ⟨x, hx, rfl⟩ := List.mem_map.mp hb
      exact hall x (List.mem_append_left _ hx)
    rw [List.map_append, List.takeWhile_append_of_pos hpre, List.map_cons,
      List.takeWhile_cons_of_pos (hall a (by simp))]
    simp

section

variable {mdstat mounts d md : Str} {h : Host σ}

theorem mem_wiped_iff : md ∈ wiped (withProc mdstat mounts R) d h ↔
    ∃ line, deviceOf line = md ∧ Reached mdstat mounts d line := by
  simp only [wiped, isMounted_withProc]
  by_cases hv : ValidDevice d = true
  · by_cases hm : (lines mounts).any (mountsDevice d) = true
    · simp [Reached, hv, hm]
    · rw [Bool.not_eq_true] at hm
      simp only [hv, hm, Reached, Bool.not_true, Bool.false_eq_true, if_false,
        arraysForDisk_withProc, released_withProc, mem_map_takeWhile, true_and, decide_eq_true_eq]
  · simp [Reached, hv]

end

theorem Dropped_without {mds : List Str} {before : Option Str} {l : Str} :
    Dropped before (before.map (without namesArray mds)) l ↔
      ∃ t, before = some t ∧ l ∈ lines t ∧ ∃ md ∈ mds, namesArray md l = true := by
  cases before with
  | none => simp [Dropped]
  | some t =>
    by_cases hl : l = []
    · subst hl
      have hkeep : ([] : Str) ∈ lines t → ([] : Str) ∈ lines (without namesArray mds t) := by
        intro hmem
        rw [without, keepLines, lines_unlines_filter]
        split
        · simp
        · exact List.mem_filter.mpr ⟨hmem, by simp⟩
      simp only [Dropped, Option.map_some, Option.some.injEq, exists_eq_left', forall_eq']
      constructor
      · rintro ⟨hmem, hnot⟩; exact absurd (hkeep hmem) hnot
      · rintro ⟨-, md, -, hmd⟩; simp at hmd
    · simp only [Dropped, Option.map_some, Option.some.injEq, exists_eq_left', forall_eq',
        mem_without hl]
      constructor
      · rintro ⟨hmem, hnot⟩
        refine ⟨hmem, ?_⟩
        by_contra hall
        push Not at hall
        exact hnot ⟨hmem, fun md hmd => by simpa using hall md hmd⟩
      · rintro ⟨hmem, md, hmd, hnames⟩
        refine ⟨hmem, fun hall => ?_⟩
        rw [hall.2 md hmd] at hnames
        exact Bool.false_ne_true hnames

/-- `WipeDisk d` touches no array of other disks exactly when every array it reaches has a member
on `d`, and so has every assembled array with an `ARRAY` line that contains the name of one. -/
theorem WipeDisk_touches_only_members_iff (mdstat mounts : Str) (R : Runner σ) (d : Str) (env : σ)
    (files : Str → Option Str) :
    TouchesOnlyMembers mdstat d (files mdadmConf)
      (WipeDisk (withProc mdstat mounts R) d (Host.start env files)).2 ↔
    ∀ line, Reached mdstat mounts d line →
      HasMember mdstat d (deviceOf line) ∧
      ∀ t, files mdadmConf = some t → ∀ l ∈ lines t, namesArray (deviceOf line) l = true →
        ∀ line' ∈ mdLines mdstat, lineOf (deviceOf line') l = true →
          HasMember mdstat d (deviceOf line') := by
  have hstart : (Host.start env files).files mdadmConf = files mdadmConf := rfl
  have hlog : arrayEvents (Host.start env files).log = [] := rfl
  simp only [TouchesOnlyMembers, WipeDisk_events, WipeDisk_conf, hstart, hlog, List.nil_append,
    Dropped_without, List.mem_map, ArrayEvent.stopped.injEq, exists_eq_right, mem_wiped_iff]
  constructor
  · rintro ⟨hstop, hconf⟩ line hline
    refine ⟨hstop _ ⟨line, rfl, hline⟩, ?_⟩
    intro t ht l hl hnames
    exact hconf l ⟨t, ht, hl, _, ⟨line, rfl, hline⟩, hnames⟩
  · intro hall
    constructor
    · rintro md ⟨line, rfl, hline⟩
      exact (hall line hline).1
    · rintro l ⟨t, ht, hl, md, ⟨line, rfl, hline⟩, hnames⟩
      exact (hall line hline).2 t ht l hl hnames

/-- A mirror of `sdaa` and `sdab`, the disk `sda` and no other. -/
def mirror : Str := "md0 : active raid1 sdab[1] sdaa[0]"

def mirrorFiles : Str → Option Str :=
  Function.update (fun _ => none) mdadmConf (some "ARRAY /dev/md0 UUID=a\n")

/-- Wiping `sda` stops the mirror, which `sda` is no member of. -/
theorem WipeDisk_stops_others :
    ¬ TouchesOnlyMembers mirror "/dev/sda" (mirrorFiles mdadmConf)
      (WipeDisk (withProc mirror [] fun _ s => (⟨[], [], none⟩, s)) "/dev/sda"
        (Host.start () mirrorFiles)).2 := by
  have hother : ¬ HasMember mirror "/dev/sda" "/dev/md0" := by
    unfold HasMember
    decide
  rintro ⟨hstop, -⟩
  exact hother (hstop "/dev/md0" (by decide))

end Raid
end Nasd
