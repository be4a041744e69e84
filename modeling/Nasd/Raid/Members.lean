import Nasd.Raid.Conf
import Nasd.Raid.Listing

/-!
# Nasd.Raid.Members

The two readings of `mdadm --detail`. `Detail` counts the lines of six fields and more that end in a
device; `arrayMembers` counts every line that ends in one but the array's own, and the first line of
the report ends in the array's name with a colon.

* `memberDevices_eq`        — the members as `arrayMembers` reads them, each once.
* `readDetail_devices`      — the devices as `Detail` reads them.
* `members_never_agree`     — the two differ on every report.
-/

namespace Nasd
namespace Raid

open Text Go Sys

variable {σ : Type} {md : Str}

/-! ## Reports -/

/-- What `mdadm --detail` prints for an array: its name with a colon, and more lines. No member is
called like the first line. -/
structure Report where
  md : Str
  valid : ValidMDDevice md = true
  rest : List Str
  line : ∀ l ∈ rest, '\n' ∉ l
  member : ∀ l ∈ rest, detailMember l ≠ some (md ++ ":")

def Report.title (r : Report) : Str := r.md ++ ":"

def Report.text (r : Report) : Str := unlines (r.title :: r.rest)

/-- A system on which the array has this report. -/
def reporting (r : Report) (O : OS σ) : OS σ :=
  { O with run := fun c s => if c = mdadmDetail r.md then (⟨r.text, [], none⟩, s) else O.run c s }

/-- The members are the devices of the array, each once and in their order, and not the array. -/
def SameMembers (O : OS σ) (md : Str) (h : Host σ) : Prop :=
  ∀ a, ((Routine.Detail md : Routine Unit _).exec (perform O) ⟨(), h⟩).1 = .ok a →
    (arrayMembers O.run md h).1 = a.devices.eraseDups ∧ md ∉ (arrayMembers O.run md h).1

/-! ## What is read -/

/-- The device that a line counts for in `arrayMembers`. -/
def lastDevice (md line : Str) : Option Str :=
  (Fields line).getLast?.bind fun last =>
    if HasPrefix last "/dev/" ∧ last ≠ md then some last else none

theorem memberDevices_eq (ls devs : List Str) : memberDevices md ls devs =
    devs ++ ((ls.filterMap (lastDevice md)).filter (· ∉ devs)).eraseDups := by
  induction ls generalizing devs with
  | nil => simp [memberDevices]
  | cons l ls ih =>
    rw [List.filterMap_cons, memberDevices, lastDevice]
    cases (Fields l).getLast? with
    | none => exact ih devs
    | some last =>
      simp only [Option.bind_some]
      by_cases hdev : HasPrefix last "/dev/" ∧ last ≠ md
      · by_cases hseen : last ∈ devs
        · rw [if_neg fun h => h.2.2 hseen, if_pos hdev, ih]
          simp [hseen]
        · rw [if_pos ⟨hdev.1, hdev.2, hseen⟩, if_pos hdev, ih]
          have hnew : decide (last ∉ devs) = true := decide_eq_true hseen
          dsimp only
          rw [List.filter_cons, if_pos hnew, List.eraseDups_cons, List.filter_filter,
            List.append_assoc, List.singleton_append]
          congr 3
          refine List.filter_congr fun d _ => ?_
          rw [Bool.eq_iff_iff]
          simp [and_comm]
      · rw [if_neg fun h => hdev ⟨h.1, h.2.1⟩, if_neg hdev]
        exact ih devs

theorem readDetail_devices (md out : Str) :
    (readDetail md out).devices = (lines out).filterMap detailMember := by
  have hlines : ∀ (ls : List Str) (a : ArrayInfo),
      (ls.foldl detailLine a).devices = a.devices ++ ls.filterMap detailMember := by
    intro ls
    induction ls with
    | nil => exact fun a => (List.append_nil _).symm
    | cons l ls ih =>
      intro a
      rw [List.foldl_cons, ih, detailLine, (Routine.detailField_frame a l).2]
      cases hl : detailMember l with
      | none => simp [hl]
      | some d => simp [hl]
  exact hlines _ _

/-! ## The report of an array -/

variable {r : Report} {O : OS σ} {h : Host σ}

theorem Report.lines_text (r : Report) : lines r.text = r.title :: r.rest := by
  have htitle : '\n' ∉ r.title := by
    obtain ⟨-, hclean⟩ := ValidMDDevice_clean r.valid
    intro hmem
    rcases List.mem_append.mp hmem with hmem | hmem
    · cases hclean _ hmem
    · revert hmem
      decide
  refine lines_unlines (List.cons_ne_nil _ _) fun l hl => ?_
  rcases List.mem_cons.mp hl with rfl | hl
  · exact htitle
  · exact r.line l hl

/-- The first line is one word, and begins like a device. -/
theorem Report.fields_title (r : Report) :
    Fields r.title = [r.title] ∧ HasPrefix r.title "/dev/" = true ∧ r.title ≠ r.md := by
  obtain ⟨hne, hclean⟩ := ValidMDDevice_clean r.valid
  have hvalid := r.valid
  simp only [ValidMDDevice, Bool.and_eq_true] at hvalid
  obtain ⟨⟨hpre, -⟩, -⟩ := hvalid
  refine ⟨words_of_clean (by simp [title]) fun c hc => ?_, ?_, ?_⟩
  · rcases List.mem_append.mp hc with hc | hc
    · exact hclean c hc
    · rw [List.mem_singleton.mp hc]
      rfl
  · obtain ⟨rest, hrest⟩ := HasPrefix_iff.mp hpre
    rw [title, ← hrest]
    exact HasPrefix_iff.mpr ⟨("md" : Str) ++ rest ++ ":", by simp⟩
  · intro heq
    have hlength := congrArg List.length heq
    simp [title] at hlength

theorem arrayMembers_report : (arrayMembers (reporting r O).run r.md h).1 =
    r.title :: ((r.rest.filterMap (lastDevice r.md)).filter (· != r.title)).eraseDups := by
  obtain ⟨hfields, hpre, hne⟩ := r.fields_title
  have hrun : (h.run (reporting r O).run (mdadmDetail r.md)).1 = ⟨r.text, [], none⟩ := by
    simp [Host.run, reporting]
  have hlast : lastDevice r.md r.title = some r.title := by
    rw [lastDevice, hfields]
    exact if_pos ⟨hpre, hne⟩
  rw [arrayMembers, hrun]
  dsimp only
  rw [memberDevices_eq, r.lines_text, List.filterMap_cons, hlast]
  dsimp only
  rw [List.nil_append, List.filter_eq_self.mpr fun d _ => by simp, List.eraseDups_cons]
  rfl

theorem Detail_report : ((Routine.Detail r.md : Routine Unit _).exec (perform (reporting r O))
    ⟨(), h⟩).1 = .ok (readDetail r.md r.text) := by
  have hrun : ((Routine.run (mdadmDetail r.md) : Routine Unit Result).exec (perform (reporting r O))
      ⟨(), h⟩).1 = ⟨r.text, [], none⟩ := by
    change (h.run (reporting r O).run (mdadmDetail r.md)).1 = _
    simp [Host.run, reporting]
  unfold Routine.Detail
  rw [Prog.exec_bind, hrun]
  rfl

/-- The first member is the first line of the report, which is no device of the array. -/
theorem members_never_agree (r : Report) (O : OS σ) (h : Host σ) :
    ¬ SameMembers (reporting r O) r.md h := by
  intro hagree
  obtain ⟨hsame, -⟩ := hagree _ Detail_report
  have hmem : r.title ∈ (readDetail r.md r.text).devices.eraseDups := by
    rw [← hsame, arrayMembers_report]
    exact List.mem_cons_self
  rw [List.mem_eraseDups, readDetail_devices, r.lines_text] at hmem
  obtain ⟨l, hl, hdev⟩ := List.mem_filterMap.mp hmem
  rcases List.mem_cons.mp hl with rfl | hl
  · rw [detailMember, r.fields_title.1] at hdev
    simp at hdev
  · exact r.member l hl hdev

/-- A mirror of two disks. -/
def mirrorReport : Report where
  md := "/dev/md0"
  valid := rfl
  rest := ["        Raid Level : raid1", "    Number   Major   Minor   RaidDevice State",
    "       0       8       16        0      active sync   /dev/sdb",
    "       1       8       32        1      active sync   /dev/sdc"]
  line := by decide +kernel
  member := by decide +kernel

/-- `Detail` has the two disks, `arrayMembers` also the first line. -/
theorem title_is_member :
    ¬ SameMembers (reporting mirrorReport OS.faultless) "/dev/md0" (Host.start () fun _ => none) ∧
      (arrayMembers (reporting mirrorReport OS.faultless).run "/dev/md0"
        (Host.start () fun _ => none)).1 = ["/dev/md0:", "/dev/sdb", "/dev/sdc"] := by
  have hmembers : (arrayMembers (reporting mirrorReport OS.faultless).run "/dev/md0"
      (Host.start () fun _ => none)).1 = ["/dev/md0:", "/dev/sdb", "/dev/sdc"] := by decide +kernel
  refine ⟨fun hagree => ?_, hmembers⟩
  have hdetail := (hagree (readDetail "/dev/md0" mirrorReport.text) (by decide +kernel)).1
  rw [hmembers] at hdetail
  revert hdetail
  decide +kernel

end Raid
end Nasd
