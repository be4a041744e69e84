import Nasd.Script
import Nasd.Shares.Apply
import Nasd.Shares.Rendering

/-!
# Nasd.Shares.Regenerate

`ApplyNFS` and `ApplySMB` as scripts. Each succeeds exactly when it refuses no share and every
operation of its script succeeds, and then it leaves the host as the script does.

* `ApplyNFS_ok_iff`, `ApplySMB_ok_iff` — the two scripts.
* `nfsOps_file`, `smbOps_file`         — the file that each leaves.
-/

namespace Nasd
namespace Shares

open Text Go Sys

variable {σ : Type} {U : PrintTable} {O : OS σ} {s : Share} {all : List Share} {h h' : Host σ}

/-! ## Scripts -/

def folderOps (s : Share) : List Op := [.must (mkdir s.path), .may (chmod s.path)]

def replaceOps (path content : Str) : List Op :=
  [.write (tmpOf path) content, .rename (tmpOf path) path]

def nfsServiceOps (on : Bool) : List Op :=
  [if on then .must (enableNow nfsUnits) else .may (disableNow nfsUnits), .must exportfs]

def smbServiceOps (on : Bool) : List Op :=
  .must testparm ::
    if on then [.must (enableNow smbUnits), .may reloadConfig] else [.may (disableNow smbUnits)]

/-- The script of `ApplyNFS` for the exports that are on. -/
def nfsOps (U : PrintTable) (exports : List Share) : List Op :=
  exports.flatMap folderOps ++
    (replaceOps exportsPath (exportsHeader ++ exports.flatMap fun s => s.exportText U ++ ['\n']) ++
      nfsServiceOps (exports ≠ []))

def smbOps (sections : List Share) : List Op :=
  sections.flatMap folderOps ++
    (replaceOps includePath (smbHeader ++ sections.flatMap sectionText) ++
      smbServiceOps (sections ≠ []))

/-! ## Parts -/

theorem makeFolder_ok_iff :
    makeFolder O s h = (.ok (), h') ↔ performs O (folderOps s) h = some h' := by
  rw [folderOps, performs_cons, makeFolder]
  simp only [perform_must]
  cases hmade : (h.run O.run (mkdir s.path)).1.err with
  | some e => simp
  | none => simp [performs, Op.perform]

theorem writeFileAtomic_ok_iff {path content : Str} :
    writeFileAtomic O path content h = (.ok (), h') ↔
      performs O (replaceOps path content) h = some h' := by
  rw [replaceOps, performs_cons, writeFileAtomic, Op.perform]
  cases hwrite : h.tryWrite O (tmpOf path) content with
  | mk r h₁ =>
    cases r with
    | error e => simp
    | ok u =>
      simp only [Option.some.injEq, exists_eq_left', performs, Op.perform]
      cases hrename : h₁.tryRename O (tmpOf path) path with
      | mk r h₂ => cases r <;> simp

theorem reloadNFS_ok_iff {enabled : Nat} :
    reloadNFS O enabled h = (.ok (), h') ↔
      performs O (nfsServiceOps (0 < enabled)) h = some h' := by
  rw [nfsServiceOps, performs_cons, reloadNFS]
  by_cases hpos : 0 < enabled
  · simp only [gt_iff_lt, hpos, if_true, decide_true, perform_must]
    cases hstart : (h.run O.run (enableNow nfsUnits)).1.err with
    | some e => simp
    | none =>
      simp only [true_and, exists_eq_left, performs_cons, perform_must, performs_nil]
      cases hexport : ((h.run O.run (enableNow nfsUnits)).2.run O.run exportfs).1.err <;> simp
  · simp only [gt_iff_lt, hpos, if_false, decide_false, Bool.false_eq_true, Op.perform,
      Option.some.injEq, exists_eq_left', performs_cons, performs_nil]
    cases hexport : ((h.run O.run (disableNow nfsUnits)).2.run O.run exportfs).1.err <;> simp

theorem reloadSMB_ok_iff {enabled : Nat} :
    reloadSMB O enabled h = (.ok (), h') ↔
      performs O (smbServiceOps (0 < enabled)) h = some h' := by
  rw [smbServiceOps, performs_cons, reloadSMB]
  simp only [perform_must]
  cases hcheck : (h.run O.run testparm).1.err with
  | some e => simp
  | none =>
    by_cases hpos : 0 < enabled
    · simp only [gt_iff_lt, hpos, if_true, decide_true, true_and, exists_eq_left, performs_cons,
        perform_must]
      cases hstart : ((h.run O.run testparm).2.run O.run (enableNow smbUnits)).1.err with
      | some e => simp
      | none => simp [Op.perform]
    · simp [hpos, performs, Op.perform]

/-- What the loop of a generator makes of the shares that are left: they are all in order, their
texts come after what is written already, they are counted, and their folders are there. -/
def Written (O : OS σ) (ok : Share → Prop) (text : Share → Str) (ss : List Share) (b b' : Str)
    (n n' : Nat) (h h' : Host σ) : Prop :=
  (∀ s ∈ ss, ok s) ∧ b' = b ++ ss.flatMap text ∧ n' = n + ss.length ∧
    performs O (ss.flatMap folderOps) h = some h'

section Loop

variable {ok : Share → Prop} {text : Share → Str} {ss : List Share} {b b' : Str} {n n' : Nat}
  {h₁ : Host σ}

theorem written_nil_iff : ((.ok (b, n), h) : Except Str (Str × Nat) × Host σ) = (.ok (b', n'), h') ↔
    Written O ok text [] b b' n n' h h' := by
  constructor
  · intro hend
    cases hend
    simp [Written]
  · rintro ⟨-, rfl, rfl, hend⟩
    cases hend
    simp

theorem written_cons_iff (hmade : makeFolder O s h = (.ok (), h₁)) :
    Written O ok text (s :: ss) b b' n n' h h' ↔
      ok s ∧ Written O ok text ss (b ++ text s) b' (n + 1) n' h₁ h' := by
  have hfolder := makeFolder_ok_iff.mp hmade
  simp only [Written, List.forall_mem_cons, List.flatMap_cons, performs_append, List.length_cons,
    hfolder, Option.some.injEq, exists_eq_left', and_assoc, List.append_assoc, Nat.add_assoc,
    Nat.add_comm 1]

theorem Written.head_ok (hw : Written O ok text (s :: ss) b b' n n' h h') : ok s :=
  hw.1 s List.mem_cons_self

theorem Written.head_made (hw : Written O ok text (s :: ss) b b' n n' h h') :
    ∃ h₁, makeFolder O s h = (.ok (), h₁) := by
  obtain ⟨-, -, -, hops⟩ := hw
  rw [List.flatMap_cons] at hops
  obtain ⟨h₁, hfolder, -⟩ := performs_append.mp hops
  exact ⟨h₁, makeFolder_ok_iff.mpr hfolder⟩

end Loop

theorem applyExports_ok_iff : ∀ {b b' : Str} {n n' : Nat} {h : Host σ},
    applyExports U O all b n h = (.ok (b', n'), h') ↔
      Written O Share.Exportable (fun s => s.exportText U ++ ['\n'])
        (all.filter Share.isExport) b b' n n' h h' := by
  induction all with
  | nil => exact written_nil_iff
  | cons s rest ih =>
    intro b b' n n' h
    rw [applyExports]
    split
    · rename_i hoff
      rw [List.filter_cons_of_neg (by simpa using hoff)]
      exact ih
    · rename_i hon
      rw [List.filter_cons_of_pos (by simpa using hon)]
      split
      · rename_i hpath
        refine ⟨fun hbad => (by cases hbad), fun hw => ?_⟩
        rw [hw.head_ok.1] at hpath
        cases hpath
      · rename_i hpath
        rw [Bool.not_eq_true] at hpath
        cases hmade : makeFolder O s h with
        | mk r h₁ =>
          cases r with
          | error e =>
            refine ⟨fun hbad => (by cases hbad), fun hw => ?_⟩
            obtain ⟨h₂, hfolder⟩ := hw.head_made
            rw [hfolder] at hmade
            cases hmade
          | ok u =>
            cases hclients : exportEach U s.clients with
            | error e =>
              refine ⟨fun hbad => (by cases hbad), fun hw => ?_⟩
              rw [(exportEach_ok_iff U).mpr ⟨hw.head_ok.2, rfl⟩] at hclients
              cases hclients
            | ok clients =>
              obtain ⟨hok, rfl⟩ := (exportEach_ok_iff U).mp hclients
              rw [written_cons_iff hmade, and_iff_right ⟨hpath, hok⟩]
              exact ih

theorem applySections_ok_iff : ∀ {b b' : Str} {n n' : Nat} {h : Host σ},
    applySections O all b n h = (.ok (b', n'), h') ↔
      Written O (fun s => ValidShareName s.name = true) sectionText (all.filter Share.isSMB)
        b b' n n' h h' := by
  induction all with
  | nil => exact written_nil_iff
  | cons s rest ih =>
    intro b b' n n' h
    rw [applySections]
    split
    · rename_i hoff
      rw [List.filter_cons_of_neg (by simpa using hoff)]
      exact ih
    · rename_i hon
      rw [List.filter_cons_of_pos (by simpa using hon)]
      split
      · rename_i hname
        refine ⟨fun hbad => (by cases hbad), fun hw => ?_⟩
        simp [hw.head_ok] at hname
      · rename_i hname
        rw [Bool.not_eq_true', Bool.not_eq_false] at hname
        cases hmade : makeFolder O s h with
        | mk r h₁ =>
          cases r with
          | error e =>
            refine ⟨fun hbad => (by cases hbad), fun hw => ?_⟩
            obtain ⟨h₂, hfolder⟩ := hw.head_made
            rw [hfolder] at hmade
            cases hmade
          | ok u =>
            rw [written_cons_iff hmade, and_iff_right hname]
            exact ih

/-! ## Both generators -/

theorem ApplyNFS_ok_iff : ApplyNFS U O all h = (.ok (), h') ↔
    (∀ s ∈ all.filter Share.isExport, s.Exportable) ∧
      performs O (nfsOps U (all.filter Share.isExport)) h = some h' := by
  rw [nfsOps, performs_append, ApplyNFS]
  cases hloop : applyExports U O all exportsHeader 0 h with
  | mk r h₁ =>
    cases r with
    | error e =>
      refine ⟨fun hbad => (by cases hbad), ?_⟩
      rintro ⟨hok, h₂, hfolders, -⟩
      rw [applyExports_ok_iff.mpr ⟨hok, rfl, rfl, hfolders⟩] at hloop
      cases hloop
    | ok out =>
      obtain ⟨b, n⟩ := out
      obtain ⟨hok, rfl, rfl, hfolders⟩ := applyExports_ok_iff.mp hloop
      have hpos : decide (0 < 0 + (all.filter Share.isExport).length) =
          decide (all.filter Share.isExport ≠ []) := by
        simp only [Nat.zero_add, List.length_pos_iff]
      rw [and_iff_right hok]
      simp only [hfolders, Option.some.injEq, exists_eq_left', performs_append,
        ← writeFileAtomic_ok_iff, ← hpos, ← reloadNFS_ok_iff]
      cases hwrite : writeFileAtomic O exportsPath (exportsHeader ++
          (all.filter Share.isExport).flatMap fun s => s.exportText U ++ ['\n']) h₁ with
      | mk r h₂ => cases r <;> simp

theorem ApplySMB_ok_iff : ApplySMB O all h = (.ok (), h') ↔
    (∀ s ∈ all.filter Share.isSMB, ValidShareName s.name = true) ∧
      performs O (smbOps (all.filter Share.isSMB)) h = some h' := by
  rw [smbOps, performs_append, ApplySMB]
  cases hloop : applySections O all smbHeader 0 h with
  | mk r h₁ =>
    cases r with
    | error e =>
      refine ⟨fun hbad => (by cases hbad), ?_⟩
      rintro ⟨hok, h₂, hfolders, -⟩
      rw [applySections_ok_iff.mpr ⟨hok, rfl, rfl, hfolders⟩] at hloop
      cases hloop
    | ok out =>
      obtain ⟨b, n⟩ := out
      obtain ⟨hok, rfl, rfl, hfolders⟩ := applySections_ok_iff.mp hloop
      have hpos : decide (0 < 0 + (all.filter Share.isSMB).length) =
          decide (all.filter Share.isSMB ≠ []) := by
        simp only [Nat.zero_add, List.length_pos_iff]
      rw [and_iff_right hok]
      simp only [hfolders, Option.some.injEq, exists_eq_left', performs_append,
        ← writeFileAtomic_ok_iff, ← hpos, ← reloadSMB_ok_iff]
      cases hwrite : writeFileAtomic O includePath (smbHeader ++
          (all.filter Share.isSMB).flatMap sectionText) h₁ with
      | mk r h₂ => cases r <;> simp

/-! ## Files -/

theorem folderOps_writes {ss : List Share} {op : Op} (hop : op ∈ ss.flatMap folderOps) :
    op.writes = [] := by
  obtain ⟨s, -, hop⟩ := List.mem_flatMap.mp hop
  simp only [folderOps, List.mem_cons, List.not_mem_nil, or_false] at hop
  rcases hop with rfl | rfl <;> rfl

theorem serviceOps_writes {on : Bool} {op : Op}
    (hop : op ∈ nfsServiceOps on ∨ op ∈ smbServiceOps on) : op.writes = [] := by
  cases on <;>
    simp only [nfsServiceOps, smbServiceOps, if_true, if_false, Bool.false_eq_true, List.mem_cons,
      List.not_mem_nil, or_false] at hop <;>
    rcases hop with (rfl | rfl) | rfl | rfl | rfl <;> rfl

theorem nfsOps_file {ss : List Share} (hops : performs O (nfsOps U ss) h = some h') :
    h'.files exportsPath =
      some (exportsHeader ++ ss.flatMap fun s => s.exportText U ++ ['\n']) := by
  obtain ⟨h₁, -, hrest⟩ := performs_append.mp hops
  obtain ⟨h₂, hreplace, hservice⟩ := performs_append.mp hrest
  rw [performs_files (fun op hop => by simp [serviceOps_writes (.inl hop)]) hservice]
  exact performs_replace hreplace

theorem smbOps_file {ss : List Share} (hops : performs O (smbOps ss) h = some h') :
    h'.files includePath = some (smbHeader ++ ss.flatMap sectionText) := by
  obtain ⟨h₁, -, hrest⟩ := performs_append.mp hops
  obtain ⟨h₂, hreplace, hservice⟩ := performs_append.mp hrest
  rw [performs_files (fun op hop => by simp [serviceOps_writes (.inr hop)]) hservice]
  exact performs_replace hreplace

end Shares
end Nasd
