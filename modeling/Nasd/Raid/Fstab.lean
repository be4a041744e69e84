import Nasd.Raid.Conf
import Nasd.Raid.Filesystem
import Nasd.Raid.Stop

/-!
# Nasd.Raid.Fstab

What the requests on filesystems and arrays do to `/etc/fstab`. Each one makes at most one edit: it
removes the lines of a mount point, or appends a line (`serve_fstab`). Whose lines they are is not
looked at, nor how the file ends.

* `kept_remove_iff`, `kept_append`, `kept_append_iff` — when an edit keeps the lines it should.
* `fstab_keeps_foreign`                               — over runs.
-/

namespace Nasd
namespace Raid

open Text Go Sys Machine

variable {σ : Type} {R : Runner σ} {h : Host σ} {md mp fsType : Str}

/-! ## Edits -/

inductive Edit where
  | none
  | remove (mountPoint : Str)
  | append (entry : Str)
  deriving DecidableEq

def Edit.apply : Edit → Str → Str
  | .none, t => t
  | .remove mp, t => keepLines (fun l => (Fields l)[1]? ≠ some mp) t
  | .append entry, t => t ++ entry ++ "\n"

@[simp] theorem Edit.apply_none : Edit.none.apply = id := rfl
@[simp] theorem Edit.apply_remove : (Edit.remove mp).apply =
    keepLines fun l => (Fields l)[1]? ≠ some mp := rfl

/-- The line of a filesystem that has just been mounted, unless fstab has it. -/
def addEdit (R : Runner σ) (device mountPoint fsType : Str) (h : Host σ) : Edit :=
  let entry := fstabEntry (fstabSource R device h).1 mountPoint fsType
  match h.files fstab with
  | none => .none
  | some data => if entry ∈ (lines data).map TrimSpace then .none else .append entry

def createEdit (R : Runner σ) (mdDevice fsType mountPoint : Str) (h : Host σ) : Edit :=
  let mounted := mountNew R mdDevice fsType mountPoint h
  if mounted.1 = .ok () then addEdit R mdDevice mountPoint fsType mounted.2 else .none

def mountEdit (R : Runner σ) (mdDevice fsType mountPoint : Str) (h : Host σ) : Edit :=
  let mounted := mountExisting R mdDevice fsType mountPoint h
  if mounted.1 = .ok () then addEdit R mdDevice mountPoint fsType mounted.2 else .none

def unmountEdit (R : Runner σ) (mountPoint : Str) (h : Host σ) : Edit :=
  if validMountPoint mountPoint ∧ (R (umount mountPoint) h.env).1.err = none then
    .remove mountPoint
  else .none

def wipeEdit (R : Runner σ) (mdDevice : Str) (h : Host σ) : Edit :=
  if ValidMDDevice mdDevice then
    match (wipedMountPoint R mdDevice h).1 with
    | .error _ => .none
    | .ok mountPoint => .remove mountPoint
  else .none

def stopEdit (R : Runner σ) (mdDevice : Str) (h : Host σ) : Edit :=
  let mp := findMountPoint R mdDevice h
  if ValidMDDevice mdDevice ∧ mp.1 ≠ [] then .remove mp.1 else .none

/-- The edit of a request, as far as its commands get. -/
def edit (R : Runner σ) (h : Host σ) (q : Request) : Edit :=
  match q.action with
  | .createFilesystem (some req) =>
    if !req.confirm then .none else createEdit R q.device req.fstype req.mount_point h
  | .mountFilesystem (some req) =>
    if !req.confirm then .none else mountEdit R q.device req.fstype req.mount_point h
  | .unmountFilesystem (some req) =>
    if !req.confirm then .none else unmountEdit R req.mount_point h
  | .deleteFilesystem confirm => if confirm ≠ "true" then .none else wipeEdit R q.device h
  | .deleteArray confirm => if confirm ≠ "true" then .none else stopEdit R q.device h
  | _ => .none

section

variable {cs : List (Cmd × Str)}

@[simp] theorem runEach_files : (runEach R cs h).2.files = h.files := by
  induction cs generalizing h with
  | nil => rfl
  | cons c cs ih =>
    simp only [runEach]
    split
    · rfl
    · rw [ih]; rfl

end

@[simp] theorem install_files {cmd pkg : Str} : (install R cmd pkg h).2.files = h.files := by
  unfold install
  simp only
  split <;> rfl

@[simp] theorem ensureMkfs_files {cmd : Str} : (ensureMkfs R cmd fsType h).2.files = h.files := by
  unfold ensureMkfs
  simp only
  split
  · rfl
  · split
    · rfl
    · split <;> simp [has]

@[simp] theorem mountNew_files : (mountNew R md fsType mp h).2.files = h.files := by
  unfold mountNew
  split
  · rfl
  · split
    · rfl
    · split
      · rfl
      · simp only
        split <;> simp

@[simp] theorem mountExisting_files : (mountExisting R md fsType mp h).2.files = h.files := by
  unfold mountExisting
  split
  · rfl
  · split <;> simp

@[simp] theorem wipedMountPoint_files : (wipedMountPoint R md h).2.files = h.files := by
  unfold wipedMountPoint
  simp only
  split
  · split <;> simp
  · split <;> simp

@[simp] theorem fstabSource_files : (fstabSource R md h).2.files = h.files := by
  unfold fstabSource
  simp only
  split <;> rfl

theorem fstabAdd_fstab : (fstabAdd R md mp fsType h).files fstab =
    (h.files fstab).map (addEdit R md mp fsType h).apply := by
  unfold fstabAdd addEdit
  simp only [fstabSource_files]
  cases hfile : h.files fstab with
  | none => simp [hfile]
  | some data =>
    simp only
    split
    · simp [hfile]
    · simp [Edit.apply]

theorem CreateFilesystem_fstab : (CreateFilesystem R md fsType mp h).2.files fstab =
    (h.files fstab).map (createEdit R md fsType mp h).apply := by
  unfold CreateFilesystem createEdit
  simp only
  split
  · rename_i e he; simp [he]
  · rename_i he; simp [he, fstabAdd_fstab]

theorem MountOnly_fstab : (MountOnly R md fsType mp h).2.files fstab =
    (h.files fstab).map (mountEdit R md fsType mp h).apply := by
  unfold MountOnly mountEdit
  simp only
  split
  · rename_i e he; simp [he]
  · rename_i he; simp [he, fstabAdd_fstab]

theorem UnmountFilesystem_fstab : (UnmountFilesystem R mp h).2.files fstab =
    (h.files fstab).map (unmountEdit R mp h).apply := by
  have hrun : (h.run R (umount mp)).1 = (R (umount mp) h.env).1 := rfl
  unfold UnmountFilesystem unmountEdit
  cases hv : validMountPoint mp with
  | false => simp
  | true =>
    cases herr : (R (umount mp) h.env).1.err with
    | none => simp [runEach, hrun, herr]
    | some e => simp [runEach, hrun, herr]

theorem WipeFilesystem_fstab : (WipeFilesystem R md h).2.files fstab =
    (h.files fstab).map (wipeEdit R md h).apply := by
  unfold WipeFilesystem wipeEdit
  cases hv : ValidMDDevice md with
  | false => simp
  | true =>
    cases hmp : (wipedMountPoint R md h).1 with
    | error e => simp [hmp]
    | ok mountPoint =>
      simp only [Bool.not_true, Bool.false_eq_true, if_false, hmp]
      split
      · simp
      · split <;> simp

theorem Stop_fstab : (Stop R md h).2.files fstab =
    (h.files fstab).map (stopEdit R md h).apply := by
  unfold stopEdit
  cases hv : ValidMDDevice md with
  | false => simp [Stop_invalid hv]
  | true =>
    by_cases hm : (findMountPoint R md h).1 = []
    · rw [Stop_fstab_unmounted hv fun mp' hm' => hm'.1 ((MountedAt_iff.mp hm').2.symm.trans hm)]
      simp [hm]
    · rw [Stop_fstab_mounted hv (MountedAt_iff.mpr ⟨hm, rfl⟩)]
      simp [hm]

theorem reply_snd (code : Nat) (text : Str) (out : Except Str Unit × Host σ) :
    (reply code text out).2 = out.2 := by
  unfold reply
  split <;> rfl

theorem serve_fstab (q : Request) :
    (serve R h q).files fstab = (h.files fstab).map (edit R h q).apply := by
  unfold serve handle edit
  cases q.action with
  | createFilesystem body =>
    cases body with
    | none => simp
    | some req =>
      simp only
      split
      · simp
      · rw [reply_snd, CreateFilesystem_fstab]
  | mountFilesystem body =>
    cases body with
    | none => simp
    | some req =>
      simp only
      split
      · simp
      · rw [reply_snd, MountOnly_fstab]
  | unmountFilesystem body =>
    cases body with
    | none => simp
    | some req =>
      simp only
      split
      · simp
      · rw [reply_snd, UnmountFilesystem_fstab]
  | deleteFilesystem confirm =>
    simp only
    split
    · simp
    · rw [reply_snd, WipeFilesystem_fstab]
  | deleteArray confirm =>
    simp only
    split
    · simp
    · rw [reply_snd, Stop_fstab]

/-! ## Lines that stay -/

section

variable {F : List Str} {t entry : Str}

theorem terminated_iff : Terminated t ↔ (lines t).getLast? = some [] := by
  cases t using List.reverseRecOn with
  | nil => simp [Terminated]
  | append_singleton t c =>
    obtain ⟨ls, last, hlast, happend⟩ := lines_append t
    rw [Terminated, happend]
    by_cases hc : c = '\n'
    · rw [hc, lines_append_newline]
      simp
    · have hclean : '\n' ∉ last ++ [c] := by
        have hmem : last ∈ lines t := hlast ▸ List.mem_append_right _ (List.mem_singleton_self _)
        simpa [Ne.symm hc] using newline_not_mem_of_mem_lines hmem
      rw [lines_of_not_mem hclean]
      simp [hc]

/-- Removing a mount point keeps the lines exactly when none of them is for it. -/
theorem kept_remove_iff (hkept : F.Sublist (lines t)) :
    F.Sublist (lines ((Edit.remove mp).apply t)) ↔ ∀ l ∈ F, (Fields l)[1]? ≠ some mp := by
  constructor
  · intro hstay l hl
    by_cases hnil : l = []
    · rw [hnil, Fields_nil]
      simp
    · simpa using ((mem_lines_keepLines hnil).mp (hstay.subset hl)).2
  · intro hother
    have hfilter : F.Sublist ((lines t).filter fun l => (Fields l)[1]? ≠ some mp) := by
      have hall : F.filter (fun l => (Fields l)[1]? ≠ some mp) = F :=
        List.filter_eq_self.mpr fun l hl => by simpa using hother l hl
      rw [← hall]
      exact hkept.filter _
    rw [Edit.apply_remove, keepLines, lines_unlines_filter]
    split
    · rename_i hnone
      rw [hnone] at hfilter
      rw [List.sublist_nil.mp hfilter]
      exact List.nil_sublist _
    · exact hfilter

/-- What is appended goes on in the last line. -/
theorem lines_appended (t entry : Str) : ∃ ls last, lines t = ls ++ [last] ∧
    lines ((Edit.append entry).apply t) = ls ++ (lines (last ++ entry) ++ [[]]) := by
  obtain ⟨ls, last, hlast, happend⟩ := lines_append t
  refine ⟨ls, last, hlast, ?_⟩
  have hbreak : lines (last ++ entry ++ "\n") = lines (last ++ entry) ++ [[]] :=
    lines_append_newline (last ++ entry) []
  rw [Edit.apply, List.append_assoc, happend, ← List.append_assoc, hbreak]

/-- Appending keeps them when the file ends with a line break, or in a line that may go. -/
theorem kept_append (hkept : F.Sublist (lines t))
    (hend : Terminated t ∨ F.Sublist (lines t).dropLast) :
    F.Sublist (lines ((Edit.append entry).apply t)) := by
  obtain ⟨ls, last, hlast, hnew⟩ := lines_appended t entry
  rw [hnew]
  rcases hend with hterm | hdrop
  · rw [terminated_iff, hlast, List.getLast?_concat, Option.some.injEq] at hterm
    rw [hlast, hterm] at hkept
    exact hkept.trans ((List.Sublist.refl ls).append (List.sublist_append_right _ _))
  · rw [hlast, List.dropLast_concat] at hdrop
    exact hdrop.trans (List.sublist_append_left _ _)

/-- For a line without a line break there is no other case. -/
theorem kept_append_iff (hkept : F.Sublist (lines t)) (hne : entry ≠ []) (hline : '\n' ∉ entry) :
    F.Sublist (lines ((Edit.append entry).apply t)) ↔
      Terminated t ∨ F.Sublist (lines t).dropLast := by
  refine ⟨fun hstay => ?_, kept_append hkept⟩
  obtain ⟨ls, last, hlast, hnew⟩ := lines_appended t entry
  have hclean : '\n' ∉ last ++ entry := by
    have hmem : last ∈ lines t := hlast ▸ List.mem_append_right _ (List.mem_singleton_self _)
    simpa [hline] using newline_not_mem_of_mem_lines hmem
  rw [hnew, lines_of_not_mem hclean, List.singleton_append] at hstay
  rw [terminated_iff, hlast, List.getLast?_concat, List.dropLast_concat, Option.some.injEq]
  by_cases hnil : last = []
  · exact .inl hnil
  · right
    rw [hlast] at hkept
    obtain ⟨F₁, F₂, rfl, h₁, h₂⟩ := List.sublist_append_iff.mp hkept
    rcases List.sublist_singleton.mp h₂ with rfl | rfl
    · simpa using h₁
    · -- `last` is one of the lines of `ls`, as neither of the two new lines is `last`
      obtain ⟨G₁, G₂, hG, hG₁, hG₂⟩ := List.sublist_append_iff.mp hstay
      cases G₂ using List.reverseRecOn with
      | nil => rwa [hG, List.append_nil]
      | append_singleton G₂ x =>
        rw [← List.append_assoc] at hG
        have hx : last = x := List.singleton_inj.mp (List.append_inj' hG rfl).2
        have hmem : x ∈ [last ++ entry, []] := hG₂.subset (by simp)
        rw [← hx] at hmem
        simp [hne, hnil] at hmem

end

/-! ## Runs -/

/-- The device of a line, or the UUID of one of the device's filesystems. -/
def entryOf (uuids : Str → List Str) (md line : Str) : Bool :=
  match Fields line with
  | src :: _ => src = md || (uuids md).any fun uuid => src = "UUID=" ++ uuid
  | [] => false

/-- A line that mounts something: a source and a mount point. -/
def isEntry (line : Str) : Bool :=
  match Fields line with
  | src :: _ :: _ => src.head? ≠ some '#'
  | _ => false

def fstabText (h : Host σ) : Str := (h.files fstab).getD []

/-- The lines that are of no array of the requests. -/
def foreign (uuids : Str → List Str) (qs : List Request) (t : Str) : List Str :=
  (lines t).filter fun l => qs.all fun q => !entryOf uuids q.device l

/-- The lines are still there, each whole, in their order. -/
def Kept (F : List Str) (h : Host σ) : Prop := F.Sublist (lines (fstabText h))

/-- A request that unmounts leaves the entries of other devices. -/
def KeepsOthers (R : Runner σ) (uuids : Str → List Str) (h : Host σ) (q : Request) : Prop :=
  ∀ req, q.action = .unmountFilesystem (some req) → ∀ l ∈ lines (fstabText h), isEntry l = true →
    entryOf uuids q.device l = false → l ∈ lines (fstabText (serve R h q))

/-- What keeps an edit to its own lines: the mount point is that of no line of `F`, and when the
request unmounts then of no entry of another device; the file does not end within a line of `F`. -/
def OwnLines (R : Runner σ) (uuids : Str → List Str) (F : List Str) (h : Host σ) (q : Request) :
    Prop :=
  match edit R h q with
  | .none => True
  | .append _ => Terminated (fstabText h) ∨ F.Sublist (lines (fstabText h)).dropLast
  | .remove mp =>
    (∀ l ∈ F, (Fields l)[1]? ≠ some mp) ∧
    ∀ req, q.action = .unmountFilesystem (some req) → ∀ l ∈ lines (fstabText h), isEntry l = true →
      (Fields l)[1]? = some mp → entryOf uuids q.device l = true

/-- The line that is appended, if one is, has no line break in it. -/
def OneLine (R : Runner σ) (h : Host σ) (q : Request) : Prop :=
  ∀ entry, edit R h q = .append entry → '\n' ∉ entry

theorem addEdit_append {entry : Str} (hadd : addEdit R md mp fsType h = .append entry) :
    (∃ t, h.files fstab = some t) ∧ entry ≠ [] := by
  unfold addEdit at hadd
  cases hfile : h.files fstab with
  | none => simp [hfile] at hadd
  | some data =>
    simp only [hfile] at hadd
    split at hadd
    · cases hadd
    · cases hadd
      exact ⟨⟨data, rfl⟩, by simp [fstabEntry]⟩

theorem edit_append {q : Request} {entry : Str} (hedit : edit R h q = .append entry) :
    (∃ t, h.files fstab = some t) ∧ entry ≠ [] := by
  unfold edit at hedit
  split at hedit
  · split at hedit
    · cases hedit
    · simp only [createEdit] at hedit
      split at hedit
      · simpa using addEdit_append hedit
      · cases hedit
  · split at hedit
    · cases hedit
    · simp only [mountEdit] at hedit
      split at hedit
      · simpa using addEdit_append hedit
      · cases hedit
  · split at hedit
    · cases hedit
    · simp only [unmountEdit] at hedit
      split at hedit <;> cases hedit
  · split at hedit
    · cases hedit
    · simp only [wipeEdit] at hedit
      split at hedit
      · split at hedit <;> cases hedit
      · cases hedit
  · split at hedit
    · cases hedit
    · simp only [stopEdit] at hedit
      split at hedit <;> cases hedit
  · cases hedit

theorem fstabText_serve (q : Request) :
    fstabText (serve R h q) = (edit R h q).apply (fstabText h) := by
  rw [fstabText, fstabText, serve_fstab]
  cases hfile : h.files fstab with
  | some t => rfl
  | none =>
    cases hedit : edit R h q with
    | none => rfl
    | remove mp => simp
    | append entry =>
      obtain ⟨t, ht⟩ := (edit_append hedit).1
      rw [hfile] at ht
      cases ht

variable {uuids : Str → List Str} {F : List Str} {q : Request}

theorem kept_step (hkept : Kept F h) (hown : OwnLines R uuids F h q) : Kept F (serve R h q) := by
  rw [Kept, fstabText_serve]
  unfold OwnLines at hown
  cases hedit : edit R h q with
  | none => exact hkept
  | remove mp =>
    rw [hedit] at hown
    exact (kept_remove_iff hkept).mpr hown.1
  | append entry =>
    rw [hedit] at hown
    exact kept_append hkept hown

theorem keepsOthers_of_ownLines (hown : OwnLines R uuids F h q) : KeepsOthers R uuids h q := by
  intro req hreq l hl hentry hother
  rw [fstabText_serve]
  unfold OwnLines at hown
  cases hedit : edit R h q with
  | none => exact hl
  | remove mp =>
    rw [hedit] at hown
    have hne : l ≠ [] := fun hnil => by rw [hnil] at hentry; cases hentry
    rw [Edit.apply_remove, mem_lines_keepLines hne]
    refine ⟨hl, ?_⟩
    rw [decide_eq_true_eq]
    intro hmp
    rw [hown.2 req hreq l hl hentry hmp] at hother
    cases hother
  | append entry =>
    simp only [edit, hreq, unmountEdit] at hedit
    split at hedit
    · cases hedit
    · split at hedit <;> cases hedit

theorem ownLines_of_kept (hkept : Kept F h) (hone : OneLine R h q) (hothers : KeepsOthers R uuids h q)
    (hnext : Kept F (serve R h q)) : OwnLines R uuids F h q := by
  rw [Kept, fstabText_serve] at hnext
  unfold OwnLines
  cases hedit : edit R h q with
  | none => trivial
  | append entry =>
    rw [hedit] at hnext
    exact (kept_append_iff hkept (edit_append hedit).2 (hone entry hedit)).mp hnext
  | remove mp =>
    rw [hedit] at hnext
    refine ⟨(kept_remove_iff hkept).mp hnext, fun req hreq l hl hentry hmp => ?_⟩
    by_contra hother
    have hstay := hothers req hreq l hl hentry (by simpa using hother)
    have hne : l ≠ [] := fun hnil => by rw [hnil] at hentry; cases hentry
    rw [fstabText_serve, hedit, Edit.apply_remove, mem_lines_keepLines hne] at hstay
    simp [hmp] at hstay

/-- A run keeps the lines of no array of its requests, and unmounting keeps the entries of other
devices, when every edit keeps to its own lines; and only then, unless a line is appended with a
line break in it. -/
theorem fstab_keeps_foreign (R : Runner σ) (uuids : Str → List Str) (h : Host σ)
    (qs : List Request) :
    (Guarded (serve R) (OwnLines R uuids (foreign uuids qs (fstabText h))) h qs →
      Always (serve R) (Kept (foreign uuids qs (fstabText h))) h qs ∧
      Guarded (serve R) (KeepsOthers R uuids) h qs) ∧
    (Guarded (serve R) (OneLine R) h qs →
      Always (serve R) (Kept (foreign uuids qs (fstabText h))) h qs →
      Guarded (serve R) (KeepsOthers R uuids) h qs →
      Guarded (serve R) (OwnLines R uuids (foreign uuids qs (fstabText h))) h qs) := by
  have h0 : Kept (foreign uuids qs (fstabText h)) h := List.filter_sublist
  constructor
  · intro hown
    refine ⟨always_of_guarded (fun _ _ hk ho => kept_step hk ho) (fun _ hk => hk) h0 hown, ?_⟩
    exact hown.mono fun _ _ ho => keepsOthers_of_ownLines ho
  · intro hone halways hothers
    refine guarded_of_always (fun _ _ hk _ ho => kept_step hk ho) ?_ h0 (hone.and hothers) halways
    intro s e hk hs hnext
    exact ownLines_of_kept hk hs.1 hs.2 hnext

/-- A server with its home directories on another disk. -/
def homeHost : Host Unit where
  env := ()
  files := Function.update (fun _ => none) fstab (some "/dev/sda2 /home ext4 defaults 0 2\n")
  log := []

/-- Unmounting `/home` in the name of `md0`. -/
def unmountHome : Request := ⟨"md0", .unmountFilesystem (some ⟨"/home", true⟩)⟩

/-- The line of `/home` is gone. -/
theorem unmount_drops_home :
    "/dev/sda2 /home ext4 defaults 0 2".toList ∈
      foreign (fun _ => []) [unmountHome] (fstabText homeHost) ∧
    ¬ Always (serve OS.faultless.run)
      (Kept (foreign (fun _ => []) [unmountHome] (fstabText homeHost))) homeHost [unmountHome] := by
  have hline : "/dev/sda2 /home ext4 defaults 0 2".toList ∈
      foreign (fun _ => []) [unmountHome] (fstabText homeHost) := by decide
  refine ⟨hline, fun halways => ?_⟩
  have hstay : Kept (foreign (fun _ => []) [unmountHome] (fstabText homeHost))
      (serve OS.faultless.run homeHost unmountHome) := halways.2
  have hgone : "/dev/sda2 /home ext4 defaults 0 2".toList ∉
      lines (fstabText (serve OS.faultless.run homeHost unmountHome)) := by decide
  exact hgone (hstay.subset hline)

end Raid
end Nasd
