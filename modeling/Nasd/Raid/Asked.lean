import Nasd.Raid.Routines

/-!
# Nasd.Raid.Asked

What the operations of `Nasd.Raid.Routines` ask of the machine, whatever it answers: commands that
leave services and mounts as they are, `umount`, `mdadm --stop`, and their own files.

* `mutate_asks` — any request on the storage.
-/

namespace Nasd
namespace Raid
namespace Routine

open Text Go Sys Sys.Routine
open Prog (Asks)

variable {ρ : Type}

/-- A command that undoes a mount or stops an array. -/
inductive Releases : Cmd → Prop where
  | umount (target : Str) : Releases (umount target)
  | stop (md : Str) : Releases (mdadmStop md)

/-- What the storage operations do. -/
inductive Storage : Sys.Action ρ → Prop where
  | quiet {c : Cmd} (h : Quiet c) : Storage (.run c)
  | release {c : Cmd} (h : Releases c) : Storage (.run c)
  | read (path : Str) : Storage (.read path)
  | save (path content : Str) : Storage (.save path content)

theorem asks_tool {c : Cmd} (h : tools.contains c.name = true) :
    Asks Storage (run c : Routine ρ Result) :=
  .act (.quiet (.tool h))

theorem asks_mdadm {mode : Str} {args : List Str} (h : mode ≠ "--stop") :
    Asks Storage (run ⟨"mdadm", mode :: args⟩ : Routine ρ Result) :=
  .act (.quiet (.mdadm h))

theorem asks_read (path : Str) : Asks Storage (read path : Routine ρ (Option Str)) :=
  .act (.read path)

theorem asks_save (path content : Str) : Asks Storage (save path content : Routine ρ Unit) :=
  .act (.save path content)

theorem findMountPoint_asks (md : Str) : Asks Storage (findMountPoint md : Routine ρ Str) := by
  refine .bind (asks_tool rfl) fun out => ?_
  split <;> exact .pure _

theorem isMounted_asks (device : Str) : Asks Storage (isMounted device : Routine ρ Bool) := by
  refine .bind (asks_tool rfl) fun out => ?_
  split <;> exact .pure _

theorem arraysForDisk_asks (device : Str) :
    Asks Storage (arraysForDisk device : Routine ρ (List Str)) := by
  refine .bind (asks_tool rfl) fun out => ?_
  split <;> exact .pure _

theorem mdadmConfRemove_asks (md : Str) : Asks Storage (mdadmConfRemove md : Routine ρ Unit) := by
  refine .bind (asks_read _) fun data => ?_
  split
  · exact .pure _
  · exact asks_save _ _

theorem fstabRemove_asks (mp : Str) : Asks Storage (fstabRemove mp : Routine ρ Unit) := by
  refine .bind (asks_read _) fun data => ?_
  split
  · exact .pure _
  · exact asks_save _ _

theorem persistArray_asks (md : Str) : Asks Storage (persistArray md : Routine ρ Unit) := by
  refine .bind (asks_mdadm (by decide)) fun out => ?_
  split
  · exact .pure _
  · refine .ite (.pure _) (.bind (asks_read _) fun data => .ite (.pure _) ?_)
    exact .bind (asks_save _ _) fun _ => .bind (asks_tool rfl) fun _ => .pure _

theorem Create_asks (md level : Str) (devices : List Str) :
    Asks Storage (Create md level devices : Routine ρ _) := by
  unfold Create
  refine .ite (.pure _) ?_
  split
  · exact .pure _
  · refine .ite (.pure _) ?_
    split
    · exact .pure _
    · refine .bind (asks_mdadm (by decide)) fun out => ?_
      split
      · exact .pure _
      · exact .bind (asks_tool rfl) fun _ => .bind (persistArray_asks md) fun _ => .pure _

theorem releaseArrays_asks (mds : List Str) : Asks Storage (releaseArrays mds : Routine ρ _) := by
  induction mds with
  | nil => exact .pure _
  | cons md mds ih =>
    refine .bind (findMountPoint_asks md) fun mp => .ite (.pure _) ?_
    exact .bind (.act (.release (.stop md))) fun _ => .bind (mdadmConfRemove_asks md) fun _ => ih

theorem WipeDisk_asks (device : Str) : Asks Storage (WipeDisk device : Routine ρ _) := by
  refine .ite (.pure _) (.bind (isMounted_asks device) fun mounted => .ite (.pure _) ?_)
  refine .bind (arraysForDisk_asks device) fun mds => .bind (releaseArrays_asks mds) fun out => ?_
  split
  · exact .pure _
  · refine .bind (asks_mdadm (by decide)) fun _ => .bind (asks_tool rfl) fun wiped => ?_
    split
    · exact .pure _
    · exact .bind (asks_tool rfl) fun _ => .pure _

theorem arrayMembers_asks (md : Str) : Asks Storage (arrayMembers md : Routine ρ (List Str)) := by
  refine .bind (asks_mdadm (by decide)) fun out => ?_
  split <;> exact .pure _

theorem clearMembers_asks (ds : List Str) : Asks Storage (clearMembers ds : Routine ρ Unit) := by
  induction ds with
  | nil => exact .pure _
  | cons d ds ih =>
    exact .bind (asks_mdadm (by decide)) fun _ => .bind (asks_tool rfl) fun _ =>
      .bind (asks_tool rfl) fun _ => ih

theorem Stop_asks (md : Str) : Asks Storage (Stop md : Routine ρ _) := by
  refine .ite (.pure _) (.bind (.bind (findMountPoint_asks md) fun mp => ?_) fun members => ?_)
  · refine .bind (.ite (.bind (.act (.release (.umount mp))) fun _ => fstabRemove_asks mp) (.pure _))
      fun _ => ?_
    exact .bind (arrayMembers_asks md) fun _ => .bind (mdadmConfRemove_asks md) fun _ => .pure _
  · refine .bind (.act (.release (.stop md))) fun out => ?_
    split
    · exact .pure _
    · exact .bind (clearMembers_asks members) fun _ => .pure _

theorem runErr_asks {c : Cmd} (hc : Quiet c) : Asks Storage (runErr c : Routine ρ _) := by
  refine .bind (.act (.quiet hc)) fun out => ?_
  split <;> exact .pure _

/-- One operation, and another when it gives no error. -/
theorem andThen_asks {α β : Type} {p : Routine ρ (Except Str α)}
    {k : Except Str α → Routine ρ β} (hp : Asks Storage p) (he : ∀ e, Asks Storage (k (.error e)))
    (hk : ∀ x, Asks Storage (k (.ok x))) : Asks Storage (p >>= k) :=
  .bind hp fun out => by
    cases out with
    | error e => exact he e
    | ok x => exact hk x

theorem RemoveDisk_asks (md disk : Str) : Asks Storage (RemoveDisk md disk : Routine ρ _) :=
  .ite (.pure _) (andThen_asks (runErr_asks (.mdadm (by decide))) (fun _ => .pure _)
    fun _ => runErr_asks (.mdadm (by decide)))

theorem runEach_asks {cs : List (Cmd × Str)} (hcs : ∀ c ∈ cs, Quiet c.1 ∨ Releases c.1) :
    Asks Storage (runEach cs : Routine ρ _) := by
  induction cs with
  | nil => exact .pure _
  | cons c cs ih =>
    have hc : Asks Storage (run c.1 : Routine ρ Result) :=
      .act ((hcs c List.mem_cons_self).elim .quiet .release)
    refine .bind hc fun out => ?_
    split
    · exact .pure _
    · exact ih fun c' hc' => hcs c' (List.mem_cons_of_mem _ hc')

theorem has_asks (cmd : Str) : Asks Storage (has cmd : Routine ρ Bool) :=
  .bind (.act (.quiet (.look cmd))) fun _ => .pure _

theorem install_asks (cmd pkg : Str) : Asks Storage (install cmd pkg : Routine ρ Bool) := by
  refine .bind (.act (.quiet (.apt (.inl rfl)))) fun _ => .bind (has_asks cmd) fun found => ?_
  exact .ite (has_asks cmd) (.bind (.act (.quiet (.apt (.inl rfl)))) fun _ => has_asks cmd)

theorem ensureMkfs_asks (cmd fsType : Str) : Asks Storage (ensureMkfs cmd fsType : Routine ρ _) :=
  .bind (has_asks cmd) fun _ => .ite (.pure _) (.ite (.pure _)
    (.bind (install_asks cmd _) fun _ => .ite (.pure _) (.pure _)))

theorem fstabAdd_asks (device mp fsType : Str) :
    Asks Storage (fstabAdd device mp fsType : Routine ρ Unit) := by
  refine .bind (.bind (asks_tool rfl) fun out => ?_) fun src => .bind (asks_read _) fun data => ?_
  · split <;> exact .pure _
  · split
    · exact .pure _
    · exact .ite (.pure _) (asks_save _ _)

theorem mkfs_quiet {fsType cmd flag : Str} (hfs : validFS fsType = some (cmd, flag))
    (args : List Str) : Quiet ⟨cmd, args⟩ := by
  have hname : tools.contains cmd = true := by
    rcases validFS_cases hfs with ⟨-, rfl⟩ | ⟨-, rfl⟩ | ⟨-, rfl⟩ | ⟨-, rfl⟩ <;> rfl
  exact .tool hname

theorem mountOps_quiet (fsType md mp : Str) :
    ∀ c ∈ mountOps fsType md mp, Quiet c.1 ∨ Releases c.1 := by
  intro c hc
  simp only [mountOps, List.mem_cons, List.not_mem_nil, or_false] at hc
  rcases hc with rfl | rfl
  · exact .inl (.tool rfl)
  · exact .inl (.tool rfl)

theorem mountNew_asks (md fsType mp : Str) : Asks Storage (mountNew md fsType mp : Routine ρ _) := by
  unfold mountNew
  refine .ite (.pure _) ?_
  split
  · exact .pure _
  · rename_i cmd flag hfs
    refine .ite (.pure _) (andThen_asks (ensureMkfs_asks _ _) (fun _ => .pure _) fun _ => ?_)
    refine runEach_asks fun c hc => ?_
    rcases List.mem_cons.mp hc with rfl | hc
    · exact .inl (mkfs_quiet hfs _)
    · exact mountOps_quiet _ _ _ c hc

theorem CreateFilesystem_asks (md fsType mp : Str) :
    Asks Storage (CreateFilesystem md fsType mp : Routine ρ _) :=
  andThen_asks (mountNew_asks md fsType mp) (fun _ => .pure _)
    fun _ => .bind (fstabAdd_asks md mp fsType) fun _ => .pure _

theorem MountOnly_asks (md fsType mp : Str) : Asks Storage (MountOnly md fsType mp : Routine ρ _) :=
  andThen_asks (.ite (.pure _) (.ite (.pure _) (runEach_asks (mountOps_quiet _ _ _))))
    (fun _ => .pure _) fun _ => .bind (fstabAdd_asks md mp fsType) fun _ => .pure _

theorem umount_asks (target what : Str) :
    Asks Storage (runEach [(umount target, what)] : Routine ρ _) :=
  runEach_asks fun _ hc => .inr (List.mem_singleton.mp hc ▸ .umount target)

theorem UnmountFilesystem_asks (mp : Str) : Asks Storage (UnmountFilesystem mp : Routine ρ _) :=
  .ite (.pure _) (andThen_asks (umount_asks _ _) (fun _ => .pure _)
    fun _ => .bind (fstabRemove_asks mp) fun _ => .pure _)

theorem wipedMountPoint_asks (md : Str) : Asks Storage (wipedMountPoint md : Routine ρ _) := by
  refine .bind (findMountPoint_asks md) fun mp => .ite ?_ (.bind (.bind (asks_read _) fun data => ?_)
    fun fm => .ite (.pure _) (.pure _))
  · exact andThen_asks (umount_asks _ _) (fun _ => .pure _) fun _ => .pure _
  · split <;> exact .pure _

theorem WipeFilesystem_asks (md : Str) : Asks Storage (WipeFilesystem md : Routine ρ _) := by
  refine .ite (.pure _) (andThen_asks (wipedMountPoint_asks md) (fun _ => .pure _) fun mp => ?_)
  have hwipe : Asks Storage (runEach [(wipefs md, "wipefs fallito: ")] : Routine ρ _) :=
    runEach_asks fun _ hc => .inl (List.mem_singleton.mp hc ▸ .tool rfl)
  refine .bind (fstabRemove_asks mp) fun _ => andThen_asks hwipe (fun _ => .pure _) fun _ => ?_
  exact .ite (.bind (asks_tool rfl) fun _ => .pure _) (.pure _)

theorem growMounted_asks (fsType md : Str) {grow : Str → Cmd} (hgrow : ∀ mp, Quiet (grow mp)) :
    Asks Storage (growMounted fsType md grow : Routine ρ _) :=
  .bind (findMountPoint_asks md) fun mp => .ite (.pure _) (runErr_asks (hgrow mp))

theorem GrowFilesystem_asks (md fsType : Str) :
    Asks Storage (GrowFilesystem md fsType : Routine ρ _) :=
  .ite (.pure _) (.ite (runErr_asks (.tool rfl)) (.ite
    (growMounted_asks _ md fun _ => .tool rfl) (.ite
      (growMounted_asks _ md fun _ => .tool rfl) (.pure _))))

theorem respond_asks (code : Nat) (text : Str) {p : Routine ρ (Except Str Unit)}
    (hp : Asks Storage p) : Asks Storage (respond code text p) :=
  andThen_asks hp (fun _ => .pure _) fun _ => .pure _

theorem handle_asks (q : Request) : Asks Storage (handle q : Routine ρ Reply) := by
  obtain ⟨md, action⟩ := q
  cases action with
  | createFilesystem body =>
    cases body with
    | none => exact .pure _
    | some req => exact .ite (.pure _) (respond_asks _ _ (CreateFilesystem_asks _ _ _))
  | mountFilesystem body =>
    cases body with
    | none => exact .pure _
    | some req => exact .ite (.pure _) (respond_asks _ _ (MountOnly_asks _ _ _))
  | unmountFilesystem body =>
    cases body with
    | none => exact .pure _
    | some req => exact .ite (.pure _) (respond_asks _ _ (UnmountFilesystem_asks _))
  | deleteFilesystem confirm =>
    exact .ite (.pure _) (respond_asks _ _ (WipeFilesystem_asks _))
  | deleteArray confirm => exact .ite (.pure _) (respond_asks _ _ (Stop_asks _))

/-- Nothing that is asked of the storage starts a service. -/
theorem mutate_asks (m : Mutation) : Asks Storage (mutate m : Routine ρ Reply) := by
  cases m with
  | filesystem q => exact handle_asks q
  | create body =>
    cases body with
    | none => exact .pure _
    | some req => exact .ite (.pure _) (respond_asks _ _ (Create_asks _ _ _))
  | wipeDisk device confirm => exact .ite (.pure _) (respond_asks _ _ (WipeDisk_asks _))
  | growFilesystem md fstype =>
    cases fstype with
    | none => exact .pure _
    | some fstype => exact respond_asks _ _ (GrowFilesystem_asks _ _)
  | addDisk md disk =>
    exact respond_asks _ _ (.ite (.pure _) (runErr_asks (.mdadm (by decide))))
  | removeDisk md disk => exact respond_asks _ _ (RemoveDisk_asks _ _)

end Routine
end Raid
end Nasd
