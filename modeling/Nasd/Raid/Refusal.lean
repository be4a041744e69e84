import Nasd.Raid.Wipe

/-!
# Nasd.Raid.Refusal

When `WipeDisk` refuses, and what it has done by then. It stops the arrays of the disk while it is
still looking at them, so a mounted array is noticed too late unless it comes first; and a probe
that fails counts as an answer.

* `untouched_iff_early`           — nothing is destroyed exactly when it refuses at once.
* `refusal_changes_nothing_iff`   — for a refusal because something is mounted.
* `WipeDisk_spares_used_iff`      — for a disk in use, whichever probes fail.
-/

namespace Nasd
namespace Raid

open Text Go Sys

variable {σ : Type} {R : Runner σ} {h : Host σ} {d md : Str} {mds : List Str}

/-! ## Refusing at once -/

/-- Stopping an array, and erasing superblocks and signatures. -/
def destroys (c : Cmd) : Bool :=
  c.name = "wipefs" || (c.name = "mdadm" &&
    (c.args.head? = some ("--stop" : Str) || c.args.head? = some ("--zero-superblock" : Str)))

/-- The commands since `before`, which destroy nothing. -/
def Spares (before after : Host σ) : Prop :=
  ∃ log, after.log = before.log ++ log ∧ ∀ e ∈ log, destroys e.1 = false

def Untouched (before after : Host σ) : Prop := after.files = before.files ∧ Spares before after

/-- The arrays that `WipeDisk` looks at, in their order. -/
def examined (R : Runner σ) (d : Str) (h : Host σ) : List Str := (arraysForDisk R d (looked R h)).1

/-- The host when the arrays have been listed. -/
def listed (R : Runner σ) (h : Host σ) : Host σ := ((looked R h).run R (cat procMdstat)).2

/-- The host when an array that was found unmounted has been stopped. -/
def stopped (R : Runner σ) (md : Str) (h : Host σ) : Host σ :=
  mdadmConfRemove md ((looked R h).run R (mdadmStop md)).2

/-- The name is refused, or the disk is found mounted, or the first of its arrays is. -/
def Early (R : Runner σ) (d : Str) (h : Host σ) : Prop :=
  ValidDevice d = false ∨ (isMounted R d h).1 = true ∨
    ∃ md mds, examined R d h = md :: mds ∧ mountedAt R md (listed R h) ≠ []

/-- An array is found mounted when its turn comes. -/
def FoundMounted (R : Runner σ) : List Str → Host σ → Prop
  | [], _ => False
  | md :: mds, h => mountedAt R md h ≠ [] ∨ FoundMounted R mds (stopped R md h)

def arrayMounted (mp : Str) : Str :=
  "disk belongs to a RAID array mounted at " ++ mp ++ "; unmount it first"

theorem releaseArrays_cons : releaseArrays R (md :: mds) h =
    if mountedAt R md h ≠ [] then (.error (arrayMounted (mountedAt R md h)), looked R h)
    else releaseArrays R mds (stopped R md h) := by
  rw [releaseArrays, findMountPoint_snd]
  rfl

theorem releaseArrays_mounted (hmp : mountedAt R md h ≠ []) : releaseArrays R (md :: mds) h =
    (.error (arrayMounted (mountedAt R md h)), looked R h) := by
  rw [releaseArrays_cons, if_pos hmp]

theorem releaseArrays_unmounted (hmp : mountedAt R md h = []) :
    releaseArrays R (md :: mds) h = releaseArrays R mds (stopped R md h) := by
  rw [releaseArrays_cons, if_neg (not_not.mpr hmp)]

theorem looked_log : (looked R h).log = h.log ++ [(cat procMounts, (R (cat procMounts) h.env).1)] :=
  rfl

theorem stopped_log : (stopped R md h).log = h.log ++
    [(cat procMounts, (R (cat procMounts) h.env).1),
      (mdadmStop md, (R (mdadmStop md) (looked R h).env).1)] := by
  unfold stopped mdadmConfRemove
  split <;> simp [looked, Host.run]

theorem releaseArrays_log (mds : List Str) (h : Host σ) :
    ∃ log, (releaseArrays R mds h).2.log = h.log ++ log := by
  induction mds generalizing h with
  | nil => exact ⟨[], (List.append_nil _).symm⟩
  | cons md mds ih =>
    by_cases hmp : mountedAt R md h = []
    · obtain ⟨log, hlog⟩ := ih (stopped R md h)
      rw [releaseArrays_unmounted hmp, hlog, stopped_log, List.append_assoc]
      exact ⟨_, rfl⟩
    · rw [releaseArrays_mounted hmp]
      exact ⟨_, rfl⟩

theorem releaseArrays_outcome (mds : List Str) (h : Host σ) :
    (FoundMounted R mds h ∧ ∃ mp, (releaseArrays R mds h).1 = .error (arrayMounted mp)) ∨
      (¬ FoundMounted R mds h ∧ (releaseArrays R mds h).1 = .ok ()) := by
  induction mds generalizing h with
  | nil => exact .inr ⟨id, rfl⟩
  | cons md mds ih =>
    by_cases hmp : mountedAt R md h = []
    · have hfound : FoundMounted R (md :: mds) h ↔ FoundMounted R mds (stopped R md h) :=
        or_iff_right (not_not.mpr hmp)
      rw [hfound, releaseArrays_unmounted hmp]
      exact ih _
    · rw [releaseArrays_mounted hmp]
      exact .inl ⟨.inl hmp, _, rfl⟩

/-! ## WipeDisk -/

/-- What `WipeDisk` does once the arrays are released. -/
def erase (R : Runner σ) (d : Str) (h : Host σ) : Except Str Unit × Host σ :=
  let zeroed := (h.run R (mdadmZero d)).2
  let wiped := zeroed.run R (wipefs d)
  match wiped.1.err with
  | some e => (.error ("wipefs failed: " ++ e), wiped.2)
  | none => (.ok (), (wiped.2.run R (partprobe d)).2)

theorem erase_log (d : Str) (h : Host σ) :
    ∃ log, (erase R d h).2.log = h.log ++ (mdadmZero d, (R (mdadmZero d) h.env).1) :: log := by
  unfold erase
  dsimp only
  split
  · exact ⟨[_], by rw [Host.run_log, Host.run_log, List.append_assoc]; rfl⟩
  · exact ⟨[_, _], by
      rw [Host.run_log, Host.run_log, Host.run_log]
      simp [Host.run]
      exact ⟨rfl, rfl⟩⟩

theorem WipeDisk_invalid (hv : ValidDevice d = false) :
    WipeDisk R d h = (.error ("invalid device: " ++ d), h) := by
  simp [WipeDisk, hv]

theorem WipeDisk_mounted (hv : ValidDevice d = true) (hm : (isMounted R d h).1 = true) :
    WipeDisk R d h = (.error "disk is mounted; unmount it first", looked R h) := by
  have hlook : (isMounted R d h).2 = looked R h := isMounted_snd
  simp [WipeDisk, hv, hm, hlook]

theorem WipeDisk_found {e : Str} (hv : ValidDevice d = true) (hm : (isMounted R d h).1 = false)
    (hfound : (releaseArrays R (examined R d h) (listed R h)).1 = .error e) :
    WipeDisk R d h = (.error e, (releaseArrays R (examined R d h) (listed R h)).2) := by
  have hlook : (isMounted R d h).2 = looked R h := isMounted_snd
  have hlist : (arraysForDisk R d (looked R h)).2 = listed R h := arraysForDisk_snd
  have hexam : (arraysForDisk R d (looked R h)).1 = examined R d h := rfl
  unfold WipeDisk
  simp only [hv, Bool.not_true, Bool.false_eq_true, if_false, hm, hlook, hexam, hlist, hfound]

theorem WipeDisk_erases (hv : ValidDevice d = true) (hm : (isMounted R d h).1 = false)
    (hfree : (releaseArrays R (examined R d h) (listed R h)).1 = .ok ()) :
    WipeDisk R d h = erase R d (releaseArrays R (examined R d h) (listed R h)).2 := by
  have hlook : (isMounted R d h).2 = looked R h := isMounted_snd
  have hlist : (arraysForDisk R d (looked R h)).2 = listed R h := arraysForDisk_snd
  have hexam : (arraysForDisk R d (looked R h)).1 = examined R d h := rfl
  unfold WipeDisk
  simp only [hv, Bool.not_true, Bool.false_eq_true, if_false, hm, hlook, hexam, hlist, hfree]
  rfl

theorem destroys_cat (path : Str) : destroys (cat path) = false := rfl
theorem destroys_stop (md : Str) : destroys (mdadmStop md) = true := rfl
theorem destroys_zero (d : Str) : destroys (mdadmZero d) = true := rfl

theorem spares_looked (h : Host σ) : Spares h (looked R h) :=
  ⟨_, looked_log, fun _ he => List.mem_singleton.mp he ▸ destroys_cat procMounts⟩

theorem Spares.trans {h₁ h₂ : Host σ} (h01 : Spares h h₁) (h12 : Spares h₁ h₂) : Spares h h₂ := by
  obtain ⟨log, hlog, hspare⟩ := h01
  obtain ⟨log', hlog', hspare'⟩ := h12
  refine ⟨log ++ log', by rw [hlog', hlog, List.append_assoc], ?_⟩
  intro e he
  rcases List.mem_append.mp he with he | he
  · exact hspare e he
  · exact hspare' e he

theorem spares_listed (h : Host σ) : Spares h (listed R h) :=
  (spares_looked h).trans
    ⟨_, rfl, fun _ he => List.mem_singleton.mp he ▸ destroys_cat procMdstat⟩

/-- A command of the log that destroys something cannot be taken back. -/
theorem not_spares {h' : Host σ} {log log' : List (Cmd × Result)} {c : Cmd} {r : Result}
    (hlog : h'.log = h.log ++ log ++ (c, r) :: log') (hc : destroys c = true) : ¬ Spares h h' := by
  rintro ⟨log'', hlog'', hspare⟩
  rw [hlog, List.append_assoc] at hlog''
  have hmem : (c, r) ∈ log'' := by
    rw [← List.append_cancel_left hlog'']
    exact List.mem_append_right _ List.mem_cons_self
  have hfalse : destroys c = false := hspare _ hmem
  rw [hc] at hfalse
  cases hfalse

theorem untouched_of_early (hearly : Early R d h) : Untouched h (WipeDisk R d h).2 := by
  by_cases hv : ValidDevice d = true
  · by_cases hm : (isMounted R d h).1 = true
    · rw [WipeDisk_mounted hv hm]
      exact ⟨rfl, spares_looked h⟩
    · rw [Bool.not_eq_true] at hm
      rcases hearly with hbad | hbad | ⟨md, mds, hexam, hmp⟩
      · rw [hv] at hbad
        cases hbad
      · rw [hm] at hbad
        cases hbad
      · have hrelease : releaseArrays R (examined R d h) (listed R h) =
            (.error (arrayMounted (mountedAt R md (listed R h))), looked R (listed R h)) := by
          rw [hexam]
          exact releaseArrays_mounted hmp
        rw [WipeDisk_found hv hm (congrArg Prod.fst hrelease), hrelease]
        exact ⟨rfl, (spares_listed h).trans (spares_looked _)⟩
  · rw [Bool.not_eq_true] at hv
    rw [WipeDisk_invalid hv]
    exact ⟨rfl, [], (List.append_nil _).symm, fun _ he => absurd he List.not_mem_nil⟩

theorem early_of_spares (hspares : Spares h (WipeDisk R d h).2) : Early R d h := by
  by_cases hv : ValidDevice d = true
  · by_cases hm : (isMounted R d h).1 = true
    · exact .inr (.inl hm)
    · rw [Bool.not_eq_true] at hm
      obtain ⟨listing, hlisting, -⟩ := spares_listed (R := R) h
      -- the log goes on from the listing, and no array of it was found mounted at once
      have hlog : ∃ log, (WipeDisk R d h).2.log =
          (releaseArrays R (examined R d h) (listed R h)).2.log ++ log := by
        rcases releaseArrays_outcome (examined R d h) (listed R h) with ⟨-, mp, hout⟩ | ⟨-, hout⟩
        · rw [WipeDisk_found hv hm hout]
          exact ⟨[], (List.append_nil _).symm⟩
        · rw [WipeDisk_erases hv hm hout]
          obtain ⟨log, hlog⟩ :=
            erase_log (R := R) d (releaseArrays R (examined R d h) (listed R h)).2
          exact ⟨_, hlog⟩
      cases hexam : examined R d h with
      | nil =>
        have hfree : (releaseArrays R (examined R d h) (listed R h)).1 = .ok () := by
          rw [hexam]
          rfl
        rw [WipeDisk_erases hv hm hfree, hexam] at hspares
        obtain ⟨log, hlog⟩ := erase_log (R := R) d (releaseArrays R [] (listed R h)).2
        rw [releaseArrays, hlisting] at hlog
        exact absurd hspares (not_spares hlog (destroys_zero d))
      | cons md mds =>
        by_cases hmp : mountedAt R md (listed R h) = []
        · obtain ⟨log, hlog⟩ := hlog
          obtain ⟨log', hlog'⟩ := releaseArrays_log (R := R) mds (stopped R md (listed R h))
          rw [hexam, releaseArrays_unmounted hmp, hlog', stopped_log, hlisting] at hlog
          have hstop : (WipeDisk R d h).2.log = h.log ++
              (listing ++ [(cat procMounts, (R (cat procMounts) (listed R h).env).1)]) ++
              (mdadmStop md, (R (mdadmStop md) (looked R (listed R h)).env).1) ::
                (log' ++ log) := by
            rw [hlog]
            simp
          exact absurd hspares (not_spares hstop (destroys_stop md))
        · exact .inr (.inr ⟨md, mds, hexam, hmp⟩)
  · exact .inl (Bool.not_eq_true _ ▸ hv)

/-- `WipeDisk` destroys nothing exactly when it refuses at once; then no file has changed either. -/
theorem untouched_iff_early : Untouched h (WipeDisk R d h).2 ↔ Early R d h :=
  ⟨fun huntouched => early_of_spares huntouched.2, untouched_of_early⟩

theorem spares_iff_early : Spares h (WipeDisk R d h).2 ↔ Early R d h :=
  ⟨early_of_spares, fun hearly => (untouched_of_early hearly).2⟩

/-! ## Refusing because something is mounted -/

/-- It refuses because the disk, or an array of it, is mounted. -/
def Refused (R : Runner σ) (d : Str) (h : Host σ) : Prop :=
  (WipeDisk R d h).1 = .error "disk is mounted; unmount it first" ∨
    ∃ mp, (WipeDisk R d h).1 = .error (arrayMounted mp)

theorem erase_fst (d : Str) (h : Host σ) :
    (erase R d h).1 = .ok () ∨ ∃ e, (erase R d h).1 = .error ("wipefs failed: " ++ e) := by
  unfold erase
  dsimp only
  split
  · exact .inr ⟨_, rfl⟩
  · exact .inl rfl

/-- The other errors begin with `i` or `w`, these with `d`. -/
theorem not_refused {e : Str} (hout : (WipeDisk R d h).1 = .error e)
    (he : ∃ c cs, e = c :: cs ∧ c ≠ 'd') : ¬ Refused R d h := by
  obtain ⟨c, cs, rfl, hc⟩ := he
  unfold Refused
  rw [hout]
  rintro (hmounted | ⟨mp, harray⟩)
  · exact hc (List.cons.inj (Except.error.inj hmounted)).1
  · exact hc (List.cons.inj (Except.error.inj harray)).1

theorem refused_iff : Refused R d h ↔ ValidDevice d = true ∧
    ((isMounted R d h).1 = true ∨ FoundMounted R (examined R d h) (listed R h)) := by
  by_cases hv : ValidDevice d = true
  · by_cases hm : (isMounted R d h).1 = true
    · exact iff_of_true (.inl (congrArg Prod.fst (WipeDisk_mounted hv hm))) ⟨hv, .inl hm⟩
    · rw [Bool.not_eq_true] at hm
      rcases releaseArrays_outcome (examined R d h) (listed R h) with
        ⟨hfound, mp, hout⟩ | ⟨hfree, hout⟩
      · exact iff_of_true (.inr ⟨mp, congrArg Prod.fst (WipeDisk_found hv hm hout)⟩)
          ⟨hv, .inr hfound⟩
      · have hall : ¬ (ValidDevice d = true ∧
            ((isMounted R d h).1 = true ∨ FoundMounted R (examined R d h) (listed R h))) := by
          simp [hm, hfree]
        refine iff_of_false ?_ hall
        have hwipe := congrArg Prod.fst (WipeDisk_erases hv hm hout)
        rcases erase_fst (R := R) d (releaseArrays R (examined R d h) (listed R h)).2 with
          hok | ⟨e, herr⟩
        · unfold Refused
          rw [hwipe, hok]
          simp
        · exact not_refused (hwipe.trans herr) ⟨'w', _, rfl, by decide⟩
  · have hinvalid :=
      congrArg Prod.fst (WipeDisk_invalid (R := R) (h := h) (Bool.not_eq_true _ ▸ hv))
    exact iff_of_false (not_refused hinvalid ⟨'i', _, rfl, by decide⟩) fun hboth => hv hboth.1

/-- A refusal because the disk or an array of it is mounted has changed nothing, if and only if no
array is found mounted behind one that was stopped before it. -/
theorem refusal_changes_nothing_iff (R : Runner σ) (d : Str) (h : Host σ) :
    (Refused R d h → Untouched h (WipeDisk R d h).2) ↔
      ∀ md mds, ValidDevice d = true → (isMounted R d h).1 = false →
        examined R d h = md :: mds →
          mountedAt R md (listed R h) ≠ [] ∨ ¬ FoundMounted R mds (stopped R md (listed R h)) := by
  rw [refused_iff, untouched_iff_early]
  constructor
  · intro hrefusal md mds hv hm hexam
    by_cases hmp : mountedAt R md (listed R h) ≠ []
    · exact .inl hmp
    · refine .inr fun hfound => ?_
      have hlater : FoundMounted R (examined R d h) (listed R h) := by
        rw [hexam]
        exact .inr hfound
      rcases hrefusal ⟨hv, .inr hlater⟩ with hbad | hbad | ⟨md', mds', hexam', hmp'⟩
      · rw [hv] at hbad
        cases hbad
      · rw [hm] at hbad
        cases hbad
      · rw [hexam] at hexam'
        obtain ⟨rfl, rfl⟩ := List.cons.inj hexam'
        exact hmp hmp'
  · rintro hfirst ⟨hv, hmounted⟩
    by_cases hm : (isMounted R d h).1 = true
    · exact .inr (.inl hm)
    · have hfound := hmounted.resolve_left hm
      rw [Bool.not_eq_true] at hm
      cases hexam : examined R d h with
      | nil =>
        rw [hexam] at hfound
        exact hfound.elim
      | cons md mds =>
        rw [hexam] at hfound
        refine .inr (.inr ⟨md, mds, hexam, ?_⟩)
        rcases hfirst md mds hv hm hexam with hmp | hnot
        · exact hmp
        · exact hfound.resolve_right hnot

/-- Partitions of `sda` and `sdb` in two mirrors, the second of them mounted. -/
def twoMirrors : Runner Unit :=
  withProc "md0 : active raid1 sda1[0] sdb1[1]\nmd1 : active raid1 sda2[0] sdb2[1]\n"
    "/dev/md1 /srv/nas/md1 ext4 rw 0 0\n" fun _ s => (⟨[], [], none⟩, s)

/-- Wiping `sda` is refused because of the second mirror, and the first one has been stopped and
taken out of the configuration. -/
theorem first_mirror_stopped :
    ¬ (Refused twoMirrors "/dev/sda" (Host.start () mirrorFiles) →
      Untouched (Host.start () mirrorFiles)
        (WipeDisk twoMirrors "/dev/sda" (Host.start () mirrorFiles)).2) := by
  intro hrefusal
  have hout : (WipeDisk twoMirrors "/dev/sda" (Host.start () mirrorFiles)).1 =
      .error (arrayMounted "/srv/nas/md1") := by decide +kernel
  have hconf : (WipeDisk twoMirrors "/dev/sda" (Host.start () mirrorFiles)).2.files mdadmConf ≠
      some "ARRAY /dev/md0 UUID=a\n" := by decide +kernel
  exact hconf (congrFun (hrefusal (.inr ⟨_, hout⟩)).1 mdadmConf)

/-! ## Failing probes -/

/-- A system with the two tables, on which reading them may fail. -/
def probing (mdstat mounts : Str) (fault : Cmd → σ → Option Str) (R : Runner σ) : Runner σ :=
  fun c s =>
    if c = cat procMdstat then (⟨mdstat, [], fault c s⟩, (R c s).2)
    else if c = cat procMounts then (⟨mounts, [], fault c s⟩, (R c s).2)
    else R c s

/-- A filesystem of the device is mounted. -/
def Mounted (mounts dev : Str) : Prop :=
  ∃ l ∈ lines mounts, ∃ mp rest, Fields l = dev :: mp :: rest

/-- A filesystem is mounted from the disk, a partition of it, or an array with one of them. -/
def InUse (mdstat mounts d : Str) : Prop :=
  (∃ name, OfDisk (TrimPrefix d "/dev/") name = true ∧ Mounted mounts ("/dev/" ++ name)) ∨
    ∃ md, HasMember mdstat d md ∧ Mounted mounts md

theorem mountPointOf_ne_nil_iff {ls : List Str} :
    mountPointOf md ls ≠ [] ↔ ∃ l ∈ ls, ∃ mp rest, Fields l = md :: mp :: rest := by
  induction ls with
  | nil => simp [mountPointOf]
  | cons l ls ih =>
    rw [List.exists_mem_cons_iff, ← ih]
    cases hf : Fields l with
    | nil => simp [mountPointOf, hf]
    | cons src rest =>
      cases rest with
      | nil => simp [mountPointOf, hf]
      | cons mp rest =>
        have hmem : mp ∈ Fields l := hf ▸ List.mem_cons_of_mem _ List.mem_cons_self
        have hmp : mp ≠ [] := (mem_words hmem).1
        by_cases hsrc : src = md
        · simp [mountPointOf, hf, hsrc, hmp]
        · simp [mountPointOf, hf, hsrc]

section

variable {mdstat mounts : Str} {fault : Cmd → σ → Option Str}

theorem run_probing_mounts : h.run (probing mdstat mounts fault R) (cat procMounts) =
    (⟨mounts, [], fault (cat procMounts) h.env⟩,
      { h with env := (R (cat procMounts) h.env).2
               log := h.log ++
                [(cat procMounts, ⟨mounts, [], fault (cat procMounts) h.env⟩)] }) := by
  have hne : cat procMounts ≠ cat procMdstat := by decide
  simp [Host.run, probing, hne]

theorem run_probing_mdstat : h.run (probing mdstat mounts fault R) (cat procMdstat) =
    (⟨mdstat, [], fault (cat procMdstat) h.env⟩,
      { h with env := (R (cat procMdstat) h.env).2
               log := h.log ++
                [(cat procMdstat, ⟨mdstat, [], fault (cat procMdstat) h.env⟩)] }) := by
  simp [Host.run, probing]

theorem looked_probing_env :
    (looked (probing mdstat mounts fault R) h).env = (R (cat procMounts) h.env).2 := by
  rw [looked, run_probing_mounts]

theorem listed_probing_env : (listed (probing mdstat mounts fault R) h).env =
    (R (cat procMdstat) (R (cat procMounts) h.env).2).2 := by
  rw [listed, run_probing_mdstat, looked_probing_env]

theorem isMounted_probing : (isMounted (probing mdstat mounts fault R) d h).1 = true ↔
    fault (cat procMounts) h.env = none ∧ (lines mounts).any (mountsDevice d) = true := by
  unfold isMounted
  rw [run_probing_mounts]
  cases fault (cat procMounts) h.env <;> simp

theorem mountedAt_probing : mountedAt (probing mdstat mounts fault R) md h ≠ [] ↔
    fault (cat procMounts) h.env = none ∧ Mounted mounts md := by
  unfold mountedAt findMountPoint
  rw [run_probing_mounts]
  cases fault (cat procMounts) h.env with
  | none =>
    rw [and_iff_right rfl]
    exact mountPointOf_ne_nil_iff
  | some e => simp

theorem examined_probing : examined (probing mdstat mounts fault R) d h = md :: mds ↔
    fault (cat procMdstat) (R (cat procMounts) h.env).2 = none ∧
      ((mdLines mdstat).filter (matchesDisk (TrimPrefix d "/dev/"))).map deviceOf = md :: mds := by
  unfold examined arraysForDisk
  rw [run_probing_mdstat, looked_probing_env]
  cases fault (cat procMdstat) (R (cat procMounts) h.env).2 with
  | none => simp; rfl
  | some e => simp

/-- The mount table is read, and a source in it begins with the device. -/
def SeenMounted (mounts d : Str) (fault : Cmd → σ → Option Str) (h : Host σ) : Prop :=
  fault (cat procMounts) h.env = none ∧ (lines mounts).any (mountsDevice d) = true

/-- The list of arrays is read, the mount table as well after it, and the first array with a member
whose name begins with the disk's is in the table. -/
def SeenInArray (mdstat mounts d : Str) (fault : Cmd → σ → Option Str) (R : Runner σ)
    (h : Host σ) : Prop :=
  let env := (R (cat procMounts) h.env).2
  fault (cat procMdstat) env = none ∧
    fault (cat procMounts) (R (cat procMdstat) env).2 = none ∧
    ∃ line lines, (mdLines mdstat).filter (matchesDisk (TrimPrefix d "/dev/")) = line :: lines ∧
      Mounted mounts (deviceOf line)

theorem early_probing : Early (probing mdstat mounts fault R) d h ↔
    ValidDevice d = false ∨ SeenMounted mounts d fault h ∨
      SeenInArray mdstat mounts d fault R h := by
  unfold Early SeenInArray
  refine or_congr_right (or_congr isMounted_probing ?_)
  simp only [mountedAt_probing, examined_probing, listed_probing_env, List.map_eq_cons_iff]
  constructor
  · rintro ⟨md, mds, ⟨hlist, line, lines, hlines, rfl, rfl⟩, hprobe, hmounted⟩
    exact ⟨hlist, hprobe, line, lines, hlines, hmounted⟩
  · rintro ⟨hlist, hprobe, line, lines, hlines, hmounted⟩
    exact ⟨_, _, ⟨hlist, line, lines, hlines, rfl, rfl⟩, hprobe, hmounted⟩

end

/-- Whichever probes fail, a disk in use is spared exactly when its name is refused, or the disk is
seen mounted, or the first of its arrays is. -/
theorem WipeDisk_spares_used_iff (mdstat mounts d : Str) (fault : Cmd → σ → Option Str)
    (R : Runner σ) (h : Host σ) :
    (InUse mdstat mounts d → Spares h (WipeDisk (probing mdstat mounts fault R) d h).2) ↔
      (InUse mdstat mounts d → ValidDevice d = false ∨ SeenMounted mounts d fault h ∨
        SeenInArray mdstat mounts d fault R h) := by
  rw [spares_iff_early, early_probing]

/-- The list of arrays cannot be read while the mirror of the disk is mounted: everything on the
disk is erased. -/
theorem unread_mirror_wiped :
    ¬ (InUse "md0 : active raid1 sda[0] sdb[1]\n" "/dev/md0 /srv/nas/md0 ext4 rw 0 0\n" "/dev/sda" →
      Spares (Host.start () fun _ => none)
        (WipeDisk (probing "md0 : active raid1 sda[0] sdb[1]\n"
            "/dev/md0 /srv/nas/md0 ext4 rw 0 0\n"
            (fun c _ => if c = cat procMdstat then some "exit status 1" else none)
            fun _ s => (⟨[], [], none⟩, s)) "/dev/sda" (Host.start () fun _ => none)).2) := by
  intro hspares
  have hused : InUse "md0 : active raid1 sda[0] sdb[1]\n" "/dev/md0 /srv/nas/md0 ext4 rw 0 0\n"
      "/dev/sda" :=
    .inr ⟨"/dev/md0", ⟨"md0 : active raid1 sda[0] sdb[1]", by decide +kernel⟩,
      "/dev/md0 /srv/nas/md0 ext4 rw 0 0", by decide +kernel, "/srv/nas/md0",
      ["ext4", "rw", "0", "0"], by decide +kernel⟩
  obtain ⟨log, hlog, hall⟩ := hspares hused
  have hzero : (mdadmZero "/dev/sda", (⟨[], [], none⟩ : Result)) ∈ log := by
    rw [← List.nil_append log]
    exact hlog ▸ (by decide +kernel)
  have hfalse : destroys (mdadmZero "/dev/sda") = false := hall _ hzero
  rw [destroys_zero] at hfalse
  cases hfalse

end Raid
end Nasd
