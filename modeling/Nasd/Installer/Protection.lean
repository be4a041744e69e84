import Mathlib.Logic.Relation
import Nasd.Installer.Scrub

/-!
# Nasd.Installer.Protection

Which devices the scrub may write to, and when it keeps to them. A disk is to be protected when it
is on the USB bus, or when some chain of slaves leads from the installation medium to it or to one
of its partitions (`Protected`). The script takes the first line of `/proc/mounts` for the medium's,
follows first slaves only, and takes the partitions of a disk to be the nodes whose names begin with
the disk's.

* `resolve_eq`, `found_iff` — the bounded walk finds the disk at the end of the first slaves.
* `is_prot_iff`             — the names that the script protects.
* `scrub_safe_iff`          — when nothing but unprotected disks is written.
-/

namespace Nasd
namespace Installer

open Text Go

variable {T : Topology}

/-! ## What is to be protected -/

/-- `x` is `k` or lies under it, through any of the slaves at each step. -/
def Under (T : Topology) (k x : Str) : Prop := Relation.ReflTransGen (fun a b => b ∈ T.slaves a) k x

/-- The device that the installation medium is mounted from. -/
def MediumSource (T : Topology) (k : Str) : Prop :=
  ∃ mp ∈ mediumMountPoints, T.mountedFrom mp = some k

def UnderMedium (T : Topology) (d : Str) : Prop :=
  ∃ k, MediumSource T k ∧ ∃ x, Under T k x ∧ (x = d ∨ T.parent x = some d)

def Protected (T : Topology) (d : Str) : Prop := T.usb d = true ∨ UnderMedium T d

/-- An unprotected disk, or a partition of one. -/
def Allowed (T : Topology) (x : Str) : Prop :=
  ∃ d ∈ disks T, ¬ Protected T d ∧ (x = d ∨ T.parent x = some d)

/-- A protected disk, or a partition of one. -/
def Forbidden (T : Topology) (x : Str) : Prop :=
  ∃ d ∈ disks T, Protected T d ∧ (x = d ∨ T.parent x = some d)

def Safe (T : Topology) : Prop :=
  ∀ w ∈ writes T, Allowed T w.target ∧ ¬ Forbidden T w.target

theorem mem_sysBlock_of_disks {d : Str} (hd : d ∈ disks T) : d ∈ T.sysBlock := by
  simp only [disks, List.mem_append, List.mem_filter] at hd
  rcases hd with (hd | hd) | hd <;> exact hd.1

theorem Allowed.not_forbidden {x : Str} (ha : Allowed T x) : ¬ Forbidden T x := by
  obtain ⟨d, hd, hnot, hx⟩ := ha
  rintro ⟨d', hd', hprot, hx'⟩
  have hsame : d = d' := by
    rcases hx with rfl | hx
    · rcases hx' with rfl | hx'
      · rfl
      · rw [T.parent_disk x (mem_sysBlock_of_disks hd)] at hx'
        cases hx'
    · rcases hx' with rfl | hx'
      · rw [T.parent_disk x (mem_sysBlock_of_disks hd')] at hx
        cases hx
      · rw [hx] at hx'
        exact Option.some.inj hx'
  exact hnot (hsame ▸ hprot)

/-! ## The walk -/

/-- `n` first slaves lead from `k` to `x`, through devices that are not disks by name. -/
def FirstSlaves (T : Topology) : Nat → Str → Str → Prop
  | 0, k, x => x = k
  | n + 1, k, x => isDiskName k = false ∧ ∃ sl, (T.slaves k).head? = some sl ∧ FirstSlaves T n sl x

/-- Fewer than `tries` first slaves lead to a disk by name, or to a partition of one. -/
def Finds (T : Topology) (tries : Nat) (k d : Str) : Prop :=
  ∃ n < tries, ∃ x, FirstSlaves T n k x ∧ isDiskName x = true ∧ parent_disk T x = some d

/-- The disk that resolve_medium protects. -/
def found (T : Topology) : Nat → Str → Option Str
  | 0, _ => none
  | tries + 1, kn =>
    if isDiskName kn then parent_disk T kn
    else match (T.slaves kn).head? with
    | none => none
    | some sl => found T tries sl

theorem resolve_eq (tries : Nat) (kn prot : Str) :
    resolve T tries kn prot = (found T tries kn).elim prot fun d => add_prot d prot := by
  induction tries generalizing kn with
  | zero => rfl
  | succ tries ih =>
    unfold resolve found
    split
    · cases parent_disk T kn <;> rfl
    · cases (T.slaves kn).head? with
      | none => rfl
      | some sl => exact ih sl

theorem found_iff {tries : Nat} {kn d : Str} : found T tries kn = some d ↔ Finds T tries kn d := by
  induction tries generalizing kn with
  | zero => simp [found, Finds]
  | succ tries ih =>
    unfold found
    cases hk : isDiskName kn with
    | true =>
      simp only [if_true]
      constructor
      · intro h
        exact ⟨0, Nat.succ_pos _, kn, rfl, hk, h⟩
      · rintro ⟨n, -, x, hpath, -, hx⟩
        cases n with
        | zero => rw [show x = kn from hpath] at hx; exact hx
        | succ n => rw [hpath.1] at hk; cases hk
    | false =>
      simp only [Bool.false_eq_true, if_false]
      constructor
      · intro h
        cases hsl : (T.slaves kn).head? with
        | none => rw [hsl] at h; cases h
        | some sl =>
          rw [hsl] at h
          obtain ⟨n, hn, x, hpath, hx⟩ := ih.mp h
          exact ⟨n + 1, by omega, x, ⟨hk, sl, hsl, hpath⟩, hx⟩
      · rintro ⟨n, hn, x, hpath, hdisk, hx⟩
        cases n with
        | zero => rw [show x = kn from hpath, hk] at hdisk; cases hdisk
        | succ n =>
          obtain ⟨-, sl, hsl, hpath⟩ := hpath
          rw [hsl]
          exact ih.mpr ⟨n, by omega, x, hpath, hdisk, hx⟩

theorem parent_disk_mem {x d : Str} (h : parent_disk T x = some d) : d ∈ T.sysBlock := by
  unfold parent_disk at h
  split at h
  · rename_i d' hd
    cases h
    exact T.parent_mem _ _ hd
  · split at h
    · rename_i hx
      cases h
      simp only [Bool.and_eq_true, decide_eq_true_eq] at hx
      exact hx.2
    · cases h

/-! ## Protected names -/

/-- The device that the script takes for the medium's: the first line of a mount point names a node
whose real path ends in `k`. -/
def TakenFor (T : Topology) (k : Str) : Prop :=
  ∃ mp ∈ mediumMountPoints, ∃ src, sourceAt mp (lines T.procMounts) = some src ∧
    T.isBlock src = true ∧ baseName (T.realPath src) = k

/-- The look-up ends at the disk. -/
def Reached (T : Topology) (d : Str) : Prop := ∃ k, TakenFor T k ∧ Finds T 8 k d

def mediumDisk (T : Topology) (mp : Str) : Option Str :=
  (sourceAt mp (lines T.procMounts)).bind fun src =>
    if T.isBlock src then found T 8 (baseName (T.realPath src)) else none

def protectedNames (T : Topology) : List Str :=
  (disks T).filter T.usb ++ mediumMountPoints.filterMap (mediumDisk T)

theorem add_prot_delimit (n : Str) (names : List Str) :
    add_prot n (delimit ' ' names) = delimit ' ' (names ++ [n]) := by
  simp [add_prot, delimit]

theorem foldl_add_prot (ns : List Str) : ∀ names : List Str,
    ns.foldl (fun prot n => add_prot n prot) (delimit ' ' names) = delimit ' ' (names ++ ns) := by
  induction ns with
  | nil => intro names; simp
  | cons n ns ih => intro names; rw [List.foldl_cons, add_prot_delimit, ih]; simp

theorem protectMedium_delimit (names : List Str) (mp : Str) :
    protectMedium T (delimit ' ' names) mp = delimit ' ' (names ++ (mediumDisk T mp).toList) := by
  unfold protectMedium mediumDisk
  cases sourceAt mp (lines T.procMounts) with
  | none => simp
  | some src =>
    simp only [resolve_medium, Option.bind_some, resolve_eq]
    split
    · cases found T 8 (baseName (T.realPath src)) with
      | none => simp
      | some d => exact add_prot_delimit d names
    · simp

theorem foldl_protectMedium (mps : List Str) : ∀ names : List Str,
    mps.foldl (protectMedium T) (delimit ' ' names) =
      delimit ' ' (names ++ mps.filterMap (mediumDisk T)) := by
  induction mps with
  | nil => intro names; simp
  | cons mp mps ih =>
    intro names
    rw [List.foldl_cons, protectMedium_delimit, ih]
    cases h : mediumDisk T mp <;> simp [h]

theorem protect_eq : protect T = delimit ' ' (protectedNames T) := by
  have husb : protectUSB T = delimit ' ' ((disks T).filter T.usb) := foldl_add_prot _ []
  rw [protect, husb, foldl_protectMedium]
  rfl

theorem mediumDisk_eq {mp d : Str} : mediumDisk T mp = some d ↔
    ∃ src, sourceAt mp (lines T.procMounts) = some src ∧ T.isBlock src = true ∧
      Finds T 8 (baseName (T.realPath src)) d := by
  rw [mediumDisk, Option.bind_eq_some_iff]
  refine exists_congr fun src => and_congr_right fun _ => ?_
  split
  · rename_i hblock
    rw [found_iff, and_iff_right hblock]
  · rename_i hblock
    exact ⟨nofun, fun h => absurd h.1 hblock⟩

theorem mem_protectedNames {d : Str} :
    d ∈ protectedNames T ↔ (d ∈ disks T ∧ T.usb d = true) ∨ Reached T d := by
  simp only [protectedNames, List.mem_append, List.mem_filter, List.mem_filterMap, mediumDisk_eq]
  refine or_congr_right ?_
  constructor
  · rintro ⟨mp, hmp, src, hsrc, hblock, hfinds⟩
    exact ⟨_, ⟨mp, hmp, src, hsrc, hblock, rfl⟩, hfinds⟩
  · rintro ⟨k, ⟨mp, hmp, src, hsrc, hblock, rfl⟩, hfinds⟩
    exact ⟨mp, hmp, src, hsrc, hblock, hfinds⟩

theorem protectedNames_sysBlock {d : Str} (h : d ∈ protectedNames T) : d ∈ T.sysBlock := by
  rcases mem_protectedNames.mp h with ⟨hd, -⟩ | ⟨k, -, n, -, x, -, -, hx⟩
  · exact mem_sysBlock_of_disks hd
  · exact parent_disk_mem hx

/-- The script's string of names, searched with blanks around the name, is the set of its names. -/
theorem is_prot_iff {n : Str} (hn : n ∈ T.sysBlock) :
    is_prot n (protect T) = true ↔ n ∈ protectedNames T := by
  have hclean : ∀ n ∈ T.sysBlock, n ≠ [] ∧ ∀ c ∈ n, decide (c = ' ') = false := by
    intro n hn
    simpa using T.name_clean n hn
  rw [is_prot, Contains_iff, protect_eq]
  exact mem_delimit_iff (p := fun c => decide (c = ' ')) rfl
    (fun m hm => hclean m (protectedNames_sysBlock hm)) (hclean n hn).1 (hclean n hn).2

/-! ## Safety -/

/-- A node whose name begins with that of a disk which is neither on USB nor reached is an
unprotected disk or a partition of one. -/
def NamesApart (T : Topology) : Prop :=
  ∀ d ∈ disks T, d ∈ T.dev → T.usb d = false → ¬ Reached T d → ∀ p ∈ T.dev, d <+: p → Allowed T p

/-- A disk under the medium that is not on USB is reached. -/
def MediumFound (T : Topology) : Prop :=
  ∀ d ∈ disks T, d ∈ T.dev → UnderMedium T d → T.usb d = false → Reached T d

theorem mem_scrubbed {d : Str} : d ∈ scrubbed T ↔
    d ∈ disks T ∧ d ∈ T.dev ∧ T.usb d = false ∧ ¬ Reached T d := by
  simp only [scrubbed, List.mem_filter, Bool.and_eq_true, decide_eq_true_eq, Bool.not_eq_true']
  refine and_congr_right fun hd => and_congr_right fun _ => ?_
  rw [← Bool.not_eq_true, is_prot_iff (mem_sysBlock_of_disks hd), mem_protectedNames, not_or,
    and_iff_right hd, Bool.not_eq_true]

theorem target_scrubDisk {n x : Str} :
    (∃ w ∈ scrubDisk T n, w.target = x) ↔ (x ∈ T.dev ∧ n <+: x) ∨ x = n := by
  simp only [scrubDisk, List.mem_append, List.mem_map, List.mem_filter, HasPrefix_iff,
    List.mem_singleton]
  constructor
  · rintro ⟨w, (⟨p, hp, rfl⟩ | rfl) | hw, rfl⟩
    · exact .inl hp
    · exact .inr rfl
    · split at hw
      · rw [List.mem_singleton] at hw; subst hw; exact .inr rfl
      · cases hw
  · rintro (hx | rfl)
    · exact ⟨.zeroSuperblock x, .inl (.inl ⟨x, hx, rfl⟩), rfl⟩
    · exact ⟨.dd x, .inl (.inr rfl), rfl⟩

theorem Safe_iff : Safe T ↔
    ∀ d ∈ scrubbed T, Allowed T d ∧ ∀ p ∈ T.dev, d <+: p → Allowed T p := by
  have htargets : Safe T ↔ ∀ d ∈ scrubbed T, ∀ x, ((x ∈ T.dev ∧ d <+: x) ∨ x = d) → Allowed T x := by
    constructor
    · intro hsafe d hd x hx
      obtain ⟨w, hw, rfl⟩ := target_scrubDisk.mpr hx
      exact (hsafe w (List.mem_flatMap.mpr ⟨d, hd, hw⟩)).1
    · intro hall w hw
      obtain ⟨d, hd, hw⟩ := List.mem_flatMap.mp hw
      have ha := hall d hd w.target (target_scrubDisk.mp ⟨w, hw, rfl⟩)
      exact ⟨ha, ha.not_forbidden⟩
  rw [htargets]
  refine forall₂_congr fun d _ => ?_
  constructor
  · intro h
    exact ⟨h d (.inr rfl), fun p hp hpre => h p (.inl ⟨hp, hpre⟩)⟩
  · rintro ⟨hd, hp⟩ x (⟨hx, hpre⟩ | rfl)
    · exact hp x hx hpre
    · exact hd

/-- The script writes only to unprotected disks and their partitions exactly when no other name
begins with that of a disk it wipes, and its look-up reaches every disk under the medium. -/
theorem scrub_safe_iff (T : Topology) : Safe T ↔ NamesApart T ∧ MediumFound T := by
  rw [Safe_iff]
  constructor
  · intro hsafe
    constructor
    · intro d hd hdev husb hmissed
      exact (hsafe d (mem_scrubbed.mpr ⟨hd, hdev, husb, hmissed⟩)).2
    · intro d hd hdev hunder husb
      by_contra hmissed
      have ha := (hsafe d (mem_scrubbed.mpr ⟨hd, hdev, husb, hmissed⟩)).1
      exact ha.not_forbidden ⟨d, hd, .inr hunder, .inl rfl⟩
  · rintro ⟨hnames, hmedium⟩ d hd
    obtain ⟨hdisk, hdev, husb, hmissed⟩ := mem_scrubbed.mp hd
    have hnot : ¬ Protected T d := by
      rintro (hbus | hunder)
      · rw [husb] at hbus
        cases hbus
      · exact hmissed (hmedium d hdisk hdev hunder husb)
    exact ⟨⟨d, hdisk, hnot, .inl rfl⟩, hnames d hdisk hdev husb hmissed⟩

/-- A fixed disk `sda` with one partition, and a USB disk `sdaa`. -/
def manyDisks : Topology where
  sysBlock := ["sda", "sdaa"]
  dev := ["sda", "sda1", "sdaa"]
  usb n := n = "sdaa"
  parent p := if p = "sda1" then some "sda" else none
  slaves _ := []
  size _ := none
  procMounts := []
  isBlock _ := false
  realPath := id
  mountedFrom _ := none
  name_clean := by
    intro n hn
    have hclean : ∀ n ∈ [("sda" : Str), "sdaa"], n ≠ [] ∧ ' ' ∉ n := by decide
    refine ⟨(hclean n hn).1, ?_⟩
    rintro c hc rfl
    exact (hclean n hn).2 hc
  parent_mem := by
    intro p d h
    split at h
    · cases h; decide
    · cases h
  parent_disk := by decide

/-- The superblock of the USB disk is erased along with the partitions of `sda`. -/
theorem scrub_writes_usb : ¬ Safe manyDisks := by
  intro hsafe
  have hwrite : Write.zeroSuperblock "sdaa" ∈ writes manyDisks := by decide
  exact (hsafe _ hwrite).2 ⟨"sdaa", by decide, .inl rfl, .inl rfl⟩

end Installer
end Nasd
