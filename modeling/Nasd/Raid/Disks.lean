import Nasd.Raid.Listing
import Nasd.Raid.View

/-!
# Nasd.Raid.Disks

The disks on offer, `ListDisks` of `internal/raid/raid.go`. The disk of the system is left out, by
the name that `osDisk` finds for it: what `findmnt` says is mounted on `/`, then what `lsblk` says
that lies on.

* `mem_ListDisks` — the disks that are listed.
* `osDisk_eq_iff` — the name is that of the disk when at most one device lies on it.
-/

namespace Nasd
namespace Raid

open Text Go Sys

variable {σ : Type} {R : Runner σ} {h : Host σ}

/-! ## The commands -/

def findmntRoot : Cmd := ⟨"findmnt", ["-n", "-o", "SOURCE", "/"]⟩
def lsblkParent (src : Str) : Cmd := ⟨"lsblk", ["-n", "-o", "PKNAME", src]⟩
def lsblkDisks : Cmd := ⟨"lsblk", ["-b", "-d", "-n", "-o", "NAME,SIZE,ROTA,MODEL"]⟩

/-- `strings.SplitN(s, "\n", 2)[0]` -/
def firstLine (s : Str) : Str := s.takeWhile (· ≠ '\n')

def osDisk (R : Runner σ) (h : Host σ) : Str × Host σ :=
  let root := h.run R findmntRoot
  match root.1.err with
  | some _ => ([], root.2)
  | none =>
    let src := TrimSpace root.1.stdout
    if src = [] then ([], root.2)
    else
      let parent := root.2.run R (lsblkParent src)
      match parent.1.err with
      | some _ => (TrimPrefix src "/dev/", parent.2)
      | none =>
        if TrimSpace (firstLine parent.1.stdout) ≠ [] then
          (TrimSpace (firstLine parent.1.stdout), parent.2)
        else (TrimPrefix src "/dev/", parent.2)

structure DiskInfo where
  Device : Str
  SizeBytes : Int
  Rotational : Bool
  Model : Str
  deriving DecidableEq

/-- Not a disk that could be part of an array. -/
def skipped (name : Str) : Bool :=
  HasPrefix name "loop" || HasPrefix name "sr" || HasPrefix name "md"

def diskInfo (osDisk line : Str) : Option DiskInfo :=
  match Fields line with
  | [] => none
  | name :: rest =>
    if skipped name then none
    else if osDisk ≠ [] ∧ name = osDisk then none
    else some
      { Device := "/dev/" ++ name
        SizeBytes := (rest[0]?.bind scanInt).getD 0
        Rotational := rest[1]? = some ("1" : Str)
        Model := TrimSpace (Join (rest.drop 2) " ") }

def ListDisks (R : Runner σ) (h : Host σ) : List DiskInfo × Host σ :=
  let out := h.run R lsblkDisks
  match out.1.err with
  | some _ => ([], out.2)
  | none =>
    let os := osDisk R out.2
    (((TrimSpace out.1.stdout).splitOn '\n').filterMap (diskInfo os.1), os.2)

/-- What the interface reads of a disk. -/
def DiskInfo.shown (d : DiskInfo) : View.Disk := ⟨d.Device, d.SizeBytes⟩

/-! ## What is listed -/

/-- The disks that `lsblk` printed, by their names. -/
def printed (out : Str) : List Str :=
  ((TrimSpace out).splitOn '\n').filterMap fun line => (Fields line).head?

theorem diskInfo_device {os line name : Str} :
    (∃ d, diskInfo os line = some d ∧ d.Device = "/dev/" ++ name) ↔
      (Fields line).head? = some name ∧ skipped name = false ∧ name ≠ os := by
  unfold diskInfo
  cases hfields : Fields line with
  | nil => simp
  | cons word rest =>
    have hword : word ≠ [] := (mem_words (hfields ▸ List.mem_cons_self : word ∈ Fields line)).1
    have hsame : (os ≠ [] ∧ word = os) ↔ word = os :=
      ⟨And.right, fun h => ⟨h ▸ hword, h⟩⟩
    simp only [List.head?_cons, Option.some.injEq]
    constructor
    · rintro ⟨d, hd, hname⟩
      split at hd
      · cases hd
      · rename_i hskip
        split at hd
        · cases hd
        · rename_i hos
          cases hd
          obtain rfl : word = name := List.append_cancel_left hname
          exact ⟨rfl, Bool.eq_false_iff.mpr hskip, mt hsame.mpr hos⟩
    · rintro ⟨rfl, hskip, hos⟩
      rw [if_neg (by rw [hskip]; exact Bool.false_ne_true), if_neg (mt hsame.mp hos)]
      exact ⟨_, rfl, rfl⟩

theorem mem_ListDisks {name : Str} (herr : (h.run R lsblkDisks).1.err = none) :
    (∃ d ∈ (ListDisks R h).1, d.Device = "/dev/" ++ name) ↔
      name ∈ printed (h.run R lsblkDisks).1.stdout ∧ skipped name = false ∧
        name ≠ (osDisk R (h.run R lsblkDisks).2).1 := by
  unfold ListDisks printed
  dsimp only
  rw [herr]
  simp only [List.mem_filterMap]
  constructor
  · rintro ⟨d, ⟨line, hline, hd⟩, hname⟩
    obtain ⟨hhead, hrest⟩ := diskInfo_device.mp ⟨d, hd, hname⟩
    exact ⟨⟨line, hline, hhead⟩, hrest⟩
  · rintro ⟨⟨line, hline, hhead⟩, hrest⟩
    obtain ⟨d, hd, hname⟩ := diskInfo_device.mpr ⟨hhead, hrest⟩
    exact ⟨d, ⟨line, hline, hd⟩, hname⟩

/-- Without an answer of `lsblk` there are no disks. -/
theorem ListDisks_none {e : Str} (herr : (h.run R lsblkDisks).1.err = some e) :
    (ListDisks R h).1 = [] := by
  unfold ListDisks
  dsimp only
  rw [herr]

/-! ## The disk of the system -/

/-- The device of `/` below `/dev`, and the devices that it lies on: the last one is a disk. -/
structure Topology where
  node : Str
  below : List Str
  words : ∀ s ∈ node :: below, s ≠ [] ∧ ∀ c ∈ s, isSpace c = false
  nodup : (node :: below).Nodup

namespace Topology

def disk (T : Topology) : Str := (T.below.getLast?).getD T.node

/-- The commands tell where `/` is. On a stack of devices `lsblk` may print no parent. -/
structure Tells (T : Topology) (R : Runner σ) : Prop where
  root : ∀ h : Host σ, (h.run R findmntRoot).1.err = none ∧
    (h.run R findmntRoot).1.stdout = "/dev/" ++ T.node ++ "\n"
  parent : ∀ h : Host σ, (h.run R (lsblkParent ("/dev/" ++ T.node))).1.err = none ∧
    (firstLine (h.run R (lsblkParent ("/dev/" ++ T.node))).1.stdout = T.below.headD [] ∨
      (2 ≤ T.below.length ∧
        firstLine (h.run R (lsblkParent ("/dev/" ++ T.node))).1.stdout = []))

variable {T : Topology}

theorem osDisk_eq (hT : T.Tells R) (h : Host σ) :
    (osDisk R h).1 = T.below.headD T.node ∨
      (2 ≤ T.below.length ∧ (osDisk R h).1 = T.node) := by
  have hsrc : TrimSpace ("/dev/" ++ T.node ++ "\n") = "/dev/" ++ T.node := by
    refine trim_line rfl fun c hc => ?_
    rcases List.mem_append.mp hc with hc | hc
    · have hdev : ∀ c ∈ ("/dev/" : Str), isSpace c = false := by decide
      exact hdev c hc
    · exact (T.words T.node List.mem_cons_self).2 c hc
  have hne : ¬ (("/dev/" : Str) ++ T.node = []) := by simp
  have hnode : TrimPrefix ("/dev/" ++ T.node) "/dev/" = T.node := by
    unfold TrimPrefix
    rw [if_pos (HasPrefix_iff.mpr (List.prefix_append _ _)), List.drop_left]
  obtain ⟨hroot, hout⟩ := hT.root h
  obtain ⟨hparent, hline⟩ := hT.parent (h.run R findmntRoot).2
  simp only [osDisk, hroot, hout, hsrc, if_neg hne, hparent]
  rcases hline with hline | ⟨htwo, hline⟩
  · refine .inl ?_
    rw [hline]
    cases hbelow : T.below with
    | nil => exact hnode
    | cons name rest =>
      have hname : name ∈ T.node :: T.below := List.mem_cons_of_mem _ (hbelow ▸ List.mem_cons_self)
      obtain ⟨hnil, hplain⟩ := T.words name hname
      have htrim : TrimSpace name = name := by
        refine trim_eq_self_iff.mpr ⟨fun c hc => ?_, fun c hc => ?_⟩
        · exact hplain c (List.mem_of_head? hc)
        · exact hplain c (List.mem_of_getLast? hc)
      rw [List.headD_cons, List.headD_cons, htrim, if_pos hnil]
  · rw [hline]
    exact .inr ⟨htwo, hnode⟩

/-- The name is that of the disk when at most one device lies on it. -/
theorem osDisk_eq_iff (hT : T.Tells R) (h : Host σ) :
    (osDisk R h).1 = T.disk ↔ T.below.length ≤ 1 := by
  have hname := osDisk_eq hT h
  have hnodup := T.nodup
  unfold disk
  cases hbelow : T.below with
  | nil =>
    rw [hbelow] at hname
    refine iff_of_true ?_ (by simp)
    rcases hname with hname | ⟨-, hname⟩
    · exact hname
    · exact hname
  | cons name rest =>
    rw [hbelow] at hname hnodup
    cases rest with
    | nil =>
      refine iff_of_true ?_ (by simp)
      rcases hname with hname | ⟨htwo, -⟩
      · exact hname
      · simp at htwo
    | cons next rest =>
      -- the last device of a stack is neither the first one nor that of `/`
      have hlast : ∃ d ∈ next :: rest, (name :: next :: rest).getLast? = some d := by
        rw [List.getLast?_cons_cons]
        exact ⟨_, List.getLast_mem (List.cons_ne_nil next rest), List.getLast?_eq_some_getLast _⟩
      obtain ⟨d, hd, hlast⟩ := hlast
      have hnot : d ∉ [T.node, name] := by
        intro hmem
        obtain ⟨hnode, hrest⟩ := List.nodup_cons.mp hnodup
        rcases List.mem_cons.mp hmem with rfl | hmem
        · exact hnode (List.mem_cons_of_mem _ hd)
        · rw [List.mem_singleton.mp hmem] at hd
          exact (List.nodup_cons.mp hrest).1 hd
      refine iff_of_false (fun heq => hnot ?_) (by simp)
      rw [hlast, Option.getD_some] at heq
      rcases hname with hname | ⟨-, hname⟩
      · rw [← heq, hname]
        simp
      · rw [← heq, hname]
        simp

end Topology

end Raid
end Nasd
