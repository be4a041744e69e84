import Nasd.Raid.Fstab

/-!
# Nasd.Raid.MountTable

A machine on which every command of `CreateFilesystem`, `MountOnly` and `UnmountFilesystem`
succeeds: `mount` stacks a filesystem on a directory, `umount` takes off the topmost one at a
directory (or of a device), `mkfs` gives the device a filesystem with a new UUID, and `blkid`
reports it. `mount` knows no type with white space in it, and `umount` needs a mount.

`Kernel.entries` is `/etc/fstab` as the machine reads it when it boots.

* `read_appended`         — the entry that is read from a line of `fstabAdd`.
* `Fields_of_read`        — a line read as an entry of an array's filesystem.
-/

namespace Nasd
namespace Raid

open Text Go Sys

/-- Which directory a path names, how a field of fstab is decoded, and the UUID of the `n`th
filesystem made on an array. -/
structure Kernel (δ : Type) where
  dir : Str → δ
  unmangle : Str → Str
  uuid : Str → Nat → Str
  uuid_clean : ∀ {md}, ValidMDDevice md = true → ∀ n,
    uuid md n ≠ [] ∧ ∀ c ∈ uuid md n, isSpace c = false
  uuid_inj : ∀ {md md'}, ValidMDDevice md = true → ValidMDDevice md' = true → ∀ {n n'},
    uuid md n = uuid md' n' → md = md' ∧ n = n'

/-- The mounts, the topmost first, and how many filesystems each device has had. -/
structure World (δ : Type) where
  mounts : List (Str × δ)
  generation : Str → Nat

variable {δ : Type}

namespace World

def format (device : Str) (w : World δ) : World δ :=
  { w with generation := Function.update w.generation device (w.generation device + 1) }

def push (device : Str) (d : δ) (w : World δ) : World δ :=
  { w with mounts := (device, d) :: w.mounts }

end World

def done : Result := ⟨[], [], none⟩
def failed (e : Str) : Result := ⟨[], e, some e⟩

namespace Kernel

variable {K : Kernel δ} {w : World δ} {md mp fsType : Str}

section

variable [DecidableEq δ]

/-- The mounts that `umount` can mean by a path. -/
def hits (K : Kernel δ) (path : Str) (m : Str × δ) : Bool := m.2 = K.dir path || m.1 = path

def mountOn (K : Kernel δ) (device path : Str) (w : World δ) : Result × World δ :=
  (done, w.push device (K.dir path))

def runner (K : Kernel δ) : Runner (World δ) := fun c w =>
  if HasPrefix c.name "mkfs." then
    match c.args with
    | [_, device] => (done, w.format device)
    | _ => (failed "usage", w)
  else if c.name = "mount" then
    match c.args with
    | [_, fsType, device, path] =>
      if fsType.any isSpace then (failed "unknown filesystem type", w) else K.mountOn device path w
    | [device, path] => K.mountOn device path w
    | _ => (failed "usage", w)
  else if c.name = "umount" then
    match c.args with
    | [path] =>
      match w.mounts.find? (K.hits path) with
      | none => (failed "not mounted", w)
      | some m => (done, { w with mounts := w.mounts.erase m })
    | _ => (failed "usage", w)
  else if c.name = "blkid" then
    match c.args with
    | [_, _, _, _, device] => (⟨K.uuid device (w.generation device) ++ "\n", [], none⟩, w)
    | _ => (failed "usage", w)
  else (done, w)

theorem runner_commandV (cmd : Str) : K.runner (commandV cmd) w = (done, w) := rfl
theorem runner_mkdir (path : Str) : K.runner (mkdir path) w = (done, w) := rfl

theorem runner_mkfs {cmd flag : Str} (hfs : validFS fsType = some (cmd, flag)) :
    K.runner ⟨cmd, [flag, md]⟩ w = (done, w.format md) := by
  have hcmd : HasPrefix cmd "mkfs." = true := by
    rcases validFS_cases hfs with ⟨-, rfl⟩ | ⟨-, rfl⟩ | ⟨-, rfl⟩ | ⟨-, rfl⟩ <;> rfl
  simp only [runner, hcmd, if_true]

theorem runner_mount : K.runner (mount fsType md mp) w =
    if fsType.any isSpace then (failed "unknown filesystem type", w) else K.mountOn md mp w := by
  have hname : HasPrefix "mount" "mkfs." = false := rfl
  by_cases hfs : fsType = []
  · simp only [runner, mount, hname, Bool.false_eq_true, if_false, if_true, hfs, ne_eq,
      not_true_eq_false, List.any_nil]
  · simp only [runner, mount, hname, Bool.false_eq_true, if_false, if_true, hfs, ne_eq,
      not_false_eq_true]

theorem runner_umount : K.runner (umount mp) w =
    match w.mounts.find? (K.hits mp) with
    | none => (failed "not mounted", w)
    | some m => (done, { w with mounts := w.mounts.erase m }) := rfl

end

/-! ## Reading fstab -/

/-- The source and the directory of a line: its first two words, unless it is a comment or mounts
nothing. -/
def read (K : Kernel δ) (line : Str) : Option (Str × δ) :=
  match words isBlank line with
  | src :: path :: _ =>
    if src.head? = some '#' ∨ path.head? ≠ some '/' then none else some (src, K.dir (K.unmangle path))
  | _ => none

def entries (K : Kernel δ) (t : Str) : List (Str × δ) := (lines t).filterMap K.read

/-- The source of an array in fstab. -/
def source (K : Kernel δ) (w : World δ) (md : Str) : Str := "UUID=" ++ K.uuid md (w.generation md)

/-- The word at which the mount point of a line of `fstabAdd` ends when it is read. -/
def field (mountPoint : Str) : Str := mountPoint.takeWhile (!isBlank ·)

section

variable {src last : Str}

theorem fstabEntry_eq : fstabEntry src mp fsType =
    src ++ '\t' :: (mp ++ '\t' :: (fsType ++ "\tnofail,x-systemd.device-timeout=10s\t0\t0")) := by
  simp only [fstabEntry, List.append_assoc]
  rfl

theorem takeWhile_field (tail : Str) :
    (mp ++ '\t' :: tail).takeWhile (!isBlank ·) = field mp := by
  induction mp with
  | nil => rfl
  | cons c mp ih =>
    rw [List.cons_append, List.takeWhile_cons, ih, field, field, List.takeWhile_cons]

theorem words_entry (hlast : ∀ c ∈ last, isBlank c = true) (hne : src ≠ [])
    (hsrc : ∀ c ∈ src, isBlank c = false) (hmp : HasPrefix mp "/" = true) :
    ∃ ws, words isBlank (last ++ fstabEntry src mp fsType) = src :: field mp :: ws := by
  obtain ⟨rest, rfl⟩ := HasPrefix_iff.mp hmp
  have htab : isBlank '\t' = true := rfl
  rw [words_append_left hlast, fstabEntry_eq, words_append_sep htab, words_of_clean hne hsrc]
  have hfirst := words_takeWhile (p := isBlank) (c := '/') rfl
    (rest ++ '\t' :: (fsType ++ "\tnofail,x-systemd.device-timeout=10s\t0\t0"))
  rw [← List.cons_append, takeWhile_field] at hfirst
  exact ⟨_, congrArg (src :: ·) hfirst⟩

/-- The entry of a line that is appended after blanks. -/
theorem read_appended (hlast : ∀ c ∈ last, isBlank c = true) (hsrc : ∀ c ∈ src, isBlank c = false)
    (hhead : ∃ c cs, src = c :: cs ∧ c ≠ '#') (hmp : HasPrefix mp "/" = true) :
    K.read (last ++ fstabEntry src mp fsType) = some (src, K.dir (K.unmangle (field mp))) := by
  obtain ⟨c, cs, rfl, hc⟩ := hhead
  obtain ⟨ws, hws⟩ : ∃ ws, words isBlank (last ++ fstabEntry (c :: cs) mp fsType) =
      (c :: cs) :: field mp :: ws := words_entry hlast (List.cons_ne_nil c cs) hsrc hmp
  obtain ⟨rest, rfl⟩ := HasPrefix_iff.mp hmp
  have hslash : (field ("/" ++ rest)).head? = some '/' := rfl
  simp only [read, hws, hslash, List.head?_cons, Option.some.injEq, hc, ne_eq, not_true_eq_false,
    or_self, if_false]

theorem read_eq_some {line : Str} {d : δ} (hread : K.read line = some (src, d)) :
    ∃ path rest, words isBlank line = src :: path :: rest := by
  unfold read at hread
  split at hread
  · rename_i src' path rest hwords
    split at hread
    · cases hread
    · cases hread
      exact ⟨path, rest, hwords⟩
  · cases hread

@[simp] theorem read_blank (hlast : ∀ c ∈ last, isBlank c = true) : K.read last = none := by
  unfold read
  rw [words_eq_nil_iff.mpr hlast]

/-- An entry whose source has no white space is read by `nasd` with the same source. -/
theorem Fields_of_read {line : Str} {d : δ} (hread : K.read line = some (src, d))
    (hsrc : ∀ c ∈ src, isSpace c = false) : (Fields line).head? = some src := by
  obtain ⟨path, rest, hwords⟩ := read_eq_some hread
  exact words_head_of_subset (fun _ => isSpace_of_isBlank) hwords hsrc

/-- What is read after a line that has words: the line had the source already. -/
theorem Fields_of_glued {d : δ} (hread : K.read (last ++ fstabEntry src mp fsType) = some (src, d))
    (hsrc : ∀ c ∈ src, isSpace c = false) (hlast : ¬ ∀ c ∈ last, isBlank c = true) :
    (Fields last).head? = some src := by
  obtain ⟨path, rest, hwords⟩ := read_eq_some hread
  have hclean : ∀ c ∈ src, isBlank c = false := by
    intro c hc
    by_contra hblank
    have hspace := isSpace_of_isBlank (by simpa using hblank)
    rw [hsrc c hc] at hspace
    cases hspace
  have hsome : words isBlank last ≠ [] := fun hnil => hlast (words_eq_nil_iff.mp hnil)
  obtain ⟨w, ws, hw⟩ := List.exists_cons_of_ne_nil hsome
  suffices hhead : w = src by
    rw [hhead] at hw
    exact words_head_of_subset (fun _ => isSpace_of_isBlank) hw hsrc
  rw [fstabEntry_eq, ← List.append_assoc, words_append_sep (c := '\t') rfl] at hwords
  obtain ⟨c, hc⟩ : ∃ c, last.getLast? = some c := by
    cases hlast' : last.getLast? with
    | none =>
      rw [List.getLast?_eq_none_iff.mp hlast'] at hsome
      exact absurd rfl hsome
    | some c => exact ⟨c, rfl⟩
  cases hblank : isBlank c with
  | true =>
    obtain ⟨u, rfl⟩ := List.getLast?_eq_some_iff.mp hc
    rw [words_append_sep hblank, words_nil, List.append_nil] at hw
    rw [List.append_assoc u, List.singleton_append, words_append_sep hblank, hw] at hwords
    simpa using (List.cons.inj hwords).1
  | false =>
    -- the source would be the end of a longer word
    obtain ⟨vs, v, hv, hglue, -⟩ := words_append_glue hc hblank hclean
    have hvne : v ≠ [] := (mem_words (hv ▸ List.mem_append_right _ List.mem_cons_self)).1
    rw [hglue] at hwords
    rw [hv] at hw
    cases vs with
    | nil =>
      have hlen := congrArg List.length (List.cons.inj hwords).1
      rw [List.length_append] at hlen
      have hpos := List.length_pos_iff.mpr hvne
      omega
    | cons v' vs =>
      rw [← (List.cons.inj hw).1]
      exact (List.cons.inj hwords).1

/-- The entries of a file with a line appended to it. -/
theorem entries_append {t entry : Str} (hline : '\n' ∉ entry) :
    ∃ ls last, lines t = ls ++ [last] ∧
      K.entries t = ls.filterMap K.read ++ (K.read last).toList ∧
      lines ((Edit.append entry).apply t) = ls ++ [last ++ entry, []] ∧
      K.entries ((Edit.append entry).apply t) =
        ls.filterMap K.read ++ (K.read (last ++ entry)).toList := by
  obtain ⟨ls, last, hlast, hnew⟩ := lines_appended t entry
  have hclean : '\n' ∉ last ++ entry := by
    have hmem : last ∈ lines t := hlast ▸ List.mem_append_right _ (List.mem_singleton_self _)
    simpa [hline] using newline_not_mem_of_mem_lines hmem
  rw [lines_of_not_mem hclean, List.singleton_append] at hnew
  refine ⟨ls, last, hlast, ?_, hnew, ?_⟩
  · rw [entries, hlast, List.filterMap_append]
    cases hread : K.read last <;> simp [hread]
  · rw [entries, hnew, List.filterMap_append]
    cases hread : K.read (last ++ entry) <;> simp [hread]

theorem entries_remove {t : Str} : K.entries ((Edit.remove mp).apply t) =
    ((lines t).filter fun l => (Fields l)[1]? ≠ some mp).filterMap K.read := by
  rw [entries, Edit.apply_remove, keepLines, lines_unlines_filter]
  split
  · rename_i hnone
    rw [hnone]
    rfl
  · rfl

end

def entry (K : Kernel δ) (w : World δ) (md mp fsType : Str) : Str :=
  fstabEntry (K.source w md) mp fsType

/-- The file with the entry of an array that has just been mounted. -/
def add (K : Kernel δ) (w : World δ) (md mp fsType t : Str) : Str :=
  if K.entry w md mp fsType ∈ (lines t).map TrimSpace then t
  else (Edit.append (K.entry w md mp fsType)).apply t

theorem add_found (hmem : K.entry w md mp fsType ∈ (lines t).map TrimSpace) :
    K.add w md mp fsType t = t := if_pos hmem

theorem add_new (hnew : K.entry w md mp fsType ∉ (lines t).map TrimSpace) :
    K.add w md mp fsType t = (Edit.append (K.entry w md mp fsType)).apply t := if_neg hnew

end Kernel

end Raid
end Nasd
