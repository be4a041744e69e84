import Nasd.Files
import Nasd.Lib.Moves

/-!
# Nasd.Files.Changes

`os.Rename` and `os.RemoveAll`, and what the calls on paths do below a directory without links,
where the path of a location leads to it and nowhere else.

* `Rename`, `RemoveAll`        — the calls, on any tree.
* `lookup_below`, `entryOf_below`, `missing_below` — where the paths below a plain root lead.
* `MkdirAll_below`             — the directories made there.
-/

namespace Nasd
namespace Files

open Text Go Filepath Dirs FileTree

/-- The entry that a path names, in a directory; a link in the last place is not followed. -/
def entryOf (T : FS) (path : Str) : Option (Loc Name) :=
  (parts path).bind fun cs =>
    match cs.getLast? with
    | some (.name a) =>
      ((T.walk false maxLinks [] cs.dropLast).filter fun r => T.isDir r.1).map fun r => r.1 ++ [a]
    | _ => none

/-- `ENOENT`, for the directory of an entry. -/
def missing (T : FS) (path : Str) : Bool :=
  match parts path with
  | none => false
  | some cs => T.absent maxLinks [] cs.dropLast

inductive Renamed where
  | moved (src dst : Loc Name)
  | same
  | failed
  deriving DecidableEq

/-- `os.Rename`: a directory is not replaced, unless both paths lead to it and differ. The rest is
`rename(2)`. -/
def Rename (T : FS) (mounts : List (Loc Name)) (old new : Str) : Renamed :=
  match entryOf T old, entryOf T new with
  | some src, some dst =>
    if T.isDir dst ∧ (src ≠ dst ∨ old = new) then .failed
    else if sameMount mounts src.dropLast dst.dropLast = false then .failed
    else if T.node src = none then .failed
    else if src = dst then .same
    else if src <+: dst then .failed
    else if T.isDir src ∧ T.node dst ≠ none then .failed
    else if src ∈ mounts ∨ dst ∈ mounts then .failed
    else .moved src dst
  | _, _ => .failed

/-- `os.RemoveAll` of a path other than `/`, and whether it all went; what is missing has gone. -/
def RemoveAll (T : FS) (mounts : List (Loc Name)) (path : Str) : Bool × FS :=
  match entryOf T path with
  | none => (missing T path, T)
  | some l => if T.node l = none then (true, T) else (!holds mounts l, T.remove mounts l)

theorem RemoveAll_nul {T : FS} {mounts : List (Loc Name)} {path : Str} (h : '\x00' ∈ path) :
    RemoveAll T mounts path = (false, T) := by
  have hparts := parts_nul h
  simp only [RemoveAll, entryOf, missing, hparts, Option.bind_none]

theorem entryOf_nul {T : FS} {path : Str} (h : '\x00' ∈ path) : entryOf T path = none := by
  rw [entryOf, parts_nul h, Option.bind_none]

theorem Rename_nul {T : FS} {mounts : List (Loc Name)} {old new : Str}
    (h : '\x00' ∈ old ∨ '\x00' ∈ new) : Rename T mounts old new = .failed := by
  unfold Rename
  rcases h with h | h
  · rw [entryOf_nul h]
  · rw [entryOf_nul h]
    split
    · rename_i hnone
      cases hnone
    · rfl

theorem entryOf_names {T : FS} (ns : List Name) (a : Name) : entryOf T (pathOf (ns ++ [a])) =
    ((T.walk false maxLinks [] (ns.map .name)).filter fun r => T.isDir r.1).map
      fun r => r.1 ++ [a] := by
  have hlast : PathPart.here :: (ns ++ [a]).map PathPart.name =
      (.here :: ns.map .name) ++ [.name a] := by simp
  rw [entryOf, parts_pathOf (by simp), Option.bind_some, hlast]
  simp only [List.getLast?_concat, List.dropLast_concat]
  rw [walk_here isDir_root]

theorem missing_names {T : FS} (ns : List Name) (a : Name) : missing T (pathOf (ns ++ [a])) =
    T.absent maxLinks [] (ns.map .name) := by
  have hlast : PathPart.here :: (ns ++ [a]).map PathPart.name =
      (.here :: ns.map .name) ++ [.name a] := by simp
  rw [missing, parts_pathOf (by simp), hlast]
  simp only [List.dropLast_concat]
  rw [absent_here isDir_root]

/-! ## Below a plain root -/

/-- A directory that its own path leads to, without a link in it or below. -/
structure PlainRoot (T : FS) (rs : List Name) : Prop where
  dir : T.node rs = some .dir
  plain : Plain T rs

variable {T : FS} {rs ns : List Name} {a : Name} {mounts : List (Loc Name)}

theorem PlainRoot.isDir (h : PlainRoot T rs) : T.isDir rs = true := isDir_iff.mpr h.dir

theorem PlainRoot.walk (h : PlainRoot T rs) :
    T.walk false maxLinks [] (rs.map .name) = some (rs, maxLinks) := walk_names h.dir rfl

theorem lookup_below (h : PlainRoot T rs) : lookup T false (pathOf (rs ++ ns)) =
    if T.node (rs ++ ns) = none then none else some (rs ++ ns, maxLinks) := by
  rw [lookup_pathOf, List.map_append, walk_append (by simp), h.walk, Option.bind_some,
    h.plain.walk h.isDir]

theorem lookup_new_below (h : PlainRoot T rs) : lookup T true (pathOf (rs ++ (ns ++ [a]))) =
    if T.isDir (rs ++ ns) then some (rs ++ (ns ++ [a]), maxLinks) else none := by
  rw [lookup_pathOf, List.map_append, walk_append (by simp), h.walk, Option.bind_some,
    h.plain.walk_create h.isDir, List.append_assoc]

theorem Stat_below (h : PlainRoot T rs) : Stat T (pathOf (rs ++ ns)) =
    if T.node (rs ++ ns) = none then none else some (rs ++ ns) := by
  rw [Stat, lookup_below h]
  split <;> rfl

theorem OpenFile_below (h : PlainRoot T rs) : OpenFile T (pathOf (rs ++ (ns ++ [a]))) =
    if T.isDir (rs ++ ns) = true ∧ T.isDir (rs ++ (ns ++ [a])) = false then
      some (rs ++ (ns ++ [a])) else none := by
  rw [OpenFile, lookup_new_below h]
  cases T.isDir (rs ++ ns) with
  | false => simp
  | true => cases hdir : T.isDir (rs ++ (ns ++ [a])) <;> simp [hdir]

theorem entryOf_below (h : PlainRoot T rs) : entryOf T (pathOf (rs ++ (ns ++ [a]))) =
    if T.isDir (rs ++ ns) then some (rs ++ (ns ++ [a])) else none := by
  rw [← List.append_assoc, entryOf_names, ← lookup_pathOf, lookup_below h]
  cases hn : T.node (rs ++ ns) with
  | none =>
    have hdir : T.isDir (rs ++ ns) = false := by simp [FileTree.isDir, hn]
    rw [hdir]
    rfl
  | some n =>
    rw [if_neg (by simp)]
    cases hdir : T.isDir (rs ++ ns) with
    | false => simp [hdir]
    | true => simp [hdir]

/-- The root is an entry of the directory above it. -/
theorem entryOf_root (h : PlainRoot T rs) (hne : rs ≠ []) : entryOf T (pathOf rs) = some rs := by
  obtain ⟨ps, a, rfl⟩ := (List.eq_nil_or_concat rs).resolve_left hne
  rw [List.concat_eq_append] at h ⊢
  have hup := T.closed ps a (by rw [h.dir]; simp)
  have hroot : T.node ([] ++ ps) = some .dir := hup
  rw [entryOf_names, walk_names hroot rfl]
  simp [isDir_iff.mpr hup]

theorem missing_below (h : PlainRoot T rs) : missing T (pathOf (rs ++ (ns ++ [a]))) = true ↔
    T.node (rs ++ ns) = none ∧ ¬ Blocked T rs ns := by
  have hroot : T.node ([] ++ rs) = some .dir := h.dir
  rw [← List.append_assoc, missing_names, absent_dirs hroot]
  exact h.plain.absent h.isDir

/-- Without a file on the way every directory is made; with one there, none. -/
theorem MkdirAll_below (h : PlainRoot T rs) :
    (Blocked T rs ns → (MkdirAll T (pathOf (rs ++ ns))).arrived = none ∧
      (MkdirAll T (pathOf (rs ++ ns))).tree = T) ∧
    (¬ Blocked T rs ns → (MkdirAll T (pathOf (rs ++ ns))).arrived = some (rs ++ ns, maxLinks) ∧
      ∀ m, (MkdirAll T (pathOf (rs ++ ns))).tree.node m =
        if rs <+: m ∧ m <+: rs ++ ns ∧ T.node m = none then some .dir else T.node m) := by
  have hroot : T.node ([] ++ rs) = some .dir := h.dir
  rw [MkdirAll_pathOf, makeDirs_dirs hroot]
  exact h.plain.makeDirs h.isDir

end Files
end Nasd
