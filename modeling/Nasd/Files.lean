import Nasd.Filepath
import Nasd.Lib.Dirs

/-!
# Nasd.Files

The system calls of package `os` that `nasd` makes on paths, over a tree of directories with
symbolic links. A call gives the location it acts on, `none` when it fails. All paths are absolute,
and no call fails for want of rights: the daemon runs as root.

* `exists_names`    — a clean path is that of some names.
* `lookup_pathOf`   — it leads where the names lead.
* `MkdirAll_pathOf`, `MkdirAll_nul` — the directories made on the way, as far as a NUL.
-/

namespace Nasd
namespace Files

open Text Go Filepath Dirs

/-- The name of an entry: Unix allows any characters but the slash and NUL. -/
abbrev Name := {n : Str // IsName n ∧ '\x00' ∉ n}

abbrev FS := FileTree Name

/-- One element of a path; an empty one stays where it is. -/
def part (piece : Str) : PathPart Name :=
  if h : IsName piece ∧ '\x00' ∉ piece then .name ⟨piece, h⟩
  else if piece = ".." then .up
  else .here

def parts (path : Str) : Option (List (PathPart Name)) :=
  if path = [] ∨ '\x00' ∈ path then none else some ((path.splitOn '/').map part)

/-- The number of links that the kernel follows along one path. -/
def maxLinks : Nat := 40

def lookup (T : FS) (create : Bool) (path : Str) : Option (Loc Name × Nat) :=
  (parts path).bind fun cs => T.walk create maxLinks [] cs

def Stat (T : FS) (path : Str) : Option (Loc Name) := (lookup T false path).map Prod.fst

/-- A link in the last place is not followed. -/
def Lstat (T : FS) (path : Str) : Option (Loc Name) :=
  (parts path).bind fun cs =>
    match cs.getLast? with
    | some (.name a) =>
      ((T.walk false maxLinks [] cs.dropLast).map fun r => r.1 ++ [a]).filter
        fun l => (T.node l).isSome
    | _ => (T.walk false maxLinks [] cs).map Prod.fst

def ReadDir (T : FS) (path : Str) : Option (Loc Name) := (Stat T path).filter T.isDir

def Open (T : FS) (path : Str) : Option (Loc Name) := Stat T path

/-- `O_CREATE|O_WRONLY|O_TRUNC` -/
def OpenFile (T : FS) (path : Str) : Option (Loc Name) :=
  ((lookup T true path).map Prod.fst).filter fun l => !T.isDir l

def Chmod (T : FS) (path : Str) : Option (Loc Name) := Stat T path

/-- `mkdir -p` -/
def MakeDirs (T : FS) (path : Str) : FileTree.Made Name :=
  match parts path with
  | none => ⟨T, [], none⟩
  | some cs => T.makeDirs maxLinks [] cs

/-- `os.MkdirAll` on a clean path. The parents are made first: those before a name with NUL are there
when the call fails at that name. -/
def MkdirAll (T : FS) (path : Str) : FileTree.Made Name :=
  if '\x00' ∈ path then
    { T.makeDirs maxLinks [] (((path.splitOn '/').takeWhile ('\x00' ∉ ·)).map part) with
      arrived := none }
  else MakeDirs T path

/-- The path of a location. -/
def pathOf (l : Loc Name) : Str := absPath (l.map Subtype.val)

/-- The number of links that `filepath.EvalSymlinks` follows. -/
def maxEvalLinks : Nat := 255

def EvalSymlinks (T : FS) (path : Str) : Option Str :=
  ((parts path).bind fun cs => T.walk false maxEvalLinks [] cs).map fun r => pathOf r.1

section

variable {T : FS} {create : Bool} {ns : List Name} {names : List Str}

theorem pathOf_names (ns : List Name) : ∀ n ∈ ns.map Subtype.val, IsName n := by
  intro n hn
  obtain ⟨m, -, rfl⟩ := List.mem_map.mp hn
  exact m.2.1

theorem splitOn_pathOf (hne : ns ≠ []) : (pathOf ns).splitOn '/' = [] :: ns.map Subtype.val :=
  splitOn_absPath (mt List.map_eq_nil_iff.mp hne) fun n hn => (pathOf_names ns n hn).2.1

theorem pathOf_injective {ms : List Name} (h : pathOf ns = pathOf ms) : ns = ms := by
  have hparts := congrArg (cleanParts true) h
  rw [pathOf, pathOf, cleanParts_absPath (pathOf_names ns), cleanParts_absPath (pathOf_names ms)]
    at hparts
  exact List.map_injective_iff.mpr Subtype.val_injective hparts

theorem prefix_of_map {ms : List Name}
    (h : ms.map Subtype.val <+: ns.map Subtype.val) : ms <+: ns := by
  obtain ⟨rest, hrest⟩ := h
  obtain ⟨ms', rest', rfl, hms, -⟩ := List.map_eq_append_iff.mp hrest.symm
  obtain rfl := List.map_injective_iff.mpr Subtype.val_injective hms
  exact List.prefix_append _ _

/-- Two slashes begin the path of the root only, a slash after it. -/
theorem root_of_slashes (h : pathOf [] ++ ("/" : Str) <+: pathOf ns ++ ("/" : Str)) : ns = [] := by
  cases ns with
  | nil => rfl
  | cons n ns =>
    obtain ⟨u, hu⟩ := h
    obtain ⟨c, cs, hn⟩ := List.exists_cons_of_ne_nil n.2.1.1
    rw [pathOf, pathOf, List.map_cons, absPath_cons, hn] at hu
    have hc : '/' = c := by
      have htwo := congrArg (fun t => t[1]?) hu
      simpa using htwo
    have hmem : '/' ∈ n.1 := by
      rw [hn, hc]
      exact List.mem_cons_self
    exact absurd hmem n.2.1.2.1

theorem prefix_of_slashes {ms : List Name} (hms : ms ≠ [])
    (h : pathOf ms ++ ("/" : Str) <+: pathOf ns ++ ("/" : Str)) : ms <+: ns := by
  obtain ⟨u, hu⟩ := h
  have htext : pathOf ms ++ '/' :: u = pathOf ns ++ ['/'] := by
    rw [List.append_assoc] at hu
    exact hu
  have hsplit : (pathOf ms).splitOn '/' ++ u.splitOn '/' = (pathOf ns).splitOn '/' ++ [[]] := by
    have hleft : (pathOf ms ++ '/' :: u).splitOn '/' =
        (pathOf ms).splitOn '/' ++ u.splitOn '/' := List.splitOn_append_cons_self _ _
    have hright : (pathOf ns ++ ['/']).splitOn '/' = (pathOf ns).splitOn '/' ++ [[]] :=
      List.splitOn_append_cons_self _ []
    rw [← hleft, ← hright, htext]
  rw [splitOn_pathOf hms, List.cons_append] at hsplit
  by_cases hns : ns = []
  · subst hns
    have hroot : (pathOf []).splitOn '/' = [[], []] := rfl
    rw [hroot] at hsplit
    obtain ⟨m, ms, rfl⟩ := List.exists_cons_of_ne_nil hms
    have hm : m.1 = [] := by
      have htwo := congrArg (fun t => t[1]?) hsplit
      simpa using htwo
    exact absurd hm m.2.1.1
  · rw [splitOn_pathOf hns, List.cons_append] at hsplit
    have hpre : ms.map Subtype.val <+: ns.map Subtype.val ++ [[]] := ⟨_, (List.cons.inj hsplit).2⟩
    rcases List.prefix_concat_iff.mp hpre with heq | hpre
    · have hempty : [] ∈ ms.map Subtype.val := by rw [heq]; simp
      exact absurd rfl (pathOf_names ms [] hempty).1
    · exact prefix_of_map hpre

/-- Below a directory by its text, a slash after both: the root is above nothing but itself. -/
theorem pathOf_slash_prefix {ms : List Name} :
    pathOf ms ++ ("/" : Str) <+: pathOf ns ++ ("/" : Str) ↔ ms <+: ns ∧ (ms = [] → ns = []) := by
  by_cases hms : ms = []
  · subst hms
    refine ⟨fun h => ⟨List.nil_prefix, fun _ => root_of_slashes h⟩, fun h => ?_⟩
    rw [h.2 rfl]
  · refine ⟨fun h => ⟨prefix_of_slashes hms h, fun h => absurd h hms⟩, ?_⟩
    rintro ⟨⟨rest, rfl⟩, -⟩
    by_cases hrest : rest = []
    · rw [hrest, List.append_nil]
    · rw [pathOf, pathOf, List.map_append, absPath_append (mt List.map_eq_nil_iff.mp hms)
        (mt List.map_eq_nil_iff.mp hrest), List.append_assoc]
      exact (List.prefix_append_right_inj _).mpr ⟨_, rfl⟩

theorem exists_map (hnames : ∀ n ∈ names, IsName n ∧ '\x00' ∉ n) :
    ∃ ns : List Name, ns.map Subtype.val = names := by
  refine ⟨names.attach.map fun n => ⟨n.1, hnames n.1 n.2⟩, ?_⟩
  rw [List.map_map]
  exact List.attach_map_subtype_val names

theorem not_nul_of_mem (hnul : '\x00' ∉ absPath names) : ∀ n ∈ names, '\x00' ∉ n :=
  fun _ hn hmem => hnul (List.mem_cons_of_mem _ (mem_Join_of_mem hn hmem))

/-- Names without NUL in their path. -/
theorem exists_names (hnames : ∀ n ∈ names, IsName n) (hnul : '\x00' ∉ absPath names) :
    ∃ ns : List Name, absPath names = pathOf ns ∧ names = ns.map Subtype.val := by
  obtain ⟨ns, hns⟩ := exists_map fun n hn => ⟨hnames n hn, not_nul_of_mem hnul n hn⟩
  exact ⟨ns, congrArg absPath hns.symm, hns.symm⟩

/-- The names before the first one with NUL in it. -/
theorem exists_before (hnames : ∀ n ∈ names, IsName n) :
    ∃ ns : List Name, ns.map Subtype.val = names.takeWhile ('\x00' ∉ ·) :=
  exists_map fun n hn =>
    ⟨hnames n (List.takeWhile_subset _ hn), by simpa using List.mem_takeWhile_imp hn⟩

theorem exists_clean {path : Str} (h : HasPrefix path "/" = true) (hnul : '\x00' ∉ Clean path) :
    ∃ ns, Clean path = pathOf ns := by
  obtain ⟨R, hR, hclean⟩ := exists_absPath h
  obtain ⟨rs, hpath, -⟩ := exists_names hR (hclean ▸ hnul)
  exact ⟨rs, hclean.trans hpath⟩

theorem nul_not_mem_pathOf (ns : List Name) : '\x00' ∉ pathOf ns := by
  intro hmem
  rcases List.mem_cons.mp hmem with heq | hmem
  · exact absurd heq (by decide)
  · rcases mem_Join hmem with ⟨n, hn, hc⟩ | hc
    · obtain ⟨m, -, rfl⟩ := List.mem_map.mp hn
      exact m.2.2 hc
    · exact absurd hc (by decide)

theorem part_name (n : Name) : part n.1 = .name n := dif_pos n.2

theorem parts_root : parts (pathOf []) = some [.here, .here] := rfl

theorem parts_pathOf (hne : ns ≠ []) : parts (pathOf ns) = some (.here :: ns.map .name) := by
  have hnil : part [] = .here := rfl
  have hnot : ¬ (pathOf ns = [] ∨ '\x00' ∈ pathOf ns) :=
    not_or.mpr ⟨List.cons_ne_nil _ _, nul_not_mem_pathOf ns⟩
  rw [parts, if_neg hnot, splitOn_pathOf hne, List.map_cons, hnil, List.map_map]
  exact congrArg (fun ps => some (PathPart.here :: ps)) (List.map_congr_left fun n _ => part_name n)

/-- The names on a path. -/
def locOf (path : Str) : Loc Name :=
  ((parts path).getD []).filterMap fun c => match c with
    | .name a => some a
    | _ => none

theorem locOf_pathOf (ns : List Name) : locOf (pathOf ns) = ns := by
  have hnames : (ns.map PathPart.name).filterMap (fun c : PathPart Name => match c with
      | .name a => some a
      | _ => none) = ns := by
    rw [List.filterMap_map]
    exact List.filterMap_some
  by_cases hne : ns = []
  · subst hne; rfl
  · rw [locOf, parts_pathOf hne]
    exact hnames

theorem walk_pathOf {b : Nat} : ((parts (pathOf ns)).bind fun cs => T.walk create b [] cs) =
    T.walk create b [] (ns.map .name) := by
  have hhere : ∀ cs, T.walk create b [] (.here :: cs) = T.walk create b [] cs :=
    fun cs => FileTree.walk_here FileTree.isDir_root
  by_cases hne : ns = []
  · subst hne
    rw [parts_root, Option.bind_some, hhere, hhere]
    rfl
  · rw [parts_pathOf hne, Option.bind_some, hhere]

theorem lookup_pathOf : lookup T create (pathOf ns) = T.walk create maxLinks [] (ns.map .name) :=
  walk_pathOf

theorem ReadDir_eq_some {path : Str} {d : Loc Name} :
    ReadDir T path = some d ↔ ∃ r, lookup T false path = some r ∧ r.1 = d ∧ T.isDir d = true := by
  rw [ReadDir, Stat, Option.filter_eq_some_iff, Option.map_eq_some_iff]
  constructor
  · rintro ⟨⟨r, hr, hd⟩, hdir⟩
    exact ⟨r, hr, hd, hdir⟩
  · rintro ⟨r, hr, hd, hdir⟩
    exact ⟨⟨r, hr, hd⟩, hdir⟩

theorem OpenFile_eq_some {path : Str} {l : Loc Name} :
    OpenFile T path = some l ↔ ∃ r, lookup T true path = some r ∧ r.1 = l ∧ T.isDir l = false := by
  rw [OpenFile, Option.filter_eq_some_iff, Option.map_eq_some_iff, Bool.not_eq_true']
  constructor
  · rintro ⟨⟨r, hr, hl⟩, hfile⟩
    exact ⟨r, hr, hl, hfile⟩
  · rintro ⟨r, hr, hl, hfile⟩
    exact ⟨⟨r, hr, hl⟩, hfile⟩

theorem makeDirs_here {cs : List (PathPart Name)} :
    T.makeDirs maxLinks [] (.here :: cs) = T.makeDirs maxLinks [] cs := if_pos FileTree.isDir_root

theorem MakeDirs_pathOf : MakeDirs T (pathOf ns) = T.makeDirs maxLinks [] (ns.map .name) := by
  by_cases hne : ns = []
  · subst hne
    simp only [MakeDirs, parts_root, makeDirs_here, List.map_nil]
  · simp only [MakeDirs, parts_pathOf hne, makeDirs_here]

theorem MakeDirs_arrived {path : Str} {r : Loc Name × Nat}
    (hr : (MakeDirs T path).arrived = some r) :
    lookup (MakeDirs T path).tree false path = some r := by
  unfold MakeDirs at hr ⊢
  cases hparts : parts path with
  | none => simp [hparts] at hr
  | some cs =>
    simp only [hparts] at hr ⊢
    rw [lookup, hparts]
    exact FileTree.makeDirs_arrived hr

theorem MkdirAll_pathOf : MkdirAll T (pathOf ns) = T.makeDirs maxLinks [] (ns.map .name) := by
  rw [MkdirAll, if_neg (nul_not_mem_pathOf ns), MakeDirs_pathOf]

/-- With NUL in a name, the directories before that name are made and no more. -/
theorem MkdirAll_nul (hnames : ∀ n ∈ names, IsName n) (hnul : '\x00' ∈ absPath names)
    (hns : ns.map Subtype.val = names.takeWhile ('\x00' ∉ ·)) :
    MkdirAll T (absPath names) = { MkdirAll T (pathOf ns) with arrived := none } := by
  have hne : names ≠ [] := by
    rintro rfl
    exact absurd hnul (by decide)
  have hparts : (((absPath names).splitOn '/').takeWhile ('\x00' ∉ ·)).map part =
      .here :: ns.map .name := by
    have hempty : part [] = .here := rfl
    rw [splitOn_absPath hne fun n hn => (hnames n hn).2.1,
      List.takeWhile_cons_of_pos (by decide), List.map_cons, hempty, ← hns, List.map_map]
    exact congrArg (PathPart.here :: ·) (List.map_congr_left fun n _ => part_name n)
  rw [MkdirAll, if_pos hnul, hparts, makeDirs_here, MkdirAll_pathOf]

example : (MkdirAll (.ofEntries [] (by decide)) "/srv/nas/a\x00/b").made.map pathOf =
    ["/srv", "/srv/nas"] := by
  decide +kernel

theorem Lstat_root : Lstat T (pathOf []) = some [] := by
  rw [Lstat, parts_root, Option.bind_some]
  show (T.walk false maxLinks [] [.here, .here]).map Prod.fst = some []
  rw [FileTree.walk_here FileTree.isDir_root, FileTree.walk_here FileTree.isDir_root]
  rfl

theorem Lstat_names (ns : List Name) (a : Name) : Lstat T (pathOf (ns ++ [a])) =
    ((T.walk false maxLinks [] (ns.map .name)).map fun r => r.1 ++ [a]).filter
      fun l => (T.node l).isSome := by
  have hlast : PathPart.here :: (ns ++ [a]).map PathPart.name =
      (.here :: ns.map .name) ++ [.name a] := by simp
  rw [Lstat, parts_pathOf (by simp), Option.bind_some, hlast]
  simp only [List.getLast?_concat, List.dropLast_concat]
  rw [FileTree.walk_here FileTree.isDir_root]

/-- What a path leads to is there. -/
theorem Lstat_of_walk {r : Loc Name × Nat} (hr : T.walk false maxLinks [] (ns.map .name) = some r) :
    (Lstat T (pathOf ns)).isSome = true := by
  cases ns using List.reverseRecOn with
  | nil => rw [Lstat_root]; rfl
  | append_singleton ns a =>
    rw [List.map_append, FileTree.walk_append (by simp)] at hr
    obtain ⟨q, hq, hr⟩ := Option.bind_eq_some_iff.mp hr
    have hsome : (T.node (q.1 ++ [a])).isSome = true := by
      rw [Option.isSome_iff_ne_none]
      intro hnone
      cases hdir : T.isDir q.1 with
      | false => rw [List.map_singleton, FileTree.walk_not_dir hdir] at hr; cases hr
      | true => rw [List.map_singleton, FileTree.walk_missing hdir hnone] at hr; cases hr
    rw [Lstat_names, hq, Option.map_some, Option.filter_some, if_pos hsome]
    rfl

/-- Nothing is beyond the first name that is missing. -/
theorem Lstat_missing {ps qs : List Name} {a : Name} {r : Loc Name × Nat}
    (hr : T.walk false maxLinks [] (ps.map .name) = some r) (hdir : T.isDir r.1 = true)
    (ha : T.node (r.1 ++ [a]) = none) : Lstat T (pathOf (ps ++ a :: qs)) = none := by
  cases qs using List.reverseRecOn with
  | nil =>
    rw [Lstat_names, hr, Option.map_some, Option.filter_some, ha]
    rfl
  | append_singleton qs c =>
    have hassoc : ps ++ a :: (qs ++ [c]) = (ps ++ a :: qs) ++ [c] := by simp
    rw [hassoc, Lstat_names, List.map_append, List.map_cons, FileTree.walk_append (by simp), hr,
      Option.bind_some, FileTree.walk_missing hdir ha]
    rfl

theorem EvalSymlinks_pathOf : EvalSymlinks T (pathOf ns) =
    (T.walk false maxEvalLinks [] (ns.map .name)).map fun r => pathOf r.1 := by
  rw [EvalSymlinks, walk_pathOf]

/-- `EvalSymlinks` arrives where the kernel does. -/
theorem EvalSymlinks_of_walk {r : Loc Name × Nat}
    (hr : T.walk false maxLinks [] (ns.map .name) = some r) :
    EvalSymlinks T (pathOf ns) = some (pathOf r.1) := by
  have hmore : T.walk false maxEvalLinks [] (ns.map .name) = some (r.1, r.2 + 215) :=
    FileTree.walk_more hr 215
  rw [EvalSymlinks_pathOf, hmore]
  rfl

/-- A path with NUL in it is no path. -/
theorem parts_nul {path : Str} (h : '\x00' ∈ path) : parts path = none := if_pos (.inr h)

theorem lookup_nul {path : Str} (h : '\x00' ∈ path) : lookup T create path = none := by
  rw [lookup, parts_nul h, Option.bind_none]

end

end Files
end Nasd
