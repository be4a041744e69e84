import Mathlib.Data.Char
import Mathlib.Data.List.Lex
import Mathlib.Data.List.Nodup
import Nasd.Files
import Nasd.Filepath.Normal

/-!
# Nasd.Files.Walk

`filepath.Walk` over a tree with finitely many entries. A directory is listed by its path and each
entry looked up by the path of its name, and links are entries that are not followed.

* `mem_Walk_iff`     — the files that a walk visits, as a relation without fuel.
* `Walk_files_nodup` — a walk visits no file twice.
* `filesOf_path`     — a file is visited by a path to it, under its name.
-/

namespace Nasd
namespace Files

open Text Go Filepath Dirs

/-- A tree with its directories listed in the order of the names. -/
structure Disk where
  tree : FS
  children : Loc Name → List Name
  listed : ∀ l a, a ∈ children l ↔ tree.node (l ++ [a]) ≠ none
  sorted : ∀ l, ((children l).map Subtype.val).Pairwise (· < ·)
  depth : Nat
  finite : ∀ l, depth < l.length → tree.node l = none
  size : Loc Name → Int

/-- The disk of a tree whose entries are known, in the order of their names. -/
def Disk.ofTree (T : FS) (entries : List (Loc Name)) (size : Loc Name → Int)
    (hnode : ∀ e ∈ entries, T.node e ≠ none)
    (hall : ∀ l, l ≠ [] → T.node l ≠ none → l ∈ entries)
    (hsorted : (entries.filterMap List.getLast?).Pairwise fun a b => a.1 < b.1) : Disk where
  tree := T
  children l := (entries.filter fun e => e.dropLast = l).filterMap List.getLast?
  listed l a := by
    rw [List.mem_filterMap]
    constructor
    · rintro ⟨e, he, hlast⟩
      obtain ⟨he, hinit⟩ := List.mem_filter.mp he
      have hloc : e = l ++ [a] := by
        rw [← of_decide_eq_true hinit, List.dropLast_append_getLast? a hlast]
      exact hloc ▸ hnode e he
    · intro ha
      refine ⟨l ++ [a], List.mem_filter.mpr ⟨hall _ (by simp) ha, ?_⟩, ?_⟩ <;> simp
  sorted l := List.pairwise_map.mpr (hsorted.sublist (List.filter_sublist.filterMap _))
  depth := entries.flatten.length
  finite l hl := by
    by_contra hsome
    have hne : l ≠ [] := by
      rintro rfl
      exact Nat.not_lt_zero _ hl
    have hle : l.length ≤ entries.flatten.length :=
      (List.sublist_flatten_of_mem (hall l hne hsome)).length_le
    omega
  size := size

/-- What `walk` visits from an entry on: the path and the location of everything, in order. -/
def walkFrom (D : Disk) : Nat → Str → Loc Name → List (Str × Loc Name)
  | 0, path, l => [(path, l)]
  | fuel + 1, path, l => (path, l) ::
      if D.tree.isDir l then
        (((ReadDir D.tree path).map D.children).getD []).flatMap fun n =>
          match Lstat D.tree (Filepath.Join [path, n.1]) with
          | none => []
          | some m => walkFrom D fuel (Filepath.Join [path, n.1]) m
      else []

/-- The calls of `filepath.Walk` without an error. -/
def Walk (D : Disk) (path : Str) : List (Str × Loc Name) :=
  match Lstat D.tree path with
  | none => []
  | some l => walkFrom D (D.depth + 2) path l

/-- A file that is found below a path, entry by entry. -/
inductive Found (D : Disk) : Str → Loc Name → Prop where
  | file {path : Str} {l : Loc Name} :
      Lstat D.tree path = some l → D.tree.isDir l = false → Found D path l
  | child {path : Str} {l k m : Loc Name} {n : Name} :
      Lstat D.tree path = some l → D.tree.isDir l = true → ReadDir D.tree path = some k →
      n ∈ D.children k → Found D (Filepath.Join [path, n.1]) m → Found D path m

variable {D : Disk} {T : FS} {path : Str} {l m k : Loc Name} {ns : List Name} {n : Name}
  {fuel : Nat} {v : Str × Loc Name}

theorem children_nodup (D : Disk) (l : Loc Name) : (D.children l).Nodup := by
  have hnames : ((D.children l).map Subtype.val).Nodup := by
    refine (D.sorted l).imp ?_
    intro a b hlt heq
    rw [heq] at hlt
    exact lt_irrefl _ hlt
  exact List.Nodup.of_map _ hnames

/-! ## Children -/

/-- The names on the way of a path that leads somewhere. -/
theorem exists_normalised (habs : HasPrefix path "/" = true) (hk : ReadDir T path = some k) :
    ∃ ns : List Name, normalised path = ns.map Subtype.val := by
  have hnul : '\x00' ∉ path := by
    intro hmem
    rw [ReadDir, Stat, lookup_nul hmem] at hk
    cases hk
  have hclean : Clean path = absPath (normalised path) := by
    rw [Clean_rooted habs, cleanParts_rooted]
  have hnul' : '\x00' ∉ absPath (normalised path) :=
    fun hmem => hnul (mem_of_mem_Clean habs (hclean ▸ hmem))
  obtain ⟨ns, -, hns⟩ := exists_names (normalised_names path) hnul'
  exact ⟨ns, hns⟩

theorem Join_child (habs : HasPrefix path "/" = true)
    (hns : normalised path = ns.map Subtype.val) (n : Name) :
    Filepath.Join [path, n.1] = pathOf (ns ++ [n]) := by
  rw [Join_rooted habs n.2.1, hns, pathOf, List.map_append]
  rfl

theorem pathOf_rooted (ns : List Name) : HasPrefix (pathOf ns) "/" = true := rfl

theorem normalised_pathOf (ns : List Name) : normalised (pathOf ns) = ns.map Subtype.val :=
  normalised_absPath (pathOf_names ns)

/-- The children of a path are all in one directory, under their names. -/
theorem Lstat_child (hm : Lstat T (pathOf (ns ++ [n])) = some m) : ∃ r,
    T.walk false maxLinks [] (ns.map .name) = some r ∧ m = r.1 ++ [n] ∧
      (T.node m).isSome = true := by
  rw [Lstat_names, Option.filter_eq_some_iff, Option.map_eq_some_iff] at hm
  obtain ⟨⟨r, hr, rfl⟩, hsome⟩ := hm
  exact ⟨r, hr, rfl, hsome⟩

/-- A clean path to a directory is walked to that directory. -/
theorem walk_of_dir (hl : Lstat T (pathOf ns) = some l) (hdir : T.isDir l = true) :
    ∃ b, T.walk false maxLinks [] (ns.map .name) = some (l, b) := by
  cases ns using List.reverseRecOn with
  | nil =>
    rw [Lstat_root, Option.some.injEq] at hl
    exact ⟨maxLinks, by rw [← hl]; rfl⟩
  | append_singleton ns a =>
    obtain ⟨r, hr, rfl, -⟩ := Lstat_child hl
    have hparent : T.isDir r.1 = true :=
      FileTree.isDir_iff.mpr (T.closed _ _ (by rw [FileTree.isDir_iff.mp hdir]; simp))
    refine ⟨r.2, ?_⟩
    rw [List.map_append, FileTree.walk_append (fun h => absurd h (by decide)), hr,
      Option.bind_some, List.map_singleton,
      FileTree.walk_name hparent (FileTree.isDir_iff.mp hdir) rfl, FileTree.walk_nil]

theorem ReadDir_of_dir (hl : Lstat T (pathOf ns) = some l) (hdir : T.isDir l = true) :
    ReadDir T (pathOf ns) = some l := by
  obtain ⟨b, hb⟩ := walk_of_dir hl hdir
  rw [ReadDir, Stat, lookup_pathOf, hb, Option.map_some, Option.filter_some, if_pos hdir]

theorem Lstat_below (hl : Lstat T (pathOf ns) = some l) (hdir : T.isDir l = true)
    (hm : Lstat T (pathOf (ns ++ [n])) = some m) : m = l ++ [n] := by
  obtain ⟨b, hb⟩ := walk_of_dir hl hdir
  obtain ⟨r, hr, rfl, -⟩ := Lstat_child hm
  rw [hb, Option.some.injEq] at hr
  rw [← hr]

theorem node_of_Lstat (hl : Lstat T (pathOf ns) = some l) : (T.node l).isSome = true := by
  cases ns using List.reverseRecOn with
  | nil =>
    rw [Lstat_root, Option.some.injEq] at hl
    rw [← hl, T.root]
    rfl
  | append_singleton ns a =>
    obtain ⟨r, -, -, hsome⟩ := Lstat_child hl
    exact hsome

/-! ## One walk -/

/-- What is visited in the entries of a directory. -/
def walkBelow (D : Disk) (fuel : Nat) (path : Str) (ns : List Name) : List (Str × Loc Name) :=
  ns.flatMap fun n =>
    match Lstat D.tree (Filepath.Join [path, n.1]) with
    | none => []
    | some m => walkFrom D fuel (Filepath.Join [path, n.1]) m

theorem walkFrom_succ : walkFrom D (fuel + 1) path l = (path, l) ::
    if D.tree.isDir l then walkBelow D fuel path (((ReadDir D.tree path).map D.children).getD [])
    else [] := rfl

theorem mem_walkBelow : v ∈ walkBelow D fuel path ns ↔ ∃ n ∈ ns, ∃ m,
    Lstat D.tree (Filepath.Join [path, n.1]) = some m ∧
      v ∈ walkFrom D fuel (Filepath.Join [path, n.1]) m := by
  rw [walkBelow, List.mem_flatMap]
  refine exists_congr fun n => and_congr_right fun _ => ?_
  cases Lstat D.tree (Filepath.Join [path, n.1]) with
  | none => simp
  | some m => simp

theorem mem_walkFrom_succ : v ∈ walkFrom D (fuel + 1) path l ↔ v = (path, l) ∨
    D.tree.isDir l = true ∧ ∃ k n m, ReadDir D.tree path = some k ∧ n ∈ D.children k ∧
      Lstat D.tree (Filepath.Join [path, n.1]) = some m ∧
        v ∈ walkFrom D fuel (Filepath.Join [path, n.1]) m := by
  rw [walkFrom_succ, List.mem_cons]
  refine or_congr_right ?_
  split
  · rename_i hdir
    rw [mem_walkBelow]
    cases ReadDir D.tree path with
    | none => simp
    | some k => simp [hdir]
  · rename_i hdir
    simp [hdir]

/-- Everything visited is below the entry that the walk starts from. -/
theorem walkFrom_below (hl : Lstat D.tree (pathOf ns) = some l)
    (hv : v ∈ walkFrom D fuel (pathOf ns) l) : l <+: v.2 := by
  induction fuel generalizing ns l with
  | zero =>
    rw [List.mem_singleton.mp hv]
  | succ fuel ih =>
    rcases mem_walkFrom_succ.mp hv with rfl | ⟨hdir, k, n, m, -, -, hm, hv⟩
    · exact List.prefix_refl _
    · rw [Join_child (pathOf_rooted ns) (normalised_pathOf ns)] at hm hv
      obtain rfl := Lstat_below hl hdir hm
      exact (List.prefix_append _ _).trans (ih hm hv)

/-- The entries of a directory are walked apart from each other. -/
theorem walkBelow_nodup {names : List Name} {c : Loc Name} (hnames : names.Nodup)
    (hjoin : ∀ n : Name, Filepath.Join [path, n.1] = pathOf (ns ++ [n]))
    (hone : ∀ n m, Lstat D.tree (pathOf (ns ++ [n])) = some m → m = c ++ [n] ∧
      ((walkFrom D fuel (pathOf (ns ++ [n])) m).map Prod.snd).Nodup) :
    ((walkBelow D fuel path names).map Prod.snd).Nodup := by
  rw [walkBelow, List.map_flatMap, List.nodup_flatMap]
  constructor
  · intro n _
    rw [hjoin]
    cases hm : Lstat D.tree (pathOf (ns ++ [n])) with
    | none => exact List.nodup_nil
    | some m => exact (hone n m hm).2
  · refine hnames.imp fun {a b} hab => ?_
    -- what is visited through a name has that name in its location
    have hmem : ∀ {n : Name} {x : Loc Name}, x ∈ (match Lstat D.tree
        (Filepath.Join [path, n.1]) with
      | none => ([] : List (Str × Loc Name))
      | some m => walkFrom D fuel (Filepath.Join [path, n.1]) m).map Prod.snd → c ++ [n] <+: x := by
      intro n x hx
      rw [hjoin] at hx
      cases hm : Lstat D.tree (pathOf (ns ++ [n])) with
      | none => rw [hm] at hx; cases hx
      | some m =>
        rw [hm] at hx
        obtain ⟨v, hv, rfl⟩ := List.mem_map.mp hx
        rw [← (hone n m hm).1]
        exact walkFrom_below hm hv
    intro x hxa hxb
    have hpa := hmem hxa
    have hpb := hmem hxb
    have hsame : c ++ [a] = c ++ [b] :=
      List.IsPrefix.eq_of_length (List.prefix_of_prefix_length_le hpa hpb (by simp)) (by simp)
    exact hab (by simpa using hsame)

theorem walkFrom_nodup (hl : Lstat D.tree (pathOf ns) = some l) :
    ((walkFrom D fuel (pathOf ns) l).map Prod.snd).Nodup := by
  induction fuel generalizing ns l with
  | zero => exact List.nodup_singleton _
  | succ fuel ih =>
    have hjoin := Join_child (pathOf_rooted ns) (normalised_pathOf ns)
    rw [walkFrom_succ, List.map_cons]
    split
    · rename_i hdir
      rw [ReadDir_of_dir hl hdir, Option.map_some, Option.getD_some]
      refine List.nodup_cons.mpr ⟨fun hmem => ?_,
        walkBelow_nodup (children_nodup D l) hjoin fun n m hm => ⟨Lstat_below hl hdir hm, ih hm⟩⟩
      obtain ⟨v, hv, hvl⟩ := List.mem_map.mp hmem
      obtain ⟨n, -, m, hm, hv⟩ := mem_walkBelow.mp hv
      rw [hjoin] at hm hv
      have hlen := (walkFrom_below hm hv).length_le
      rw [Lstat_below hl hdir hm, hvl, List.length_append] at hlen
      exact Nat.not_succ_le_self _ hlen
    · exact List.nodup_singleton _

/-- The files of a walk. -/
def filesOf (D : Disk) (path : Str) : List (Str × Loc Name) :=
  (Walk D path).filter fun v => !D.tree.isDir v.2

/-- A walk visits no file twice. -/
theorem Walk_files_nodup (habs : HasPrefix path "/" = true) :
    ((filesOf D path).map Prod.snd).Nodup := by
  rw [filesOf, Walk]
  cases hl : Lstat D.tree path with
  | none => exact List.nodup_nil
  | some l =>
    dsimp only
    rw [walkFrom_succ]
    split
    · rename_i hdir
      rw [List.filter_cons_of_neg (by simp [hdir])]
      refine List.Nodup.sublist (List.filter_sublist.map _) ?_
      cases hk : ReadDir D.tree path with
      | none => exact List.nodup_nil
      | some k =>
        obtain ⟨ns, hns⟩ := exists_normalised habs hk
        have hjoin := Join_child habs hns
        rw [Option.map_some, Option.getD_some]
        cases hr : D.tree.walk false maxLinks [] (ns.map .name) with
        | none =>
          refine walkBelow_nodup (c := []) (children_nodup D k) hjoin fun n m hm => ?_
          obtain ⟨r, hr', -⟩ := Lstat_child hm
          rw [hr] at hr'
          cases hr'
        | some r =>
          refine walkBelow_nodup (c := r.1) (children_nodup D k) hjoin fun n m hm => ?_
          obtain ⟨r', hr', rfl, -⟩ := Lstat_child hm
          rw [hr, Option.some.injEq] at hr'
          rw [← hr'] at hm ⊢
          exact ⟨rfl, walkFrom_nodup hm⟩
    · exact List.Nodup.sublist (List.filter_sublist.map _) (List.nodup_singleton _)

/-! ## Files found -/

theorem Found.notDir (h : Found D path m) : D.tree.isDir m = false := by
  induction h with
  | file _ hfile => exact hfile
  | child _ _ _ _ _ ih => exact ih

theorem Found.exists_lstat (h : Found D path m) : ∃ l, Lstat D.tree path = some l := by
  cases h with
  | file hl _ => exact ⟨_, hl⟩
  | child hl _ _ _ _ => exact ⟨_, hl⟩

theorem found_of_mem (hl : Lstat D.tree path = some l) (hv : v ∈ walkFrom D fuel path l)
    (hfile : D.tree.isDir v.2 = false) : Found D path v.2 := by
  induction fuel generalizing path l with
  | zero =>
    rw [List.mem_singleton.mp hv] at hfile ⊢
    exact .file hl hfile
  | succ fuel ih =>
    rcases mem_walkFrom_succ.mp hv with rfl | ⟨hdir, k, n, m, hk, hn, hm, hv⟩
    · exact .file hl hfile
    · exact .child hl hdir hk hn (ih hm hv)

/-- The fuel is enough for what is left of the tree. -/
theorem mem_of_found (hl : Lstat D.tree (pathOf ns) = some l) (hfuel : D.depth < fuel + l.length)
    (h : Found D (pathOf ns) m) : ∃ q, (q, m) ∈ walkFrom D fuel (pathOf ns) l := by
  induction fuel generalizing ns l with
  | zero =>
    have hnone := D.finite l (by omega)
    have hsome := node_of_Lstat hl
    rw [hnone] at hsome
    cases hsome
  | succ fuel ih =>
    cases h with
    | file hl' _ =>
      rw [hl, Option.some.injEq] at hl'
      rw [hl']
      exact ⟨_, List.mem_cons_self⟩
    | @child _ l' k _ n hl' hdir hk hn hbelow =>
      rw [hl, Option.some.injEq] at hl'
      subst hl'
      obtain ⟨c, hc⟩ := hbelow.exists_lstat
      have hc' := hc
      rw [Join_child (pathOf_rooted ns) (normalised_pathOf ns)] at hbelow hc'
      have hlen : D.depth < fuel + c.length := by
        rw [Lstat_below hl hdir hc', List.length_append, List.length_singleton]
        omega
      obtain ⟨q, hq⟩ := ih hc' hlen hbelow
      rw [← Join_child (pathOf_rooted ns) (normalised_pathOf ns)] at hq
      exact ⟨q, mem_walkFrom_succ.mpr (.inr ⟨hdir, k, n, c, hk, hn, hc, hq⟩)⟩

theorem mem_Walk_iff (habs : HasPrefix path "/" = true) :
    (∃ q, (q, m) ∈ filesOf D path) ↔ Found D path m := by
  rw [filesOf, Walk]
  constructor
  · rintro ⟨q, hq⟩
    rw [List.mem_filter] at hq
    obtain ⟨hq, hfile⟩ := hq
    cases hl : Lstat D.tree path with
    | none => rw [hl] at hq; cases hq
    | some l =>
      rw [hl] at hq
      exact found_of_mem hl hq (by simpa using hfile)
  · intro h
    obtain ⟨l, hl⟩ := h.exists_lstat
    have hnot := h.notDir
    rw [hl]
    cases h with
    | file hl' _ =>
      rw [hl, Option.some.injEq] at hl'
      subst hl'
      exact ⟨path, List.mem_filter.mpr ⟨List.mem_cons_self, by simp [hnot]⟩⟩
    | @child _ l' k _ n hl' hdir hk hn hbelow =>
      rw [hl, Option.some.injEq] at hl'
      subst hl'
      obtain ⟨ns, hns⟩ := exists_normalised habs hk
      obtain ⟨c, hc⟩ := hbelow.exists_lstat
      have hc' := hc
      rw [Join_child habs hns] at hbelow hc'
      have hfuel : D.depth < D.depth + 1 + c.length := by omega
      obtain ⟨q, hq⟩ := mem_of_found hc' hfuel hbelow
      rw [← Join_child habs hns] at hq
      exact ⟨q, List.mem_filter.mpr
        ⟨mem_walkFrom_succ.mpr (.inr ⟨hdir, k, n, c, hk, hn, hc, hq⟩), by simp [hnot]⟩⟩

/-! ## Names -/

/-- The name of an entry is the last on its way. -/
def nameOf (l : Loc Name) : Str := (l.getLast?.map Subtype.val).getD []

theorem nameOf_concat (l : Loc Name) (n : Name) : nameOf (l ++ [n]) = n.1 := by
  rw [nameOf, List.getLast?_concat]
  rfl

/-- What ends in an empty component, `.` or `..` is a directory. -/
theorem isDir_of_walk {cs : List (PathPart Name)} {c : PathPart Name} {r : Loc Name × Nat} {b : Nat}
    (hc : ∀ a, c ≠ .name a) (hr : T.walk false b [] (cs ++ [c]) = some r) : T.isDir r.1 = true := by
  rw [FileTree.walk_append (fun h => absurd h (by decide))] at hr
  obtain ⟨q, -, hr⟩ := Option.bind_eq_some_iff.mp hr
  cases hdir : T.isDir q.1 with
  | false => rw [FileTree.walk_not_dir hdir] at hr; cases hr
  | true =>
    cases c with
    | name a => exact absurd rfl (hc a)
    | here =>
      rw [FileTree.walk_here hdir, FileTree.walk_nil] at hr
      cases hr
      exact hdir
    | up =>
      rw [FileTree.walk_up hdir, FileTree.walk_nil] at hr
      cases hr
      by_cases hq : q.1 = []
      · rw [hq]
        exact FileTree.isDir_root
      · refine FileTree.isDir_of_prefix (by rw [FileTree.isDir_iff.mp hdir]; simp)
          (List.dropLast_prefix _) fun heq => ?_
        have hlen := congrArg List.length heq
        rw [List.length_dropLast] at hlen
        have hpos := List.length_pos_iff.mpr hq
        omega

/-- The last component of the path of a file is its name. -/
theorem Base_of_Lstat (habs : HasPrefix path "/" = true) (hl : Lstat T path = some l)
    (hfile : T.isDir l = false) : Base path = nameOf l := by
  obtain ⟨q, last, rfl, hlast⟩ := exists_last habs
  obtain ⟨cs, hcs, hl⟩ := Option.bind_eq_some_iff.mp hl
  have hparts : cs = (q.splitOn '/').map part ++ [part last] := by
    unfold parts at hcs
    split at hcs
    · cases hcs
    · cases hcs
      have hsplit : (q ++ '/' :: last).splitOn '/' = q.splitOn '/' ++ last.splitOn '/' :=
        List.splitOn_append_cons_self q last
      rw [hsplit, List.splitOn_eq_singleton hlast, List.map_append, List.map_singleton]
  subst hparts
  simp only [List.getLast?_concat] at hl
  by_cases hname : IsName last ∧ '\x00' ∉ last
  · have hpart : part last = .name ⟨last, hname⟩ := dif_pos hname
    rw [hpart] at hl
    simp only [Option.filter_eq_some_iff, Option.map_eq_some_iff] at hl
    obtain ⟨⟨r, -, rfl⟩, -⟩ := hl
    rw [nameOf_concat, Base_append q hname.1]
  · have hnot : ∀ a, part last ≠ .name a := by
      intro a ha
      rw [part, dif_neg hname] at ha
      split at ha <;> cases ha
    have hdir : T.isDir l = true := by
      cases hpart : part last with
      | name a => exact absurd hpart (hnot a)
      | here =>
        rw [hpart] at hl
        obtain ⟨r, hr, rfl⟩ := Option.map_eq_some_iff.mp hl
        exact isDir_of_walk (by simp) hr
      | up =>
        rw [hpart] at hl
        obtain ⟨r, hr, rfl⟩ := Option.map_eq_some_iff.mp hl
        exact isDir_of_walk (by simp) hr
    rw [hdir] at hfile
    cases hfile

/-- Every entry is visited by a path that leads to it. -/
theorem walkFrom_path (habs : HasPrefix path "/" = true) (hl : Lstat D.tree path = some l)
    (hv : v ∈ walkFrom D fuel path l) :
    HasPrefix v.1 "/" = true ∧ Lstat D.tree v.1 = some v.2 := by
  induction fuel generalizing path l with
  | zero =>
    rw [List.mem_singleton.mp hv]
    exact ⟨habs, hl⟩
  | succ fuel ih =>
    rcases mem_walkFrom_succ.mp hv with rfl | ⟨-, k, n, m, hk, -, hm, hv⟩
    · exact ⟨habs, hl⟩
    · obtain ⟨ns, hns⟩ := exists_normalised habs hk
      rw [Join_child habs hns] at hm hv
      exact ih (pathOf_rooted _) hm hv

theorem filesOf_path (habs : HasPrefix path "/" = true) (hv : v ∈ filesOf D path) :
    Lstat D.tree v.1 = some v.2 ∧ Base v.1 = nameOf v.2 := by
  rw [filesOf, Walk, List.mem_filter] at hv
  obtain ⟨hv, hfile⟩ := hv
  cases hl : Lstat D.tree path with
  | none => rw [hl] at hv; cases hv
  | some l =>
    rw [hl] at hv
    obtain ⟨hrooted, hlv⟩ := walkFrom_path habs hl hv
    exact ⟨hlv, Base_of_Lstat hrooted hlv (by simpa using hfile)⟩

end Files
end Nasd
