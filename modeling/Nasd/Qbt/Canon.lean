import Nasd.Qbt.Volumes

/-!
# Nasd.Qbt.Canon

`canonExisting` on every tree and every clean path. The loop goes up to the longest part that
exists, and the names it passed stand behind what the links of that part lead to. It ends on any
path: `Dir` makes a path shorter until it is the root or the working directory.

* `Longest.unique`         — there is one longest part (`longest_of_clean`).
* `canonExisting_resolves` — what becomes of the path; without links, nothing.
-/

namespace Nasd
namespace Qbt

open Text Go Filepath Dirs Files

variable {T : FS} {path : Str} {ps qs : List Str} {ns : List Name}

/-- The longest part of a path that exists, and the names left. -/
structure Longest (T : FS) (path : Str) (ps qs : List Str) : Prop where
  names : ∀ n ∈ ps ++ qs, IsName n
  path : path = absPath (ps ++ qs)
  found : (Lstat T (absPath ps)).isSome = true
  rest : ∀ qs', qs' ≠ [] → qs' <+: qs → Lstat T (absPath (ps ++ qs')) = none

theorem longest_of_clean (habs : HasPrefix path "/" = true) (hclean : Clean path = path) :
    ∃ ps qs, Longest T path ps qs := by
  obtain ⟨names, hnames, hpath⟩ := exists_absPath habs
  obtain ⟨ps, qs, rfl, hfound, hrest⟩ := exists_longest T names
  exact ⟨ps, qs, hnames, hclean ▸ hpath, hfound, hrest⟩

/-- Of two parts that exist neither is longer than the longest. -/
theorem Longest.le {ps' qs' : List Str} (h : Longest T path ps qs) (h' : Longest T path ps' qs') :
    ps' <+: ps := by
  have hsame : ps ++ qs = ps' ++ qs' := by
    have hparts := congrArg (cleanParts true) (h.path.symm.trans h'.path)
    rwa [cleanParts_absPath h.names, cleanParts_absPath h'.names] at hparts
  rcases List.append_eq_append_iff.mp hsame with ⟨more, rfl, hqs⟩ | ⟨more, rfl, -⟩
  · by_cases hmore : more = []
    · rw [hmore, List.append_nil]
    · have hnone := h.rest more hmore (hqs ▸ List.prefix_append _ _)
      have hfound := h'.found
      rw [hnone] at hfound
      cases hfound
  · exact List.prefix_append _ _

theorem Longest.unique {ps' qs' : List Str} (h : Longest T path ps qs)
    (h' : Longest T path ps' qs') : ps = ps' ∧ qs = qs' := by
  have hps : ps = ps' :=
    List.IsPrefix.eq_of_length_le (h'.le h) (h.le h').length_le
  subst hps
  have hparts := congrArg (cleanParts true) (h.path.symm.trans h'.path)
  rw [cleanParts_absPath h.names, cleanParts_absPath h'.names] at hparts
  exact ⟨rfl, List.append_cancel_left hparts⟩

/-- The names left stand behind the part that exists, in their order. -/
theorem Longest.canonExisting {names : List Str} (h : Longest T path ps qs)
    (hnames : ∀ n ∈ names, IsName n)
    (hreal : (EvalSymlinks T (absPath ps)).getD (absPath ps) = absPath names) :
    canonExisting T path = absPath (names ++ qs) := by
  rw [h.path, Qbt.canonExisting, canonFrom_names h.names [] h.found h.rest, hreal, List.append_nil]
  cases qs with
  | nil => rw [List.append_nil]
  | cons q qs =>
    exact Join_names hnames (fun m hm => h.names m (List.mem_append_right _ hm))
      (List.cons_ne_nil _ _)

theorem exists_real {real : Str} (h : EvalSymlinks T path = some real) :
    ∃ ns : List Name, real = pathOf ns := by
  obtain ⟨r, -, rfl⟩ := Option.map_eq_some_iff.mp h
  exact ⟨r.1, rfl⟩

/-! ## Without links -/

/-- Names lead where they say. -/
theorem node_of_linkFree (hfree : FileTree.LinkFree T) (h : (Lstat T (pathOf ns)).isSome = true) :
    ∃ n, T.node ns = some n ∧ n.isLink = false := by
  cases ns using List.reverseRecOn with
  | nil => exact ⟨.dir, T.root, rfl⟩
  | append_singleton ns a =>
    obtain ⟨l, hl⟩ := Option.isSome_iff_exists.mp h
    rw [Lstat_names, Option.filter_eq_some_iff, Option.map_eq_some_iff] at hl
    obtain ⟨⟨r, hr, rfl⟩, hsome⟩ := hl
    rw [hfree.walk hr, foldl_step_names, List.nil_append] at hsome
    obtain ⟨n, hn⟩ := Option.isSome_iff_exists.mp hsome
    exact ⟨n, hn, hfree _ _ hn⟩

theorem EvalSymlinks_linkFree (hfree : FileTree.LinkFree T)
    (h : (Lstat T (pathOf ns)).isSome = true) :
    EvalSymlinks T (pathOf ns) = some (pathOf ns) := by
  obtain ⟨n, hn, hlink⟩ := node_of_linkFree hfree h
  have hwalk : T.walk false maxEvalLinks [] (ns.map .name) = some ([] ++ ns, maxEvalLinks) :=
    FileTree.walk_names hn hlink
  rw [EvalSymlinks_pathOf, hwalk]
  rfl

/-- What exists has no NUL in its path. -/
theorem Longest.pathOf (h : Longest T path ps qs) : ∃ ns : List Name, ps = ns.map Subtype.val := by
  have hnul : '\x00' ∉ absPath ps := by
    intro hmem
    have hfound := h.found
    rw [Lstat, parts_nul hmem] at hfound
    cases hfound
  obtain ⟨ns, -, hns⟩ :=
    exists_names (fun n hn => h.names n (List.mem_append_left _ hn)) hnul
  exact ⟨ns, hns⟩

/-! ## Every path -/

theorem canonExisting_resolves (T : FS) {path : Str} (habs : HasPrefix path "/" = true)
    (hclean : Clean path = path) :
    (∃ ps qs, Longest T path ps qs) ∧
    ∀ ps qs, Longest T path ps qs →
      (∀ real, EvalSymlinks T (absPath ps) = some real →
        canonExisting T path = Filepath.Join (real :: qs) ∧
          ∃ names, (∀ n ∈ names, IsName n) ∧ real = absPath names ∧
            canonExisting T path = absPath (names ++ qs)) ∧
      (FileTree.LinkFree T → canonExisting T path = path) := by
  refine ⟨longest_of_clean habs hclean, fun ps qs h => ⟨fun real hreal => ?_, fun hfree => ?_⟩⟩
  · obtain ⟨ns, rfl⟩ := exists_real hreal
    have hnames : ∀ n ∈ ns.map Subtype.val, IsName n := pathOf_names ns
    have hcanon := h.canonExisting hnames (by rw [hreal]; rfl)
    refine ⟨?_, ns.map Subtype.val, hnames, rfl, hcanon⟩
    rw [hcanon]
    by_cases hqs : qs = []
    · rw [hqs, List.append_nil, pathOf, Join_one, Clean_absPath hnames]
    · exact (Join_names hnames (fun m hm => h.names m (List.mem_append_right _ hm)) hqs).symm
  · obtain ⟨ns, rfl⟩ := h.pathOf
    have hreal : EvalSymlinks T (absPath (ns.map Subtype.val)) =
        some (absPath (ns.map Subtype.val)) := EvalSymlinks_linkFree hfree h.found
    rw [h.canonExisting (pathOf_names ns) (by rw [hreal]; rfl), ← h.path]

def disk : Name := ⟨"disk", by decide⟩
def data : Name := ⟨"data", by decide⟩

/-- `/disk` is a link to `/data`. -/
def linkedDisk : FS := .ofEntries [([disk], .link ⟨true, [.name data]⟩), ([data], .dir)] (by decide)

theorem canonExisting_resolves_linked : Longest linkedDisk "/disk/new" ["disk"] ["new"] ∧
    canonExisting linkedDisk "/disk/new" = "/data/new" := by
  have hlongest : Longest linkedDisk "/disk/new" ["disk"] ["new"] := by
    refine ⟨by decide, by decide, by decide +kernel, fun qs' hne hpre => ?_⟩
    rcases List.prefix_cons_iff.mp hpre with rfl | ⟨rest, rfl, hrest⟩
    · exact absurd rfl hne
    · rw [List.prefix_nil.mp hrest]
      decide +kernel
  have hjoin := ((canonExisting_resolves linkedDisk rfl (by decide)).2 _ _ hlongest).1 "/data"
    (by decide +kernel)
  exact ⟨hlongest, hjoin.1.trans (by decide)⟩

end Qbt
end Nasd
