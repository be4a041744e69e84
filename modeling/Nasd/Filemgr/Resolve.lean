import Nasd.Filemgr
import Nasd.Filepath.Normal

/-!
# Nasd.Filemgr.Resolve

Where `resolve` leads, for every text: to the components that the request comes to, below the root.
The path that `List` gives a child comes to one name more.

* `entries_path`       — the paths that `List` gives.
* `resolve_absPath`    — the path that a request leads to.
* `resolve_normalised` — every request, and what `Remove` and `Save` are kept from.
-/

namespace Nasd
namespace Filemgr

open Text Go Filepath Dirs Files

/-! ## Operations -/

/-- What the kernel says of an entry of a directory. -/
structure FileInfo where
  Size : Int
  Perm : Str
  ModTime : Int

/-- An entry that `os.ReadDir` returns; it may be gone when it is asked about. -/
structure DirEntry where
  Name : Str
  IsDir : Bool
  Info : Option FileInfo

structure Entry where
  Name : Str
  Path : Str
  IsDir : Bool
  Size : Int
  Mode : Str
  ModTime : Int

/-- The answer of `List`. -/
def entries (m : Manager) (readDir : Str → Except Str (List DirEntry)) (rel : Str) :
    Except Str (List Entry) :=
  match m.resolve rel with
  | .error e => .error e
  | .ok abs => (readDir abs).map fun items => items.filterMap fun it => it.Info.map fun info =>
      { Name := it.Name
        Path := Filepath.Join [rel, it.Name]
        IsDir := it.IsDir
        Size := info.Size
        Mode := info.Perm.drop 1
        ModTime := info.ModTime }

/-- The path that the system is asked to remove, with what is below it. -/
def Manager.Remove (m : Manager) (rel : Str) : Except Str Str :=
  match m.resolve rel with
  | .error e => .error e
  | .ok abs => if abs = m.root then .error "non è possibile eliminare la root" else .ok abs

variable {m : Manager} {cwd root : Str} {R : List Str}

/-! ## Paths -/

theorem entries_path {readDir : Str → Except Str (List DirEntry)} {es : List Entry}
    (h : entries m readDir rel = .ok es) : ∀ e ∈ es, e.Path = Filepath.Join [rel, e.Name] := by
  intro e he
  unfold entries at h
  cases hres : m.resolve rel with
  | error _ => rw [hres] at h; cases h
  | ok abs =>
    rw [hres] at h
    dsimp only at h
    cases hread : readDir abs with
    | error _ => rw [hread] at h; cases h
    | ok items =>
      rw [hread] at h
      cases h
      obtain ⟨it, -, hit⟩ := List.mem_filterMap.mp he
      obtain ⟨info, -, rfl⟩ := Option.map_eq_some_iff.mp hit
      rfl

theorem Clean_request (rel : Str) :
    Clean ("/" ++ TrimPrefix rel "/") = absPath (normalised rel) := by
  have hsame : normalised ("/" ++ TrimPrefix rel "/") = normalised rel := by
    unfold TrimPrefix
    split
    · rename_i hroot
      obtain ⟨rest, rfl⟩ := HasPrefix_iff.mp hroot
      rfl
    · exact normalised_append [] rel
  rw [Clean_rooted rfl, cleanParts_rooted, hsame]

theorem absPath_eq (hne : R ≠ []) (ns : List Str) :
    absPath (R ++ ns) = absPath R ++ ns.flatMap ('/' :: ·) := by
  induction ns using List.reverseRecOn with
  | nil => simp
  | append_singleton ns n ih =>
    rw [← List.append_assoc, absPath_concat (by simp [hne]), ih, List.flatMap_append,
      List.append_assoc]
    simp

/-- Every request is let through, to the components it comes to. -/
theorem resolve_absPath (hroot : m.root = absPath R) (hR : ∀ n ∈ R, IsName n) (hne : R ≠ [])
    (rel : Str) : m.resolve rel = .ok (absPath (R ++ normalised rel)) := by
  have hnames := normalised_names rel
  by_cases hnil : normalised rel = []
  · simp only [Manager.resolve, Clean_request, hroot, Join_absPath hR hnames]
    rw [hnil, List.append_nil]
    simp
  · have hbelow := resolve_below hroot hR hne hnames hnil
    have hcut : m.resolve rel = m.resolve (absPath (normalised rel)) := by
      simp only [Manager.resolve, Clean_request, normalised_absPath hnames]
    rw [hcut, hbelow]

theorem NewManager_root (habs : HasPrefix root "/" = true) (hclean : Clean root = root) :
    (NewManager cwd root).root = root := by
  rw [NewManager, Abs, if_pos habs, hclean]

theorem Remove_ok {abs path : Str} (hres : m.resolve rel = .ok abs)
    (h : m.Remove rel = .ok path) : path = abs ∧ path ≠ m.root := by
  simp only [Manager.Remove, hres] at h
  split at h
  · cases h
  · rename_i hother
    cases h
    exact ⟨rfl, hother⟩

theorem Save_ok {abs : Str} {T : FS} {o : Option (Loc Name)} (hres : m.resolve rel = .ok abs)
    (h : m.Save T rel = .ok o) : o = OpenFile T abs ∧ abs ≠ m.root := by
  simp only [Manager.Save, hres] at h
  split at h
  · cases h
  · rename_i hother
    cases h
    exact ⟨rfl, hother⟩

/-- The path that `List` gives a child leads to it. -/
theorem resolve_child (hroot : m.root = absPath R) (hR : ∀ n ∈ R, IsName n) (hne : R ≠ [])
    {name : Str} (hname : IsName name) :
    m.resolve (Filepath.Join [rel, name]) =
      .ok (Filepath.Join [absPath (R ++ normalised rel), name]) := by
  have hjoin : Filepath.Join [absPath (R ++ normalised rel), name] =
      absPath (R ++ normalised rel ++ [name]) :=
    Join_names (List.forall_mem_append.mpr ⟨hR, normalised_names rel⟩) (by simpa using hname)
      (List.cons_ne_nil _ _)
  rw [resolve_absPath hroot hR hne, normalised_Join hname, hjoin, List.append_assoc]

theorem resolve_normalised (cwd : Str) {root : Str} (habs : HasPrefix root "/" = true)
    (hclean : Clean root = root) (hne : root ≠ "/") (rel : Str) {name : Str} (hname : IsName name) :
    ∃ abs, (NewManager cwd root).resolve rel = .ok abs ∧
      (abs = root ∨ HasPrefix abs (root ++ "/") = true) ∧
      (∀ c ∈ abs.splitOn '/', c ≠ "." ∧ c ≠ "..") ∧
      abs = root ++ (normalised rel).flatMap ('/' :: ·) ∧
      (∀ rel', normalised rel' = normalised rel → (NewManager cwd root).resolve rel' = .ok abs) ∧
      (∀ readDir es, entries (NewManager cwd root) readDir rel = .ok es →
        ∀ e ∈ es, e.Name = name → (NewManager cwd root).resolve e.Path =
          .ok (Filepath.Join [abs, name])) ∧
      (∀ path, (NewManager cwd root).Remove rel = .ok path → path = abs ∧ path ≠ root) ∧
      (∀ T o, (NewManager cwd root).Save T rel = .ok o → o = OpenFile T abs ∧ abs ≠ root) := by
  obtain ⟨R, hR, hroot⟩ := exists_absPath habs
  rw [hclean] at hroot
  have hRne : R ≠ [] := by
    rintro rfl
    exact hne hroot
  have hmroot : (NewManager cwd root).root = root := NewManager_root habs hclean
  have hresolve := resolve_absPath (hmroot.trans hroot) hR hRne
  have hnames : ∀ n ∈ R ++ normalised rel, IsName n :=
    List.forall_mem_append.mpr ⟨hR, normalised_names rel⟩
  refine ⟨_, hresolve rel, ?_, ?_, ?_, ?_, ?_, ?_, ?_⟩
  · by_cases hnil : normalised rel = []
    · exact .inl (by rw [hnil, List.append_nil, hroot])
    · right
      rw [HasPrefix_iff, hroot, absPath_append hRne hnil]
      exact (List.prefix_append_right_inj _).mpr ⟨_, rfl⟩
  · intro c hc
    rw [splitOn_absPath (by simp [hRne]) fun n hn => (hnames n hn).2.1] at hc
    rcases List.mem_cons.mp hc with rfl | hc
    · decide
    · exact (hnames c hc).2.2
  · rw [absPath_eq hRne, hroot]
  · intro rel' hrel'
    rw [hresolve rel', hrel']
  · rintro readDir es hes e he rfl
    rw [entries_path hes e he]
    exact resolve_child (hmroot.trans hroot) hR hRne hname
  · intro path hpath
    exact hmroot ▸ Remove_ok (hresolve rel) hpath
  · intro T o ho
    exact hmroot ▸ Save_ok (hresolve rel) ho

/-- A request that climbs above the root, and a child in it. -/
theorem resolve_normalised_up :
    (NewManager "/" "/srv/nas").resolve "../../etc//./x/.." = .ok "/srv/nas/etc" ∧
      (NewManager "/" "/srv/nas").resolve (Filepath.Join ["../../etc//./x/..", "passwd"]) =
        .ok "/srv/nas/etc/passwd" := by
  obtain ⟨abs, hok, -, -, rfl, -, hchild, -⟩ :=
    resolve_normalised "/" (rfl : HasPrefix "/srv/nas" "/" = true) (by decide) (by decide)
      "../../etc//./x/.." (by decide : IsName "passwd")
  refine ⟨hok, ?_⟩
  have hpath := hchild (fun _ => .ok [⟨"passwd", false, some ⟨0, "-rw-r--r--", 0⟩⟩]) _ rfl
    _ List.mem_cons_self rfl
  exact hpath

end Filemgr
end Nasd
