import Nasd.Files

/-!
# Nasd.Filemgr

The file manager, `internal/filemgr/filemgr.go`, and how far its root confines it. A path is made
clean and put below the root as text; the links on it are left to the system.

* `resolve_ok`, `resolve_below` — the paths that are let through.
* `jailed_iff` — everything stays below the root exactly when no link below it leads outside.
-/

namespace Nasd
namespace Filemgr

open Text Go Filepath Dirs Files

/-- `filepath.Abs`, in the working directory `cwd`. -/
def Abs (cwd path : Str) : Str :=
  if HasPrefix path "/" then Clean path else Filepath.Join [cwd, path]

structure Manager where
  root : Str
  deriving DecidableEq

def NewManager (cwd root : Str) : Manager := ⟨Abs cwd root⟩

namespace Manager

def resolve (m : Manager) (rel : Str) : Except Str Str :=
  let clean := Clean ("/" ++ TrimPrefix rel "/")
  let abs := Filepath.Join [m.root, clean]
  if abs ≠ m.root ∧ !HasPrefix abs (m.root ++ "/") then
    .error "percorso fuori dalla root consentita"
  else .ok abs

/-! Each operation gives the error of the manager, or the location that the system acts on: the
directory listed, those made, the file whose mode is set, the one written, the one read. -/

def List (m : Manager) (T : FS) (rel : Str) : Except Str (Option (Loc Name)) :=
  (m.resolve rel).map (ReadDir T)

def Mkdir (m : Manager) (T : FS) (rel : Str) : Except Str (FileTree.Made Name) :=
  (m.resolve rel).map (MkdirAll T)

def Chmod (m : Manager) (T : FS) (rel : Str) : Except Str (Option (Loc Name)) :=
  (m.resolve rel).map (Files.Chmod T)

def Save (m : Manager) (T : FS) (rel : Str) : Except Str (Option (Loc Name)) :=
  match m.resolve rel with
  | .error e => .error e
  | .ok abs => if abs = m.root then .error "percorso non valido" else .ok (OpenFile T abs)

def OpenForDownload (m : Manager) (T : FS) (rel : Str) : Except Str (Option (Loc Name)) :=
  match m.resolve rel with
  | .error e => .error e
  | .ok abs =>
    match Open T abs with
    | none => .ok none
    | some l => if T.isDir l then .error "è una directory" else .ok (some l)

end Manager

inductive Op where
  | list
  | mkdir
  | chmod
  | save
  | download
  deriving DecidableEq

def acted : Except Str (Option (Loc Name)) → List (Loc Name)
  | .ok (some l) => [l]
  | _ => []

def made : Except Str (FileTree.Made Name) → List (Loc Name)
  | .ok r => r.made
  | .error _ => []

/-- The locations that an operation reads or changes. -/
def touched (m : Manager) (T : FS) (rel : Str) : Op → List (Loc Name)
  | .list => acted (m.List T rel)
  | .mkdir => made (m.Mkdir T rel)
  | .chmod => acted (m.Chmod T rel)
  | .save => acted (m.Save T rel)
  | .download => acted (m.OpenForDownload T rel)

/-- The location is the root's, which may still have to be made, or one below it. -/
def Inside (T : FS) (root : Str) (l : Loc Name) : Prop :=
  ∃ r, lookup T true root = some r ∧ r.1 <+: l

def Jailed (T : FS) (m : Manager) : Prop :=
  ∀ op rel, ∀ l ∈ touched m T rel op, Inside T m.root l

/-- A directory is missing on the way to the root, and can be made. -/
def Missing (T : FS) (root : Str) : Prop :=
  ∃ (ps : List Name) (a : Name) (names : List Str) (r : Loc Name × Nat),
    (∀ n ∈ names, IsName n) ∧ root = absPath ((ps ++ [a]).map Subtype.val ++ names) ∧
    T.walk false maxLinks [] (ps.map .name) = some r ∧ T.isDir r.1 = true ∧
    T.node (r.1 ++ [a]) = none

/-! ## Paths let through -/

variable {T : FS} {m : Manager} {rel abs : Str} {R : List Str}

theorem resolve_ok (hroot : m.root = absPath R) (hR : ∀ n ∈ R, IsName n)
    (hok : m.resolve rel = .ok abs) : ∃ N, (∀ n ∈ N, IsName n) ∧ abs = absPath (R ++ N) := by
  have hrooted : HasPrefix ("/" ++ TrimPrefix rel "/") "/" = true := rfl
  obtain ⟨N, hN, hclean⟩ := exists_absPath hrooted
  refine ⟨N, hN, ?_⟩
  simp only [Manager.resolve, hclean, hroot, Join_absPath hR hN] at hok
  split at hok
  · cases hok
  · cases hok; rfl

theorem resolve_below {N : List Str} (hroot : m.root = absPath R) (hR : ∀ n ∈ R, IsName n)
    (hne : R ≠ []) (hN : ∀ n ∈ N, IsName n) (hNne : N ≠ []) :
    m.resolve (absPath N) = .ok (absPath (R ++ N)) := by
  have hrel : ("/" ++ TrimPrefix (absPath N) "/" : Str) = absPath N := rfl
  have hbelow : HasPrefix (absPath (R ++ N)) (absPath R ++ "/") = true := by
    rw [HasPrefix_iff, absPath_append hne hNne]
    exact (List.prefix_append_right_inj _).mpr ⟨_, rfl⟩
  simp only [Manager.resolve, hrel, Clean_absPath hN, hroot, Join_absPath hR hN, hbelow,
    Bool.not_true, Bool.false_eq_true, and_false, if_false]

/-! ## What the operations act on -/

variable {cwd root : Str} {op : Op} {l : Loc Name} {rs ns : List Name}

theorem mem_acted {o : Option (Loc Name)} : l ∈ acted (.ok o) ↔ o = some l := by
  cases o with
  | none => simp [acted]
  | some d => simp [acted, eq_comm]

theorem touched_cases (hl : l ∈ touched m T rel op) : ∃ abs, m.resolve rel = .ok abs ∧
    ((∃ r, lookup T false abs = some r ∧ r.1 = l) ∨
      (abs ≠ m.root ∧ ∃ r, lookup T true abs = some r ∧ r.1 = l) ∨
      l ∈ (MkdirAll T abs).made) := by
  have hstat : ∀ {abs}, Stat T abs = some l → ∃ r, lookup T false abs = some r ∧ r.1 = l :=
    fun hs => Option.map_eq_some_iff.mp hs
  cases hok : m.resolve rel with
  | error e =>
    cases op <;>
      simp [touched, Manager.List, Manager.Mkdir, Manager.Chmod, Manager.Save,
        Manager.OpenForDownload, hok, Except.map, acted, made] at hl
  | ok abs =>
    refine ⟨abs, rfl, ?_⟩
    cases op with
    | list =>
      left
      simp only [touched, Manager.List, hok, Except.map, mem_acted] at hl
      exact hstat (Option.filter_eq_some_iff.mp hl).1
    | mkdir =>
      right; right
      simpa only [touched, Manager.Mkdir, hok, Except.map, made] using hl
    | chmod =>
      left
      simp only [touched, Manager.Chmod, hok, Except.map, mem_acted] at hl
      exact hstat hl
    | save =>
      right; left
      simp only [touched, Manager.Save, hok] at hl
      by_cases hroot : abs = m.root
      · rw [if_pos hroot] at hl
        cases hl
      · rw [if_neg hroot, mem_acted] at hl
        obtain ⟨r, hr, heq, -⟩ := OpenFile_eq_some.mp hl
        exact ⟨hroot, r, hr, heq⟩
    | download =>
      left
      simp only [touched, Manager.OpenForDownload, hok] at hl
      cases hopen : Open T abs with
      | none => simp [hopen, acted] at hl
      | some d =>
        simp only [hopen] at hl
        split at hl
        · cases hl
        · rw [mem_acted] at hl
          exact hstat (hopen.trans hl)

/-- What is reached through the root is below it, unless a link leads outside. -/
theorem reached_below {create : Bool} {q : Loc Name × Nat}
    (hq : lookup T create (pathOf (rs ++ ns)) = some q) (hns : create = true → ns ≠ []) :
    ∃ r, lookup T true (pathOf rs) = some r ∧ (FileTree.Confined T r.2 r.1 → r.1 <+: q.1) := by
  have hne : create = true → ns.map PathPart.name ≠ [] :=
    fun hc => mt List.map_eq_nil_iff.mp (hns hc)
  rw [lookup_pathOf, List.map_append, FileTree.walk_append hne] at hq
  obtain ⟨r, hr, hq⟩ := Option.bind_eq_some_iff.mp hq
  refine ⟨r, ?_, fun hc => hc.walk (le_refl _) (List.prefix_refl _) hq⟩
  rw [lookup_pathOf]
  exact FileTree.walk_of_exists hr true

/-- So is what is made, unless directories are missing above the root. -/
theorem made_below (hl : l ∈ (MkdirAll T (pathOf (rs ++ ns))).made) :
    (∃ r, lookup T true (pathOf rs) = some r ∧ (FileTree.Confined T r.2 r.1 → r.1 <+: l)) ∨
      lookup T true (pathOf rs) = none ∧ Missing T (pathOf rs) := by
  rw [MkdirAll_pathOf] at hl
  obtain ⟨ps, a, qs, q, hsplit, hq, hdir, ha, hpre⟩ := FileTree.makeDirs_split hl
  rcases List.append_eq_append_iff.mp hsplit with ⟨ds, rfl, -⟩ | ⟨ds, rfl, hds⟩
  · -- the first missing directory is below the root
    left
    rw [← lookup_pathOf] at hq
    obtain ⟨r, hr, hbelow⟩ := reached_below hq (fun h => by cases h)
    exact ⟨r, hr, fun hc => (hbelow hc).trans ((List.prefix_append _ _).trans hpre)⟩
  · cases ds with
    | nil =>
      left
      rw [List.append_nil]
      rw [← List.append_nil ps, ← lookup_pathOf] at hq
      obtain ⟨r, hr, hbelow⟩ := reached_below hq (fun h => by cases h)
      exact ⟨r, hr, fun hc => (hbelow hc).trans ((List.prefix_append _ _).trans hpre)⟩
    | cons c ds =>
      obtain ⟨rfl, -⟩ := List.cons.inj hds
      have hroot : lookup T true (pathOf (ps ++ a :: ds)) =
          if ds = [] then some (q.1 ++ [a], q.2) else none := by
        rw [lookup_pathOf, List.map_append, List.map_cons, FileTree.walk_append (by simp), hq,
          Option.bind_some, FileTree.walk_missing hdir ha]
        simp
      by_cases hnil : ds = []
      · -- the root is itself the first one
        left
        rw [if_pos hnil] at hroot
        exact ⟨_, hroot, fun _ => hpre⟩
      · right
        rw [if_neg hnil] at hroot
        exact ⟨hroot, ps, a, ds.map Subtype.val, q, pathOf_names ds, by simp [pathOf], hq, hdir, ha⟩

theorem missing_of_made (hR : ∀ n ∈ R, IsName n)
    (hns : ns.map Subtype.val = R.takeWhile ('\x00' ∉ ·))
    (hl : l ∈ (MkdirAll T (pathOf ns)).made) : Missing T (absPath R) := by
  rw [MkdirAll_pathOf] at hl
  obtain ⟨ps, a, qs, q, rfl, hq, hdir, ha, -⟩ := FileTree.makeDirs_split hl
  have hsplit : R = (ps ++ [a]).map Subtype.val ++
      (qs.map Subtype.val ++ R.dropWhile ('\x00' ∉ ·)) := by
    have hR' := List.takeWhile_append_dropWhile (p := ('\x00' ∉ ·)) (l := R)
    rw [← hns] at hR'
    simpa using hR'.symm
  refine ⟨ps, a, _, q, List.forall_mem_append.mpr ⟨pathOf_names qs, fun n hn => ?_⟩,
    congrArg absPath hsplit, hq, hdir, ha⟩
  exact hR n (List.dropWhile_subset _ hn)

/-- With NUL in the path, what is made is on the way to it. -/
theorem made_before {N : List Str} (hR : ∀ n ∈ R, IsName n) (hN : ∀ n ∈ N, IsName n)
    (hnul : '\x00' ∈ absPath (R ++ N)) (hl : l ∈ (MkdirAll T (absPath (R ++ N))).made) :
    (∃ r, lookup T true (absPath R) = some r ∧ (FileTree.Confined T r.2 r.1 → r.1 <+: l)) ∨
      lookup T true (absPath R) = none ∧ Missing T (absPath R) := by
  obtain ⟨rs, hrs⟩ := exists_before hR
  obtain ⟨ns, hns⟩ := exists_before hN
  have hsplit : (R ++ N).takeWhile ('\x00' ∉ ·) = _ := List.takeWhile_append
  split at hsplit
  · -- the root has no NUL: it is met below
    rename_i hlen
    rw [(List.takeWhile_prefix _).eq_of_length hlen] at hrs
    rw [← hns, ← hrs, ← List.map_append] at hsplit
    have hnames := List.forall_mem_append.mpr ⟨hR, hN⟩
    rw [MkdirAll_nul hnames hnul (hsplit.symm.trans (by rw [hrs]))] at hl
    rw [← hrs]
    exact made_below hl
  · rename_i hlen
    have hroot : '\x00' ∈ absPath R := by
      by_contra hno
      have hall := List.takeWhile_eq_self_iff.mpr fun n hn => decide_eq_true (not_nul_of_mem hno n hn)
      exact hlen (congrArg List.length hall)
    rw [MkdirAll_nul (List.forall_mem_append.mpr ⟨hR, hN⟩) hnul (hrs.trans hsplit.symm)] at hl
    exact .inr ⟨lookup_nul hroot, missing_of_made hR hrs hl⟩

theorem touched_below (hroot : m.root = absPath R) (hR : ∀ n ∈ R, IsName n)
    (hl : l ∈ touched m T rel op) :
    (∃ r, lookup T true m.root = some r ∧ (FileTree.Confined T r.2 r.1 → r.1 <+: l)) ∨
      lookup T true m.root = none ∧ Missing T m.root := by
  obtain ⟨abs, hok, hact⟩ := touched_cases hl
  obtain ⟨N, hN, rfl⟩ := resolve_ok hroot hR hok
  have hnames : ∀ n ∈ R ++ N, IsName n := List.forall_mem_append.mpr ⟨hR, hN⟩
  by_cases hnul : '\x00' ∈ absPath (R ++ N)
  · rw [lookup_nul hnul, lookup_nul hnul] at hact
    have hmade := hact.resolve_left (by simp) |>.resolve_left (by simp)
    rw [hroot]
    exact made_before hR hN hnul hmade
  · obtain ⟨ns, hpath, hmap⟩ := exists_names hnames hnul
    obtain ⟨rs, ns, rfl, rfl, rfl⟩ := List.map_eq_append_iff.mp hmap.symm
    have hrs : m.root = pathOf rs := hroot
    rw [hpath, hrs] at hact
    rw [hrs]
    rcases hact with ⟨q, hq, rfl⟩ | ⟨hne, q, hq, rfl⟩ | hmade
    · exact .inl (reached_below hq (fun h => by cases h))
    · refine .inl (reached_below hq fun _ hnil => hne ?_)
      rw [hnil, List.append_nil]
    · exact made_below hmade

/-- Where a link below the root leads, something can be touched through it. -/
theorem link_touched {r q : Loc Name × Nat} {a : Name} (hroot : m.root = pathOf rs) (hne : rs ≠ [])
    (hr : T.walk false maxLinks [] (rs.map .name) = some r)
    (hdir : T.node (r.1 ++ ns) = some .dir)
    (hq : T.walk true r.2 (r.1 ++ ns) [.name a] = some q) :
    ∃ op rel, q.1 ∈ touched m T rel op := by
  have hok : m.resolve (pathOf (ns ++ [a])) = .ok (pathOf (rs ++ (ns ++ [a]))) := by
    have hbelow := resolve_below hroot (pathOf_names rs) (mt List.map_eq_nil_iff.mp hne)
      (pathOf_names (ns ++ [a])) (by simp)
    rw [← List.map_append] at hbelow
    exact hbelow
  have hlookup : ∀ create, lookup T create (pathOf (rs ++ (ns ++ [a]))) =
      T.walk create r.2 (r.1 ++ ns) [.name a] := by
    intro create
    rw [lookup_pathOf, List.map_append, List.map_append, FileTree.walk_append (by simp), hr,
      Option.bind_some, FileTree.walk_append (by simp), FileTree.walk_names hdir rfl]
    rfl
  rcases FileTree.walk_create hq with hnone | hsome
  · -- nothing is there yet: a file can be saved
    refine ⟨.save, pathOf (ns ++ [a]), ?_⟩
    have hfile : T.isDir q.1 = false := by
      cases h : T.isDir q.1 with
      | false => rfl
      | true => rw [FileTree.isDir_iff, hnone] at h; cases h
    have hopen : OpenFile T (pathOf (rs ++ (ns ++ [a]))) = some q.1 := by
      rw [OpenFile, hlookup, hq, Option.map_some, Option.filter_some, hfile]
      rfl
    have hother : pathOf (rs ++ (ns ++ [a])) ≠ m.root := by
      rw [hroot]
      intro heq
      have hlen := congrArg List.length (pathOf_injective heq)
      simp at hlen
    simp only [touched, Manager.Save, hok, if_neg hother, hopen, mem_acted]
  · refine ⟨.chmod, pathOf (ns ++ [a]), ?_⟩
    have hstat : Files.Chmod T (pathOf (rs ++ (ns ++ [a]))) = some q.1 := by
      rw [Files.Chmod, Stat, hlookup, hsome, Option.map_some]
    simp only [touched, Manager.Chmod, hok, Except.map, hstat, mem_acted]

theorem Mkdir_root (hroot : m.root = absPath R) (hR : ∀ n ∈ R, IsName n) :
    m.Mkdir T "" = .ok (MkdirAll T m.root) := by
  have hclean : Clean ("/" ++ TrimPrefix "" "/") = absPath [] := rfl
  have hjoin : Filepath.Join [absPath R, absPath []] = absPath (R ++ []) := Join_absPath hR (by simp)
  have hok : m.resolve "" = .ok m.root := by
    simp only [Manager.resolve, hclean, hroot, hjoin, List.append_nil]
    simp
  rw [Manager.Mkdir, hok]
  rfl

/-- The first directory that is missing is made, whatever comes after it. -/
theorem MkdirAll_missing {ps : List Name} {a : Name} {names : List Str} {r : Loc Name × Nat}
    (hnames : ∀ n ∈ (ps ++ [a]).map Subtype.val ++ names, IsName n)
    (hr : T.walk false maxLinks [] (ps.map .name) = some r) (hdir : T.isDir r.1 = true)
    (ha : T.node (r.1 ++ [a]) = none) :
    r.1 ++ [a] ∈ (MkdirAll T (absPath ((ps ++ [a]).map Subtype.val ++ names))).made := by
  have hbefore : ∀ n ∈ (ps ++ [a]).map Subtype.val, decide ('\x00' ∉ n) = true := by
    intro n hn
    obtain ⟨m, -, rfl⟩ := List.mem_map.mp hn
    exact decide_eq_true m.2.2
  obtain ⟨qs, hqs⟩ := exists_before (List.forall_mem_append.mp hnames).2
  have hfirst : ((ps ++ a :: qs).map Subtype.val : List Str) =
      ((ps ++ [a]).map Subtype.val ++ names).takeWhile ('\x00' ∉ ·) := by
    rw [List.takeWhile_append_of_pos hbefore, ← hqs]
    simp
  have hmade : r.1 ++ [a] ∈ (MkdirAll T (pathOf (ps ++ a :: qs))).made := by
    rw [MkdirAll_pathOf]
    exact FileTree.makeDirs_missing hr hdir ha
  by_cases hnul : '\x00' ∈ absPath ((ps ++ [a]).map Subtype.val ++ names)
  · rw [MkdirAll_nul hnames hnul hfirst]
    exact hmade
  · have hall := List.takeWhile_eq_self_iff.mpr fun n hn =>
      decide_eq_true (not_nul_of_mem hnul n hn)
    rw [hall] at hfirst
    rw [← hfirst]
    exact hmade

theorem not_missing_of_jailed (hjail : Jailed T m) (hnone : lookup T true m.root = none) :
    ¬ Missing T m.root := by
  rintro ⟨ps, a, names, r, hnames, hroot, hr, hdir, ha⟩
  have hR : ∀ n ∈ (ps ++ [a]).map Subtype.val ++ names, IsName n :=
    List.forall_mem_append.mpr ⟨pathOf_names _, hnames⟩
  have hmade : r.1 ++ [a] ∈ touched m T "" .mkdir := by
    rw [touched, Mkdir_root hroot hR, hroot]
    exact MkdirAll_missing hR hr hdir ha
  obtain ⟨r', hr', -⟩ := hjail .mkdir "" _ hmade
  rw [hnone] at hr'
  cases hr'

theorem confined_of_jailed {r : Loc Name × Nat} (hjail : Jailed T m) (hroot : m.root = pathOf rs)
    (hlookup : lookup T true m.root = some r) : FileTree.Confined T r.2 r.1 := by
  intro l a p hl ha q hq
  obtain ⟨ns, rfl⟩ := hl
  by_cases hne : rs = []
  · rw [hroot, hne, lookup_pathOf, List.map_nil, FileTree.walk_nil] at hlookup
    cases hlookup
    exact List.nil_prefix
  · have hr : T.walk false maxLinks [] (rs.map .name) = some r := by
      have hwalk := hlookup
      rw [hroot, lookup_pathOf] at hwalk
      refine (FileTree.walk_create hwalk).resolve_left fun hnone => ?_
      -- there is something below the root, so there is a root
      have hup := FileTree.isDir_of_prefix (l := r.1) (by rw [ha]; simp)
        ((List.prefix_append _ _).trans (List.prefix_append _ _)) (by simp)
      rw [FileTree.isDir_iff, hnone] at hup
      cases hup
    obtain ⟨op, rel, hq⟩ := link_touched hroot hne hr (T.closed _ a (by rw [ha]; simp)) hq
    obtain ⟨r', hr', hpre⟩ := hjail op rel q.1 hq
    rw [hlookup] at hr'
    cases hr'
    exact hpre

/-- The file manager stays below its root exactly when no link there leads outside; without a root,
when no directory on the way to it can be made. -/
theorem jailed_iff (T : FS) (cwd root : Str) (habs : HasPrefix root "/" = true) :
    Jailed T (NewManager cwd root) ↔
      (∃ r, lookup T true (Clean root) = some r ∧ FileTree.Confined T r.2 r.1) ∨
        (lookup T true (Clean root) = none ∧ ¬ Missing T (Clean root)) := by
  have hm : (NewManager cwd root).root = Clean root := if_pos habs
  rw [← hm]
  constructor
  · intro hjail
    cases hlookup : lookup T true (NewManager cwd root).root with
    | none => exact .inr ⟨rfl, not_missing_of_jailed hjail hlookup⟩
    | some r =>
      obtain ⟨rs, hroot⟩ := exists_clean habs fun hnul => by
        rw [hm, lookup_nul hnul] at hlookup
        cases hlookup
      exact .inl ⟨r, rfl, confined_of_jailed hjail (hm.trans hroot) hlookup⟩
  · intro hroots op rel l hl
    obtain ⟨R, hR, hroot⟩ := exists_absPath habs
    rcases touched_below (hm.trans hroot) hR hl with ⟨r, hr, hpre⟩ | ⟨hnone, hmissing⟩
    · rcases hroots with ⟨r', hr', hconf⟩ | ⟨hnone, -⟩
      · rw [hr] at hr'
        cases hr'
        exact ⟨r, hr, hpre hconf⟩
      · rw [hr] at hnone
        cases hnone
    · rcases hroots with ⟨r, hr, -⟩ | ⟨-, hnot⟩
      · rw [hnone] at hr
        cases hr
      · exact absurd hmissing hnot

/-! ## A link that leads outside -/

def srv : Name := ⟨"srv", by decide⟩
def etc : Name := ⟨"etc", by decide⟩
def share : Name := ⟨"share", by decide⟩
def passwd : Name := ⟨"passwd", by decide⟩

/-- `/srv/share` is a link to `/etc`. -/
def linked : FS :=
  .ofEntries
    [([srv], .dir), ([srv, share], .link ⟨true, [.name etc]⟩), ([etc], .dir),
      ([etc, passwd], .file)]
    (by decide)

def photos : Name := ⟨"photos", by decide⟩

/-- `/srv/photos` is a link to `/srv/share`, which is a directory. -/
def linkedInside : FS :=
  .ofEntries
    [([srv], .dir), ([srv, share], .dir), ([srv, photos], .link ⟨true, [.name srv, .name share]⟩)]
    (by decide)

/-- Through the link the list stays below the root, as everything does. -/
theorem inside_jailed :
    touched (NewManager "/" "/srv") linkedInside "photos" .list = [[srv, share]] ∧
      Jailed linkedInside (NewManager "/" "/srv") := by
  refine ⟨by decide +kernel, (jailed_iff linkedInside "/" "/srv" rfl).mpr
    (.inl ⟨([srv], maxLinks), by decide +kernel, ?_⟩)⟩
  intro m a p hm ha q hq
  have hentry := FileTree.ofEntries_mem (by simp) ha
  simp only [List.mem_cons, Prod.mk.injEq, reduceCtorEq, and_false, List.not_mem_nil, or_false,
    false_or] at hentry
  have hloc : m = [srv] ∧ [a] = [photos] := List.append_inj' hentry.1 rfl
  obtain ⟨rfl, hname⟩ := hloc
  obtain rfl := List.singleton_inj.mp hname
  have hwalk : linkedInside.walk true maxLinks [srv] [.name photos] = some ([srv, share], 39) := by
    decide +kernel
  rw [hwalk] at hq
  cases hq
  exact List.prefix_append _ _

/-- A file outside is read through the link. -/
theorem passwd_read : HasPrefix "/srv" "/" = true ∧
    touched (NewManager "/" "/srv") linked "share/passwd" .download = [[etc, passwd]] ∧
    ¬ Jailed linked (NewManager "/" "/srv") := by
  have hread : touched (NewManager "/" "/srv") linked "share/passwd" .download =
      [[etc, passwd]] := by
    decide +kernel
  have hroot : lookup linked true (NewManager "/" "/srv").root = some ([srv], maxLinks) := by
    decide +kernel
  refine ⟨rfl, hread, fun hjail => ?_⟩
  obtain ⟨r, hr, hpre⟩ := hjail .download "share/passwd" [etc, passwd]
    (by rw [hread]; exact List.mem_singleton_self _)
  rw [hroot] at hr
  cases hr
  exact absurd hpre (by decide)

end Filemgr
end Nasd
