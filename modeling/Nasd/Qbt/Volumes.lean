import Mathlib.Data.List.Perm.Basic
import Nasd.Files

/-!
# Nasd.Qbt.Volumes

The directories that qBittorrent may use, `internal/qbt/configure.go`: a path is made clean, the
links on the part of it that exists are resolved, and the outcome has to be in a volume.

* `canonExisting_found` — what becomes of a path of which a part exists.
* `holds_iff`           — the paths in a volume.
* `reached_in_volume`, `made_in_volume`, `arrived_in_volume` — a clean path that is let through
  leads into the volume, as it is and once its directories are made.
-/

namespace Nasd
namespace Qbt

open Text Go Filepath Dirs Files

/-- A volume as the listing of the file systems reports it. -/
structure Volume where
  name : Str
  mountPoint : Str
  freeBytes : Int
  deriving DecidableEq

/-- A volume mounted on a directory of the tree, of which the kernel reports the path. -/
structure Mounted (T : FS) where
  volume : Volume
  dir : Loc Name
  isDir : T.isDir dir = true
  path : volume.mountPoint = pathOf dir

/-! ## Paths in the volumes -/

/-- The loop of `canonExisting`: up to a part that exists, through its links, and the names left. -/
def canonFrom (T : FS) (p : Str) (suffix : List Str) : Str × List Str :=
  if (Lstat T p).isSome then ((EvalSymlinks T p).getD p, suffix)
  else if Dir p = p then (p, suffix)
  else canonFrom T (Dir p) (Base p :: suffix)
termination_by if p = "." then 0 else p.length + 1
decreasing_by
  rename_i hup
  have hroot : p ≠ "/" := fun h => hup (h ▸ Dir_root)
  have hdot : p ≠ "." := fun h => hup (h ▸ rfl)
  rw [if_neg hdot]
  rcases Dir_shorter hroot with hend | hshorter
  · rw [if_pos hend]; omega
  · split <;> omega

def canonExisting (T : FS) (path : Str) : Str :=
  match canonFrom T path [] with
  | (p, []) => p
  | (p, n :: suffix) => Filepath.Join (p :: n :: suffix)

def holds (real : Str) (v : Volume) : Bool :=
  real = Clean v.mountPoint || HasPrefix (real ++ "/") (Clean v.mountPoint ++ "/")

def badPath (path : Str) : Bool := path = [] || !HasPrefix path "/" || path.contains '\x00'

def resolveInVolumes (T : FS) (vols : List Volume) (path : Str) : Except Str Volume :=
  if badPath path then .error "invalid path"
  else match vols.find? (holds (canonExisting T (Clean path))) with
    | some v => .ok v
    | none => .error "path is outside data volumes"

/-! ## Browse and Mkdir -/

/-- The volumes, or the directory that is listed. -/
inductive Listing where
  | volumes (entries : List (Str × Str))
  | dir (l : Option (Loc Name))
  deriving DecidableEq

def Browse (T : FS) (vols : List Volume) (path : Str) : Except Str Listing :=
  if path = [] then .ok (.volumes (vols.map fun v => (v.name, v.mountPoint)))
  else match resolveInVolumes T vols path with
    | .error e => .error e
    | .ok _ => .ok (.dir (ReadDir T path))

/-- The length of a name is counted in bytes. -/
def validName (name : Str) : Bool :=
  !(name = [] || (name.flatMap String.utf8EncodeChar).length > 255 || name = "." || name = "..") &&
    !(ContainsAny name "/\x00" || Contains name "..")

/-- The path with what `os.MkdirAll` makes of it; when it arrives nowhere, that is the error. -/
def Mkdir (T : FS) (vols : List Volume) (parent name : Str) :
    Except Str (Str × FileTree.Made Name) :=
  if !validName name then .error "invalid folder name"
  else match resolveInVolumes T vols parent with
    | .error e => .error e
    | .ok _ =>
      let dst := Filepath.Join [parent, name]
      match resolveInVolumes T vols dst with
      | .error e => .error e
      | .ok _ =>
        if (Stat T dst).isSome then .error "folder already exists"
        else .ok (dst, MkdirAll T dst)

/-! ## Validate -/

inductive Key where
  | temp_dir
  | torfile_dir
  | downloads_dir
  deriving DecidableEq

def Key.text : Key → Str
  | .temp_dir => "temp_dir"
  | .torfile_dir => "torfile_dir"
  | .downloads_dir => "downloads_dir"

/-- The three directories of a configuration. -/
structure Folders where
  tempDir : Str
  torfileDir : Str
  downloadsDir : Str
  deriving DecidableEq

def Folders.get (d : Folders) : Key → Str
  | .temp_dir => d.tempDir
  | .torfile_dir => d.torfileDir
  | .downloads_dir => d.downloadsDir

/-- The order in which the map of the directories yields its keys. -/
structure Order where
  keys : List Key
  perm : keys.Perm [.temp_dir, .torfile_dir, .downloads_dir]

def keysInOrder : Order := ⟨[.temp_dir, .torfile_dir, .downloads_dir], .refl _⟩

structure ValidateResult where
  ok : Bool
  errors : List Str
  warnings : List Str
  free : List (Key × Int)

def checkDir (T : FS) (vols : List Volume) (d : Folders) (key : Key) : Except Str Volume :=
  if d.get key = [] then .error (key.text ++ ": required")
  else match resolveInVolumes T vols (d.get key) with
    | .error e => .error (key.text ++ ": " ++ e)
    | .ok v => .ok v

def errorOf : Except Str Volume → Option Str
  | .error e => some e
  | .ok _ => none

def Validate (T : FS) (vols : List Volume) (order : Order) (d : Folders) : ValidateResult :=
  let checked := order.keys.map fun key => (key, checkDir T vols d key)
  let errors := checked.filterMap (fun c => errorOf c.2) ++
    if d.tempDir ≠ [] ∧ d.tempDir = d.downloadsDir then
      [("temp_dir and downloads_dir must be different" : Str)] else []
  { ok := errors.isEmpty
    errors
    warnings :=
      if d.torfileDir ≠ [] ∧ (d.torfileDir = d.tempDir ∨ d.torfileDir = d.downloadsDir) then
        [("torfile_dir coincides with another directory" : Str)] else []
    free := checked.filterMap fun c => c.2.toOption.map fun v => (c.1, v.freeBytes) }

/-! ## What the check sees -/

variable {T : FS} {vols : List Volume} {v : Mounted T} {path : Str} {as bs cs ns : List Name}
  {r : Loc Name × Nat} {l : Loc Name}

/-- The loop stops at the longest part that exists. -/
theorem canonFrom_names {ps qs : List Str} (hnames : ∀ n ∈ ps ++ qs, IsName n) (suffix : List Str)
    (hfound : (Lstat T (absPath ps)).isSome = true)
    (hrest : ∀ qs', qs' ≠ [] → qs' <+: qs → Lstat T (absPath (ps ++ qs')) = none) :
    canonFrom T (absPath (ps ++ qs)) suffix =
      ((EvalSymlinks T (absPath ps)).getD (absPath ps), qs ++ suffix) := by
  induction qs using List.reverseRecOn generalizing suffix with
  | nil => rw [List.append_nil, canonFrom, if_pos hfound]; rfl
  | append_singleton qs q ih =>
    have hnone := hrest (qs ++ [q]) (by simp) (List.prefix_refl _)
    have hq : IsName q := hnames q (by simp)
    have hnames' : ∀ n ∈ ps ++ qs, IsName n := by
      intro n hn
      refine hnames n ?_
      rw [← List.append_assoc]
      exact List.mem_append_left _ hn
    have hdir : Dir (absPath (ps ++ (qs ++ [q]))) = absPath (ps ++ qs) := by
      rw [← List.append_assoc, Dir_absPath hnames' hq.2.1]
    have hbase : Base (absPath (ps ++ (qs ++ [q]))) = q := by
      rw [← List.append_assoc, Base_absPath hq]
    have hup : Dir (absPath (ps ++ (qs ++ [q]))) ≠ absPath (ps ++ (qs ++ [q])) := by
      rw [hdir]
      intro heq
      have hparts := congrArg (cleanParts true) heq
      rw [cleanParts_absPath hnames', cleanParts_absPath hnames] at hparts
      have hlen := congrArg List.length hparts
      simp at hlen
    rw [canonFrom, hnone, if_neg (by simp), if_neg hup, hdir, hbase,
      ih hnames' _ fun qs' hne hpre => hrest qs' hne (hpre.trans (List.prefix_append _ _)),
      List.append_assoc]
    rfl

theorem canonFrom_found (suffix : List Str) (hfound : (Lstat T (pathOf as)).isSome = true)
    (hrest : ∀ bs', bs' ≠ [] → bs' <+: bs → Lstat T (pathOf (as ++ bs')) = none) :
    canonFrom T (pathOf (as ++ bs)) suffix =
      ((EvalSymlinks T (pathOf as)).getD (pathOf as), bs.map Subtype.val ++ suffix) := by
  have hrest' : ∀ qs', qs' ≠ [] → qs' <+: bs.map Subtype.val →
      Lstat T (absPath (as.map Subtype.val ++ qs')) = none := by
    rintro qs' hne ⟨rest, hqs⟩
    obtain ⟨bs', rest', rfl, rfl, -⟩ := List.map_eq_append_iff.mp hqs.symm
    rw [← List.map_append]
    exact hrest bs' (fun h => hne (by rw [h]; rfl)) (List.prefix_append _ _)
  have hnames := pathOf_names (as ++ bs)
  rw [List.map_append] at hnames
  rw [pathOf, List.map_append]
  exact canonFrom_names hnames suffix hfound hrest'

theorem canonExisting_found (hfound : (Lstat T (pathOf as)).isSome = true)
    (hrest : ∀ bs', bs' ≠ [] → bs' <+: bs → Lstat T (pathOf (as ++ bs')) = none)
    (hcs : (EvalSymlinks T (pathOf as)).getD (pathOf as) = pathOf cs) :
    canonExisting T (pathOf (as ++ bs)) = pathOf (cs ++ bs) := by
  rw [canonExisting, canonFrom_found [] hfound hrest, hcs, List.append_nil]
  cases bs with
  | nil => rw [List.append_nil]; rfl
  | cons b bs =>
    have hjoin := Join_names (pathOf_names cs) (pathOf_names (b :: bs)) (List.cons_ne_nil _ _)
    rw [← List.map_append] at hjoin
    exact hjoin

theorem exists_longest (T : FS) (names : List Str) : ∃ ps qs, names = ps ++ qs ∧
    (Lstat T (absPath ps)).isSome = true ∧
    ∀ qs', qs' ≠ [] → qs' <+: qs → Lstat T (absPath (ps ++ qs')) = none := by
  induction names using List.reverseRecOn with
  | nil =>
    have hroot : Lstat T (absPath []) = some [] := Lstat_root
    refine ⟨[], [], rfl, by rw [hroot]; rfl, fun qs' hne hpre => ?_⟩
    exact absurd (List.prefix_nil.mp hpre) hne
  | append_singleton names n ih =>
    cases hn : (Lstat T (absPath (names ++ [n]))).isSome with
    | true =>
      refine ⟨names ++ [n], [], by simp, hn, fun qs' hne hpre => ?_⟩
      exact absurd (List.prefix_nil.mp hpre) hne
    | false =>
      obtain ⟨ps, qs, rfl, hfound, hrest⟩ := ih
      refine ⟨ps, qs ++ [n], by simp, hfound, fun qs' hne hpre => ?_⟩
      rcases List.prefix_concat_iff.mp hpre with rfl | hpre
      · rw [← List.append_assoc]
        simpa using hn
      · exact hrest qs' hne hpre

theorem exists_found (T : FS) (ns : List Name) : ∃ as bs, ns = as ++ bs ∧
    (Lstat T (pathOf as)).isSome = true ∧
    ∀ bs', bs' ≠ [] → bs' <+: bs → Lstat T (pathOf (as ++ bs')) = none := by
  obtain ⟨ps, qs, hsplit, hfound, hrest⟩ := exists_longest T (ns.map Subtype.val)
  obtain ⟨as, bs, rfl, rfl, rfl⟩ := List.map_eq_append_iff.mp hsplit
  refine ⟨as, bs, rfl, hfound, fun bs' hne hpre => ?_⟩
  rw [pathOf, List.map_append]
  exact hrest _ (fun h => hne (List.map_eq_nil_iff.mp h)) (hpre.map _)

/-- The check sees the path of some location. -/
theorem exists_canon (T : FS) (ns : List Name) : ∃ cs, canonExisting T (pathOf ns) = pathOf cs := by
  obtain ⟨as, bs, rfl, hfound, hrest⟩ := exists_found T ns
  cases hreal : EvalSymlinks T (pathOf as) with
  | none => exact ⟨as ++ bs, canonExisting_found hfound hrest (by rw [hreal]; rfl)⟩
  | some real =>
    obtain ⟨r, -, rfl⟩ := Option.map_eq_some_iff.mp (EvalSymlinks_pathOf ▸ hreal)
    exact ⟨r.1 ++ bs, canonExisting_found hfound hrest (by rw [hreal]; rfl)⟩

theorem holds_iff : holds (pathOf cs) v.volume = true ↔
    v.dir <+: cs ∧ (v.dir = [] → cs = []) := by
  have hclean : Clean v.volume.mountPoint = pathOf v.dir := by
    rw [v.path, pathOf, Clean_absPath (pathOf_names v.dir)]
  rw [holds, hclean, Bool.or_eq_true, decide_eq_true_eq, HasPrefix_iff, pathOf_slash_prefix]
  constructor
  · rintro (heq | hpre)
    · rw [pathOf_injective heq]
      exact ⟨List.prefix_refl _, id⟩
    · exact hpre
  · exact .inr

/-- The location that a clean path leads to is in the volume that the path is let through for. -/
theorem reached_in_volume (hv : holds (canonExisting T (pathOf ns)) v.volume = true)
    (hr : T.walk false maxLinks [] (ns.map .name) = some r) : v.dir <+: r.1 := by
  have hreal : (EvalSymlinks T (pathOf ns)).getD (pathOf ns) = pathOf r.1 := by
    rw [EvalSymlinks_of_walk hr]
    rfl
  have hcanon : canonExisting T (pathOf (ns ++ [])) = pathOf (r.1 ++ []) :=
    canonExisting_found (Lstat_of_walk hr)
      (fun bs' hne hpre => absurd (List.prefix_nil.mp hpre) hne) hreal
  rw [List.append_nil, List.append_nil] at hcanon
  rw [hcanon] at hv
  exact (holds_iff.mp hv).1

/-- So is the directory in which the first name is missing. -/
theorem missing_in_volume {ps qs : List Name} {a : Name}
    (hv : holds (canonExisting T (pathOf (ps ++ a :: qs))) v.volume = true)
    (hr : T.walk false maxLinks [] (ps.map .name) = some r) (hdir : T.isDir r.1 = true)
    (ha : T.node (r.1 ++ [a]) = none) : v.dir <+: r.1 := by
  have hreal : (EvalSymlinks T (pathOf ps)).getD (pathOf ps) = pathOf r.1 := by
    rw [EvalSymlinks_of_walk hr]
    rfl
  have hmissing : ∀ bs', bs' ≠ [] → bs' <+: a :: qs → Lstat T (pathOf (ps ++ bs')) = none := by
    intro bs' hne hbs
    obtain ⟨b, bs', rfl⟩ := List.exists_cons_of_ne_nil hne
    obtain ⟨rfl, -⟩ := List.cons_prefix_cons.mp hbs
    exact Lstat_missing hr hdir ha
  rw [canonExisting_found (Lstat_of_walk hr) hmissing hreal] at hv
  -- the volume is a directory, and there is none beyond the missing name
  exact FileTree.above_missing v.isDir (holds_iff.mp hv).1 ha

/-- And so are the directories made, and the place where they lead. -/
theorem made_in_volume (hv : holds (canonExisting T (pathOf ns)) v.volume = true)
    (hl : l ∈ (T.makeDirs maxLinks [] (ns.map .name)).made) : v.dir <+: l := by
  obtain ⟨ps, a, qs, r, rfl, hr, hdir, ha, hpre⟩ := FileTree.makeDirs_split hl
  exact (missing_in_volume hv hr hdir ha).trans ((List.prefix_append _ _).trans hpre)

theorem arrived_in_volume (hv : holds (canonExisting T (pathOf ns)) v.volume = true)
    (hr : (T.makeDirs maxLinks [] (ns.map .name)).arrived = some r) : v.dir <+: r.1 := by
  rcases FileTree.makeDirs_arrives hr with hwalk | ⟨ps, a, qs, q, rfl, hq, hdir, ha, hpre⟩
  · exact reached_in_volume hv hwalk
  · exact (missing_in_volume hv hq hdir ha).trans ((List.prefix_append _ _).trans hpre)

/-! ## Browse and Mkdir stay inside -/

/-- The location is in one of the volumes. -/
def Inside (vs : List (Mounted T)) (l : Loc Name) : Prop := ∃ v ∈ vs, v.dir <+: l

def listed : Except Str Listing → List (Loc Name)
  | .ok (.dir (some l)) => [l]
  | _ => []

def made : Except Str (Str × FileTree.Made Name) → List (Loc Name)
  | .ok (_, out) => out.made
  | .error _ => []

/-- The innermost directory for which a volume would let the path through. -/
def innermost (T : FS) (path : Str) : Option (Loc Name) :=
  if badPath path then none
  else if T.deepest [] (locOf (canonExisting T (Clean path))) = [] ∧
      locOf (canonExisting T (Clean path)) ≠ [] then none
  else some (T.deepest [] (locOf (canonExisting T (Clean path))))

variable {vs : List (Mounted T)} {parent name : Str} {d : Loc Name}

theorem badPath_iff : badPath path = false ↔
    path ≠ [] ∧ HasPrefix path "/" = true ∧ '\x00' ∉ path := by
  simp [badPath, and_assoc]

theorem exists_seen (hbad : badPath path = false) :
    ∃ ns cs, Clean path = pathOf ns ∧ canonExisting T (Clean path) = pathOf cs := by
  obtain ⟨-, habs, hnul⟩ := badPath_iff.mp hbad
  obtain ⟨ns, hclean⟩ := exists_clean habs fun h => hnul (mem_of_mem_Clean habs h)
  obtain ⟨cs, hcanon⟩ := exists_canon T ns
  exact ⟨ns, cs, hclean, hclean ▸ hcanon⟩

theorem resolve_ok_iff : (∃ w, resolveInVolumes T (vs.map Mounted.volume) path = .ok w) ↔
    badPath path = false ∧ ∃ v ∈ vs, holds (canonExisting T (Clean path)) v.volume = true := by
  unfold resolveInVolumes
  cases hbad : badPath path with
  | true => simp
  | false =>
    rw [if_neg (by simp)]
    cases hfind : (vs.map Mounted.volume).find? (holds (canonExisting T (Clean path))) with
    | none =>
      rw [List.find?_eq_none] at hfind
      simpa using hfind
    | some w =>
      have hmem := List.mem_of_find?_eq_some hfind
      have hholds := List.find?_some hfind
      obtain ⟨v, hv, rfl⟩ := List.mem_map.mp hmem
      exact ⟨fun _ => ⟨rfl, v, hv, hholds⟩, fun _ => ⟨_, rfl⟩⟩

theorem innermost_of_holds (hbad : badPath path = false)
    (hv : holds (canonExisting T (Clean path)) v.volume = true) :
    ∃ d, innermost T path = some d ∧ v.dir <+: d := by
  obtain ⟨ns, cs, -, hcanon⟩ := exists_seen (T := T) hbad
  rw [hcanon] at hv
  obtain ⟨hpre, hroot⟩ := holds_iff.mp hv
  have hdeep : v.dir <+: T.deepest [] cs := by
    have hbelow := FileTree.prefix_deepest (l := []) (by simpa using v.isDir) hpre
    rwa [List.nil_append] at hbelow
  refine ⟨T.deepest [] cs, ?_, hdeep⟩
  rw [innermost, hbad, hcanon, locOf_pathOf, if_neg (by simp), if_neg]
  rintro ⟨hnil, hcs⟩
  rw [hnil] at hdeep
  exact hcs (hroot (List.prefix_nil.mp hdeep))

theorem holds_innermost (hd : innermost T path = some d) :
    badPath path = false ∧ T.isDir d = true ∧
      ∀ v : Mounted T, v.dir = d → holds (canonExisting T (Clean path)) v.volume = true := by
  unfold innermost at hd
  split at hd
  · cases hd
  · rename_i hbad
    rw [Bool.not_eq_true] at hbad
    split at hd
    · cases hd
    · rename_i hroot
      cases hd
      obtain ⟨ns, cs, -, hcanon⟩ := exists_seen (T := T) hbad
      rw [hcanon, locOf_pathOf] at hroot ⊢
      refine ⟨hbad, FileTree.deepest_isDir FileTree.isDir_root, fun v hv => ?_⟩
      rw [holds_iff, hv]
      have hpre : T.deepest [] cs <+: [] ++ cs := FileTree.deepest_prefix
      refine ⟨hpre, fun hnil => ?_⟩
      by_contra hcs
      exact hroot ⟨hnil, hcs⟩

/-- A volume mounted on a directory. -/
def mountOn (d : Loc Name) (hd : T.isDir d = true) : Mounted T := ⟨⟨[], pathOf d, 0⟩, d, hd, rfl⟩

theorem Browse_listed : l ∈ listed (Browse T vols path) ↔
    (∃ w, resolveInVolumes T vols path = .ok w) ∧ ReadDir T path = some l := by
  have hread : l ∈ listed (.ok (.dir (ReadDir T path))) ↔ ReadDir T path = some l := by
    cases ReadDir T path with
    | none => simp [listed]
    | some d => simp [listed, eq_comm]
  unfold Browse
  by_cases hnil : path = []
  · subst hnil
    rw [if_pos rfl]
    simp [listed, resolveInVolumes, badPath]
  · rw [if_neg hnil]
    cases resolveInVolumes T vols path with
    | error e => simp [listed]
    | ok w => simpa using hread

/-- `Browse` lists directories of the volumes only, whichever they are, exactly when the path leads
below the innermost directory. -/
theorem browse_inside_iff :
    (∀ vs : List (Mounted T), ∀ l ∈ listed (Browse T (vs.map Mounted.volume) path), Inside vs l) ↔
      ∀ d l, innermost T path = some d → ReadDir T path = some l → d <+: l := by
  constructor
  · intro hinside d l hd hl
    obtain ⟨hbad, hdir, hholds⟩ := holds_innermost hd
    have hok : ∃ w, resolveInVolumes T ([mountOn d hdir].map Mounted.volume) path = .ok w :=
      resolve_ok_iff.mpr ⟨hbad, mountOn d hdir, List.mem_singleton_self _, hholds _ rfl⟩
    obtain ⟨v, hv, hpre⟩ := hinside [mountOn d hdir] l (Browse_listed.mpr ⟨hok, hl⟩)
    rw [List.mem_singleton.mp hv] at hpre
    exact hpre
  · intro hbelow vs l hl
    obtain ⟨hok, hread⟩ := Browse_listed.mp hl
    obtain ⟨hbad, v, hv, hholds⟩ := resolve_ok_iff.mp hok
    obtain ⟨d, hd, hpre⟩ := innermost_of_holds hbad hholds
    exact ⟨v, hv, hpre.trans (hbelow d l hd hread)⟩

theorem Join_rooted (name : Str) (habs : HasPrefix parent "/" = true) :
    Filepath.Join [parent, name] = Clean (parent ++ '/' :: name) ∧
      HasPrefix (parent ++ '/' :: name) "/" = true := by
  obtain ⟨rest, rfl⟩ := HasPrefix_iff.mp habs
  have hdrop : [("/" : Str) ++ rest, name].dropWhile (· = []) = [("/" : Str) ++ rest, name] :=
    List.dropWhile_cons_of_neg (by simp)
  refine ⟨?_, rfl⟩
  rw [Filepath.Join, hdrop]
  simp only [Join_cons_cons, Join_singleton]
  rfl

/-- The path that `Mkdir` makes is clean. -/
theorem Mkdir_made (hl : l ∈ made (Mkdir T (vs.map Mounted.volume) parent name)) :
    ∃ ns, l ∈ (T.makeDirs maxLinks [] (ns.map .name)).made ∧
      ∃ v ∈ vs, holds (canonExisting T (pathOf ns)) v.volume = true := by
  unfold Mkdir at hl
  split at hl
  · cases hl
  · cases hparent : resolveInVolumes T (vs.map Mounted.volume) parent with
    | error e => simp only [hparent] at hl; cases hl
    | ok w =>
      obtain ⟨hbad, -⟩ := resolve_ok_iff.mp ⟨w, hparent⟩
      obtain ⟨-, habs, -⟩ := badPath_iff.mp hbad
      obtain ⟨hjoin, hrooted⟩ := Join_rooted name habs
      simp only [hparent, hjoin] at hl
      cases hdst : resolveInVolumes T (vs.map Mounted.volume) (Clean (parent ++ '/' :: name)) with
      | error e => simp only [hdst] at hl; cases hl
      | ok w =>
        obtain ⟨hbad, v, hv, hholds⟩ := resolve_ok_iff.mp ⟨w, hdst⟩
        obtain ⟨ns, hns⟩ := exists_clean hrooted (badPath_iff.mp hbad).2.2
        have hclean : Clean (pathOf ns) = pathOf ns := Clean_absPath (pathOf_names ns)
        rw [hns, hclean] at hholds
        simp only [hdst] at hl
        split at hl
        · cases hl
        · rw [made, hns, MkdirAll_pathOf] at hl
          exact ⟨ns, hl, v, hv, hholds⟩

theorem mkdir_inside : ∀ l ∈ made (Mkdir T (vs.map Mounted.volume) parent name), Inside vs l := by
  intro l hl
  obtain ⟨ns, hmade, v, hv, hholds⟩ := Mkdir_made hl
  exact ⟨v, hv, made_in_volume hholds hmade⟩

end Qbt
end Nasd
