import Nasd.Filemgr.Resolve

/-!
# Nasd.Filemgr.Upload

The handler `upload` of `internal/api/handlers.go`: the files of a request are saved one after the
other in the directory asked for, each under the last element of its name. A file that is there
already is overwritten, be it one of the same request.

* `OpenFile_writes`   — what has been saved does not change where the next file goes.
* `bytes_writes`      — a file holds what was written to it last.
* `upload_stores_iff` — when every part of a request is found in the directory afterwards.
-/

namespace Nasd
namespace Filemgr

open Text Go Filepath Dirs Files

/-! ## The handler -/

abbrev Bytes := List UInt8

/-- A part of a request, and the error that stops the copy of its body if there is one. -/
structure Part where
  filename : Str
  body : Bytes
  broken : Option Str

/-- `FileName` of package `mime/multipart`. -/
def Part.FileName (p : Part) : Str := if p.filename = [] then [] else Base p.filename

/-- The parts up to the last boundary; `closed` when that one is there. -/
structure Multipart where
  parts : List Part
  closed : Bool

structure Store where
  tree : FS
  bytes : Loc Name → Bytes

/-- A file is made, or emptied, and written. -/
def Store.write (S : Store) (l : Loc Name) (body : Bytes) : Store :=
  ⟨S.tree.addFile l, Function.update S.bytes l body⟩

/-- `Save` with what it does to the files: how many bytes were copied, or the error. -/
def save (m : Manager) (openError : Str → Str) (S : Store) (rel : Str) (p : Part) :
    Except Str Nat × Store :=
  match m.Save S.tree rel with
  | .error e => (.error e, S)
  | .ok none => (.error (openError rel), S)
  | .ok (some l) =>
    match p.broken with
    | some e => (.error e, S.write l p.body)
    | none => (.ok p.body.length, S.write l p.body)

inductive Answer where
  | created (files : List Str)
  | fail (status : Nat) (message : Str)
  deriving DecidableEq

/-- The name that a part is saved under. -/
def Part.name (p : Part) : Str := Base p.FileName

def uploadFrom (m : Manager) (openError : Str → Str) (dir : Str) (closed : Bool) :
    List Part → List Str → Store → Answer × Store
  | [], saved, S => (if closed then .created saved else .fail 400 "bad_part", S)
  | p :: ps, saved, S =>
    if p.FileName = [] then uploadFrom m openError dir closed ps saved S
    else
      match save m openError S (Filepath.Join [dir, p.name]) p with
      | (.error e, S') => (.fail 422 e, S')
      | (.ok _, S') => uploadFrom m openError dir closed ps (saved ++ [p.name]) S'

def upload (m : Manager) (openError : Str → Str) (dir : Str) (body : Option Multipart) (S : Store) :
    Answer × Store :=
  match body with
  | none => (.fail 400 "bad_multipart", S)
  | some b => uploadFrom m openError dir b.closed b.parts [] S

/-- The parts that are files. -/
def files (b : Multipart) : List Part := b.parts.filter fun p => p.FileName ≠ []

variable {m : Manager} {S S' : Store} {T : FS} {dir path abs : Str} {R : List Str} {l d : Loc Name}
  {p : Part} {ps : List Part} {b : Multipart} {ws : List (Loc Name × Bytes)}

/-! ## Writing -/

theorem write_bytes (body : Bytes) : (S.write l body).bytes = Function.update S.bytes l body := rfl

theorem lookup_addFile : lookup (T.addFile l) true path = lookup T true path := by
  rw [lookup, lookup]
  exact congrArg _ (funext fun cs => FileTree.walk_addFile)

theorem OpenFile_addFile : OpenFile (T.addFile l) path = OpenFile T path := by
  rw [OpenFile, OpenFile, lookup_addFile]
  exact congrArg (fun f => Option.filter f _) (funext fun m => by rw [FileTree.addFile_isDir])

theorem Save_addFile (rel : Str) : m.Save (T.addFile l) rel = m.Save T rel := by
  simp only [Manager.Save, OpenFile_addFile]

/-- The store after some files are written, the last one last. -/
def Store.writes (S : Store) (ws : List (Loc Name × Bytes)) : Store :=
  ws.foldl (fun S w => S.write w.1 w.2) S

theorem writes_cons (w : Loc Name × Bytes) : S.writes (w :: ws) = (S.write w.1 w.2).writes ws := rfl

theorem OpenFile_writes : OpenFile (S.writes ws).tree path = OpenFile S.tree path := by
  induction ws generalizing S with
  | nil => rfl
  | cons w ws ih => rw [writes_cons, ih]; exact OpenFile_addFile

theorem lookup_writes : lookup (S.writes ws).tree true path = lookup S.tree true path := by
  induction ws generalizing S with
  | nil => rfl
  | cons w ws ih => rw [writes_cons, ih]; exact lookup_addFile

theorem isDir_writes : (S.writes ws).tree.isDir l = S.tree.isDir l := by
  induction ws generalizing S with
  | nil => rfl
  | cons w ws ih => rw [writes_cons, ih]; exact FileTree.addFile_isDir

/-- What exists stays. -/
theorem node_writes (hl : S.tree.node l ≠ none) :
    (S.writes ws).tree.node l = S.tree.node l := by
  induction ws generalizing S with
  | nil => rfl
  | cons w ws ih =>
    have hone : (S.write w.1 w.2).tree.node l = S.tree.node l := FileTree.addFile_extends hl
    rw [writes_cons, ih (by rwa [hone]), hone]

/-- What is written is there afterwards. -/
theorem node_written {body : Bytes} (hopen : OpenFile S.tree path = some l) (hl : (l, body) ∈ ws) :
    (S.writes ws).tree.node l ≠ none := by
  induction ws generalizing S with
  | nil => cases hl
  | cons w ws ih =>
    rw [writes_cons]
    rcases List.mem_cons.mp hl with rfl | hl
    · have hnew : (S.write l body).tree.node l ≠ none := by
        obtain ⟨r, hlookup, rfl, -⟩ := OpenFile_eq_some.mp hopen
        obtain ⟨cs, -, hr⟩ := Option.bind_eq_some_iff.mp hlookup
        change (S.tree.addFile r.1).node r.1 ≠ none
        rw [FileTree.addFile_node]
        by_cases hnone : S.tree.node r.1 = none
        · obtain ⟨c, a, hc, hdir⟩ := FileTree.walk_free hr (by rw [S.tree.root]; simp) hnone
          rw [if_pos ⟨rfl, by simp [hc], by rw [hc, List.dropLast_concat, hdir], hnone⟩]
          simp
        · rwa [if_neg (by simp [hnone])]
      rw [node_writes hnew]
      exact hnew
    · exact ih (OpenFile_addFile.trans hopen) hl

/-- A file that is written more than once, always with these bytes, has them. -/
theorem bytes_writes {body : Bytes} (hl : S.bytes l = body ∨ ∃ w ∈ ws, w.1 = l)
    (hall : ∀ w ∈ ws, w.1 = l → w.2 = body) : (S.writes ws).bytes l = body := by
  induction ws generalizing S with
  | nil => exact hl.resolve_right fun ⟨w, hw, _⟩ => absurd hw List.not_mem_nil
  | cons w ws ih =>
    rw [writes_cons]
    refine ih ?_ fun v hv => hall v (List.mem_cons_of_mem _ hv)
    by_cases hw : w.1 = l
    · left
      rw [write_bytes, hw, Function.update_self]
      exact hall w List.mem_cons_self hw
    · rcases hl with hl | ⟨v, hv, hvl⟩
      · left
        rw [write_bytes, Function.update_of_ne (Ne.symm hw)]
        exact hl
      · rcases List.mem_cons.mp hv with rfl | hv
        · exact absurd hvl hw
        · exact .inr ⟨v, hv, hvl⟩

/-! ## The loop -/

/-- Where a part goes. -/
def target (m : Manager) (T : FS) (dir : Str) (p : Part) : Option (Loc Name) :=
  match m.Save T (Filepath.Join [dir, p.name]) with
  | .ok o => o
  | .error _ => none

def writesOf (m : Manager) (T : FS) (dir : Str) (ps : List Part) : List (Loc Name × Bytes) :=
  ps.filterMap fun p => (target m T dir p).map fun l => (l, p.body)

theorem save_ok {openError : Str → Str} {n : Nat}
    (h : save m openError S (Filepath.Join [dir, p.name]) p = (.ok n, S')) :
    ∃ l, target m S.tree dir p = some l ∧ S' = S.write l p.body := by
  unfold save at h
  unfold target
  split at h
  · cases h
  · cases h
  · rename_i l hl
    split at h
    · cases h
    · cases h
      exact ⟨l, by rw [hl], rfl⟩

/-- The other parts go where they would have gone at first. -/
theorem target_write {body : Bytes} (p : Part) :
    target m (S.write l body).tree dir p = target m S.tree dir p := by
  have hsave : m.Save (S.write l body).tree (Filepath.Join [dir, p.name]) =
      m.Save S.tree (Filepath.Join [dir, p.name]) := Save_addFile _
  rw [target, hsave]
  rfl

theorem writesOf_write {body : Bytes} (ps : List Part) :
    writesOf m (S.write l body).tree dir ps = writesOf m S.tree dir ps := by
  simp only [writesOf, target_write]

theorem writesOf_cons (hl : target m T dir p = some l) (ps : List Part) :
    writesOf m T dir (p :: ps) = (l, p.body) :: writesOf m T dir ps := by
  rw [writesOf, List.filterMap_cons, hl]
  rfl

theorem uploadFrom_created {openError : Str → Str} {closed : Bool} {saved names : List Str}
    (h : uploadFrom m openError dir closed ps saved S = (.created names, S')) :
    names = saved ++ (ps.filter fun p => p.FileName ≠ []).map Part.name ∧
    (∀ p ∈ ps.filter fun p => p.FileName ≠ [], ∃ l, target m S.tree dir p = some l) ∧
    S' = S.writes (writesOf m S.tree dir (ps.filter fun p => p.FileName ≠ [])) := by
  induction ps generalizing saved S with
  | nil =>
    unfold uploadFrom at h
    split at h
    · cases h
      exact ⟨(List.append_nil _).symm, fun p hp => absurd hp List.not_mem_nil, rfl⟩
    · cases h
  | cons p ps ih =>
    unfold uploadFrom at h
    by_cases hfile : p.FileName = []
    · rw [if_pos hfile] at h
      rw [List.filter_cons_of_neg (by simpa using hfile)]
      exact ih h
    · rw [if_neg hfile] at h
      rw [List.filter_cons_of_pos (by simpa using hfile)]
      split at h
      · cases h
      · rename_i n S₁ hsave
        obtain ⟨l, hl, rfl⟩ := save_ok hsave
        obtain ⟨hnames, htargets, hS'⟩ := ih h
        refine ⟨?_, ?_, ?_⟩
        · rw [hnames, List.append_assoc]
          rfl
        · intro q hq
          rcases List.mem_cons.mp hq with rfl | hq
          · exact ⟨l, hl⟩
          · obtain ⟨k, hk⟩ := htargets q hq
            exact ⟨k, (target_write q).symm.trans hk⟩
        · rw [hS', writesOf_write, writesOf_cons hl, writes_cons]

/-! ## Paths -/

/-- What is a directory cannot be opened for writing. -/
theorem OpenFile_of_dir (hd : ReadDir T path = some d) : OpenFile T path = none := by
  obtain ⟨r, hlookup, rfl, hdir⟩ := ReadDir_eq_some.mp hd
  obtain ⟨cs, hcs, hr⟩ := Option.bind_eq_some_iff.mp hlookup
  have htrue : lookup T true path = some r := by
    rw [lookup, hcs]
    exact FileTree.walk_of_exists hr true
  rw [OpenFile, htrue, Option.map_some, Option.filter_some, hdir]
  rfl

/-- The last step of a path along names is made from a directory. -/
theorem exists_last_step {create : Bool} {ns : List Str} {n : Str} {r : Loc Name × Nat}
    (hns : ∀ x ∈ ns ++ [n], IsName x)
    (hr : lookup T create (absPath (ns ++ [n])) = some r) :
    ∃ q : Loc Name × Nat, ∃ a : Name, a.1 = n ∧ ReadDir T (absPath ns) = some q.1 ∧
      T.walk create q.2 q.1 [.name a] = some r := by
  have hnul : '\x00' ∉ absPath (ns ++ [n]) := by
    intro hmem
    rw [lookup_nul hmem] at hr
    cases hr
  obtain ⟨xs, hpath, hmap⟩ := exists_names hns hnul
  obtain ⟨as, bs, rfl, rfl, hbs⟩ := List.map_eq_append_iff.mp hmap.symm
  obtain ⟨a, rfl, ha⟩ := List.map_eq_singleton_iff.mp hbs
  rw [hpath, lookup_pathOf, List.map_append, FileTree.walk_append (by simp)] at hr
  obtain ⟨q, hq, hr⟩ := Option.bind_eq_some_iff.mp hr
  have hdir : T.isDir q.1 = true := by
    cases hdir : T.isDir q.1 with
    | true => rfl
    | false => rw [List.map_singleton, FileTree.walk_not_dir hdir] at hr; cases hr
  have hstat : lookup T false (absPath (as.map Subtype.val)) = some q := lookup_pathOf.trans hq
  exact ⟨q, a, ha, ReadDir_eq_some.mpr ⟨q, hstat, rfl, hdir⟩, hr⟩

/-- A name that is no link stands for the entry of the directory. -/
theorem last_plain {create : Bool} {ns : List Str} {n : Str} {r : Loc Name × Nat}
    (hns : ∀ x ∈ ns ++ [n], IsName x) (hd : ReadDir T (absPath ns) = some d)
    (hplain : ∀ a n, T.node (d ++ [a]) = some n → n.isLink = false)
    (hr : lookup T create (absPath (ns ++ [n])) = some r) :
    ∃ a : Name, a.1 = n ∧ r.1 = d ++ [a] := by
  obtain ⟨q, a, ha, hq, hr⟩ := exists_last_step hns hr
  rw [hd, Option.some.injEq] at hq
  subst hq
  refine ⟨a, ha, (FileTree.walk_one hr).resolve_right ?_⟩
  rintro ⟨p, hp⟩
  cases hplain a _ hp

/-- Every request but that of the root can be saved to. -/
theorem Save_eq (hroot : m.root = absPath R) (hR : ∀ n ∈ R, IsName n) (hne : R ≠ []) (rel : Str) :
    m.Save T rel = if normalised rel = [] then .error "percorso non valido"
      else .ok (OpenFile T (absPath (R ++ normalised rel))) := by
  have hsame : absPath (R ++ normalised rel) = absPath R ↔ normalised rel = [] := by
    constructor
    · intro h
      have hparts := congrArg (cleanParts true) h
      rw [cleanParts_absPath (List.forall_mem_append.mpr ⟨hR, normalised_names rel⟩),
        cleanParts_absPath hR] at hparts
      simpa using hparts
    · intro h
      rw [h, List.append_nil]
  simp only [Manager.Save, resolve_absPath hroot hR hne rel, hroot, hsame]

/-- Below the root directory nothing is let through. -/
theorem Save_root (hroot : m.root = absPath []) (rel : Str) : ∃ e, m.Save T rel = .error e := by
  have hnames := normalised_names rel
  have hjoin : Filepath.Join [absPath [], absPath (normalised rel)] = absPath (normalised rel) :=
    Join_absPath (by simp) hnames
  simp only [Manager.Save, Manager.resolve, Clean_request, hroot, hjoin]
  by_cases hnil : normalised rel = []
  · rw [hnil]
    exact ⟨_, rfl⟩
  · have hother : absPath (normalised rel) ≠ absPath [] := by
      intro h
      have hparts := congrArg (cleanParts true) h
      rw [cleanParts_absPath hnames] at hparts
      exact hnil hparts
    have houtside : HasPrefix (absPath (normalised rel)) (absPath [] ++ "/") = false := by
      rw [Bool.eq_false_iff, ne_eq, HasPrefix_iff]
      obtain ⟨n, ns, hns⟩ := List.exists_cons_of_ne_nil hnil
      rw [hns, absPath_cons]
      rintro ⟨u, hu⟩
      obtain ⟨hn, hslash, -⟩ := hnames n (by simp [hns])
      obtain ⟨c, cs, rfl⟩ := List.exists_cons_of_ne_nil hn
      have hc : '/' = c := by
        have htwo := congrArg (fun t => t[1]?) hu
        simpa using htwo
      exact hslash (hc ▸ List.mem_cons_self)
    simp only [houtside, ne_eq, hother, not_false_eq_true, Bool.not_false, and_self, if_true]
    exact ⟨_, rfl⟩

/-! ## Stored parts -/

/-- What stands under a name in the directory asked for: a file in that very directory, with these
bytes. -/
def Stored (m : Manager) (S : Store) (dir name : Str) (body : Bytes) : Prop :=
  ∃ abs d l, m.resolve dir = .ok abs ∧ ReadDir S.tree abs = some d ∧
    Open S.tree (abs ++ '/' :: name) = some l ∧ S.tree.isDir l = false ∧ l.dropLast = d ∧
    S.bytes l = body

/-- The names are those of entries, none is a link to somewhere else, and the parts that come to one
file have the same bytes. -/
structure Apart (m : Manager) (T : FS) (dir : Str) (b : Multipart) : Prop where
  names : ∀ p ∈ files b, IsName p.name
  inside : ∀ p ∈ files b, ∀ abs d l, m.resolve dir = .ok abs → ReadDir T abs = some d →
    OpenFile T (abs ++ '/' :: p.name) = some l → l.dropLast = d
  same : ∀ p ∈ files b, ∀ q ∈ files b, ∀ abs l, m.resolve dir = .ok abs →
    OpenFile T (abs ++ '/' :: p.name) = some l → OpenFile T (abs ++ '/' :: q.name) = some l →
      p.body = q.body

theorem child_path (hne : R ≠ []) (n : Str) :
    absPath (R ++ normalised dir) ++ '/' :: n = absPath (R ++ normalised dir ++ [n]) :=
  (absPath_concat (by simp [hne]) n).symm

theorem child_names (hR : ∀ n ∈ R, IsName n) {n : Str} (hn : IsName n) :
    ∀ x ∈ R ++ normalised dir ++ [n], IsName x := by
  rw [List.forall_mem_append, List.forall_mem_append, List.forall_mem_singleton]
  exact ⟨⟨hR, normalised_names dir⟩, hn⟩

theorem ReadDir_writes (hd : ReadDir S.tree path = some d) :
    ReadDir (S.writes ws).tree path = some d := by
  obtain ⟨r, hlookup, rfl, hdir⟩ := ReadDir_eq_some.mp hd
  obtain ⟨cs, hcs, hr⟩ := Option.bind_eq_some_iff.mp hlookup
  have hmore : lookup (S.writes ws).tree false path = some r := by
    rw [lookup, hcs]
    exact FileTree.walk_extend (fun l hl => node_writes hl) hr
  exact ReadDir_eq_some.mpr ⟨r, hmore, rfl, isDir_writes.trans hdir⟩

/-- A file that was written is found by the path it was written to. -/
theorem Open_writes {body : Bytes} (hl : OpenFile S.tree path = some l) (hw : (l, body) ∈ ws) :
    Open (S.writes ws).tree path = some l ∧ (S.writes ws).tree.isDir l = false := by
  obtain ⟨r, hlookup, rfl, hfile⟩ := OpenFile_eq_some.mp hl
  have hlookup' : lookup (S.writes ws).tree true path = some r := lookup_writes.trans hlookup
  obtain ⟨cs, hcs, hr⟩ := Option.bind_eq_some_iff.mp hlookup'
  have hthere := (FileTree.walk_create hr).resolve_left (node_written hl hw)
  have hfound : lookup (S.writes ws).tree false path = some r := by
    rw [lookup, hcs]
    exact hthere
  exact ⟨by rw [Open, Stat, hfound, Option.map_some], isDir_writes.trans hfile⟩

theorem mem_writesOf (hp : p ∈ ps) (hl : target m T dir p = some l) :
    (l, p.body) ∈ writesOf m T dir ps :=
  List.mem_filterMap.mpr ⟨p, hp, by rw [hl]; rfl⟩

section

variable (hroot : m.root = absPath R) (hR : ∀ n ∈ R, IsName n) (hne : R ≠ [])
include hroot hR hne

theorem target_name (hname : IsName p.name) :
    target m T dir p = OpenFile T (absPath (R ++ normalised dir) ++ '/' :: p.name) := by
  have hother : normalised (Filepath.Join [dir, p.name]) ≠ [] := by
    rw [normalised_Join hname]
    simp
  rw [target, Save_eq hroot hR hne, if_neg hother, normalised_Join hname, child_path hne,
    List.append_assoc]

theorem target_eq (hl : target m T dir p = some l) :
    OpenFile T (absPath (R ++ normalised (Filepath.Join [dir, p.name]))) = some l ∧
      normalised (Filepath.Join [dir, p.name]) ≠ [] := by
  rw [target, Save_eq hroot hR hne] at hl
  by_cases hnil : normalised (Filepath.Join [dir, p.name]) = []
  · rw [if_pos hnil] at hl
    cases hl
  · rw [if_neg hnil] at hl
    exact ⟨hl, hnil⟩

/-- A part whose name is no name of an entry is saved over the directory, or over the one above. -/
theorem name_of_dir (hl : target m T dir p = some l)
    (hd : ReadDir T (absPath (R ++ normalised dir)) = some d) : IsName p.name := by
  obtain ⟨hopen, hnot⟩ := target_eq hroot hR hne hl
  have hself : normalised (Filepath.Join [dir, p.name]) ≠ normalised dir := by
    intro hsame
    rw [hsame, OpenFile_of_dir hd] at hopen
    cases hopen
  rcases Base_cases p.FileName with hbase | hbase | hbase | hname
  · refine absurd ?_ hself
    rw [Part.name, hbase, normalised_Join_slash]
  · refine absurd ?_ hself
    rw [Part.name, hbase, normalised_Join_here]
  · have hup : normalised (Filepath.Join [dir, p.name]) = (normalised dir).dropLast := by
      rw [Part.name, hbase, normalised_Join_up]
    have hdir : normalised dir ≠ [] := by
      intro hnil
      rw [hup, hnil] at hnot
      exact hnot rfl
    have hsplit : R ++ normalised dir =
        R ++ (normalised dir).dropLast ++ [(normalised dir).getLast hdir] := by
      rw [List.append_assoc, List.dropLast_concat_getLast]
    have hnames : ∀ x ∈ R ++ (normalised dir).dropLast ++ [(normalised dir).getLast hdir],
        IsName x := by
      rw [← hsplit, List.forall_mem_append]
      exact ⟨hR, normalised_names dir⟩
    rw [hsplit] at hd
    obtain ⟨r, hr, -, -⟩ := ReadDir_eq_some.mp hd
    obtain ⟨c, -, -, hc, -⟩ := exists_last_step hnames hr
    rw [hup, OpenFile_of_dir hc] at hopen
    cases hopen
  · exact hname

/-- The directory of a part that was saved. -/
theorem ReadDir_of_target (hname : IsName p.name) (hl : target m T dir p = some l) :
    ∃ d, ReadDir T (absPath (R ++ normalised dir)) = some d := by
  rw [target_name hroot hR hne hname, child_path hne] at hl
  obtain ⟨r, hr, -, -⟩ := OpenFile_eq_some.mp hl
  obtain ⟨q, -, -, hq, -⟩ := exists_last_step (child_names hR hname) hr
  exact ⟨q.1, hq⟩

theorem resolve_eq {abs : Str} (h : m.resolve dir = .ok abs) :
    abs = absPath (R ++ normalised dir) := by
  rw [resolve_absPath hroot hR hne, Except.ok.injEq] at h
  exact h.symm

theorem Open_target (hp : p ∈ ps) (hl : target m S.tree dir p = some l) (hname : IsName p.name) :
    Open (S.writes (writesOf m S.tree dir ps)).tree
        (absPath (R ++ normalised dir) ++ '/' :: p.name) = some l ∧
      (S.writes (writesOf m S.tree dir ps)).tree.isDir l = false := by
  have hopen := hl
  rw [target_name hroot hR hne hname] at hopen
  exact Open_writes hopen (mem_writesOf hp hl)

/-- What is stored has been written in the directory, and not over since. -/
theorem written_of_stored (hp : p ∈ ps) (hl : target m S.tree dir p = some l)
    (hstored : Stored m (S.writes (writesOf m S.tree dir ps)) dir p.name p.body) :
    IsName p.name ∧
      (∀ d, ReadDir S.tree (absPath (R ++ normalised dir)) = some d → l.dropLast = d) ∧
      (S.writes (writesOf m S.tree dir ps)).bytes l = p.body := by
  obtain ⟨abs, d, l', hres, hd, hopen, -, hlast, hbytes⟩ := hstored
  obtain rfl := resolve_eq hroot hR hne hres
  -- where the part goes is the same in the store that it was saved to
  have hl' : target m (S.writes (writesOf m S.tree dir ps)).tree dir p = some l := by
    rw [target, Save_eq hroot hR hne, OpenFile_writes, ← Save_eq hroot hR hne]
    exact hl
  have hname := name_of_dir hroot hR hne hl' hd
  rw [(Open_target hroot hR hne hp hl hname).1, Option.some.injEq] at hopen
  subst hopen
  refine ⟨hname, fun c hc => ?_, hbytes⟩
  rw [ReadDir_writes hc, Option.some.injEq] at hd
  rw [hlast, hd]

theorem apart_of_stored (htargets : ∀ p ∈ files b, ∃ l, target m S.tree dir p = some l)
    (hstored : ∀ p ∈ files b,
      Stored m (S.writes (writesOf m S.tree dir (files b))) dir p.name p.body) :
    Apart m S.tree dir b := by
  have hfound : ∀ p ∈ files b, ∀ abs l, m.resolve dir = .ok abs →
      OpenFile S.tree (abs ++ '/' :: p.name) = some l →
        (∀ d, ReadDir S.tree abs = some d → l.dropLast = d) ∧
          (S.writes (writesOf m S.tree dir (files b))).bytes l = p.body := by
    intro p hp abs l hres hopen
    obtain rfl := resolve_eq hroot hR hne hres
    obtain ⟨k, hk⟩ := htargets p hp
    obtain ⟨hname, hlast, hbytes⟩ := written_of_stored hroot hR hne hp hk (hstored p hp)
    rw [target_name hroot hR hne hname, hopen, Option.some.injEq] at hk
    subst hk
    exact ⟨hlast, hbytes⟩
  refine ⟨fun p hp => ?_, fun p hp abs d l hres hd hopen => ?_,
    fun p hp q hq abs l hres hpl hql => ?_⟩
  · obtain ⟨l, hl⟩ := htargets p hp
    exact (written_of_stored hroot hR hne hp hl (hstored p hp)).1
  · exact (hfound p hp abs l hres hopen).1 d hd
  · rw [← (hfound p hp abs l hres hpl).2, ← (hfound q hq abs l hres hql).2]

theorem stored_of_apart (htargets : ∀ p ∈ files b, ∃ l, target m S.tree dir p = some l)
    (hapart : Apart m S.tree dir b) (hp : p ∈ files b) :
    Stored m (S.writes (writesOf m S.tree dir (files b))) dir p.name p.body := by
  have hok : m.resolve dir = .ok (absPath (R ++ normalised dir)) := resolve_absPath hroot hR hne dir
  obtain ⟨l, hl⟩ := htargets p hp
  have hname := hapart.names p hp
  obtain ⟨hopen, hfile⟩ := Open_target hroot hR hne hp hl hname
  obtain ⟨d, hd⟩ := ReadDir_of_target hroot hR hne hname hl
  have hl₀ := hl
  rw [target_name hroot hR hne hname] at hl₀
  refine ⟨_, d, l, hok, ReadDir_writes hd, hopen, hfile, hapart.inside p hp _ d l hok hd hl₀, ?_⟩
  refine bytes_writes (.inr ⟨_, mem_writesOf hp hl, rfl⟩) fun w hw hwl => ?_
  obtain ⟨q, hq, hqw⟩ := List.mem_filterMap.mp hw
  obtain ⟨k, hk, rfl⟩ := Option.map_eq_some_iff.mp hqw
  have hkl : k = l := hwl
  subst hkl
  rw [target_name hroot hR hne (hapart.names q hq)] at hk
  exact hapart.same q hq p hp _ k hok hk hl₀

end

/-- Without a link under the names only equal names come to one file. -/
theorem apart_of_plain (hroot : m.root = absPath R) (hR : ∀ n ∈ R, IsName n) (hne : R ≠ [])
    (hd : ReadDir T (absPath (R ++ normalised dir)) = some d)
    (hplain : ∀ a n, T.node (d ++ [a]) = some n → n.isLink = false)
    (hnames : ∀ p ∈ files b, IsName p.name)
    (hsame : ∀ p ∈ files b, ∀ q ∈ files b, p.name = q.name → p.body = q.body) :
    Apart m T dir b := by
  have hok : m.resolve dir = .ok (absPath (R ++ normalised dir)) := resolve_absPath hroot hR hne dir
  have hchild : ∀ p ∈ files b, ∀ l,
      OpenFile T (absPath (R ++ normalised dir) ++ '/' :: p.name) = some l →
        ∃ a : Name, a.1 = p.name ∧ l = d ++ [a] := by
    intro p hp l hl
    obtain ⟨r, hr, rfl, -⟩ := OpenFile_eq_some.mp hl
    exact last_plain (child_names hR (hnames p hp)) hd hplain (child_path hne _ ▸ hr)
  refine ⟨hnames, fun p hp abs c l hres hc hl => ?_, fun p hp q hq abs l hres hpl hql => ?_⟩
  · rw [hok] at hres
    cases hres
    obtain ⟨a, -, rfl⟩ := hchild p hp l hl
    rw [hd, Option.some.injEq] at hc
    rw [List.dropLast_concat, hc]
  · rw [hok] at hres
    cases hres
    obtain ⟨a, ha, rfl⟩ := hchild p hp l hpl
    obtain ⟨c, hc, heq⟩ := hchild q hq _ hql
    have hac : a = c := by simpa using heq
    exact hsame p hp q hq (by rw [← ha, hac, hc])

/-- A request that is answered 201 has its parts stored exactly when they keep apart. -/
theorem upload_stores_iff (cwd : Str) {root : Str} (habs : HasPrefix root "/" = true)
    (openError : Str → Str) {dir : Str} {b : Multipart} {S S' : Store} {names : List Str}
    (h : upload (NewManager cwd root) openError dir (some b) S = (.created names, S')) :
    (names = (files b).map Part.name ∧
      ∀ p ∈ files b, Stored (NewManager cwd root) S' dir p.name p.body) ↔
    Apart (NewManager cwd root) S.tree dir b := by
  obtain ⟨hnames, htargets, rfl⟩ := uploadFrom_created h
  have hreported : names = (files b).map Part.name := hnames
  obtain ⟨R, hR, hclean⟩ := exists_absPath habs
  have hroot : (NewManager cwd root).root = absPath R := by
    rw [NewManager, Abs, if_pos habs, hclean]
  rw [and_iff_right hreported]
  by_cases hne : R = []
  · subst hne
    -- nothing can be saved right below the root directory
    have hnone : files b = [] := by
      refine List.eq_nil_iff_forall_not_mem.mpr fun p hp => ?_
      obtain ⟨l, hl⟩ := htargets p hp
      obtain ⟨e, he⟩ := Save_root (T := S.tree) hroot (Filepath.Join [dir, p.name])
      rw [target, he] at hl
      cases hl
    rw [hnone]
    refine ⟨fun _ => ⟨?_, ?_, ?_⟩, fun _ p hp => absurd hp List.not_mem_nil⟩ <;>
      · intro p hp
        rw [hnone] at hp
        cases hp
  · exact ⟨apart_of_stored hroot hR hne htargets,
      fun hapart p hp => stored_of_apart hroot hR hne htargets hapart hp⟩

/-! ## Requests -/

def nas : Name := ⟨"nas", by decide⟩

/-- The root of the manager, and nothing in it. -/
def empty : Store :=
  ⟨.ofEntries [([srv], .dir), ([srv, nas], .dir)] (by decide), fun _ => []⟩

/-- Two files of one name in different directories of the sender. -/
def sameName : Multipart :=
  ⟨[⟨"jan/a.txt", [1], none⟩, ⟨"feb/a.txt", [2], none⟩], true⟩

def parentName : Multipart := ⟨[⟨"..", [1], none⟩], true⟩

/-- The first file is overwritten by the second. A file of the name `..` for a directory that is
missing becomes the entry above it. -/
theorem upload_stores_twice :
    ((upload (NewManager "/" "/srv/nas") id "/" (some sameName) empty).1 =
        .created [("a.txt" : Str), "a.txt"] ∧
      ¬ Stored (NewManager "/" "/srv/nas")
        (upload (NewManager "/" "/srv/nas") id "/" (some sameName) empty).2 "/" "a.txt" [1]) ∧
    (upload (NewManager "/" "/srv/nas") id "/a/b" (some parentName) empty).1 =
        .created [(".." : Str)] ∧
      ¬ Stored (NewManager "/" "/srv/nas")
        (upload (NewManager "/" "/srv/nas") id "/a/b" (some parentName) empty).2
        "/a/b" ".." [1] := by
  refine ⟨⟨by decide +kernel, ?_⟩, by decide +kernel, ?_⟩
  · rintro ⟨abs, d, l, hres, -, hopen, -, -, hbytes⟩
    have habs : (NewManager "/" "/srv/nas").resolve "/" = .ok "/srv/nas" := by decide +kernel
    rw [habs] at hres
    cases hres
    have hfile : Open (upload (NewManager "/" "/srv/nas") id "/" (some sameName) empty).2.tree
        ("/srv/nas" ++ '/' :: "a.txt") = some [srv, nas, ⟨"a.txt", by decide⟩] := by decide +kernel
    rw [hfile] at hopen
    cases hopen
    revert hbytes
    decide +kernel
  · rintro ⟨abs, d, l, hres, hd, -⟩
    have habs : (NewManager "/" "/srv/nas").resolve "/a/b" = .ok "/srv/nas/a/b" := by decide +kernel
    rw [habs] at hres
    cases hres
    have hnone : ReadDir
        (upload (NewManager "/" "/srv/nas") id "/a/b" (some parentName) empty).2.tree
        "/srv/nas/a/b" = none := by decide +kernel
    rw [hnone] at hd
    cases hd

def twoNames : Multipart :=
  ⟨[⟨"a.txt", [1], none⟩, ⟨"", [9], none⟩, ⟨"b.txt", [2], none⟩], true⟩

theorem upload_stores_apart :
    (upload (NewManager "/" "/srv/nas") id "/" (some twoNames) empty).1 =
      .created [("a.txt" : Str), "b.txt"] ∧
    ∀ p ∈ files twoNames, Stored (NewManager "/" "/srv/nas")
      (upload (NewManager "/" "/srv/nas") id "/" (some twoNames) empty).2 "/" p.name p.body := by
  have hcreated : (upload (NewManager "/" "/srv/nas") id "/" (some twoNames) empty).1 =
      .created [("a.txt" : Str), "b.txt"] := by decide +kernel
  have hplain : ∀ a n, empty.tree.node ([srv, nas] ++ [a]) = some n → n.isLink = false := by
    intro a n hn
    have hmem := FileTree.ofEntries_mem (h := by decide) (by simp) hn
    simp at hmem
  have hapart : Apart (NewManager "/" "/srv/nas") empty.tree "/" twoNames :=
    apart_of_plain (R := ["srv", "nas"]) (by decide +kernel) (by decide) (by simp)
      (by decide +kernel) hplain (by decide +kernel) (by decide +kernel)
  exact ⟨hcreated, ((upload_stores_iff "/" (rfl : HasPrefix "/srv/nas" "/" = true) id
    (Prod.ext hcreated rfl)).mpr hapart).2⟩

end Filemgr
end Nasd
