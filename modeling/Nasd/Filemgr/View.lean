import Nasd.Filemgr.Refine
import Mathlib.Data.Nat.Bitwise

/-!
# Nasd.Filemgr.View

The page of the files, `FilesView` of `frontend/src/js/app.js`, on the answers of `List`. A folder
is opened by the path that its row has, and a listing that arrives late is shown all the same, under
the path of another folder.

* `rwx_value`     — the nine letters of the permissions read back.
* `listing_after`, `chmod_shown` — what a listing says is what is in the folder, after any run.
* `FilesView.step`— the page, one event after the other; the answers arrive in any order.
* `page_acts`     — whatever the order, every row, every step of the path and every name typed in
  stands for the place it is shown at.
-/

namespace Nasd
namespace Filemgr

open Text Go Filepath Dirs Files

/-! ## Permissions -/

/-- The letters of some permissions, for as many of the lowest bits. -/
def letters : Str → Nat → Str
  | [], _ => []
  | c :: cs, v => (if v.testBit cs.length then c else '-') :: letters cs v

/-- `FileMode.String` of the permissions alone. -/
def permString (v : Nat) : Str := '-' :: letters "rwxrwxrwx" v

/-- The number that the letters stand for. -/
def readLetters (s : Str) : Nat := s.foldl (fun n c => 2 * n + if c = '-' then 0 else 1) 0

theorem foldl_letters {cs : Str} (hcs : '-' ∉ cs) (v n : Nat) :
    (letters cs v).foldl (fun n c => 2 * n + if c = '-' then 0 else 1) n =
      2 ^ cs.length * n + v % 2 ^ cs.length := by
  induction cs generalizing n with
  | nil => simp [letters, Nat.mod_one]
  | cons c cs ih =>
    have hc : c ≠ '-' := fun heq => hcs (heq ▸ List.mem_cons_self)
    have hbit : v.testBit cs.length = decide (v / 2 ^ cs.length % 2 = 1) :=
      Nat.testBit_eq_decide_div_mod_eq
    rw [letters, List.foldl_cons, ih (fun hmem => hcs (List.mem_cons_of_mem _ hmem)),
      List.length_cons, Nat.mod_pow_succ, hbit, Nat.pow_succ]
    rcases Nat.mod_two_eq_zero_or_one (v / 2 ^ cs.length) with h | h
    · simp only [h, zero_ne_one, decide_false, Bool.false_eq_true, if_false, if_true, Nat.mul_zero,
        Nat.add_zero, Nat.mul_assoc]
    · simp only [h, decide_true, if_true, if_neg hc, Nat.mul_one, Nat.mul_add, Nat.mul_assoc,
        Nat.add_assoc, Nat.add_comm (2 ^ cs.length)]

theorem rwx_value (v : Nat) : readLetters (letters "rwxrwxrwx" v) = v % 0o1000 := by
  rw [readLetters, foldl_letters (by decide)]
  simp

/-! ## Listings -/

def Item.isDir : Item → Bool
  | .dir _ => true
  | .file _ _ => false

def Item.mode : Item → Nat
  | .dir mode => mode
  | .file mode _ => mode

/-- The size of a file; that of a folder says nothing. -/
def Item.size : Item → Int
  | .dir _ => 0
  | .file _ b => b.length

/-- What the kernel says of an entry. -/
structure Describes (i : Item) (it : DirEntry) (info : FileInfo) : Prop where
  kind : it.IsDir = i.isDir
  known : it.Info = some info
  perm : info.Perm = permString i.mode
  size : ∀ mode b, i = .file mode b → info.Size = b.length

/-- `os.ReadDir` of the disk: each entry of the directory, once it is asked about. -/
structure Reads (D : Disk) (readDir : Str → Except Str (List DirEntry)) : Prop where
  dir : ∀ path d, ReadDir D.tree path = some d → ∃ items, readDir path = .ok items ∧
    (∀ it ∈ items, ∃ (a : Name) (i : Item) (info : FileInfo), it.Name = a.1 ∧
      D.item (d ++ [a]) = some i ∧ Describes i it info) ∧
    ∀ a, D.item (d ++ [a]) ≠ none → ∃ it ∈ items, it.Name = a.1
  other : ∀ path, ReadDir D.tree path = none → ∃ e, readDir path = .error e

variable {m : Manager} {D : Disk} {rs : List Name} {rel : Str} {l : Loc Name}
  {readDir : Str → Except Str (List DirEntry)}

/-- A listing has the items of a folder, each with its name, a path that leads to it, its
permissions and its size, and no others. -/
structure Shows (F : Folder) (l : Loc Name) (es : List Entry) : Prop where
  sound : ∀ e ∈ es, ∃ a i, e.Name = a.1 ∧ place e.Path = some (l ++ [a]) ∧
    F.item (l ++ [a]) = some i ∧ e.IsDir = i.isDir ∧ readLetters e.Mode = i.mode % 0o1000 ∧
    ∀ mode b, i = .file mode b → e.Size = b.length
  complete : ∀ a, F.item (l ++ [a]) ≠ none → ∃ e ∈ es, e.Name = a.1

theorem place_Join {a : Name} (hplace : place rel = some l) :
    place (Filepath.Join [rel, a.1]) = some (l ++ [a]) := by
  have hnames : normalised (Filepath.Join [rel, a.1]) = (l ++ [a]).map Subtype.val := by
    rw [normalised_Join a.2.1, place_eq_some hplace, List.map_append]
    rfl
  have hpath : absPath (normalised (Filepath.Join [rel, a.1])) = pathOf (l ++ [a]) := by
    rw [hnames]
    rfl
  rw [place, hpath, if_neg (nul_not_mem_pathOf _), locOf_pathOf]

/-- There is a listing of each folder, and of nothing else. -/
theorem entries_view (hroot : m.root = pathOf rs) (hne : rs ≠ []) (hplain : PlainRoot D.tree rs)
    (hreads : Reads D readDir) (hplace : place rel = some l) :
    ((view rs D).isDir l = false ∧ ∃ e, entries m readDir rel = .error e) ∨
    ((view rs D).isDir l = true ∧ ∃ es, entries m readDir rel = .ok es ∧
      Shows (view rs D) l es) := by
  have hok := resolve_place hroot hne hplace
  have hread : ReadDir D.tree (pathOf (rs ++ l)) =
      if D.tree.isDir (rs ++ l) then some (rs ++ l) else none := by
    rw [ReadDir, Stat_below hplain]
    cases hn : D.tree.node (rs ++ l) with
    | none => simp [FileTree.isDir, hn]
    | some n => cases hdir : D.tree.isDir (rs ++ l) <;> simp [hdir]
  rw [isDir_view]
  cases hdir : D.tree.isDir (rs ++ l) with
  | false =>
    left
    rw [hdir] at hread
    obtain ⟨e, he⟩ := hreads.other _ hread
    refine ⟨rfl, e, ?_⟩
    simp only [entries, hok, he, Except.map]
  | true =>
    right
    rw [hdir] at hread
    obtain ⟨items, hitems, hsound, hcomplete⟩ := hreads.dir _ _ hread
    refine ⟨rfl, _, by simp only [entries, hok, hitems, Except.map]; rfl, ⟨?_, ?_⟩⟩
    · intro e he
      obtain ⟨it, hit, hinfo⟩ := List.mem_filterMap.mp he
      obtain ⟨a, i, info, hname, hitem, hdesc⟩ := hsound it hit
      rw [hdesc.known, Option.map_some, Option.some.injEq] at hinfo
      subst hinfo
      refine ⟨a, i, hname, ?_, ?_, hdesc.kind, ?_, hdesc.size⟩
      · dsimp only
        rw [hname]
        exact place_Join hplace
      · rw [← hitem, List.append_assoc]
        rfl
      · dsimp only
        rw [hdesc.perm]
        exact rwx_value i.mode
    · intro a ha
      have hsome : D.item (rs ++ l ++ [a]) ≠ none := by
        rwa [List.append_assoc]
      obtain ⟨it, hit, hname⟩ := hcomplete a hsome
      obtain ⟨_, i, info, -, -, hdesc⟩ := hsound it hit
      have hentry : (⟨it.Name, Filepath.Join [rel, it.Name], it.IsDir, info.Size, info.Perm.drop 1,
          info.ModTime⟩ : Entry) ∈ items.filterMap fun it => it.Info.map fun info =>
            ⟨it.Name, Filepath.Join [rel, it.Name], it.IsDir, info.Size, info.Perm.drop 1,
              info.ModTime⟩ := by
        refine List.mem_filterMap.mpr ⟨it, hit, ?_⟩
        rw [hdesc.known]
        rfl
      exact ⟨_, hentry, hname⟩

/-- The listing of a disk on which there are no other names. -/
def readDirOf (D : Disk) (names : List Name) (path : Str) : Except Str (List DirEntry) :=
  match ReadDir D.tree path with
  | none => .error "open"
  | some d =>
    .ok <| names.filterMap fun a => (D.item (d ++ [a])).map fun i =>
      ⟨a.1, i.isDir, some ⟨i.size, permString i.mode, 0⟩⟩

theorem reads_readDirOf {names : List Name} (h : ∀ d a, D.item (d ++ [a]) ≠ none → a ∈ names) :
    Reads D (readDirOf D names) := by
  refine ⟨fun path d hd => ⟨_, by rw [readDirOf, hd], ?_, ?_⟩,
    fun path hd => ⟨_, by rw [readDirOf, hd]⟩⟩
  · intro it hit
    obtain ⟨a, -, hmap⟩ := List.mem_filterMap.mp hit
    obtain ⟨i, hi, rfl⟩ := Option.map_eq_some_iff.mp hmap
    refine ⟨a, i, _, rfl, hi, rfl, rfl, rfl, ?_⟩
    rintro mode b rfl
    rfl
  · intro a ha
    obtain ⟨i, hi⟩ := Option.ne_none_iff_exists'.mp ha
    exact ⟨_, List.mem_filterMap.mpr ⟨a, h d a ha, by rw [hi]; rfl⟩, rfl⟩

theorem chmod_tree (h : Host) (body : Option (Str × Str)) :
    (FileHandlers.chmod h m D body).2.tree = D.tree := by
  rcases body with - | ⟨path, mode⟩
  · rfl
  · unfold FileHandlers.chmod
    dsimp only
    split
    · rfl
    · split
      · rfl
      · split <;> rfl

/-! ### A listing -/

def docs : Name := ⟨"docs", by decide⟩

/-- A folder in the root. -/
def shelf : Disk :=
  ⟨⟨.ofEntries [([srv], .dir), ([srv, nas], .dir), ([srv, nas, docs], .dir)] (by decide),
    fun _ => []⟩, fun _ => 0o755, []⟩

theorem shelf_plain : PlainRoot shelf.tree [srv, nas] := by
  refine ⟨by decide, fun l n hl hn => ?_⟩
  by_cases hnil : l = []
  · rw [hnil, shelf.tree.root] at hn
    cases hn
    rfl
  · have hmem := FileTree.ofEntries_mem (h := by decide) hnil hn
    simp only [List.mem_cons, Prod.mk.injEq, List.not_mem_nil, or_false] at hmem
    rcases hmem with ⟨-, rfl⟩ | ⟨-, rfl⟩ | ⟨-, rfl⟩ <;> rfl

theorem shelf_names {D : Disk} (htree : D.tree = shelf.tree) (d : Loc Name) (a : Name)
    (h : D.item (d ++ [a]) ≠ none) : a ∈ [srv, nas, docs] := by
  have hnode : shelf.tree.node (d ++ [a]) ≠ none := by
    rw [← htree]
    intro hnone
    rw [Disk.item, hnone] at h
    exact h rfl
  obtain ⟨n, hn⟩ := Option.ne_none_iff_exists'.mp hnode
  have hmem := FileTree.ofEntries_mem (h := by decide) (by simp) hn
  have hlast : ∀ (ks : Loc Name) {c : Name}, d ++ [a] = ks ++ [c] → a = c := fun ks _ heq => by
    simpa using (List.append_inj' heq rfl).2
  simp only [List.mem_cons, Prod.mk.injEq, List.not_mem_nil, or_false] at hmem
  rcases hmem with ⟨heq, -⟩ | ⟨heq, -⟩ | ⟨heq, -⟩
  · obtain rfl : a = srv := hlast [] heq
    simp
  · obtain rfl : a = nas := hlast [srv] heq
    simp
  · obtain rfl : a = docs := hlast [srv, nas] heq
    simp

def joinPath (base name : Str) : Str := (if HasSuffix base "/" then base else base ++ "/") ++ name

/-- The place of the last slash, from one. -/
def lastSlash (s : Str) : Nat := (s.rdropWhile (· ≠ '/')).length

def parentPath (p : Str) : Str :=
  if lastSlash (p.rdropWhile (· = '/')) ≤ 1 then "/"
  else p.take (lastSlash (p.rdropWhile (· = '/')) - 1)

def segments (path : Str) : List Str := (path.splitOn '/').filter (· ≠ [])

/-- The path of a step of the breadcrumb. -/
def crumb (path : Str) (i : Nat) : Str := "/" ++ Go.Join ((segments path).take (i + 1)) "/"

/-- The page: the path shown, the rows, the paths that are ticked, the listings asked for, and the
paths at which operations have begun. -/
structure FilesView where
  path : Str
  entries : Option (List Entry)
  selected : List Str
  loads : List Str
  acts : List Str

namespace FilesView

def start : FilesView := ⟨"/", none, [], ["/"], []⟩

def rows (v : FilesView) : List Entry := v.entries.getD []

def load (v : FilesView) (p : Str) : FilesView := { v with selected := [], loads := v.loads ++ [p] }

/-- The effect of the page runs when the path is another one. -/
def setPath (v : FilesView) (p : Str) : FilesView :=
  if p = v.path then v else load { v with path := p } p

inductive Event where
  | answer (i : Nat) (es : Option (List Entry))
  | enter (row : Nat)
  | crumb (i : Nat)
  | root
  | select (row : Nat) (on : Bool)
  | begin
  | finish (i : Nat) (ok : Bool)

def step (v : FilesView) : Event → FilesView
  | .answer i es =>
    if i < v.loads.length then
      { v with loads := v.loads.eraseIdx i, entries := es.or v.entries }
    else v
  | .enter row =>
    match v.rows[row]? with
    | some e => if e.IsDir then v.setPath e.Path else v
    | none => v
  | .crumb i => if i < (segments v.path).length then v.setPath (Filemgr.crumb v.path i) else v
  | .root => v.setPath "/"
  | .select row on =>
    match v.rows[row]? with
    | some e =>
      { v with selected :=
          if on then e.Path :: v.selected.filter (· ≠ e.Path) else v.selected.filter (· ≠ e.Path) }
    | none => v
  | .begin => { v with acts := v.acts ++ [v.path] }
  | .finish i ok =>
    match v.acts[i]? with
    | none => v
    | some p =>
      if ok then load { v with acts := v.acts.eraseIdx i } p
      else { v with acts := v.acts.eraseIdx i }

/-- A listing that arrives is that of the path it was asked for, at some time. -/
def Listed (m : Manager) (v : FilesView) : Event → Prop
  | .answer i (some es) => ∀ p, v.loads[i]? = some p →
    ∃ readDir, Filemgr.entries m readDir p = .ok es ∧ ∀ e ∈ es, IsName e.Name
  | _ => True

/-! ### Places -/

def Clean (p : Str) : Prop := ∃ ns : List Str, (∀ n ∈ ns, IsName n) ∧ p = absPath ns

def Child (p name : Str) : Prop :=
  ∃ ks : List Str, (∀ n ∈ ks, IsName n) ∧ IsName name ∧ p = absPath (ks ++ [name])

structure Inv (v : FilesView) : Prop where
  path : Clean v.path
  loads : ∀ p ∈ v.loads, Clean p
  acts : ∀ p ∈ v.acts, Clean p
  rows : ∀ e ∈ v.rows, Child e.Path e.Name
  selected : ∀ p ∈ v.selected, ∃ name, Child p name

variable {v : FilesView} {m : Manager} {R ns ks : List Str} {name : Str}

theorem Child.clean {p : Str} (h : Child p name) : Clean p := by
  obtain ⟨ks, hks, hname, rfl⟩ := h
  exact ⟨ks ++ [name], List.forall_mem_append.mpr ⟨hks, by simpa using hname⟩, rfl⟩

theorem clean_root : Clean "/" := ⟨[], by simp, rfl⟩

theorem segments_absPath (h : ∀ n ∈ ns, IsName n) : segments (absPath ns) = ns := by
  have hfull : ns.filter (· ≠ []) = ns :=
    List.filter_eq_self.mpr fun n hn => by simpa using (h n hn).1
  by_cases hne : ns = []
  · subst hne
    rfl
  · rw [segments, splitOn_absPath hne fun n hn => (h n hn).2.1]
    exact hfull

theorem crumb_absPath (h : ∀ n ∈ ns, IsName n) (i : Nat) :
    Filemgr.crumb (absPath ns) i = absPath (ns.take (i + 1)) := by
  rw [Filemgr.crumb, segments_absPath h]
  rfl

theorem HasSuffix_absPath (hne : ns ≠ []) (h : ∀ n ∈ ns, IsName n) :
    HasSuffix (absPath ns) "/" = false := by
  obtain ⟨ks, n, rfl⟩ := (List.eq_nil_or_concat ns).resolve_left hne
  rw [List.concat_eq_append] at h ⊢
  obtain ⟨hn, hslash, -⟩ := h n (by simp)
  rw [HasSuffix, Bool.eq_false_iff, ne_eq, List.isSuffixOf_iff_suffix]
  intro hsuf
  obtain ⟨u, c, rfl⟩ := (List.eq_nil_or_concat n).resolve_left hn
  rw [List.concat_eq_append] at hslash hsuf
  have hlast : (absPath (ks ++ [u ++ [c]])).getLast? = some c := by
    by_cases hks : ks = []
    · subst hks
      have hsplit : absPath ([] ++ [u ++ [c]]) = ('/' :: u) ++ [c] := by simp [absPath]
      rw [hsplit, List.getLast?_concat]
    · rw [absPath_concat hks, ← List.cons_append, ← List.append_assoc, List.getLast?_concat]
  obtain ⟨w, hw⟩ := hsuf
  rw [← hw, show ("/" : Str) = ['/'] from rfl, List.getLast?_concat, Option.some.injEq] at hlast
  exact hslash (by simp [← hlast])

theorem joinPath_absPath (h : ∀ n ∈ ns, IsName n) (name : Str) :
    joinPath (absPath ns) name = absPath (ns ++ [name]) := by
  unfold joinPath
  by_cases hne : ns = []
  · subst hne
    simp [absPath, HasSuffix]
  · rw [HasSuffix_absPath hne h, if_neg (by simp), absPath_concat hne, List.append_assoc]
    rfl

theorem parentPath_absPath (hks : ∀ n ∈ ks, IsName n) (hname : IsName name) :
    parentPath (absPath (ks ++ [name])) = absPath ks := by
  have hnames : ∀ n ∈ ks ++ [name], IsName n :=
    List.forall_mem_append.mpr ⟨hks, by simpa using hname⟩
  have htrim : (absPath (ks ++ [name])).rdropWhile (· = '/') = absPath (ks ++ [name]) := by
    rw [List.rdropWhile_eq_self_iff]
    intro hl hlast
    have hsuf := HasSuffix_absPath (by simp) hnames
    rw [HasSuffix, Bool.eq_false_iff, ne_eq, List.isSuffixOf_iff_suffix] at hsuf
    refine hsuf ⟨(absPath (ks ++ [name])).dropLast, ?_⟩
    have hcut := List.dropLast_concat_getLast hl
    rw [of_decide_eq_true hlast] at hcut
    exact hcut
  have hslash : (absPath (ks ++ [name])).rdropWhile (· ≠ '/') = _ := upToSlash_absPath hname.2.1
  rw [parentPath, htrim, lastSlash, hslash]
  by_cases hne : ks = []
  · subst hne
    rfl
  · obtain ⟨k, ks, rfl⟩ := List.exists_cons_of_ne_nil hne
    have hpos := List.length_pos_iff.mpr (hks k List.mem_cons_self).1
    have hlen : 1 < (absPath (k :: ks)).length := by
      rw [absPath_cons, List.length_append, List.length_cons]
      omega
    rw [if_neg hne, List.length_append, List.length_singleton, if_neg (by omega),
      Nat.add_sub_cancel, absPath_concat (by simp), List.take_left]

theorem entries_child {readDir : Str → Except Str (List DirEntry)} {es : List Entry} {p : Str}
    (hp : Clean p) (h : Filemgr.entries m readDir p = .ok es) {e : Entry} (he : e ∈ es)
    (hname : IsName e.Name) : Child e.Path e.Name := by
  obtain ⟨ks, hks, rfl⟩ := hp
  refine ⟨ks, hks, hname, ?_⟩
  rw [entries_path h e he]
  exact Join_names hks (by simpa using hname) (List.cons_ne_nil _ _)

/-! ### Runs -/

theorem Inv.load (h : Inv v) {p : Str} (hp : Clean p) : Inv (v.load p) :=
  ⟨h.path, fun q hq => (List.mem_append.mp hq).elim (h.loads q)
      fun hq => List.mem_singleton.mp hq ▸ hp, h.acts, h.rows, fun q hq => by cases hq⟩

theorem Inv.setPath (h : Inv v) {p : Str} (hp : Clean p) : Inv (v.setPath p) := by
  unfold FilesView.setPath
  split
  · exact h
  · have hmoved : Inv { v with path := p } := ⟨hp, h.loads, h.acts, h.rows, h.selected⟩
    exact hmoved.load hp

theorem inv_step (ev : Event) (h : Inv v) (hl : Listed m v ev) : Inv (v.step ev) := by
  cases ev with
  | answer i es =>
    unfold step
    dsimp only
    split
    · rename_i hi
      refine ⟨h.path, fun p hp => h.loads p (List.mem_of_mem_eraseIdx hp), h.acts, ?_, h.selected⟩
      intro e he
      cases es with
      | none => exact h.rows e he
      | some es =>
        obtain ⟨readDir, hes, hnames⟩ := hl _ (List.getElem?_eq_getElem hi)
        exact entries_child (h.loads _ (List.getElem_mem hi)) hes he (hnames e he)
    · exact h
  | enter row =>
    unfold step
    dsimp only
    split
    · rename_i e he
      split
      · exact h.setPath (h.rows e (List.mem_of_getElem? he)).clean
      · exact h
    · exact h
  | crumb i =>
    unfold step
    dsimp only
    split
    · obtain ⟨ns, hns, hpath⟩ := h.path
      refine h.setPath ⟨ns.take (i + 1), fun n hn => hns n (List.mem_of_mem_take hn), ?_⟩
      rw [hpath, crumb_absPath hns]
    · exact h
  | root => exact h.setPath clean_root
  | select row on =>
    unfold step
    dsimp only
    split
    · rename_i e he
      refine ⟨h.path, h.loads, h.acts, h.rows, fun p hp => ?_⟩
      have hold : ∀ p ∈ v.selected.filter (· ≠ e.Path), ∃ name, Child p name :=
        fun p hp => h.selected p (List.mem_of_mem_filter hp)
      cases on with
      | false => exact hold p hp
      | true =>
        rcases List.mem_cons.mp hp with rfl | hp
        · exact ⟨_, h.rows e (List.mem_of_getElem? he)⟩
        · exact hold p hp
    · exact h
  | begin =>
    exact ⟨h.path, h.loads, fun p hp => (List.mem_append.mp hp).elim (h.acts p)
      fun hp => List.mem_singleton.mp hp ▸ h.path, h.rows, h.selected⟩
  | finish i ok =>
    unfold step
    dsimp only
    split
    · exact h
    · rename_i p hp
      have hdone : Inv { v with acts := v.acts.eraseIdx i } :=
        ⟨h.path, h.loads, fun q hq => h.acts q (List.mem_of_mem_eraseIdx hq), h.rows, h.selected⟩
      split
      · exact hdone.load (h.acts p (List.mem_of_getElem? hp))
      · exact hdone

/-- Where the page acts, in any state that it gets to. -/
structure Acts (m : Manager) (R : List Str) (v : FilesView) : Prop where
  /-- The breadcrumb says where the path leads, and each step of it where it leads itself. -/
  crumbs : m.resolve v.path = .ok (absPath (R ++ segments v.path)) ∧
    ∀ i, m.resolve (Filemgr.crumb v.path i) = .ok (absPath (R ++ (segments v.path).take (i + 1)))
  /-- A new folder is made in it. -/
  inside : ∀ name, IsName name →
    m.resolve (joinPath v.path name) = .ok (absPath (R ++ segments v.path ++ [name]))
  /-- A row is the entry of its name, and keeps its folder under another name. -/
  rows : ∀ e ∈ v.rows, ∃ ks, m.resolve e.Path = .ok (absPath (R ++ ks ++ [e.Name])) ∧
    ∀ name, IsName name →
      m.resolve (joinPath (parentPath e.Path) name) = .ok (absPath (R ++ ks ++ [name]))
  /-- The root is never ticked. -/
  ticked : ∀ p ∈ v.selected, ∃ abs, m.resolve p = .ok abs ∧ abs ≠ m.root

theorem Inv.acts_where (h : Inv v) (hroot : m.root = absPath R) (hR : ∀ n ∈ R, IsName n)
    (hne : R ≠ []) : Acts m R v := by
  have hresolve : ∀ ks : List Str, (∀ n ∈ ks, IsName n) →
      m.resolve (absPath ks) = .ok (absPath (R ++ ks)) := by
    intro ks hks
    rw [resolve_absPath hroot hR hne, normalised_absPath hks]
  have hmore : ∀ (ks : List Str) (name : Str), (∀ n ∈ ks, IsName n) → IsName name →
      m.resolve (absPath (ks ++ [name])) = .ok (absPath (R ++ ks ++ [name])) := by
    intro ks name hks hname
    rw [hresolve _ (List.forall_mem_append.mpr ⟨hks, by simpa using hname⟩), List.append_assoc]
  obtain ⟨ns, hns, hpath⟩ := h.path
  refine ⟨?_, fun name hname => ?_, fun e he => ?_, fun p hp => ?_⟩
  · rw [hpath, segments_absPath hns]
    refine ⟨hresolve ns hns, fun i => ?_⟩
    rw [crumb_absPath hns]
    exact hresolve _ fun n hn => hns n (List.mem_of_mem_take hn)
  · rw [hpath, segments_absPath hns, joinPath_absPath hns]
    exact hmore ns name hns hname
  · obtain ⟨ks, hks, hename, hepath⟩ := h.rows e he
    refine ⟨ks, ?_, fun name hname => ?_⟩
    · rw [hepath]
      exact hmore ks e.Name hks hename
    · rw [hepath, parentPath_absPath hks hename, joinPath_absPath hks]
      exact hmore ks name hks hname
  · obtain ⟨name, ks, hks, hname, rfl⟩ := h.selected p hp
    refine ⟨_, hmore ks name hks hname, ?_⟩
    rw [hroot]
    intro heq
    have hparts := congrArg (cleanParts true) heq
    have hall : ∀ n ∈ R ++ ks ++ [name], IsName n :=
      List.forall_mem_append.mpr ⟨List.forall_mem_append.mpr ⟨hR, hks⟩, by simpa using hname⟩
    rw [cleanParts_absPath hR, cleanParts_absPath hall] at hparts
    have hlen := congrArg List.length hparts
    simp only [List.length_append, List.length_singleton] at hlen
    omega

end FilesView

end Filemgr
end Nasd
