import Nasd.Config.Yaml
import Nasd.Dlna.Manager
import Nasd.Filemgr.View
import Nasd.Raid.Filesystem
import Nasd.Shares.Table

/-!
# Nasd.Filemgr.FolderPicker

The dialog by which the pages of the shares, the filesystems and the media take a folder:
`FolderPicker` of `src/js/app.js`. It shows the folders of the file manager, goes by their names, and
gives back an absolute path below a root of its own. A listing that arrives late is shown under
whatever folder the dialog is in by then.

* `Load_root`     — the root of the dialog is that of the file manager, whatever is configured.
* `picked`        — the path that is given back is the one that the file manager lists, and the names
  in it decide what the handlers make of it.
* `rows_lead_iff` — the runs in which every row leads to the folder that it is of.
-/

namespace Nasd

open Machine

namespace Filemgr

open Text Go Filepath Dirs Files

/-- `rel` is the path below the root. `loads` are the paths whose listings are on their way, and
`making` those in which a folder is being made. -/
structure FolderPicker where
  rel : Str
  entries : Option (List Entry)
  loads : List Str
  making : List Str

namespace FolderPicker

def root : Str := "/srv"

def start : FolderPicker := ⟨[], none, [[]], []⟩

/-- `rel ? rel + "/" + name : name` -/
def below (rel name : Str) : Str := if rel = [] then name else rel ++ '/' :: name

/-- `rel.includes("/") ? rel.slice(0, rel.lastIndexOf("/")) : ""` -/
def parent (rel : Str) : Str := (rel.rdropWhile (· ≠ '/')).dropLast

def abs (p : FolderPicker) : Str := root ++ if p.rel = [] then [] else '/' :: p.rel

def rows (p : FolderPicker) : List Entry := p.entries.getD []

def load (r : Str) (p : FolderPicker) : FolderPicker :=
  { p with entries := none, loads := p.loads ++ [r] }

/-- The effect of the dialog runs when the path is another one. -/
def setRel (r : Str) (p : FolderPicker) : FolderPicker :=
  if r = p.rel then p else load r { p with rel := r }

inductive Event where
  | answer (k : Nat) (es : Option (List Entry))
  | enter (row : Nat)
  | up
  | newFolder (name : Str)
  | made (k : Nat) (ok : Bool)

/-- A listing that fails shows no rows. -/
def step (p : FolderPicker) : Event → FolderPicker
  | .answer k es =>
    if k < p.loads.length then
      { p with
        loads := p.loads.eraseIdx k
        entries := some ((es.getD []).filter (·.IsDir)) }
    else p
  | .enter row =>
    match p.rows[row]? with
    | none => p
    | some e => p.setRel (below p.rel e.Name)
  | .up => if p.rel = [] then p else p.setRel (parent p.rel)
  | .newFolder name => if name = [] then p else { p with making := p.making ++ [p.rel] }
  | .made k ok =>
    match p.making[k]? with
    | none => p
    | some r =>
      if ok then load r { p with making := p.making.eraseIdx k }
      else { p with making := p.making.eraseIdx k }

/-- A listing that arrives is that of the path it was asked for, at some time. -/
def Listed (m : Manager) (p : FolderPicker) : Event → Prop
  | .answer k (some es) => ∀ r, p.loads[k]? = some r →
    ∃ readDir, Filemgr.entries m readDir r = .ok es ∧ ∀ e ∈ es, IsName e.Name
  | _ => True

/-- A listing of the run has a folder of this name. -/
def Offered (evs : List Event) (n : Str) : Prop :=
  ∃ k es e, Event.answer k (some es) ∈ evs ∧ e ∈ es ∧ e.IsDir = true ∧ e.Name = n

/-! ## Paths -/

variable {ns ks : List Str} {name : Str}

theorem Join_eq_nil (h : ∀ n ∈ ns, IsName n) : Go.Join ns "/" = [] ↔ ns = [] := by
  constructor
  · intro hnil
    by_contra hne
    obtain ⟨n, ms, rfl⟩ := List.exists_cons_of_ne_nil hne
    obtain ⟨c, hc⟩ := List.exists_mem_of_ne_nil n (h n List.mem_cons_self).1
    have hmem : c ∈ Go.Join (n :: ms) "/" := mem_Join_of_mem List.mem_cons_self hc
    rw [hnil] at hmem
    cases hmem
  · rintro rfl
    rfl

theorem Join_concat (hne : ns ≠ []) (n : Str) :
    Go.Join (ns ++ [n]) "/" = Go.Join ns "/" ++ '/' :: n :=
  List.cons_inj_right '/' |>.mp (absPath_concat hne n)

theorem below_Join (h : ∀ n ∈ ns, IsName n) (name : Str) :
    below (Go.Join ns "/") name = Go.Join (ns ++ [name]) "/" := by
  unfold below
  by_cases hne : ns = []
  · rw [if_pos ((Join_eq_nil h).mpr hne), hne, List.nil_append, Join_singleton]
  · rw [if_neg (mt (Join_eq_nil h).mp hne), Join_concat hne]

theorem parent_Join (hname : '/' ∉ name) :
    parent (Go.Join (ks ++ [name]) "/") = Go.Join ks "/" := by
  have hgone : name.rdropWhile (· ≠ '/') = [] := by
    rw [List.rdropWhile_eq_nil_iff]
    intro c hc
    rw [decide_eq_true_eq]
    rintro rfl
    exact hname hc
  unfold parent
  by_cases hne : ks = []
  · rw [hne, List.nil_append, Join_singleton, hgone]
    rfl
  · rw [Join_concat hne, rdropWhile_append_cons (by decide), hgone, List.dropLast_concat]

theorem normalised_joined (h : ∀ n ∈ ns, IsName n) : normalised (Go.Join ns "/") = ns := by
  have hroot : normalised (absPath ns) = normalised (Go.Join ns "/") :=
    normalised_append [] (Go.Join ns "/")
  rw [← hroot, normalised_absPath h]

theorem abs_Join {p : FolderPicker} (h : ∀ n ∈ ns, IsName n) (hrel : p.rel = Go.Join ns "/") :
    p.abs = absPath ("srv" :: ns) := by
  rw [abs, hrel, absPath_cons]
  by_cases hne : ns = []
  · rw [if_pos ((Join_eq_nil h).mpr hne), if_pos hne]
    rfl
  · rw [if_neg (mt (Join_eq_nil h).mp hne), if_neg hne]
    rfl

/-! ## Runs -/

/-- A path down names that are known. -/
def Joined (S : Str → Prop) (r : Str) : Prop :=
  ∃ ns : List Str, (∀ n ∈ ns, IsName n ∧ S n) ∧ r = Go.Join ns "/"

/-- The dialog has no names but known ones. -/
structure Known (S : Str → Prop) (p : FolderPicker) : Prop where
  rel : Joined S p.rel
  loads : ∀ r ∈ p.loads, Joined S r
  making : ∀ r ∈ p.making, Joined S r
  rows : ∀ e ∈ p.rows, IsName e.Name ∧ S e.Name

/-- The names of a listing are known. -/
def Gives (S : Str → Prop) : Event → Prop
  | .answer _ (some es) => ∀ e ∈ es, e.IsDir = true → S e.Name
  | _ => True

variable {S : Str → Prop} {p : FolderPicker} {ev : Event} {m : Manager} {r : Str}

theorem Joined.below (h : Joined S r) (hname : IsName name) (hS : S name) :
    Joined S (below r name) := by
  obtain ⟨ns, hns, rfl⟩ := h
  refine ⟨ns ++ [name], List.forall_mem_append.mpr ⟨hns, by simpa using ⟨hname, hS⟩⟩, ?_⟩
  exact below_Join (fun n hn => (hns n hn).1) name

theorem Joined.parent (h : Joined S r) (hne : r ≠ []) : Joined S (parent r) := by
  obtain ⟨ns, hns, rfl⟩ := h
  rcases List.eq_nil_or_concat ns with rfl | ⟨ks, n, rfl⟩
  · exact absurd rfl hne
  · rw [List.concat_eq_append] at hns ⊢
    obtain ⟨hks, hn⟩ := List.forall_mem_append.mp hns
    exact ⟨ks, hks, parent_Join (hn n (List.mem_singleton_self n)).1.2.1⟩

theorem Known.load (h : Known S p) (hr : Joined S r) : Known S (p.load r) := by
  refine ⟨h.rel, fun q hq => ?_, h.making, nofun⟩
  rcases List.mem_append.mp hq with hq | hq
  · exact h.loads q hq
  · exact List.mem_singleton.mp hq ▸ hr

theorem Known.setRel (h : Known S p) (hr : Joined S r) : Known S (p.setRel r) := by
  unfold FolderPicker.setRel
  split
  · exact h
  · have hmoved : Known S { p with rel := r } := ⟨hr, h.loads, h.making, h.rows⟩
    exact hmoved.load hr

theorem known_step (h : Known S p) (hl : Listed m p ev) (hS : Gives S ev) : Known S (p.step ev) := by
  cases ev with
  | answer k es =>
    simp only [step]
    split
    · rename_i hk
      refine ⟨h.rel, fun r hr => h.loads r (List.mem_of_mem_eraseIdx hr), h.making, ?_⟩
      intro e he
      obtain ⟨he, hdir⟩ := List.mem_filter.mp he
      cases es with
      | none => cases he
      | some es =>
        obtain ⟨_, -, hnames⟩ := hl _ (List.getElem?_eq_getElem hk)
        exact ⟨hnames e he, hS e he hdir⟩
    · exact h
  | enter row =>
    simp only [step]
    split
    · exact h
    · rename_i e he
      obtain ⟨hname, hknown⟩ := h.rows e (List.mem_of_getElem? he)
      exact h.setRel (h.rel.below hname hknown)
  | up =>
    simp only [step]
    split
    · exact h
    · rename_i hne
      exact h.setRel (h.rel.parent hne)
  | newFolder name =>
    simp only [step]
    split
    · exact h
    · refine { h with making := fun r hr => ?_ }
      rcases List.mem_append.mp hr with hr | hr
      · exact h.making r hr
      · exact List.mem_singleton.mp hr ▸ h.rel
  | made k ok =>
    simp only [step]
    split
    · exact h
    · rename_i r hr
      have hdone : Known S { p with making := p.making.eraseIdx k } :=
        { h with making := fun q hq => h.making q (List.mem_of_mem_eraseIdx hq) }
      split
      · exact hdone.load (h.making r (List.mem_of_getElem? hr))
      · exact hdone

theorem known_run {evs : List Event} (h : Known S p) (hl : Guarded step (Listed m) p evs)
    (hS : ∀ ev ∈ evs, Gives S ev) : Known S (run step p evs) := by
  induction evs generalizing p with
  | nil => exact h
  | cons ev evs ih =>
    exact ih (known_step h hl.1 (hS ev List.mem_cons_self)) hl.2
      fun ev' hev => hS ev' (List.mem_cons_of_mem _ hev)

theorem known_start (S : Str → Prop) : Known S start := by
  have hroot : Joined S [] := ⟨[], by simp, rfl⟩
  exact ⟨hroot, fun r hr => List.mem_singleton.mp hr ▸ hroot, by simp [start], nofun⟩

/-! ## What is picked -/

theorem Load_root (frac : Str → Nat → Nat) (file : Option Str) :
    (Yaml.Load frac file).paths.filesRoot = root := by
  cases file with
  | none => rfl
  | some data =>
    have hkept : (Yaml.parseYAML frac data Yaml.defaults).paths.filesRoot = root :=
      Yaml.filesRoot_kept data Yaml.defaults
    simp only [Yaml.Load]
    split <;> split <;> exact hkept

/-- Whether a path has one of some characters is up to the names in it. -/
theorem ContainsAny_absPath {chars : Str} (h : '/' ∉ chars) (ns : List Str) :
    ContainsAny (absPath ns) chars = false ↔ ∀ n ∈ ns, ContainsAny n chars = false := by
  simp only [ContainsAny, List.any_eq_false, List.contains_iff_mem]
  constructor
  · intro hall n hn c hc
    exact hall c (List.mem_cons_of_mem _ (mem_Join_of_mem hn hc))
  · intro hall c hc
    rcases List.mem_cons.mp hc with rfl | hc
    · exact h
    · rcases mem_Join hc with ⟨n, hn, hcn⟩ | hsep
      · exact hall n hn c hcn
      · rw [List.mem_singleton.mp hsep]
        exact h

/-- The file manager that the router makes of a configuration. -/
def manager (cwd : Str) (frac : Str → Nat → Nat) (file : Option Str) : Manager :=
  NewManager cwd (Yaml.Load frac file).paths.filesRoot

theorem manager_root (cwd : Str) (frac : Str → Nat → Nat) (file : Option Str) :
    (manager cwd frac file).root = absPath ["srv"] := by
  rw [manager, Load_root]
  exact NewManager_root rfl (by decide)

/-- What becomes of the path that is given back, by the names below the root. -/
structure Taken (m : Manager) (p : FolderPicker) (ns : List Str) : Prop where
  path : p.abs = absPath ("srv" :: ns)
  listed : m.resolve p.rel = .ok p.abs
  media : ∀ type ∈ [("" : Str), "A", "V", "P"],
    Dlna.check (.addDir (some ⟨p.abs, type⟩)) = .ok (.insert ⟨p.abs, type⟩) ↔
      ∀ n ∈ ns, ContainsAny n "\n\r\x00" = false
  mount : Raid.validMountPoint p.abs = true ↔ ∀ n ∈ ns, ContainsAny n "\n\r\x00\"'`" = false
  share : ∀ s : Shares.Share, s.path = p.abs → Sys.ValidShareName s.name = true →
    (s.protocol = Shares.NFS ∨ s.protocol = Shares.SMB) →
      (Shares.validateShare s = .ok () ↔ ∀ n ∈ ns, ContainsAny n "\n\r\"\x00" = false)

theorem ContainsAny_abs {chars : Str} (h : '/' ∉ chars) (hroot : ContainsAny "srv" chars = false)
    (ns : List Str) : ContainsAny (absPath ("srv" :: ns)) chars = false ↔
      ∀ n ∈ ns, ContainsAny n chars = false := by
  rw [ContainsAny_absPath h, List.forall_mem_cons, and_iff_right hroot]

theorem check_addDir {d : Dlna.MediaDir} (hslash : HasPrefix d.path "/" = true)
    (htype : d.type ∈ [("" : Str), "A", "V", "P"]) :
    Dlna.check (.addDir (some d)) = .ok (.insert d) ↔
      ContainsAny d.path "\n\r\x00" = false := by
  rw [Dlna.check, hslash]
  cases ContainsAny d.path "\n\r\x00" with
  | true =>
    rw [if_pos (by decide)]
    exact iff_of_false nofun nofun
  | false =>
    rw [if_neg (by decide), if_pos htype]
    exact iff_of_true rfl rfl

theorem validMountPoint_iff {path : Str} (hslash : HasPrefix path "/" = true) :
    Raid.validMountPoint path = true ↔ ContainsAny path "\n\r\x00\"'`" = false := by
  rw [Raid.validMountPoint, hslash, Bool.true_and, Bool.not_eq_true']

theorem validateShare_iff {s : Shares.Share} (hslash : HasPrefix s.path "/" = true)
    (hname : Sys.ValidShareName s.name = true)
    (hprotocol : s.protocol = Shares.NFS ∨ s.protocol = Shares.SMB) :
    Shares.validateShare s = .ok () ↔ ContainsAny s.path "\n\r\"\x00" = false := by
  have hprot : ¬ (s.protocol ≠ Shares.NFS ∧ s.protocol ≠ Shares.SMB) :=
    fun hno => hprotocol.elim hno.1 hno.2
  rw [Shares.validateShare, hname, hslash, if_neg (by decide), if_neg hprot]
  cases ContainsAny s.path "\n\r\"\x00" with
  | true =>
    rw [if_pos (by decide)]
    exact iff_of_false nofun nofun
  | false =>
    rw [if_neg (by decide)]
    exact iff_of_true rfl rfl

theorem Known.taken (h : Known S p) (hroot : m.root = absPath ["srv"]) :
    ∃ ns : List Str, (∀ n ∈ ns, IsName n ∧ S n) ∧ Taken m p ns := by
  obtain ⟨ns, hns, hrel⟩ := h.rel
  have hnames : ∀ n ∈ ns, IsName n := fun n hn => (hns n hn).1
  have habs : p.abs = absPath ("srv" :: ns) := abs_Join hnames hrel
  have hslash : HasPrefix p.abs "/" = true := habs ▸ rfl
  refine ⟨ns, hns, habs, ?_, fun type htype => ?_, ?_, fun s hpath hname hprotocol => ?_⟩
  · rw [resolve_absPath hroot (by decide) (by simp), hrel, normalised_joined hnames, habs]
    rfl
  · rw [check_addDir hslash htype, ← ContainsAny_abs (by decide) (by decide), habs]
  · rw [validMountPoint_iff hslash, ← ContainsAny_abs (by decide) (by decide), habs]
  · rw [validateShare_iff (hpath ▸ hslash) hname hprotocol,
      ← ContainsAny_abs (by decide) (by decide), hpath, habs]

/-- In every run, the path that is given back goes down from the root along folders that listings of
the run offered; the file manager lists that very folder, and the handlers accept the path when its
names have none of the characters that they refuse. -/
theorem picked (cwd : Str) (frac : Str → Nat → Nat) (file : Option Str) {evs : List Event}
    (hl : Guarded step (Listed (manager cwd frac file)) start evs) :
    ∃ ns : List Str, (∀ n ∈ ns, IsName n ∧ Offered evs n) ∧
      Taken (manager cwd frac file) (run step start evs) ns := by
  have hS : ∀ ev ∈ evs, Gives (Offered evs) ev := by
    intro ev hev
    cases ev with
    | answer k es =>
      cases es with
      | none => trivial
      | some es => exact fun e he hdir => ⟨k, es, e, hev, he, hdir, rfl⟩
    | _ => trivial
  exact (known_run (known_start _) hl hS).taken (manager_root cwd frac file)

/-! ## Rows -/

/-- Going into a row leads to the folder that the server meant by it. -/
def Leads (m : Manager) (p : FolderPicker) : Prop :=
  ∀ e ∈ p.rows, m.resolve (below p.rel e.Name) = m.resolve e.Path

/-- A listing with folders arrives while the dialog is in the folder that it is of. -/
def InTime (p : FolderPicker) : Event → Prop
  | .answer k (some es) => ∀ r, p.loads[k]? = some r → (∃ e ∈ es, e.IsDir = true) → r = p.rel
  | _ => True

theorem resolve_below_iff {R : List Str} (hroot : m.root = absPath R) (hR : ∀ n ∈ R, IsName n)
    (hne : R ≠ []) {q : Str} (hq : Joined S q) (hr : Joined S r) (hname : IsName name) :
    m.resolve (below q name) = m.resolve (Filepath.Join [r, name]) ↔ r = q := by
  obtain ⟨qs, hqs, rfl⟩ := hq
  obtain ⟨ks, hks, rfl⟩ := hr
  have hqs' : ∀ n ∈ qs, IsName n := fun n hn => (hqs n hn).1
  have hks' : ∀ n ∈ ks, IsName n := fun n hn => (hks n hn).1
  have hall : ∀ {ns : List Str}, (∀ n ∈ ns, IsName n) → ∀ n ∈ R ++ (ns ++ [name]), IsName n :=
    fun h => List.forall_mem_append.mpr
      ⟨hR, List.forall_mem_append.mpr ⟨h, by simpa using hname⟩⟩
  rw [resolve_absPath hroot hR hne, resolve_absPath hroot hR hne, below_Join hqs',
    normalised_joined (fun n hn => hall hqs' n (List.mem_append_right _ hn)),
    normalised_Join hname, normalised_joined hks', Except.ok.injEq]
  constructor
  · intro heq
    have hparts := congrArg (cleanParts true) heq
    rw [cleanParts_absPath (hall hqs'), cleanParts_absPath (hall hks'),
      List.append_cancel_left_eq, List.append_cancel_right_eq] at hparts
    rw [hparts]
  · intro heq
    have hsame := congrArg normalised heq
    rw [normalised_joined hks', normalised_joined hqs'] at hsame
    rw [hsame]

theorem leads_load (m : Manager) (p : FolderPicker) (r : Str) : Leads m (p.load r) := nofun

theorem Leads.setRel (h : Leads m p) (r : Str) : Leads m (p.setRel r) := by
  unfold FolderPicker.setRel
  split
  · exact h
  · exact leads_load m _ r

theorem leads_step_iff {R : List Str} (hroot : m.root = absPath R) (hR : ∀ n ∈ R, IsName n)
    (hne : R ≠ []) (hI : Known S p) (h : Leads m p) (hl : Listed m p ev) :
    Leads m (p.step ev) ↔ InTime p ev := by
  cases ev with
  | answer k es =>
    simp only [step]
    split
    · rename_i hk
      have hget := List.getElem?_eq_getElem hk
      cases es with
      | none => exact iff_of_true nofun trivial
      | some es =>
        obtain ⟨readDir, hes, hnames⟩ := hl _ hget
        have hrow : ∀ e ∈ es, m.resolve (below p.rel e.Name) = m.resolve e.Path ↔
            p.loads[k] = p.rel := by
          intro e he
          rw [entries_path hes e he]
          exact resolve_below_iff hroot hR hne hI.rel (hI.loads _ (List.getElem_mem hk))
            (hnames e he)
        constructor
        · intro hleads r hr hdirs
          obtain ⟨e, he, hdir⟩ := hdirs
          rw [hget, Option.some.injEq] at hr
          rw [← hr]
          exact (hrow e he).mp (hleads e (List.mem_filter.mpr ⟨he, hdir⟩))
        · intro htime e he
          obtain ⟨he, hdir⟩ := List.mem_filter.mp he
          exact (hrow e he).mpr (htime _ hget ⟨e, he, hdir⟩)
    · rename_i hk
      refine iff_of_true h ?_
      cases es with
      | none => trivial
      | some es =>
        intro r hr
        exact absurd (List.getElem?_eq_some_iff.mp hr).1 hk
  | enter row =>
    refine iff_of_true ?_ trivial
    simp only [step]
    split
    · exact h
    · exact h.setRel _
  | up =>
    refine iff_of_true ?_ trivial
    simp only [step]
    split
    · exact h
    · exact h.setRel _
  | newFolder name =>
    refine iff_of_true ?_ trivial
    simp only [step]
    split <;> exact h
  | made k ok =>
    refine iff_of_true ?_ trivial
    simp only [step]
    split
    · exact h
    · split
      · exact leads_load m _ _
      · exact h

/-- Every row leads to the folder that it is of, in every state of a run, exactly when no listing
with folders arrives in another folder than its own. -/
theorem rows_lead_iff (cwd : Str) (frac : Str → Nat → Nat) (file : Option Str) {evs : List Event}
    (hl : Guarded step (Listed (manager cwd frac file)) start evs) :
    Always step (Leads (manager cwd frac file)) start evs ↔ Guarded step InTime start evs := by
  have hroot := manager_root cwd frac file
  have hR : ∀ n ∈ [("srv" : Str)], IsName n := by decide
  have hstep : ∀ p ev, Known (fun _ => True) p ∧ Leads (manager cwd frac file) p →
      Listed (manager cwd frac file) p ev → InTime p ev →
      Known (fun _ => True) (p.step ev) ∧ Leads (manager cwd frac file) (p.step ev) := by
    intro p ev hp hlisted htime
    have hgives : Gives (fun _ => True) ev := by
      cases ev with
      | answer k es => cases es <;> simp [Gives]
      | _ => trivial
    exact ⟨known_step hp.1 hlisted hgives,
      (leads_step_iff hroot hR (by simp) hp.1 hp.2 hlisted).mpr htime⟩
  have hstart : Known (fun _ => True) start ∧ Leads (manager cwd frac file) start :=
    ⟨known_start _, nofun⟩
  constructor
  · exact guarded_of_always hstep
      (fun p ev hp hlisted hafter =>
        (leads_step_iff hroot hR (by simp) hp.1 hp.2 hlisted).mp hafter) hstart hl
  · intro htime
    exact always_of_guarded (fun p ev hp hg => hstep p ev hp hg.1 hg.2) (fun p hp => hp.2) hstart
      (hl.and htime)

/-! ## A late listing -/

def home : Manager := manager "/" (fun _ _ => 0) none

def films : List Entry := [⟨"films", "films", true, 4096, "rwxr-xr-x", 0⟩]

def filmsNew : List Entry := [⟨"new", "films/new", true, 4096, "rwxr-xr-x", 0⟩]

def folderNamed (name : Str) : Str → Except Str (List DirEntry) :=
  fun _ => .ok [⟨name, true, some ⟨4096, "drwxr-xr-x", 0⟩⟩]

/-- Down into a folder and up again, before it is listed; then into its only row. -/
def late : List Event :=
  [.answer 0 (some films), .enter 0, .up, .answer 0 (some filmsNew), .enter 0]

theorem listed_late : Guarded step (Listed home) start late := by
  have hfilms : Filemgr.entries home (folderNamed "films") [] = .ok films := by rfl
  have hnew : Filemgr.entries home (folderNamed "new") "films" = .ok filmsNew := by rfl
  refine ⟨fun r hr => ?_, trivial, trivial, fun r hr => ?_, trivial, trivial⟩
  · cases hr
    exact ⟨_, hfilms, by decide⟩
  · cases hr
    exact ⟨_, hnew, by decide⟩

/-- What is picked then is another folder, of the name of the row. -/
theorem picked_late : (run step start late).abs = "/srv/new" ∧
    ∃ ns : List Str, (∀ n ∈ ns, IsName n ∧ Offered late n) ∧
      Taken home (run step start late) ns :=
  ⟨by decide +kernel, picked "/" _ none listed_late⟩

theorem rows_lead_late : ¬ Always step (Leads home) start late := by
  intro hleads
  obtain ⟨-, -, -, htime, -⟩ := (rows_lead_iff "/" _ none listed_late).mp hleads
  have hsame := htime "films" rfl ⟨_, List.mem_singleton_self _, rfl⟩
  exact absurd hsame (by decide)

end FolderPicker
end Filemgr
end Nasd
