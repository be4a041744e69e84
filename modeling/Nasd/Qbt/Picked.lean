import Nasd.Qbt.Canon
import Nasd.Qbt.Wizard

/-!
# Nasd.Qbt.Picked

Where the folders of the wizard come from, however late the listings are that it shows.

* `browse_offers`     — what a listing offers is a directory in a volume.
* `Offers.accepted`   — `resolveInVolumes` accepts it as long as the disk keeps it.
* `picked_in_volumes` — each folder of the form is the one proposed, or was offered.
-/

namespace Nasd

open Machine

namespace Qbt

open Text Go Filepath Dirs Files

variable {S : Nas} {path : Str}

/-- The path leads to a directory in a volume. -/
def Nas.Offers (S : Nas) (path : Str) : Prop :=
  ∃ ns r, path = pathOf ns ∧ S.disk.tree.walk false maxLinks [] (ns.map .name) = some r ∧
    S.disk.tree.isDir r.1 = true ∧ ∃ v ∈ S.vols, v.dir <+: r.1

/-- No volume is mounted on the root of the disk. -/
def Nas.OffRoot (S : Nas) : Prop := ∀ v ∈ S.vols, v.dir ≠ []

/-- What is on a disk is still there on a later one, which has its volumes. -/
structure Nas.Keeps (S' S : Nas) : Prop where
  tree : ∀ l, S.disk.tree.node l ≠ none → S'.disk.tree.node l = S.disk.tree.node l
  vols : ∀ v ∈ S.vols, ∃ v' ∈ S'.vols, v'.dir = v.dir

/-- A path as `Browse` and the wizard make them: none yet, or names from the root. -/
def Rooted (path : Str) : Prop := path = [] ∨ ∃ ns : List Name, path = pathOf ns

theorem Nas.Offers.rooted (h : S.Offers path) : Rooted path := by
  obtain ⟨ns, -, hpath, -⟩ := h
  exact .inr ⟨ns, hpath⟩

theorem resolve_in {vs : List (Mounted S.disk.tree)} {ns : List Name} {w : Volume}
    (h : resolveInVolumes S.disk.tree (vs.map Mounted.volume) (pathOf ns) = .ok w)
    {r : Loc Name × Nat} (hr : S.disk.tree.walk false maxLinks [] (ns.map .name) = some r) :
    ∃ v ∈ vs, v.dir <+: r.1 := by
  obtain ⟨-, v, hv, hholds⟩ := resolve_ok_iff.mp ⟨w, h⟩
  rw [pathOf, Clean_absPath (pathOf_names ns)] at hholds
  exact ⟨v, hv, reached_in_volume hholds hr⟩

theorem Join_name (ns : List Name) (a : Name) :
    Filepath.Join [pathOf ns, a.1] = pathOf (ns ++ [a]) := by
  have hname : ∀ m ∈ [a.1], IsName m := pathOf_names [a]
  rw [pathOf, pathOf, List.map_append, Join_names (pathOf_names ns) hname (List.cons_ne_nil _ _)]
  rfl

/-- What the listing of a path offers is a directory in a volume. -/
theorem browse_offers (hpath : Rooted path) {es : List Entry} (h : S.browse path = some es) :
    ∀ e ∈ es, S.Offers e.path := by
  intro e he
  unfold Nas.browse at h
  cases hlist : Browse S.disk.tree S.volumes path with
  | error _ => rw [hlist] at h; cases h
  | ok listing =>
    rw [hlist] at h
    unfold Browse at hlist
    split at hlist
    · -- the volumes
      cases hlist
      cases h
      obtain ⟨_, hmem, rfl⟩ := List.mem_map.mp he
      obtain ⟨w, hw, rfl⟩ := List.mem_map.mp hmem
      obtain ⟨v, hv, rfl⟩ := List.mem_map.mp hw
      have hnode : S.disk.tree.node ([] ++ v.dir) = some .dir := FileTree.isDir_iff.mp v.isDir
      exact ⟨v.dir, ([] ++ v.dir, maxLinks), v.path, FileTree.walk_names hnode rfl, v.isDir, v, hv,
        List.prefix_refl _⟩
    · -- the directories in a directory
      rename_i hne
      obtain ⟨ns, rfl⟩ := hpath.resolve_left hne
      cases hres : resolveInVolumes S.disk.tree S.volumes (pathOf ns) with
      | error _ => simp only [hres] at hlist; cases hlist
      | ok w =>
        simp only [hres] at hlist
        cases hlist
        obtain ⟨l, hread, rfl⟩ := Option.map_eq_some_iff.mp h
        obtain ⟨a, ha, rfl⟩ := List.mem_map.mp he
        obtain ⟨r, hr, rfl, hdir⟩ := ReadDir_eq_some.mp hread
        rw [lookup_pathOf] at hr
        have hchild : S.disk.tree.isDir (r.1 ++ [a]) = true := (List.mem_filter.mp ha).2
        obtain ⟨v, hv, hpre⟩ := resolve_in hres hr
        refine ⟨ns ++ [a], (r.1 ++ [a], r.2), Join_name ns a, ?_, hchild, v, hv,
          hpre.trans (List.prefix_append _ _)⟩
        rw [List.map_append, FileTree.walk_append (fun h => absurd h Bool.false_ne_true), hr,
          Option.bind_some, List.map_singleton,
          FileTree.walk_name hdir (FileTree.isDir_iff.mp hchild) rfl, FileTree.walk_nil]

/-- A directory that was offered is accepted as long as the disk keeps it and its volume. -/
theorem Nas.Offers.accepted (h : S.Offers path) (hroot : S.OffRoot) {S' : Nas}
    (hkeeps : S'.Keeps S) : ∃ w, resolveInVolumes S'.disk.tree S'.volumes path = .ok w := by
  obtain ⟨ns, r, rfl, hr, -, v, hv, hpre⟩ := h
  obtain ⟨v', hv', hsame⟩ := hkeeps.vols v hv
  have hr' : S'.disk.tree.walk false maxLinks [] (ns.map .name) = some r :=
    FileTree.walk_extend hkeeps.tree hr
  have hcanon : canonExisting S'.disk.tree (pathOf (ns ++ [])) = pathOf (r.1 ++ []) :=
    canonExisting_found (Lstat_of_walk hr')
      (fun bs hne hbs => absurd (List.prefix_nil.mp hbs) hne)
      (by rw [EvalSymlinks_of_walk hr']; rfl)
  rw [List.append_nil, List.append_nil] at hcanon
  refine resolve_ok_iff.mpr ⟨?_, v', hv', ?_⟩
  · exact badPath_iff.mpr ⟨List.cons_ne_nil _ _, rfl, nul_not_mem_pathOf ns⟩
  · rw [pathOf, Clean_absPath (pathOf_names ns)]
    show holds (canonExisting S'.disk.tree (pathOf ns)) v'.volume = true
    rw [hcanon]
    exact holds_iff.mpr ⟨hsame ▸ hpre, fun hnil => absurd (hsame.symm.trans hnil) (hroot v hv)⟩

/-! ## In the wizard -/

/-- The sites that the answers of a run found. -/
def Met (es : List Wizard.Event) (S : Nas) : Prop :=
  .volumes S ∈ es ∨ ∃ k, .pick (.listed k S) ∈ es

/-- A path that the wizard may hold: none, one it proposed, or one that a listing offered. -/
inductive Known (es : List Wizard.Event) (path : Str) : Prop where
  | none (h : path = [])
  | proposed (S : Nas) (v : Mounted S.disk.tree) (key : Key) (hS : .volumes S ∈ es)
      (hv : v ∈ S.vols) (h : path = (proposed v.volume).get key)
  | offered (k : Nat) (S : Nas) (hS : .pick (.listed k S) ∈ es) (h : S.Offers path)

def qbittorrent : Name := ⟨"qbittorrent", by decide⟩

def folderOf : Key → Name
  | .temp_dir => ⟨"temp", by decide⟩
  | .torfile_dir => ⟨"torrents", by decide⟩
  | .downloads_dir => ⟨"downloads", by decide⟩

theorem pathOf_concat {ns : List Name} (hne : ns ≠ []) (a : Name) :
    pathOf (ns ++ [a]) = pathOf ns ++ '/' :: a.1 := by
  rw [pathOf, List.map_append, List.map_singleton,
    absPath_concat (fun h => hne (List.map_eq_nil_iff.mp h)), pathOf]

theorem proposed_rooted (v : Mounted S.disk.tree) (hv : v.dir ≠ []) (key : Key) :
    Rooted ((proposed v.volume).get key) := by
  refine .inr ⟨(v.dir ++ [qbittorrent]) ++ [folderOf key], ?_⟩
  rw [pathOf_concat (by simp), pathOf_concat hv, ← v.path]
  cases key <;> rfl

variable {es : List Wizard.Event}

theorem Known.rooted (hroot : ∀ S, Met es S → S.OffRoot) (h : Known es path) : Rooted path := by
  cases h with
  | none h => exact .inl h
  | proposed S v key hS hv h => exact h ▸ proposed_rooted v (hroot S (.inl hS) v hv) key
  | offered k S hS h => exact h.rooted

theorem Known.more (h : Known es path) (e : Wizard.Event) : Known (es ++ [e]) path := by
  cases h with
  | none h => exact .none h
  | proposed S v key hS hv h => exact .proposed S v key (List.mem_append_left _ hS) hv h
  | offered k S hS h => exact .offered k S (List.mem_append_left _ hS) h

/-- All that the picker holds is known. -/
structure Picker.Known (es : List Wizard.Event) (p : Picker) : Prop where
  cur : Qbt.Known es p.cur
  above : ∀ path ∈ p.above, Qbt.Known es path
  entries : ∀ e ∈ p.entries.getD [], Qbt.Known es e.path
  loads : ∀ path ∈ p.loads, Qbt.Known es path
  making : ∀ path ∈ p.making, Qbt.Known es path

namespace Picker

variable {p : Picker}

theorem Known.load (h : p.Known es) (hpath : Qbt.Known es path) : (p.load path).Known es where
  cur := h.cur
  above := h.above
  entries := nofun
  loads := by
    intro q hq
    rcases List.mem_append.mp hq with hq | hq
    · exact h.loads q hq
    · exact List.mem_singleton.mp hq ▸ hpath
  making := h.making

theorem Known.goTo (h : p.Known es) {cur : Str} {above : List Str} (hcur : Qbt.Known es cur)
    (habove : ∀ path ∈ above, Qbt.Known es path) : (p.goTo cur above).Known es := by
  unfold Picker.goTo
  split
  · exact { h with above := habove }
  · have hmoved : Picker.Known es { p with cur := cur, above := above } :=
      { h with cur := hcur, above := habove }
    exact hmoved.load hcur

theorem Known.more (h : p.Known es) (e : Wizard.Event) : p.Known (es ++ [e]) where
  cur := h.cur.more e
  above path hp := (h.above path hp).more e
  entries x hx := (h.entries x hx).more e
  loads path hp := (h.loads path hp).more e
  making path hp := (h.making path hp).more e

theorem start_known (h : Qbt.Known es path) : (Picker.start path).Known es :=
  Known.load ⟨h, nofun, nofun, nofun, nofun⟩ h

/-- A step of the picker, of which the event is the last of the run. -/
theorem act_known (hroot : ∀ S, Met es S → S.OffRoot) (h : p.Known es) (e : Event) :
    (p.act e).Known (es ++ [.pick e]) := by
  have hp : p.Known (es ++ [.pick e]) := h.more (.pick e)
  cases e with
  | enter i =>
    simp only [act]
    split
    · exact hp
    · rename_i entry hentry
      refine hp.goTo (hp.entries entry (List.mem_of_getElem? hentry)) ?_
      intro q hq
      rcases List.mem_cons.mp hq with rfl | hq
      · exact hp.cur
      · exact hp.above q hq
  | up =>
    simp only [act]
    split
    · exact hp
    · rename_i q above habove
      exact hp.goTo (hp.above q (habove ▸ List.mem_cons_self))
        fun r hr => hp.above r (habove ▸ List.mem_cons_of_mem _ hr)
  | newFolder name =>
    simp only [act]
    split
    · exact hp
    · refine { hp with making := fun q hq => ?_ }
      rcases List.mem_append.mp hq with hq | hq
      · exact hp.making q hq
      · exact List.mem_singleton.mp hq ▸ hp.cur
  | made k =>
    simp only [act]
    split
    · exact hp
    · rename_i q hq
      have hless : Picker.Known (es ++ [.pick (.made k)]) { p with making := p.making.eraseIdx k } :=
        { hp with making := fun r hr => hp.making r ((List.eraseIdx_sublist _ _).subset hr) }
      exact hless.load (hp.making q (List.mem_of_getElem? hq))
  | makeFailed k =>
    exact { hp with making := fun r hr => hp.making r ((List.eraseIdx_sublist _ _).subset hr) }
  | listed k S =>
    simp only [act]
    split
    · exact hp
    · rename_i q hq
      refine { hp with
        loads := fun r hr => hp.loads r ((List.eraseIdx_sublist _ _).subset hr)
        entries := fun x hx => ?_ }
      have hrooted : Rooted q := (h.loads q (List.mem_of_getElem? hq)).rooted hroot
      cases hbrowse : S.browse q with
      | none => rw [hbrowse] at hx; cases hx
      | some listing =>
        rw [hbrowse] at hx
        exact .offered k S (List.mem_append_right _ (List.mem_singleton_self _))
          (browse_offers hrooted hbrowse x hx)
  | listFailed k =>
    simp only [act]
    split
    · exact hp
    · exact { hp with
        loads := fun r hr => hp.loads r ((List.eraseIdx_sublist _ _).subset hr)
        entries := nofun }

end Picker

/-- All that the wizard holds is known. -/
structure Wizard.Known (es : List Wizard.Event) (w : Wizard) : Prop where
  form : ∀ key, Qbt.Known es (w.form.get key)
  picker : ∀ key p, w.picker = some (key, p) → p.Known es

namespace Wizard

variable {w : Wizard} {e : Event}

theorem get_set (d : Folders) (key key' : Key) (path : Str) :
    (d.set key path).get key' = if key' = key then path else d.get key' := by
  cases key <;> cases key' <;> rfl

theorem Known.more (h : w.Known es) (e : Event) : w.Known (es ++ [e]) where
  form key := (h.form key).more e
  picker key p hp := (h.picker key p hp).more e

theorem propose_known (h : w.Known (es ++ [.volumes S])) :
    (w.propose S.volumes).Known (es ++ [.volumes S]) := by
  unfold propose
  split
  · exact ⟨h.form, h.picker⟩
  · rename_i vol rest hvols
    refine ⟨fun key => ?_, h.picker⟩
    have hmem : vol ∈ S.volumes := hvols ▸ List.mem_cons_self
    obtain ⟨v, hv, rfl⟩ := List.mem_map.mp hmem
    exact .proposed S v key (List.mem_append_right _ (List.mem_singleton_self _)) hv rfl

theorem browse_known (h : w.Known es) : w.browse.Known es := by
  unfold browse
  split
  · exact h
  · rename_i key _
    split
    · refine ⟨h.form, fun key' p hp => ?_⟩
      cases hp
      exact Picker.start_known (h.form key)
    · rename_i old p hold
      refine ⟨h.form, fun key' p' hp => ?_⟩
      cases hp
      exact h.picker old p hold

theorem select_known (h : w.Known es) : w.select.Known es := by
  unfold select
  split
  · exact h
  · rename_i key p hp
    split
    · exact h
    · refine ⟨fun key' => ?_, nofun⟩
      show Qbt.Known es ((w.form.toFolders.set key p.cur).get key')
      rw [get_set]
      split
      · exact (h.picker key p hp).cur
      · exact h.form key'

theorem act_known (hroot : ∀ S, Met es S → S.OffRoot) (h : w.Known es) (e : Event) :
    (w.act e).Known (es ++ [e]) := by
  have hw : w.Known (es ++ [e]) := h.more e
  unfold act
  split
  · cases e with
    | volumes S =>
      simp only [actShown]
      split
      · exact propose_known hw
      · exact hw
    | browse =>
      simp only [actShown]
      split
      · exact browse_known hw
      · exact hw
    | pick e =>
      simp only [actShown]
      split
      · exact hw
      · rename_i key p hp
        refine ⟨hw.form, fun key' p' hp' => ?_⟩
        cases hp'
        exact Picker.act_known hroot (h.picker key p hp) e
    | select => exact select_known hw
    | cancel =>
      refine ⟨hw.form, fun key' p' hp' => ?_⟩
      cases hp'
    | next | back | perms _ | port _ | validate | validated _ _ _ | apply | configured | finish =>
      simp only [actShown]
      split <;> exact ⟨hw.form, hw.picker⟩
    | volumesFailed | validateFailed _ | close => exact ⟨hw.form, hw.picker⟩
  · exact hw

theorem Met.of_prefix {es es' : List Event} (h : Met es S) : Met (es ++ es') S := by
  rcases h with h | ⟨k, h⟩
  · exact .inl (List.mem_append_left _ h)
  · exact .inr ⟨k, List.mem_append_left _ h⟩

theorem run_known (hroot : ∀ S, Met es S → S.OffRoot) : (run act start es).Known es := by
  induction es using List.reverseRecOn with
  | nil => exact ⟨fun key => .none (by cases key <;> rfl), nofun⟩
  | append_singleton es e ih =>
    rw [run_append]
    exact act_known (fun S hS => hroot S (Met.of_prefix hS))
      (ih fun S hS => hroot S (Met.of_prefix hS)) e

def temp : Name := folderOf .temp_dir

/-- The proposed folder is there, with another one in it. -/
def usedTree : FS :=
  .ofEntries [([disk], .dir), ([disk, qbittorrent], .dir), ([disk, qbittorrent, temp], .dir),
    ([disk, qbittorrent, temp, data], .dir)] (by decide)

def usedDisk : Disk :=
  .ofTree usedTree [[disk, qbittorrent, temp, data], [disk], [disk, qbittorrent],
    [disk, qbittorrent, temp]] (fun _ => 0) (by decide)
    (fun l hl hnode => by
      obtain ⟨n, hn⟩ := Option.ne_none_iff_exists'.mp hnode
      have hmem := List.mem_map_of_mem (f := Prod.fst) (FileTree.ofEntries_mem hl hn)
      simp only [List.map_cons, List.map_nil, List.mem_cons, List.not_mem_nil, or_false] at hmem ⊢
      rcases hmem with h | h | h | h <;> simp [h])
    (by decide)

def usedNas : Nas := ⟨usedDisk, [⟨⟨"md0", "/disk", 1⟩, [disk], by decide, rfl⟩]⟩

def chosen : List Event :=
  [.volumes usedNas, .next, .browse, .pick (.listed 0 usedNas), .pick (.enter 0), .select]

theorem chosen_offRoot (S : Nas) (hS : Met chosen S) : S.OffRoot := by
  have hsame : S = usedNas := by
    rcases hS with hS | ⟨k, hS⟩
    · simpa [chosen] using hS
    · exact (by simpa [chosen] using hS : k = 0 ∧ S = usedNas).2
  subst hsame
  intro v hv
  rw [List.mem_singleton.mp hv]
  exact List.cons_ne_nil _ _

end Wizard

end Qbt
end Nasd
