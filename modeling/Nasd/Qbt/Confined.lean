import Nasd.Qbt.Configure

/-!
# Nasd.Qbt.Confined

Whether what `Browse`, `Mkdir` and `Configure` act on is in the volumes. The check is made on the
path made clean, its links resolved; `Browse` and `applyDir` hand on the path as it came.

* `Machine`            — a system on which `mkdir -p` makes the directories that a path lacks.
* `applied_iff`        — what the directories of a configuration come to, turn by turn.
* `browsesBelow_of_clean`, `reach_of_clean` — clean paths, in the tree that was checked.
* `inside_volumes_iff` — when everything is in the volumes, whichever they are.
-/

namespace Nasd
namespace Qbt

open Text Go Dirs Files Sys

variable {σ : Type}

/-- A system and the tree of its files. -/
structure Machine (σ : Type) where
  os : OS σ
  tree : σ → FS
  mkdir_tree : ∀ {dir}, HasPrefix dir "/" = true → ∀ env,
    tree (os.run (mkdirP dir) env).2 = (MakeDirs (tree env) dir).tree
  mkdir_err : ∀ {dir}, HasPrefix dir "/" = true → ∀ env,
    (os.run (mkdirP dir) env).1.err = none ↔ (MakeDirs (tree env) dir).arrived.isSome = true
  attributes : ∀ dir mode, ∀ c ∈ [chown dir, chmod mode dir, setfacl dir], ∀ env,
    tree (os.run c env).2 = tree env

/-- The directories that a command makes, or the one whose attributes it sets. -/
def actedOn (c : Cmd) (T : FS) : List (Loc Name) :=
  match c.args.getLast? with
  | none => []
  | some path =>
    if c.name = "mkdir" then (MakeDirs T path).made
    else if c.name ∈ [("chown" : Str), "chmod", "setfacl"] then (Stat T path).toList
    else []

/-- The system, with a record of the directories acted on. -/
def watch (M : Machine σ) : OS (σ × List (Loc Name)) where
  run c s := ((M.os.run c s.1).1, (M.os.run c s.1).2, s.2 ++ actedOn c (M.tree s.1))
  write path content s := ((M.os.write path content s.1).1, (M.os.write path content s.1).2, s.2)
  rename old new s := ((M.os.rename old new s.1).1, (M.os.rename old new s.1).2, s.2)

def watched (h : Host σ) (ls : List (Loc Name)) : Host (σ × List (Loc Name)) :=
  ⟨(h.env, ls), h.files, h.log⟩

/-- The directories that `applyDir` makes, or sets the attributes of, for a configuration. -/
def applied (M : Machine σ) (cfg : Config) (steps : List Step) (h : Host σ) : List (Loc Name) :=
  (applyDirs (watch M) cfg.mode cfg.dirs steps (watched h [])).2.env.2

/-- The directories that `mkdir -p` makes for a path, and the one that it leads to then. -/
def reach (T : FS) (path : Str) : List (Loc Name) :=
  (MakeDirs T path).made ++ ((MakeDirs T path).arrived.map Prod.fst).toList

/-! ## The directories of a configuration -/

variable {M : Machine σ} {mode dir : Str} {steps : List Step} {h : Host σ} {ls : List (Loc Name)}
  {l : Loc Name} {ds : List Str}

theorem run_watched (c : Cmd) : (watched h ls).run (watch M).run c =
    ((h.run M.os.run c).1, watched (h.run M.os.run c).2 (ls ++ actedOn c (M.tree h.env))) := rfl

theorem actedOn_mkdirP (T : FS) : actedOn (mkdirP dir) T = (MakeDirs T dir).made := rfl
theorem actedOn_chown (T : FS) : actedOn (chown dir) T = (Stat T dir).toList := rfl
theorem actedOn_chmod (T : FS) : actedOn (chmod mode dir) T = (Stat T dir).toList := rfl
theorem actedOn_setfacl (T : FS) : actedOn (setfacl dir) T = (Stat T dir).toList := rfl
theorem actedOn_testWrite (T : FS) : actedOn (testWrite dir) T = [] := rfl

/-- The attributes are set at the place where the path leads once it has been made. -/
theorem Stat_made (hdir : HasPrefix dir "/" = true) {r : Loc Name × Nat}
    (hr : (MakeDirs (M.tree h.env) dir).arrived = some r) :
    Stat (M.tree (h.run M.os.run (mkdirP dir)).2.env) dir = some r.1 := by
  have htree : M.tree (h.run M.os.run (mkdirP dir)).2.env = (MakeDirs (M.tree h.env) dir).tree :=
    M.mkdir_tree hdir h.env
  rw [htree, Stat, MakeDirs_arrived hr, Option.map_some]

theorem tree_chown : M.tree (h.run M.os.run (chown dir)).2.env = M.tree h.env :=
  M.attributes dir [] _ (by simp) h.env

theorem tree_chmod : M.tree (h.run M.os.run (chmod mode dir)).2.env = M.tree h.env :=
  M.attributes dir mode _ (by simp) h.env

theorem applyDir_watched (M : Machine σ) (mode : Str) (steps : List Step) (h : Host σ)
    (ls : List (Loc Name)) (hdir : HasPrefix dir "/" = true) : ∃ ls',
    applyDir (watch M) dir mode steps (watched h ls) =
      ((applyDir M.os dir mode steps h).1, watched (applyDir M.os dir mode steps h).2 (ls ++ ls')) ∧
    ∀ l, l ∈ ls' ↔ l ∈ reach (M.tree h.env) dir := by
  have harrived : (h.run M.os.run (mkdirP dir)).1.err = none ↔
      (MakeDirs (M.tree h.env) dir).arrived.isSome = true := M.mkdir_err hdir h.env
  unfold applyDir
  simp only [run_watched, actedOn_mkdirP, actedOn_chown, actedOn_chmod, actedOn_setfacl,
    actedOn_testWrite, List.append_nil]
  cases herr : (h.run M.os.run (mkdirP dir)).1.err with
  | some e =>
    rw [herr] at harrived
    have hnone : (MakeDirs (M.tree h.env) dir).arrived = none := by simpa using harrived
    refine ⟨_, rfl, fun l => ?_⟩
    simp [reach, hnone]
  | none =>
    obtain ⟨r, hr⟩ := Option.isSome_iff_exists.mp (harrived.mp herr)
    have hstat := Stat_made (M := M) hdir hr
    simp only [tree_chmod, tree_chown, hstat, Option.toList_some, List.append_assoc]
    refine ⟨(MakeDirs (M.tree h.env) dir).made ++ [r.1, r.1, r.1], ?_, fun l => ?_⟩
    · split <;> simp
    · simp [reach, hr]

theorem applied_iff_from (hds : ∀ d ∈ ds, HasPrefix d "/" = true) :
    l ∈ (applyDirs (watch M) mode ds steps (watched h ls)).2.env.2 ↔
      l ∈ ls ∨ ∃ p ∈ turns M.os mode ds steps h, l ∈ reach (M.tree p.2.env) p.1 := by
  induction ds generalizing steps h ls with
  | nil => simp [applyDirs, turns, watched]
  | cons d ds ih =>
    obtain ⟨ls', hrun, hreach⟩ :=
      applyDir_watched M mode steps h ls (hds d List.mem_cons_self)
    simp only [applyDirs, turns, hrun]
    cases hok : (applyDir M.os d mode steps h).1.1 with
    | true =>
      rw [if_pos rfl, if_pos rfl, ih fun e he => hds e (List.mem_cons_of_mem _ he)]
      simp [hreach, or_assoc]
    | false =>
      simp [watched, hreach]

/-- The directories acted on are those that each path comes to at its turn. -/
theorem applied_iff {cfg : Config} (hds : ∀ d ∈ cfg.dirs, HasPrefix d "/" = true) :
    l ∈ applied M cfg steps h ↔
      ∃ p ∈ turns M.os cfg.mode cfg.dirs steps h, l ∈ reach (M.tree p.2.env) p.1 := by
  rw [applied, applied_iff_from hds]
  simp

/-! ## When everything is inside -/

/-- The path leads below the innermost directory that a volume would let it through for. -/
def BrowsesBelow (T : FS) (path : Str) : Prop :=
  ∀ d l, innermost T path = some d → ReadDir T path = some l → d <+: l

/-- A clean path is what the check has seen. -/
theorem holds_of_clean {T : FS} {path : Str} {d : Loc Name} (hclean : Filepath.Clean path = path)
    (hd : innermost T path = some d) : ∃ ns, path = pathOf ns ∧
      ∃ hdir : T.isDir d = true,
        holds (canonExisting T (pathOf ns)) (mountOn d hdir).volume = true := by
  obtain ⟨hbad, hdir, hholds⟩ := holds_innermost hd
  obtain ⟨ns, -, hns, -⟩ := exists_seen (T := T) hbad
  refine ⟨ns, hclean.symm.trans hns, hdir, ?_⟩
  rw [← hns]
  exact hholds _ rfl

theorem browsesBelow_of_clean {T : FS} {path : Str} (hclean : Filepath.Clean path = path) :
    BrowsesBelow T path := by
  intro d l hd hl
  obtain ⟨ns, rfl, hdir, hholds⟩ := holds_of_clean hclean hd
  obtain ⟨r, hr, rfl, -⟩ := ReadDir_eq_some.mp hl
  rw [lookup_pathOf] at hr
  exact reached_in_volume hholds hr

/-- In the tree that was checked, a clean path comes to directories below the innermost one. -/
theorem reach_of_clean {T : FS} {path : Str} {d : Loc Name} (hclean : Filepath.Clean path = path)
    (hd : innermost T path = some d) : ∀ l ∈ reach T path, d <+: l := by
  intro l hl
  obtain ⟨ns, rfl, hdir, hholds⟩ := holds_of_clean hclean hd
  rw [reach, MakeDirs_pathOf, List.mem_append, Option.mem_toList, Option.map_eq_some_iff] at hl
  rcases hl with hmade | ⟨r, hr, rfl⟩
  · exact made_in_volume hholds hmade
  · exact arrived_in_volume hholds hr

/-- At its turn, each path of a configuration that can be let through comes to directories below
such an innermost one. -/
def PreparesBelow (M : Machine σ) (cfg : Config) (h : Host σ) : Prop :=
  cfg.tempDir ≠ cfg.downloadsDir →
    (∀ key, innermost (M.tree h.env) (cfg.get key) ≠ none) →
    ∀ h', EnsureInstalled M.os h = (none, h') →
    ∀ p ∈ turns M.os cfg.mode cfg.dirs setUpSteps (EnsureUserGroup M.os h'),
    ∀ l ∈ reach (M.tree p.2.env) p.1,
      ∃ key d, innermost (M.tree h.env) (cfg.get key) = some d ∧ d <+: l

variable {cfg : Config} {h' : Host σ} {order : Order} {vols : List Volume} {T : FS}

theorem setUp_ok_iff {O : OS σ} : setUp O T vols order cfg h = (.ok steps, h') ↔
    (Validate T vols order cfg.toFolders).ok = true ∧
      ∃ h₁, EnsureInstalled O h = (none, h₁) ∧ steps = setUpSteps ∧ h' = EnsureUserGroup O h₁ := by
  unfold setUp
  cases hok : (Validate T vols order cfg.toFolders).ok with
  | false => simp [hok]
  | true =>
    simp only [hok, Bool.not_true, Bool.false_eq_true, if_false, true_and]
    cases hinst : EnsureInstalled O h with
    | mk e h₁ =>
      cases e with
      | none => simp [eq_comm]
      | some e => simp

theorem resolved_rooted {T : FS} {vols : List Volume} {path : Str}
    (hok : ∃ w, resolveInVolumes T vols path = .ok w) : HasPrefix path "/" = true := by
  have hbad : badPath path = false := by
    cases hbad : badPath path with
    | false => rfl
    | true => simp [resolveInVolumes, hbad] at hok
  exact (badPath_iff.mp hbad).2.1

theorem forall_dirs {P : Str → Prop} : (∀ d ∈ cfg.dirs, P d) ↔ ∀ key, P (cfg.get key) := by
  constructor
  · intro hall key
    cases key <;> exact hall _ (by simp [Config.dirs, Folders.get])
  · intro hall d hd
    simp only [Config.dirs, List.mem_cons, List.not_mem_nil, or_false] at hd
    rcases hd with rfl | rfl | rfl
    · exact hall .temp_dir
    · exact hall .torfile_dir
    · exact hall .downloads_dir

theorem configure_inside (hbelow : PreparesBelow M cfg h) (vs : List (Mounted (M.tree h.env)))
    (hset : setUp M.os (M.tree h.env) (vs.map Mounted.volume) order cfg h = (.ok steps, h')) :
    ∀ l ∈ applied M cfg steps h', Inside vs l := by
  obtain ⟨hvalid, h₁, hinst, rfl, rfl⟩ := setUp_ok_iff.mp hset
  obtain ⟨hres, hne⟩ := Validate_ok_iff.mp hvalid
  have hseen : ∀ key, ∃ v ∈ vs, ∃ d, innermost (M.tree h.env) (cfg.get key) = some d ∧
      v.dir <+: d := by
    intro key
    obtain ⟨hbad, v, hv, hholds⟩ := resolve_ok_iff.mp (hres key)
    obtain ⟨d, hd, hpre⟩ := innermost_of_holds hbad hholds
    exact ⟨v, hv, d, hd, hpre⟩
  have hsome : ∀ key, innermost (M.tree h.env) (cfg.get key) ≠ none := by
    intro key
    obtain ⟨v, -, d, hd, -⟩ := hseen key
    simp [hd]
  intro l hl
  obtain ⟨p, hp, hreach⟩ :=
    (applied_iff (forall_dirs.mpr fun key => resolved_rooted (hres key))).mp hl
  obtain ⟨key, d, hd, hpre⟩ := hbelow hne hsome h₁ hinst p hp l hreach
  obtain ⟨v, hv, d', hd', hup⟩ := hseen key
  rw [hd] at hd'
  cases hd'
  exact ⟨v, hv, hup.trans hpre⟩

/-- With a volume on each innermost directory the configuration is let through. -/
theorem exists_volumes (T : FS) (order : Order) (hne : cfg.tempDir ≠ cfg.downloadsDir)
    (hsome : ∀ key, innermost T (cfg.get key) ≠ none) : ∃ vs : List (Mounted T),
      (Validate T (vs.map Mounted.volume) order cfg.toFolders).ok = true ∧
      ∀ v ∈ vs, ∃ key, innermost T (cfg.get key) = some v.dir := by
  have hvol : ∀ key, ∃ v : Mounted T, innermost T (cfg.get key) = some v.dir := by
    intro key
    obtain ⟨d, hd⟩ := Option.ne_none_iff_exists'.mp (hsome key)
    exact ⟨mountOn d (holds_innermost hd).2.1, hd⟩
  choose vol hvol using hvol
  refine ⟨order.keys.map vol, Validate_ok_iff.mpr ⟨fun key => ?_, hne⟩, fun v hv => ?_⟩
  · obtain ⟨hbad, -, hholds⟩ := holds_innermost (hvol key)
    exact resolve_ok_iff.mpr
      ⟨hbad, vol key, List.mem_map_of_mem (order.mem key), hholds _ rfl⟩
  · obtain ⟨key, -, rfl⟩ := List.mem_map.mp hv
    exact ⟨key, hvol key⟩

/-- `Browse`, `Mkdir` and `Configure` act inside the volumes, whichever these are, exactly when the
path to be listed and those of the configuration lead below the directories that were checked. -/
theorem inside_volumes_iff (M : Machine σ) (h : Host σ) (path parent name : Str) (cfg : Config) :
    (∀ (vs : List (Mounted (M.tree h.env))) (order : Order),
      (∀ l ∈ listed (Browse (M.tree h.env) (vs.map Mounted.volume) path), Inside vs l) ∧
      (∀ l ∈ made (Mkdir (M.tree h.env) (vs.map Mounted.volume) parent name), Inside vs l) ∧
      ∀ steps h',
        setUp M.os (M.tree h.env) (vs.map Mounted.volume) order cfg h = (.ok steps, h') →
        ∀ l ∈ applied M cfg steps h', Inside vs l) ↔
    BrowsesBelow (M.tree h.env) path ∧ PreparesBelow M cfg h := by
  constructor
  · intro hinside
    refine ⟨browse_inside_iff.mp fun vs => (hinside vs keysInOrder).1, ?_⟩
    intro hne hsome h₁ hinst p hp l hl
    obtain ⟨vs, hvalid, hvs⟩ := exists_volumes (M.tree h.env) keysInOrder hne hsome
    have hset := setUp_ok_iff.mpr ⟨hvalid, h₁, hinst, rfl, rfl⟩
    have hrooted : ∀ d ∈ cfg.dirs, HasPrefix d "/" = true :=
      forall_dirs.mpr fun key => resolved_rooted ((Validate_ok_iff.mp hvalid).1 key)
    obtain ⟨v, hv, hpre⟩ := (hinside vs keysInOrder).2.2 _ _ hset l
      ((applied_iff hrooted).mpr ⟨p, hp, hl⟩)
    obtain ⟨key, hkey⟩ := hvs v hv
    exact ⟨key, v.dir, hkey, hpre⟩
  · rintro ⟨hbrowse, hprepare⟩ vs order
    exact ⟨browse_inside_iff.mpr hbrowse vs, mkdir_inside,
      fun steps h' hset => configure_inside hprepare vs hset⟩

/-! ## Out of a volume through a link -/

/-- Every command succeeds; `mkdir -p` as far as the tree lets it. -/
def quietMachine : Machine FS where
  os :=
    { run := fun c T =>
        if c.name = "mkdir" then
          match c.args with
          | [_, dir] =>
            (⟨[], [], if (MakeDirs T dir).arrived.isSome then none else some "mkdir"⟩,
              (MakeDirs T dir).tree)
          | _ => (⟨[], [], none⟩, T)
        else (⟨[], [], none⟩, T)
      write := fun _ _ T => (none, T)
      rename := fun _ _ T => (none, T) }
  tree T := T
  mkdir_tree := fun _ _ => rfl
  mkdir_err := by
    intro dir hdir T
    show (if (MakeDirs T dir).arrived.isSome then (none : Option Str) else some "mkdir") = none ↔
      (MakeDirs T dir).arrived.isSome = true
    cases (MakeDirs T dir).arrived <;> simp
  attributes := by
    intro dir mode c hc T
    simp only [List.mem_cons, List.not_mem_nil, or_false] at hc
    rcases hc with rfl | rfl | rfl <;> rfl

def vol : Name := ⟨"vol", by decide⟩
def usr : Name := ⟨"usr", by decide⟩
def lib : Name := ⟨"lib", by decide⟩
def link : Name := ⟨"link", by decide⟩

/-- `/vol/link` is a link to `/usr/lib`. -/
def linkedVol : FS :=
  .ofEntries
    [([vol], .dir), ([vol, link], .link ⟨true, [.name usr, .name lib]⟩), ([usr], .dir),
      ([usr, lib], .dir)]
    (by decide)

def volume : Mounted linkedVol := mountOn [vol] rfl

def escaping : Config where
  tempDir := "/vol/link/.."
  torfileDir := "/vol/torrents"
  downloadsDir := "/vol/downloads"
  permsMode := "2770"
  webUIPort := 8080

/-- `/usr` is listed, and given to the user of the service. -/
theorem usr_taken :
    listed (Browse linkedVol ([volume].map Mounted.volume) "/vol/link/..") = [[usr]] ∧
    (∃ h', setUp quietMachine.os linkedVol ([volume].map Mounted.volume) keysInOrder escaping
        (Host.start linkedVol fun _ => none) = (.ok setUpSteps, h') ∧
      [usr] ∈ applied quietMachine escaping setUpSteps h') ∧
    ¬ Inside [volume] [usr] := by
  refine ⟨by decide +kernel, ⟨_, setUp_ok_iff.mpr ⟨by decide +kernel, _, rfl, rfl, rfl⟩, ?_⟩, ?_⟩
  · decide +kernel
  · rintro ⟨v, hv, hpre⟩
    rw [List.mem_singleton.mp hv] at hpre
    exact absurd hpre (by decide)

end Qbt
end Nasd
