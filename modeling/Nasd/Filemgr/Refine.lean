import Nasd.Filemgr.Folder

/-!
# Nasd.Filemgr.Refine

The file manager against the folder that it stands for: on a root with no link at or below it every
request is answered as for a folder, does what it does to a folder, and touches nothing else. The
root and its links stay as they are, so this holds along every run.

* `resolve_place`  — the names that a request comes to are where it goes.
* `Refines`        — one request, against the folder.
* `serve_refines`  — all of them, from the configured root on.
-/

namespace Nasd
namespace Filemgr

open Text Go Filepath Dirs Files FileTree

/-- Nothing is different outside `rs`. -/
structure Untouched (rs : List Name) (D D' : Disk) : Prop where
  node : ∀ l, ¬ rs <+: l → D'.tree.node l = D.tree.node l
  bytes : ∀ l, ¬ rs <+: l → D'.bytes l = D.bytes l
  modes : ∀ l, ¬ rs <+: l → D'.modes l = D.modes l

/-- An answer and the files after it, against those of the folder. -/
structure Refines (rs : List Name) (D : Disk) (r : Reply × Disk) (q : Outcome × Folder) : Prop where
  outcome : r.1.outcome = q.1
  view : view rs r.2 = q.2
  root : PlainRoot r.2.tree rs
  outside : Untouched rs D r.2

def Host.defaults (h : Host) : Defaults := ⟨h.masked 0o755, h.masked 0o644⟩

variable {h : Host} {m : Manager} {D : Disk} {rs ns : List Name} {rel : Str}

theorem Untouched.refl : Untouched rs D D := ⟨fun _ _ => rfl, fun _ _ => rfl, fun _ _ => rfl⟩

theorem Untouched.trans {D' D'' : Disk} (h₁ : Untouched rs D D') (h₂ : Untouched rs D' D'') :
    Untouched rs D D'' :=
  ⟨fun l hl => (h₂.node l hl).trans (h₁.node l hl),
    fun l hl => (h₂.bytes l hl).trans (h₁.bytes l hl),
    fun l hl => (h₂.modes l hl).trans (h₁.modes l hl)⟩

theorem Refines.refl {reply : Reply} {o : Outcome} (hplain : PlainRoot D.tree rs)
    (ho : reply.outcome = o) : Refines rs D (reply, D) (o, Filemgr.view rs D) :=
  ⟨ho, rfl, hplain, .refl⟩

/-! ## Paths -/

theorem place_eq_none (hnone : place rel = none) : '\x00' ∈ absPath (normalised rel) := by
  unfold place at hnone
  split at hnone
  · assumption
  · cases hnone

theorem place_eq_some (hplace : place rel = some ns) : normalised rel = ns.map Subtype.val := by
  unfold place at hplace
  split at hplace
  · cases hplace
  · rename_i hnul
    obtain ⟨xs, hpath, hnames⟩ := exists_names (normalised_names rel) hnul
    rw [hpath, locOf_pathOf] at hplace
    cases hplace
    exact hnames

section

variable (hroot : m.root = pathOf rs) (hne : rs ≠ [])
include hroot hne

theorem resolve_place (hplace : place rel = some ns) : m.resolve rel = .ok (pathOf (rs ++ ns)) := by
  rw [resolve_absPath hroot (pathOf_names rs) (mt List.map_eq_nil_iff.mp hne), pathOf,
    place_eq_some hplace, List.map_append]

theorem resolve_nul (hnone : place rel = none) :
    ∃ abs, m.resolve rel = .ok abs ∧ '\x00' ∈ abs ∧ abs ≠ m.root := by
  refine ⟨_, resolve_absPath hroot (pathOf_names rs) (mt List.map_eq_nil_iff.mp hne) rel, ?_⟩
  have hmem : '\x00' ∈ absPath (rs.map Subtype.val ++ normalised rel) := by
    obtain ⟨n, hn, hc⟩ : ∃ n ∈ normalised rel, '\x00' ∈ n := by
      rcases List.mem_cons.mp (place_eq_none hnone) with heq | hmem
      · exact absurd heq (by decide)
      · rcases mem_Join hmem with hex | hc
        · exact hex
        · exact absurd hc (by decide)
    exact List.mem_cons_of_mem _ (mem_Join_of_mem (List.mem_append_right _ hn) hc)
  refine ⟨hmem, fun heq => nul_not_mem_pathOf rs ?_⟩
  rwa [heq, hroot] at hmem

/-- A path with NUL in it leaves what `MkdirAll` makes for the names before. -/
theorem MkdirAll_way (hnone : place rel = none) : ∃ abs, m.resolve rel = .ok abs ∧
    MkdirAll D.tree abs =
      { MkdirAll D.tree (pathOf (rs ++ way rel)) with arrived := none } := by
  obtain ⟨abs, hok, hnul, -⟩ := resolve_nul hroot hne hnone
  rw [resolve_absPath hroot (pathOf_names rs) (mt List.map_eq_nil_iff.mp hne)] at hok
  cases hok
  refine ⟨_, resolve_absPath hroot (pathOf_names rs) (mt List.map_eq_nil_iff.mp hne) rel, ?_⟩
  obtain ⟨ns, hns⟩ := exists_before (normalised_names rel)
  have hway : way rel = ns := by
    rw [way, ← hns]
    exact locOf_pathOf ns
  have hbefore : ∀ n ∈ rs.map Subtype.val, decide ('\x00' ∉ n) = true := by
    intro n hn
    obtain ⟨k, -, rfl⟩ := List.mem_map.mp hn
    exact decide_eq_true k.2.2
  rw [hway]
  refine MkdirAll_nul (List.forall_mem_append.mpr ⟨pathOf_names rs, normalised_names rel⟩) hnul ?_
  rw [List.takeWhile_append_of_pos hbefore, List.map_append, hns]

end

/-! ## The folder below the root -/

section

variable {l : Loc Name} {mounts : List (Loc Name)}

theorem isDir_view : (view rs D).isDir l = D.tree.isDir (rs ++ l) := by
  simp only [Folder.isDir, FileTree.isDir, view, Disk.item]
  cases D.tree.node (rs ++ l) with
  | none => rfl
  | some n => cases n <;> rfl

theorem isFile_view : (view rs D).isFile l = true ↔ D.tree.node (rs ++ l) = some .file := by
  simp only [Folder.isFile, view, Disk.item]
  cases D.tree.node (rs ++ l) with
  | none => simp
  | some n => cases n <;> simp

theorem blocked_view : (view rs D).blocked l = true ↔ Blocked D.tree rs l := by
  simp only [Folder.blocked, List.any_eq_true, List.mem_inits, isFile_view, Blocked]

theorem item_none (hplain : PlainRoot D.tree rs) :
    (view rs D).item l = none ↔ D.tree.node (rs ++ l) = none := by
  simp only [view, Disk.item]
  cases hn : D.tree.node (rs ++ l) with
  | none => simp
  | some n =>
    cases n with
    | dir => simp
    | file => simp
    | link p => cases hplain.plain _ _ (List.prefix_append _ _) hn

/-- The mount points below the root. -/
def below (rs : List Name) (mounts : List (Loc Name)) : List (Loc Name) :=
  mounts.filterMap fun p => if rs <+: p then some (p.drop rs.length) else none

theorem view_mounts : (view rs D).mounts = below rs D.mounts := rfl

theorem mem_below : l ∈ below rs mounts ↔ rs ++ l ∈ mounts := by
  rw [below, List.mem_filterMap]
  constructor
  · rintro ⟨p, hp, heq⟩
    split at heq
    · rename_i hpre
      obtain ⟨t, rfl⟩ := hpre
      rw [List.drop_left, Option.some.injEq] at heq
      rwa [← heq]
    · cases heq
  · intro hl
    exact ⟨_, hl, by rw [if_pos (List.prefix_append _ _), List.drop_left]⟩

theorem holds_below : holds (below rs mounts) l = holds mounts (rs ++ l) := by
  rw [Bool.eq_iff_iff, holds_iff, holds_iff]
  constructor
  · rintro ⟨p, hp, hpre⟩
    exact ⟨_, mem_below.mp hp, (List.prefix_append_right_inj rs).mpr hpre⟩
  · rintro ⟨p, hp, t, rfl⟩
    refine ⟨l ++ t, mem_below.mpr ?_, List.prefix_append _ _⟩
    rwa [← List.append_assoc]

theorem sameMount_below {k : Loc Name} :
    sameMount (below rs mounts) l k = sameMount mounts (rs ++ l) (rs ++ k) := by
  rw [Bool.eq_iff_iff, sameMount_iff, sameMount_iff]
  constructor
  · intro hsame p hp
    by_cases hpre : rs <+: p
    · obtain ⟨t, rfl⟩ := hpre
      rw [List.prefix_append_right_inj, List.prefix_append_right_inj]
      exact hsame t (mem_below.mpr hp)
    · -- a mount point on the way to the root is on the way to both, or to neither
      have hside : ∀ x, p <+: rs ++ x → p <+: rs := fun x hx =>
        (List.prefix_or_prefix_of_prefix hx (List.prefix_append rs x)).resolve_right hpre
      exact ⟨fun hx => (hside l hx).trans (List.prefix_append _ _),
        fun hx => (hside k hx).trans (List.prefix_append _ _)⟩
  · intro hsame t ht
    have hp := hsame _ (mem_below.mp ht)
    rwa [List.prefix_append_right_inj, List.prefix_append_right_inj] at hp

theorem below_moveMounts {s d : Loc Name} :
    below rs (moveMounts (rs ++ s) (rs ++ d) mounts) = moveMounts s d (below rs mounts) := by
  induction mounts with
  | nil => rfl
  | cons p ps ih =>
    have hcons : ∀ q qs, below rs (q :: qs) =
        (if rs <+: q then [q.drop rs.length] else []) ++ below rs qs := by
      intro q qs
      rw [below, List.filterMap_cons]
      by_cases hq : rs <+: q
      · rw [if_pos hq, if_pos hq]; rfl
      · rw [if_neg hq, if_neg hq]; rfl
    have hmove : moveMounts (rs ++ s) (rs ++ d) (p :: ps) =
        whence (rs ++ d) (rs ++ s) p :: moveMounts (rs ++ s) (rs ++ d) ps := rfl
    rw [hmove, hcons, hcons, ih, moveMounts, moveMounts, List.map_append]
    congr 1
    by_cases hpre : rs <+: p
    · obtain ⟨t, rfl⟩ := hpre
      rw [whence_append, if_pos (List.prefix_append _ _), if_pos (List.prefix_append _ _),
        List.drop_left, List.drop_left, List.map_singleton]
    · have hstay : whence (rs ++ d) (rs ++ s) p = p :=
        if_neg fun hs => hpre ((List.prefix_append _ _).trans hs)
      rw [hstay, if_neg hpre]
      rfl

end

/-! ## More entries -/

section

variable {S : Store} {mode : Nat} {l : Loc Name}

theorem grow_self (mode : Nat) : D.grow D.toStore mode = D := by
  have hmodes : (D.grow D.toStore mode).modes = D.modes := by
    funext l
    simp only [Disk.grow]
    cases D.tree.node l <;> rfl
  rw [Disk.grow] at hmodes ⊢
  simp only at hmodes
  rw [hmodes]

theorem grow_modes (hsame : S.tree.node l = D.tree.node l) :
    (D.grow S mode).modes l = D.modes l := by
  simp only [Disk.grow, hsame]
  cases D.tree.node l <;> rfl

theorem item_congr {D' : Disk} (hnode : D'.tree.node l = D.tree.node l)
    (hmodes : D'.modes l = D.modes l) (hbytes : D'.bytes l = D.bytes l) :
    D'.item l = D.item l := by
  rw [Disk.item, Disk.item, hnode, hmodes, hbytes]

theorem grow_item_old (hnode : S.tree.node l = D.tree.node l) (hbytes : S.bytes l = D.bytes l) :
    (D.grow S mode).item l = D.item l :=
  item_congr hnode (grow_modes hnode) hbytes

theorem grow_item_dir (hold : D.tree.node l = none) (hnew : S.tree.node l = some .dir) :
    (D.grow S mode).item l = some (.dir mode) := by
  simp [Disk.item, Disk.grow, hold, hnew]

end

/-! ## Moves -/

section

variable {s d : Loc Name}

theorem whence_self (l : Loc Name) : whence s s l = l := by
  unfold whence
  split
  · rename_i hpre
    obtain ⟨t, rfl⟩ := hpre
    rw [List.drop_left]
  · rfl

theorem Folder.rename_self (F : Folder) : F.rename s s = F := by
  refine Folder.ext (funext fun l => ?_) ?_
  · show (if ¬ s <+: l ∧ s <+: l then none else F.item (whence s s l)) = F.item l
    rw [if_neg fun hc => hc.1 hc.2, whence_self]
  · rw [Folder.rename, moveMounts, funext whence_self, List.map_id']

theorem moved_refines (hplain : PlainRoot D.tree rs) (hcan : (Filemgr.view rs D).CanRename s d)
    (hother : s ≠ d) : Refines rs D (.done 200 "renamed", D.moved (rs ++ s) (rs ++ d))
      (.done 200, (Filemgr.view rs D).rename s d) := by
  obtain ⟨hs, hd, hsome, hup, hnot, -, hrest⟩ := hcan
  have hout := (hrest.resolve_left hother).1
  have hmov : Movable D.tree (rs ++ s) (rs ++ d) := by
    refine ⟨by simp [hs], mt (item_none hplain).mpr hsome, by simp [hd], ?_, ?_, ?_⟩
    · rw [isDir_view] at hup
      rwa [List.dropLast_append_of_ne_nil hd]
    · rwa [isDir_view] at hnot
    · rwa [List.prefix_append_right_inj]
  have haway : ∀ l, ¬ rs <+: l → ¬ rs ++ s <+: l ∧ ¬ rs ++ d <+: l := fun l hl =>
    ⟨fun hpre => hl ((List.prefix_append _ _).trans hpre),
      fun hpre => hl ((List.prefix_append _ _).trans hpre)⟩
  have hstay : ∀ l, ¬ rs <+: l → whence (rs ++ s) (rs ++ d) l = l := fun l hl =>
    if_neg (haway l hl).2
  have hkept : ∀ l, ¬ rs ++ s <+: l → ¬ rs ++ d <+: l →
      (D.tree.move (rs ++ s) (rs ++ d)).node l = D.tree.node l := by
    intro l hls hld
    rw [move_node hmov, if_neg fun hc => hls hc.2, whence, if_neg hld]
  refine ⟨rfl, Folder.ext (funext fun l => ?_) below_moveMounts,
    ⟨(hkept rs ?_ ?_).trans hplain.dir, hplain.plain.move (List.prefix_append _ _)⟩,
    ⟨fun l hl => hkept l (haway l hl).1 (haway l hl).2,
      fun l hl => congrArg D.bytes (hstay l hl), fun l hl => congrArg D.modes (hstay l hl)⟩⟩
  · show (D.moved (rs ++ s) (rs ++ d)).item (rs ++ l) =
      if ¬ d <+: l ∧ s <+: l then none else D.item (rs ++ whence s d l)
    have hbytes : (D.moved (rs ++ s) (rs ++ d)).bytes (rs ++ l) = D.bytes (rs ++ whence s d l) :=
      congrArg D.bytes whence_append
    have hmodes : (D.moved (rs ++ s) (rs ++ d)).modes (rs ++ l) = D.modes (rs ++ whence s d l) :=
      congrArg D.modes whence_append
    have hnode : (D.moved (rs ++ s) (rs ++ d)).tree.node (rs ++ l) =
        if ¬ d <+: l ∧ s <+: l then none else D.tree.node (rs ++ whence s d l) := by
      have hmoved := move_node (m := rs ++ l) hmov
      simp only [List.prefix_append_right_inj, whence_append] at hmoved
      exact hmoved
    rw [Disk.item, hnode, hbytes, hmodes]
    by_cases hgone : ¬ d <+: l ∧ s <+: l
    · rw [if_pos hgone, if_pos hgone]
    · rw [if_neg hgone, if_neg hgone]
      rfl
  · intro hpre
    have hlen := hpre.length_le
    have hpos := List.length_pos_iff.mpr hs
    rw [List.length_append] at hlen
    omega
  · intro hpre
    have hlen := hpre.length_le
    have hpos := List.length_pos_iff.mpr hd
    rw [List.length_append] at hlen
    omega

end

/-- The directories that are made are folders, and nothing else is different. -/
theorem grow_refines {reply : Reply} {o : Outcome} (hplain : PlainRoot D.tree rs)
    (ho : reply.outcome = o) (hfree : ¬ Blocked D.tree rs ns) :
    Refines rs D
      (reply, D.grow { D.toStore with tree := (MkdirAll D.tree (pathOf (rs ++ ns))).tree }
        (h.masked 0o755))
      (o, (view rs D).mkdir h.defaults.dir ns) := by
  have hnode := ((MkdirAll_below hplain).2 hfree).2
  have hkept : ∀ l, ¬ (rs <+: l ∧ l <+: rs ++ ns ∧ D.tree.node l = none) →
      (MkdirAll D.tree (pathOf (rs ++ ns))).tree.node l = D.tree.node l :=
    fun l hl => (hnode l).trans (if_neg hl)
  refine ⟨ho, ?_, ⟨?_, ?_⟩, ⟨fun l hl => hkept l fun hc => hl hc.1, fun _ _ => rfl, ?_⟩⟩
  · refine Folder.ext (funext fun l => ?_) rfl
    show (D.grow _ _).item (rs ++ l) = if l <+: ns ∧ (view rs D).item l = none then _ else _
    by_cases hnew : l <+: ns ∧ D.tree.node (rs ++ l) = none
    · rw [if_pos ⟨hnew.1, (item_none hplain).mpr hnew.2⟩]
      refine grow_item_dir hnew.2 ((hnode _).trans (if_pos ?_))
      exact ⟨List.prefix_append _ _, (List.prefix_append_right_inj rs).mpr hnew.1, hnew.2⟩
    · rw [if_neg fun hc => hnew ⟨hc.1, (item_none hplain).mp hc.2⟩]
      refine grow_item_old (hkept _ fun hc => hnew ⟨?_, hc.2.2⟩) rfl
      exact (List.prefix_append_right_inj rs).mp hc.2.1
  · exact (hkept rs fun hc => by rw [hplain.dir] at hc; cases hc.2.2).trans hplain.dir
  · intro l n hl hn
    have hn' := (hnode l).symm.trans hn
    split at hn'
    · cases hn'; rfl
    · exact hplain.plain l n hl hn'
  · exact fun l hl => grow_modes (hkept l fun hc => hl hc.1)

/-! ## Requests -/

section

variable (hroot : m.root = pathOf rs) (hne : rs ≠ []) (hplain : PlainRoot D.tree rs)
include hroot hne hplain

theorem mkdir_refines (body : Option Str) : Refines rs D (FileHandlers.mkdir h m D body)
    ((view rs D).handle h.defaults (.mkdir body)) := by
  cases body with
  | none => exact .refl hplain rfl
  | some path =>
    unfold FileHandlers.mkdir Folder.handle
    dsimp only
    cases hplace : place path with
    | none =>
      obtain ⟨abs, hok, hmade⟩ := MkdirAll_way (D := D) hroot hne hplace
      simp only [Manager.Mkdir, hok, Except.map, hmade]
      by_cases hb : Blocked D.tree rs (way path)
      · rw [if_pos (blocked_view.mpr hb), ((MkdirAll_below hplain).1 hb).2, grow_self]
        exact .refl hplain rfl
      · rw [if_neg (mt blocked_view.mp hb)]
        exact grow_refines hplain rfl hb
    | some ns =>
      simp only [Manager.Mkdir, resolve_place hroot hne hplace, Except.map]
      by_cases hb : Blocked D.tree rs ns
      · obtain ⟨harrived, htree⟩ := (MkdirAll_below hplain).1 hb
        rw [if_pos (blocked_view.mpr hb), harrived, htree, grow_self]
        exact .refl hplain rfl
      · rw [if_neg (mt blocked_view.mp hb), ((MkdirAll_below hplain).2 hb).1]
        exact grow_refines hplain rfl hb

theorem chmod_refines (body : Option (Str × Str)) : Refines rs D (FileHandlers.chmod h m D body)
    ((view rs D).handle h.defaults (.chmod body)) := by
  rcases body with - | ⟨path, mode⟩
  · exact .refl hplain rfl
  · unfold FileHandlers.chmod Folder.handle
    dsimp only
    cases ParseUint mode 8 32 with
    | none => exact .refl hplain rfl
    | some v =>
      dsimp only
      by_cases hv : v > 0o777
      · rw [if_pos hv, if_pos hv]
        exact .refl hplain rfl
      · rw [if_neg hv, if_neg hv]
        cases hplace : place path with
        | none =>
          obtain ⟨abs, hok, hnul, -⟩ := resolve_nul hroot hne hplace
          have hnone : Files.Chmod D.tree abs = none := by
            rw [Files.Chmod, Stat, lookup_nul hnul, Option.map_none]
          simp only [Manager.Chmod, hok, Except.map, hnone]
          exact .refl hplain rfl
        | some ns =>
          simp only [Manager.Chmod, resolve_place hroot hne hplace, Except.map, Files.Chmod,
            Stat_below hplain]
          by_cases hnone : D.tree.node (rs ++ ns) = none
          · rw [if_pos hnone, if_pos ((item_none hplain).mpr hnone)]
            exact .refl hplain rfl
          · rw [if_neg hnone, if_neg (mt (item_none hplain).mp hnone)]
            refine ⟨rfl, Folder.ext (funext fun l => ?_) rfl, hplain,
              ⟨fun _ _ => rfl, fun _ _ => rfl, ?_⟩⟩
            · show Disk.item { D with modes := Function.update D.modes (rs ++ ns) v } (rs ++ l) =
                Function.update (view rs D).item ns (((view rs D).item ns).map (Item.withMode v)) l
              by_cases hl : l = ns
              · subst hl
                simp only [Disk.item, Function.update_self, view]
                cases D.tree.node (rs ++ l) with
                | none => rfl
                | some n => cases n <;> rfl
              · have hother : rs ++ l ≠ rs ++ ns := fun heq => hl (List.append_cancel_left heq)
                simp only [Disk.item, Function.update_of_ne hl, Function.update_of_ne hother, view]
            · intro l hl
              refine Function.update_of_ne ?_ _ _
              rintro rfl
              exact hl (List.prefix_append _ _)

theorem download_refines (path : Str) : Refines rs D (FileHandlers.download h m D path, D)
    ((view rs D).handle h.defaults (.download path)) := by
  unfold FileHandlers.download Folder.handle
  dsimp only
  cases hplace : place path with
  | none =>
    obtain ⟨abs, hok, hnul, -⟩ := resolve_nul hroot hne hplace
    have hnone : Open D.tree abs = none := by
      rw [Open, Stat, lookup_nul hnul, Option.map_none]
    simp only [Manager.OpenForDownload, hok, hnone]
    exact .refl hplain rfl
  | some ns =>
    have hok := resolve_place hroot hne hplace
    simp only [Manager.OpenForDownload, hok, Open, Stat_below hplain]
    have hitem : (view rs D).item ns = D.item (rs ++ ns) := rfl
    cases hn : D.tree.node (rs ++ ns) with
    | none =>
      have hnone := (item_none hplain).mpr hn
      simp only [if_true, hnone]
      exact .refl hplain rfl
    | some n =>
      rw [if_neg (by simp)]
      cases n with
      | link p => cases hplain.plain _ _ (List.prefix_append _ _) hn
      | dir =>
        have hdir : D.tree.isDir (rs ++ ns) = true := isDir_iff.mpr hn
        simp only [hdir, if_true, hitem, Disk.item, hn]
        exact .refl hplain rfl
      | file =>
        have hdir : D.tree.isDir (rs ++ ns) = false := isDir_of_file hn
        simp only [hdir, hitem, Disk.item, hn]
        refine .refl hplain ?_
        -- the root is a directory, so a file has a name
        cases ns using List.reverseRecOn with
        | nil => rw [List.append_nil, hplain.dir] at hn; cases hn
        | append_singleton ns a =>
          have hbase : Base (pathOf (rs ++ (ns ++ [a]))) = a.1 := by
            rw [pathOf, ← List.append_assoc, List.map_append]
            exact Base_absPath a.2.1
          rw [hbase, List.getLast?_concat]
          rfl

theorem remove_refines (confirm path : Str) :
    Refines rs D (FileHandlers.remove h m D confirm path)
      ((view rs D).handle h.defaults (.remove confirm path)) := by
  unfold FileHandlers.remove Folder.handle
  dsimp only
  by_cases hconfirm : confirm ≠ "true"
  · rw [if_pos hconfirm, if_pos hconfirm]
    exact .refl hplain rfl
  · rw [if_neg hconfirm, if_neg hconfirm]
    cases hplace : place path with
    | none =>
      obtain ⟨abs, hok, hnul, hother⟩ := resolve_nul hroot hne hplace
      simp only [Manager.Remove, hok, if_neg hother, RemoveAll_nul hnul]
      exact .refl hplain rfl
    | some ns =>
      have hsame : pathOf (rs ++ ns) = m.root ↔ ns = [] := by
        rw [hroot]
        constructor
        · intro heq
          simpa using pathOf_injective heq
        · intro hnil
          rw [hnil, List.append_nil]
      simp only [Manager.Remove, resolve_place hroot hne hplace, hsame]
      cases ns using List.reverseRecOn with
      | nil => exact .refl hplain rfl
      | append_singleton ns a =>
        rw [if_neg (by simp), if_neg (by simp)]
        dsimp only
        rw [RemoveAll, entryOf_below hplain]
        cases hup : D.tree.isDir (rs ++ ns) with
        | false =>
          -- nothing is below what is no directory
          have hnone : D.tree.node (rs ++ (ns ++ [a])) = none := by
            by_contra hsome
            rw [← List.append_assoc] at hsome
            rw [isDir_iff.mpr (D.tree.closed _ a hsome)] at hup
            cases hup
          have hmissing : missing D.tree (pathOf (rs ++ (ns ++ [a]))) =
              !(view rs D).blocked (ns ++ [a]) := by
            rw [Bool.eq_iff_iff, missing_below hplain, Bool.not_eq_true', ← Bool.not_eq_true,
              blocked_view, blocked_concat hnone]
            refine and_iff_right_of_imp fun hfree => ?_
            cases hn : D.tree.node (rs ++ ns) with
            | none => rfl
            | some n =>
              cases n with
              | link p => cases hplain.plain _ _ (List.prefix_append _ _) hn
              | dir => rw [isDir_iff.mpr hn] at hup; cases hup
              | file => exact absurd ⟨ns, List.prefix_refl _, hn⟩ hfree
          rw [if_pos ((item_none hplain).mpr hnone)]
          simp only [Bool.false_eq_true, if_false, hmissing]
          cases (view rs D).blocked (ns ++ [a]) <;> exact .refl hplain rfl
        | true =>
          simp only [if_true]
          by_cases hnone : D.tree.node (rs ++ (ns ++ [a])) = none
          · have hfree : (view rs D).blocked (ns ++ [a]) = false := by
              rw [← Bool.not_eq_true, blocked_view, blocked_concat hnone]
              exact not_blocked_of_dir hup
            rw [if_pos hnone, if_pos ((item_none hplain).mpr hnone), hfree]
            exact .refl hplain rfl
          · rw [if_neg hnone, if_neg (mt (item_none hplain).mp hnone)]
            dsimp only
            have hkept : ∀ l, ¬ rs ++ (ns ++ [a]) <+: l →
                (D.tree.remove D.mounts (rs ++ (ns ++ [a]))).node l = D.tree.node l := by
              intro l hl
              rw [remove_node, if_neg fun hc => hl hc.2.1]
            refine ⟨?_, Folder.ext (funext fun l => ?_) rfl, ⟨?_, hplain.plain.remove⟩,
              ⟨fun l hl => hkept l ?_, fun _ _ => rfl, fun _ _ => rfl⟩⟩
            · rw [view_mounts, holds_below]
              cases holds D.mounts (rs ++ (ns ++ [a])) <;> rfl
            · show Disk.item { D with tree := D.tree.remove D.mounts (rs ++ (ns ++ [a])) }
                  (rs ++ l) =
                if ns ++ [a] <+: l ∧ holds (view rs D).mounts l = false then none
                else (view rs D).item l
              have hiff : rs ++ (ns ++ [a]) ≠ [] ∧ rs ++ (ns ++ [a]) <+: rs ++ l ∧
                  holds D.mounts (rs ++ l) = false ↔
                  ns ++ [a] <+: l ∧ holds (view rs D).mounts l = false := by
                rw [view_mounts, holds_below, List.prefix_append_right_inj]
                exact and_iff_right (by simp)
              rw [Disk.item, remove_node]
              by_cases hgone : ns ++ [a] <+: l ∧ holds (view rs D).mounts l = false
              · rw [if_pos (hiff.mpr hgone), if_pos hgone]
              · rw [if_neg (mt hiff.mp hgone), if_neg hgone]
                rfl
            · refine (hkept rs fun hpre => ?_).trans hplain.dir
              have hlen := hpre.length_le
              simp only [List.length_append, List.length_singleton] at hlen
              omega
            · exact fun hpre => hl ((List.prefix_append _ _).trans hpre)

omit hroot in
/-- The root is neither moved nor replaced. -/
theorem Rename_root {s d : Loc Name} (hnil : s = [] ∨ d = []) :
    Files.Rename D.tree D.mounts (pathOf (rs ++ s)) (pathOf (rs ++ d)) = .failed := by
  have hlonger : ∀ (ns : Loc Name) (a : Name), rs ≠ rs ++ (ns ++ [a]) := by
    intro ns a heq
    have hlen := congrArg List.length heq
    simp only [List.length_append, List.length_singleton] at hlen
    omega
  unfold Files.Rename
  rcases List.eq_nil_or_concat d with rfl | ⟨d, b, rfl⟩
  · rw [List.append_nil, entryOf_root hplain hne]
    rcases List.eq_nil_or_concat s with rfl | ⟨s, a, rfl⟩
    · rw [List.append_nil, entryOf_root hplain hne]
      exact if_pos ⟨hplain.isDir, .inr rfl⟩
    · rw [List.concat_eq_append, entryOf_below hplain]
      split
      · rename_i src dst hsrc hdst
        split at hsrc
        · cases hsrc
          cases hdst
          exact if_pos ⟨hplain.isDir, .inl (hlonger s a).symm⟩
        · cases hsrc
      · rfl
  · obtain rfl := hnil.resolve_right (by simp)
    rw [List.append_nil, entryOf_root hplain hne, List.concat_eq_append, entryOf_below hplain]
    split
    · rename_i src dst hsrc hdst
      cases hsrc
      split at hdst
      · cases hdst
        -- it would go below itself
        rw [if_neg (hlonger d b), if_pos (List.prefix_append rs (d ++ [b]))]
        simp only [ite_self]
      · cases hdst
    · rfl

omit hroot hne in
theorem Rename_below (s d : Loc Name) (a b : Name) :
    Files.Rename D.tree D.mounts (pathOf (rs ++ (s ++ [a]))) (pathOf (rs ++ (d ++ [b]))) =
      if (view rs D).CanRename (s ++ [a]) (d ++ [b]) then
        if s ++ [a] = d ++ [b] then .same else .moved (rs ++ (s ++ [a])) (rs ++ (d ++ [b]))
      else .failed := by
  have hpath : pathOf (rs ++ (s ++ [a])) = pathOf (rs ++ (d ++ [b])) ↔ s ++ [a] = d ++ [b] :=
    ⟨fun heq => List.append_cancel_left (pathOf_injective heq), fun heq => by rw [heq]⟩
  have hsame : rs ++ (s ++ [a]) = rs ++ (d ++ [b]) ↔ s ++ [a] = d ++ [b] :=
    ⟨List.append_cancel_left, fun heq => by rw [heq]⟩
  have hdrop : ∀ (x : Loc Name) (c : Name), (rs ++ (x ++ [c])).dropLast = rs ++ x := by
    intro x c
    rw [← List.append_assoc, List.dropLast_concat]
  have hcan : (view rs D).CanRename (s ++ [a]) (d ++ [b]) ↔
      D.tree.node (rs ++ (s ++ [a])) ≠ none ∧ D.tree.isDir (rs ++ d) = true ∧
        D.tree.isDir (rs ++ (d ++ [b])) = false ∧
        sameMount D.mounts (rs ++ s) (rs ++ d) = true ∧
        (s ++ [a] = d ++ [b] ∨ ¬ rs ++ (s ++ [a]) <+: rs ++ (d ++ [b]) ∧
          ¬ (D.tree.isDir (rs ++ (s ++ [a])) = true ∧ D.tree.node (rs ++ (d ++ [b])) ≠ none) ∧
          ¬ (rs ++ (s ++ [a]) ∈ D.mounts ∨ rs ++ (d ++ [b]) ∈ D.mounts)) := by
    simp only [Folder.CanRename, ne_eq, List.append_eq_nil_iff, List.cons_ne_nil, and_false,
      not_false_eq_true, true_and, item_none hplain, isDir_view, List.dropLast_concat,
      view_mounts, sameMount_below, mem_below, List.prefix_append_right_inj, not_or]
  unfold Files.Rename
  rw [entryOf_below hplain, entryOf_below hplain]
  by_cases hdst : D.tree.isDir (rs ++ d) = true
  · by_cases hsrc : D.tree.isDir (rs ++ s) = true
    · simp only [if_pos hsrc, if_pos hdst, hpath, hsame, hdrop]
      -- each refusal of the system is one of the conditions
      by_cases hdir : D.tree.isDir (rs ++ (d ++ [b])) = true
      · rw [if_pos ⟨hdir, (ne_or_eq _ _).imp_left (mt hsame.mp)⟩, if_neg]
        rw [hcan, hdir]
        rintro ⟨-, -, hno, -⟩
        cases hno
      rw [if_neg fun hc => hdir hc.1]
      by_cases hmount : sameMount D.mounts (rs ++ s) (rs ++ d) = false
      · rw [if_pos hmount, if_neg]
        rw [hcan, hmount]
        rintro ⟨-, -, -, hno, -⟩
        cases hno
      rw [if_neg hmount]
      by_cases hnone : D.tree.node (rs ++ (s ++ [a])) = none
      · rw [if_pos hnone, if_neg fun hc => (hcan.mp hc).1 hnone]
      rw [if_neg hnone]
      have hstart : D.tree.node (rs ++ (s ++ [a])) ≠ none ∧ D.tree.isDir (rs ++ d) = true ∧
          D.tree.isDir (rs ++ (d ++ [b])) = false ∧
          sameMount D.mounts (rs ++ s) (rs ++ d) = true :=
        ⟨hnone, hdst, Bool.eq_false_iff.mpr hdir, by simpa using hmount⟩
      by_cases heq : s ++ [a] = d ++ [b]
      · rw [if_pos heq, if_pos heq, if_pos]
        exact hcan.mpr ⟨hstart.1, hstart.2.1, hstart.2.2.1, hstart.2.2.2, .inl heq⟩
      rw [if_neg heq, if_neg heq]
      by_cases hpre : rs ++ (s ++ [a]) <+: rs ++ (d ++ [b])
      · rw [if_pos hpre, if_neg fun hc => ((hcan.mp hc).2.2.2.2.resolve_left heq).1 hpre]
      rw [if_neg hpre]
      by_cases hover : D.tree.isDir (rs ++ (s ++ [a])) = true ∧
          D.tree.node (rs ++ (d ++ [b])) ≠ none
      · rw [if_pos hover, if_neg fun hc => ((hcan.mp hc).2.2.2.2.resolve_left heq).2.1 hover]
      rw [if_neg hover]
      by_cases hbusy : rs ++ (s ++ [a]) ∈ D.mounts ∨ rs ++ (d ++ [b]) ∈ D.mounts
      · rw [if_pos hbusy, if_neg fun hc => ((hcan.mp hc).2.2.2.2.resolve_left heq).2.2 hbusy]
      rw [if_neg hbusy, if_pos]
      exact hcan.mpr ⟨hstart.1, hstart.2.1, hstart.2.2.1, hstart.2.2.2, .inr ⟨hpre, hover, hbusy⟩⟩
    · have hnone : D.tree.node (rs ++ (s ++ [a])) = none := by
        by_contra hsome
        rw [← List.append_assoc] at hsome
        exact hsrc (isDir_iff.mpr (D.tree.closed _ a hsome))
      rw [if_neg hsrc, if_neg fun hc => (hcan.mp hc).1 hnone]
  · rw [if_neg hdst, if_neg fun hc => hdst (hcan.mp hc).2.1]
    split
    · rename_i hnone
      cases hnone
    · rfl

theorem rename_refines (body : Option (Str × Str)) : Refines rs D (FileHandlers.rename h m D body)
    ((view rs D).handle h.defaults (.rename body)) := by
  rcases body with - | ⟨src, dst⟩
  · exact .refl hplain rfl
  · unfold FileHandlers.rename Folder.handle
    dsimp only
    cases hsrc : place src with
    | none =>
      obtain ⟨x, hx, hnul, -⟩ := resolve_nul hroot hne hsrc
      have hfail : ∃ y, m.resolve dst = .ok y :=
        ⟨_, resolve_absPath hroot (pathOf_names rs) (mt List.map_eq_nil_iff.mp hne) dst⟩
      obtain ⟨y, hy⟩ := hfail
      simp only [Manager.Rename, hx, hy, Rename_nul (.inl hnul)]
      exact .refl hplain rfl
    | some s =>
      have hx := resolve_place hroot hne hsrc
      cases hdst : place dst with
      | none =>
        obtain ⟨y, hy, hnul, -⟩ := resolve_nul hroot hne hdst
        simp only [Manager.Rename, hx, hy, Rename_nul (.inr hnul)]
        exact .refl hplain rfl
      | some d =>
        have hy := resolve_place hroot hne hdst
        simp only [Manager.Rename, hx, hy]
        by_cases hnil : s = [] ∨ d = []
        · have hcan : ¬ (view rs D).CanRename s d := fun hc => hnil.elim hc.1 hc.2.1
          rw [Rename_root hne hplain hnil, if_neg hcan]
          exact .refl hplain rfl
        · rw [not_or] at hnil
          obtain ⟨s, a, rfl⟩ := (List.eq_nil_or_concat s).resolve_left hnil.1
          obtain ⟨d, b, rfl⟩ := (List.eq_nil_or_concat d).resolve_left hnil.2
          rw [List.concat_eq_append, List.concat_eq_append, Rename_below hplain]
          by_cases hcan : (view rs D).CanRename (s ++ [a]) (d ++ [b])
          · rw [if_pos hcan, if_pos hcan]
            by_cases heq : s ++ [a] = d ++ [b]
            · rw [if_pos heq, heq, Folder.rename_self]
              exact .refl hplain rfl
            · rw [if_neg heq]
              exact moved_refines hplain hcan heq
          · rw [if_neg hcan, if_neg hcan]
            exact .refl hplain rfl

end

/-! ## Uploads -/

section

variable {S : Store} {mode : Nat} {l : Loc Name}

/-- What was there when the upload began is there still. -/
def Grown (D : Disk) (S : Store) : Prop := ∀ l, D.tree.node l ≠ none → S.tree.node l ≠ none

theorem write_node {body : Bytes} : (S.write l body).tree.node = (S.tree.addFile l).node := rfl

theorem Grown.write {body : Bytes} (hgrown : Grown D S) : Grown D (S.write l body) := by
  intro k hk
  rw [write_node, addFile_extends (hgrown k hk)]
  exact hgrown k hk

/-- Saving a file in a directory. -/
theorem write_refines (body : Bytes) (hgrown : Grown D S) (hplain : PlainRoot S.tree rs)
    (hsave : (Filemgr.view rs (D.grow S mode)).CanSave ns) :
    Filemgr.view rs (D.grow (S.write (rs ++ ns) body) mode) =
        (Filemgr.view rs (D.grow S mode)).save mode ns body ∧
      PlainRoot (S.write (rs ++ ns) body).tree rs ∧
      Untouched rs (D.grow S mode) (D.grow (S.write (rs ++ ns) body) mode) := by
  obtain ⟨hns, hup, hnot⟩ := hsave
  rw [isDir_view] at hup hnot
  have hup' : S.tree.isDir (rs ++ ns).dropLast = true := by
    rwa [List.dropLast_append_of_ne_nil hns]
  have hnode : ∀ k, k ≠ rs ++ ns → (S.write (rs ++ ns) body).tree.node k = S.tree.node k := by
    intro k hk
    rw [write_node, addFile_node, if_neg fun hc => hk hc.1]
  have hmodes : ∀ k, k ≠ rs ++ ns → (D.grow (S.write (rs ++ ns) body) mode).modes k =
      (D.grow S mode).modes k := by
    intro k hk
    simp only [Disk.grow, hnode k hk]
  have hbytes : ∀ k, k ≠ rs ++ ns → (S.write (rs ++ ns) body).bytes k = S.bytes k :=
    fun k hk => Function.update_of_ne hk _ _
  have hoff : ∀ k, ¬ rs <+: k → k ≠ rs ++ ns := by
    rintro k hk rfl
    exact hk (List.prefix_append _ _)
  refine ⟨Folder.ext (funext fun l => ?_) rfl,
    ⟨(hnode rs (by simpa using hns)).trans hplain.dir, hplain.plain.addFile⟩,
    ⟨fun k hk => hnode k (hoff k hk), fun k hk => hbytes k (hoff k hk),
      fun k hk => hmodes k (hoff k hk)⟩⟩
  show (D.grow (S.write (rs ++ ns) body) mode).item (rs ++ l) =
    ((Filemgr.view rs (D.grow S mode)).save mode ns body).item l
  by_cases hl : l = ns
  · subst hl
    have hhere : (S.write (rs ++ l) body).bytes (rs ++ l) = body := Function.update_self _ _ _
    cases hn : S.tree.node (rs ++ l) with
    | none =>
      -- a new file
      have hnew : (S.write (rs ++ l) body).tree.node (rs ++ l) = some .file := by
        rw [write_node, addFile_node, if_pos ⟨rfl, by simp [hns], hup', hn⟩]
      have hold : D.tree.node (rs ++ l) = none := by
        by_contra hsome
        exact hgrown _ hsome hn
      rw [Folder.save_new (by simp [Filemgr.view, Disk.item, Disk.grow, hn])]
      simp [Disk.item, Disk.grow, hnew, hold, hhere]
    | some n =>
      have hkept : (S.write (rs ++ l) body).tree.node (rs ++ l) = some n := by
        rw [write_node, addFile_extends (by rw [hn]; simp), hn]
      cases n with
      | dir =>
        have hdir : S.tree.isDir (rs ++ l) = false := hnot
        rw [isDir_iff.mpr hn] at hdir
        cases hdir
      | link p => cases hplain.plain _ _ (List.prefix_append _ _) hn
      | file =>
        have hfile : (Filemgr.view rs (D.grow S mode)).item l =
            some (.file ((D.grow S mode).modes (rs ++ l)) (S.bytes (rs ++ l))) := by
          simp [Filemgr.view, Disk.item, Disk.grow, hn]
        rw [Folder.save_over hfile]
        simp [Disk.item, Disk.grow, hkept, hhere, hn]
  · have hother : rs ++ l ≠ rs ++ ns := fun heq => hl (List.append_cancel_left heq)
    rw [Folder.save_of_ne hl]
    exact item_congr (hnode _ hother) (hmodes _ hother) (hbytes _ hother)

/-- The answer of an upload as the handler gives it. -/
def FileHandlers.reply : Answer → Reply
  | .created files => .uploaded files
  | .fail status message => .failed status message

/-- The loop over the parts, in the middle. -/
theorem uploadFrom_refines (openError : Str → Str) (dir : Str) (closed : Bool) (ps : List Part)
    (saved : List Str) (hroot : m.root = pathOf rs) (hne : rs ≠ []) (hgrown : Grown D S)
    (hplain : PlainRoot S.tree rs) :
    Refines rs (D.grow S mode)
      (FileHandlers.reply (uploadFrom m openError dir closed ps saved S).1,
        D.grow (uploadFrom m openError dir closed ps saved S).2 mode)
      (Folder.upload mode dir closed ps saved (Filemgr.view rs (D.grow S mode))) := by
  have hroot' : m.root = absPath (rs.map Subtype.val) := hroot
  have hne' : rs.map Subtype.val ≠ [] := mt List.map_eq_nil_iff.mp hne
  induction ps generalizing S saved with
  | nil =>
    unfold uploadFrom Folder.upload
    cases closed <;> exact .refl hplain rfl
  | cons p ps ih =>
    unfold uploadFrom Folder.upload
    by_cases hfile : p.FileName = []
    · rw [if_pos hfile, if_pos hfile]
      exact ih saved hgrown hplain
    rw [if_neg hfile, if_neg hfile]
    have hsave := Save_eq (T := S.tree) hroot' (pathOf_names rs) hne' (Filepath.Join [dir, p.name])
    cases hplace : place (Filepath.Join [dir, p.name]) with
    | none =>
      have hnul := place_eq_none hplace
      have hnil : normalised (Filepath.Join [dir, p.name]) ≠ [] := by
        intro hnil
        rw [hnil] at hnul
        exact absurd hnul (by decide)
      have hopen : OpenFile S.tree
          (absPath (rs.map Subtype.val ++ normalised (Filepath.Join [dir, p.name]))) = none := by
        obtain ⟨abs, hok, hmem, -⟩ := resolve_nul hroot hne hplace
        rw [resolve_absPath hroot' (pathOf_names rs) hne'] at hok
        cases hok
        rw [OpenFile, lookup_nul hmem]
        rfl
      rw [if_neg hnil, hopen] at hsave
      simp only [save, hsave]
      exact .refl hplain rfl
    | some ns =>
      have hnames := place_eq_some hplace
      rw [hnames, ← List.map_append] at hsave
      simp only [List.map_eq_nil_iff] at hsave
      dsimp only
      rcases List.eq_nil_or_concat ns with rfl | ⟨ns, a, rfl⟩
      · rw [if_pos rfl] at hsave
        simp only [save, hsave]
        rw [if_neg fun hc => hc.1 rfl]
        exact .refl hplain rfl
      · rw [List.concat_eq_append] at hsave ⊢
        have hopen : OpenFile _ (pathOf (rs ++ (ns ++ [a]))) = _ := OpenFile_below hplain
        rw [pathOf] at hopen
        rw [if_neg (by simp), hopen] at hsave
        have hcan : (Filemgr.view rs (D.grow S mode)).CanSave (ns ++ [a]) ↔
            S.tree.isDir (rs ++ ns) = true ∧ S.tree.isDir (rs ++ (ns ++ [a])) = false := by
          rw [Folder.CanSave, isDir_view, isDir_view, List.dropLast_concat]
          exact and_iff_right (by simp)
        by_cases hok : S.tree.isDir (rs ++ ns) = true ∧ S.tree.isDir (rs ++ (ns ++ [a])) = false
        · rw [if_pos hok] at hsave
          rw [if_pos (hcan.mpr hok)]
          obtain ⟨hview, hplain', hout⟩ := write_refines p.body hgrown hplain (hcan.mpr hok)
          simp only [save, hsave]
          cases p.broken with
          | some e => exact ⟨rfl, hview, hplain', hout⟩
          | none =>
            have hgrown' : Grown D (S.write (rs ++ (ns ++ [a])) p.body) := hgrown.write
            obtain ⟨h₁, h₂, h₃, h₄⟩ := ih (saved ++ [p.name]) hgrown' hplain'
            rw [hview] at h₁ h₂
            exact ⟨h₁, h₂, h₃, hout.trans h₄⟩
        · rw [if_neg hok] at hsave
          rw [if_neg (mt hcan.mp hok)]
          simp only [save, hsave]
          exact .refl hplain rfl

theorem upload_refines (hroot : m.root = pathOf rs) (hne : rs ≠ []) (hplain : PlainRoot D.tree rs)
    (path : Str) (body : Option Multipart) : Refines rs D (FileHandlers.upload h m D path body)
      ((Filemgr.view rs D).handle h.defaults (.upload path body)) := by
  cases body with
  | none =>
    unfold FileHandlers.upload
    rw [Filemgr.upload, grow_self]
    exact .refl hplain rfl
  | some b =>
    have hgrown : Grown D D.toStore := fun l hl => hl
    have hloop : Refines rs (D.grow D.toStore (h.masked 0o644)) (FileHandlers.upload h m D path b)
        (Folder.upload (h.masked 0o644) path b.closed b.parts []
          (Filemgr.view rs (D.grow D.toStore (h.masked 0o644)))) :=
      uploadFrom_refines (h.error D) path b.closed b.parts [] hroot hne hgrown hplain
    rw [grow_self] at hloop
    exact hloop

end

/-! ## Runs -/

/-- Every request does to the files below the root what it does to a folder. -/
theorem handle_refines (hroot : m.root = pathOf rs) (hne : rs ≠ []) (hplain : PlainRoot D.tree rs)
    (r : Request) :
    Refines rs D (handle h m D r) ((Filemgr.view rs D).handle h.defaults r) := by
  cases r with
  | mkdir body => exact mkdir_refines hroot hne hplain body
  | rename body => exact rename_refines hroot hne hplain body
  | remove confirm path => exact remove_refines hroot hne hplain confirm path
  | chmod body => exact chmod_refines hroot hne hplain body
  | download path => exact download_refines hroot hne hplain path
  | upload path body => exact upload_refines hroot hne hplain path body

/-- Along every run. -/
theorem serve_folder (h : Host) (hroot : m.root = pathOf rs) (hne : rs ≠ [])
    (hplain : PlainRoot D.tree rs) (reqs : List Request) :
    (serve h m D reqs).1.map Reply.outcome =
        ((Filemgr.view rs D).serve h.defaults reqs).1 ∧
      Filemgr.view rs (serve h m D reqs).2 = ((Filemgr.view rs D).serve h.defaults reqs).2 ∧
      PlainRoot (serve h m D reqs).2.tree rs ∧ Untouched rs D (serve h m D reqs).2 := by
  have hstep : ∀ (D' : Disk) (F : Folder) (r : Request),
      (Filemgr.view rs D' = F ∧ PlainRoot D'.tree rs ∧ Untouched rs D D') →
        (handle h m D' r).1.outcome = (F.handle h.defaults r).1 ∧
          Filemgr.view rs (handle h m D' r).2 = (F.handle h.defaults r).2 ∧
            PlainRoot (handle h m D' r).2.tree rs ∧ Untouched rs D (handle h m D' r).2 := by
    rintro D' F r ⟨rfl, hplain', hout⟩
    obtain ⟨houtcome, hview, hroot', hmore⟩ := handle_refines (h := h) hroot hne hplain' r
    exact ⟨houtcome, hview, hroot', hout.trans hmore⟩
  exact Machine.trace_refines hstep ⟨rfl, hplain, .refl⟩ reqs

theorem nas_plain : PlainRoot empty.tree [srv, nas] := by
  refine ⟨by decide, fun l n hl hn => ?_⟩
  by_cases hnil : l = []
  · rw [hnil, empty.tree.root] at hn
    cases hn
    rfl
  · have hmem := ofEntries_mem (h := by decide) hnil hn
    simp only [List.mem_cons, Prod.mk.injEq, List.not_mem_nil, or_false] at hmem
    rcases hmem with ⟨-, rfl⟩ | ⟨-, rfl⟩ <;> rfl

def host : Host := ⟨0o022, fun _ path => path⟩

def start : Disk := ⟨empty, fun _ => 0o755, []⟩

/-- A file is saved in a new folder, gets another name in another folder, and is read there; the
folder cannot go below itself. -/
def requests : List Request :=
  [.mkdir (some "docs/../a/b"), .upload "/a/" (some ⟨[⟨"x.txt", [1, 2], none⟩], true⟩),
    .rename (some ("a", "a/b/c")), .rename (some ("/a//x.txt", "a/b/../b/y.txt")),
    .download "a/b/y.txt", .remove "true" "a/b/y.txt/z", .remove "true" "gone/z"]

end Filemgr
end Nasd
