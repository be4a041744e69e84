import Nasd.Lib.Dirs

/-!
# Nasd.Lib.Moves

What removing and renaming do to a tree of directories in which file systems are mounted. A mount
point is not removed, nor is a directory above it, and nothing is renamed from one file system to
another.

* `FileTree.remove`, `FileTree.move` — the trees afterwards.
* `FileTree.absent`                  — a walk that ends for want of an entry.
* `Plain`                            — there is no link below a location: from there names lead where
  they say (`Plain.walk`, `Plain.walk_create`), and so do the directories made (`Plain.makeDirs`).
-/

namespace Dirs
namespace FileTree

variable {α : Type*} {T : FileTree α} {create : Bool} {b : Nat} {l m src dst : Loc α} {a : α}
  {as : List α} {mounts : List (Loc α)}

/-! ## Mounted file systems -/

section

variable [DecidableEq α]

/-- Something is mounted there or below. -/
def holds (mounts : List (Loc α)) (l : Loc α) : Bool := mounts.any fun p => l.isPrefixOf p

/-- The same file systems are mounted on the way to both. -/
def sameMount (mounts : List (Loc α)) (l m : Loc α) : Bool :=
  mounts.all fun p => p.isPrefixOf l == p.isPrefixOf m

theorem holds_iff : holds mounts l = true ↔ ∃ p ∈ mounts, l <+: p := by
  simp [holds]

theorem sameMount_iff : sameMount mounts l m = true ↔ ∀ p ∈ mounts, p <+: l ↔ p <+: m := by
  rw [sameMount, List.all_eq_true]
  refine forall₂_congr fun p _ => ?_
  rw [beq_iff_eq, Bool.eq_iff_iff, List.isPrefixOf_iff_prefix, List.isPrefixOf_iff_prefix]

/-- What holds a mount point is in whatever holds it. -/
theorem holds_of_prefix (hpre : l <+: m) (hm : holds mounts m = true) : holds mounts l = true := by
  obtain ⟨p, hp, hmp⟩ := holds_iff.mp hm
  exact holds_iff.mpr ⟨p, hp, hpre.trans hmp⟩

/-! ## Removing -/

/-- Everything from a location on is gone, but for the mount points and what they are in. -/
def remove (T : FileTree α) (mounts : List (Loc α)) (l : Loc α) : FileTree α where
  node m := if l ≠ [] ∧ l <+: m ∧ holds mounts m = false then none else T.node m
  root := by rw [if_neg (by rintro ⟨hl, hpre, -⟩; exact hl (List.prefix_nil.mp hpre)), T.root]
  closed m c hmc := by
    split at hmc
    · exact absurd rfl hmc
    · rename_i hkept
      rw [if_neg, T.closed m c hmc]
      rintro ⟨hl, hpre, hheld⟩
      refine hkept ⟨hl, hpre.trans (List.prefix_append _ _), ?_⟩
      -- a mount point below an entry is below its directory
      rw [Bool.eq_false_iff] at hheld ⊢
      intro hc
      have hup := holds_of_prefix (List.prefix_append m [c]) hc
      exact hheld hup

theorem remove_node : (T.remove mounts l).node m =
    if l ≠ [] ∧ l <+: m ∧ holds mounts m = false then none else T.node m := rfl

/-! ## Moving -/

/-- Where the thing that is at a location after a move was before it. -/
def whence (src dst m : Loc α) : Loc α := if dst <+: m then src ++ m.drop dst.length else m

theorem whence_append {rs : Loc α} : whence (rs ++ src) (rs ++ dst) (rs ++ m) =
    rs ++ whence src dst m := by
  unfold whence
  by_cases hpre : dst <+: m
  · obtain ⟨t, rfl⟩ := hpre
    rw [if_pos (List.prefix_append dst t), if_pos, ← List.append_assoc, List.drop_left,
      List.drop_left, List.append_assoc]
    rw [← List.append_assoc]
    exact List.prefix_append _ _
  · rw [if_neg hpre, if_neg (by rwa [List.prefix_append_right_inj])]

/-- A move that is possible: into a directory, not into itself, and not over a directory. -/
def Movable (T : FileTree α) (src dst : Loc α) : Prop :=
  src ≠ [] ∧ T.node src ≠ none ∧ dst ≠ [] ∧ T.isDir dst.dropLast = true ∧ T.isDir dst = false ∧
    ¬ src <+: dst

instance : Decidable (Movable T src dst) :=
  inferInstanceAs (Decidable (_ ∧ _ ∧ _ ∧ _ ∧ _ ∧ _))

def move (T : FileTree α) (src dst : Loc α) : FileTree α where
  node m :=
    if Movable T src dst then
      if ¬ dst <+: m ∧ src <+: m then none else T.node (whence src dst m)
    else T.node m
  root := by
    split
    · rename_i h
      obtain ⟨hsrc, -, hdst, -⟩ := h
      have hno : ¬ dst <+: ([] : Loc α) := fun hpre => hdst (List.prefix_nil.mp hpre)
      rw [if_neg (fun h => hsrc (List.prefix_nil.mp h.2)), whence, if_neg hno, T.root]
    · exact T.root
  closed m c hmc := by
    by_cases h : Movable T src dst
    · rw [if_pos h] at hmc ⊢
      obtain ⟨-, -, hdst, hparent, -, hout⟩ := h
      split at hmc
      · exact absurd rfl hmc
      · rename_i hkept
        by_cases hbelow : dst <+: m
        · -- both are below the new place
          have hdrop : (m ++ [c]).drop dst.length = m.drop dst.length ++ [c] :=
            List.drop_append_of_le_length hbelow.length_le
          rw [whence, if_pos (hbelow.trans (List.prefix_append _ _)), hdrop,
            ← List.append_assoc] at hmc
          rw [if_neg (fun h => h.1 hbelow), whence, if_pos hbelow]
          exact T.closed _ _ hmc
        · have hnot : ¬ src <+: m := by
            intro hsrc
            by_cases hnew : dst <+: m ++ [c]
            · rcases List.prefix_concat_iff.mp hnew with rfl | hpre
              · exact hout (hsrc.trans (List.prefix_append _ _))
              · exact hbelow hpre
            · exact hkept ⟨hnew, hsrc.trans (List.prefix_append _ _)⟩
          rw [if_neg (fun h => hnot h.2), whence, if_neg hbelow]
          by_cases hnew : dst <+: m ++ [c]
          · -- the new place itself
            rcases List.prefix_concat_iff.mp hnew with rfl | hpre
            · rw [List.dropLast_concat] at hparent
              exact isDir_iff.mp hparent
            · exact absurd hpre hbelow
          · rw [whence, if_neg hnew] at hmc
            exact T.closed _ _ hmc
    · rw [if_neg h] at hmc ⊢
      exact T.closed _ _ hmc

theorem move_node (h : Movable T src dst) : (T.move src dst).node m =
    if ¬ dst <+: m ∧ src <+: m then none else T.node (whence src dst m) := if_pos h

/-- The mount points go along. -/
def moveMounts (src dst : Loc α) (mounts : List (Loc α)) : List (Loc α) :=
  mounts.map (whence dst src)

end

/-! ## Walks that end -/

/-- As `pass`: whether the walk stops at an entry that is missing. -/
def passAbsent (T : FileTree α) (follow : Loc α → List (PathPart α) → Bool) :
    Loc α → List (PathPart α) → Bool
  | _, [] => false
  | l, c :: cs =>
    if T.isDir l then
      match c with
      | .here => passAbsent T follow l cs
      | .up => passAbsent T follow l.dropLast cs
      | .name a =>
        match T.node (l ++ [a]) with
        | none => true
        | some (.link p) => follow (p.start l) (p.parts ++ cs)
        | some _ => passAbsent T follow (l ++ [a]) cs
    else false

/-- The walk stops for want of an entry, not at something that is no directory, nor for too many
links. -/
def absent (T : FileTree α) : Nat → Loc α → List (PathPart α) → Bool
  | 0 => passAbsent T fun _ _ => false
  | b + 1 => passAbsent T (absent T b)

@[simp] theorem absent_nil : T.absent b l [] = false := by
  cases b <;> rfl

theorem absent_here {cs : List (PathPart α)} (hl : T.isDir l = true) :
    T.absent b l (.here :: cs) = T.absent b l cs := by
  cases b <;> simp [absent, passAbsent, hl]

theorem absent_not_dir {c : PathPart α} {cs : List (PathPart α)} (hl : T.isDir l = false) :
    T.absent b l (c :: cs) = false := by
  cases b <;> simp [absent, passAbsent, hl]

theorem absent_missing {cs : List (PathPart α)} (hl : T.isDir l = true)
    (ha : T.node (l ++ [a]) = none) : T.absent b l (.name a :: cs) = true := by
  cases b <;> simp [absent, passAbsent, hl, ha]

theorem absent_name {cs : List (PathPart α)} {n : Node α} (hl : T.isDir l = true)
    (ha : T.node (l ++ [a]) = some n) (hn : n.isLink = false) :
    T.absent b l (.name a :: cs) = T.absent b (l ++ [a]) cs := by
  cases n with
  | link p => cases hn
  | dir => cases b <;> simp [absent, passAbsent, hl, ha]
  | file => cases b <;> simp [absent, passAbsent, hl, ha]

/-! ## Along directories -/

theorem dir_of_append {ps : List α} (h : T.node (l ++ a :: ps) = some .dir) :
    T.isDir l = true ∧ T.node (l ++ [a]) = some .dir := by
  have hassoc : l ++ a :: ps = l ++ [a] ++ ps := by simp
  have hdir : T.isDir l = true :=
    isDir_of_prefix (by rw [h]; simp) (List.prefix_append _ _) (by simp)
  refine ⟨hdir, ?_⟩
  rw [hassoc] at h
  by_cases hnil : ps = []
  · rwa [hnil, List.append_nil] at h
  · have hnext : T.isDir (l ++ [a]) = true :=
      isDir_of_prefix (by rw [h]; simp) (List.prefix_append _ _) (by simpa using hnil)
    exact isDir_iff.mp hnext

theorem absent_dirs {ps : List α} (h : T.node (l ++ ps) = some .dir) :
    T.absent b l ((ps ++ as).map .name) = T.absent b (l ++ ps) (as.map .name) := by
  induction ps generalizing l with
  | nil => rw [List.nil_append, List.append_nil]
  | cons p ps ih =>
    obtain ⟨hl, hdir⟩ := dir_of_append h
    have hassoc : l ++ p :: ps = l ++ [p] ++ ps := by simp
    rw [hassoc] at h ⊢
    rw [List.cons_append, List.map_cons, absent_name hl hdir rfl, ih h]

/-- What exists needs no making. -/
theorem makeDirs_dirs [DecidableEq α] {ps : List α} (h : T.node (l ++ ps) = some .dir) :
    T.makeDirs b l ((ps ++ as).map .name) = T.makeDirs b (l ++ ps) (as.map .name) := by
  induction ps generalizing l with
  | nil => rw [List.nil_append, List.append_nil]
  | cons p ps ih =>
    obtain ⟨hl, hdir⟩ := dir_of_append h
    have hassoc : l ++ p :: ps = l ++ [p] ++ ps := by simp
    rw [hassoc] at h ⊢
    rw [List.cons_append, List.map_cons, FileTree.makeDirs, if_pos hl, hdir]
    simp only [walk_name hl hdir rfl, walk_nil]
    exact ih h

/-! ## Below a location without links -/

/-- There is no link there nor below. -/
def Plain (T : FileTree α) (l : Loc α) : Prop :=
  ∀ m n, l <+: m → T.node m = some n → n.isLink = false

/-- A file is on the way. -/
def Blocked (T : FileTree α) (l : Loc α) (as : List α) : Prop :=
  ∃ p, p <+: as ∧ T.node (l ++ p) = some .file

theorem Plain.below (h : Plain T l) (hpre : l <+: m) : Plain T m :=
  fun k n hk hn => h k n (hpre.trans hk) hn

theorem blocked_nil (hl : T.isDir l = true) : ¬ Blocked T l [] := by
  rintro ⟨p, hp, hfile⟩
  rw [List.prefix_nil.mp hp, List.append_nil, isDir_iff.mp hl] at hfile
  cases hfile

theorem blocked_cons (hl : T.isDir l = true) :
    Blocked T l (a :: as) ↔ Blocked T (l ++ [a]) as := by
  constructor
  · rintro ⟨p, hp, hfile⟩
    cases p with
    | nil => rw [List.append_nil, isDir_iff.mp hl] at hfile; cases hfile
    | cons c p =>
      obtain ⟨rfl, hrest⟩ := List.cons_prefix_cons.mp hp
      exact ⟨p, hrest, by rwa [List.append_assoc]⟩
  · rintro ⟨p, hp, hfile⟩
    refine ⟨a :: p, List.cons_prefix_cons.mpr ⟨rfl, hp⟩, ?_⟩
    rwa [List.append_assoc] at hfile

/-- Nothing is below what is missing. -/
theorem none_from (hl : T.node l = none) (as : List α) : T.node (l ++ as) = none := by
  induction as using List.reverseRecOn with
  | nil => rwa [List.append_nil]
  | append_singleton as c ih => rw [← List.append_assoc]; exact none_below ih c

theorem not_blocked_of_none (hl : T.node l = none) : ¬ Blocked T l as := by
  rintro ⟨p, -, hfile⟩
  rw [none_from hl p] at hfile
  cases hfile

theorem blocked_of_file (hl : T.node l = some .file) : Blocked T l as :=
  ⟨[], List.nil_prefix, by rwa [List.append_nil]⟩

theorem blocked_concat (hnone : T.node (l ++ (as ++ [a])) = none) :
    Blocked T l (as ++ [a]) ↔ Blocked T l as := by
  constructor
  · rintro ⟨p, hp, hfile⟩
    rcases List.prefix_concat_iff.mp hp with rfl | hp
    · rw [hnone] at hfile
      cases hfile
    · exact ⟨p, hp, hfile⟩
  · rintro ⟨p, hp, hfile⟩
    exact ⟨p, hp.trans (List.prefix_append _ _), hfile⟩

/-- No file is on the way to a directory. -/
theorem not_blocked_of_dir (hdir : T.isDir (l ++ as) = true) : ¬ Blocked T l as := by
  rintro ⟨p, hp, hfile⟩
  have hup : T.isDir (l ++ p) = true := by
    by_cases heq : p = as
    · rwa [heq]
    · refine isDir_of_prefix ?_ ((List.prefix_append_right_inj l).mpr hp) (by simpa using heq)
      rw [isDir_iff.mp hdir]
      simp
  rw [isDir_iff, hfile] at hup
  cases hup

theorem isDir_of_file (hl : T.node l = some .file) : T.isDir l = false := by
  simp [isDir, hl]

/-- Names lead where they say. -/
theorem Plain.walk (h : Plain T l) (hl : T.isDir l = true) :
    T.walk false b l (as.map .name) =
      if T.node (l ++ as) = none then none else some (l ++ as, b) := by
  cases hn : T.node (l ++ as) with
  | some n => rw [walk_names hn (h _ n (List.prefix_append _ _) hn), if_neg (by simp)]
  | none =>
    rw [if_pos rfl]
    induction as generalizing l with
    | nil => rw [List.append_nil, isDir_iff.mp hl] at hn; cases hn
    | cons a as ih =>
      rw [List.map_cons]
      cases ha : T.node (l ++ [a]) with
      | none => rw [walk_missing hl ha]; rfl
      | some n =>
        have hlink := h _ n (List.prefix_append l [a]) ha
        rw [walk_name hl ha hlink]
        have hrest : T.node (l ++ [a] ++ as) = none := by rwa [List.append_assoc]
        cases n with
        | dir => exact ih (h.below (List.prefix_append _ _)) (isDir_iff.mpr ha) hrest
        | file =>
          cases as with
          | nil => rw [List.append_nil, ha] at hrest; cases hrest
          | cons c as => exact walk_not_dir (isDir_of_file ha)
        | link p => cases hlink

/-- And to where a new entry would be. -/
theorem Plain.walk_create (h : Plain T l) (hl : T.isDir l = true) :
    T.walk true b l ((as ++ [a]).map .name) =
      if T.isDir (l ++ as) then some (l ++ as ++ [a], b) else none := by
  rw [List.map_append, walk_append (by simp), h.walk hl]
  cases hn : T.node (l ++ as) with
  | none =>
    have hdir : T.isDir (l ++ as) = false := by simp [isDir, hn]
    rw [hdir]
    rfl
  | some n =>
    rw [if_neg (by simp), Option.bind_some]
    cases hdir : T.isDir (l ++ as) with
    | false => exact walk_not_dir hdir
    | true =>
      rw [if_pos rfl]
      cases ha : T.node (l ++ as ++ [a]) with
      | none => exact walk_missing hdir ha
      | some n' =>
        have hlink := h _ n' ((List.prefix_append l as).trans (List.prefix_append _ _)) ha
        rw [List.map_singleton, walk_name hdir ha hlink, walk_nil]

/-- They lead to nothing, unless a file is on the way. -/
theorem Plain.absent (h : Plain T l) (hl : T.isDir l = true) :
    T.absent b l (as.map .name) = true ↔ T.node (l ++ as) = none ∧ ¬ Blocked T l as := by
  induction as generalizing l with
  | nil => rw [List.map_nil, absent_nil, List.append_nil, isDir_iff.mp hl]; simp
  | cons a as ih =>
    rw [List.map_cons, blocked_cons hl]
    have hassoc : l ++ a :: as = l ++ [a] ++ as := by simp
    rw [hassoc]
    cases ha : T.node (l ++ [a]) with
    | none =>
      rw [absent_missing hl ha, none_from ha as]
      exact iff_of_true rfl ⟨rfl, not_blocked_of_none ha⟩
    | some n =>
      have hlink := h _ n (List.prefix_append l [a]) ha
      rw [absent_name hl ha hlink]
      cases n with
      | dir => exact ih (h.below (List.prefix_append _ _)) (isDir_iff.mpr ha)
      | file =>
        refine iff_of_false ?_ fun hno => hno.2 (blocked_of_file ha)
        cases as with
        | nil => simp
        | cons c as => rw [List.map_cons, absent_not_dir (isDir_of_file ha)]; simp
      | link p => cases hlink

section

variable [DecidableEq α]

theorem Plain.addDir (h : Plain T l) : Plain (T.addDir m a) l := by
  intro k n hk hn
  rw [addDir_node] at hn
  split at hn
  · cases hn; rfl
  · exact h k n hk hn

theorem Plain.addFile (h : Plain T l) : Plain (T.addFile m) l := by
  intro k n hk hn
  rw [addFile_node] at hn
  split at hn
  · cases hn; rfl
  · exact h k n hk hn

theorem Plain.remove (h : Plain T l) : Plain (T.remove mounts m) l := by
  intro k n hk hn
  rw [remove_node] at hn
  split at hn
  · cases hn
  · exact h k n hk hn

/-- Nor is there one after a move from somewhere below to somewhere else. -/
theorem Plain.move (h : Plain T l) (hsrc : l <+: src) : Plain (T.move src dst) l := by
  intro k n hk hn
  by_cases hmov : Movable T src dst
  · rw [move_node hmov] at hn
    split at hn
    · cases hn
    · refine h (whence src dst k) n ?_ hn
      unfold whence
      split
      · exact hsrc.trans (List.prefix_append _ _)
      · exact hk
  · exact h k n hk ((if_neg hmov).symm.trans hn)

/-- Without a file on the way every directory is made; with one there, none. -/
theorem Plain.makeDirs (h : Plain T l) (hl : T.isDir l = true) :
    (Blocked T l as → (T.makeDirs b l (as.map .name)).arrived = none ∧
      (T.makeDirs b l (as.map .name)).tree = T) ∧
    (¬ Blocked T l as → (T.makeDirs b l (as.map .name)).arrived = some (l ++ as, b) ∧
      ∀ m, (T.makeDirs b l (as.map .name)).tree.node m =
        if l <+: m ∧ m <+: l ++ as ∧ T.node m = none then some .dir else T.node m) := by
  induction as generalizing T l with
  | nil =>
    refine ⟨fun hb => absurd hb (blocked_nil hl), fun _ => ?_⟩
    rw [List.map_nil, FileTree.makeDirs, if_pos hl, List.append_nil]
    refine ⟨rfl, fun m => ?_⟩
    rw [if_neg]
    rintro ⟨hlm, hml, hnone⟩
    rw [← hlm.eq_of_length_le hml.length_le, isDir_iff.mp hl] at hnone
    cases hnone
  | cons a as ih =>
    have hassoc : l ++ a :: as = l ++ [a] ++ as := by simp
    rw [blocked_cons hl, List.map_cons, hassoc]
    -- what lies between the directory and the end of the way, past the first name
    have hsplit : ∀ m, T.node m = none → (l <+: m ∧ m <+: l ++ [a] ++ as ↔
        l ++ [a] <+: m ∧ m <+: l ++ [a] ++ as) := by
      intro m hnone
      refine ⟨fun hm => ⟨?_, hm.2⟩, fun hm => ⟨(List.prefix_append l [a]).trans hm.1, hm.2⟩⟩
      rcases List.prefix_or_prefix_of_prefix hm.2 (List.prefix_append (l ++ [a]) as) with hup | hdown
      · rcases List.prefix_concat_iff.mp hup with heq | hup
        · rw [heq]
        · rw [hup.eq_of_length_le hm.1.length_le, isDir_iff.mp hl] at hnone
          cases hnone
      · exact hdown
    cases ha : T.node (l ++ [a]) with
    | none =>
      have hmade : T.makeDirs b l (.name a :: as.map .name) =
          ⟨((T.addDir l a).makeDirs b (l ++ [a]) (as.map .name)).tree,
            (l ++ [a]) :: ((T.addDir l a).makeDirs b (l ++ [a]) (as.map .name)).made,
            ((T.addDir l a).makeDirs b (l ++ [a]) (as.map .name)).arrived⟩ := by
        rw [FileTree.makeDirs, if_pos hl, ha]
      refine ⟨fun hb => absurd hb (not_blocked_of_none ha), fun _ => ?_⟩
      have hfree : ¬ Blocked (T.addDir l a) (l ++ [a]) as := by
        rintro ⟨p, -, hfile⟩
        rw [addDir_node, none_from ha p] at hfile
        split at hfile <;> cases hfile
      obtain ⟨harrived, hnode⟩ := (ih (h.addDir.below (List.prefix_append _ _))
        (addDir_isDir hl ha)).2 hfree
      rw [hmade]
      refine ⟨harrived, fun m => (hnode m).trans ?_⟩
      by_cases hm : m = l ++ [a]
      · subst hm
        have hnew := isDir_iff.mp (addDir_isDir hl ha)
        rw [hnew, if_neg (by simp), if_pos ⟨List.prefix_append _ _, List.prefix_append _ _, ha⟩]
      · have hold : (T.addDir l a).node m = T.node m := by
          rw [addDir_node, if_neg (fun h => hm h.1)]
        rw [hold]
        by_cases hnone : T.node m = none
        · have hiff := hsplit m hnone
          simp only [hnone, and_true]
          simp only [hiff]
        · rw [if_neg (fun h => hnone h.2.2), if_neg (fun h => hnone h.2.2)]
    | some n =>
      have hlink := h _ n (List.prefix_append l [a]) ha
      have hmade : T.makeDirs b l (.name a :: as.map .name) =
          T.makeDirs b (l ++ [a]) (as.map .name) := by
        rw [FileTree.makeDirs, if_pos hl, ha]
        simp only [walk_name hl ha hlink, walk_nil]
      rw [hmade]
      cases n with
      | dir =>
        obtain ⟨hblocked, hfree⟩ := ih (h.below (List.prefix_append _ _)) (isDir_iff.mpr ha)
        refine ⟨hblocked, fun hb => ⟨(hfree hb).1, fun m => ((hfree hb).2 m).trans ?_⟩⟩
        by_cases hnone : T.node m = none
        · have hiff := hsplit m hnone
          simp only [hnone, and_true]
          simp only [hiff]
        · rw [if_neg (fun h => hnone h.2.2), if_neg (fun h => hnone h.2.2)]
      | file =>
        refine ⟨fun _ => ?_, fun hb => absurd (blocked_of_file ha) hb⟩
        cases as with
        | nil => simp [FileTree.makeDirs, isDir_of_file ha]
        | cons c as => simp [FileTree.makeDirs, isDir_of_file ha]
      | link p => cases hlink

end

end FileTree
end Dirs
