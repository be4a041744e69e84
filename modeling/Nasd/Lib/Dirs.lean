import Mathlib.Data.List.Infix

/-!
# Nasd.Lib.Dirs

Trees of directories with symbolic links, and where paths lead in them. A location is the list of
the names from the root, so it has no links in it; a path leads to a location through the links it
meets, of which only a bounded number is followed.

* `FileTree.walk`     — the location a path leads to; with `create` its last name may be missing,
  and the location is where a new entry would be.
* `walk_induction`    — what holds of every walk that arrives, one case for each kind of step.
* `walk_append`       — a walk along a path in two parts.
* `LinkFree.walk`     — a walk on a tree without links.
* `FileTree.deepest`  — the last directory on the way to a location.
* `FileTree.makeDirs` — making the directories that a path lacks, and where it leads then
  (`makeDirs_arrived`).
* `Confined`          — the links below a location stay below it; so do the walks (`Confined.walk`)
  and the directories made (`Confined.makeDirs`) along names.
-/

namespace Dirs

variable {α : Type*}

inductive PathPart (α : Type*) where
  | name (a : α)
  | here
  | up
  deriving DecidableEq

/-- Where one element leads from a directory, by the text of the path. -/
def PathPart.step (l : List α) : PathPart α → List α
  | .name a => l ++ [a]
  | .here => l
  | .up => l.dropLast

theorem foldl_step_names (as : List α) : ∀ l : List α,
    (as.map PathPart.name).foldl PathPart.step l = l ++ as := by
  induction as with
  | nil => intro l; exact (List.append_nil l).symm
  | cons a as ih =>
    intro l
    rw [List.map_cons, List.foldl_cons, ih, PathPart.step, List.append_assoc]
    rfl

structure Path (α : Type*) where
  rooted : Bool
  parts : List (PathPart α)
  deriving DecidableEq

inductive Node (α : Type*) where
  | dir
  | file
  | link (target : Path α)
  deriving DecidableEq

abbrev Loc (α : Type*) := List α

/-- What is at each location; everything is in a directory. -/
structure FileTree (α : Type*) where
  node : Loc α → Option (Node α)
  root : node [] = some .dir
  closed : ∀ l a, node (l ++ [a]) ≠ none → node l = some .dir

def Node.isLink : Node α → Bool
  | .link _ => true
  | _ => false

/-- The directory from which a link in `l` starts. -/
def Path.start (p : Path α) (l : Loc α) : Loc α := if p.rooted then [] else l

namespace FileTree

variable {T T' : FileTree α} {create : Bool} {b k : Nat} {l m : Loc α} {a : α}
  {cs ds : List (PathPart α)} {p : Path α} {r : Loc α × Nat}

def isDir (T : FileTree α) (l : Loc α) : Bool :=
  match T.node l with
  | some .dir => true
  | _ => false

theorem isDir_iff : T.isDir l = true ↔ T.node l = some .dir := by
  unfold isDir
  split
  · rename_i h; simp [h]
  · rename_i h; simpa using h

theorem isDir_root : T.isDir [] = true := isDir_iff.mpr T.root

/-- Whatever is above something is a directory. -/
theorem isDir_of_prefix (hm : T.node m ≠ none) (hpre : l <+: m) (hne : l ≠ m) :
    T.isDir l = true := by
  obtain ⟨as, rfl⟩ := hpre
  induction as using List.reverseRecOn with
  | nil => simp at hne
  | append_singleton as a ih =>
    rw [← List.append_assoc] at hm
    have hdir := T.closed _ _ hm
    by_cases has : as = []
    · subst has
      rw [List.append_nil] at hdir
      exact isDir_iff.mpr hdir
    · exact ih (by simp [hdir]) (by simp [has])

theorem none_below (hl : T.node l = none) (a : α) : T.node (l ++ [a]) = none := by
  by_contra hsome
  have hparent := T.closed _ _ hsome
  rw [hl] at hparent
  cases hparent

/-- A directory on the way through a missing entry is above it. -/
theorem above_missing {as v : List α} (hv : T.isDir v = true) (hpre : v <+: l ++ a :: as)
    (ha : T.node (l ++ [a]) = none) : v <+: l := by
  have hnot : ∀ m, l ++ [a] <+: m → m ≠ v := by
    rintro m hm rfl
    have hdir : T.isDir (l ++ [a]) = true := by
      by_cases heq : l ++ [a] = m
      · rwa [heq]
      · exact isDir_of_prefix (by rw [isDir_iff.mp hv]; simp) hm heq
    rw [isDir_iff, ha] at hdir
    cases hdir
  have hsplit : l ++ [a] <+: l ++ a :: as := ⟨as, by simp⟩
  rcases List.prefix_or_prefix_of_prefix hpre hsplit with hup | hdown
  · rcases List.prefix_concat_iff.mp hup with heq | hup
    · exact absurd heq.symm (hnot _ (List.prefix_refl _))
    · exact hup
  · exact absurd rfl (hnot v hdown)

/-- The last directory on the way from `l` along these names. -/
def deepest (T : FileTree α) (l : Loc α) : List α → Loc α
  | [] => l
  | a :: as => if T.isDir (l ++ [a]) then deepest T (l ++ [a]) as else l

theorem deepest_isDir {as : List α} (hl : T.isDir l = true) : T.isDir (T.deepest l as) = true := by
  induction as generalizing l with
  | nil => exact hl
  | cons a as ih =>
    rw [deepest]
    split
    · rename_i ha; exact ih ha
    · exact hl

theorem deepest_prefix {as : List α} : T.deepest l as <+: l ++ as := by
  induction as generalizing l with
  | nil => simp [deepest]
  | cons a as ih =>
    rw [deepest]
    split
    · have hrest := ih (l := l ++ [a])
      rwa [List.append_assoc] at hrest
    · exact List.prefix_append _ _

/-- Every directory on the way is above it. -/
theorem prefix_deepest {as v : List α} (hv : T.isDir (l ++ v) = true) (hpre : v <+: as) :
    l ++ v <+: T.deepest l as := by
  induction as generalizing l v with
  | nil => rw [List.prefix_nil.mp hpre, List.append_nil]; exact List.prefix_refl _
  | cons a as ih =>
    cases v with
    | nil =>
      rw [List.append_nil, deepest]
      split
      · have hrest : (l ++ [a]) ++ [] <+: T.deepest (l ++ [a]) as := by
          refine ih ?_ List.nil_prefix
          rw [List.append_nil]
          assumption
        rw [List.append_nil] at hrest
        exact (List.prefix_append _ _).trans hrest
      · exact List.prefix_refl _
    | cons c v =>
      obtain ⟨rfl, hv'⟩ := List.cons_prefix_cons.mp hpre
      have hassoc : l ++ c :: v = (l ++ [c]) ++ v := by simp
      rw [hassoc] at hv ⊢
      have hc : T.isDir (l ++ [c]) = true := by
        by_cases hnil : v = []
        · rwa [hnil, List.append_nil] at hv
        · refine isDir_of_prefix ?_ (List.prefix_append _ v) (by simpa using hnil)
          rw [isDir_iff.mp hv]
          simp
      rw [deepest, if_pos hc]
      exact ih hv hv'

/-- The tree with these entries; each has to be in a directory. -/
def ofEntries [DecidableEq α] (entries : List (Loc α × Node α))
    (h : ∀ e ∈ entries, e.1.dropLast = [] ∨ entries.lookup e.1.dropLast = some .dir) :
    FileTree α where
  node l := if l = [] then some .dir else entries.lookup l
  root := if_pos rfl
  closed l a hla := by
    rw [if_neg (by simp)] at hla
    obtain ⟨n, hn⟩ := Option.ne_none_iff_exists'.mp hla
    obtain ⟨l₁, l₂, hsplit, -⟩ := List.lookup_eq_some_iff.mp hn
    have hmem : (l ++ [a], n) ∈ entries := by rw [hsplit]; simp
    have hparent := h _ hmem
    rw [List.dropLast_concat] at hparent
    by_cases hl : l = []
    · rw [if_pos hl]
    · rw [if_neg hl]
      exact hparent.resolve_left hl

theorem ofEntries_mem [DecidableEq α] {entries : List (Loc α × Node α)} {h} {n : Node α}
    (hl : l ≠ []) (hn : (ofEntries entries h).node l = some n) : (l, n) ∈ entries := by
  have hlookup : entries.lookup l = some n := by
    rw [← hn]
    exact (if_neg hl).symm
  obtain ⟨l₁, l₂, hsplit, -⟩ := List.lookup_eq_some_iff.mp hlookup
  rw [hsplit]
  simp

/-! ## Walks -/

/-- A walk up to the first link, which is followed along with the rest of the path. -/
def pass (T : FileTree α) (create : Bool)
    (follow : Loc α → List (PathPart α) → Option (Loc α × Nat)) (b : Nat) :
    Loc α → List (PathPart α) → Option (Loc α × Nat)
  | l, [] => some (l, b)
  | l, c :: cs =>
    if T.isDir l then
      match c with
      | .here => pass T create follow b l cs
      | .up => pass T create follow b l.dropLast cs
      | .name a =>
        match T.node (l ++ [a]) with
        | none => if create && cs.isEmpty then some (l ++ [a], b) else none
        | some (.link p) => follow (p.start l) (p.parts ++ cs)
        | some _ => pass T create follow b (l ++ [a]) cs
    else none

/-- The location that a path leads to from `l`, and how many of the `b` links are left. -/
def walk (T : FileTree α) (create : Bool) : Nat → Loc α → List (PathPart α) → Option (Loc α × Nat)
  | 0 => pass T create (fun _ _ => none) 0
  | b + 1 => pass T create (walk T create b) (b + 1)

@[simp] theorem walk_nil : T.walk create b l [] = some (l, b) := by
  cases b <;> rfl

theorem walk_not_dir {c : PathPart α} (hl : T.isDir l = false) :
    T.walk create b l (c :: cs) = none := by
  cases b <;> simp [walk, pass, hl]

theorem walk_here (hl : T.isDir l = true) :
    T.walk create b l (.here :: cs) = T.walk create b l cs := by
  cases b <;> simp [walk, pass, hl]

theorem walk_up (hl : T.isDir l = true) :
    T.walk create b l (.up :: cs) = T.walk create b l.dropLast cs := by
  cases b <;> simp [walk, pass, hl]

theorem walk_missing (hl : T.isDir l = true) (ha : T.node (l ++ [a]) = none) :
    T.walk create b l (.name a :: cs) =
      if create && cs.isEmpty then some (l ++ [a], b) else none := by
  cases b <;> simp [walk, pass, hl, ha]

theorem walk_name {n : Node α} (hl : T.isDir l = true) (ha : T.node (l ++ [a]) = some n)
    (hn : n.isLink = false) :
    T.walk create b l (.name a :: cs) = T.walk create b (l ++ [a]) cs := by
  cases n with
  | link p => cases hn
  | dir => cases b <;> simp [walk, pass, hl, ha]
  | file => cases b <;> simp [walk, pass, hl, ha]

theorem walk_link_zero (hl : T.isDir l = true) (ha : T.node (l ++ [a]) = some (.link p)) :
    T.walk create 0 l (.name a :: cs) = none := by
  simp [walk, pass, hl, ha]

theorem walk_link (hl : T.isDir l = true) (ha : T.node (l ++ [a]) = some (.link p)) :
    T.walk create (b + 1) l (.name a :: cs) = T.walk create b (p.start l) (p.parts ++ cs) := by
  simp [walk, pass, hl, ha]

theorem walk_induction {P : Nat → Loc α → List (PathPart α) → Loc α × Nat → Prop}
    (nil : ∀ b l, P b l [] (l, b))
    (here : ∀ b l cs r, T.isDir l = true → P b l cs r → P b l (.here :: cs) r)
    (up : ∀ b l cs r, T.isDir l = true → P b l.dropLast cs r → P b l (.up :: cs) r)
    (missing : ∀ b l a, create = true → T.isDir l = true → T.node (l ++ [a]) = none →
      P b l [.name a] (l ++ [a], b))
    (name : ∀ b l a cs r n, T.isDir l = true → T.node (l ++ [a]) = some n → n.isLink = false →
      P b (l ++ [a]) cs r → P b l (.name a :: cs) r)
    (link : ∀ b l a cs r p, T.isDir l = true → T.node (l ++ [a]) = some (.link p) →
      P b (p.start l) (p.parts ++ cs) r → P (b + 1) l (.name a :: cs) r) :
    ∀ b l cs r, T.walk create b l cs = some r → P b l cs r := by
  -- along the path, once it is known what a link does
  have hpath : ∀ b, (∀ l a cs r p, T.isDir l = true → T.node (l ++ [a]) = some (.link p) →
        T.walk create b l (.name a :: cs) = some r → P b l (.name a :: cs) r) →
      ∀ cs l r, T.walk create b l cs = some r → P b l cs r := by
    intro b hlink cs
    induction cs with
    | nil => intro l r hr; rw [walk_nil] at hr; cases hr; exact nil b l
    | cons c cs ih =>
      intro l r hr
      cases hl : T.isDir l with
      | false => rw [walk_not_dir hl] at hr; cases hr
      | true =>
        cases c with
        | here => rw [walk_here hl] at hr; exact here b l cs r hl (ih l r hr)
        | up => rw [walk_up hl] at hr; exact up b l cs r hl (ih l.dropLast r hr)
        | name a =>
          cases ha : T.node (l ++ [a]) with
          | none =>
            rw [walk_missing hl ha] at hr
            split at hr
            · rename_i hc
              rw [Bool.and_eq_true, List.isEmpty_iff] at hc
              cases hr
              rw [hc.2]
              exact missing b l a hc.1 hl ha
            · cases hr
          | some n =>
            cases hn : n.isLink with
            | false =>
              rw [walk_name hl ha hn] at hr
              exact name b l a cs r n hl ha hn (ih (l ++ [a]) r hr)
            | true =>
              cases n with
              | dir => cases hn
              | file => cases hn
              | link p => exact hlink l a cs r p hl ha hr
  intro b
  induction b with
  | zero =>
    refine fun l cs r => hpath 0 (fun l a cs r p hl ha hr => ?_) cs l r
    rw [walk_link_zero hl ha] at hr
    cases hr
  | succ b ih =>
    refine fun l cs r => hpath (b + 1) (fun l a cs r p hl ha hr => ?_) cs l r
    rw [walk_link hl ha] at hr
    exact link b l a cs r p hl ha (ih _ _ r hr)

/-- A walk never has more links left than it started with. -/
theorem walk_budget (hr : T.walk create b l cs = some r) : r.2 ≤ b := by
  refine walk_induction (P := fun b _ _ r => r.2 ≤ b) ?_ ?_ ?_ ?_ ?_ ?_ b l cs r hr
  · intro b l; exact le_refl b
  · intro b l cs r hl ih; exact ih
  · intro b l cs r hl ih; exact ih
  · intro b l a hc hl ha; exact le_refl b
  · intro b l a cs r n hl ha hn ih; exact ih
  · intro b l a cs r p hl ha ih; omega

/-- With more links to follow it arrives all the same. -/
theorem walk_more (hr : T.walk create b l cs = some r) (k : Nat) :
    T.walk create (b + k) l cs = some (r.1, r.2 + k) := by
  refine walk_induction (P := fun b l cs r => T.walk create (b + k) l cs = some (r.1, r.2 + k))
    ?_ ?_ ?_ ?_ ?_ ?_ b l cs r hr
  · intro b l; rw [walk_nil]
  · intro b l cs r hl ih; rw [walk_here hl, ih]
  · intro b l cs r hl ih; rw [walk_up hl, ih]
  · intro b l a hc hl ha; rw [walk_missing hl ha, hc]; rfl
  · intro b l a cs r n hl ha hn ih; rw [walk_name hl ha hn, ih]
  · intro b l a cs r p hl ha ih
    rw [Nat.add_right_comm, walk_link hl ha, ih]

/-- What exists stays where it is in a larger tree. -/
theorem walk_extend (hext : ∀ l, T.node l ≠ none → T'.node l = T.node l)
    (hr : T.walk false b l cs = some r) : T'.walk false b l cs = some r := by
  have hdir : ∀ l, T.isDir l = true → T'.isDir l = true := by
    intro l hl
    rw [isDir_iff] at hl ⊢
    rw [hext l (by simp [hl]), hl]
  refine walk_induction (P := fun b l cs r => T'.walk false b l cs = some r)
    ?_ ?_ ?_ ?_ ?_ ?_ b l cs r hr
  · intro b l; rw [walk_nil]
  · intro b l cs r hl ih; rw [walk_here (hdir l hl), ih]
  · intro b l cs r hl ih; rw [walk_up (hdir l hl), ih]
  · intro b l a hc hl ha; cases hc
  · intro b l a cs r n hl ha hn ih
    rw [walk_name (hdir l hl) ((hext _ (by simp [ha])).trans ha) hn, ih]
  · intro b l a cs r p hl ha ih
    rw [walk_link (hdir l hl) ((hext _ (by simp [ha])).trans ha), ih]

/-- A walk that may end at a missing entry ends at one, or is a walk to what exists. -/
theorem walk_create (hr : T.walk true b l cs = some r) :
    T.node r.1 = none ∨ T.walk false b l cs = some r := by
  refine walk_induction (P := fun b l cs r => T.node r.1 = none ∨ T.walk false b l cs = some r)
    ?_ ?_ ?_ ?_ ?_ ?_ b l cs r hr
  · intro b l; rw [walk_nil]; exact .inr rfl
  · intro b l cs r hl ih; rwa [walk_here hl]
  · intro b l cs r hl ih; rwa [walk_up hl]
  · intro b l a hc hl ha; exact .inl ha
  · intro b l a cs r n hl ha hn ih; rwa [walk_name hl ha hn]
  · intro b l a cs r p hl ha ih; rwa [walk_link hl ha]

theorem walk_of_exists (hr : T.walk false b l cs = some r) (create : Bool) :
    T.walk create b l cs = some r := by
  refine walk_induction (P := fun b l cs r => T.walk create b l cs = some r)
    ?_ ?_ ?_ ?_ ?_ ?_ b l cs r hr
  · intro b l; rw [walk_nil]
  · intro b l cs r hl ih; rw [walk_here hl, ih]
  · intro b l cs r hl ih; rw [walk_up hl, ih]
  · intro b l a hc hl ha; cases hc
  · intro b l a cs r n hl ha hn ih; rw [walk_name hl ha hn, ih]
  · intro b l a cs r p hl ha ih; rw [walk_link hl ha, ih]

/-- The first part of a path has to exist, then the walk goes on along the second. -/
theorem walk_append (hds : create = true → ds ≠ []) : T.walk create b l (cs ++ ds) =
    (T.walk false b l cs).bind fun r => T.walk create r.2 r.1 ds := by
  have hpath : ∀ b, (∀ l a cs p, T.isDir l = true → T.node (l ++ [a]) = some (.link p) →
        T.walk create b l (.name a :: cs ++ ds) =
          (T.walk false b l (.name a :: cs)).bind fun r => T.walk create r.2 r.1 ds) →
      ∀ cs l, T.walk create b l (cs ++ ds) =
        (T.walk false b l cs).bind fun r => T.walk create r.2 r.1 ds := by
    intro b hlink cs
    induction cs with
    | nil => intro l; simp
    | cons c cs ih =>
      intro l
      rw [List.cons_append]
      cases hl : T.isDir l with
      | false => rw [walk_not_dir hl, walk_not_dir hl]; rfl
      | true =>
        cases c with
        | here => rw [walk_here hl, walk_here hl, ih]
        | up => rw [walk_up hl, walk_up hl, ih]
        | name a =>
          cases ha : T.node (l ++ [a]) with
          | none =>
            rw [walk_missing hl ha, walk_missing hl ha]
            cases create with
            | false => rfl
            | true =>
              have hne : (cs ++ ds).isEmpty = false := by simp [hds rfl]
              rw [hne]
              rfl
          | some n =>
            cases hn : n.isLink with
            | false => rw [walk_name hl ha hn, walk_name hl ha hn, ih]
            | true =>
              cases n with
              | dir => cases hn
              | file => cases hn
              | link p => exact hlink l a cs p hl ha
  induction b generalizing l cs with
  | zero =>
    refine hpath 0 (fun l a cs p hl ha => ?_) cs l
    rw [List.cons_append, walk_link_zero hl ha, walk_link_zero hl ha]
    rfl
  | succ b ih =>
    refine hpath (b + 1) (fun l a cs p hl ha => ?_) cs l
    rw [List.cons_append, walk_link hl ha, walk_link hl ha, ← List.append_assoc, ih]

/-- A path without a link in it leads where it says. -/
theorem walk_names {as : List α} {n : Node α} (hn : T.node (l ++ as) = some n)
    (hlink : n.isLink = false) : T.walk create b l (as.map .name) = some (l ++ as, b) := by
  induction as generalizing l with
  | nil => simp
  | cons a as ih =>
    have hassoc : l ++ a :: as = (l ++ [a]) ++ as := by simp
    have hl : T.isDir l = true :=
      isDir_of_prefix (by rw [hn]; simp) (List.prefix_append _ _) (by simp)
    rw [hassoc] at hn ⊢
    rw [List.map_cons]
    by_cases has : as = []
    · subst has
      rw [List.append_nil] at hn ⊢
      rw [walk_name hl hn hlink, List.map_nil, walk_nil]
    · have hdir : T.isDir (l ++ [a]) = true :=
        isDir_of_prefix (by rw [hn]; simp) (List.prefix_append _ _) (by simpa using has)
      rw [walk_name hl (isDir_iff.mp hdir) rfl]
      exact ih hn

/-- There is no link in the tree. -/
def LinkFree (T : FileTree α) : Prop := ∀ l n, T.node l = some n → n.isLink = false

/-- Without links a path leads where its text says. -/
theorem LinkFree.walk (hfree : LinkFree T) (hr : T.walk create b l cs = some r) :
    r.1 = cs.foldl PathPart.step l := by
  refine walk_induction (P := fun _ l cs r => r.1 = cs.foldl PathPart.step l)
    ?_ ?_ ?_ ?_ ?_ ?_ b l cs r hr
  · intro b l; rfl
  · intro b l cs r hl ih; exact ih
  · intro b l cs r hl ih; exact ih
  · intro b l a hc hl ha; rfl
  · intro b l a cs r n hl ha hn ih; exact ih
  · intro b l a cs r p hl ha ih
    cases hfree _ _ ha

/-! ## Links below a location -/

/-- With at most `b` links followed, no link below `l` leads to a location outside, be it one where
a file could be created. -/
def Confined (T : FileTree α) (b : Nat) (l : Loc α) : Prop :=
  ∀ m a p, l <+: m → T.node (m ++ [a]) = some (.link p) →
    ∀ r, T.walk true b m [.name a] = some r → l <+: r.1

theorem walk_one (hr : T.walk create b m [.name a] = some r) :
    r.1 = m ++ [a] ∨ ∃ p, T.node (m ++ [a]) = some (.link p) := by
  cases hm : T.isDir m with
  | false => rw [walk_not_dir hm] at hr; cases hr
  | true =>
    cases ha : T.node (m ++ [a]) with
    | none =>
      rw [walk_missing hm ha] at hr
      split at hr
      · cases hr; exact .inl rfl
      · cases hr
    | some n =>
      cases n with
      | dir => rw [walk_name hm ha rfl, walk_nil] at hr; cases hr; exact .inl rfl
      | file => rw [walk_name hm ha rfl, walk_nil] at hr; cases hr; exact .inl rfl
      | link p => exact .inr ⟨p, rfl⟩

theorem Confined.one (hc : Confined T k l) (hb : b ≤ k) (hm : l <+: m)
    (hr : T.walk create b m [.name a] = some r) : l <+: r.1 := by
  rcases walk_one hr with heq | ⟨p, ha⟩
  · rw [heq]
    exact hm.trans (List.prefix_append _ _)
  · have hmore := walk_more hr (k - b)
    rw [Nat.add_sub_cancel' hb] at hmore
    have hreach : T.walk true k m [.name a] = some (r.1, r.2 + (k - b)) := by
      cases create with
      | true => exact hmore
      | false => exact walk_of_exists hmore true
    exact hc m a p hm ha (r.1, r.2 + (k - b)) hreach

theorem Confined.walk {as : List α} (hc : Confined T k l) (hb : b ≤ k) (hm : l <+: m)
    (hr : T.walk create b m (as.map .name) = some r) : l <+: r.1 := by
  induction as generalizing b m with
  | nil => rw [List.map_nil, walk_nil] at hr; cases hr; exact hm
  | cons a as ih =>
    by_cases has : as = []
    · subst has
      exact hc.one hb hm hr
    · rw [List.map_cons, ← List.singleton_append, walk_append (by simp [has])] at hr
      obtain ⟨q, hq, hr⟩ := Option.bind_eq_some_iff.mp hr
      exact ih ((walk_budget hq).trans hb) (hc.one hb hm hq) hr

/-! ## Making a file -/

/-- The tree with a file at a location that was free, in a directory that exists. -/
def addFile (T : FileTree α) [DecidableEq α] (l : Loc α) : FileTree α where
  node m := if m = l ∧ l ≠ [] ∧ T.isDir l.dropLast ∧ T.node m = none then some .file else T.node m
  root := by rw [if_neg (by simp [T.root]), T.root]
  closed m c hmc := by
    have hold : T.node m = some .dir → (if m = l ∧ l ≠ [] ∧ T.isDir l.dropLast ∧ T.node m = none
        then some .file else T.node m) = some .dir := by
      intro hm
      rw [if_neg (by simp [hm]), hm]
    split at hmc
    · rename_i hnew
      obtain ⟨rfl, -, hdir, -⟩ := hnew
      rw [List.dropLast_concat] at hdir
      exact hold (isDir_iff.mp hdir)
    · exact hold (T.closed m c hmc)

section

variable [DecidableEq α]

theorem addFile_node : (T.addFile l).node m =
    if m = l ∧ l ≠ [] ∧ T.isDir l.dropLast ∧ T.node m = none then some .file else T.node m := rfl

theorem addFile_extends (hm : T.node m ≠ none) : (T.addFile l).node m = T.node m := by
  rw [addFile_node, if_neg (by simp [hm])]

theorem addFile_isDir : (T.addFile l).isDir m = T.isDir m := by
  rw [Bool.eq_iff_iff, isDir_iff, isDir_iff, addFile_node]
  split
  · rename_i hnew
    simp [hnew.2.2.2]
  · rfl

/-- The new file is where its path led already, and nothing is behind it. -/
theorem pass_addFile {follow : Loc α → List (PathPart α) → Option (Loc α × Nat)} :
    ∀ m, (T.addFile l).pass true follow b m cs = T.pass true follow b m cs := by
  induction cs with
  | nil => exact fun m => rfl
  | cons c cs ih =>
    intro m
    cases c with
    | here => simp only [pass, addFile_isDir, ih]
    | up => simp only [pass, addFile_isDir, ih]
    | name a =>
      simp only [pass, addFile_isDir, addFile_node, ih]
      by_cases hnew : m ++ [a] = l ∧ l ≠ [] ∧ T.isDir l.dropLast ∧ T.node (m ++ [a]) = none
      · rw [if_pos hnew, hnew.2.2.2]
        have hfile : T.isDir (m ++ [a]) = false := by simp [isDir, hnew.2.2.2]
        cases cs with
        | nil => rfl
        | cons c cs => simp [pass, hfile]
      · rw [if_neg hnew]

theorem walk_addFile : (T.addFile l).walk true b m cs = T.walk true b m cs := by
  induction b generalizing m cs with
  | zero => exact pass_addFile m
  | succ b ih =>
    have hfollow : (T.addFile l).walk true b = T.walk true b := funext fun m => funext fun cs => ih
    rw [walk, walk, hfollow]
    exact pass_addFile m

end

/-- A walk from what exists to what does not ends in a directory. -/
theorem walk_free (hr : T.walk create b l cs = some r) (hl : T.node l ≠ none)
    (hnone : T.node r.1 = none) : ∃ d a, r.1 = d ++ [a] ∧ T.isDir d = true := by
  have hwalk : T.node l ≠ none → T.node r.1 = none →
      ∃ d a, r.1 = d ++ [a] ∧ T.isDir d = true := by
    refine walk_induction (P := fun _ l _ r => T.node l ≠ none → T.node r.1 = none →
      ∃ d a, r.1 = d ++ [a] ∧ T.isDir d = true) ?_ ?_ ?_ ?_ ?_ ?_ b l cs r hr
    · intro b l hl hnone; exact absurd hnone hl
    · intro b l cs r _ ih; exact ih
    · intro b l cs r hl ih _
      refine ih ?_
      by_cases hnil : l = []
      · rw [hnil, List.dropLast_nil, T.root]
        simp
      · have hup := T.closed l.dropLast (l.getLast hnil)
          (by rw [List.dropLast_concat_getLast, isDir_iff.mp hl]; simp)
        rw [hup]
        simp
    · intro b l a _ hl _ _ _; exact ⟨l, a, rfl, hl⟩
    · intro b l a cs r n _ ha _ ih _; exact ih (by rw [ha]; simp)
    · intro b l a cs r p hl _ ih _
      refine ih ?_
      unfold Path.start
      split
      · rw [T.root]; simp
      · rw [isDir_iff.mp hl]; simp
  exact hwalk hl hnone

/-! ## Making directories -/

/-- The tree with one more directory, in one that exists. -/
def addDir (T : FileTree α) [DecidableEq α] (l : Loc α) (a : α) : FileTree α where
  node m := if m = l ++ [a] ∧ T.isDir l ∧ T.node m = none then some .dir else T.node m
  root := by rw [if_neg (by simp), T.root]
  closed m c hmc := by
    have hold : T.node m = some .dir → (if m = l ++ [a] ∧ T.isDir l ∧ T.node m = none then
        some .dir else T.node m) = some .dir := by
      intro hm
      rw [if_neg (by simp [hm]), hm]
    split at hmc
    · rename_i hnew
      obtain ⟨rfl, -⟩ := List.append_inj' hnew.1 rfl
      exact hold (isDir_iff.mp hnew.2.1)
    · exact hold (T.closed m c hmc)

/-- A tree after directories have been made, which ones, and where the path arrived. -/
structure Made (α : Type*) where
  tree : FileTree α
  made : List (Loc α)
  arrived : Option (Loc α × Nat)

/-- Makes each directory that the path lacks as it goes along; a link that leads nowhere, or to
something that is no directory, ends it. -/
def makeDirs [DecidableEq α] (T : FileTree α) (b : Nat) (l : Loc α) : List (PathPart α) → Made α
  | [] => ⟨T, [], if T.isDir l then some (l, b) else none⟩
  | c :: cs =>
    if T.isDir l then
      match c with
      | .here => makeDirs T b l cs
      | .up => makeDirs T b l.dropLast cs
      | .name a =>
        match T.node (l ++ [a]) with
        | none =>
          let rest := makeDirs (T.addDir l a) b (l ++ [a]) cs
          ⟨rest.tree, (l ++ [a]) :: rest.made, rest.arrived⟩
        | some _ =>
          match T.walk false b l [.name a] with
          | none => ⟨T, [], none⟩
          | some r => makeDirs T r.2 r.1 cs
    else ⟨T, [], none⟩

section

variable [DecidableEq α] {as : List α}

theorem addDir_node : (T.addDir l a).node m =
    if m = l ++ [a] ∧ T.isDir l ∧ T.node m = none then some .dir else T.node m := rfl

theorem addDir_extends (hm : T.node m ≠ none) : (T.addDir l a).node m = T.node m := by
  rw [addDir_node, if_neg (by simp [hm])]

theorem addDir_isDir (hl : T.isDir l = true) (ha : T.node (l ++ [a]) = none) :
    (T.addDir l a).isDir (l ++ [a]) = true := by
  rw [isDir_iff, addDir_node, if_pos ⟨rfl, hl, ha⟩]

/-- A new directory is empty. -/
theorem addDir_empty (ha : T.node (l ++ [a]) = none) (c : α) :
    (T.addDir l a).node (l ++ [a] ++ [c]) = none := by
  rw [addDir_node, if_neg (by simp), none_below ha]

/-- What exists stays. -/
theorem makeDirs_extends (hm : T.node m ≠ none) : (T.makeDirs b l cs).tree.node m = T.node m := by
  induction cs generalizing T b l with
  | nil => rfl
  | cons c cs ih =>
    cases hl : T.isDir l with
    | false => simp [makeDirs, hl]
    | true =>
      cases c with
      | here => rw [makeDirs, if_pos hl]; exact ih hm
      | up => rw [makeDirs, if_pos hl]; exact ih hm
      | name a =>
        rw [makeDirs, if_pos hl]
        cases ha : T.node (l ++ [a]) with
        | none =>
          have hold := addDir_extends (l := l) (a := a) hm
          exact (ih (by rwa [hold])).trans hold
        | some n =>
          cases hone : T.walk false b l [.name a] with
          | none => rfl
          | some q => exact ih hm

/-- Where it arrives is where the path leads afterwards. -/
theorem makeDirs_arrived (hr : (T.makeDirs b l cs).arrived = some r) :
    (T.makeDirs b l cs).tree.walk false b l cs = some r := by
  have hdir : ∀ (T : FileTree α) (b l cs), T.isDir l = true →
      (T.makeDirs b l cs).tree.isDir l = true := by
    intro T b l cs hl
    rw [isDir_iff] at hl ⊢
    rw [makeDirs_extends (by simp [hl]), hl]
  induction cs generalizing T b l with
  | nil =>
    rw [makeDirs] at hr
    dsimp only at hr
    split at hr
    · rw [walk_nil, hr]
    · cases hr
  | cons c cs ih =>
    cases hl : T.isDir l with
    | false => simp [makeDirs, hl] at hr
    | true =>
      cases c with
      | here =>
        have hstep : T.makeDirs b l (.here :: cs) = T.makeDirs b l cs := if_pos hl
        rw [hstep] at hr ⊢
        rw [walk_here (hdir T b l cs hl), ih hr]
      | up =>
        have hstep : T.makeDirs b l (.up :: cs) = T.makeDirs b l.dropLast cs := if_pos hl
        have hup := hdir T b l (.up :: cs) hl
        rw [hstep] at hr hup ⊢
        rw [walk_up hup, ih hr]
      | name a =>
        have hl' := hdir T b l (.name a :: cs) hl
        rw [makeDirs, if_pos hl] at hr hl' ⊢
        cases ha : T.node (l ++ [a]) with
        | none =>
          simp only [ha] at hr hl' ⊢
          have hnew : ((T.addDir l a).makeDirs b (l ++ [a]) cs).tree.node (l ++ [a]) = some .dir :=
            isDir_iff.mp (hdir _ _ _ _ (addDir_isDir hl ha))
          rw [walk_name hl' hnew rfl, ih hr]
        | some n =>
          simp only [ha] at hr hl' ⊢
          cases hone : T.walk false b l [.name a] with
          | none => simp [hone] at hr
          | some q =>
            simp only [hone] at hr hl' ⊢
            rw [← List.singleton_append, walk_append (by simp),
              walk_extend (fun m hm => makeDirs_extends hm) hone, Option.bind_some, ih hr]

/-- From an empty directory on every directory made is below it. -/
theorem makeDirs_new (hl : T.isDir l = true) (hnew : ∀ a, T.node (l ++ [a]) = none) :
    ∀ m ∈ (T.makeDirs b l (as.map .name)).made, l <+: m := by
  induction as generalizing T l with
  | nil => simp [makeDirs]
  | cons a as ih =>
    intro m hm
    rw [List.map_cons, makeDirs, if_pos hl, hnew a] at hm
    rcases List.mem_cons.mp hm with rfl | hm
    · exact List.prefix_append _ _
    · exact (List.prefix_append l [a]).trans
        (ih (addDir_isDir hl (hnew a)) (addDir_empty (hnew a)) m hm)

theorem makeDirs_new_arrived (hl : T.isDir l = true) (hnew : ∀ a, T.node (l ++ [a]) = none)
    (hr : (T.makeDirs b l (as.map .name)).arrived = some r) : l <+: r.1 := by
  induction as generalizing T l with
  | nil =>
    rw [List.map_nil, makeDirs, if_pos hl] at hr
    cases hr
    exact List.prefix_refl _
  | cons a as ih =>
    rw [List.map_cons, makeDirs, if_pos hl, hnew a] at hr
    exact (List.prefix_append l [a]).trans
      (ih (addDir_isDir hl (hnew a)) (addDir_empty (hnew a)) hr)

/-- Every directory made along names is below the first one that was missing. -/
theorem makeDirs_split (hm : m ∈ (T.makeDirs b l (as.map .name)).made) :
    ∃ ps a qs r, as = ps ++ a :: qs ∧ T.walk false b l (ps.map .name) = some r ∧
      T.isDir r.1 = true ∧ T.node (r.1 ++ [a]) = none ∧ r.1 ++ [a] <+: m := by
  induction as generalizing b l with
  | nil => simp [makeDirs] at hm
  | cons a as ih =>
    rw [List.map_cons, makeDirs] at hm
    cases hl : T.isDir l with
    | false => simp [hl] at hm
    | true =>
      rw [if_pos hl] at hm
      cases ha : T.node (l ++ [a]) with
      | none =>
        refine ⟨[], a, as, (l, b), rfl, walk_nil, hl, ha, ?_⟩
        rw [ha] at hm
        rcases List.mem_cons.mp hm with rfl | hm
        · exact List.prefix_refl _
        · exact makeDirs_new (addDir_isDir hl ha) (addDir_empty ha) m hm
      | some n =>
        rw [ha] at hm
        cases hone : T.walk false b l [.name a] with
        | none => simp [hone] at hm
        | some q =>
          simp only [hone] at hm
          obtain ⟨ps, c, qs, r, rfl, hr, hdir, hc, hpre⟩ := ih hm
          refine ⟨a :: ps, c, qs, r, rfl, ?_, hdir, hc, hpre⟩
          rw [List.map_cons, ← List.singleton_append, walk_append (by simp), hone]
          exact hr

/-- So is the place where it arrives, if one was missing. -/
theorem makeDirs_arrives (hr : (T.makeDirs b l (as.map .name)).arrived = some r) :
    T.walk false b l (as.map .name) = some r ∨
      ∃ ps a qs q, as = ps ++ a :: qs ∧ T.walk false b l (ps.map .name) = some q ∧
        T.isDir q.1 = true ∧ T.node (q.1 ++ [a]) = none ∧ q.1 ++ [a] <+: r.1 := by
  induction as generalizing b l with
  | nil =>
    rw [List.map_nil, makeDirs] at hr
    dsimp only at hr
    split at hr
    · exact .inl (walk_nil.trans hr)
    · cases hr
  | cons a as ih =>
    rw [List.map_cons, makeDirs] at hr
    cases hl : T.isDir l with
    | false => simp [hl] at hr
    | true =>
      rw [if_pos hl] at hr
      cases ha : T.node (l ++ [a]) with
      | none =>
        rw [ha] at hr
        exact .inr ⟨[], a, as, (l, b), rfl, walk_nil, hl, ha,
          makeDirs_new_arrived (addDir_isDir hl ha) (addDir_empty ha) hr⟩
      | some n =>
        rw [ha] at hr
        cases hone : T.walk false b l [.name a] with
        | none => simp [hone] at hr
        | some q =>
          simp only [hone] at hr
          have hcons : ∀ ps : List α, T.walk false b l ((a :: ps).map .name) =
              T.walk false q.2 q.1 (ps.map .name) := by
            intro ps
            rw [List.map_cons, ← List.singleton_append, walk_append (by simp), hone]
            rfl
          rcases ih hr with hwalk | ⟨ps, c, qs, q', rfl, hq', hdir, hc, hpre⟩
          · exact .inl ((hcons as).trans hwalk)
          · exact .inr ⟨a :: ps, c, qs, q', rfl, (hcons ps).trans hq', hdir, hc, hpre⟩

/-- And one is made there. -/
theorem makeDirs_missing {ps qs : List α} (hr : T.walk false b l (ps.map .name) = some r)
    (hdir : T.isDir r.1 = true) (ha : T.node (r.1 ++ [a]) = none) :
    r.1 ++ [a] ∈ (T.makeDirs b l ((ps ++ a :: qs).map .name)).made := by
  induction ps generalizing b l with
  | nil =>
    rw [List.map_nil, walk_nil] at hr
    cases hr
    rw [List.nil_append, List.map_cons, makeDirs, if_pos hdir, ha]
    exact List.mem_cons_self
  | cons c ps ih =>
    rw [List.map_cons, ← List.singleton_append, walk_append (by simp)] at hr
    obtain ⟨q, hq, hr⟩ := Option.bind_eq_some_iff.mp hr
    have hl : T.isDir l = true := by
      cases hl : T.isDir l with
      | true => rfl
      | false => rw [walk_not_dir hl] at hq; cases hq
    rw [List.cons_append, List.map_cons, makeDirs, if_pos hl]
    cases hc : T.node (l ++ [c]) with
    | none => rw [walk_missing hl hc] at hq; cases hq
    | some n =>
      simp only [hq]
      exact ih hr

theorem Confined.makeDirs (hc : Confined T k l) (hb : b ≤ k) :
    ∀ m ∈ (T.makeDirs b l (as.map .name)).made, l <+: m := by
  intro m hm
  obtain ⟨ps, a, qs, r, -, hr, -, -, hpre⟩ := makeDirs_split hm
  exact (hc.walk hb (List.prefix_refl l) hr).trans ((List.prefix_append _ _).trans hpre)

end

end FileTree

end Dirs
