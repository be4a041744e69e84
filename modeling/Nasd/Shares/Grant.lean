import Nasd.Files
import Nasd.Filepath.Normal
import Nasd.Shares.Apply

/-!
# Nasd.Shares.Grant

`GrantShareAccess`, for every path that it takes: the commands that are run, and on a tree without
links the permission bits that they leave. The loop over `filepath.Dir` ends on any path, since it
is the recursion that defines `openAncestors`.

* `openAncestors_eq`       — one command for each directory above, the deepest first.
* `location_of_stat`       — without links a path leads where its text says.
* `GrantShareAccess_opens` — the commands and the bits.
-/

namespace Nasd
namespace Shares

open Text Go Sys Filepath Dirs Files

variable {σ : Type} {O : OS σ} {h : Host σ} {path p : Str} {ns a : List Str} {cs : List Cmd}
  {c : Cmd} {T : FS}

/-! ## Commands -/

def runAll (O : OS σ) (cs : List Cmd) (h : Host σ) : Host σ :=
  cs.foldl (fun h c => (h.run O.run c).2) h

/-- The commands with their answers. -/
def answers (O : OS σ) : List Cmd → σ → List (Cmd × Result)
  | [], _ => []
  | c :: cs, env => (c, (O.run c env).1) :: answers O cs (O.run c env).2

theorem answers_fst (cs : List Cmd) : ∀ env, (answers O cs env).map Prod.fst = cs := by
  induction cs with
  | nil => intro env; rfl
  | cons c cs ih => intro env; rw [answers, List.map_cons, ih]

theorem runAll_log (cs : List Cmd) : ∀ h : Host σ,
    (runAll O cs h).log = h.log ++ answers O cs h.env := by
  induction cs with
  | nil => intro h; exact (List.append_nil _).symm
  | cons c cs ih =>
    intro h
    have hrest := ih (h.run O.run c).2
    rw [runAll, List.foldl_cons]
    rw [runAll] at hrest
    rw [hrest, Host.run_log, List.append_assoc]
    rfl

/-- Every command succeeds. -/
def Succeed (O : OS σ) (cs : List Cmd) (env : σ) : Prop := ∀ e ∈ answers O cs env, e.2.err = none

theorem succeed_cons {env : σ} : Succeed O (c :: cs) env ↔
    (O.run c env).1.err = none ∧ Succeed O cs (O.run c env).2 := List.forall_mem_cons

/-- The directories on a way given from its end, the deepest first. -/
def upwardFrom : List Str → List (List Str)
  | [] => []
  | n :: rest => (n :: rest).reverse :: upwardFrom rest

def upward (ns : List Str) : List (List Str) := upwardFrom ns.reverse

@[simp] theorem upward_nil : upward [] = [] := rfl

theorem upward_concat (ns : List Str) (n : Str) :
    upward (ns ++ [n]) = (ns ++ [n]) :: upward ns := by
  rw [upward, List.reverse_concat, upwardFrom, List.reverse_cons, List.reverse_reverse, upward]

theorem mem_upward : a ∈ upward ns ↔ a ≠ [] ∧ a <+: ns := by
  induction ns using List.reverseRecOn with
  | nil =>
    rw [upward_nil, List.prefix_nil]
    simp
  | append_singleton ns n ih =>
    rw [upward_concat, List.mem_cons, ih, List.prefix_concat_iff]
    constructor
    · rintro (rfl | ⟨hne, hpre⟩)
      · exact ⟨by simp, .inl rfl⟩
      · exact ⟨hne, .inr hpre⟩
    · rintro ⟨hne, heq | hpre⟩
      · exact .inl heq
      · exact .inr ⟨hne, hpre⟩

theorem upward_deepest (ns : List Str) : (upward ns).Pairwise fun a b => b.length < a.length := by
  induction ns using List.reverseRecOn with
  | nil => rw [upward_nil]; exact .nil
  | append_singleton ns n ih =>
    rw [upward_concat]
    refine .cons (fun b hb => ?_) ih
    have hle := (mem_upward.mp hb).2.length_le
    rw [List.length_append, List.length_singleton]
    omega

theorem upward_nodup (ns : List Str) : (upward ns).Nodup :=
  (upward_deepest ns).imp fun hlt heq => by rw [heq] at hlt; exact Nat.lt_irrefl _ hlt

/-- The loop, from a clean path up. -/
theorem openAncestors_eq (hns : ∀ n ∈ ns, IsName n) : ∀ h : Host σ,
    openAncestors O (absPath ns) h =
      runAll O ((upward ns).map fun a => traverse (absPath a)) h := by
  induction ns using List.reverseRecOn with
  | nil =>
    intro h
    rw [openAncestors, if_pos (.inl rfl), upward_nil]
    rfl
  | append_singleton ns n ih =>
    intro h
    have hnames : ∀ m ∈ ns, IsName m := fun m hm => hns m (List.mem_append_left _ hm)
    have hn : IsName n := hns n (by simp)
    have hup : Dir (absPath (ns ++ [n])) = absPath ns := Dir_absPath hnames hn.2.1
    have hgo : ¬ (absPath (ns ++ [n]) = "/" ∨ absPath (ns ++ [n]) = "." ∨
        absPath (ns ++ [n]) = []) := by
      rintro (heq | heq | heq)
      · have hparts := congrArg (cleanParts true) heq
        rw [cleanParts_absPath hns] at hparts
        exact List.append_ne_nil_of_right_ne_nil ns (List.cons_ne_nil n []) hparts
      · exact absurd (List.cons.inj heq).1 (by decide)
      · cases heq
    rw [openAncestors, if_neg hgo, hup, ih hnames, upward_concat]
    rfl

/-- A path by the directory it is in: its last component goes down, up, or stays. -/
theorem exists_dir (habs : HasPrefix path "/" = true) : ∃ ns last, (∀ n ∈ ns, IsName n) ∧
    Dir path = absPath ns ∧ normalised path = descend ns last := by
  obtain ⟨q, last, hsplit, hlast⟩ := exists_last habs
  have hup : path.rdropWhile (· ≠ '/') = q ++ ['/'] := hsplit ▸ upToSlash_append q hlast
  have hend : normalised (q ++ ['/']) = normalised q := normalised_append q []
  have hrooted : HasPrefix (q ++ ['/']) "/" = true := by
    rw [HasPrefix_iff] at habs ⊢
    cases q with
    | nil => exact List.prefix_refl _
    | cons c q =>
      rw [hsplit] at habs
      obtain ⟨rest, hrest⟩ := habs
      exact ⟨q ++ ['/'], by rw [← (List.cons.inj hrest).1]; rfl⟩
  refine ⟨normalised q, last, normalised_names q, ?_, ?_⟩
  · rw [Dir, hup, Clean_rooted hrooted, cleanParts_rooted, hend]
  · rw [hsplit, normalised_append, List.splitOn_eq_singleton hlast]
    rfl

theorem prefix_of_descend {last : Str} (hpre : a <+: descend ns last) (hne : a ≠ descend ns last) :
    a <+: ns := by
  unfold descend at hpre hne
  split at hpre
  · exact hpre
  · split at hpre
    · exact hpre.trans (List.dropLast_prefix ns)
    · rename_i hstay hup
      rw [if_neg hstay, if_neg hup] at hne
      exact (List.prefix_concat_iff.mp hpre).resolve_left hne

theorem GrantShareAccess_eq (habs : HasPrefix path "/" = true)
    (hclean : ContainsAny path badGrantChars = false) (hdir : Dir path = absPath ns)
    (hns : ∀ n ∈ ns, IsName n) : (GrantShareAccess O path h).2 =
      runAll O ((upward ns).map (fun a => traverse (absPath a)) ++ [readable path]) h := by
  unfold GrantShareAccess
  rw [habs, hclean, if_neg (by decide), hdir, openAncestors_eq hns]
  simp only [runAll, List.foldl_append, List.foldl_cons, List.foldl_nil]
  split <;> rfl

/-! ## Where a path leads -/

theorem foldl_step_part {pieces : List Str} (hslash : ∀ q ∈ pieces, '/' ∉ q)
    (hnul : ∀ q ∈ pieces, '\x00' ∉ q) : ∀ l : Loc Name,
    ((pieces.map part).foldl PathPart.step l).map Subtype.val =
      pieces.foldl descend (l.map Subtype.val) := by
  induction pieces with
  | nil => intro l; rfl
  | cons q pieces ih =>
    intro l
    have hone : (PathPart.step l (part q)).map Subtype.val = descend (l.map Subtype.val) q := by
      by_cases hname : IsName q
      · have hpart : part q = .name ⟨q, hname, hnul q List.mem_cons_self⟩ :=
          dif_pos ⟨hname, hnul q List.mem_cons_self⟩
        rw [hpart, descend_name hname, PathPart.step, List.map_append]
        rfl
      · by_cases hup : q = ".."
        · subst hup
          exact List.map_dropLast
        · have hpart : part q = .here := by
            rw [part, dif_neg fun hq => hname hq.1, if_neg hup]
          have hstay : q = [] ∨ q = "." := by
            by_contra hnot
            rw [not_or] at hnot
            exact hname ⟨hnot.1, hslash q List.mem_cons_self, hnot.2, hup⟩
          rw [hpart, descend, if_pos hstay]
          rfl
    rw [List.map_cons, List.foldl_cons, List.foldl_cons, ← hone]
    exact ih (fun r hr => hslash r (List.mem_cons_of_mem _ hr))
      (fun r hr => hnul r (List.mem_cons_of_mem _ hr)) _

/-- Without links a path leads where its text says. -/
theorem location_of_stat {l : Loc Name} (hfree : FileTree.LinkFree T) (hl : Stat T p = some l) :
    l.map Subtype.val = normalised p := by
  obtain ⟨r, hr, rfl⟩ := Option.map_eq_some_iff.mp hl
  obtain ⟨cs, hcs, hr⟩ := Option.bind_eq_some_iff.mp hr
  unfold parts at hcs
  split at hcs
  · cases hcs
  · rename_i hpath
    cases hcs
    have hpieces : ∀ q ∈ p.splitOn '/', '\x00' ∉ q := by
      intro q hq hmem
      rw [List.splitOn_eq_splitOnP] at hq
      exact hpath (.inr ((mem_splitOnP hq).2.subset hmem))
    rw [hfree.walk hr, foldl_step_part (fun _ => slash_not_mem_of_mem_splitOn) hpieces []]
    rfl

/-! ## Permission bits -/

/-- `o+rX`: read for others, and `x` where it is a directory or someone may execute it. -/
def openBits (dir : Bool) (mode : Nat) : Nat :=
  if dir || mode &&& 0o111 ≠ 0 then mode ||| 0o5 else mode ||| 0o4

/-- A tree whose permission bits `chmod` sets: on the directory that it is given, and from there
down on everything with `-R`. -/
structure TreeModes (σ : Type) (T : FS) where
  os : OS σ
  mode : σ → Loc Name → Nat
  traverse_sets : ∀ p env, (os.run (traverse p) env).1.err = none → ∃ l, Stat T p = some l ∧
    ∀ m, mode (os.run (traverse p) env).2 m =
      if m = l then mode env m ||| 0o1 else mode env m
  readable_sets : ∀ p env, (os.run (readable p) env).1.err = none → ∃ l, Stat T p = some l ∧
    ∀ m, mode (os.run (readable p) env).2 m =
      if l <+: m ∧ (T.node m).isSome then openBits (T.isDir m) (mode env m) else mode env m

/-- No bit is removed. -/
def Grows (m m' : Loc Name → Nat) : Prop := ∀ l i, (m l).testBit i = true → (m' l).testBit i = true

theorem Grows.refl (m : Loc Name → Nat) : Grows m m := fun _ _ h => h

theorem Grows.trans {m₁ m₂ m₃ : Loc Name → Nat} (h : Grows m₁ m₂) (h' : Grows m₂ m₃) :
    Grows m₁ m₃ := fun l i hi => h' l i (h l i hi)

theorem testBit_or_left {m k i : Nat} (h : m.testBit i = true) : (m ||| k).testBit i = true := by
  rw [Nat.testBit_or, h, Bool.true_or]

theorem testBit_or_right {m k i : Nat} (h : k.testBit i = true) : (m ||| k).testBit i = true := by
  rw [Nat.testBit_or, h, Bool.or_true]

theorem openBits_grows {dir : Bool} {m i : Nat} (h : m.testBit i = true) :
    (openBits dir m).testBit i = true := by
  unfold openBits
  split <;> exact testBit_or_left h

theorem openBits_read (dir : Bool) (m : Nat) : (openBits dir m).testBit 2 = true := by
  unfold openBits
  split <;> exact testBit_or_right rfl

theorem openBits_dir (m : Nat) : (openBits true m).testBit 0 = true := testBit_or_right rfl

section

variable {M : TreeModes σ T} {env : σ}

theorem traverse_grows (hok : (M.os.run (traverse p) env).1.err = none) :
    Grows (M.mode env) (M.mode (M.os.run (traverse p) env).2) := by
  obtain ⟨l, -, hmode⟩ := M.traverse_sets p env hok
  intro m i hi
  rw [hmode m]
  split
  · exact testBit_or_left hi
  · exact hi

theorem readable_grows (hok : (M.os.run (readable p) env).1.err = none) :
    Grows (M.mode env) (M.mode (M.os.run (readable p) env).2) := by
  obtain ⟨l, -, hmode⟩ := M.readable_sets p env hok
  intro m i hi
  rw [hmode m]
  split
  · exact openBits_grows hi
  · exact hi

/-- The commands for the directories, one after the other. -/
theorem traversals_open {ps : List Str} : ∀ {h : Host σ}, Succeed M.os (ps.map traverse) h.env →
    Grows (M.mode h.env) (M.mode (runAll M.os (ps.map traverse) h).env) ∧
      ∀ p ∈ ps, ∃ l, Stat T p = some l ∧
        (M.mode (runAll M.os (ps.map traverse) h).env l).testBit 0 = true := by
  induction ps with
  | nil => exact fun _ => ⟨.refl _, fun p hp => absurd hp List.not_mem_nil⟩
  | cons p ps ih =>
    intro h hok
    obtain ⟨hfirst, hrest⟩ := succeed_cons.mp hok
    obtain ⟨hgrows, hopen⟩ := ih (h := (h.run M.os.run (traverse p)).2) hrest
    refine ⟨(traverse_grows hfirst).trans hgrows, fun q hq => ?_⟩
    rcases List.mem_cons.mp hq with rfl | hq
    · obtain ⟨l, hl, hmode⟩ := M.traverse_sets q h.env hfirst
      refine ⟨l, hl, hgrows l 0 ?_⟩
      have hset := hmode l
      rw [if_pos rfl] at hset
      exact (congrArg (Nat.testBit · 0) hset).trans (testBit_or_right rfl)
    · exact hopen q hq

theorem succeed_append {cs cs' : List Cmd} : ∀ {h : Host σ}, Succeed O (cs ++ cs') h.env →
    Succeed O cs h.env ∧ Succeed O cs' (runAll O cs h).env := by
  induction cs with
  | nil => exact fun hok => ⟨fun e he => absurd he List.not_mem_nil, hok⟩
  | cons c cs ih =>
    intro h hok
    obtain ⟨hfirst, hrest⟩ := succeed_cons.mp hok
    obtain ⟨hleft, hright⟩ := ih (h := (h.run O.run c).2) hrest
    exact ⟨succeed_cons.mpr ⟨hfirst, hleft⟩, hright⟩

theorem runAll_append (cs cs' : List Cmd) (h : Host σ) :
    runAll O (cs ++ cs') h = runAll O cs' (runAll O cs h) := List.foldl_append

/-- Every directory above a path can be passed, and everything from there down can be read. The root
is not asked for: it keeps the bits that it has. -/
structure Granted (M : TreeModes σ T) (path : Str) (env env' : σ) : Prop where
  location : ∃ l, Stat T path = some l
  above : ∀ l a, Stat T path = some l → a <+: l → a ≠ l →
    (a = [] → (M.mode env []).testBit 0 = true) → (M.mode env' a).testBit 0 = true
  below : ∀ l m, Stat T path = some l → l <+: m → T.node m ≠ none →
    (M.mode env' m).testBit 2 = true ∧ (T.isDir m = true → (M.mode env' m).testBit 0 = true)
  kept : Grows (M.mode env) (M.mode env')

theorem grant_opens {last : Str} (hfree : FileTree.LinkFree T)
    (hpath : normalised path = descend ns last)
    (hok : Succeed M.os ((upward ns).map (fun a => traverse (absPath a)) ++ [readable path])
      h.env) :
    Granted M path h.env (runAll M.os ((upward ns).map (fun a => traverse (absPath a)) ++
      [readable path]) h).env := by
  have hmap : (upward ns).map (fun a => traverse (absPath a)) =
      ((upward ns).map absPath).map traverse := by rw [List.map_map]; rfl
  rw [hmap] at hok ⊢
  obtain ⟨hdirs, hlast⟩ := succeed_append hok
  obtain ⟨hgrows, hopen⟩ := traversals_open hdirs
  obtain ⟨hread, -⟩ := succeed_cons.mp hlast
  obtain ⟨l, hl, hmode⟩ := M.readable_sets path _ hread
  have hgrows' := readable_grows (M := M) hread
  have hloc := location_of_stat hfree hl
  rw [runAll_append]
  refine ⟨⟨l, hl⟩, fun k a hk hpre hne hroot => ?_, fun k m hk hpre hm => ?_, hgrows.trans hgrows'⟩
  · obtain rfl : l = k := Option.some.inj (hl.symm.trans hk)
    by_cases hnil : a = []
    · rw [hnil]
      exact hgrows' _ _ (hgrows _ _ (hroot hnil))
    · have hbefore : a.map Subtype.val <+: ns := by
        have hshort : a.map Subtype.val <+: descend ns last := by
          rw [← hpath, ← hloc]
          exact hpre.map _
        refine prefix_of_descend hshort ?_
        rw [← hpath, ← hloc]
        exact fun heq => hne (List.map_injective_iff.mpr Subtype.val_injective heq)
      have hmem : absPath (a.map Subtype.val) ∈ (upward ns).map absPath :=
        List.mem_map_of_mem (mem_upward.mpr ⟨mt List.map_eq_nil_iff.mp hnil, hbefore⟩)
      obtain ⟨d, hd, hbit⟩ := hopen _ hmem
      have hda : d = a := by
        have hnames := location_of_stat hfree hd
        rw [normalised_absPath (pathOf_names a)] at hnames
        exact List.map_injective_iff.mpr Subtype.val_injective hnames
      rw [hda] at hbit
      exact hgrows' _ _ hbit
  · obtain rfl : l = k := Option.some.inj (hl.symm.trans hk)
    have hset := hmode m
    rw [if_pos ⟨hpre, Option.isSome_iff_ne_none.mpr hm⟩] at hset
    refine ⟨(congrArg (Nat.testBit · 2) hset).trans (openBits_read _ _), fun hdir => ?_⟩
    rw [hdir] at hset
    exact (congrArg (Nat.testBit · 0) hset).trans (openBits_dir _)

end

/-! ## Every path -/

theorem GrantShareAccess_opens (O : OS σ) (h : Host σ) {path : Str}
    (haccept : (!HasPrefix path "/" || ContainsAny path badGrantChars) = false) :
    ∃ (ns : List Str) (dirs : List (List Str)) (log : List (Cmd × Result)),
      (∀ n ∈ ns, IsName n) ∧ Dir path = absPath ns ∧
      Clean path = absPath (normalised path) ∧
      (GrantShareAccess O path h).2.log = h.log ++ log ∧
      log.map Prod.fst = dirs.map (fun a => traverse (absPath a)) ++ [readable path] ∧
      dirs.Nodup ∧ dirs.Pairwise (fun a b => b.length < a.length) ∧
      (∀ a, a ∈ dirs ↔ a ≠ [] ∧ a <+: ns) ∧
      (∀ a, a ≠ [] → a <+: normalised path → a ≠ normalised path → a ∈ dirs) ∧
      ∀ (T : FS) (M : TreeModes σ T), M.os = O → FileTree.LinkFree T →
        (∀ e ∈ log, e.2.err = none) → Granted M path h.env (GrantShareAccess O path h).2.env := by
  rw [Bool.or_eq_false_iff, Bool.not_eq_false'] at haccept
  obtain ⟨habs, hclean⟩ := haccept
  obtain ⟨ns, last, hns, hdir, hpath⟩ := exists_dir habs
  have hrun := GrantShareAccess_eq (O := O) (h := h) habs hclean hdir hns
  refine ⟨ns, upward ns, answers O ((upward ns).map (fun a => traverse (absPath a)) ++
    [readable path]) h.env, hns, hdir, ?_, ?_, answers_fst _ _, upward_nodup ns, upward_deepest ns,
    fun a => mem_upward, fun a hne hpre hother => ?_, ?_⟩
  · rw [Clean_rooted habs, cleanParts_rooted]
  · rw [hrun, runAll_log]
  · rw [hpath] at hpre hother
    exact mem_upward.mpr ⟨hne, prefix_of_descend hpre hother⟩
  · rintro T M rfl hfree hok
    rw [hrun]
    exact grant_opens hfree hpath hok

/-- The bits of a tree by their locations. -/
def chmodRun (T : FS) : Runner (Loc Name → Nat) := fun c bits =>
  match c.args with
  | [_, p] =>
    match Stat T p with
    | none => (⟨[], [], some "chmod: cannot access"⟩, bits)
    | some l => (⟨[], [], none⟩, fun m => if m = l then bits m ||| 0o1 else bits m)
  | [_, _, p] =>
    match Stat T p with
    | none => (⟨[], [], some "chmod: cannot access"⟩, bits)
    | some l => (⟨[], [], none⟩, fun m =>
        if l <+: m ∧ (T.node m).isSome then openBits (T.isDir m) (bits m) else bits m)
  | _ => (⟨[], [], none⟩, bits)

def treeModes (T : FS) : TreeModes (Loc Name → Nat) T where
  os := ⟨chmodRun T, fun _ _ bits => (none, bits), fun _ _ bits => (none, bits)⟩
  mode := id
  traverse_sets p bits hok := by
    simp only [chmodRun, traverse] at hok ⊢
    cases hl : Stat T p with
    | none => simp [hl] at hok
    | some l => exact ⟨l, rfl, fun m => rfl⟩
  readable_sets p bits hok := by
    simp only [chmodRun, readable] at hok ⊢
    cases hl : Stat T p with
    | none => simp [hl] at hok
    | some l => exact ⟨l, rfl, fun m => rfl⟩

theorem srv_name : IsName "srv" ∧ '\x00' ∉ ("srv" : Str) := by decide

def srv : Name := ⟨"srv", srv_name⟩
def films : Name := ⟨"films", by decide⟩

def filmsTree : FS := .ofEntries [([srv], .dir), ([srv, films], .dir)] (by decide)

theorem filmsTree_linkFree : FileTree.LinkFree filmsTree := by
  intro l n hn
  by_cases hl : l = []
  · subst hl
    cases hn
    rfl
  · have hmem := FileTree.ofEntries_mem hl hn
    simp only [List.mem_cons, Prod.mk.injEq, List.not_mem_nil, or_false] at hmem
    rcases hmem with ⟨-, rfl⟩ | ⟨-, rfl⟩ <;> rfl

theorem GrantShareAccess_opens_films :
    Granted (treeModes filmsTree) "/srv/films/" (fun _ => 0o700)
      (GrantShareAccess (treeModes filmsTree).os "/srv/films/"
        (.start (fun _ => 0o700) fun _ => none)).2.env := by
  obtain ⟨ns, dirs, log, -, -, -, hlog, -, -, -, -, -, hopened⟩ :=
    GrantShareAccess_opens (treeModes filmsTree).os (.start (fun _ => 0o700) fun _ => none)
      (by decide :
        (!HasPrefix "/srv/films/" "/" || ContainsAny "/srv/films/" badGrantChars) = false)
  refine hopened filmsTree (treeModes filmsTree) rfl filmsTree_linkFree ?_
  have hall : ((GrantShareAccess (treeModes filmsTree).os "/srv/films/"
      (.start (fun _ => 0o700) fun _ => none)).2.log.all fun e => e.2.err = none) = true := by
    decide +kernel
  rw [hlog, Host.start, List.nil_append, List.all_eq_true] at hall
  exact fun e he => by simpa using hall e he

end Shares
end Nasd
