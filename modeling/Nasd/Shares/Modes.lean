import Nasd.Shares.Handlers

/-!
# Nasd.Shares.Modes

The permission bits of directories along a request on the shares. A request regenerates both files,
and each generator opens the folders of all its shares; what the request is about is one of them.

* `folders_mode`           — the folders of some shares are opened.
* `regenerate_mode`        — so are all those of the table.
* `request_keeps_modes_iff` — when the directories of other shares are left as they are.
-/

namespace Nasd
namespace Shares

open Text Go Sys

variable {σ δ : Type} {U : PrintTable} {h h' : Host σ} {s : Share} {t : Table}

/-! ## Directories -/

/-- A system with directories: which one a path names, which lie below which, their nine permission
bits, and where the file system keeps the bits that `chmod` sets. `mkdir -p` and `chmod` touch
nothing but what they are given, and other commands no bits. -/
structure ModeSystem (σ δ : Type) where
  os : OS σ
  dir : Str → δ
  below : δ → δ → Prop
  takes : δ → Prop
  mode : σ → δ → Option Nat
  write_keeps : ∀ path content env, mode (os.write path content env).2 = mode env
  rename_keeps : ∀ old new env, mode (os.rename old new env).2 = mode env
  others : ∀ (c : Cmd) env, c.name ≠ ("mkdir" : Str) → c.name ≠ ("chmod" : Str) →
    mode (os.run c env).2 = mode env
  mkdir_keeps : ∀ {path env d m}, mode env d = some m →
    mode (os.run (mkdir path) env).2 d = some m
  chmod_opens : ∀ {path env m}, takes (dir path) → mode env (dir path) = some m →
    mode (os.run (chmod path) env).2 (dir path) = some 0o777
  chmod_keeps : ∀ {path env d}, (d = dir path → ¬ takes d) →
    mode (os.run (chmod path) env).2 d = mode env d
  traverse_keeps : ∀ {path env d}, d ≠ dir path → mode (os.run (traverse path) env).2 d = mode env d
  readable_keeps : ∀ {path env d}, d ≠ dir path → ¬ below (dir path) d →
    mode (os.run (readable path) env).2 d = mode env d

/-- The paths above a path, by `filepath.Dir`. -/
inductive Above (path : Str) : Str → Prop where
  | parent : Above path (Filepath.Dir path)
  | further {a : Str} (h : Above path a) : Above path (Filepath.Dir a)

theorem Above.up {path a : Str} (h : Above (Filepath.Dir path) a) : Above path a := by
  induction h with
  | parent => exact .further .parent
  | further _ ih => exact .further ih

variable {M : ModeSystem σ δ}

/-- The folder of a share, what is below it and what is above it. -/
def ModeSystem.cone (M : ModeSystem σ δ) (path : Str) (d : δ) : Prop :=
  d = M.dir path ∨ M.below (M.dir path) d ∨ ∃ a, Above path a ∧ d = M.dir a

/-- The directories outside the cone have the permission bits they had. -/
def Framed (M : ModeSystem σ δ) (path : Str) (h h' : Host σ) : Prop :=
  ∀ d m, ¬ M.cone path d → M.mode h.env d = some m → M.mode h'.env d = some m

/-- The path of the share that a statement is about. -/
def Stmt.path (t : Table) : Stmt → Str
  | .insert s => s.share.path
  | .update _ s => s.share.path
  | .delete id => ((t.rows.find? (·.id = id)).map Row.path).getD []

/-- The request succeeds, by this statement and with this table. -/
def Succeeds (U : PrintTable) (M : ModeSystem σ δ) (q : Request) (b : Backend σ) (st : Stmt)
    (t : Table) : Prop :=
  check q = .ok st ∧ st.exec b.table = .changed t ∧ ¬ (handle U M.os q b).1.failed

/-! ## Regenerating -/

/-- Commands that make no directory and change no bits, and what is done to files. -/
def Op.neutral : Op → Bool
  | .must c => c.name ≠ "mkdir" && c.name ≠ "chmod"
  | .may c => c.name ≠ "mkdir" && c.name ≠ "chmod"
  | _ => true

theorem run_mode {c : Cmd} (hc : (c.name ≠ "mkdir" && c.name ≠ "chmod") = true) (h : Host σ) :
    M.mode (h.run M.os.run c).2.env = M.mode h.env := by
  simp only [Bool.and_eq_true, decide_eq_true_eq] at hc
  exact M.others c h.env hc.1 hc.2

theorem neutral_mode {op : Op} (hn : Op.neutral op = true) (hop : op.perform M.os h = some h') :
    M.mode h'.env = M.mode h.env := by
  cases op with
  | must c =>
    obtain ⟨-, rfl⟩ := perform_must.mp hop
    exact run_mode hn h
  | may c =>
    cases hop
    exact run_mode hn h
  | write path content =>
    simp only [Op.perform, Host.tryWrite] at hop
    cases hout : (M.os.write path content h.env).1 with
    | none =>
      simp only [hout, Option.some.injEq] at hop
      rw [← hop]
      exact M.write_keeps path content h.env
    | some e => simp [hout] at hop
  | rename old new =>
    simp only [Op.perform, Host.tryRename] at hop
    cases hout : (M.os.rename old new h.env).1 with
    | some e => simp [hout] at hop
    | none =>
      cases hfiles : Files.rename old new h.files with
      | error e => simp [hout, hfiles] at hop
      | ok files =>
        simp only [hout, hfiles, Option.some.injEq] at hop
        rw [← hop]
        exact M.rename_keeps old new h.env

theorem neutrals_mode {ops : List Op} (hn : ∀ op ∈ ops, Op.neutral op = true)
    (hops : performs M.os ops h = some h') : M.mode h'.env = M.mode h.env := by
  induction ops generalizing h with
  | nil => cases hops; rfl
  | cons op ops ih =>
    obtain ⟨h₁, hop, hrest⟩ := performs_cons.mp hops
    rw [ih (fun o ho => hn o (List.mem_cons_of_mem _ ho)) hrest,
      neutral_mode (hn op List.mem_cons_self) hop]

/-- One of the shares has this directory, and its bits can be set. -/
def Opens (M : ModeSystem σ δ) (ss : List Share) (d : δ) : Prop :=
  ∃ s ∈ ss, M.dir s.path = d ∧ M.takes d

/-- The bits after the folders of some shares were opened. -/
def OpenedBy (M : ModeSystem σ δ) (ss : List Share) (h h' : Host σ) : Prop :=
  ∀ d m, M.mode h.env d = some m → ∃ m', M.mode h'.env d = some m' ∧
    (Opens M ss d → m' = 0o777) ∧ (¬ Opens M ss d → m' = m)

theorem OpenedBy.nil (hmode : M.mode h'.env = M.mode h.env) : OpenedBy M [] h h' := by
  intro d m hm
  refine ⟨m, by rw [hmode, hm], ?_, fun _ => rfl⟩
  rintro ⟨s, hs, -⟩
  cases hs

theorem OpenedBy.append {ss ss' : List Share} {h₁ h₂ : Host σ} (hfirst : OpenedBy M ss h h₁)
    (hthen : OpenedBy M ss' h₁ h₂) : OpenedBy M (ss ++ ss') h h₂ := by
  intro d m hm
  obtain ⟨m₁, hm₁, hopen₁, hkeep₁⟩ := hfirst d m hm
  obtain ⟨m₂, hm₂, hopen₂, hkeep₂⟩ := hthen d m₁ hm₁
  have hboth : Opens M (ss ++ ss') d ↔ Opens M ss d ∨ Opens M ss' d := by
    simp only [Opens, List.mem_append, or_and_right, exists_or]
  refine ⟨m₂, hm₂, fun hopen => ?_, fun hno => ?_⟩
  · by_cases hlast : Opens M ss' d
    · exact hopen₂ hlast
    · rw [hkeep₂ hlast]
      exact hopen₁ ((hboth.mp hopen).resolve_right hlast)
  · rw [hboth, not_or] at hno
    rw [hkeep₂ hno.2, hkeep₁ hno.1]

theorem folder_mode (hops : performs M.os (folderOps s) h = some h') : OpenedBy M [s] h h' := by
  obtain ⟨h₁, hmkdir, hrest⟩ := performs_cons.mp hops
  obtain ⟨h₂, hchmod, hend⟩ := performs_cons.mp hrest
  obtain ⟨-, rfl⟩ := perform_must.mp hmkdir
  cases hchmod
  cases hend
  have hiff : ∀ d, Opens M [s] d ↔ M.dir s.path = d ∧ M.takes d := fun d => by simp [Opens]
  intro d m hm
  have hmade : M.mode ((h.run M.os.run (mkdir s.path)).2).env d = some m := M.mkdir_keeps hm
  by_cases hopen : M.dir s.path = d ∧ M.takes d
  · obtain ⟨rfl, htakes⟩ := hopen
    exact ⟨_, M.chmod_opens htakes hmade, fun _ => rfl,
      fun hno => absurd ((hiff _).mpr ⟨rfl, htakes⟩) hno⟩
  · refine ⟨m, ?_, fun h => absurd ((hiff d).mp h) hopen, fun _ => rfl⟩
    rw [← hmade]
    exact M.chmod_keeps fun hd htakes => hopen ⟨hd.symm, htakes⟩

theorem folders_mode {ss : List Share} (hops : performs M.os (ss.flatMap folderOps) h = some h') :
    OpenedBy M ss h h' := by
  induction ss generalizing h with
  | nil => cases hops; exact .nil rfl
  | cons s ss ih =>
    obtain ⟨h₁, hfirst, hrest⟩ := performs_append.mp hops
    exact (folder_mode hfirst).append (ih hrest)

theorem replaceOps_neutral {path content : Str} {op : Op} (hop : op ∈ replaceOps path content) :
    Op.neutral op = true := by
  simp only [replaceOps, List.mem_cons, List.not_mem_nil, or_false] at hop
  rcases hop with rfl | rfl <;> rfl

theorem serviceOps_neutral {on : Bool} {op : Op}
    (hop : op ∈ nfsServiceOps on ∨ op ∈ smbServiceOps on) : Op.neutral op = true := by
  cases on <;>
    simp only [nfsServiceOps, smbServiceOps, if_true, if_false, Bool.false_eq_true, List.mem_cons,
      List.not_mem_nil, or_false] at hop <;>
    rcases hop with (rfl | rfl) | rfl | rfl | rfl <;> rfl

/-- The folders are opened, and nothing else is done to a directory. -/
theorem opened_script {ss : List Share} {ops : List Op} (hn : ∀ op ∈ ops, Op.neutral op = true)
    (hops : performs M.os (ss.flatMap folderOps ++ ops) h = some h') : OpenedBy M ss h h' := by
  obtain ⟨h₁, hfolders, hrest⟩ := performs_append.mp hops
  have hboth := (folders_mode hfolders).append (.nil (neutrals_mode hn hrest))
  rwa [List.append_nil] at hboth

theorem regenerate_mode (hops : performs M.os (regenerateOps U t) h = some h') :
    OpenedBy M (Target.shares .exports t ++ Target.shares .samba t) h h' := by
  obtain ⟨h₁, hnfs, hsmb⟩ := performs_append.mp hops
  refine .append (opened_script (fun op hop => ?_) hnfs) (opened_script (fun op hop => ?_) hsmb)
  · rcases List.mem_append.mp hop with hop | hop
    · exact replaceOps_neutral hop
    · exact serviceOps_neutral (.inl hop)
  · rcases List.mem_append.mp hop with hop | hop
    · exact replaceOps_neutral hop
    · exact serviceOps_neutral (.inr hop)

/-! ## Granting access -/

theorem openAncestors_mode {d : δ} (p : Str) (hd : d ≠ M.dir p ∧ ∀ a, Above p a → d ≠ M.dir a)
    (h : Host σ) : M.mode (openAncestors M.os p h).env d = M.mode h.env d := by
  induction p, h using openAncestors.induct (O := M.os) with
  | case1 p h hend => rw [openAncestors, if_pos hend]
  | case2 p h hgo ih =>
    rw [openAncestors, if_neg hgo, ih ⟨hd.2 _ .parent, fun a ha => hd.2 a ha.up⟩]
    exact M.traverse_keeps hd.1

theorem GrantShareAccess_mode {path : Str} {d : δ} (hd : ¬ M.cone path d) (h : Host σ) :
    M.mode (GrantShareAccess M.os path h).2.env d = M.mode h.env d := by
  simp only [ModeSystem.cone, not_or, not_exists, not_and] at hd
  obtain ⟨hpath, hbelow, habove⟩ := hd
  have hancestors := openAncestors_mode (M := M) (d := d) (Filepath.Dir path)
    ⟨habove _ .parent, fun a ha => habove a ha.up⟩ h
  have hreadable : M.mode (((openAncestors M.os (Filepath.Dir path) h).run M.os.run
      (readable path)).2).env d = M.mode h.env d :=
    (M.readable_keeps hpath hbelow).trans hancestors
  unfold GrantShareAccess
  split
  · rfl
  · dsimp only
    split <;> exact hreadable

theorem grant_mode {st : Stmt} {d : δ} (hd : ¬ M.cone (st.path t) d) (h : Host σ) :
    M.mode (st.grant M.os h).env d = M.mode h.env d := by
  cases st with
  | insert s => exact GrantShareAccess_mode hd h
  | update id s => exact GrantShareAccess_mode hd h
  | delete id => rfl

/-! ## Requests -/

variable {q : Request} {b : Backend σ} {st : Stmt}

theorem succeeds_mode (hs : Succeeds U M q b st t) :
    ∃ h', OpenedBy M (Target.shares .exports t ++ Target.shares .samba t) b.host h' ∧
      (handle U M.os q b).2.host = st.grant M.os h' := by
  obtain ⟨hcheck, hexec, hok⟩ := hs
  cases happly : reapply U M.os t b.host with
  | mk r h' =>
    cases r with
    | error e =>
      rw [handle_failed hcheck hexec happly] at hok
      exact absurd (applyFailed_failed e) hok
    | ok u =>
      refine ⟨h', regenerate_mode (reapply_ok_iff.mp happly).2, ?_⟩
      rw [handle_done hcheck hexec happly]

/-- A request that succeeds leaves the directories outside the cone of its share as they are if and
only if every other share that is on has a folder that everyone may use already. -/
theorem request_keeps_modes_iff (U : PrintTable) (M : ModeSystem σ δ) (q : Request)
    (b : Backend σ) :
    (∀ st t, Succeeds U M q b st t →
      Framed M (st.path b.table) b.host (handle U M.os q b).2.host) ↔
    ∀ st t, Succeeds U M q b st t → ∀ f, ∀ s ∈ Target.shares f t,
      ¬ M.cone (st.path b.table) (M.dir s.path) → M.takes (M.dir s.path) →
        ∀ m, M.mode b.host.env (M.dir s.path) = some m → m = 0o777 := by
  refine forall₂_congr fun st t => forall_congr' fun hs => ?_
  obtain ⟨h', hopened, hend⟩ := succeeds_mode hs
  have hopens : ∀ d, Opens M (Target.shares .exports t ++ Target.shares .samba t) d ↔
      ∃ f, ∃ s ∈ Target.shares f t, M.dir s.path = d ∧ M.takes d := by
    intro d
    constructor
    · rintro ⟨s, hmem, hd⟩
      rcases List.mem_append.mp hmem with hmem | hmem
      · exact ⟨.exports, s, hmem, hd⟩
      · exact ⟨.samba, s, hmem, hd⟩
    · rintro ⟨f, s, hmem, hd⟩
      cases f with
      | exports => exact ⟨s, List.mem_append_left _ hmem, hd⟩
      | samba => exact ⟨s, List.mem_append_right _ hmem, hd⟩
  constructor
  · intro hframed f s hmem hcone htakes m hm
    obtain ⟨m', hm', hopen, -⟩ := hopened _ m hm
    have hkept := hframed _ m hcone hm
    rw [hend, grant_mode hcone, hm', hopen ((hopens _).mpr ⟨f, s, hmem, rfl, htakes⟩)] at hkept
    exact (Option.some.inj hkept).symm
  · intro hall d m hcone hm
    obtain ⟨m', hm', hopen, hkeep⟩ := hopened d m hm
    rw [hend, grant_mode hcone, hm']
    by_cases hd : Opens M (Target.shares .exports t ++ Target.shares .samba t) d
    · obtain ⟨f, s, hmem, rfl, htakes⟩ := (hopens d).mp hd
      rw [hopen hd, hall f s hmem hcone htakes m hm]
    · rw [hkeep hd]

/-- Directories by their paths, on a file system that keeps every mode. -/
def modesRun : Runner (Str → Option Nat) := fun c env =>
  let done := fun env => ((⟨[], [], none⟩ : Result), env)
  if c.name = "mkdir" then
    match c.args with
    | [_, p] => done fun d => if d = p then (env d).or (some 0o755) else env d
    | _ => done env
  else if c.name = "chmod" then
    match c.args with
    | [bits, p] =>
      done fun d => if d = p then (env d).map fun m => if bits = "0777" then 0o777 else m ||| 1
        else env d
    | [_, _, p] =>
      done fun d => if d = p ∨ p ++ ['/'] <+: d then (env d).map (· ||| 5) else env d
    | _ => done env
  else done env

def modesByPath : ModeSystem (Str → Option Nat) Str where
  os := ⟨modesRun, fun _ _ env => (none, env), fun _ _ env => (none, env)⟩
  dir := id
  below path d := path ++ ['/'] <+: d
  takes _ := True
  mode := id
  write_keeps _ _ _ := rfl
  rename_keeps _ _ _ := rfl
  others c env hmkdir hchmod := by
    simp only [modesRun, hmkdir, hchmod, if_false]
  mkdir_keeps {path env d m} hm := by
    have hm' : env d = some m := hm
    change (if d = path then (env d).or (some 0o755) else env d) = some m
    rw [hm']
    split <;> rfl
  chmod_opens {path env m} _ hm := by
    have hm' : env path = some m := hm
    change (if path = path then (env path).map fun m => if ("0777" : Str) = "0777" then 0o777 else
      m ||| 1 else env path) = some 0o777
    rw [if_pos rfl, hm']
    rfl
  chmod_keeps {path env d} hd := by
    exact if_neg fun h => hd h trivial
  traverse_keeps {path env d} hd := by
    exact if_neg hd
  readable_keeps {path env d} hd hbelow := by
    exact if_neg fun h => h.elim hd hbelow

/-- The folder of the downloads, closed to others, and a table that shares it. -/
def downloads : Share where
  name := "downloads"
  path := "/srv/downloads"
  protocol := SMB
  readOnly := false
  allowedIPs := []
  validUsers := ["anna"]
  enabled := true
  config := none

def closed : Backend (Str → Option Nat) where
  table := (Table.empty.insert ⟨downloads, rfl⟩).after .empty
  host := .start (fun d => if d = "/srv/downloads" then some 0o770 else none) fun _ => none

def docs : Share := { downloads with name := "docs", path := "/srv/docs" }

/-- Sharing another folder opens the one of the downloads to everyone. -/
theorem other_share_opened :
    ¬ ∀ st t, Succeeds .asciiOnly modesByPath (.create (some docs)) closed st t →
      Framed modesByPath (st.path closed.table) closed.host
        (handle .asciiOnly modesByPath.os (.create (some docs)) closed).2.host := by
  intro hframed
  have hsucceeds : Succeeds .asciiOnly modesByPath (.create (some docs)) closed
      (.insert ⟨docs, rfl⟩) ((closed.table.insert ⟨docs, rfl⟩).after closed.table) :=
    ⟨rfl, rfl, by decide +kernel⟩
  have habove : ∀ a, Above docs.path a → a = "/srv" ∨ a = "/" := by
    intro a ha
    induction ha with
    | parent => exact .inl (by decide +kernel)
    | further _ ih =>
      rcases ih with rfl | rfl
      · exact .inr (by decide +kernel)
      · exact .inr (by decide +kernel)
  have hcone : ¬ modesByPath.cone docs.path "/srv/downloads" := by
    rintro (hd | hd | ⟨a, ha, hd⟩)
    · revert hd
      decide
    · revert hd
      change ¬ docs.path ++ ['/'] <+: "/srv/downloads"
      decide
    · rcases habove a ha with rfl | rfl
      · revert hd
        decide
      · revert hd
        decide
  have hkept := hframed _ _ hsucceeds "/srv/downloads" 0o770 hcone rfl
  revert hkept
  decide +kernel

end Shares
end Nasd
