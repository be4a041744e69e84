import Nasd.Shares.Regenerate
import Nasd.Shares.Requests

/-!
# Nasd.Shares.Handlers

The handlers of the shares (`internal/api/handlers.go`) served one after the other, on a system where
any command and any file write may fail.

* `reapply_ok_iff` — regenerating both files as one script.
* `success_renders` — after a success the files are the rendering of the table alone.
-/

namespace Nasd
namespace Shares

open Text Go Sys Machine

variable {σ : Type} {U : PrintTable} {O : OS σ}

/-- The table, and the machine that the daemon runs on. -/
structure Backend (σ : Type) where
  table : Table
  host : Host σ

def reapply (U : PrintTable) (O : OS σ) (t : Table) (h : Host σ) : Except Str Unit × Host σ :=
  match ApplyNFS U O (loadShares t) h with
  | (.error e, h) => (.error e, h)
  | (.ok (), h) => ApplySMB O (loadShares t) h

/-- The path that `create` and `update` open to the clients of the share; their error is ignored. -/
def Stmt.grant (O : OS σ) : Stmt → Host σ → Host σ
  | .insert s, h => (GrantShareAccess O s.share.path h).2
  | .update _ s, h => (GrantShareAccess O s.share.path h).2
  | .delete _, h => h

/-- `create`, `update` and `delete`. -/
def handle (U : PrintTable) (O : OS σ) (q : Request) (b : Backend σ) : Reply × Backend σ :=
  match check q with
  | .error r => (r, b)
  | .ok st =>
    match st.exec b.table with
    | .duplicate => (st.conflict, b)
    | .missing => (⟨404, "not_found"⟩, b)
    | .changed t =>
      match reapply U O t b.host with
      | (.error e, h) => (applyFailed e, ⟨t, h⟩)
      | (.ok (), h) => (st.reply, ⟨t, st.grant O h⟩)

def Reply.failed (r : Reply) : Prop := 400 ≤ r.code

instance (r : Reply) : Decidable r.failed := inferInstanceAs (Decidable (_ ≤ _))

/-! ## Replies -/

theorem check_failed {q : Request} {r : Reply} (hcheck : check q = .error r) : r.failed := by
  have h400 : ∀ text : Str, Reply.failed ⟨400, text⟩ := fun text => Nat.le_refl 400
  have h422 : ∀ text : Str, Reply.failed ⟨422, text⟩ := fun text => by simp [Reply.failed]
  have h428 : ∀ text : Str, Reply.failed ⟨428, text⟩ := fun text => by simp [Reply.failed]
  unfold check at hcheck
  split at hcheck
  · cases hcheck; exact h400 _
  · split at hcheck
    · cases hcheck; exact h422 _
    · cases hcheck
  · cases hcheck; exact h400 _
  · cases hcheck; exact h400 _
  · split at hcheck
    · cases hcheck; exact h422 _
    · split at hcheck
      · cases hcheck; exact h428 _
      · cases hcheck
  · cases hcheck; exact h400 _
  · split at hcheck
    · cases hcheck
    · cases hcheck; exact h428 _

theorem conflict_failed (st : Stmt) : st.conflict.failed := by
  cases st <;> simp [Stmt.conflict, Reply.failed]

theorem reply_not_failed (st : Stmt) : ¬ st.reply.failed := by
  cases st <;> simp [Stmt.reply, Reply.failed]

variable {q : Request} {b : Backend σ} {st : Stmt} {t : Table} {h h' : Host σ}

theorem handle_refused {r : Reply} (hcheck : check q = .error r) : handle U O q b = (r, b) := by
  simp only [handle, hcheck]

/-- A statement that changes nothing fails the request. -/
theorem handle_unchanged (hcheck : check q = .ok st) (hexec : ∀ t, st.exec b.table ≠ .changed t) :
    ∃ r, r.failed ∧ handle U O q b = (r, b) := by
  cases hout : st.exec b.table with
  | duplicate => exact ⟨_, conflict_failed st, by simp only [handle, hcheck, hout]⟩
  | missing => exact ⟨⟨404, "not_found"⟩, by simp [Reply.failed], by simp only [handle, hcheck, hout]⟩
  | changed t => exact absurd hout (hexec t)

theorem handle_failed {e : Str} (hcheck : check q = .ok st) (hexec : st.exec b.table = .changed t)
    (happly : reapply U O t b.host = (.error e, h)) :
    handle U O q b = (applyFailed e, ⟨t, h⟩) := by
  simp only [handle, hcheck, hexec, happly]

theorem handle_done (hcheck : check q = .ok st) (hexec : st.exec b.table = .changed t)
    (happly : reapply U O t b.host = (.ok (), h)) :
    handle U O q b = (st.reply, ⟨t, st.grant O h⟩) := by
  simp only [handle, hcheck, hexec, happly]

theorem applyFailed_failed (e : Str) : (applyFailed e).failed := by simp [applyFailed, Reply.failed]

/-- A request that succeeded has changed the table and regenerated both files from it. -/
theorem succeeded (hok : ¬ (handle U O q b).1.failed) :
    ∃ (st : Stmt) (t : Table) (h : Host σ), reapply U O t b.host = (.ok (), h) ∧
      handle U O q b = (st.reply, ⟨t, st.grant O h⟩) := by
  cases hcheck : check q with
  | error r =>
    rw [handle_refused hcheck] at hok
    exact absurd (check_failed hcheck) hok
  | ok st =>
    by_cases hexec : ∃ t, st.exec b.table = .changed t
    · obtain ⟨t, hexec⟩ := hexec
      cases happly : reapply U O t b.host with
      | mk r h =>
        cases r with
        | error e =>
          rw [handle_failed hcheck hexec happly] at hok
          exact absurd (applyFailed_failed e) hok
        | ok u => exact ⟨st, t, h, happly, handle_done hcheck hexec happly⟩
    · push Not at hexec
      obtain ⟨r, hr, heq⟩ := handle_unchanged (U := U) (O := O) hcheck hexec
      rw [heq] at hok
      exact absurd hr hok

/-- The backend after some requests. -/
def serve (U : PrintTable) (O : OS σ) (b : Backend σ) (qs : List Request) : Backend σ :=
  run (fun b q => (handle U O q b).2) b qs

/-! ## The script of a regeneration -/

def Target.on : Target → Share → Bool
  | .exports => Share.isExport
  | .samba => Share.isSMB

def Target.units : Target → List Str
  | .exports => nfsUnits
  | .samba => smbUnits

/-- The shares of a table that a file lists. -/
def Target.shares (f : Target) (t : Table) : List Share := (loadShares t).filter f.on

/-- Neither generator refuses a share. -/
structure Taken (t : Table) : Prop where
  exports : ∀ s ∈ Target.shares .exports t, s.Exportable
  sections : ∀ s ∈ Target.shares .samba t, ValidShareName s.name = true

def regenerateOps (U : PrintTable) (t : Table) : List Op :=
  nfsOps U (Target.shares .exports t) ++ smbOps (Target.shares .samba t)

theorem reapply_ok_iff : reapply U O t h = (.ok (), h') ↔
    Taken t ∧ performs O (regenerateOps U t) h = some h' := by
  rw [regenerateOps, performs_append, reapply]
  cases hnfs : ApplyNFS U O (loadShares t) h with
  | mk r h₁ =>
    cases r with
    | error e =>
      refine ⟨nofun, ?_⟩
      rintro ⟨⟨hexports, -⟩, h₂, hops, -⟩
      rw [ApplyNFS_ok_iff.mpr ⟨hexports, hops⟩] at hnfs
      cases hnfs
    | ok u =>
      obtain ⟨hexports, hops⟩ := ApplyNFS_ok_iff.mp hnfs
      have hops' : performs O (nfsOps U (Target.shares .exports t)) h = some h₁ := hops
      simp only [hops', Option.some.injEq, exists_eq_left', ApplySMB_ok_iff]
      constructor
      · rintro ⟨hsections, hrest⟩
        exact ⟨⟨hexports, hsections⟩, hrest⟩
      · rintro ⟨htaken, hrest⟩
        exact ⟨htaken.sections, hrest⟩

/-- What the file says about these shares. -/
def Target.render (U : PrintTable) : Target → List Share → Str
  | .exports, ss => exportsHeader ++ ss.flatMap fun s => s.exportText U ++ ['\n']
  | .samba, ss => smbHeader ++ ss.flatMap sectionText

theorem Taken.text (ht : Taken t) (f : Target) :
    f.text U (f.shares t) = .ok (f.render U (f.shares t)) := by
  cases f with
  | exports => exact exportsText_filter.mpr (exportsText_ok_iff.mpr ⟨ht.exports, rfl⟩)
  | samba => exact smbText_filter.mpr (smbText_ok_iff.mpr ⟨ht.sections, rfl⟩)

/-- Nothing writes a file once it is replaced. -/
theorem regenerateOps_file (f : Target) : ∃ ops ops',
    regenerateOps U t = ops ++ (replaceOps f.path (f.render U (f.shares t)) ++ ops') ∧
      ∀ op ∈ ops', f.path ∉ op.writes := by
  have hservice : ∀ {on : Bool} {op : Op}, op ∈ nfsServiceOps on ∨ op ∈ smbServiceOps on →
      f.path ∉ op.writes := by
    intro on op hop
    rw [serviceOps_writes hop]
    exact List.not_mem_nil
  cases f with
  | exports =>
    refine ⟨_, nfsServiceOps (Target.shares .exports t ≠ []) ++ smbOps (Target.shares .samba t),
      by simp only [regenerateOps, nfsOps, List.append_assoc]; rfl, ?_⟩
    intro op hop
    rw [smbOps, List.mem_append, List.mem_append, List.mem_append] at hop
    rcases hop with hop | hop | hop | hop
    · exact hservice (.inl hop)
    · rw [folderOps_writes hop]; exact List.not_mem_nil
    · simp only [replaceOps, List.mem_cons, List.not_mem_nil, or_false] at hop
      have htmp : exportsPath ∉ [tmpOf includePath] := by decide
      have hpath : exportsPath ∉ [tmpOf includePath, includePath] := by decide
      rcases hop with rfl | rfl
      · exact htmp
      · exact hpath
    · exact hservice (.inr hop)
  | samba =>
    refine ⟨nfsOps U (Target.shares .exports t) ++ (Target.shares .samba t).flatMap folderOps, _,
      by simp only [regenerateOps, smbOps, List.append_assoc]; rfl, ?_⟩
    intro op hop
    exact hservice (.inr hop)

/-- After the script the file holds the rendering. -/
theorem regenerateOps_files (f : Target) (hops : performs O (regenerateOps U t) h = some h') :
    h'.files f.path = some (f.render U (f.shares t)) := by
  obtain ⟨ops, ops', heq, hlater⟩ := regenerateOps_file (U := U) (t := t) f
  rw [heq, performs_append] at hops
  obtain ⟨h₁, -, hrest⟩ := hops
  obtain ⟨h₂, hreplace, hlast⟩ := performs_append.mp hrest
  rw [performs_files hlater hlast]
  exact performs_replace hreplace

theorem cmd_of_folderOps {ss : List Share} {c : Cmd}
    (hc : c ∈ (ss.flatMap folderOps).filterMap Op.cmd) : c.name ≠ "systemctl" := by
  obtain ⟨op, hop, hcmd⟩ := List.mem_filterMap.mp hc
  obtain ⟨s, -, hop⟩ := List.mem_flatMap.mp hop
  simp only [folderOps, List.mem_cons, List.not_mem_nil, or_false] at hop
  rcases hop with rfl | rfl
  · cases hcmd; exact (by decide : ("mkdir" : Str) ≠ "systemctl")
  · cases hcmd; exact (by decide : ("chmod" : Str) ≠ "systemctl")

/-- Nothing stops a service once it is started. -/
theorem regenerateOps_started (f : Target) (hne : f.shares t ≠ []) : ∃ ops ops',
    regenerateOps U t = ops ++ .must (enableNow f.units) :: ops' ∧
      disableNow f.units ∉ ops'.filterMap Op.cmd := by
  cases f with
  | exports =>
    refine ⟨(Target.shares .exports t).flatMap folderOps ++ replaceOps exportsPath
      (Target.render U .exports (Target.shares .exports t)), .must exportfs :: smbOps (Target.shares .samba t), ?_, ?_⟩
    · simp only [regenerateOps, nfsOps, nfsServiceOps, hne, ne_eq, not_false_eq_true, decide_true,
        if_true, List.append_assoc, List.cons_append, List.nil_append]
      rfl
    · intro hc
      simp only [smbOps, List.filterMap_cons, List.filterMap_append, Op.cmd, List.mem_cons,
        List.mem_append] at hc
      rcases hc with hc | hc | hc | hc
      · exact absurd hc (by decide)
      · exact cmd_of_folderOps hc rfl
      · cases hc
      · cases hon : decide (Target.shares .samba t ≠ []) <;> rw [hon] at hc <;>
          exact absurd hc (by decide)
  | samba =>
    refine ⟨nfsOps U (Target.shares .exports t) ++ ((Target.shares .samba t).flatMap folderOps ++
      (replaceOps includePath (Target.render U .samba (Target.shares .samba t)) ++
        [.must testparm])), [.may reloadConfig], ?_, by decide⟩
    simp only [regenerateOps, smbOps, smbServiceOps, hne, ne_eq, not_false_eq_true, decide_true,
      if_true, List.append_assoc, List.cons_append, List.nil_append]
    rfl

end Shares
end Nasd
