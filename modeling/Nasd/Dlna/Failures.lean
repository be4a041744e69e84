import Nasd.Dlna.Manager
import Nasd.Shares.Accepted
import Nasd.Shares.Handlers

/-!
# Nasd.Dlna.Failures

What a request that fails leaves in its table, for the shares and for the media directories. Both
store the row first and regenerate the configuration from the table then, so a failure in between
keeps the row.

* `Shares.error_keeps_iff`, `error_keeps_iff` — the two tables, one request each.
* `error_keeps_rows_iff`                      — both.
-/

namespace Nasd

open Text Go Sys

variable {σ : Type} {O : OS σ}

namespace Shares

variable {U : PrintTable} {q : Request} {b : Backend σ}

/-- Neither generator refuses a share, and every operation of the regeneration succeeds. -/
def Regenerates (U : PrintTable) (O : OS σ) (t : Table) (h : Host σ) : Prop :=
  Taken t ∧ ∃ h', performs O (regenerateOps U t) h = some h'

theorem regenerates_iff {t : Table} {h : Host σ} :
    Regenerates U O t h ↔ ∃ h', reapply U O t h = (.ok (), h') := by
  simp only [reapply_ok_iff, exists_and_left, Regenerates]

/-- What is asked of every outcome is asked of the one there is. -/
theorem forall_outcome_iff {α β γ ε : Type} {x : α} {y : β} {f : α → γ} {mk : β → γ}
    (hmk : mk.Injective) (hy : f x = mk y) {P : β → Prop} :
    (∀ x' y', (.ok x : Except ε α) = .ok x' → f x' = mk y' → P y') ↔ P y := by
  constructor
  · intro h
    exact h x y rfl hy
  · intro h x' y' hx hy'
    cases hx
    rw [hmk (hy'.symm.trans hy)]
    exact h

theorem error_keeps_iff :
    ((handle U O q b).1.failed → (handle U O q b).2.table.rows = b.table.rows) ↔
      ∀ st t, check q = .ok st → st.exec b.table = .changed t →
        t.rows = b.table.rows ∨ Regenerates U O t b.host := by
  cases hcheck : check q with
  | error r => simp [handle_refused hcheck]
  | ok st =>
    by_cases hexec : ∃ t, st.exec b.table = .changed t
    · obtain ⟨t, hexec⟩ := hexec
      have hmk : Function.Injective Table.Outcome.changed := fun _ _ => Table.Outcome.changed.inj
      rw [forall_outcome_iff (f := fun st' : Stmt => st'.exec b.table) hmk hexec, regenerates_iff]
      cases happly : reapply U O t b.host with
      | mk r h =>
        cases r with
        | error e => simp [handle_failed hcheck hexec happly, applyFailed_failed]
        | ok u => simp [handle_done hcheck hexec happly, reply_not_failed]
    · push Not at hexec
      obtain ⟨r, -, heq⟩ := handle_unchanged (U := U) (O := O) hcheck hexec
      rw [heq]
      refine ⟨fun _ st' t hst ht => ?_, fun _ _ => rfl⟩
      cases hst
      exact absurd ht (hexec t)

end Shares

namespace Dlna

variable {q : Request} {b : Backend σ}

/-- No path is refused, and the file is written and the server restarted. -/
def Regenerates (O : OS σ) (name : Str) (t : MediaDirs) (h : Host σ) : Prop :=
  ∃ text, confText name (loadDirs t) = .ok text ∧ ∃ h', performs O (configureOps text) h = some h'

theorem regenerates_iff {name : Str} {t : MediaDirs} {h : Host σ} :
    Regenerates O name t h ↔ ∃ h', Configure O name (loadDirs t) h = (.ok (), h') := by
  simp only [Configure_ok_iff, Regenerates]
  constructor
  · rintro ⟨text, htext, h', hops⟩
    exact ⟨h', text, htext, hops⟩
  · rintro ⟨h', text, htext, hops⟩
    exact ⟨text, htext, h', hops⟩

/-- A statement that succeeds changes the rows. -/
theorem exec_rows {st : Stmt} {t t' : MediaDirs} (hexec : st.exec t = .ok t') : t'.rows ≠ t.rows := by
  cases st with
  | insert d =>
    simp only [Stmt.exec] at hexec
    split at hexec
    · cases hexec
    · cases hexec
      simp
  | delete path =>
    simp only [Stmt.exec] at hexec
    split at hexec
    · cases hexec
    · rename_i hmem
      cases hexec
      intro hsame
      obtain ⟨d, hd, hpath⟩ := List.mem_map.mp (not_not.mp hmem)
      have hkept := List.filter_eq_self.mp hsame d hd
      simp [hpath] at hkept

theorem check_failed {r : Reply} (hcheck : check q = .error r) : r.failed := by
  unfold check at hcheck
  split at hcheck
  · cases hcheck; simp [Reply.failed]
  · split at hcheck
    · cases hcheck; simp [Reply.failed]
    · split at hcheck
      · cases hcheck
      · cases hcheck; simp [Reply.failed]
  · cases hcheck

theorem error_keeps_iff :
    ((handle O q b).1.failed → (handle O q b).2.dirs.rows = b.dirs.rows) ↔
      ∀ st t, check q = .ok st → st.exec b.dirs = .ok t → Regenerates O b.name t b.host := by
  cases hcheck : check q with
  | error r =>
    have hrefused : handle O q b = (r, b) := by simp only [handle, hcheck]
    simp [hrefused]
  | ok st =>
    cases hexec : st.exec b.dirs with
    | error r =>
      have hunchanged : handle O q b = (r, b) := by simp only [handle, hcheck, hexec]
      rw [hunchanged]
      refine ⟨fun _ st' t hst ht => ?_, fun _ _ => rfl⟩
      cases hst
      rw [hexec] at ht
      cases ht
    | ok t =>
      have hrows := exec_rows hexec
      have hmk : Function.Injective (Except.ok : MediaDirs → Except Reply MediaDirs) :=
        fun _ _ => Except.ok.inj
      rw [Shares.forall_outcome_iff (f := fun st' : Stmt => st'.exec b.dirs) hmk hexec, regenerates_iff]
      cases hconf : Configure O b.name (loadDirs t) b.host with
      | mk r h =>
        cases r with
        | error e =>
          have hfailed : handle O q b = (applyFailed e, { b with dirs := t, host := h }) := by
            simp only [handle, hcheck, hexec, hconf]
          simp [hfailed, applyFailed, Reply.failed, hrows]
        | ok u =>
          have hdone : handle O q b = (st.reply, { b with dirs := t, host := h }) := by
            simp only [handle, hcheck, hexec, hconf]
          have hok : ¬ st.reply.failed := by cases st <;> simp [Stmt.reply, Reply.failed]
          simp [hdone, hok]

end Dlna

/-- A request that fails leaves the rows as they were exactly when its checks or its statement refuse
it, it writes back what the row already holds, or the regeneration for the new rows succeeds. -/
theorem error_keeps_rows_iff (U : PrintTable) (O : OS σ) (q : Shares.Request) (b : Shares.Backend σ)
    (q' : Dlna.Request) (b' : Dlna.Backend σ) :
    (((Shares.handle U O q b).1.failed →
        (Shares.handle U O q b).2.table.rows = b.table.rows) ↔
      ∀ st t, Shares.check q = .ok st → st.exec b.table = .changed t →
        t.rows = b.table.rows ∨ Shares.Regenerates U O t b.host) ∧
    (((Dlna.handle O q' b').1.failed → (Dlna.handle O q' b').2.dirs.rows = b'.dirs.rows) ↔
      ∀ st t, Dlna.check q' = .ok st → st.exec b'.dirs = .ok t →
        Dlna.Regenerates O b'.name t b'.host) :=
  ⟨Shares.error_keeps_iff, Dlna.error_keeps_iff⟩

/-- The system on which one program cannot be run. -/
def lacking (program : Str) : OS Unit :=
  { OS.faultless with
    run := fun c env => (⟨[], [], if c.name = program then some "not found" else none⟩, env) }

/-- A share and a media directory that were answered with an error, and are stored. -/
theorem error_stores_rows :
    (Shares.handle .asciiOnly .faultless (.create (some (Shares.toHost "10.0.0.7 10.0.0.8")))
      ⟨.empty, .start () fun _ => none⟩).1.code = 500 ∧
    ((Shares.handle .asciiOnly .faultless (.create (some (Shares.toHost "10.0.0.7 10.0.0.8")))
      ⟨.empty, .start () fun _ => none⟩).2.table.rows.map (·.name)) = [("a" : Str)] ∧
    (Dlna.handle (lacking "systemctl") (.addDir (some ⟨"/m", "V"⟩))
      ⟨.empty, "NAS", .start () fun _ => none⟩).1.code = 500 ∧
    (Dlna.handle (lacking "systemctl") (.addDir (some ⟨"/m", "V"⟩))
      ⟨.empty, "NAS", .start () fun _ => none⟩).2.dirs.rows = [⟨"/m", "V"⟩] := by
  decide

end Nasd
