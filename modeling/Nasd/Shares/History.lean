import Nasd.Shares.Accepted
import Nasd.Shares.Handlers

/-!
# Nasd.Shares.History

Both files after a request that succeeded, whatever earlier requests left half done: they are the
rendering of the rows that are on, which the table alone determines.

* `InNameOrder.unique`, `inNameOrder_loaded` — the rows that are on, by name.
* `success_renders`                          — every success of every run.
-/

namespace Nasd
namespace Shares

open Text Go Sys Machine

variable {σ : Type} {U : PrintTable} {O : OS σ} {t : Table} {h h' : Host σ}

/-! ## Rows by name -/

/-- The rows of a table that a file lists, by name. -/
structure InNameOrder (f : Target) (t : Table) (rows : List Row) : Prop where
  mem : ∀ r, r ∈ rows ↔ r ∈ t.rows ∧ f.on r.share = true
  sorted : rows.Pairwise fun r q => r.name < q.name

theorem InNameOrder.unique {f : Target} {rows rows' : List Row} (h : InNameOrder f t rows)
    (h' : InNameOrder f t rows') : rows = rows' := by
  have hirrefl : Std.Irrefl fun r q : Row => r.name < q.name := ⟨fun r => lt_irrefl r.name⟩
  have hantisymm : Std.Antisymm fun r q : Row => r.name < q.name :=
    ⟨fun r q hrq hqr => absurd hqr (lt_asymm hrq)⟩
  refine List.Pairwise.eq_of_mem_iff h.sorted h'.sorted fun r => ?_
  rw [h.mem, h'.mem]

def Target.protocol : Target → Protocol
  | .exports => NFS
  | .samba => SMB

theorem protocol_of_on {f : Target} {s : Share} (hon : f.on s = true) : s.protocol = f.protocol := by
  cases f <;>
    simp only [Target.on, Share.isExport, Share.isSMB, Bool.and_eq_true, decide_eq_true_eq] at hon <;>
    exact hon.1

theorem inNameOrder_loaded (f : Target) (t : Table) :
    ∃ rows, InNameOrder f t rows ∧ rows.map Row.share = f.shares t := by
  let byName : Row → Row → Prop := fun r q => r.name ≤ q.name
  have htotal : Std.Total byName := ⟨fun r q => le_total r.name q.name⟩
  have htrans : IsTrans Row byName := ⟨fun r q p => le_trans⟩
  let rows := (t.rows.insertionSort byName).filter fun r => f.on r.share
  have hmem : ∀ r, r ∈ rows ↔ r ∈ t.rows ∧ f.on r.share = true := by
    intro r
    rw [List.mem_filter, List.mem_insertionSort]
  have hkeys : (rows.map Row.key).Nodup := by
    refine List.Nodup.sublist (List.filter_sublist.map _) ?_
    exact ((List.perm_insertionSort byName t.rows).map Row.key).nodup_iff.mpr t.keys
  have hsorted : rows.Pairwise byName := (List.pairwise_insertionSort byName t.rows).filter _
  refine ⟨rows, ⟨hmem, ?_⟩, ?_⟩
  · have hdistinct : rows.Pairwise fun r q => r.key ≠ q.key := List.pairwise_map.mp hkeys
    refine List.Pairwise.imp_of_mem ?_ (hsorted.and hdistinct)
    rintro r q hr hq ⟨hle, hne⟩
    refine lt_of_le_of_ne hle fun hname => hne ?_
    have hr' : r.protocol = f.protocol := protocol_of_on ((hmem r).mp hr).2
    have hq' : q.protocol = f.protocol := protocol_of_on ((hmem q).mp hq).2
    rw [Row.key, Row.key, hname, hr', hq']
  · rw [Target.shares, loadShares, loadAll, List.map_map, List.filter_map]
    rfl

/-! ## After the regeneration -/

/-- Only permissions were changed. -/
def OnlyChmod (h h' : Host σ) : Prop :=
  h'.files = h.files ∧ ∃ log, h'.log = h.log ++ log ∧ ∀ e ∈ log, e.1.name = "chmod"

theorem OnlyChmod.refl (h : Host σ) : OnlyChmod h h := ⟨rfl, [], by simp, nofun⟩

theorem OnlyChmod.run {c : Cmd} (hc : c.name = "chmod") (h : Host σ) :
    OnlyChmod h (h.run O.run c).2 := by
  refine ⟨rfl, [(c, _)], rfl, fun e he => ?_⟩
  rw [List.mem_singleton.mp he]
  exact hc

theorem OnlyChmod.trans {h₁ h₂ h₃ : Host σ} (h₁₂ : OnlyChmod h₁ h₂) (h₂₃ : OnlyChmod h₂ h₃) :
    OnlyChmod h₁ h₃ := by
  obtain ⟨hfiles, log, hlog, hall⟩ := h₁₂
  obtain ⟨hfiles', log', hlog', hall'⟩ := h₂₃
  refine ⟨hfiles'.trans hfiles, log ++ log', by rw [hlog', hlog, List.append_assoc], fun e he => ?_⟩
  rcases List.mem_append.mp he with he | he
  · exact hall e he
  · exact hall' e he

theorem openAncestors_onlyChmod (p : Str) (h : Host σ) : OnlyChmod h (openAncestors O p h) := by
  induction p, h using openAncestors.induct (O := O) with
  | case1 p h hend =>
    rw [openAncestors, if_pos hend]
    exact .refl h
  | case2 p h hgo ih =>
    rw [openAncestors, if_neg hgo]
    exact .trans (.run rfl h) ih

theorem grant_onlyChmod (st : Stmt) (h : Host σ) : OnlyChmod h (st.grant O h) := by
  have hgrant : ∀ path : Str, OnlyChmod h (GrantShareAccess O path h).2 := by
    intro path
    unfold GrantShareAccess
    split
    · exact .refl h
    · dsimp only
      split <;> exact .trans (openAncestors_onlyChmod _ h) (.run rfl _)
  cases st with
  | insert s => exact hgrant s.share.path
  | update id s => exact hgrant s.share.path
  | delete id => exact .refl h

/-- The service was enabled between the two hosts, and not disabled since. -/
def Started (f : Target) (h h' : Host σ) : Prop :=
  ∃ before r after, h'.log = h.log ++ before ++ (enableNow f.units, r) :: after ∧ r.err = none ∧
    disableNow f.units ∉ after.map (·.1)

theorem regenerateOps_log {f : Target} (hne : f.shares t ≠ [])
    (hops : performs O (regenerateOps U t) h = some h') : Started f h h' := by
  obtain ⟨ops, ops', heq, hnot⟩ := regenerateOps_started (U := U) f hne
  rw [heq] at hops
  obtain ⟨before, r, after, hlog, hok, hcmds⟩ := performs_must hops
  exact ⟨before, r, after, hlog, hok, hcmds ▸ hnot⟩

theorem Started.onlyChmod {f : Target} {h₁ h₂ h₃ : Host σ} (hstart : Started f h₁ h₂)
    (hchmod : OnlyChmod h₂ h₃) : Started f h₁ h₃ := by
  obtain ⟨before, r, after, hlog, hok, hnot⟩ := hstart
  obtain ⟨-, log, hlog', hall⟩ := hchmod
  refine ⟨before, r, after ++ log, by rw [hlog', hlog]; simp, hok, ?_⟩
  rw [List.map_append, List.mem_append, not_or]
  refine ⟨hnot, fun hmem => ?_⟩
  obtain ⟨e, he, hcmd⟩ := List.mem_map.mp hmem
  have hname := hall e he
  have hsystemctl : (disableNow f.units).name ≠ "chmod" := (by decide : ("systemctl" : Str) ≠ "chmod")
  rw [hcmd] at hname
  exact hsystemctl hname

/-! ## Runs -/

/-- The file is the rendering of the rows that are on, by name, and with such a row the service has
just been enabled. -/
structure Rendered (U : PrintTable) (f : Target) (t : Table) (h h' : Host σ) : Prop where
  rows : ∃ rows, InNameOrder f t rows
  file : ∀ rows, InNameOrder f t rows →
    ∃ text, f.text U (rows.map Row.share) = .ok text ∧ h'.files f.path = some text
  service : ∀ rows, InNameOrder f t rows → rows ≠ [] → Started f h h'

theorem rendered_of_reapply {st : Stmt} {h₁ : Host σ} (happly : reapply U O t h = (.ok (), h₁))
    (f : Target) : Rendered U f t h (st.grant O h₁) := by
  obtain ⟨htaken, hops⟩ := reapply_ok_iff.mp happly
  obtain ⟨loaded, hloaded, hshares⟩ := inNameOrder_loaded f t
  have hchmod : OnlyChmod h₁ (st.grant O h₁) := grant_onlyChmod st h₁
  refine ⟨⟨loaded, hloaded⟩, ?_, ?_⟩
  · intro rows hrows
    rw [hrows.unique hloaded, hshares]
    have hfile := regenerateOps_files f hops
    exact ⟨f.render U (f.shares t), htaken.text f, (congrFun hchmod.1 f.path).trans hfile⟩
  · intro rows hrows hne
    have hsome : f.shares t ≠ [] := by
      rw [← hshares, ← hrows.unique hloaded]
      simpa using hne
    exact (regenerateOps_log hsome hops).onlyChmod hchmod

/-- In every run, failures of commands and of writes included: a request that succeeds leaves both
files as the table alone determines them. -/
theorem success_renders (U : PrintTable) (O : OS σ) (start : Backend σ) (qs : List Request)
    (q : Request) (hok : ¬ (handle U O q (serve U O start qs)).1.failed) (f : Target) :
    Rendered U f (handle U O q (serve U O start qs)).2.table (serve U O start qs).host
      (handle U O q (serve U O start qs)).2.host := by
  obtain ⟨st, t, h, happly, heq⟩ := succeeded hok
  rw [heq]
  exact rendered_of_reapply happly f

/-- A share with a client of two words, refused when the files are regenerated. -/
def afterRefused : Backend Unit :=
  serve .asciiOnly .faultless ⟨.empty, .start () noFiles⟩
    [.create (some (toHost "10.0.0.7 10.0.0.8"))]

def mended : Request := .update (some 1) (some (toHost "10.0.0.7", true))

/-- The next request mends it. -/
theorem success_renders_mended :
    (handle .asciiOnly .faultless (.create (some (toHost "10.0.0.7 10.0.0.8")))
      ⟨.empty, .start () noFiles⟩).1.failed ∧
    Rendered .asciiOnly .exports (handle .asciiOnly .faultless mended afterRefused).2.table
      afterRefused.host (handle .asciiOnly .faultless mended afterRefused).2.host :=
  ⟨by decide, success_renders .asciiOnly .faultless ⟨.empty, .start () noFiles⟩
    [.create (some (toHost "10.0.0.7 10.0.0.8"))] mended (by decide) .exports⟩

end Shares
end Nasd
