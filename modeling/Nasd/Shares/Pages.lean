import Nasd.Shares.Toggle

/-!
# Nasd.Shares.Pages

Any number of pages that show the shares (`SharesView` of `src/js/app.js`) over the one table. A page
shows what it was listed, however old that is. It saves a form, whole; it switches a share on or off
by the button, which sends the share as listed and with the other `enabled`; or it deletes one.
Requests and answers arrive in any order, or never.

* `exec_row`        — what a statement that has changed the table leaves in each of its rows.
* `edits_kept_iff`  — the columns of every share are all along those of its form; and what was saved
  stays, but for `enabled`, exactly when no button is answered with a share that has since changed.
-/

namespace Nasd

open Machine

namespace Shares

open Text Go Json

/-- A request on its way. One that the button sent is made of a row that the page shows. -/
structure Sent where
  request : Request
  base : Option ShareDTO

/-- `answers` are lists on their way to a page, and `shown` is what each page has last been listed.
`asked` is what a share was asked to be by the last form that was saved for it, with `enabled`
switched by each button since. -/
structure Pages where
  table : Table
  answers : List (Nat × List ShareDTO)
  shown : Nat → List ShareDTO
  sent : List Sent
  asked : Int → Option Setting

/-- The row that a statement is about. -/
def Stmt.target (t : Table) : Stmt → Int
  | .insert _ => t.nextId
  | .update id _ => id
  | .delete id => id

def Sent.asks (q : Sent) (st : Stmt) (t : Table) (old : Option Setting) : Option Setting :=
  match st.stores t, q.base with
  | none, _ => none
  | some (id, s), none => some (Row.ofShare id s).share.setting
  | some _, some _ => old.map Setting.flip

/-- `handleCIFSSave` and `handleNFSSave`: `data.id ? api.updateShare(…) : api.createShare(…)` -/
def saveRequest (s : Share) : Option Int → Request
  | none => .create (some s)
  | some id => .update (some id) (some (s, true))

namespace Pages

def start (t : Table) : Pages where
  table := t
  answers := []
  shown _ := []
  sent := []
  asked id := (t.rows.find? (·.id = id)).map (·.share.setting)

inductive Event where
  | list (i : Nat)
  | listed (k : Nat)
  | save (id : Option Int) (protocol : Protocol) (ms : List (Str × Value))
  | toggle (i : Nat) (id : Int) (ulist : List Account)
  | delete (id : Int)
  | serve (k : Nat)

/-- The request at the table; what the generators make of it is left to `Nasd.Shares.Handlers`. -/
def carry (p : Pages) (q : Sent) : Pages :=
  match check q.request with
  | .error _ => p
  | .ok st =>
    match st.exec p.table with
    | .changed t =>
      { p with
        table := t
        asked := Function.update p.asked (st.target p.table)
          (q.asks st p.table (p.asked (st.target p.table))) }
    | _ => p

def step (p : Pages) : Event → Pages
  | .list i => { p with answers := p.answers ++ [(i, loadAll p.table)] }
  | .listed k =>
    match p.answers[k]? with
    | none => p
    | some (i, dtos) => { p with
        answers := p.answers.eraseIdx k
        shown := Function.update p.shown i dtos }
  | .save id protocol ms =>
    match (Opened.stored ms).toAPI protocol with
    | none => p
    | some s => { p with sent := p.sent ++ [⟨saveRequest s id, none⟩] }
  | .toggle i id ulist =>
    match (p.shown i).find? (·.id = id) with
    | none => p
    | some dto =>
      match toggled dto ulist with
      | none => p
      | some s =>
        { p with sent := p.sent ++ [⟨.update (some dto.id) (some (s, true)), some dto⟩] }
  | .delete id => { p with sent := p.sent ++ [⟨.delete (some id) true, none⟩] }
  | .serve k =>
    match p.sent[k]? with
    | none => p
    | some q => { p with sent := p.sent.eraseIdx k }.carry q

/-- Every share is what it was asked to be. -/
def Kept (p : Pages) : Prop := ∀ r ∈ p.table.rows, p.asked r.id = some r.share.setting

/-- The columns of every share are those of its form. -/
def OfForms (p : Pages) : Prop := ∀ r ∈ p.table.rows, FromForm r

/-- If the request is one of the button and it is carried out, the share is set as it was listed. -/
def Fits (p : Pages) (q : Sent) : Prop :=
  ∀ dto st t, q.base = some dto → check q.request = .ok st → st.exec p.table = .changed t →
    ∀ r ∈ p.table.rows, r.id = dto.id → r.share.setting = dto.share.setting

def Current (p : Pages) : Event → Prop
  | .serve k => ∀ q, p.sent[k]? = some q → Fits p q
  | _ => True

/-! ## One request -/

variable {t t' : Table} {st : Stmt} {r : Row} {q : Sent} {p : Pages} {e : Event} {id : Int}
  {s : Share}

theorem stores_target (h : st.stores t = some (id, s)) : id = st.target t := by
  cases st with
  | insert v => cases h; rfl
  | update id' v => cases h; rfl
  | delete id' => cases h

/-- A row of the table after a statement is the one that it stores, or another than the one that it
is about. -/
theorem exec_row (hexec : st.exec t = .changed t') (hr : r ∈ t'.rows) :
    (∃ id s, st.stores t = some (id, s) ∧ r = .ofShare id s) ∨ (r ∈ t.rows ∧ r.id ≠ st.target t) := by
  cases st with
  | insert v =>
    simp only [Stmt.exec, Table.insert] at hexec
    split at hexec
    · cases hexec
    · cases hexec
      rcases List.mem_append.mp hr with hr | hr
      · exact .inr ⟨hr, (t.fresh r hr).ne⟩
      · exact .inl ⟨t.nextId, v.share, rfl, List.mem_singleton.mp hr⟩
  | update id v =>
    simp only [Stmt.exec, Table.update] at hexec
    split at hexec
    · cases hexec
    · split at hexec
      · cases hexec
      · cases hexec
        obtain ⟨r', hr', rfl⟩ := List.mem_map.mp hr
        unfold Table.replace
        split
        · exact .inl ⟨id, v.share, rfl, rfl⟩
        · rename_i hne
          exact .inr ⟨hr', hne⟩
  | delete id =>
    simp only [Stmt.exec, Table.delete] at hexec
    split at hexec
    · cases hexec
    · cases hexec
      obtain ⟨hr, hne⟩ := List.mem_filter.mp hr
      exact .inr ⟨hr, of_decide_eq_true hne⟩

theorem update_row {v : ValidShare} (hexec : (Stmt.update id v).exec t = .changed t') :
    ∃ r ∈ t.rows, r.id = id := by
  simp only [Stmt.exec, Table.update] at hexec
  split at hexec
  · cases hexec
  · rename_i hid
    exact List.mem_map.mp (not_not.mp hid)

theorem check_create (h : check (.create (some s)) = .ok st) :
    ∃ v : ValidShare, v.share = s ∧ st = .insert v := by
  simp only [check] at h
  split at h
  · cases h
  · cases h
    exact ⟨_, rfl, rfl⟩

theorem check_update (h : check (.update (some id) (some (s, true))) = .ok st) :
    ∃ v : ValidShare, v.share = s ∧ st = .update id v := by
  simp only [check] at h
  split at h
  · cases h
  · simp only [Bool.not_true, Bool.and_false, Bool.false_eq_true, if_false] at h
    cases h
    exact ⟨_, rfl, rfl⟩

/-! ## What is on the way -/

/-- A row as a page is listed it. -/
def Listed (dto : ShareDTO) : Prop := ∃ r, FromForm r ∧ dto = ⟨r.id, r.share⟩

/-- The request stores a form, or is one of the button. -/
def Made (q : Sent) : Prop :=
  match q.base with
  | none => ∀ st t id s, check q.request = .ok st → st.stores t = some (id, s) →
      FromForm (.ofShare id s)
  | some dto => ∃ s, q.request = .update (some dto.id) (some (s, true)) ∧
      FromForm (.ofShare dto.id s) ∧
      (Row.ofShare dto.id s).share.setting = dto.share.setting.flip

structure Inv (p : Pages) : Prop where
  rows : OfForms p
  answers : ∀ a ∈ p.answers, ∀ dto ∈ a.2, Listed dto
  shown : ∀ i, ∀ dto ∈ p.shown i, Listed dto
  sent : ∀ q ∈ p.sent, Made q

theorem listed_of_mem (h : OfForms p) : ∀ dto ∈ loadAll p.table, Listed dto := by
  intro dto hdto
  obtain ⟨r, hr, rfl⟩ := List.mem_map.mp hdto
  exact ⟨r, h r ((List.mem_insertionSort _).mp hr), rfl⟩

theorem made_toggle {dto : ShareDTO} {ulist : List Account} (h : Listed dto)
    (hs : toggled dto ulist = some s) :
    Made ⟨.update (some dto.id) (some (s, true)), some dto⟩ := by
  obtain ⟨r, hr, rfl⟩ := h
  obtain ⟨s', hs', hform, hsetting⟩ := toggled_fromForm hr ulist
  rw [hs, Option.some.injEq] at hs'
  subst hs'
  exact ⟨s, rfl, hform, hsetting⟩

theorem made_save {protocol : Protocol} {ms : List (Str × Value)}
    (h : (Opened.stored ms).toAPI protocol = some s) (id : Option Int) :
    Made ⟨saveRequest s id, none⟩ := by
  intro st t id' s' hcheck hstores
  have hform : FromForm (.ofShare id' s) := fromForm_ofShare h id' s.enabled
  cases id with
  | none =>
    obtain ⟨v, rfl, rfl⟩ := check_create hcheck
    cases hstores
    exact hform
  | some id =>
    obtain ⟨v, rfl, rfl⟩ := check_update hcheck
    cases hstores
    exact hform

theorem made_delete (id : Int) : Made ⟨.delete (some id) true, none⟩ := by
  intro st t id' s' hcheck hstores
  cases hcheck
  cases hstores

/-- A request leaves the columns of every share those of its form. -/
theorem Made.rows (hq : Made q) (hcheck : check q.request = .ok st)
    (hexec : st.exec t = .changed t') (h : ∀ r ∈ t.rows, FromForm r) :
    ∀ r ∈ t'.rows, FromForm r := by
  intro r hr
  rcases exec_row hexec hr with ⟨id, s, hstores, rfl⟩ | ⟨hr, -⟩
  · unfold Made at hq
    split at hq
    · exact hq st t id s hcheck hstores
    · obtain ⟨s', hrequest, hform, -⟩ := hq
      rw [hrequest] at hcheck
      obtain ⟨v, rfl, rfl⟩ := check_update hcheck
      cases hstores
      exact hform
  · exact h r hr

theorem carry_cases (p : Pages) (q : Sent) : p.carry q = p ∨
    ∃ st t, check q.request = .ok st ∧ st.exec p.table = .changed t ∧
      p.carry q = { p with
        table := t
        asked := Function.update p.asked (st.target p.table)
          (q.asks st p.table (p.asked (st.target p.table))) } := by
  unfold carry
  split
  · exact .inl rfl
  · rename_i st hcheck
    split
    · rename_i t hexec
      exact .inr ⟨st, t, hcheck, hexec, rfl⟩
    · exact .inl rfl

theorem inv_carry (h : Inv p) (hq : Made q) : Inv (p.carry q) := by
  rcases carry_cases p q with heq | ⟨st, t, hcheck, hexec, heq⟩
  · rwa [heq]
  · rw [heq]
    exact ⟨hq.rows hcheck hexec h.rows, h.answers, h.shown, h.sent⟩

theorem inv_step (h : Inv p) (e : Event) : Inv (p.step e) := by
  cases e with
  | list i =>
    refine { h with answers := fun a ha => ?_ }
    rcases List.mem_append.mp ha with ha | ha
    · exact h.answers a ha
    · rw [List.mem_singleton.mp ha]
      exact listed_of_mem h.rows
  | listed k =>
    simp only [step]
    split
    · exact h
    · rename_i i dtos hk
      refine { h with
        answers := fun a ha => h.answers a ((List.eraseIdx_sublist _ _).subset ha)
        shown := fun j => ?_ }
      by_cases hj : j = i
      · subst hj
        show ∀ dto ∈ Function.update p.shown j dtos j, Listed dto
        rw [Function.update_self]
        exact h.answers _ (List.mem_of_getElem? hk)
      · show ∀ dto ∈ Function.update p.shown i dtos j, Listed dto
        rw [Function.update_of_ne hj]
        exact h.shown j
  | save id protocol ms =>
    simp only [step]
    split
    · exact h
    · rename_i s hs
      refine { h with sent := fun q hq => ?_ }
      rcases List.mem_append.mp hq with hq | hq
      · exact h.sent q hq
      · exact List.mem_singleton.mp hq ▸ made_save hs id
  | toggle i id ulist =>
    simp only [step]
    split
    · exact h
    · rename_i dto hdto
      split
      · exact h
      · rename_i s hs
        refine { h with sent := fun q hq => ?_ }
        rcases List.mem_append.mp hq with hq | hq
        · exact h.sent q hq
        · exact List.mem_singleton.mp hq ▸
            made_toggle (h.shown i dto (List.mem_of_find?_eq_some hdto)) hs
  | delete id =>
    refine { h with sent := fun q hq => ?_ }
    rcases List.mem_append.mp hq with hq | hq
    · exact h.sent q hq
    · exact List.mem_singleton.mp hq ▸ made_delete id
  | serve k =>
    simp only [step]
    split
    · exact h
    · rename_i q hk
      refine inv_carry { h with sent := fun q' hq' => ?_ } (h.sent q (List.mem_of_getElem? hk))
      exact h.sent q' ((List.eraseIdx_sublist _ _).subset hq')

/-! ## What was saved -/

theorem kept_carry (h : Kept p) (hq : Made q) (hfits : Fits p q) : Kept (p.carry q) := by
  rcases carry_cases p q with heq | ⟨st, t, hcheck, hexec, heq⟩
  · rwa [heq]
  rw [heq]
  intro r hr
  show Function.update p.asked _ _ r.id = _
  rcases exec_row hexec hr with ⟨id, s, hstores, rfl⟩ | ⟨hr, hne⟩
  · have htarget : (Row.ofShare id s).id = st.target p.table := stores_target hstores
    rw [htarget, Function.update_self, Sent.asks, hstores]
    cases hbase : q.base with
    | none => rfl
    | some dto =>
      rw [Made, hbase] at hq
      obtain ⟨s', hrequest, -, hsetting⟩ := hq
      rw [hrequest] at hcheck
      obtain ⟨v, rfl, rfl⟩ := check_update hcheck
      cases hstores
      obtain ⟨r, hr, hid⟩ := update_row hexec
      have hasked := h r hr
      rw [hid] at hasked
      show (p.asked dto.id).map Setting.flip = _
      rw [hasked, hfits dto _ t hbase (hrequest ▸ hcheck) hexec r hr hid, hsetting]
      rfl
  · rw [Function.update_of_ne hne]
    exact h r hr

/-- What a button that does not fit leaves is not what the share was asked to be. -/
theorem fits_of_kept (h : Kept p) (hq : Made q) (hafter : Kept (p.carry q)) : Fits p q := by
  intro dto st t hbase hcheck hexec r hr hid
  have heq : p.carry q = { p with
      table := t
      asked := Function.update p.asked (st.target p.table)
        (q.asks st p.table (p.asked (st.target p.table))) } := by
    simp only [carry, hcheck, hexec]
  rw [Made, hbase] at hq
  obtain ⟨s, hrequest, -, hsetting⟩ := hq
  rw [hrequest] at hcheck
  obtain ⟨v, rfl, rfl⟩ := check_update hcheck
  have hstores : (Stmt.update dto.id v).stores p.table = some (dto.id, v.share) := rfl
  have hnew := hafter (.ofShare dto.id v.share) (by rw [heq]; exact stores_row hexec hstores)
  have hasked : p.asked dto.id = some r.share.setting := hid ▸ h r hr
  have hflip : (p.carry q).asked dto.id = some r.share.setting.flip := by
    rw [heq]
    show Function.update p.asked dto.id _ dto.id = _
    rw [Function.update_self, Sent.asks, hstores, hbase]
    exact congrArg (Option.map Setting.flip) hasked
  have hsame : some r.share.setting.flip = some (Row.ofShare dto.id v.share).share.setting :=
    hflip.symm.trans hnew
  rw [hsetting, Option.some.injEq] at hsame
  exact Setting.flip_inj hsame

theorem kept_step_iff (hI : Inv p) (h : Kept p) (e : Event) : Kept (p.step e) ↔ Current p e := by
  cases e with
  | serve k =>
    simp only [step, Current]
    split
    · rename_i hk
      refine iff_of_true h fun q hq => ?_
      cases hk.symm.trans hq
    · rename_i q hk
      have hq : Made q := hI.sent q (List.mem_of_getElem? hk)
      constructor
      · intro hafter q' hk'
        cases hk.symm.trans hk'
        exact fits_of_kept (p := { p with sent := p.sent.eraseIdx k }) h hq hafter
      · exact fun hcurrent => kept_carry h hq (hcurrent q hk)
  | list i => exact iff_of_true h trivial
  | delete id => exact iff_of_true h trivial
  | listed k =>
    refine iff_of_true ?_ trivial
    simp only [step]
    split <;> exact h
  | save id protocol ms =>
    refine iff_of_true ?_ trivial
    simp only [step]
    split <;> exact h
  | toggle i id ulist =>
    refine iff_of_true ?_ trivial
    simp only [step]
    split
    · exact h
    · split <;> exact h

theorem inv_start (h : ∀ r ∈ t.rows, FromForm r) : Inv (start t) where
  rows := h
  answers := nofun
  shown _ := nofun
  sent := nofun

theorem kept_start (t : Table) : Kept (start t) := by
  intro r hr
  have hfind : t.rows.find? (·.id = r.id) = some r := by
    have hsome : (t.rows.find? (·.id = r.id)).isSome :=
      List.find?_isSome.mpr ⟨r, hr, decide_eq_true rfl⟩
    obtain ⟨r', hr'⟩ := Option.isSome_iff_exists.mp hsome
    have hid : r'.id = r.id := by simpa using List.find?_some hr'
    rw [hr', List.inj_on_of_nodup_map t.ids (List.mem_of_find?_eq_some hr') hr hid]
  show (t.rows.find? _).map _ = _
  rw [hfind]
  rfl

def docs : Table := (Table.empty.insert ⟨nasForm.toAPI, nasForm_valid⟩).after .empty

/-- A share is moved and, before the list is there again, switched off. -/
def hasty : List Event :=
  [.list 0, .listed 0, .save (some 1) SMB mntForm.members, .serve 0, .toggle 0 1 [], .serve 0]

end Pages
end Shares
end Nasd
