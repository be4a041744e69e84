import Mathlib.Data.Char
import Mathlib.Data.List.Lex
import Mathlib.Data.List.Nodup
import Mathlib.Data.List.Sort
import Nasd.Shares.Manager

/-!
# Nasd.Shares.Table

The table `shares` of `nasd`'s database and the statements that the handlers run on it
(`internal/api/handlers.go`, `migrations/`).

* `validateShare`              — what a share must meet to be stored.
* `insert`, `update`, `delete` — the statements, under the table's constraints.
* `loadAll`                    — the shares as they are read back.
* `Table.Accepted`             — every row passed `validateShare`; no statement breaks it.
-/

namespace Nasd
namespace Shares

open Text Go Sys Json

def validateShare (s : Share) : Except Str Unit :=
  if !ValidShareName s.name then .error "nome share non valido"
  else if s.protocol ≠ NFS ∧ s.protocol ≠ SMB then .error "protocollo non valido"
  else if !HasPrefix s.path "/" || ContainsAny s.path "\n\r\"\x00" then
    .error "percorso non valido"
  else .ok ()

/-- A share that passed `validateShare`. -/
structure ValidShare where
  share : Share
  valid : validateShare share = .ok ()

theorem validateShare_ok {s : Share} (h : validateShare s = .ok ()) :
    ValidShareName s.name = true ∧ (s.protocol = NFS ∨ s.protocol = SMB) ∧
      HasPrefix s.path "/" = true ∧ ContainsAny s.path "\n\r\"\x00" = false := by
  unfold validateShare at h
  split at h
  · cases h
  · rename_i hname
    split at h
    · cases h
    · rename_i hprotocol
      split at h
      · cases h
      · rename_i hpath
        simp only [Bool.or_eq_true, Bool.not_eq_true', not_or, Bool.not_eq_false,
          Bool.not_eq_true] at hname hpath
        refine ⟨hname, ?_, hpath⟩
        by_cases hnfs : s.protocol = NFS
        · exact .inl hnfs
        · exact .inr (by_contra fun hsmb => hprotocol ⟨hnfs, hsmb⟩)

/-! ## Columns -/

def joinCSV (xs : List Str) : Str := Join xs ","

def splitCSV (s : Str) : List Str := ((s.splitOn ',').map TrimSpace).filter (· ≠ [])

def boolToInt (b : Bool) : Int := if b then 1 else 0

/-- The scanned flag, `ro != 0`. -/
def intToBool (n : Int) : Bool := n ≠ 0

@[simp] theorem intToBool_boolToInt (b : Bool) : intToBool (boolToInt b) = b := by
  cases b <;> rfl

/-- An absent blob stands for the empty text of its column. -/
structure Row where
  id : Int
  name : Str
  path : Str
  protocol : Protocol
  readOnly : Int
  allowedIPs : Str
  validUsers : Str
  enabled : Int
  config : Option Value

def Row.key (r : Row) : Str × Protocol := (r.name, r.protocol)

def Row.ofShare (id : Int) (s : Share) : Row where
  id := id
  name := s.name
  path := s.path
  protocol := s.protocol
  readOnly := boolToInt s.readOnly
  allowedIPs := joinCSV s.allowedIPs
  validUsers := joinCSV s.validUsers
  enabled := boolToInt s.enabled
  config := s.config

def Row.share (r : Row) : Share where
  name := r.name
  path := r.path
  protocol := r.protocol
  readOnly := intToBool r.readOnly
  allowedIPs := splitCSV r.allowedIPs
  validUsers := splitCSV r.validUsers
  enabled := intToBool r.enabled
  config := r.config

/-- A share comes back from its row as it was, but for the two lists, which come back as `splitCSV`
reads them. -/
theorem Row.share_ofShare (id : Int) (s : Share) :
    (Row.ofShare id s).share =
      { s with
        allowedIPs := splitCSV (joinCSV s.allowedIPs)
        validUsers := splitCSV (joinCSV s.validUsers) } := by
  simp only [Row.share, Row.ofShare, intToBool_boolToInt]

/-! ## Table -/

/-- The rows in the order of their insertion, with the constraints of the schema. `changes` counts
the rows changed so far, as SQLite does. -/
structure Table where
  rows : List Row
  nextId : Int
  changes : Nat
  keys : (rows.map Row.key).Nodup
  ids : (rows.map Row.id).Nodup
  fresh : ∀ r ∈ rows, r.id < nextId
  protocols : ∀ r ∈ rows, r.protocol = NFS ∨ r.protocol = SMB

namespace Table

def empty : Table := ⟨[], 1, 0, List.nodup_nil, List.nodup_nil, by simp, by simp⟩

/-- What a statement that changes the table comes to. -/
inductive Outcome where
  | duplicate
  | missing
  | changed (t : Table)

/-- The table after a statement on `t`. -/
def Outcome.after (t : Table) : Outcome → Table
  | .changed t' => t'
  | _ => t

theorem valid_protocol (s : ValidShare) : s.share.protocol = NFS ∨ s.share.protocol = SMB :=
  (validateShare_ok s.valid).2.1

def insert (t : Table) (s : ValidShare) : Outcome :=
  if hdup : (s.share.name, s.share.protocol) ∈ t.rows.map Row.key then .duplicate
  else .changed {
    rows := t.rows ++ [.ofShare t.nextId s.share]
    nextId := t.nextId + 1
    changes := t.changes + 1
    keys := by
      rw [List.map_append]
      exact List.Nodup.append t.keys (List.nodup_singleton _)
        (by rw [List.map_singleton, List.disjoint_singleton]; exact hdup)
    ids := by
      rw [List.map_append]
      refine List.Nodup.append t.ids (List.nodup_singleton _) ?_
      rw [List.map_singleton, List.disjoint_singleton]
      intro hmem
      obtain ⟨r, hr, hid⟩ := List.mem_map.mp hmem
      have hlt : r.id < t.nextId := t.fresh r hr
      have heq : r.id = t.nextId := hid
      omega
    fresh := by
      intro r hr
      rcases List.mem_append.mp hr with hr | hr
      · have := t.fresh r hr; omega
      · rw [List.mem_singleton] at hr
        subst hr
        have : (Row.ofShare t.nextId s.share).id = t.nextId := rfl
        omega
    protocols := by
      intro r hr
      rcases List.mem_append.mp hr with hr | hr
      · exact t.protocols r hr
      · rw [List.mem_singleton] at hr
        subst hr
        exact valid_protocol s }

def replace (id : Int) (s : Share) (r : Row) : Row := if r.id = id then .ofShare id s else r

theorem replace_id (id : Int) (s : Share) (r : Row) : (replace id s r).id = r.id := by
  unfold replace
  split
  · rename_i h; exact h.symm
  · rfl

def update (t : Table) (id : Int) (s : ValidShare) : Outcome :=
  if id ∉ t.rows.map Row.id then .missing
  else if hdup : ∃ r ∈ t.rows, r.id ≠ id ∧ r.key = (s.share.name, s.share.protocol) then .duplicate
  else .changed {
    rows := t.rows.map (replace id s.share)
    nextId := t.nextId
    changes := t.changes + 1
    keys := by
      rw [List.map_map]
      refine (List.nodup_map_iff_inj_on t.ids.of_map).mpr ?_
      intro a ha b hb hab
      have hother : ∀ r ∈ t.rows, r.id ≠ id → r.key ≠ (s.share.name, s.share.protocol) :=
        fun r hr hne hkey => hdup ⟨r, hr, hne, hkey⟩
      simp only [Function.comp_apply, replace] at hab
      split at hab
      · rename_i hida
        split at hab
        · rename_i hidb; exact List.inj_on_of_nodup_map t.ids ha hb (hida.trans hidb.symm)
        · rename_i hidb; exact absurd hab.symm (hother b hb hidb)
      · rename_i hida
        split at hab
        · exact absurd hab (hother a ha hida)
        · exact List.inj_on_of_nodup_map t.keys ha hb hab
    ids := by
      have hids : Row.id ∘ replace id s.share = Row.id := funext (replace_id id s.share)
      rw [List.map_map, hids]
      exact t.ids
    fresh := by
      intro r hr
      obtain ⟨r', hr', rfl⟩ := List.mem_map.mp hr
      rw [replace_id]
      exact t.fresh r' hr'
    protocols := by
      intro r hr
      obtain ⟨r', hr', rfl⟩ := List.mem_map.mp hr
      unfold replace
      split
      · exact valid_protocol s
      · exact t.protocols r' hr' }

def delete (t : Table) (id : Int) : Outcome :=
  if id ∉ t.rows.map Row.id then .missing
  else .changed {
    rows := t.rows.filter (·.id ≠ id)
    nextId := t.nextId
    changes := t.changes + 1
    keys := t.keys.sublist (List.filter_sublist.map _)
    ids := t.ids.sublist (List.filter_sublist.map _)
    fresh := fun r hr => t.fresh r (List.mem_of_mem_filter hr)
    protocols := fun r hr => t.protocols r (List.mem_of_mem_filter hr) }

/-- Every row holds a share that passed `validateShare`. -/
def Accepted (t : Table) : Prop := ∀ r ∈ t.rows, ∃ s : ValidShare, r = .ofShare r.id s.share

variable {t t' : Table} {s : ValidShare} {id : Int}

theorem Accepted.insert (h : t.Accepted) (ht : t.insert s = .changed t') : t'.Accepted := by
  unfold Table.insert at ht
  split at ht
  · cases ht
  · cases ht
    intro r hr
    rcases List.mem_append.mp hr with hr | hr
    · exact h r hr
    · rw [List.mem_singleton] at hr
      subst hr
      exact ⟨s, rfl⟩

theorem Accepted.update (h : t.Accepted) (ht : t.update id s = .changed t') : t'.Accepted := by
  unfold Table.update at ht
  split at ht
  · cases ht
  · split at ht
    · cases ht
    · cases ht
      intro r hr
      obtain ⟨r', hr', rfl⟩ := List.mem_map.mp hr
      unfold replace
      split
      · exact ⟨s, rfl⟩
      · exact h r' hr'

theorem Accepted.delete (h : t.Accepted) (ht : t.delete id = .changed t') : t'.Accepted := by
  unfold Table.delete at ht
  split at ht
  · cases ht
  · cases ht
    intro r hr
    exact h r (List.mem_of_mem_filter hr)

end Table

/-- A row with its id, as `list` answers it. -/
structure ShareDTO where
  id : Int
  share : Share

/-- `SELECT … ORDER BY name` -/
def loadAll (t : Table) : List ShareDTO :=
  (t.rows.insertionSort fun r q => r.name ≤ q.name).map fun r => ⟨r.id, r.share⟩

/-- The list that `reapply` gives to the generators. -/
def loadShares (t : Table) : List Share := (loadAll t).map (·.share)

theorem mem_loadShares {t : Table} {s : Share} :
    s ∈ loadShares t ↔ ∃ r ∈ t.rows, r.share = s := by
  simp only [loadShares, loadAll, List.map_map, List.mem_map, Function.comp_apply,
    List.mem_insertionSort]

/-- What the generators are given has a name, a protocol and a path that passed `validateShare`. -/
theorem Table.Accepted.valid {t : Table} {s : Share} (h : t.Accepted) (hs : s ∈ loadShares t) :
    validateShare s = .ok () := by
  obtain ⟨r, hr, rfl⟩ := mem_loadShares.mp hs
  obtain ⟨v, hv⟩ := h r hr
  rw [hv, Row.share_ofShare]
  exact v.valid

end Shares
end Nasd
