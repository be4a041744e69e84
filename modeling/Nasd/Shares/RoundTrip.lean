import Nasd.Shares.Access
import Nasd.Shares.Accepted
import Nasd.Shares.Requests

/-!
# Nasd.Shares.RoundTrip

A share through its row and back: what `list` answers for a share that `create` or `update` stored.
The two lists are stored as text with commas, so only entries that such a text gives back whole come
back.

* `splitCSV_joinCSV_iff` — the lists that come back.
* `list_returns_iff`     — the shares that come back.
-/

namespace Nasd
namespace Shares

open Text Go

/-- An entry of a list that its column gives back. -/
structure IsEntry (x : Str) : Prop where
  some : x ≠ []
  whole : ',' ∉ x
  trimmed : TrimSpace x = x

instance (x : Str) : Decidable (IsEntry x) :=
  decidable_of_iff (x ≠ [] ∧ ',' ∉ x ∧ TrimSpace x = x)
    ⟨fun h => ⟨h.1, h.2.1, h.2.2⟩, fun h => ⟨h.some, h.whole, h.trimmed⟩⟩

theorem isEntry_of_mem_splitCSV {t x : Str} (h : x ∈ splitCSV t) : IsEntry x := by
  obtain ⟨hne, u, hu, rfl⟩ := mem_splitCSV h
  refine ⟨hne, fun hcomma => ?_, trim_trim u⟩
  rw [List.splitOn_eq_splitOnP] at hu
  have hclean := (mem_splitOnP hu).1 ',' ((trim_isInfix u).subset hcomma)
  simp at hclean

theorem IsEntry.splitCSV {x : Str} (h : IsEntry x) : splitCSV x = [x] := by
  rw [Shares.splitCSV, List.splitOn_eq_singleton h.whole, List.map_singleton, h.trimmed]
  simp [h.some]

theorem splitCSV_joinCSV_iff {xs : List Str} :
    splitCSV (joinCSV xs) = xs ↔ ∀ x ∈ xs, IsEntry x := by
  rw [splitCSV_joinCSV]
  constructor
  · intro h x hx
    rw [← h] at hx
    obtain ⟨y, -, hxy⟩ := List.mem_flatMap.mp hx
    exact isEntry_of_mem_splitCSV hxy
  · intro h
    induction xs with
    | nil => rfl
    | cons x xs ih =>
      rw [List.flatMap_cons, (h x List.mem_cons_self).splitCSV,
        ih fun y hy => h y (List.mem_cons_of_mem _ hy)]
      rfl

theorem share_ofShare_iff {id : Int} {s : Share} :
    (Row.ofShare id s).share = s ↔ ∀ x ∈ s.allowedIPs ++ s.validUsers, IsEntry x := by
  rw [Row.share_ofShare, List.forall_mem_append, ← splitCSV_joinCSV_iff, ← splitCSV_joinCSV_iff]
  constructor
  · intro h
    exact ⟨congrArg Share.allowedIPs h, congrArg Share.validUsers h⟩
  · rintro ⟨hips, husers⟩
    rw [hips, husers]

/-! ## Listing -/

/-- The share that a statement stores, and its id. -/
def Stmt.stores (t : Table) : Stmt → Option (Int × Share)
  | .insert s => some (t.nextId, s.share)
  | .update id s => some (id, s.share)
  | .delete _ => none

/-- The shares that `list` answers under an id. -/
def listedUnder (id : Int) (t : Table) : List Share :=
  ((loadAll t).filter (·.id = id)).map (·.share)

variable {t t' : Table} {st : Stmt} {id : Int} {s : Share}

/-- The row of an id is the only one. -/
theorem listedUnder_row {r : Row} (hr : r ∈ t.rows) : listedUnder r.id t = [r.share] := by
  let byName : Row → Row → Prop := fun r q => r.name ≤ q.name
  have hsorted : ((t.rows.insertionSort byName).map Row.id).Nodup :=
    ((List.perm_insertionSort byName t.rows).map Row.id).nodup_iff.mpr t.ids
  have hmem : r ∈ t.rows.insertionSort byName := (List.mem_insertionSort byName).mpr hr
  obtain ⟨before, after, hsplit⟩ := List.append_of_mem hmem
  have hother : ∀ q ∈ before ++ after, q.id ≠ r.id := by
    rw [hsplit, List.map_append, List.map_cons, List.nodup_append] at hsorted
    obtain ⟨-, hafter, hbefore⟩ := hsorted
    intro q hq
    rcases List.mem_append.mp hq with hq | hq
    · exact hbefore q.id (List.mem_map_of_mem hq) r.id List.mem_cons_self
    · have hnot := (List.nodup_cons.mp hafter).1
      intro heq
      exact hnot (heq ▸ List.mem_map_of_mem hq)
  have hdrop : ∀ qs : List Row, (∀ q ∈ qs, q.id ≠ r.id) →
      (qs.map fun q => (⟨q.id, q.share⟩ : ShareDTO)).filter (·.id = r.id) = [] := by
    intro qs hqs
    refine List.filter_eq_nil_iff.mpr fun d hd => ?_
    obtain ⟨q, hq, rfl⟩ := List.mem_map.mp hd
    simpa using hqs q hq
  have hload : loadAll t = (t.rows.insertionSort byName).map fun q => ⟨q.id, q.share⟩ := rfl
  rw [listedUnder, hload, hsplit, List.map_append, List.map_cons, List.filter_append,
    List.filter_cons_of_pos (by simp), hdrop before fun q hq => hother q (List.mem_append_left _ hq),
    hdrop after fun q hq => hother q (List.mem_append_right _ hq)]
  rfl

theorem stores_row (hexec : st.exec t = .changed t') (hs : st.stores t = some (id, s)) :
    Row.ofShare id s ∈ t'.rows := by
  cases st with
  | insert v =>
    cases hs
    simp only [Stmt.exec, Table.insert] at hexec
    split at hexec
    · cases hexec
    · cases hexec
      simp
  | update id v =>
    cases hs
    simp only [Stmt.exec, Table.update] at hexec
    split at hexec
    · cases hexec
    · rename_i hid
      split at hexec
      · cases hexec
      · cases hexec
        obtain ⟨r, hr, hrid⟩ := List.mem_map.mp (not_not.mp hid)
        refine List.mem_map.mpr ⟨r, hr, ?_⟩
        rw [Table.replace, if_pos hrid]
  | delete id => cases hs

/-- A stored share is listed as it was submitted exactly when each entry of its two lists is neither
empty nor has a comma, or white space at an end. -/
theorem list_returns_iff (hexec : st.exec t = .changed t') (hs : st.stores t = some (id, s)) :
    listedUnder id t' = [s] ↔ ∀ x ∈ s.allowedIPs ++ s.validUsers, IsEntry x := by
  have hlisted : listedUnder id t' = [(Row.ofShare id s).share] :=
    listedUnder_row (stores_row hexec hs)
  rw [hlisted, List.singleton_inj, share_ofShare_iff]

/-- A share for a host, a network, a user and a group. -/
def toMany : Share :=
  ⟨"a", "/a", NFS, false, ["10.0.0.7", "10.0.1.0/24"], ["anna", "@staff"], true, none⟩

theorem list_returns_many :
    listedUnder 1 ((Table.empty.insert ⟨toMany, rfl⟩).after .empty) = [toMany] := by
  have hexec : (Stmt.insert ⟨toMany, rfl⟩).exec .empty =
      .changed ((Table.empty.insert ⟨toMany, rfl⟩).after .empty) := rfl
  exact (list_returns_iff hexec rfl).mpr (by decide)

/-- One host submitted, two hosts listed. -/
theorem list_splits_host :
    (Stmt.insert ⟨toHost "10.0.0.7,10.0.0.8", toHost_valid _⟩).exec .empty =
      .changed (toHostTable "10.0.0.7,10.0.0.8") ∧
    (listedUnder 1 (toHostTable "10.0.0.7,10.0.0.8")).map (·.allowedIPs) =
      [[("10.0.0.7" : Str), "10.0.0.8"]] :=
  ⟨rfl, by decide⟩

end Shares
end Nasd
