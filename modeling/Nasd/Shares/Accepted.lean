import Nasd.Shares.Apply
import Nasd.Shares.Rendering

/-!
# Nasd.Shares.Accepted

What `validateShare` lets through and the generators refuse: the clients of an export, which only
`ApplyNFS` looks at, and two characters of a path, which only `GrantShareAccess` looks at.

* `exportable_of_valid`   — the clients are all that `ApplyNFS` can refuse.
* `generators_accept_iff` — when no share of an accepted table is refused anywhere.
-/

namespace Nasd
namespace Shares

open Text Go Sys

variable {σ : Type} {U : PrintTable} {O : OS σ} {s : Share} {t : Table} {h : Host σ}

theorem containsAny_append {text chars chars' : Str} :
    ContainsAny text (chars ++ chars') = false ↔
      ContainsAny text chars = false ∧ ContainsAny text chars' = false := by
  simp only [containsAny_false, List.mem_append, or_imp, forall_and]

theorem containsAny_subset {text chars chars' : Str} (hsub : chars ⊆ chars')
    (h : ContainsAny text chars' = false) : ContainsAny text chars = false :=
  containsAny_false.mpr fun c hc => containsAny_false.mp h c (hsub hc)

theorem exportable_of_valid (hv : validateShare s = .ok ()) :
    s.Exportable ↔ ∀ p ∈ s.clients, Accepts p.1 := by
  obtain ⟨-, -, -, hchars⟩ := validateShare_ok hv
  have hpath : ContainsAny s.path "\n\"" = false := containsAny_subset (by decide) hchars
  exact ⟨fun hs => hs.clients, fun hs => ⟨hpath, hs⟩⟩

/-- The characters of a path that only `GrantShareAccess` refuses. -/
def shellQuotes : Str := "'`"

theorem grant_ok_iff (hO : O.Works) (hv : validateShare s = .ok ()) :
    (GrantShareAccess O s.path h).1 = .ok () ↔ ContainsAny s.path shellQuotes = false := by
  obtain ⟨-, -, hroot, hchars⟩ := validateShare_ok hv
  unfold GrantShareAccess
  rw [hroot, Bool.not_true, Bool.false_or]
  split
  · rename_i hbad
    refine ⟨nofun, fun hquotes => ?_⟩
    have hgood : ContainsAny s.path badGrantChars = false :=
      containsAny_subset (by decide) (containsAny_append.mpr ⟨hchars, hquotes⟩)
    rw [hgood] at hbad
    cases hbad
  · rename_i hgood
    rw [Bool.not_eq_true] at hgood
    simp only [run_err hO]
    exact ⟨fun _ => containsAny_subset (by decide) hgood, fun _ => trivial⟩

theorem map_unit_ok_iff {α ε : Type} {x : Except ε α} :
    x.map (fun _ => ()) = .ok () ↔ ∃ a, x = .ok a := by
  rw [map_ok_iff]
  simp

theorem ApplyNFS_accepts_iff (hO : O.Works) (ht : t.Accepted) :
    (ApplyNFS U O (loadShares t) h).1 = .ok () ↔
      ∀ s ∈ loadShares t, s.isExport = true → ∀ p ∈ s.clients, Accepts p.1 := by
  rw [(ApplyNFS_ok hO U _ h).1, map_unit_ok_iff]
  have hiff : (∃ text, exportsText U (loadShares t) = .ok text) ↔
      ∀ s ∈ (loadShares t).filter Share.isExport, s.Exportable := by
    constructor
    · rintro ⟨text, htext⟩
      exact (exportsText_ok_iff.mp htext).1
    · intro hall
      exact ⟨_, exportsText_ok_iff.mpr ⟨hall, rfl⟩⟩
  rw [hiff]
  simp only [List.mem_filter, and_imp]
  refine forall₂_congr fun s hs => imp_congr_right fun _ => ?_
  exact exportable_of_valid (ht.valid hs)

theorem ApplySMB_accepts (hO : O.Works) (ht : t.Accepted) :
    (ApplySMB O (loadShares t) h).1 = .ok () := by
  rw [(ApplySMB_ok hO _ h).1, map_unit_ok_iff]
  refine ⟨_, smbText_ok_iff.mpr ⟨fun s hs => ?_, rfl⟩⟩
  exact (validateShare_ok (ht.valid (List.mem_of_mem_filter hs))).1

/-- With nothing else failing, no generator refuses a share of an accepted table exactly when
`ApplyNFS` takes every client of the exports that are on, and no path has a quotation mark of the
shell. -/
theorem generators_accept_iff (U : PrintTable) (hO : O.Works) (ht : t.Accepted) (h : Host σ) :
    ((ApplyNFS U O (loadShares t) h).1 = .ok () ∧ (ApplySMB O (loadShares t) h).1 = .ok () ∧
      ∀ s ∈ loadShares t, (GrantShareAccess O s.path h).1 = .ok ()) ↔
    (∀ s ∈ loadShares t, s.isExport = true → ∀ p ∈ s.clients, Accepts p.1) ∧
      ∀ s ∈ loadShares t, ContainsAny s.path shellQuotes = false := by
  have hsmb : (ApplySMB O (loadShares t) h).1 = .ok () := ApplySMB_accepts hO ht
  have hgrant : (∀ s ∈ loadShares t, (GrantShareAccess O s.path h).1 = .ok ()) ↔
      ∀ s ∈ loadShares t, ContainsAny s.path shellQuotes = false :=
    forall₂_congr fun s hs => grant_ok_iff hO (ht.valid hs)
  rw [ApplyNFS_accepts_iff hO ht, hgrant]
  simp only [hsmb, true_and]

/-- An export to one host. -/
def toHost (host : Str) : Share := ⟨"a", "/a", NFS, false, [host], [], true, none⟩

theorem toHost_valid (host : Str) : validateShare (toHost host) = .ok () := rfl

def toHostTable (host : Str) : Table :=
  (Table.empty.insert ⟨toHost host, toHost_valid host⟩).after .empty

theorem toHostTable_accepted (host : Str) : (toHostTable host).Accepted := by
  intro r hr
  rw [List.mem_singleton.mp hr]
  exact ⟨⟨toHost host, toHost_valid host⟩, rfl⟩

theorem generators_accept_host :
    (ApplyNFS .asciiOnly .faultless (loadShares (toHostTable "10.0.0.7")) (.start () fun _ => none)).1 =
      .ok () ∧
    (ApplySMB .faultless (loadShares (toHostTable "10.0.0.7")) (.start () fun _ => none)).1 = .ok () ∧
    ∀ s ∈ loadShares (toHostTable "10.0.0.7"),
      (GrantShareAccess .faultless s.path (.start () fun _ => none)).1 = .ok () :=
  (generators_accept_iff .asciiOnly OS.faultless_works (toHostTable_accepted "10.0.0.7") _).mpr
    ⟨by decide, by decide⟩

/-- A client of two words passes `validateShare`, and nothing is exported any more. -/
theorem accepted_client_refused :
    validateShare (toHost "10.0.0.7 10.0.0.8") = .ok () ∧
    (toHostTable "10.0.0.7 10.0.0.8").Accepted ∧
    (ApplyNFS .asciiOnly .faultless (loadShares (toHostTable "10.0.0.7 10.0.0.8"))
      (.start () fun _ => none)).1 = .error "client NFS non valido: \"10.0.0.7 10.0.0.8\"" :=
  ⟨rfl, toHostTable_accepted _, by decide⟩

end Shares
end Nasd
