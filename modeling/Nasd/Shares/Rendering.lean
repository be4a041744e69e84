import Nasd.Shares.Exports
import Nasd.Shares.Table

/-!
# Nasd.Shares.Rendering

Both generated texts as functions of the shares that are on: which lists the generators refuse, and
what they write for the others.

* `exportLines_ok_iff`, `smbSections_ok_iff` — the two texts, share by share.
* `exportsText_filter`, `smbText_filter`     — nothing but the shares that are on counts.
-/

namespace Nasd
namespace Shares

open Text Go Sys

variable {U : PrintTable} {s : Share} {all : List Share} {t : Str}

/-- `client(options)`, for each client. -/
def Share.clientTokens (s : Share) : List Str := s.clients.map fun p => p.1 ++ '(' :: p.2 ++ [')']

/-- The line of a share that `ApplyNFS` takes. -/
def Share.exportText (U : PrintTable) (s : Share) : Str :=
  Quote U s.path ++ s.clientTokens.flatMap (' ' :: ·)

/-- `ApplyNFS` takes the share. -/
structure Share.Exportable (s : Share) : Prop where
  path : ContainsAny s.path "\n\"" = false
  clients : ∀ p ∈ s.clients, Accepts p.1

theorem exportLine_ok_iff {line : Str} :
    exportLine U s = .ok line ↔ s.Exportable ∧ line = s.exportText U := by
  unfold exportLine
  split
  · rename_i hpath
    refine ⟨fun hbad => (by cases hbad), ?_⟩
    rintro ⟨⟨hok, -⟩, -⟩
    rw [hok] at hpath
    cases hpath
  · rename_i hpath
    rw [Bool.not_eq_true] at hpath
    cases hclients : exportEach U s.clients with
    | error e =>
      refine ⟨fun hbad => (by cases hbad), ?_⟩
      rintro ⟨⟨-, hok⟩, -⟩
      rw [(exportEach_ok_iff U).mpr ⟨hok, rfl⟩] at hclients
      cases hclients
    | ok clients =>
      obtain ⟨hok, rfl⟩ := (exportEach_ok_iff U).mp hclients
      constructor
      · intro h
        cases h
        exact ⟨⟨hpath, hok⟩, rfl⟩
      · rintro ⟨-, rfl⟩
        rfl

theorem map_ok_iff {α β ε : Type} {f : α → β} {x : Except ε α} {y : β} :
    x.map f = .ok y ↔ ∃ a, x = .ok a ∧ f a = y := by
  cases x with
  | error e => exact ⟨nofun, nofun⟩
  | ok a =>
    constructor
    · intro h
      cases h
      exact ⟨a, rfl, rfl⟩
    · rintro ⟨b, hb, rfl⟩
      cases hb
      rfl

/-- A text put before another one. -/
theorem prefixed_ok_iff {ε : Type} {x : Except ε Str} {P : Prop} {u v : Str}
    (hx : ∀ {ts}, x = .ok ts ↔ P ∧ ts = v) : x.map (u ++ ·) = .ok t ↔ P ∧ t = u ++ v := by
  rw [map_ok_iff]
  constructor
  · rintro ⟨ts, hts, rfl⟩
    obtain ⟨hok, rfl⟩ := hx.mp hts
    exact ⟨hok, rfl⟩
  · rintro ⟨hok, rfl⟩
    exact ⟨_, hx.mpr ⟨hok, rfl⟩, rfl⟩

theorem exportLines_on {line : Str} {rest : List Share} (hon : s.isExport = true)
    (hline : exportLine U s = .ok line) :
    exportLines U (s :: rest) = (exportLines U rest).map (line ++ ['\n'] ++ ·) := by
  have hcons : ∀ ts, line ++ ['\n'] ++ ts = line ++ '\n' :: ts := fun ts => by simp
  rw [exportLines, if_neg (by simp [hon]), hline]
  cases exportLines U rest with
  | error e => rfl
  | ok ts => exact congrArg Except.ok (hcons ts).symm

theorem smbSections_on {rest : List Share} (hon : s.isSMB = true)
    (hname : ValidShareName s.name = true) :
    smbSections (s :: rest) = (smbSections rest).map (sectionText s ++ ·) := by
  rw [smbSections, if_neg (by simp [hon]), if_neg (by simp [hname])]
  cases smbSections rest <;> rfl

theorem exportLines_ok_iff : exportLines U all = .ok t ↔
    (∀ s ∈ all.filter Share.isExport, s.Exportable) ∧
      t = (all.filter Share.isExport).flatMap fun s => s.exportText U ++ ['\n'] := by
  induction all generalizing t with
  | nil =>
    constructor
    · intro h
      cases h
      exact ⟨by simp, rfl⟩
    · rintro ⟨-, rfl⟩
      rfl
  | cons s rest ih =>
    by_cases hon : s.isExport = true
    · rw [List.filter_cons_of_pos hon, List.forall_mem_cons, List.flatMap_cons]
      cases hline : exportLine U s with
      | error e =>
        rw [exportLines, if_neg (by simp [hon]), hline]
        refine ⟨fun hbad => (by cases hbad), ?_⟩
        rintro ⟨⟨hs, -⟩, -⟩
        rw [exportLine_ok_iff.mpr ⟨hs, rfl⟩] at hline
        cases hline
      | ok line =>
        obtain ⟨hs, rfl⟩ := exportLine_ok_iff.mp hline
        rw [exportLines_on hon hline, and_iff_right hs]
        exact prefixed_ok_iff ih
    · rw [List.filter_cons_of_neg hon, exportLines, if_pos (by simpa using hon)]
      exact ih

theorem smbSections_ok_iff : smbSections all = .ok t ↔
    (∀ s ∈ all.filter Share.isSMB, ValidShareName s.name = true) ∧
      t = (all.filter Share.isSMB).flatMap sectionText := by
  induction all generalizing t with
  | nil =>
    constructor
    · intro h
      cases h
      exact ⟨by simp, rfl⟩
    · rintro ⟨-, rfl⟩
      rfl
  | cons s rest ih =>
    by_cases hon : s.isSMB = true
    · rw [List.filter_cons_of_pos hon, List.forall_mem_cons, List.flatMap_cons]
      by_cases hname : ValidShareName s.name = true
      · rw [smbSections_on hon hname, and_iff_right hname]
        exact prefixed_ok_iff ih
      · rw [smbSections, if_neg (by simp [hon]), if_pos (by simpa using hname)]
        exact ⟨fun hbad => (by cases hbad), fun h => absurd h.1.1 hname⟩
    · rw [List.filter_cons_of_neg hon, smbSections, if_pos (by simpa using hon)]
      exact ih

theorem exportsText_ok_iff : exportsText U all = .ok t ↔
    (∀ s ∈ all.filter Share.isExport, s.Exportable) ∧
      t = exportsHeader ++ (all.filter Share.isExport).flatMap fun s => s.exportText U ++ ['\n'] :=
  prefixed_ok_iff exportLines_ok_iff

theorem smbText_ok_iff : smbText all = .ok t ↔
    (∀ s ∈ all.filter Share.isSMB, ValidShareName s.name = true) ∧
      t = smbHeader ++ (all.filter Share.isSMB).flatMap sectionText :=
  prefixed_ok_iff smbSections_ok_iff

/-- Only the exports of a list count. -/
theorem exportsText_filter :
    exportsText U (all.filter Share.isExport) = .ok t ↔ exportsText U all = .ok t := by
  rw [exportsText_ok_iff, exportsText_ok_iff, List.filter_filter]
  simp only [Bool.and_self]

theorem smbText_filter : smbText (all.filter Share.isSMB) = .ok t ↔ smbText all = .ok t := by
  rw [smbText_ok_iff, smbText_ok_iff, List.filter_filter]
  simp only [Bool.and_self]

end Shares
end Nasd
