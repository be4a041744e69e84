import Nasd.Shares.Regenerate

/-!
# Nasd.Shares.Rejected

What an `ApplySMB` that returns an error leaves in `nasd-shares.conf`. The file is replaced before
`testparm` looks at the configuration, so what a later step rejects is live already.

* `ApplySMB_file`            — the file after any `ApplySMB`.
* `ApplySMB_error_keeps_iff` — when an error leaves it as it was.
-/

namespace Nasd
namespace Shares

open Text Go Sys

variable {σ : Type} {O : OS σ} {all : List Share} {h h₁ : Host σ}

/-! ## Files -/

theorem tmpOf_ne (path : Str) : path ≠ tmpOf path := by
  intro heq
  have hlen := congrArg List.length heq
  simp [tmpOf] at hlen

theorem makeFolder_files (s : Share) (h : Host σ) : (makeFolder O s h).2.files = h.files := by
  unfold makeFolder
  dsimp only
  split <;> rfl

theorem applySections_files {b : Str} {n : Nat} :
    (applySections O all b n h).2.files = h.files := by
  induction all generalizing b n h with
  | nil => rfl
  | cons s rest ih =>
    have hmade := makeFolder_files (O := O) s h
    rw [applySections]
    split
    · exact ih
    · split
      · rfl
      · split
        · rename_i heq
          rw [heq] at hmade
          exact hmade
        · rename_i heq
          rw [heq] at hmade
          exact ih.trans hmade

/-- A replacement that fails has touched the temporary file only. -/
theorem writeFileAtomic_error {path content e : Str}
    (herr : (writeFileAtomic O path content h).1 = .error e) :
    (writeFileAtomic O path content h).2.files path = h.files path := by
  have hwritten : (h.tryWrite O (tmpOf path) content).2.files path = h.files path := by
    unfold Host.tryWrite
    dsimp only
    split <;> exact Function.update_of_ne (tmpOf_ne path) ..
  unfold writeFileAtomic at herr ⊢
  cases hwrite : h.tryWrite O (tmpOf path) content with
  | mk r h₁ =>
    rw [hwrite] at hwritten herr
    cases r with
    | error e => exact hwritten
    | ok u =>
      dsimp only at herr ⊢
      unfold Host.tryRename at herr ⊢
      dsimp only at herr ⊢
      split
      · exact hwritten
      · split
        · exact hwritten
        · simp_all

theorem reloadSMB_files {enabled : Nat} : (reloadSMB O enabled h).2.files = h.files := by
  unfold reloadSMB
  dsimp only
  split
  · rfl
  · split
    · split <;> rfl
    · rfl

/-! ## ApplySMB -/

/-- No share is refused, the folders are made and the file is replaced. -/
def Replaced (O : OS σ) (all : List Share) (h h₁ : Host σ) : Prop :=
  (∀ s ∈ all.filter Share.isSMB, ValidShareName s.name = true) ∧
    performs O ((all.filter Share.isSMB).flatMap folderOps ++ replaceOps includePath
      (smbHeader ++ (all.filter Share.isSMB).flatMap sectionText)) h = some h₁

/-- `testparm` accepts the configuration, and the server starts if there is a share. -/
def Serves (O : OS σ) (all : List Share) (h₁ : Host σ) : Prop :=
  ∃ h', performs O (smbServiceOps (all.filter Share.isSMB ≠ [])) h₁ = some h'

/-- Either an error came before the file was replaced, and it is as it was, or it is the new one
and the outcome is that of `testparm` and the server. -/
theorem ApplySMB_file (O : OS σ) (all : List Share) (h : Host σ) :
    ((∀ h₁, ¬ Replaced O all h h₁) ∧ (∃ e, (ApplySMB O all h).1 = .error e) ∧
      (ApplySMB O all h).2.files includePath = h.files includePath) ∨
    ∃ h₁, Replaced O all h h₁ ∧
      (ApplySMB O all h).2.files includePath =
        some (smbHeader ++ (all.filter Share.isSMB).flatMap sectionText) ∧
      ((∃ e, (ApplySMB O all h).1 = .error e) ↔ ¬ Serves O all h₁) := by
  have hfiles : (applySections O all smbHeader 0 h).2.files = h.files := applySections_files
  unfold ApplySMB
  cases hloop : applySections O all smbHeader 0 h with
  | mk r h₂ =>
    rw [hloop] at hfiles
    cases r with
    | error e =>
      refine .inl ⟨?_, ⟨e, rfl⟩, congrFun hfiles includePath⟩
      rintro h₁ ⟨hok, hops⟩
      obtain ⟨h₃, hfolders, -⟩ := performs_append.mp hops
      rw [applySections_ok_iff.mpr ⟨hok, rfl, rfl, hfolders⟩] at hloop
      cases hloop
    | ok out =>
      obtain ⟨b, n⟩ := out
      obtain ⟨hok, rfl, rfl, hfolders⟩ := applySections_ok_iff.mp hloop
      dsimp only
      cases hwrite : writeFileAtomic O includePath
          (smbHeader ++ (all.filter Share.isSMB).flatMap sectionText) h₂ with
      | mk r h₁ =>
        cases r with
        | error e =>
          have hkept := writeFileAtomic_error (congrArg Prod.fst hwrite)
          rw [hwrite] at hkept
          refine .inl ⟨?_, ⟨e, rfl⟩, hkept.trans (congrFun hfiles includePath)⟩
          rintro h₃ ⟨-, hops⟩
          obtain ⟨h₄, hfolders', hreplace⟩ := performs_append.mp hops
          rw [hfolders, Option.some.injEq] at hfolders'
          rw [hfolders', writeFileAtomic_ok_iff.mpr hreplace] at hwrite
          cases hwrite
        | ok u =>
          have hreplace := writeFileAtomic_ok_iff.mp hwrite
          have hpos : decide (0 < 0 + (all.filter Share.isSMB).length) =
              decide (all.filter Share.isSMB ≠ []) := by
            simp only [Nat.zero_add, List.length_pos_iff]
          refine .inr ⟨h₁, ⟨hok, performs_append.mpr ⟨h₂, hfolders, hreplace⟩⟩, ?_, ?_⟩
          · exact (congrFun reloadSMB_files includePath).trans (performs_replace hreplace)
          · simp only [Serves, ← hpos, ← reloadSMB_ok_iff]
            cases hreload : reloadSMB O (0 + (all.filter Share.isSMB).length) h₁ with
            | mk r h' => cases r <;> simp

/-- An error leaves the file as it was exactly when it comes before the file is replaced, or the
file had its new text already. -/
theorem ApplySMB_error_keeps_iff (O : OS σ) (all : List Share) (h : Host σ) :
    ((∃ e, (ApplySMB O all h).1 = .error e) →
      (ApplySMB O all h).2.files includePath = h.files includePath) ↔
    ∀ h₁, Replaced O all h h₁ → Serves O all h₁ ∨
      h.files includePath = some (smbHeader ++ (all.filter Share.isSMB).flatMap sectionText) := by
  rcases ApplySMB_file O all h with ⟨hnone, -, hkept⟩ | ⟨h₁, hreplaced, hfile, herror⟩
  · exact iff_of_true (fun _ => hkept) fun h₁ hreplaced => absurd hreplaced (hnone h₁)
  · have honly : ∀ h₂, Replaced O all h h₂ → h₂ = h₁ := by
      intro h₂ hreplaced₂
      exact Option.some.inj (hreplaced₂.2.symm.trans hreplaced.2)
    rw [hfile, herror]
    constructor
    · intro hkeep h₂ hreplaced₂
      rw [honly h₂ hreplaced₂]
      by_cases hserves : Serves O all h₁
      · exact .inl hserves
      · exact .inr (hkeep hserves).symm
    · intro hcond hno
      exact ((hcond h₁ hreplaced).resolve_left hno).symm

/-- A system on which `testparm` finds fault with the configuration. -/
def strict : OS Unit where
  run c env := (⟨[], [], if c = testparm then some "exit status 1" else none⟩, env)
  write _ _ env := (none, env)
  rename _ _ env := (none, env)

def oldInclude : Str := "# Generato da nasd\n[old]\n"

def oldHost : Host Unit :=
  Host.start () (Function.update (fun _ => none) includePath (some oldInclude))

/-- The rejected file, here one without a share, stays in place of the old one. -/
theorem rejected_stays :
    (ApplySMB strict [] oldHost).1 = .error "configurazione samba non valida: exit status 1" ∧
      (ApplySMB strict [] oldHost).2.files includePath = some smbHeader ∧
      (ApplySMB strict [] oldHost).2.files includePath ≠ oldHost.files includePath := by
  refine ⟨?_, ?_, ?_⟩ <;> decide +kernel

end Shares
end Nasd
