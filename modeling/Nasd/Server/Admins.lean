import Nasd.Server.Revocation

/-!
# Nasd.Server.Admins

Whether an account with `is_admin = 1` is left. The page of the users refuses to delete the only
administrator (`DeleteUserModal` in `app.js`), from the list that it loaded; the handler deletes
whatever name it is given.

* `enabled_iff_keepsAdmin` — on the current list the dialog offers the deletions that leave one.
* `keeps_admin_iff`        — the runs in which there is always one.
-/

namespace Nasd
namespace Server

open Text Machine

variable {ω : Type} {A : App ω} {s : State ω} {e : Event} {a : Accounts} {u : AppUser}

namespace Accounts

def HasAdmin (a : Accounts) : Prop := ∃ u ∈ a.rows, u.isAdmin = true

/-- Another administrator than the one of this name. -/
def OtherAdmin (username : Str) (a : Accounts) : Prop :=
  ∃ u ∈ a.rows, u.isAdmin = true ∧ u.username ≠ username

theorem hasAdmin_delete {username : Str} :
    (a.delete username).HasAdmin ↔ a.OtherAdmin username := by
  simp only [HasAdmin, OtherAdmin, mem_delete]
  constructor
  · rintro ⟨u, ⟨hu, hname⟩, hadmin⟩; exact ⟨u, hu, hadmin, hname⟩
  · rintro ⟨u, hu, hadmin, hname⟩; exact ⟨u, ⟨hu, hname⟩, hadmin⟩

theorem eq_of_username {v : AppUser} (hu : u ∈ a.rows) (hv : v ∈ a.rows)
    (h : u.username = v.username) : u = v :=
  List.inj_on_of_nodup_map a.unique hu hv h

end Accounts

/-! ## The dialog -/

inductive Role where
  | Admin | User
  deriving DecidableEq

/-- A user as the page keeps it. -/
structure PageUser where
  username : Str
  role : Role
  deriving DecidableEq

def mapAPIUser (u : AppUser) : PageUser := ⟨u.username, if u.isAdmin then .Admin else .User⟩

def adminCount (users : List PageUser) : Nat := (users.filter fun u => u.role = .Admin).length

/-- The button of `DeleteUserModal` is disabled. -/
def isOnlyAdmin (users : List PageUser) (user : PageUser) : Bool :=
  user.role = .Admin && adminCount users ≤ 1

theorem mapAPIUser_role : (mapAPIUser u).role = .Admin ↔ u.isAdmin = true := by
  cases hadmin : u.isAdmin <;> simp [mapAPIUser, hadmin]

theorem adminCount_map (rows : List AppUser) :
    adminCount (rows.map mapAPIUser) = (rows.filter AppUser.isAdmin).length := by
  unfold adminCount
  rw [List.filter_map, List.length_map]
  congr 1
  apply List.filter_congr
  intro u _
  cases hadmin : u.isAdmin <;> simp [mapAPIUser, hadmin]

/-- The administrators are at most one when they all have one name. -/
theorem length_le_one (hall : ∀ v ∈ a.rows, v.isAdmin = true → v.username = u.username) :
    (a.rows.filter AppUser.isAdmin).length ≤ 1 := by
  have hnodup : (a.rows.filter AppUser.isAdmin).Nodup :=
    (List.Nodup.of_map _ a.unique).filter _
  have hsame : ∀ v ∈ a.rows.filter AppUser.isAdmin, ∀ w ∈ a.rows.filter AppUser.isAdmin, v = w := by
    intro v hv w hw
    obtain ⟨hv, hvadmin⟩ := List.mem_filter.mp hv
    obtain ⟨hw, hwadmin⟩ := List.mem_filter.mp hw
    exact Accounts.eq_of_username hv hw ((hall v hv hvadmin).trans (hall w hw hwadmin).symm)
  cases hrows : a.rows.filter AppUser.isAdmin with
  | nil => exact Nat.zero_le _
  | cons v vs =>
    cases vs with
    | nil => exact Nat.le_refl _
    | cons w vs =>
      rw [hrows] at hnodup hsame
      have heq : v = w := hsame v (by simp) w (by simp)
      simp [heq] at hnodup

/-- On the list of the current accounts, the dialog offers exactly the deletions after which an
administrator is left. -/
theorem enabled_iff_keepsAdmin (hadmin : a.HasAdmin) (hu : u ∈ a.rows) :
    isOnlyAdmin (a.rows.map mapAPIUser) (mapAPIUser u) = false ↔ a.OtherAdmin u.username := by
  simp only [isOnlyAdmin, Bool.and_eq_false_iff, decide_eq_false_iff_not, mapAPIUser_role,
    adminCount_map, Nat.not_le]
  constructor
  · rintro (hrole | hcount)
    · obtain ⟨v, hv, hvadmin⟩ := hadmin
      refine ⟨v, hv, hvadmin, ?_⟩
      intro hname
      rw [Accounts.eq_of_username hv hu hname] at hvadmin
      exact hrole hvadmin
    · by_contra hnone
      have hall : ∀ v ∈ a.rows, v.isAdmin = true → v.username = u.username := by
        intro v hv hvadmin
        by_contra hname
        exact hnone ⟨v, hv, hvadmin, hname⟩
      have hle := length_le_one hall
      omega
  · rintro ⟨v, hv, hvadmin, hname⟩
    by_cases hrole : u.isAdmin = true
    · right
      have hmem : ∀ w : AppUser, w ∈ a.rows → w.isAdmin = true → w ∈ a.rows.filter AppUser.isAdmin :=
        fun w hw hwadmin => List.mem_filter.mpr ⟨hw, hwadmin⟩
      by_contra hcount
      have hlen : (a.rows.filter AppUser.isAdmin).length = 1 := by
        have hpos := List.length_pos_of_mem (hmem v hv hvadmin)
        omega
      obtain ⟨w, hw⟩ := List.length_eq_one_iff.mp hlen
      have hvw := hmem v hv hvadmin
      have huw := hmem u hu hrole
      rw [hw, List.mem_singleton] at hvw huw
      exact hname (by rw [hvw, huw])
    · exact .inl hrole

/-! ## Runs -/

/-- The event does not delete the only administrator. -/
def KeepsAdmin (A : App ω) (s : State ω) (e : Event) : Prop :=
  ∀ username, Deletes A s e username → s.accounts.OtherAdmin username

theorem step_hasAdmin (h : s.accounts.HasAdmin) (hg : KeepsAdmin A s e) :
    (step A s e).accounts.HasAdmin := by
  obtain ⟨u, hu, hadmin⟩ := h
  rcases step_rows (A := A) (e := e) hu with hd | ⟨u', hu', -, hrole⟩
  · rw [(delete_step hd).1, Accounts.hasAdmin_delete]
    exact hg _ hd
  · exact ⟨u', hu', hrole.trans hadmin⟩

/-- From accounts with an administrator, there is one in every state of a run exactly when no
request of it deletes the only one. -/
theorem keeps_admin_iff (A : App ω) (s : State ω) (hadmin : s.accounts.HasAdmin)
    (es : List Event) :
    Always (step A) (·.accounts.HasAdmin) s es ↔ Guarded (step A) (KeepsAdmin A) s es := by
  refine always_iff_guarded (I := fun s : State ω => s.accounts.HasAdmin)
    (fun s e h hg => step_hasAdmin h hg) (fun s h => h) ?_ hadmin
  intro s e _ hafter username hd
  rwa [(delete_step hd).1, Accounts.hasAdmin_delete] at hafter

/-! ## Two administrators at once -/

def twoAdmins : Accounts where
  rows := [⟨"anna", "a", true⟩, ⟨"ugo", "u", true⟩]
  unique := by decide

def deleteAs (token csrf username : Str) : Event :=
  .request ⟨.delete, "/api/users/" ++ username, some token, csrf, ⟨none, none, none⟩⟩ noDraw

/-- Anna and Ugo each load the list of the two of them, on which the dialog lets each delete the
other; after the second request nobody is an administrator. -/
theorem both_admins_deleted :
    isOnlyAdmin (twoAdmins.rows.map mapAPIUser) (mapAPIUser ⟨"ugo", "u", true⟩) = false ∧
    isOnlyAdmin (twoAdmins.rows.map mapAPIUser) (mapAPIUser ⟨"anna", "a", true⟩) = false ∧
    ¬ Always (step demo) (·.accounts.HasAdmin) (.start twoAdmins 100 0 0)
      [demoLogin "anna" "a" "t" "c", demoLogin "ugo" "u" "v" "d",
        deleteAs "t" "c" "ugo", deleteAs "v" "d" "anna"] := by
  refine ⟨by decide, by decide, ?_⟩
  rintro ⟨-, -, -, -, u, hu, -⟩
  revert u
  decide

theorem keeps_admin_iff_anna :
    twoAdmins.HasAdmin ∧
    (Always (step demo) (·.accounts.HasAdmin) (.start twoAdmins 100 0 0)
        [demoLogin "anna" "a" "t" "c", deleteAs "t" "c" "ugo"] ↔
      Guarded (step demo) (KeepsAdmin demo) (.start twoAdmins 100 0 0)
        [demoLogin "anna" "a" "t" "c", deleteAs "t" "c" "ugo"]) := by
  have hadmin : twoAdmins.HasAdmin := ⟨⟨"anna", "a", true⟩, by decide, rfl⟩
  exact ⟨hadmin, keeps_admin_iff demo (.start twoAdmins 100 0 0) hadmin _⟩

end Server
end Nasd
