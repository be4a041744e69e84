import Nasd.Server.Access

/-!
# Nasd.Server.Revocation

Sessions against the accounts they were issued to. The role is copied into the session at login,
and deleting an account leaves its sessions alone.

* `step_linked`                 — every event but such a deletion keeps sessions and accounts linked.
* `access_follows_accounts_iff` — in which runs access ends with the account.
-/

namespace Nasd
namespace Server

open Text Machine

variable {ω : Type} {A : App ω} {s : State ω} {e : Event}

/-- Every admitted session has its account, and every admitted administrator an account that is
one. -/
def AccessFollowsAccounts (s : State ω) : Prop :=
  ∀ token sess, s.store.Get token s.now = some sess →
    (∃ u ∈ s.accounts.rows, u.username = sess.Username) ∧
    (sess.IsAdmin = true → ∃ u ∈ s.accounts.rows, u.username = sess.Username ∧ u.isAdmin = true)

/-- Every admitted session has an account of its role. -/
def Linked (s : State ω) : Prop :=
  ∀ token sess, s.store.Get token s.now = some sess →
    ∃ u ∈ s.accounts.rows, u.username = sess.Username ∧ u.isAdmin = sess.IsAdmin

/-- The event does not delete an account that has an admitted session. -/
def NoOpenSession (A : App ω) (s : State ω) (e : Event) : Prop :=
  ∀ username, Deletes A s e username →
    ∀ token sess, s.store.Get token s.now = some sess → sess.Username ≠ username

theorem Linked.access (h : Linked s) : AccessFollowsAccounts s := by
  intro token sess hget
  obtain ⟨u, hu, hname, hrole⟩ := h token sess hget
  exact ⟨⟨u, hu, hname⟩, fun hadmin => ⟨u, hu, hname, hrole.trans hadmin⟩⟩

theorem step_linked (hl : Linked s) (hg : NoOpenSession A s e) : Linked (step A s e) := by
  intro token sess hget
  have hbefore : ∃ u ∈ s.accounts.rows, u.username = sess.Username ∧ u.isAdmin = sess.IsAdmin ∧
      ¬ Deletes A s e u.username := by
    rcases step_admitted hget with hi | hold
    · have hnot : ∀ name, ¬ Deletes A s e name := fun _ => hi.not_deletes
      obtain ⟨r, d, ep, params, ctx, req, u, rfl, -, -, -, hu, -, rfl, rfl⟩ := hi
      obtain ⟨hmem, hname⟩ := Accounts.mem_of_lookup hu
      exact ⟨u, hmem, hname, rfl, hnot _⟩
    · obtain ⟨u, hu, hname, hrole⟩ := hl token sess hold
      exact ⟨u, hu, hname, hrole, fun hd => hg _ hd token sess hold hname.symm⟩
  obtain ⟨u, hu, hname, hrole, hnot⟩ := hbefore
  rcases step_rows (A := A) (e := e) hu with hd | ⟨u', hu', hname', hrole'⟩
  · exact absurd hd hnot
  · exact ⟨u', hu', hname'.trans hname, hrole'.trans hrole⟩

theorem delete_step {username : Str} (hd : Deletes A s e username) :
    (step A s e).accounts = s.accounts.delete username ∧ (step A s e).store = s.store ∧
      (step A s e).now = s.now := by
  obtain ⟨r, d, ep, params, ctx, rfl, hreach, hh, rfl⟩ := hd
  simp [step, serve, hreach, handle, hh, delete]

/-- Deleting an account with an admitted session leaves a session without an account. -/
theorem step_access_guard (h : AccessFollowsAccounts (step A s e)) : NoOpenSession A s e := by
  intro username hd token sess hget hname
  obtain ⟨ha, hs, hn⟩ := delete_step hd
  obtain ⟨⟨u, hu, huname⟩, -⟩ := h token sess (by rw [hs, hn]; exact hget)
  rw [ha] at hu
  exact (Accounts.mem_delete.mp hu).2 (huname.trans hname)

/-- Along a run from an empty session store, access follows the accounts in every state exactly
when no account is deleted while it has an admitted session. -/
theorem access_follows_accounts_iff (A : App ω) (accounts : Accounts) (ttl now : Nat) (world : ω)
    (es : List Event) :
    Always (step A) AccessFollowsAccounts (.start accounts ttl now world) es ↔
      Guarded (step A) (NoOpenSession A) (.start accounts ttl now world) es := by
  refine always_iff_guarded (I := Linked) (fun s e hl hg => step_linked hl hg)
    (fun s hl => hl.access) (fun s e _ h => step_access_guard h) ?_
  intro token sess hget
  cases (SessionStore.Get_eq_some.mp hget).1

def deleteBob : Event :=
  .request ⟨.delete, "/api/users/bob", some "t", "c", ⟨none, none, none⟩⟩ noDraw

/-- Bob's session outlives his account. -/
theorem deleted_user_keeps_access :
    ¬ Always (step demo) AccessFollowsAccounts demoStart
      [demoLogin "bob" "pass" "b" "x", demoLogin "admin" "secret" "t" "c", deleteBob] := by
  rintro ⟨-, -, -, hlast⟩
  obtain ⟨⟨u, hu, hname⟩, -⟩ := hlast "b" ⟨"b", "bob", false, "x", 100⟩ (by decide)
  revert u
  decide

end Server
end Nasd
