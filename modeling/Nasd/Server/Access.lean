import Nasd.Server.Effects

/-!
# Nasd.Server.Access

Requests that change the system, or that get to a route for administrators only.

* `privileged_shows`       — what such a request carries, in the state it is served in.
* `privileged_needs_login` — and where that comes from, in any run of the server.
-/

namespace Nasd
namespace Server

open Text Machine

variable {ω : Type} {A : App ω} {s : State ω}

/-! ## Privileged requests -/

/-- The request changes accounts, or the rest of the system: users, shares, arrays, files, media
directories, services, power. -/
def Mutates (A : App ω) (s : State ω) (r : Request) (d : Draw) : Prop :=
  (serve A r d s).2.accounts.rows ≠ s.accounts.rows ∨ (serve A r d s).2.world ≠ s.world

/-- The request gets to the handler of a route that is for administrators only. -/
def ReachesAdminRoute (A : App ω) (s : State ω) (r : Request) : Prop :=
  ∃ ep params ctx, reach A s r = .ok (ep, params, ctx) ∧ .requireAdmin ∈ ep.middlewares

variable {r : Request} {d : Draw}

theorem login_unprivileged :
    (login A r d s).2.accounts = s.accounts ∧ (login A r d s).2.world = s.world := by
  unfold login
  split
  · exact ⟨rfl, rfl⟩
  · split
    · exact ⟨rfl, rfl⟩
    · split <;> exact ⟨rfl, rfl⟩

theorem handle_unprivileged {h : Handler} {params : Str → Str} {ctx : Option Session}
    (hm : h.mutates = false) : (handle A r d h params ctx s).2.accounts = s.accounts ∧
      (handle A r d h params ctx s).2.world = s.world := by
  unfold handle
  split
  · exact login_unprivileged
  · cases ctx <;> exact ⟨rfl, rfl⟩
  · cases ctx <;> exact ⟨rfl, rfl⟩
  · exact ⟨rfl, rfl⟩
  · cases hm
  · cases hm
  · cases hm
  · exact ⟨rfl, A.reads _ _ _ hm⟩

theorem Mutates.reaches (hm : Mutates A s r d) :
    ∃ ep params ctx, reach A s r = .ok (ep, params, ctx) ∧ ep.handler.mutates = true := by
  unfold Mutates serve at hm
  split at hm
  · simp at hm
  · rename_i ep params ctx hreach
    refine ⟨ep, params, ctx, hreach, ?_⟩
    by_contra hread
    rw [Bool.not_eq_true] at hread
    have hsame : (handle A r d ep.handler params ctx s).2.accounts = s.accounts ∧
        (handle A r d ep.handler params ctx s).2.world = s.world := handle_unprivileged hread
    rw [hsame.1, hsame.2] at hm
    simp at hm

theorem reach_endpoint {ep : Endpoint} {params : Str → Str} {ctx : Option Session}
    (h : reach A s r = .ok (ep, params, ctx)) :
    ep ∈ NewRouter ∧ ep.method = r.method ∧ passes A s r ep.middlewares none = .ok ctx := by
  unfold reach at h
  split at h
  · cases h
  · rename_i ep' params' hfind
    split at h
    · cases h
    · rename_i ctx' hpass
      cases h
      exact ⟨A.router.registered _ _ _ _ hfind, A.router.sameMethod _ _ _ _ hfind, hpass⟩

/-- A privileged request carries the token of an admitted session of an administrator, and its
CSRF token unless it is a `GET`. -/
theorem privileged_shows (h : Mutates A s r d ∨ ReachesAdminRoute A s r) :
    ∃ token sess, r.cookie = some token ∧ s.store.Get token s.now = some sess ∧
      sess.IsAdmin = true ∧
      (A.csrfEnabled = true → r.method ≠ .get → r.csrfHeader = sess.CSRFToken) := by
  have hguarded : ∃ ep params ctx, reach A s r = .ok (ep, params, ctx) ∧
      (ep.handler.mutates = true ∨ .requireAdmin ∈ ep.middlewares) := by
    rcases h with hm | ⟨ep, params, ctx, hreach, hadmin⟩
    · obtain ⟨ep, params, ctx, hreach, hmut⟩ := hm.reaches
      exact ⟨ep, params, ctx, hreach, .inl hmut⟩
    · exact ⟨ep, params, ctx, hreach, .inr hadmin⟩
  obtain ⟨ep, params, ctx, hreach, hpriv⟩ := hguarded
  obtain ⟨hmem, hmethod, hpass⟩ := reach_endpoint hreach
  rw [router_guarded ep hmem hpriv] at hpass
  obtain ⟨token, sess, hcookie, hget, hadmin, hcsrf⟩ := passes_guarded hpass
  obtain ⟨hhead, hoptions⟩ := router_methods ep hmem
  rw [hmethod] at hhead hoptions
  exact ⟨token, sess, hcookie, hget, hadmin, fun hon hnot => hcsrf hon hnot hhead hoptions⟩

/-- The request carries the token of a session that an earlier login of an administrator issued,
that has not been logged out since and has not expired, and its CSRF token unless it is a `GET`. -/
def Authorized (A : App ω) (s₀ : State ω) (es : List Event) (r : Request) : Prop :=
  ∃ token sess pre e post, r.cookie = some token ∧ es = pre ++ e :: post ∧
    Issues A (run (step A) s₀ pre) e token sess ∧
    (∃ u, (run (step A) s₀ pre).accounts.lookup sess.Username = some u ∧ u.isAdmin = true) ∧
    Guarded (step A) (fun s e => ¬ LogsOut A s e token) (run (step A) s₀ (pre ++ [e])) post ∧
    (run (step A) s₀ es).now ≤ sess.ExpiresAt ∧
    (r.method ≠ .get → r.csrfHeader = sess.CSRFToken)

/-- In every run from an empty session store, privileged requests are authorized. -/
theorem privileged_needs_login (A : App ω) (hcsrf : A.csrfEnabled = true) (accounts : Accounts)
    (ttl now : Nat) (world : ω) (es : List Event) (r : Request) (d : Draw)
    (h : Mutates A (run (step A) (.start accounts ttl now world) es) r d ∨
      ReachesAdminRoute A (run (step A) (.start accounts ttl now world) es) r) :
    Authorized A (.start accounts ttl now world) es r := by
  obtain ⟨token, sess, hcookie, hget, hadmin, hheader⟩ := privileged_shows h
  obtain ⟨hsess, hexp⟩ := SessionStore.Get_eq_some.mp hget
  obtain ⟨pre, e, post, hes, hissues, hkept⟩ := session_origin hsess
  refine ⟨token, sess, pre, e, post, hcookie, hes, hissues, ?_, hkept, hexp, hheader hcsrf⟩
  obtain ⟨_, _, _, _, _, _, u, -, -, -, -, hu, -, -, rfl⟩ := hissues
  exact ⟨u, hu, hadmin⟩

/-! ## A small server -/

/-- Passwords are stored as they are, and the rest of the system counts its changes. -/
def demo : App Nat where
  csrfEnabled := true
  router := .bySegments
  CheckPassword hash password := hash = password
  handle h _ n := if h.mutates then n + 1 else n
  reads h _ _ hm := by simp [hm]

def demoAccounts : Accounts where
  rows := [⟨"admin", "secret", true⟩, ⟨"bob", "pass", false⟩]
  unique := by decide

def demoStart : State Nat := .start demoAccounts 100 0 0

def demoLogin (username password token csrf : Str) : Event :=
  .request ⟨.post, "/api/auth/login", none, [], ⟨some ⟨username, password⟩, none, none⟩⟩
    ⟨token, csrf, none, none⟩

def noDraw : Draw := ⟨[], [], none, none⟩

def reboot : Request :=
  ⟨.post, "/api/admin/reboot", some "t", "c", ⟨none, none, none⟩⟩

theorem privileged_needs_login_reboot :
    Mutates demo (run (step demo) demoStart [demoLogin "admin" "secret" "t" "c"]) reboot noDraw ∧
      Authorized demo demoStart [demoLogin "admin" "secret" "t" "c"] reboot := by
  have hreboot : Mutates demo (run (step demo) demoStart [demoLogin "admin" "secret" "t" "c"]) reboot
      noDraw := .inr (by decide)
  exact ⟨hreboot, privileged_needs_login demo rfl demoAccounts 100 0 0 _ reboot noDraw (.inl hreboot)⟩

end Server
end Nasd
