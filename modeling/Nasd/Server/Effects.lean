import Nasd.Lib.Run
import Nasd.Server.Machine

/-!
# Nasd.Server.Effects

What an event of the server does to the two stores. `step_effect` is the one case analysis of the
step; the other lemmas here follow from it.

* `step_sessions`  — a session in the store was just issued, or was there and not logged out.
* `session_origin` — it goes back to a login of the run, with no logout of it since.
* `step_rows`      — an account keeps its name and role until it is deleted.
-/

namespace Nasd
namespace Server

open Text Machine

variable {ω : Type} {A : App ω} {s : State ω} {e : Event} {token : Str} {sess : Session}

/-! ## What an event does -/

/-- The event is a login that succeeds and issues this session. -/
def Issues (A : App ω) (s : State ω) (e : Event) (token : Str) (sess : Session) : Prop :=
  ∃ r d ep params ctx req u, e = .request r d ∧ reach A s r = .ok (ep, params, ctx) ∧
    ep.handler = .authLogin ∧ r.body.login = some req ∧
    s.accounts.lookup req.Username = some u ∧ A.CheckPassword u.passwordHash req.Password = true ∧
    token = d.token ∧ sess = ⟨d.token, req.Username, u.isAdmin, d.csrf, s.now + s.store.ttl⟩

/-- The event is a logout of the session with this token. -/
def LogsOut (A : App ω) (s : State ω) (e : Event) (token : Str) : Prop :=
  ∃ r d ep params sess, e = .request r d ∧ reach A s r = .ok (ep, params, some sess) ∧
    ep.handler = .authLogout ∧ sess.Token = token

/-- The event deletes the account of this name. -/
def Deletes (A : App ω) (s : State ω) (e : Event) (username : Str) : Prop :=
  ∃ r d ep params ctx, e = .request r d ∧ reach A s r = .ok (ep, params, ctx) ∧
    ep.handler = .userDelete ∧ params "username" = username

/-- What an event leaves in the two stores. -/
inductive Effect (A : App ω) (s : State ω) (e : Event) (s' : State ω) : Prop where
  | none (ha : s'.accounts = s.accounts) (hs : s'.store = s.store)
  | login (token : Str) (sess : Session) (hi : Issues A s e token sess)
      (ha : s'.accounts = s.accounts)
      (hs : s'.store = { s.store with
        sessions := Function.update s.store.sessions token (some sess) })
  | logout (token : Str) (hl : LogsOut A s e token) (ha : s'.accounts = s.accounts)
      (hs : s'.store = s.store.Delete token)
  | gc (ha : s'.accounts = s.accounts) (hs : s'.store = s.store.gc s.now)
  | insert (u : AppUser) (ha : s.accounts.insert u = some s'.accounts) (hs : s'.store = s.store)
  | setHash (username hash : Str) (ha : s'.accounts = s.accounts.setHash username hash)
      (hs : s'.store = s.store)
  | delete (username : Str) (hd : Deletes A s e username)
      (ha : s'.accounts = s.accounts.delete username) (hs : s'.store = s.store)

theorem login_effect {r : Request} {d : Draw} {ep : Endpoint} {params : Str → Str}
    {ctx : Option Session} (hreach : reach A s r = .ok (ep, params, ctx))
    (hh : ep.handler = .authLogin) : Effect A s (.request r d) (login A r d s).2 := by
  unfold login
  split
  · exact .none rfl rfl
  · rename_i req hreq
    split
    · exact .none rfl rfl
    · rename_i u hu
      split
      · rename_i hcheck
        exact .login _ _ ⟨r, d, ep, params, ctx, req, u, rfl, hreach, hh, hreq, hu, hcheck, rfl, rfl⟩
          rfl rfl
      · exact .none rfl rfl

theorem create_effect {r : Request} {d : Draw} : Effect A s (.request r d) (create A r d s).2 := by
  simp only [create]
  split
  · exact .none rfl rfl
  · split
    · exact .none rfl rfl
    · split
      · exact .none rfl rfl
      · split
        · exact .none rfl rfl
        · rename_i accounts hins
          exact .insert _ hins rfl

theorem setPassword_effect {r : Request} {d : Draw} {username : Str} :
    Effect A s (.request r d) (setPassword A r d username s).2 := by
  simp only [setPassword]
  split
  · exact .none rfl rfl
  · split
    · exact .none rfl rfl
    · split
      · exact .none rfl rfl
      · split
        · exact .none rfl rfl
        · exact .setHash _ _ rfl rfl

theorem handle_effect {r : Request} {d : Draw} {ep : Endpoint} {params : Str → Str}
    {ctx : Option Session} (hreach : reach A s r = .ok (ep, params, ctx)) :
    Effect A s (.request r d) (handle A r d ep.handler params ctx s).2 := by
  unfold handle
  split
  · rename_i hh; exact login_effect hreach hh
  · rename_i hh
    cases ctx with
    | none => exact .none rfl rfl
    | some sess => exact .logout _ ⟨r, d, ep, params, sess, rfl, hreach, hh, rfl⟩ rfl rfl
  · cases ctx <;> exact .none rfl rfl
  · exact .none rfl rfl
  · exact create_effect
  · exact setPassword_effect
  · rename_i hh; exact .delete _ ⟨r, d, ep, params, ctx, rfl, hreach, hh, rfl⟩ rfl rfl
  · exact .none rfl rfl

theorem step_effect (A : App ω) (s : State ω) (e : Event) : Effect A s e (step A s e) := by
  cases e with
  | request r d =>
    simp only [step, serve]
    split
    · exact .none rfl rfl
    · rename_i ep params ctx hreach; exact handle_effect hreach
  | gc => exact .gc rfl rfl
  | tick n => exact .none rfl rfl

/-! ## Sessions -/

theorem logout_store (hl : LogsOut A s e token) : (step A s e).store = s.store.Delete token := by
  obtain ⟨r, d, ep, params, sess, rfl, hreach, hh, rfl⟩ := hl
  simp only [step, serve, hreach, handle, hh, logout]

/-- A session in the store was just issued, or was there and not logged out. -/
theorem step_sessions (h : (step A s e).store.sessions token = some sess) :
    Issues A s e token sess ∨ (s.store.sessions token = some sess ∧ ¬ LogsOut A s e token) := by
  by_cases hl : LogsOut A s e token
  · rw [logout_store hl] at h
    exact absurd rfl (SessionStore.sessions_Delete h).1
  · cases step_effect A s e with
    | none _ hs => rw [hs] at h; exact .inr ⟨h, hl⟩
    | login tok sess' hi _ hs =>
      rw [hs] at h
      by_cases htok : token = tok
      · subst htok
        simp only [Function.update_self, Option.some.injEq] at h
        subst h
        exact .inl hi
      · simp only [Function.update_of_ne htok] at h
        exact .inr ⟨h, hl⟩
    | logout tok _ _ hs => rw [hs] at h; exact .inr ⟨(SessionStore.sessions_Delete h).2, hl⟩
    | gc _ hs => rw [hs] at h; exact .inr ⟨SessionStore.sessions_gc h, hl⟩
    | insert _ _ hs => rw [hs] at h; exact .inr ⟨h, hl⟩
    | setHash _ _ _ hs => rw [hs] at h; exact .inr ⟨h, hl⟩
    | delete _ _ _ hs => rw [hs] at h; exact .inr ⟨h, hl⟩

/-- A session in the store goes back to a login, with no logout of it since. -/
theorem session_origin {accounts : Accounts} {ttl now : Nat} {world : ω} {es : List Event}
    (h : (run (step A) (.start accounts ttl now world) es).store.sessions token = some sess) :
    ∃ pre e post, es = pre ++ e :: post ∧
      Issues A (run (step A) (.start accounts ttl now world) pre) e token sess ∧
      Guarded (step A) (fun s e => ¬ LogsOut A s e token)
        (run (step A) (.start accounts ttl now world) (pre ++ [e])) post := by
  have horigin := @run_origin (State ω) Event (Str × Session) (step A)
    (fun s a => s.store.sessions a.1 = some a.2) (fun s e a => Issues A s e a.1 a.2)
    (fun s e a => ¬ LogsOut A s e a.1) (fun _ _ _ hstep => step_sessions hstep)
    (.start accounts ttl now world) (token, sess) es h
  rcases horigin with ⟨hstart, -⟩ | hborn
  · cases hstart
  · exact hborn

/-! ## Accounts and time -/

theorem Issues.not_deletes (hi : Issues A s e token sess) {username : Str} :
    ¬ Deletes A s e username := by
  obtain ⟨r, d, ep, params, ctx, req, u, rfl, hreach, hh, -⟩ := hi
  rintro ⟨r', d', ep', params', ctx', he, hreach', hh', -⟩
  cases he
  rw [hreach] at hreach'
  cases hreach'
  rw [hh] at hh'
  cases hh'

/-- A row keeps its name and its role through every event but its deletion. -/
theorem step_rows {u : AppUser} (hu : u ∈ s.accounts.rows) :
    Deletes A s e u.username ∨ ∃ u' ∈ (step A s e).accounts.rows,
      u'.username = u.username ∧ u'.isAdmin = u.isAdmin := by
  cases step_effect A s e with
  | none ha _ => rw [ha]; exact .inr ⟨u, hu, rfl, rfl⟩
  | login _ _ _ ha _ => rw [ha]; exact .inr ⟨u, hu, rfl, rfl⟩
  | logout _ _ ha _ => rw [ha]; exact .inr ⟨u, hu, rfl, rfl⟩
  | gc ha _ => rw [ha]; exact .inr ⟨u, hu, rfl, rfl⟩
  | insert v ha _ => exact .inr ⟨u, Accounts.mem_insert ha hu, rfl, rfl⟩
  | setHash username hash ha _ => rw [ha]; exact .inr (Accounts.mem_setHash hu)
  | delete username hd ha _ =>
    by_cases hname : u.username = username
    · subst hname; exact .inl hd
    · rw [ha]; exact .inr ⟨u, Accounts.mem_delete.mpr ⟨hu, hname⟩, rfl, rfl⟩

theorem handle_now {r : Request} {d : Draw} {h : Handler} {params : Str → Str} {ctx : Option Session} :
    (handle A r d h params ctx s).2.now = s.now := by
  unfold handle
  split
  · unfold login
    repeat' split
    all_goals rfl
  · cases ctx <;> rfl
  · cases ctx <;> rfl
  · rfl
  · simp only [create]
    repeat' split
    all_goals rfl
  · simp only [setPassword]
    repeat' split
    all_goals rfl
  · rfl
  · rfl

theorem step_now : s.now ≤ (step A s e).now := by
  cases e with
  | request r d =>
    simp only [step, serve]
    split
    · exact Nat.le_refl _
    · rw [handle_now]
  | gc => exact Nat.le_refl _
  | tick n => exact Nat.le_add_right _ _

/-- A session admitted after an event was just issued, or was admitted before. -/
theorem step_admitted (h : (step A s e).store.Get token (step A s e).now = some sess) :
    Issues A s e token sess ∨ s.store.Get token s.now = some sess := by
  obtain ⟨hsess, hexp⟩ := SessionStore.Get_eq_some.mp h
  have hnow := step_now (A := A) (s := s) (e := e)
  rcases step_sessions hsess with hi | ⟨hold, -⟩
  · exact .inl hi
  · exact .inr (SessionStore.Get_eq_some.mpr ⟨hold, by omega⟩)

end Server
end Nasd
