import Nasd.Server.Browser

/-!
# Nasd.Server.Answers

What the answer to a request says of the request and of the server.

* `serve_session`      — a session in an answer is the one just issued, or that of the cookie.
* `serve_csrf_invalid` — a request is refused for its token only when it carries another one than
  the session of its cookie.
* `serve_signsIn`      — the callers of `api.me` and `api.login` get an error or a session.
-/

namespace Nasd
namespace Server
namespace Browser

open Text Machine

variable {ω : Type} {A : App ω} {s : State ω} {r : Request} {d : Draw} {sess : Session}

/-! ## Middlewares -/

theorem router_chains : ∀ e ∈ NewRouter, e.middlewares = [] ∨ e.middlewares = [.auth, .csrf] ∨
    e.middlewares = [.auth, .csrf, .requireAdmin] := by
  decide

theorem router_me : ∀ e ∈ NewRouter, e.handler = .authMe → e.middlewares = [.auth, .csrf] := by
  decide

/-! ## Sessions in answers -/

theorem create_not_session : (create A r d s).1 ≠ .session sess := by
  simp only [create]
  repeat' split
  all_goals simp

theorem setPassword_not_session {username : Str} :
    (setPassword A r d username s).1 ≠ .session sess := by
  simp only [setPassword]
  repeat' split
  all_goals simp

theorem login_session (h : (login A r d s).1 = .session sess) :
    sess.Token = d.token ∧ sess.CSRFToken = d.csrf ∧
      (login A r d s).2.store.sessions d.token = some sess := by
  unfold login at h ⊢
  split at h
  · cases h
  · split at h
    · cases h
    · split at h
      · rename_i hcheck
        cases h
        simp [hcheck, SessionStore.Create]
      · cases h

theorem passes_error {ms : List Middleware} {ctx : Option Session} {reply : Reply}
    (h : passes A s r ms ctx = .error reply) : ∃ status msg, reply = .error status msg := by
  induction ms generalizing ctx with
  | nil => cases h
  | cons m ms ih =>
    cases m with
    | auth =>
      simp only [passes] at h
      split at h
      · cases h; exact ⟨_, _, rfl⟩
      · split at h
        · cases h; exact ⟨_, _, rfl⟩
        · exact ih h
    | requireAdmin =>
      simp only [passes] at h
      split at h
      · cases h; exact ⟨_, _, rfl⟩
      · split at h
        · exact ih h
        · cases h; exact ⟨_, _, rfl⟩
    | csrf =>
      simp only [passes] at h
      split at h
      · exact ih h
      · split at h
        · cases h; exact ⟨_, _, rfl⟩
        · split at h
          · cases h; exact ⟨_, _, rfl⟩
          · exact ih h

theorem reach_error {reply : Reply} (h : reach A s r = .error reply) :
    reply = .status 200 "index.html" ∨ ∃ status msg, reply = .error status msg := by
  unfold reach at h
  split at h
  · cases h; exact .inl rfl
  · split at h
    · rename_i hpass; cases h; exact .inr (passes_error hpass)
    · cases h

/-- A session in an answer was just issued, together with its cookie, or is the one that the cookie
of the request names. -/
theorem serve_session (h : (serve A r d s).1 = .session sess) :
    (sess.Token = d.token ∧ sess.CSRFToken = d.csrf ∧
      (serve A r d s).2.store.sessions d.token = some sess ∧
      setCookie A s r (.session sess) = some (some d.token)) ∨
    ∃ t, r.cookie = some t ∧ s.store.Get t s.now = some sess ∧
      setCookie A s r (.session sess) = none := by
  unfold serve at h ⊢
  split at h
  · rename_i reply hreach
    rcases reach_error hreach with rfl | ⟨_, _, rfl⟩ <;> cases h
  · rename_i ep params ctx hreach
    obtain ⟨hmem, -, hpass⟩ := reach_endpoint hreach
    unfold handle at h ⊢
    split at h
    · rename_i hh
      obtain ⟨htoken, hcsrf, hstored⟩ := login_session h
      exact .inl ⟨htoken, hcsrf, hstored, by simp only [setCookie, hreach, hh, htoken]⟩
    · cases ctx <;> cases h
    · rename_i hh
      rw [router_me ep hmem hh] at hpass
      obtain ⟨t, sess', hcookie, hget, hpass⟩ := passes_auth hpass
      obtain ⟨-, hctx⟩ := passes_csrf hpass
      cases hctx
      cases h
      exact .inr ⟨t, hcookie, hget, by simp only [setCookie, hreach, hh]⟩
    · cases h
    · exact absurd h create_not_session
    · exact absurd h setPassword_not_session
    · cases h
    · cases h

theorem setCookie_some {reply : Reply} {t : Str} (h : setCookie A s r reply = some (some t)) :
    ∃ sess, reply = .session sess ∧ sess.Token = t := by
  unfold setCookie at h
  split at h
  · cases h
  · split at h
    · rename_i sess _; cases h; exact ⟨sess, rfl, rfl⟩
    · cases h
    · cases h

theorem passes_csrf_invalid {ms : List Middleware} (hms : .csrf ∉ ms) {ctx : Option Session} :
    passes A s r ms ctx ≠ .error (.error 403 "csrf_invalid") := by
  induction ms generalizing ctx with
  | nil => intro h; cases h
  | cons m ms ih =>
    rw [List.mem_cons, not_or] at hms
    obtain ⟨hm, hms⟩ := hms
    cases m with
    | auth =>
      simp only [passes]
      split
      · simp
      · split
        · simp
        · exact ih hms
    | requireAdmin =>
      simp only [passes]
      split
      · decide
      · split
        · exact ih hms
        · decide
    | csrf => exact absurd rfl hm

theorem handle_not_forbidden {h : Handler} {params : Str → Str} {ctx : Option Session} {msg : Str} :
    (handle A r d h params ctx s).1 ≠ .error 403 msg := by
  unfold handle
  split
  · unfold login
    repeat' split
    all_goals simp
  · cases ctx <;> simp [logout]
  · cases ctx <;> simp [me]
  · simp
  · simp only [create]
    repeat' split
    all_goals simp
  · simp only [setPassword]
    repeat' split
    all_goals simp
  · simp [delete]
  · simp

/-- A request is refused for its token only when its cookie names an admitted session, and it does
not carry the token of that. -/
theorem serve_csrf_invalid (h : (serve A r d s).1 = .error 403 "csrf_invalid") :
    ∃ t sess, r.cookie = some t ∧ s.store.Get t s.now = some sess ∧ r.method ≠ .get ∧
      (r.csrfHeader = [] ∨ r.csrfHeader ≠ sess.CSRFToken) := by
  unfold serve at h
  split at h
  · rename_i reply hreach
    dsimp only at h
    subst h
    unfold reach at hreach
    split at hreach
    · cases hreach
    · rename_i ep params hfind
      have hmem : ep ∈ NewRouter := A.router.registered _ _ _ _ hfind
      split at hreach
      · rename_i reply hpass
        cases hreach
        have hchain : ∃ ms, .csrf ∉ ms ∧
            passes A s r (.auth :: .csrf :: ms) none = .error (.error 403 "csrf_invalid") := by
          rcases router_chains ep hmem with hms | hms | hms <;> rw [hms] at hpass
          · cases hpass
          · exact ⟨[], by decide, hpass⟩
          · exact ⟨[.requireAdmin], by decide, hpass⟩
        obtain ⟨ms, hms, hpass⟩ := hchain
        simp only [passes] at hpass
        split at hpass
        · simp at hpass
        · rename_i t hcookie
          split at hpass
          · simp at hpass
          · rename_i sess hget
            split at hpass
            · exact absurd hpass (passes_csrf_invalid hms)
            · rename_i hfree
              split at hpass
              · rename_i hheader
                refine ⟨t, sess, hcookie, hget, ?_, by simpa using hheader⟩
                intro hmethod
                simp [hmethod] at hfree
              · exact absurd hpass (passes_csrf_invalid hms)
      · cases hreach
  · exact absurd h handle_not_forbidden

/-! ## Routes of the session -/

theorem find_me : ∃ params, Matcher.bySegments.find .get "/api/auth/me" =
    some (⟨[.auth, .csrf], .get, "/api/auth/me", .authMe⟩, params) := ⟨_, rfl⟩

theorem find_login : ∃ params, Matcher.bySegments.find .post "/api/auth/login" =
    some (⟨[], .post, "/api/auth/login", .authLogin⟩, params) := ⟨_, rfl⟩

theorem login_reply : (∃ status msg, (login A r d s).1 = .error status msg) ∨
    ∃ sess, (login A r d s).1 = .session sess := by
  unfold login
  repeat' split
  all_goals first
    | exact .inl ⟨_, _, rfl⟩
    | exact .inr ⟨_, rfl⟩

theorem reach_login (hr : A.router = .bySegments) (username password : Str)
    (cookie csrfToken : Option Str) : ∃ params,
      reach A s ((Call.login username password).request cookie csrfToken) =
        .ok (⟨[], .post, "/api/auth/login", .authLogin⟩, params, none) := by
  obtain ⟨params, hfind⟩ := find_login
  refine ⟨params, ?_⟩
  have hroute : A.router.find ((Call.login username password).request cookie csrfToken).method
      ((Call.login username password).request cookie csrfToken).path =
        some (⟨[], .post, "/api/auth/login", .authLogin⟩, params) := by rw [hr]; exact hfind
  simp only [reach, hroute, passes]

theorem serve_login (hr : A.router = .bySegments) {username password : Str}
    (cookie csrfToken : Option Str) :
    serve A ((Call.login username password).request cookie csrfToken) d s =
      login A ((Call.login username password).request cookie csrfToken) d s := by
  obtain ⟨params, hreach⟩ := reach_login (A := A) (s := s) hr username password cookie csrfToken
  simp only [serve, hreach, handle]

theorem serve_me (hr : A.router = .bySegments) (cookie csrfToken : Option Str) :
    (∃ status msg, (serve A (Call.me.request cookie csrfToken) d s).1 = .error status msg) ∨
      ∃ sess, (serve A (Call.me.request cookie csrfToken) d s).1 = .session sess := by
  obtain ⟨params, hfind⟩ := find_me
  have hroute : A.router.find (Call.me.request cookie csrfToken).method
      (Call.me.request cookie csrfToken).path =
        some (⟨[.auth, .csrf], .get, "/api/auth/me", .authMe⟩, params) := by rw [hr]; exact hfind
  simp only [serve, reach, hroute]
  split
  · rename_i reply hreach
    split at hreach
    · rename_i hpass; cases hreach; exact .inl (passes_error hpass)
    · cases hreach
  · rename_i ep params' ctx hreach
    split at hreach
    · cases hreach
    · cases hreach
      cases ctx with
      | none => exact .inl ⟨_, _, rfl⟩
      | some sess => exact .inr ⟨sess, rfl⟩

/-- The callers of `api.me` and `api.login` get an error or a session. -/
theorem serve_signsIn (hr : A.router = .bySegments) {c : Call} (hc : c.signsIn)
    (cookie csrfToken : Option Str) :
    (∃ status msg, (serve A (c.request cookie csrfToken) d s).1 = .error status msg) ∨
      ∃ sess, (serve A (c.request cookie csrfToken) d s).1 = .session sess := by
  cases c with
  | me => exact serve_me hr cookie csrfToken
  | login username password =>
    rw [serve_login hr]
    exact login_reply
  | logout => cases hc
  | other => cases hc

end Browser
end Server
end Nasd
