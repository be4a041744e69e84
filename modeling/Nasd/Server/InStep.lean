import Nasd.Server.Answers

/-!
# Nasd.Server.InStep

Which runs of the browser and the server keep a page in step with its session.

* `Inv`         — sessions are told apart by either token, and a session whose cookie is still on its
  way is known to nothing else.
* `Marked`      — the requests under way carry the token of their session.
* `in_step_iff` — the page is in step all along exactly when the answers come in order.
-/

namespace Nasd
namespace Server
namespace Browser

open Text Machine

variable {ω : Type} {A : App ω} {s : State ω} {r : Request} {d : Draw} {sess : Session}

/-! ## What is known of a session -/

variable {n : Net ω} {i : Nat}

/-- No page and no message but the login's own answer knows either token of the session. -/
structure Net.Secret (n : Net ω) (sess : Session) : Prop where
  jar : n.jar ≠ some sess.Token
  requests : ∀ q ∈ n.requests, q.req.cookie ≠ some sess.Token
  pages : ∀ p ∈ n.pages, p.csrfToken ≠ some sess.CSRFToken
  bodies : ∀ a ∈ n.bodies, a.reply ≠ .session sess
  answers : ∀ a ∈ n.answers, a.reply = .session sess → a.setCookie = some (some sess.Token)

structure Inv (n : Net ω) : Prop where
  keyed : ∀ t sess, n.server.store.sessions t = some sess → sess.Token = t ∧ sess.CSRFToken ≠ []
  distinct : ∀ x y, n.Knows x → n.Knows y → x.Token = y.Token ∨ x.CSRFToken = y.CSRFToken → x = y
  secret : ∀ a ∈ n.answers, ∀ t, a.setCookie = some (some t) →
    ∃ sess, a.reply = .session sess ∧ sess.Token = t ∧ n.Secret sess
  once : n.answers.Pairwise fun a b => ∀ t, a.setCookie = some (some t) → b.setCookie ≠ some (some t)
  sent : ∀ q ∈ n.requests, q.page < n.pages.length ∧
    ∃ cookie csrfToken, q.req = q.call.request cookie csrfToken
  owned : ∀ a ∈ n.answers ++ n.bodies, a.page < n.pages.length
  plain : ∀ a ∈ n.answers ++ n.bodies, a.call.signsIn →
    (∃ status msg, a.reply = .error status msg) ∨ ∃ sess, a.reply = .session sess

theorem Inv.live (hI : Inv n) {t : Str} (hget : n.server.store.Get t n.server.now = some sess) :
    sess.Token = t ∧ n.Knows sess :=
  ⟨(hI.keyed t sess (SessionStore.Get_eq_some.mp hget).1).1,
    .inl ⟨t, (SessionStore.Get_eq_some.mp hget).1⟩⟩

/-- A session in the store was there, or its two tokens were just drawn. -/
theorem step_stored {e : Server.Event} {t : Str}
    (h : (Server.step A s e).store.sessions t = some sess) :
    s.store.sessions t = some sess ∨
      ∃ r d, e = .request r d ∧ t = d.token ∧ sess.Token = d.token ∧ sess.CSRFToken = d.csrf := by
  rcases step_sessions h with ⟨r, d, _, _, _, _, _, he, -, -, -, -, -, ht, rfl⟩ | ⟨hold, -⟩
  · exact .inr ⟨r, d, he, ht, rfl, rfl⟩
  · exact .inl hold

theorem serve_stored {t : Str} (h : (serve A r d s).2.store.sessions t = some sess) :
    s.store.sessions t = some sess ∨
      t = d.token ∧ sess.Token = d.token ∧ sess.CSRFToken = d.csrf := by
  rcases step_stored (A := A) (e := .request r d) h with hold | ⟨_, _, he, hnew⟩
  · exact .inl hold
  · cases he; exact .inr hnew

/-- What only drops messages, and lets a page hold no token or one that it has read. -/
theorem Inv.less (hI : Inv n) {n' : Net ω} (hserver : n'.server = n.server)
    (hjar : n'.jar = n.jar ∨ n'.jar = none) (hrequests : n'.requests.Sublist n.requests)
    (hanswers : n'.answers.Sublist n.answers) (hbodies : n'.bodies.Sublist n.bodies)
    (hpages : ∀ p ∈ n'.pages, p.csrfToken = none ∨ (∃ p₀ ∈ n.pages, p.csrfToken = p₀.csrfToken) ∨
      ∃ a ∈ n.bodies, ∃ sess, a.reply = .session sess ∧ p.csrfToken = some sess.CSRFToken)
    (hlength : n.pages.length ≤ n'.pages.length) : Inv n' := by
  have hmessages : ∀ a ∈ n'.answers ++ n'.bodies, a ∈ n.answers ++ n.bodies :=
    fun a ha => (hanswers.append hbodies).subset ha
  have hknows : ∀ x, n'.Knows x → n.Knows x := by
    rintro x (⟨t, ht⟩ | ⟨a, ha, hx⟩)
    · rw [hserver] at ht; exact .inl ⟨t, ht⟩
    · exact .inr ⟨a, hmessages a ha, hx⟩
  constructor
  case keyed => rw [hserver]; exact hI.keyed
  case distinct => exact fun x y hx hy => hI.distinct x y (hknows x hx) (hknows y hy)
  case secret =>
    intro a ha t ht
    obtain ⟨sess, hreply, htoken, hsecret⟩ := hI.secret a (hanswers.subset ha) t ht
    have hknown : n.Knows sess :=
      .inr ⟨a, List.mem_append_left _ (hanswers.subset ha), hreply⟩
    refine ⟨sess, hreply, htoken, ?_, fun q hq => hsecret.requests q (hrequests.subset hq), ?_,
      fun b hb => hsecret.bodies b (hbodies.subset hb),
      fun b hb => hsecret.answers b (hanswers.subset hb)⟩
    · rcases hjar with hjar | hjar <;> rw [hjar]
      · exact hsecret.jar
      · nofun
    · intro p hp heq
      rcases hpages p hp with hnone | ⟨p₀, hp₀, hold⟩ | ⟨b, hb, sess', hsess', hread⟩
      · rw [hnone] at heq; cases heq
      · exact hsecret.pages p₀ hp₀ (hold.symm.trans heq)
      · rw [heq, Option.some.injEq] at hread
        have hsame : sess = sess' :=
          hI.distinct sess sess' hknown (.inr ⟨b, List.mem_append_right _ hb, hsess'⟩) (.inr hread)
        exact hsecret.bodies b hb (hsame ▸ hsess')
  case once => exact hI.once.sublist hanswers
  case sent =>
    intro q hq
    obtain ⟨hpage, hreq⟩ := hI.sent q (hrequests.subset hq)
    exact ⟨Nat.lt_of_lt_of_le hpage hlength, hreq⟩
  case owned => exact fun a ha => Nat.lt_of_lt_of_le (hI.owned a (hmessages a ha)) hlength
  case plain => exact fun a ha => hI.plain a (hmessages a ha)

theorem inv_send (hI : Inv n) (c : Call) : Inv (n.send i c) := by
  unfold Net.send
  split
  · exact hI
  · rename_i p hp
    refine ⟨hI.keyed, hI.distinct, ?_, hI.once, ?_, hI.owned, hI.plain⟩
    · intro a ha t ht
      obtain ⟨sess, hreply, htoken, hsecret⟩ := hI.secret a ha t ht
      refine ⟨sess, hreply, htoken, hsecret.jar, ?_, hsecret.pages, hsecret.bodies,
        hsecret.answers⟩
      intro q hq
      rcases List.mem_append.mp hq with hq | hq
      · exact hsecret.requests q hq
      · rw [List.mem_singleton.mp hq]
        cases c <;> exact hsecret.jar
    · intro q hq
      rcases List.mem_append.mp hq with hq | hq
      · exact hI.sent q hq
      · rw [List.mem_singleton.mp hq]
        exact ⟨(List.getElem?_eq_some_iff.mp hp).1, _, _, rfl⟩

theorem inv_server (hI : Inv n) {e : Server.Event} (hfresh : FreshDraw n (.server e)) :
    Inv { n with server := Server.step A n.server e } := by
  have hknows : ∀ x, Net.Knows { n with server := Server.step A n.server e } x → n.Knows x ∨
      ∃ r d, e = .request r d ∧ (Server.step A n.server e).store.sessions d.token = some x ∧
        x.Token = d.token ∧ x.CSRFToken = d.csrf := by
    rintro x (⟨t, ht⟩ | hx)
    · rcases step_stored ht with hold | ⟨r, d, he, rfl, hx⟩
      · exact .inl (.inl ⟨t, hold⟩)
      · exact .inr ⟨r, d, he, ht, hx⟩
    · exact .inl (.inr hx)
  refine ⟨?_, ?_, ?_, hI.once, hI.sent, hI.owned, hI.plain⟩
  · intro t x ht
    rcases step_stored ht with hold | ⟨r, d, rfl, rfl, htoken, hcsrf⟩
    · exact hI.keyed t x hold
    · exact ⟨htoken, hcsrf ▸ hfresh.csrf⟩
  · intro x y hx hy heq
    rcases hknows x hx with hx' | ⟨r, d, rfl, hx', hxt, hxc⟩
    · rcases hknows y hy with hy' | ⟨r, d, rfl, hy', hyt, hyc⟩
      · exact hI.distinct x y hx' hy' heq
      · obtain ⟨ht, hc⟩ := hfresh.unknown x hx'
        rcases heq with heq | heq
        · exact absurd (heq.trans hyt) ht
        · exact absurd (heq.trans hyc) hc
    · rcases hknows y hy with hy' | ⟨r', d', he, hy', -, -⟩
      · obtain ⟨ht, hc⟩ := hfresh.unknown y hy'
        rcases heq with heq | heq
        · exact absurd (heq.symm.trans hxt) ht
        · exact absurd (heq.symm.trans hxc) hc
      · cases he
        exact Option.some.inj (hx'.symm.trans hy')
  · intro a ha t ht
    obtain ⟨sess, hreply, htoken, hsecret⟩ := hI.secret a ha t ht
    exact ⟨sess, hreply, htoken, hsecret.jar, hsecret.requests, hsecret.pages, hsecret.bodies,
      hsecret.answers⟩

theorem once_others (hI : Inv n) {k : Nat} {a b : Answer} (ha : n.answers[k]? = some a)
    (hb : b ∈ n.answers.eraseIdx k) {t : Str} (hat : a.setCookie = some (some t)) :
    b.setCookie ≠ some (some t) := by
  obtain ⟨j, hne, hb⟩ := List.mem_eraseIdx_iff_getElem?.mp hb
  obtain ⟨hk, rfl⟩ := List.getElem?_eq_some_iff.mp ha
  obtain ⟨hj, rfl⟩ := List.getElem?_eq_some_iff.mp hb
  have honce := List.pairwise_iff_getElem.mp hI.once
  rcases Nat.lt_or_gt_of_ne hne with hlt | hlt
  · exact fun hbt => honce j k hj hk hlt t hbt hat
  · exact honce k j hk hj hlt t hat

theorem inv_head (hI : Inv n) (k : Nat) : Inv (n.head k) := by
  unfold Net.head
  split
  · exact hI
  · rename_i a ha
    have hmem : a ∈ n.answers := List.mem_of_getElem? ha
    have hmessages : ∀ b ∈ n.answers.eraseIdx k ++ (n.bodies ++ [a]), b ∈ n.answers ++ n.bodies := by
      intro b hb
      simp only [List.mem_append, List.mem_singleton] at hb ⊢
      rcases hb with hb | hb | rfl
      · exact .inl ((List.eraseIdx_sublist _ _).subset hb)
      · exact .inr hb
      · exact .inl hmem
    have hknows : ∀ x, Net.Knows { n with
        jar := a.setCookie.getD n.jar
        answers := n.answers.eraseIdx k
        bodies := n.bodies ++ [a] } x → n.Knows x := by
      rintro x (hx | ⟨b, hb, hx⟩)
      · exact .inl hx
      · exact .inr ⟨b, hmessages b hb, hx⟩
    refine ⟨hI.keyed, fun x y hx hy => hI.distinct x y (hknows x hx) (hknows y hy), ?_,
      hI.once.sublist (List.eraseIdx_sublist _ _), hI.sent, fun b hb => hI.owned b (hmessages b hb),
      fun b hb => hI.plain b (hmessages b hb)⟩
    intro b hb t ht
    obtain ⟨sess, hreply, htoken, hsecret⟩ :=
      hI.secret b ((List.eraseIdx_sublist _ _).subset hb) t ht
    have hother : a.setCookie ≠ some (some sess.Token) :=
      fun hat => once_others hI ha hb hat (htoken ▸ ht)
    refine ⟨sess, hreply, htoken, ?_, hsecret.requests, hsecret.pages, ?_,
      fun c hc => hsecret.answers c ((List.eraseIdx_sublist _ _).subset hc)⟩
    · show a.setCookie.getD n.jar ≠ some sess.Token
      cases hset : a.setCookie with
      | none => exact hsecret.jar
      | some cookie =>
        intro heq
        exact hother (hset.trans (congrArg some heq))
    · intro c hc
      rcases List.mem_append.mp hc with hc | hc
      · exact hsecret.bodies c hc
      · rw [List.mem_singleton.mp hc]
        exact fun hsess => hother (hsecret.answers a hmem hsess)

theorem Net.Fresh.secret (hfresh : n.Fresh d) (htoken : sess.Token = d.token)
    (hcsrf : sess.CSRFToken = d.csrf) : n.Secret sess where
  jar := htoken ▸ hfresh.jar
  requests := htoken ▸ hfresh.requests
  pages := hcsrf ▸ hfresh.pages
  bodies a ha hx :=
    absurd htoken (hfresh.unknown sess (.inr ⟨a, List.mem_append_right _ ha, hx⟩)).1
  answers a ha hx :=
    absurd htoken (hfresh.unknown sess (.inr ⟨a, List.mem_append_left _ ha, hx⟩)).1

/-- A session in an answer was just issued, or is known. -/
theorem answer_session (hI : Inv n) {q : Sent} (h : (q.answer A d n.server).reply = .session sess) :
    (sess.Token = d.token ∧ sess.CSRFToken = d.csrf ∧
      (serve A q.req d n.server).2.store.sessions d.token = some sess ∧
      (q.answer A d n.server).setCookie = some (some sess.Token)) ∨
    (n.Knows sess ∧ q.req.cookie = some sess.Token ∧ (q.answer A d n.server).setCookie = none) := by
  have hserve : (serve A q.req d n.server).1 = .session sess := h
  rcases serve_session hserve with ⟨htoken, hcsrf, hstored, hset⟩ | ⟨t, hcookie, hget, hset⟩
  · refine .inl ⟨htoken, hcsrf, hstored, ?_⟩
    show setCookie A n.server q.req (serve A q.req d n.server).1 = _
    rw [hserve, htoken, hset]
  · obtain ⟨htoken, hknown⟩ := hI.live hget
    refine .inr ⟨hknown, by rw [hcookie, htoken], ?_⟩
    show setCookie A n.server q.req (serve A q.req d n.server).1 = none
    rw [hserve, hset]

theorem inv_deliver (hr : A.router = .bySegments) (hI : Inv n) {k : Nat}
    (hfresh : n.Fresh d) : Inv (n.deliver A k d) := by
  unfold Net.deliver
  split
  · exact hI
  rename_i q hq
  have hmem : q ∈ n.requests := List.mem_of_getElem? hq
  obtain ⟨hpage, cookie, csrfToken, hreq⟩ := hI.sent q hmem
  have hknows : ∀ x, Net.Knows { n with
      server := (serve A q.req d n.server).2
      requests := n.requests.eraseIdx k
      answers := n.answers ++ [q.answer A d n.server] } x →
      n.Knows x ∨ x.Token = d.token ∧ x.CSRFToken = d.csrf ∧
        (serve A q.req d n.server).2.store.sessions d.token = some x := by
    rintro x (⟨t, ht⟩ | ⟨b, hb, hx⟩)
    · rcases serve_stored ht with hold | ⟨rfl, htoken, hcsrf⟩
      · exact .inl (.inl ⟨t, hold⟩)
      · exact .inr ⟨htoken, hcsrf, ht⟩
    · simp only [List.mem_append, List.mem_singleton] at hb
      rcases hb with (hb | rfl) | hb
      · exact .inl (.inr ⟨b, List.mem_append_left _ hb, hx⟩)
      · rcases answer_session hI hx with ⟨htoken, hcsrf, hstored, -⟩ | ⟨hknown, -⟩
        · exact .inr ⟨htoken, hcsrf, hstored⟩
        · exact .inl hknown
      · exact .inl (.inr ⟨b, List.mem_append_right _ hb, hx⟩)
  -- what was secret stays so: the new answer would need the cookie of the session
  have hsecret : ∀ x, n.Secret x → Net.Secret { n with
      server := (serve A q.req d n.server).2
      requests := n.requests.eraseIdx k
      answers := n.answers ++ [q.answer A d n.server] } x := by
    intro x hx
    refine ⟨hx.jar, fun q' hq' => hx.requests q' ((List.eraseIdx_sublist _ _).subset hq'), hx.pages,
      hx.bodies, ?_⟩
    intro b hb hsess
    rcases List.mem_append.mp hb with hb | hb
    · exact hx.answers b hb hsess
    · rw [List.mem_singleton.mp hb] at hsess ⊢
      rcases answer_session hI hsess with ⟨-, -, -, hset⟩ | ⟨-, hcookie⟩
      · exact hset
      · exact absurd hcookie.1 (hx.requests q hmem)
  constructor
  case keyed =>
    intro t x ht
    rcases serve_stored ht with hold | ⟨rfl, htoken, hcsrf⟩
    · exact hI.keyed t x hold
    · exact ⟨htoken, hcsrf ▸ hfresh.csrf⟩
  case distinct =>
    intro x y hx hy heq
    rcases hknows x hx with hx' | ⟨hxt, hxc, hxs⟩
    · rcases hknows y hy with hy' | ⟨hyt, hyc, -⟩
      · exact hI.distinct x y hx' hy' heq
      · obtain ⟨ht, hc⟩ := hfresh.unknown x hx'
        rcases heq with heq | heq
        · exact absurd (heq.trans hyt) ht
        · exact absurd (heq.trans hyc) hc
    · rcases hknows y hy with hy' | ⟨-, -, hys⟩
      · obtain ⟨ht, hc⟩ := hfresh.unknown y hy'
        rcases heq with heq | heq
        · exact absurd (heq.symm.trans hxt) ht
        · exact absurd (heq.symm.trans hxc) hc
      · exact Option.some.inj (hxs.symm.trans hys)
  case secret =>
    intro b hb t ht
    rcases List.mem_append.mp hb with hb | hb
    · obtain ⟨x, hreply, htoken, hx⟩ := hI.secret b hb t ht
      exact ⟨x, hreply, htoken, hsecret x hx⟩
    · rw [List.mem_singleton.mp hb] at ht ⊢
      obtain ⟨x, hreply, htoken⟩ := setCookie_some ht
      refine ⟨x, hreply, htoken, hsecret x ?_⟩
      rcases answer_session hI hreply with ⟨hxt, hxc, -, -⟩ | ⟨-, -, hnone⟩
      · exact hfresh.secret hxt hxc
      · rw [hnone] at ht; cases ht
  case once =>
    refine List.pairwise_append.mpr ⟨hI.once, List.pairwise_singleton _ _, ?_⟩
    intro b hb c hc t hbt hct
    rw [List.mem_singleton.mp hc] at hct
    obtain ⟨x, hx, hxt, -⟩ := hI.secret b hb t hbt
    obtain ⟨y, hy, hyt⟩ := setCookie_some hct
    rcases answer_session hI hy with ⟨hnew, -⟩ | ⟨-, -, hnone⟩
    · exact (hfresh.unknown x (.inr ⟨b, List.mem_append_left _ hb, hx⟩)).1
        (hxt.trans (hyt.symm.trans hnew))
    · rw [hnone] at hct; cases hct
  case sent =>
    exact fun q' hq' => hI.sent q' ((List.eraseIdx_sublist _ _).subset hq')
  case owned =>
    intro b hb
    simp only [List.mem_append, List.mem_singleton] at hb
    rcases hb with (hb | rfl) | hb
    · exact hI.owned b (List.mem_append_left _ hb)
    · exact hpage
    · exact hI.owned b (List.mem_append_right _ hb)
  case plain =>
    intro b hb hc
    simp only [List.mem_append, List.mem_singleton] at hb
    rcases hb with (hb | rfl) | hb
    · exact hI.plain b (List.mem_append_left _ hb) hc
    · have hq : (q.answer A d n.server).reply =
          (serve A (q.call.request cookie csrfToken) d n.server).1 := by
        rw [← hreq]; rfl
      rw [hq]
      exact serve_signsIn hr hc cookie csrfToken
    · exact hI.plain b (List.mem_append_right _ hb) hc

theorem mem_modify {α : Type} {f : α → α} {l : List α} {j : Nat} {b : α} (h : b ∈ l.modify j f) :
    b ∈ l ∨ ∃ a ∈ l, b = f a := by
  obtain ⟨m, hm, rfl⟩ := List.mem_iff_getElem.mp h
  rw [List.length_modify] at hm
  rw [List.getElem_modify]
  split
  · exact .inr ⟨_, List.getElem_mem _, rfl⟩
  · exact .inl (List.getElem_mem _)

theorem rejected_csrfToken (p : Page) (c : Call) : (p.rejected c).csrfToken = p.csrfToken := by
  cases c <;> rfl

/-- A page keeps its token, drops it, or takes that of the session in the answer. -/
theorem answered_csrfToken (p : Page) (c : Call) (reply : Reply) {data : Reply → Me}
    (hdata : ∀ reply, (data reply).csrf_token = none ∨
      ∃ sess, reply = .session sess ∧ (data reply).csrf_token = some sess.CSRFToken) :
    (Page.answered c reply (data reply) p).csrfToken = none ∨
      (Page.answered c reply (data reply) p).csrfToken = p.csrfToken ∨
      ∃ sess, reply = .session sess ∧
        (Page.answered c reply (data reply) p).csrfToken = some sess.CSRFToken := by
  unfold Page.answered
  split
  · split <;> exact .inr (.inl (rejected_csrfToken _ _))
  · cases c with
    | me | login _ _ =>
      rcases hdata reply with hnone | hsess
      · exact .inl hnone
      · exact .inr (.inr hsess)
    | logout | other _ _ _ => exact .inr (.inl rfl)

theorem data_csrf (reply : Reply) : (data reply).csrf_token = none ∨
    ∃ sess, reply = .session sess ∧ (data reply).csrf_token = some sess.CSRFToken := by
  cases reply with
  | session sess => exact .inr ⟨sess, rfl, rfl⟩
  | _ => exact .inl rfl

theorem inv_read (hI : Inv n) (k : Nat) {data : Reply → Me}
    (hdata : ∀ reply, (data reply).csrf_token = none ∨
      ∃ sess, reply = .session sess ∧ (data reply).csrf_token = some sess.CSRFToken) :
    Inv (n.read k data) := by
  unfold Net.read
  split
  · exact hI
  · rename_i a ha
    refine hI.less rfl (.inl rfl) (List.Sublist.refl _) (List.Sublist.refl _)
      (List.eraseIdx_sublist _ _) ?_ (by simp [Net.settle])
    intro p hp
    rcases mem_modify hp with hp | ⟨p₀, hp₀, rfl⟩
    · exact .inr (.inl ⟨p, hp, rfl⟩)
    · rcases answered_csrfToken p₀ a.call a.reply hdata with hnone | hkept | ⟨sess, hsess, hread⟩
      · exact .inl hnone
      · exact .inr (.inl ⟨p₀, hp₀, hkept⟩)
      · exact .inr (.inr ⟨a, List.mem_of_getElem? ha, sess, hsess, hread⟩)

theorem inv_step (hr : A.router = .bySegments) (hI : Inv n) {e : Event} (hfresh : FreshDraw n e) :
    Inv (step A n e) := by
  have hsend : ∀ j c, Inv (n.send j c) := fun j c => inv_send hI c
  have hsettle : ∀ (j : Nat) (c : Call), ∀ p ∈ n.pages.modify j (fun p => p.rejected c),
      ∃ p₀ ∈ n.pages, p.csrfToken = p₀.csrfToken := by
    intro j c p hp
    rcases mem_modify hp with hp | ⟨p₀, hp₀, rfl⟩
    · exact ⟨p, hp, rfl⟩
    · exact ⟨p₀, hp₀, rejected_csrfToken _ _⟩
  cases e with
  | load =>
    have hload : Inv { n with pages := n.pages ++ [⟨none, none⟩] } := by
      refine hI.less rfl (.inl rfl) (List.Sublist.refl _) (List.Sublist.refl _)
        (List.Sublist.refl _) ?_ (by simp)
      intro p hp
      rcases List.mem_append.mp hp with hp | hp
      · exact .inr (.inl ⟨p, hp, rfl⟩)
      · rw [List.mem_singleton.mp hp]; exact .inl rfl
    exact inv_send hload _
  | login j username password =>
    simp only [step]
    split
    · exact hI
    · exact hsend _ _
  | logout j =>
    simp only [step]
    split
    · exact hsend _ _
    · exact hI
  | call j method path body =>
    simp only [step]
    split
    · exact hsend _ _
    · exact hI
  | deliver k d => exact inv_deliver hr hI hfresh
  | head k => exact inv_head hI k
  | body k => exact inv_read hI k data_csrf
  | cut k =>
    have hcut : Inv (n.read k fun _ => .empty) := inv_read hI k fun _ => .inl rfl
    exact hcut
  | dropRequest k =>
    simp only [step, Net.dropRequest]
    split
    · exact hI
    · exact hI.less rfl (.inl rfl) (List.eraseIdx_sublist _ _) (List.Sublist.refl _)
        (List.Sublist.refl _) (fun p hp => .inr (.inl (hsettle _ _ p hp))) (by simp [Net.settle])
  | dropAnswer k =>
    simp only [step, Net.dropAnswer]
    split
    · exact hI
    · exact hI.less rfl (.inl rfl) (List.Sublist.refl _) (List.eraseIdx_sublist _ _)
        (List.Sublist.refl _) (fun p hp => .inr (.inl (hsettle _ _ p hp))) (by simp [Net.settle])
  | forget =>
    exact hI.less rfl (.inr rfl) (List.Sublist.refl _) (List.Sublist.refl _) (List.Sublist.refl _)
      (fun p hp => .inr (.inl ⟨p, hp, rfl⟩)) (Nat.le_refl _)
  | server e => exact inv_server hI hfresh

theorem inv_start (accounts : Accounts) (ttl now : Nat) (world : ω) (jar : Option Str) :
    Inv (start accounts ttl now world jar) where
  keyed _ _ ht := absurd ht (by simp [start, State.start, SessionStore.NewSessionStore])
  distinct x _ hx := by
    rcases hx with ⟨t, ht⟩ | ⟨a, ha, -⟩
    · simp [start, State.start, SessionStore.NewSessionStore] at ht
    · exact absurd ha List.not_mem_nil
  secret _ ha := absurd ha List.not_mem_nil
  once := List.Pairwise.nil
  sent _ hq := absurd hq List.not_mem_nil
  owned _ ha := absurd ha List.not_mem_nil
  plain _ ha := absurd ha List.not_mem_nil

/-! ## Staying in step -/

theorem InStep.of_kept {n' : Net ω} (h : InStep i n)
    (hpages : ∀ p', n'.pages[i]? = some p' → p'.user ≠ none →
      ∃ p, n.pages[i]? = some p ∧ p.user ≠ none ∧ p.csrfToken = p'.csrfToken)
    (hlive : ∀ sess, n'.Live sess → n.Live sess) : InStep i n' := by
  intro p' sess hp' huser hl
  obtain ⟨p, hp, hu, htoken⟩ := hpages p' hp' huser
  rw [← htoken]
  exact h p sess hp hu (hlive sess hl)

theorem rejected_cases (p : Page) (c : Call) : (p.rejected c).user = none ∨ p.rejected c = p := by
  cases c with
  | me | logout => exact .inl rfl
  | login _ _ | other _ _ _ => exact .inr rfl

/-- An answer leaves the page, or its user goes, or it signs in. -/
theorem answered_cases (p : Page) (c : Call) (reply : Reply) (data : Me) :
    (Page.answered c reply data p).user = none ∨ Page.answered c reply data p = p ∨
      c.signsIn ∧ (∀ status msg, reply ≠ .error status msg) ∧
        Page.answered c reply data p = ⟨data.csrf_token, some data⟩ := by
  unfold Page.answered
  split
  · rename_i status msg
    split
    · rcases rejected_cases { p with user := none } c with hnone | hsame
      · exact .inl hnone
      · exact .inl (by rw [hsame])
    · rcases rejected_cases p c with hnone | hsame
      · exact .inl hnone
      · exact .inr (.inl hsame)
  · rename_i hok
    cases c with
    | me => exact .inr (.inr ⟨rfl, hok, rfl⟩)
    | login _ _ => exact .inr (.inr ⟨rfl, hok, rfl⟩)
    | logout => exact .inl rfl
    | other _ _ _ => exact .inr (.inl rfl)

theorem answered_signsIn {c : Call} (hc : c.signsIn) (p : Page) (sess : Session) (data : Me) :
    Page.answered c (.session sess) data p = ⟨data.csrf_token, some data⟩ := by
  cases c with
  | me | login _ _ => rfl
  | logout | other _ _ _ => cases hc

theorem live_server {e : Server.Event} (hfresh : FreshDraw n (.server e))
    (h : Net.Live { n with server := Server.step A n.server e } sess) : n.Live sess := by
  obtain ⟨t, hjar, hget⟩ := h
  rcases step_admitted hget with hi | hold
  · obtain ⟨r, d, _, _, _, _, _, rfl, -, -, -, -, -, rfl, -⟩ := hi
    exact absurd hjar hfresh.jar
  · exact ⟨t, hjar, hold⟩

theorem in_step_send (h : InStep i n) (j : Nat) (c : Call) : InStep i (n.send j c) := by
  unfold Net.send
  split
  · exact h
  · exact h.of_kept (fun p hp hu => ⟨p, hp, hu, rfl⟩) fun sess hl => hl

/-- A page that is changed by `f`, of which nothing is left but its user's absence. -/
theorem in_step_settle (h : InStep i n) {n₀ : Net ω} (hn₀ : n₀.pages = n.pages)
    (hlive : ∀ sess, n₀.Live sess → n.Live sess) {j : Nat} {f : Page → Page}
    (hf : ∀ p, n.pages[i]? = some p → i = j → (f p).user = none ∨ f p = p) :
    InStep i (n₀.settle j f) := by
  refine h.of_kept ?_ hlive
  intro p' hp' huser
  simp only [Net.settle, hn₀, List.getElem?_modify] at hp'
  cases hp : n.pages[i]? with
  | none => rw [hp] at hp'; cases hp'
  | some p =>
    rw [hp] at hp'
    simp only [Option.map_eq_map, Option.map_some, Option.some.injEq] at hp'
    split at hp'
    · rename_i hji
      rcases hf p hp hji.symm with hnone | hsame
      · rw [hp'] at hnone; exact absurd hnone huser
      · rw [hsame] at hp'; subst hp'; exact ⟨p, rfl, huser, rfl⟩
    · subst hp'; exact ⟨p, rfl, huser, rfl⟩

/-- Reading a body keeps the page in step when a session that it signs in with is the live one. -/
theorem in_step_read (hI : Inv n) (h : InStep i n) {k : Nat} {data : Reply → Me}
    (hgood : ∀ a sess, n.bodies[k]? = some a → a.page = i → a.call.signsIn →
      a.reply = .session sess →
      ∀ live, n.Live live → (data a.reply).csrf_token = some live.CSRFToken) :
    InStep i (n.read k data) := by
  unfold Net.read
  split
  · exact h
  rename_i a ha
  have hmem : a ∈ n.answers ++ n.bodies := List.mem_append_right _ (List.mem_of_getElem? ha)
  by_cases hsigns : ∃ sess, a.page = i ∧ a.call.signsIn ∧ a.reply = .session sess
  · obtain ⟨sess, hpage, hc, hreply⟩ := hsigns
    intro p' live hp' huser hl
    have hread : (data a.reply).csrf_token = some live.CSRFToken :=
      hgood a sess ha hpage hc hreply live hl
    simp only [Net.settle, List.getElem?_modify, hpage] at hp'
    cases hp : n.pages[i]? with
    | none => rw [hp] at hp'; cases hp'
    | some p =>
      rw [hp] at hp'
      simp only [Option.map_eq_map, Option.map_some, Option.some.injEq, if_true] at hp'
      rw [hreply, answered_signsIn hc, ← hreply] at hp'
      subst hp'
      exact hread
  · refine in_step_settle h rfl (fun sess hl => hl) ?_
    intro p hp hpage
    rcases answered_cases p a.call a.reply (data a.reply) with hnone | hsame | ⟨hc, hok, -⟩
    · exact .inl hnone
    · exact .inr hsame
    · rcases hI.plain a hmem hc with ⟨status, msg, herr⟩ | ⟨sess, hsess⟩
      · exact absurd herr (hok status msg)
      · exact absurd ⟨sess, hpage.symm, hc, hsess⟩ hsigns

theorem in_step_load (h : InStep i n) :
    InStep i { n with pages := n.pages ++ [⟨none, none⟩] } := by
  refine h.of_kept ?_ fun sess hl => hl
  intro p hp hu
  simp only [List.getElem?_append] at hp
  split at hp
  · exact ⟨p, hp, hu, rfl⟩
  · rw [List.mem_singleton.mp (List.mem_of_getElem? hp)] at hu
    exact absurd rfl hu

theorem in_step_step (hI : Inv n) (h : InStep i n) {e : Event} (hfresh : FreshDraw n e)
    (horder : InOrder i n e) : InStep i (step A n e) := by
  cases e with
  | load =>
    exact in_step_send (in_step_load h) _ _
  | login j username password =>
    simp only [step]
    split
    · exact h
    · exact in_step_send h _ _
  | logout j =>
    simp only [step]
    split
    · exact in_step_send h _ _
    · exact h
  | call j method path body =>
    simp only [step]
    split
    · exact in_step_send h _ _
    · exact h
  | deliver k d =>
    simp only [step, Net.deliver]
    split
    · exact h
    · rename_i q hq
      have hlive : ∀ sess, Net.Live { n with server := (serve A q.req d n.server).2 } sess →
          n.Live sess :=
        fun sess hl => live_server (A := A) (e := .request q.req d) hfresh hl
      exact h.of_kept (fun p hp hu => ⟨p, hp, hu, rfl⟩) hlive
  | head k =>
    simp only [step, Net.head]
    split
    · exact h
    · rename_i a ha
      intro p sess hp hu hl
      obtain ⟨t, hjar, hget⟩ := hl
      cases hset : a.setCookie with
      | none =>
        simp only [hset, Option.getD_none] at hjar
        exact h p sess hp hu ⟨t, hjar, hget⟩
      | some cookie =>
        simp only [hset, Option.getD_some] at hjar
        subst hjar
        have hnone : n.user i = none := horder a t sess ha hset hget
        simp only [Net.user] at hnone
        rw [hp] at hnone
        exact absurd hnone hu
  | body k =>
    refine in_step_read hI h ?_
    intro a sess ha hpage hc hreply live hl
    have htoken : live.Token = sess.Token := horder a sess ha hpage hc hreply live hl
    obtain ⟨t, -, hget⟩ := hl
    have hsame : live = sess := hI.distinct live sess (hI.live hget).2
      (.inr ⟨a, List.mem_append_right _ (List.mem_of_getElem? ha), hreply⟩) (.inl htoken)
    rw [hreply, hsame]
    rfl
  | cut k =>
    have hcut : InStep i (n.read k fun _ => .empty) := by
      refine in_step_read hI h ?_
      intro a sess ha hpage hc hreply live hl
      exact absurd hl (horder a sess ha hpage hc hreply live)
    exact hcut
  | dropRequest k =>
    simp only [step, Net.dropRequest]
    split
    · exact h
    · exact in_step_settle h rfl (fun sess hl => hl) fun p _ _ => rejected_cases p _
  | dropAnswer k =>
    simp only [step, Net.dropAnswer]
    split
    · exact h
    · exact in_step_settle h rfl (fun sess hl => hl) fun p _ _ => rejected_cases p _
  | forget =>
    intro p sess _ _ hl
    obtain ⟨t, hjar, -⟩ := hl
    cases hjar
  | server e =>
    exact h.of_kept (fun p hp hu => ⟨p, hp, hu, rfl⟩) fun sess hl => live_server hfresh hl

/-! ## Falling out of step -/

theorem user_eq_some {me : Me} (h : n.user i = some me) :
    ∃ p, n.pages[i]? = some p ∧ p.user = some me := by
  unfold Net.user at h
  cases hp : n.pages[i]? with
  | none => rw [hp] at h; cases h
  | some p => rw [hp] at h; exact ⟨p, rfl, h⟩

/-- A page in step after it has read the answer of a sign-in holds the token of the live session. -/
theorem read_in_step (hI : Inv n) {k : Nat} {data : Reply → Me} {a : Answer} {live : Session}
    (ha : n.bodies[k]? = some a) (hpage : a.page = i) (hc : a.call.signsIn)
    (hreply : a.reply = .session sess) (hl : n.Live live) (h : InStep i (n.read k data)) :
    (data a.reply).csrf_token = some live.CSRFToken := by
  have hlt : i < n.pages.length :=
    hpage ▸ hI.owned a (List.mem_append_right _ (List.mem_of_getElem? ha))
  obtain ⟨p, hp⟩ : ∃ p, n.pages[i]? = some p := ⟨_, List.getElem?_eq_getElem hlt⟩
  have hafter : (n.read k data).pages[i]? =
      some ⟨(data a.reply).csrf_token, some (data a.reply)⟩ := by
    simp only [Net.read, ha, Net.settle, List.getElem?_modify, hpage, hp, Option.map_eq_map,
      Option.map_some, if_true]
    rw [hreply, answered_signsIn hc]
  refine h _ live hafter nofun ?_
  simp only [Net.read, ha]
  exact hl

/-- An answer out of order puts the page out of step at once. -/
theorem in_order_of_step (hI : Inv n) {e : Event} (h : InStep i (step A n e)) : InOrder i n e := by
  cases e with
  | head k =>
    intro a t sess ha hset hget
    cases huser : n.user i with
    | none => rfl
    | some me =>
      obtain ⟨p, hp, hu⟩ := user_eq_some huser
      obtain ⟨issued, hreply, htoken, hsecret⟩ := hI.secret a (List.mem_of_getElem? ha) t hset
      have hhead : step A n (.head k) = { n with
          jar := some t
          answers := n.answers.eraseIdx k
          bodies := n.bodies ++ [a] } := by
        simp only [step, Net.head, ha, hset, Option.getD_some]
      rw [hhead] at h
      have hcsrf : p.csrfToken = some sess.CSRFToken :=
        h p sess hp (by rw [hu]; nofun) ⟨t, rfl, hget⟩
      obtain ⟨hsess, hknown⟩ := hI.live hget
      have hsame : sess = issued := hI.distinct sess issued hknown
        (.inr ⟨a, List.mem_append_left _ (List.mem_of_getElem? ha), hreply⟩)
        (.inl (hsess.trans htoken.symm))
      exact absurd (hsame ▸ hcsrf) (hsecret.pages p (List.mem_of_getElem? hp))
  | body k =>
    intro a sess ha hpage hc hreply live hl
    have hread : (data a.reply).csrf_token = some live.CSRFToken :=
      read_in_step hI ha hpage hc hreply hl h
    rw [hreply] at hread
    obtain ⟨t, -, hget⟩ := hl
    have hsame : live = sess := hI.distinct live sess (hI.live hget).2
      (.inr ⟨a, List.mem_append_right _ (List.mem_of_getElem? ha), hreply⟩)
      (.inr (Option.some.inj hread).symm)
    rw [hsame]
  | cut k =>
    intro a sess ha hpage hc hreply live hl
    have hcut : InStep i (n.read k fun _ => .empty) := h
    exact absurd (read_in_step hI ha hpage hc hreply hl hcut) nofun
  | _ => trivial

/-! ## Requests of a page in step -/

/-- The requests of the page that are under way carry the token of their session. -/
def Marked (i : Nat) (n : Net ω) : Prop :=
  ∀ q ∈ n.requests, q.page = i → q.call.signsIn = false → q.req.method ≠ .get →
    ∀ t sess, q.req.cookie = some t → n.server.store.Get t n.server.now = some sess →
      q.req.csrfHeader = sess.CSRFToken

theorem request_cookie (cookie csrfToken : Option Str) (c : Call) :
    (c.request cookie csrfToken).cookie = cookie := by
  cases c <;> rfl

theorem request_csrfHeader {cookie csrfToken : Option Str} {c : Call}
    (h : (c.request cookie csrfToken).method ≠ .get) :
    (c.request cookie csrfToken).csrfHeader = csrfToken.getD [] := by
  cases c with
  | me => exact absurd rfl h
  | login _ _ | logout => rfl
  | other method path body => exact if_neg h

theorem marked_send (hm : Marked i n) (hs : InStep i n) {j : Nat} {c : Call}
    (huser : c.signsIn = false → (n.user j).isSome) : Marked i (n.send j c) := by
  unfold Net.send
  split
  · exact hm
  rename_i p hp
  intro q hq hpage hc hmethod t sess hcookie hget
  rcases List.mem_append.mp hq with hq | hq
  · exact hm q hq hpage hc hmethod t sess hcookie hget
  · rw [List.mem_singleton.mp hq] at hpage hc hmethod hcookie ⊢
    dsimp only at hpage hc hmethod hcookie ⊢
    subst hpage
    have hu : p.user ≠ none := by
      have hsome := huser hc
      unfold Net.user at hsome
      rw [hp] at hsome
      exact Option.isSome_iff_ne_none.mp hsome
    rw [request_cookie] at hcookie
    have htoken : p.csrfToken = some sess.CSRFToken := hs p sess hp hu ⟨t, hcookie, hget⟩
    rw [request_csrfHeader hmethod, htoken, Option.getD_some]

/-- What leaves the server and drops requests, or lets the server step. -/
theorem Marked.less (hm : Marked i n) {n' : Net ω} (hrequests : ∀ q ∈ n'.requests, q ∈ n.requests)
    (hget : ∀ q ∈ n'.requests, ∀ t sess, q.req.cookie = some t →
      n'.server.store.Get t n'.server.now = some sess →
      n.server.store.Get t n.server.now = some sess) : Marked i n' :=
  fun q hq hpage hc hmethod t sess hcookie hafter =>
    hm q (hrequests q hq) hpage hc hmethod t sess hcookie (hget q hq t sess hcookie hafter)

theorem get_server {e : Server.Event} (hfresh : FreshDraw n (.server e)) {q : Sent}
    (hq : q ∈ n.requests) {t : Str} (hcookie : q.req.cookie = some t)
    (hget : (Server.step A n.server e).store.Get t (Server.step A n.server e).now = some sess) :
    n.server.store.Get t n.server.now = some sess := by
  rcases step_admitted hget with hi | hold
  · obtain ⟨r, d, _, _, _, _, _, rfl, -, -, -, -, -, rfl, -⟩ := hi
    exact absurd hcookie (hfresh.requests q hq)
  · exact hold

theorem marked_step (hm : Marked i n) (hs : InStep i n) {e : Event} (hfresh : FreshDraw n e) :
    Marked i (step A n e) := by
  have hsame : ∀ {n' : Net ω}, (∀ q ∈ n'.requests, q ∈ n.requests) → n'.server = n.server →
      Marked i n' := fun hrequests hserver =>
    hm.less hrequests fun _ _ _ _ _ hget => by rw [hserver] at hget; exact hget
  cases e with
  | load =>
    have hload : Marked i { n with pages := n.pages ++ [⟨none, none⟩] } :=
      hsame (fun _ hq => hq) rfl
    exact marked_send hload (in_step_load hs) nofun
  | login j username password =>
    simp only [step]
    split
    · exact hm
    · exact marked_send hm hs nofun
  | logout j =>
    simp only [step]
    split
    · rename_i huser; exact marked_send hm hs fun _ => huser
    · exact hm
  | call j method path body =>
    simp only [step]
    split
    · rename_i huser; exact marked_send hm hs fun _ => huser
    · exact hm
  | deliver k d =>
    simp only [step, Net.deliver]
    split
    · exact hm
    · rename_i q hq
      refine hm.less (fun q' hq' => (List.eraseIdx_sublist _ _).subset hq') ?_
      intro q' hq' t sess hcookie hget
      exact get_server (A := A) (e := .request q.req d) hfresh
        ((List.eraseIdx_sublist _ _).subset hq') hcookie hget
  | head k =>
    simp only [step, Net.head]
    split
    · exact hm
    · exact hsame (fun _ hq => hq) rfl
  | body k =>
    simp only [step, Net.read]
    split
    · exact hm
    · exact hsame (fun _ hq => hq) rfl
  | cut k =>
    simp only [step, Net.read]
    split
    · exact hm
    · exact hsame (fun _ hq => hq) rfl
  | dropRequest k =>
    simp only [step, Net.dropRequest]
    split
    · exact hm
    · exact hsame (fun _ hq => (List.eraseIdx_sublist _ _).subset hq) rfl
  | dropAnswer k =>
    simp only [step, Net.dropAnswer]
    split
    · exact hm
    · exact hsame (fun _ hq => hq) rfl
  | forget => exact hsame (fun _ hq => hq) rfl
  | server e => exact hm.less (fun _ hq => hq) fun q hq t sess hcookie hget =>
      get_server hfresh hq hcookie hget

theorem login_not_refused (hr : A.router = .bySegments) {username password : Str}
    {cookie csrfToken : Option Str} {msg : Str} :
    (serve A ((Call.login username password).request cookie csrfToken) d s).1 ≠
      .error 403 msg := by
  have hhandle : (handle A ((Call.login username password).request cookie csrfToken) d .authLogin
      (fun _ => []) none s).1 ≠ .error 403 msg := handle_not_forbidden
  rw [serve_login hr]
  exact hhandle

/-- The server does not refuse a request of the page for its token. -/
theorem deliver_accepted (hr : A.router = .bySegments) (hI : Inv n) (hm : Marked i n) {q : Sent}
    (hq : q ∈ n.requests) (hpage : q.page = i) :
    (serve A q.req d n.server).1 ≠ .error 403 "csrf_invalid" := by
  intro hrefused
  obtain ⟨-, cookie, csrfToken, hreq⟩ := hI.sent q hq
  obtain ⟨t, sess, hcookie, hget, hmethod, hheader⟩ := serve_csrf_invalid hrefused
  have hcsrf : sess.CSRFToken ≠ [] := (hI.keyed t sess (SessionStore.Get_eq_some.mp hget).1).2
  cases hcall : q.call with
  | me => rw [hreq, hcall] at hmethod; exact hmethod rfl
  | login username password =>
    rw [hreq, hcall] at hrefused
    exact login_not_refused hr hrefused
  | logout | other _ _ _ =>
    have hmarked : q.req.csrfHeader = sess.CSRFToken :=
      hm q hq hpage (by rw [hcall]; rfl) hmethod t sess hcookie hget
    rcases hheader with hnone | hne
    · exact hcsrf (hmarked.symm.trans hnone)
    · exact hne hmarked

theorem accepted_step (hr : A.router = .bySegments) (hI : Inv n) (hm : Marked i n)
    (h : Accepted i n) {e : Event} : Accepted i (step A n e) := by
  have hsend : ∀ j c, Accepted i (n.send j c) := by
    intro j c
    unfold Net.send
    split <;> exact h
  have hread : ∀ k data, Accepted i (n.read k data) := by
    intro k data
    unfold Net.read
    split
    · exact h
    · intro a ha
      rcases List.mem_append.mp ha with ha | ha
      · exact h a (List.mem_append_left _ ha)
      · exact h a (List.mem_append_right _ ((List.eraseIdx_sublist _ _).subset ha))
  cases e with
  | load =>
    have hload : Accepted i { n with pages := n.pages ++ [⟨none, none⟩] } := h
    simp only [step]
    unfold Net.send
    split <;> exact h
  | login j username password =>
    simp only [step]
    split
    · exact h
    · exact hsend _ _
  | logout j =>
    simp only [step]
    split
    · exact hsend _ _
    · exact h
  | call j method path body =>
    simp only [step]
    split
    · exact hsend _ _
    · exact h
  | deliver k d =>
    simp only [step, Net.deliver]
    split
    · exact h
    · rename_i q hq
      intro a ha hpage
      simp only [List.mem_append, List.mem_singleton] at ha
      rcases ha with (ha | rfl) | ha
      · exact h a (List.mem_append_left _ ha) hpage
      · exact deliver_accepted hr hI hm (List.mem_of_getElem? hq) hpage
      · exact h a (List.mem_append_right _ ha) hpage
  | head k =>
    simp only [step, Net.head]
    split
    · exact h
    · rename_i b hb
      intro a ha
      simp only [List.mem_append, List.mem_singleton] at ha
      rcases ha with ha | ha | rfl
      · exact h a (List.mem_append_left _ ((List.eraseIdx_sublist _ _).subset ha))
      · exact h a (List.mem_append_right _ ha)
      · exact h a (List.mem_append_left _ (List.mem_of_getElem? hb))
  | body k => exact hread k _
  | cut k => exact hread k _
  | dropRequest k =>
    simp only [step, Net.dropRequest]
    split <;> exact h
  | dropAnswer k =>
    simp only [step, Net.dropAnswer]
    split
    · exact h
    · intro a ha
      rcases List.mem_append.mp ha with ha | ha
      · exact h a (List.mem_append_left _ ((List.eraseIdx_sublist _ _).subset ha))
      · exact h a (List.mem_append_right _ ha)
  | forget => exact h
  | server e => exact h

/-! ## Runs -/

theorem Net.Fresh.of_unused (hcsrf : d.csrf ≠ []) (hstore : ∀ t, n.server.store.sessions t = none)
    (hmessages : n.answers ++ n.bodies = []) (hjar : n.jar = none)
    (hrequests : ∀ q ∈ n.requests, q.req.cookie = none)
    (hpages : ∀ p ∈ n.pages, p.csrfToken = none) :
    n.Fresh d where
  csrf := hcsrf
  unknown x hx := by
    rcases hx with ⟨t, ht⟩ | ⟨a, ha, -⟩
    · rw [hstore] at ht; cases ht
    · rw [hmessages] at ha; cases ha
  jar := by rw [hjar]; nofun
  requests q hq := by rw [hrequests q hq]; nofun
  pages p hp := by rw [hpages p hp]; nofun

def firstVisit : List Event :=
  [.load, .deliver 0 ⟨"t0", "c0", none, none⟩, .head 0, .body 0,
    .login 0 "admin" "secret", .deliver 0 ⟨"t1", "c1", none, none⟩, .head 0, .body 0]

theorem firstVisit_fresh :
    Guarded (step demo) FreshDraw (start demoAccounts 100 0 0 none) firstVisit := by
  refine ⟨trivial, ?_, trivial, trivial, trivial, ?_, trivial, trivial, trivial⟩
  · exact .of_unused (by decide) (fun _ => rfl) rfl rfl (by decide) (by decide)
  · exact .of_unused (by decide) (fun _ => rfl) rfl rfl (by decide) (by decide)

/-- Two tabs show the form, and the user signs in on one after the other. -/
def twoTabs : List Event :=
  [.load, .load, .login 0 "admin" "secret", .login 1 "admin" "secret",
    .deliver 2 ⟨"t1", "c1", none, none⟩, .head 0, .body 0,
    .deliver 2 ⟨"t2", "c2", none, none⟩, .head 0, .body 0]

example : ¬ InStep 0 (run (step demo) (start demoAccounts 100 0 0 none) twoTabs) := by
  intro h
  have hin : (some "c1" : Option Str) = some "c2" := h
    ⟨some "c1", some ⟨some "admin", some true, some "c1"⟩⟩ ⟨"t2", "admin", true, "c2", 100⟩
    (by decide) nofun ⟨"t2", by decide, by decide⟩
  exact absurd hin (by decide)

end Browser
end Server
end Nasd
