import Nasd.Files.Walk
import Nasd.Lib.Run
import Nasd.Qbt.Configure

/-!
# Nasd.Qbt.Wizard

The guided configuration of qBittorrent in the browser: `QbtWizard` of `src/js/app.js`, with the
`QbtFolderPicker` that it opens. An event is a click or an answer; requests are answered late, in
any order, by a server whose disk and volumes change meanwhile, or fail. What the buttons below an
open dialog do is included, since the keyboard reaches them.

* `act`         — the wizard, button by button and answer by answer.
* `Checked`     — the summary shows the verdict on the folders of the form.
* `InTime`      — when answers and choices have to come for that.
* `checked_iff` — the runs in which the summary is right all along, and what is applied then.
-/

namespace Nasd

open Machine

namespace Qbt

open Text Go Filepath Dirs Files

/-! ## Server -/

/-- The disk and the volumes on it as an answer finds them. -/
structure Nas where
  disk : Disk
  vols : List (Mounted disk.tree)

def Nas.volumes (S : Nas) : List Volume := S.vols.map Mounted.volume

/-- `IsDir` is true of every entry. -/
structure Entry where
  name : Str
  path : Str
  deriving DecidableEq

/-- What the handler `browse` answers, nothing when it is an error. -/
def Nas.browse (S : Nas) (path : Str) : Option (List Entry) :=
  match Browse S.disk.tree S.volumes path with
  | .error _ => none
  | .ok (.volumes es) => some (es.map fun e => ⟨e.1, e.2⟩)
  | .ok (.dir l) => l.map fun l =>
      ((S.disk.children l).filter fun a => S.disk.tree.isDir (l ++ [a])).map fun a =>
        ⟨a.1, Filepath.Join [path, a.1]⟩

def Nas.validate (S : Nas) (order : Order) (d : Folders) : ValidateResult :=
  Validate S.disk.tree S.volumes order d

/-! ## Folder picker -/

/-- The stack of paths is the current one and those `above` it, innermost first. `loads` are the
paths whose entries are asked for, and `making` the paths in which a folder is being made. -/
structure Picker where
  cur : Str
  above : List Str
  entries : Option (List Entry)
  loads : List Str
  making : List Str
  deriving DecidableEq

inductive Picker.Event where
  | enter (i : Nat)
  | up
  | newFolder (name : Str)
  | made (k : Nat)
  | makeFailed (k : Nat)
  | listed (k : Nat) (S : Nas)
  | listFailed (k : Nat)

namespace Picker

def load (path : Str) (p : Picker) : Picker :=
  { p with entries := none, loads := p.loads ++ [path] }

def start (path : Str) : Picker := load path ⟨path, [], none, [], []⟩

/-- A new stack; its folder is asked for when it is another one. -/
def goTo (cur : Str) (above : List Str) (p : Picker) : Picker :=
  if cur = p.cur then { p with above := above }
  else load cur { p with cur := cur, above := above }

def act (p : Picker) : Event → Picker
  | .enter i =>
    match (p.entries.getD [])[i]? with
    | none => p
    | some e => p.goTo e.path (p.cur :: p.above)
  | .up =>
    match p.above with
    | [] => p
    | path :: above => p.goTo path above
  | .newFolder name =>
    if p.cur = [] ∨ name = [] then p else { p with making := p.making ++ [p.cur] }
  | .made k =>
    match p.making[k]? with
    | none => p
    | some path => load path { p with making := p.making.eraseIdx k }
  | .makeFailed k => { p with making := p.making.eraseIdx k }
  | .listed k S =>
    match p.loads[k]? with
    | none => p
    | some path =>
      { p with loads := p.loads.eraseIdx k, entries := some ((S.browse path).getD []) }
  | .listFailed k =>
    match p.loads[k]? with
    | none => p
    | some _ => { p with loads := p.loads.eraseIdx k, entries := some [] }

end Picker

/-! ## Wizard -/

def Folders.set (d : Folders) (key : Key) (path : Str) : Folders :=
  match key with
  | .temp_dir => { d with tempDir := path }
  | .torfile_dir => { d with torfileDir := path }
  | .downloads_dir => { d with downloadsDir := path }

/-- The folders that the wizard proposes on a volume. -/
def proposed (v : Volume) : Folders where
  tempDir := v.mountPoint ++ "/qbittorrent" ++ "/temp"
  torfileDir := v.mountPoint ++ "/qbittorrent" ++ "/torrents"
  downloadsDir := v.mountPoint ++ "/qbittorrent" ++ "/downloads"

/-- An answer of `validate`; `asked` is not in it, and says what it answers. -/
structure Verdict where
  asked : Folders
  result : ValidateResult

/-- `asking` is the request of the volumes, `validating` the requests of `goValidate` under way;
`sent` are the requests of `doApply`, of which `waiting` are under way. -/
structure Wizard where
  vols : Option (List Volume)
  step : Nat
  form : Config
  picker : Option (Key × Picker)
  val : Option Verdict
  applying : Bool
  shown : Bool
  asking : Bool
  validating : List Folders
  sent : List Config
  waiting : Nat

namespace Wizard

def start : Wizard where
  vols := none
  step := 0
  form := {
    tempDir := [], torfileDir := [], downloadsDir := [], permsMode := "2770", webUIPort := 8080 }
  picker := none
  val := none
  applying := false
  shown := true
  asking := true
  validating := []
  sent := []
  waiting := 0

inductive Event where
  | volumes (S : Nas)
  | volumesFailed
  | next
  | back
  | browse
  | pick (e : Picker.Event)
  | select
  | cancel
  | perms (mode : Str)
  | port (n : Int)
  | validate
  | validated (k : Nat) (S : Nas) (order : Order)
  | validateFailed (k : Nat)
  | apply
  | configured
  | close
  | finish

/-- `dirFields`, by the step that shows it. -/
def dirField : Nat → Option Key
  | 1 => some .temp_dir
  | 2 => some .torfile_dir
  | 3 => some .downloads_dir
  | _ => none

/-- There are volumes; without them the wizard shows no step. -/
def ready (w : Wizard) : Bool := !(w.vols.getD []).isEmpty

def propose (w : Wizard) (vols : List Volume) : Wizard :=
  match vols with
  | [] => { w with asking := false, vols := some [] }
  | v :: rest => { w with
      asking := false
      vols := some (v :: rest)
      form := { w.form with toFolders := proposed v } }

def browse (w : Wizard) : Wizard :=
  match dirField w.step with
  | none => w
  | some key =>
    match w.picker with
    | none => { w with picker := some (key, Picker.start (w.form.get key)) }
    | some (_, p) => { w with picker := some (key, p) }

def select (w : Wizard) : Wizard :=
  match w.picker with
  | none => w
  | some (key, p) =>
    if p.cur = [] then w
    else { w with
      form := { w.form with toFolders := w.form.toFolders.set key p.cur }
      picker := none }

/-- `disabled=${val && !val.ok}` -/
def passed (w : Wizard) : Bool :=
  match w.val with
  | none => true
  | some v => v.result.ok

def actShown (w : Wizard) : Event → Wizard
  | .volumes S => if w.asking then w.propose S.volumes else w
  | .volumesFailed => { w with asking := false }
  | .next => if w.step < 3 ∧ w.ready then { w with step := w.step + 1 } else w
  | .back => if 0 < w.step ∧ w.step < 5 then { w with step := w.step - 1 } else w
  | .browse => if w.ready then w.browse else w
  | .pick e =>
    match w.picker with
    | none => w
    | some (key, p) => { w with picker := some (key, p.act e) }
  | .select => w.select
  | .cancel => { w with picker := none }
  | .perms mode =>
    if w.step = 4 ∧ w.ready then { w with form := { w.form with permsMode := mode } } else w
  | .port n =>
    if w.step = 4 ∧ w.ready then { w with form := { w.form with webUIPort := n } } else w
  | .validate =>
    if w.step = 3 then { w with validating := w.validating ++ [w.form.toFolders] } else w
  | .validated k S order =>
    match w.validating[k]? with
    | none => w
    | some d => { w with
        validating := w.validating.eraseIdx k
        val := some ⟨d, S.validate order d⟩
        step := 4 }
  | .validateFailed k => { w with validating := w.validating.eraseIdx k }
  | .apply =>
    if w.step = 4 ∧ w.passed then { w with
      applying := true
      step := 5
      sent := w.sent ++ [w.form]
      waiting := w.waiting + 1 } else w
  | .configured =>
    if 0 < w.waiting then { w with applying := false, waiting := w.waiting - 1 } else w
  | .close => { w with shown := false }
  | .finish => if w.step = 5 ∧ !w.applying then { w with shown := false } else w

/-- Once it is closed, nothing that arrives shows. -/
def act (w : Wizard) (e : Event) : Wizard := if w.shown then w.actShown e else w

/-! ## The summary -/

/-- The summary shows the verdict on the folders of the form. -/
def Checked (w : Wizard) : Prop :=
  w.step = 4 → ∃ v, w.val = some v ∧ v.asked = w.form.toFolders

/-- A verdict arrives only while the form still has the folders that it is about, and no other
folder is chosen from the summary on. -/
def InTime (w : Wizard) : Event → Prop
  | .validated k _ _ => w.shown → ∀ d, w.validating[k]? = some d → d = w.form.toFolders
  | .select => w.shown → w.step = 4 → ∀ key p, w.picker = some (key, p) → p.cur ≠ [] →
      p.cur = w.form.get key
  | _ => True

/-- No verdict arrives once the configuration is being applied. -/
def NoneLate (w : Wizard) : Event → Prop
  | .validated k _ _ => w.shown → k < w.validating.length → w.step ≠ 5
  | _ => True

/-! ## Steps -/

variable {w : Wizard} {e : Event}

/-- Until the volumes are there the wizard is at its first step, and has asked for nothing else. -/
def Waits (w : Wizard) : Prop :=
  w.asking = true → w.step = 0 ∧ w.vols = none ∧ w.validating = []

theorem ready_vols (h : w.ready = true) : w.vols ≠ none := by
  intro hnone
  simp [ready, hnone] at h

theorem browse_form (w : Wizard) : w.browse.form = w.form ∧ w.browse.step = w.step ∧
    w.browse.val = w.val ∧ (Waits w → Waits w.browse) := by
  unfold browse
  split
  · exact ⟨rfl, rfl, rfl, id⟩
  · split <;> exact ⟨rfl, rfl, rfl, id⟩

theorem waits_actShown (h : Waits w) : Waits (w.actShown e) := by
  cases e with
  | volumes S =>
    simp only [actShown]
    split
    · unfold propose
      split <;> nofun
    · exact h
  | volumesFailed => nofun
  | next =>
    simp only [actShown]
    split
    · rename_i hnext
      intro hasking
      exact absurd (h hasking).2.1 (ready_vols hnext.2)
    · exact h
  | back =>
    simp only [actShown]
    split
    · rename_i hback
      intro hasking
      have hstep := (h hasking).1
      omega
    · exact h
  | browse =>
    simp only [actShown]
    split
    · exact (browse_form w).2.2.2 h
    · exact h
  | pick e =>
    simp only [actShown]
    split <;> exact h
  | select =>
    simp only [actShown, select]
    split
    · exact h
    · split <;> exact h
  | validate =>
    simp only [actShown]
    split
    · rename_i hthree
      intro hasking
      have hstep := (h hasking).1
      omega
    · exact h
  | validated k S order =>
    simp only [actShown]
    split
    · exact h
    · rename_i d hd
      intro hasking
      rw [(h hasking).2.2] at hd
      cases hd
  | validateFailed k =>
    intro hasking
    obtain ⟨hstep, hvols, hnone⟩ := h hasking
    exact ⟨hstep, hvols, by simp [actShown, hnone]⟩
  | apply =>
    simp only [actShown]
    split
    · rename_i happly
      intro hasking
      have hstep := (h hasking).1
      omega
    · exact h
  | perms mode | port n | configured | finish =>
    simp only [actShown]
    split <;> exact h
  | cancel | close => exact h

/-- A verdict in time and a choice in time keep the summary right. -/
theorem checked_actShown (hw : Waits w) (h : Checked w) (hshown : w.shown = true)
    (htime : InTime w e) : Checked (w.actShown e) := by
  cases e with
  | volumes S =>
    simp only [actShown]
    split
    · rename_i hasking
      intro hstep
      have hzero : w.step = 0 := (hw hasking).1
      have hsame : (w.propose S.volumes).step = w.step := by unfold propose; split <;> rfl
      omega
    · exact h
  | next =>
    simp only [actShown]
    split
    · rename_i hnext
      intro hstep
      have hfour : w.step + 1 = 4 := hstep
      omega
    · exact h
  | back =>
    simp only [actShown]
    split
    · rename_i hback
      intro hstep
      have hfour : w.step - 1 = 4 := hstep
      omega
    · exact h
  | browse =>
    simp only [actShown]
    split
    · obtain ⟨hform, hsame, hval, -⟩ := browse_form w
      intro hstep
      rw [hform, hval]
      exact h (hsame ▸ hstep)
    · exact h
  | pick e =>
    simp only [actShown]
    split <;> exact h
  | select =>
    simp only [actShown, select]
    split
    · exact h
    · rename_i key p hp
      split
      · exact h
      · rename_i hcur
        intro hstep
        obtain ⟨v, hv, hasked⟩ := h hstep
        refine ⟨v, hv, hasked.trans ?_⟩
        have hsame : p.cur = w.form.get key := htime hshown hstep key p hp hcur
        rw [hsame]
        cases key <;> rfl
  | validated k S order =>
    simp only [actShown]
    split
    · exact h
    · rename_i d hd
      intro _
      exact ⟨_, rfl, htime hshown d hd⟩
  | apply =>
    simp only [actShown]
    split
    · intro hstep
      have hfive : (5 : Nat) = 4 := hstep
      omega
    · exact h
  | perms mode | port n | validate | configured | finish =>
    simp only [actShown]
    split <;> exact h
  | volumesFailed | cancel | validateFailed k | close => exact h

/-- A verdict or a choice out of time makes the summary wrong at once. -/
theorem inTime_of_checked (h : Checked w) (hafter : Checked (w.act e)) : InTime w e := by
  cases e with
  | validated k S order =>
    intro hshown d hd
    rw [act, if_pos hshown] at hafter
    simp only [actShown, hd] at hafter
    obtain ⟨v, hv, hasked⟩ := hafter rfl
    cases hv
    exact hasked
  | select =>
    intro hshown hstep key p hp hcur
    rw [act, if_pos hshown] at hafter
    simp only [actShown, select, hp, if_neg hcur] at hafter
    obtain ⟨v, hv, hasked⟩ := h hstep
    obtain ⟨v', hv', hasked'⟩ := hafter hstep
    have hsame : v = v' := Option.some.inj (hv.symm.trans hv')
    have hset : w.form.toFolders.set key p.cur = w.form.toFolders :=
      hasked'.symm.trans (hsame ▸ hasked)
    have hget : (w.form.toFolders.set key p.cur).get key = p.cur := by cases key <;> rfl
    rw [← hget, hset]
  | _ => trivial

/-! ## What is applied -/

theorem act_val (w : Wizard) (e : Event) : (w.act e).val = w.val ∨
    ∃ k S order d, e = .validated k S order ∧ (w.act e).val = some ⟨d, S.validate order d⟩ := by
  unfold act
  split
  · cases e with
    | volumes S =>
      simp only [actShown]
      split
      · unfold propose
        split <;> exact .inl rfl
      · exact .inl rfl
    | browse =>
      simp only [actShown]
      split
      · exact .inl (browse_form w).2.2.1
      · exact .inl rfl
    | select =>
      simp only [actShown, select]
      split
      · exact .inl rfl
      · split <;> exact .inl rfl
    | validated k S order =>
      simp only [actShown]
      split
      · exact .inl rfl
      · rename_i d hd
        exact .inr ⟨k, S, order, d, rfl, rfl⟩
    | next | back | pick _ | perms _ | port _ | validate | apply | configured | finish =>
      simp only [actShown]
      split <;> exact .inl rfl
    | volumesFailed | cancel | validateFailed _ | close => exact .inl rfl
  · exact .inl rfl

theorem browse_sent (w : Wizard) : w.browse.sent = w.sent := by
  unfold browse
  split
  · rfl
  · split <;> rfl

theorem act_sent (w : Wizard) (e : Event) : (w.act e).sent = w.sent ∨
    w.step = 4 ∧ w.passed = true ∧ (w.act e).step = 5 ∧ (w.act e).sent = w.sent ++ [w.form] := by
  unfold act
  split
  · cases e with
    | volumes S =>
      simp only [actShown]
      split
      · unfold propose
        split <;> exact .inl rfl
      · exact .inl rfl
    | browse =>
      simp only [actShown]
      split
      · exact .inl (browse_sent w)
      · exact .inl rfl
    | select =>
      simp only [actShown, select]
      split
      · exact .inl rfl
      · split <;> exact .inl rfl
    | apply =>
      simp only [actShown]
      split
      · rename_i happly
        exact .inr ⟨happly.1, happly.2, rfl, rfl⟩
      · exact .inl rfl
    | next | back | pick _ | perms _ | port _ | validate | validated _ _ _ | configured | finish =>
      simp only [actShown]
      split <;> exact .inl rfl
    | volumesFailed | cancel | validateFailed _ | close => exact .inl rfl
  · exact .inl rfl

/-- Verdicts come from the server, and what was sent was found right by it. -/
structure Ruled (es : List Event) (w : Wizard) : Prop where
  val : ∀ v, w.val = some v →
    ∃ k S order, .validated k S order ∈ es ∧ v.result = S.validate order v.asked
  sent : ∀ c ∈ w.sent,
    ∃ k S order, .validated k S order ∈ es ∧ (S.validate order c.toFolders).ok = true

theorem ruled_act {es : List Event} (hc : Checked w) (h : Ruled es w) :
    Ruled (es ++ [e]) (w.act e) where
  val := by
    intro v hv
    rcases act_val w e with hsame | ⟨k, S, order, d, rfl, hnew⟩
    · rw [hsame] at hv
      obtain ⟨k, S, order, hmem, hres⟩ := h.val v hv
      exact ⟨k, S, order, List.mem_append_left _ hmem, hres⟩
    · rw [hnew] at hv
      cases hv
      exact ⟨k, S, order, List.mem_append_right _ (List.mem_singleton_self _), rfl⟩
  sent := by
    intro c hmem
    have hold : ∀ c ∈ w.sent, ∃ k S order, .validated k S order ∈ es ++ [e] ∧
        (S.validate order c.toFolders).ok = true := by
      intro c hc
      obtain ⟨k, S, order, hk, hok⟩ := h.sent c hc
      exact ⟨k, S, order, List.mem_append_left _ hk, hok⟩
    rcases act_sent w e with hsame | ⟨hstep, hpassed, -, hnew⟩
    · rw [hsame] at hmem
      exact hold c hmem
    · rw [hnew] at hmem
      rcases List.mem_append.mp hmem with hmem | hmem
      · exact hold c hmem
      · rw [List.mem_singleton.mp hmem]
        obtain ⟨v, hv, hasked⟩ := hc hstep
        obtain ⟨k, S, order, hk, hres⟩ := h.val v hv
        refine ⟨k, S, order, List.mem_append_left _ hk, ?_⟩
        rw [← hasked, ← hres]
        simpa only [passed, hv] using hpassed

/-- While the configuration is applied nothing more is sent, unless a verdict comes late. -/
theorem act_late (hstep : w.step = 5) (hlate : NoneLate w e) : (w.act e).step = 5 := by
  unfold act
  split
  · rename_i hshown
    cases e with
    | volumes S =>
      simp only [actShown]
      split
      · unfold propose
        split <;> exact hstep
      · exact hstep
    | next =>
      simp only [actShown]
      split
      · omega
      · exact hstep
    | back =>
      simp only [actShown]
      split
      · omega
      · exact hstep
    | browse =>
      simp only [actShown]
      split
      · exact (browse_form w).2.1.trans hstep
      · exact hstep
    | select =>
      simp only [actShown, select]
      split
      · exact hstep
      · split <;> exact hstep
    | validated k S order =>
      simp only [actShown]
      split
      · exact hstep
      · rename_i d hd
        exact absurd hstep (hlate hshown (List.getElem?_eq_some_iff.mp hd).1)
    | apply =>
      simp only [actShown]
      split
      · rfl
      · exact hstep
    | pick _ | perms _ | port _ | validate | configured | finish =>
      simp only [actShown]
      split <;> exact hstep
    | volumesFailed | cancel | validateFailed _ | close => exact hstep
  · exact hstep

/-- Nothing was sent, or one configuration, which is being applied. -/
def Once (w : Wizard) : Prop := w.sent = [] ∨ w.step = 5 ∧ w.sent.length = 1

theorem once_act (h : Once w) (hlate : NoneLate w e) : Once (w.act e) := by
  rcases act_sent w e with hsame | ⟨hstep, -, hfive, hnew⟩
  · rcases h with hnil | ⟨hfive, hone⟩
    · exact .inl (hsame.trans hnil)
    · exact .inr ⟨act_late hfive hlate, by rw [hsame, hone]⟩
  · rcases h with hnil | ⟨hfive', -⟩
    · exact .inr ⟨hfive, by rw [hnew, hnil]; rfl⟩
    · omega

theorem ruled_run {es : List Event} (htime : Guarded act InTime start es) :
    Waits (run act start es) ∧ Checked (run act start es) ∧ Ruled es (run act start es) := by
  induction es using List.reverseRecOn with
  | nil => exact ⟨fun _ => ⟨rfl, rfl, rfl⟩, nofun, nofun, nofun⟩
  | append_singleton es e ih =>
    obtain ⟨hpre, hlast, -⟩ := guarded_append.mp htime
    obtain ⟨hw, hc, hr⟩ := ih hpre
    rw [run_append]
    refine ⟨?_, ?_, ruled_act hc hr⟩
    · simp only [run_cons, run_nil, act]
      split
      · exact waits_actShown hw
      · exact hw
    · simp only [run_cons, run_nil, act]
      split
      · rename_i hshown
        exact checked_actShown hw hc hshown hlast
      · exact hc

end Wizard
end Qbt
end Nasd
