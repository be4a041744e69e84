import Nasd.Lib.Trace
import Nasd.Raid.Disks
import Nasd.Raid.Client

/-!
# Nasd.Raid.Page

The dialog `CreateArrayModal` of `src/js/app.js` over the view that opens it, and the requests by
which the page takes disks that it shows as free: to create an array, to add them to one, to wipe
them. An event is one of the view, or a change in the dialog.

* `held_step`          — a disk is held by an open dialog since it was shown as free.
* `calls_asked`        — every call of the view that takes disks is one of the requests.
* `os_disk_spared_iff` — when the disk of the system can never be taken.
* `asked_offered`      — a disk that a request takes was shown as free when it was chosen.
* `creation_checked`   — what can still be refused of a request for an array.
-/

namespace Nasd
namespace Raid

open Text Machine Sys
open View (isAvailable availableDisks)

/-! ## The dialog -/

structure Dialog where
  selected : List Str
  level : Str
  name : Str

namespace Dialog

def start : Dialog := ⟨[], [], "md0"⟩

def toggle (device : Str) (d : Dialog) : Dialog :=
  { d with
    selected := if device ∈ d.selected then d.selected.erase device else d.selected ++ [device]
    level := [] }

def levelOptions (count : Nat) : List Str :=
  if count < 2 then []
  else if count = 2 then ["0", "1"]
  else if count = 3 then ["0", "5"]
  else ["0", "1", "5", "6", "10"]

/-- The body of `api.createArray`. -/
structure Creation where
  device : Str
  level : Str
  devices : List Str
  confirm : Bool
  deriving DecidableEq

def creation (d : Dialog) : Creation where
  device := "/dev/" ++ Client.bare d.name
  level := d.level
  devices := d.selected
  confirm := true

end Dialog

/-! ## The page -/

/-- A request that takes disks. -/
inductive Taking where
  | create (req : Dialog.Creation)
  | add (mdDevice : Str) (disks : List Str)
  | wipe (device : Str)
  deriving DecidableEq

def Taking.disks : Taking → List Str
  | .create req => req.devices
  | .add _ disks => disks
  | .wipe device => [device]

def Taking.call : Taking → View.Call
  | .create _ => .createArray
  | .add mdDevice disks => .addDisks mdDevice disks
  | .wipe device => .wipeDisk device

/-- The view, the dialog for a new array, and the requests so far that took disks. -/
structure Page where
  view : View
  dialog : Dialog
  asked : List Taking

namespace Page

def start : Page := ⟨View.start, .start, []⟩

/-- The dialog for a new array is open. -/
def creating (v : View) : Bool :=
  match v.modal with
  | some .create => true
  | _ => false

/-- `submit` is a click on the button of the dialog, with the answer to its question. Its level and
its checkboxes are those on offer. -/
inductive Event where
  | view (e : View.Event)
  | toggle (device : Str)
  | setLevel (level : Str)
  | setName (name : Str)
  | submit (agreed : Bool)

def canSubmit (d : Dialog) : Bool := d.level ≠ [] && decide (2 ≤ d.selected.length)

/-- The request by which an event takes disks. -/
def takes (p : Page) : Event → Option Taking
  | .submit agreed =>
    if creating p.view && canSubmit p.dialog && agreed then some (.create p.dialog.creation)
    else none
  | .view .confirm =>
    match p.view.modal with
    | some (.expand a selected) =>
      if a.array.level ∈ [("0" : Str), "1"] ∨ selected = [] then none
      else if a.array.level = "10" ∧ selected.length % 2 ≠ 0 then none
      else some (.add a.array.device selected)
    | some (.rebuild a sel) => if sel = [] then none else some (.add a.array.device [sel])
    | some (.wipeDisk device) => some (.wipe device)
    | _ => none
  | _ => none

/-- What an event does to the view: the button of the dialog is `submit`. -/
def stepView (p : Page) : Event → View
  | .view .confirm => if creating p.view then p.view else View.confirm p.view
  | .view e => View.step p.view e
  | .submit agreed =>
    if creating p.view && canSubmit p.dialog && agreed then View.confirm p.view else p.view
  | _ => p.view

/-- A dialog that is opened is a new one. -/
def stepDialog (p : Page) : Event → Dialog
  | .toggle device =>
    if creating p.view && isAvailable p.view device then p.dialog.toggle device else p.dialog
  | .setLevel level =>
    if creating p.view && (level = [] || level ∈ Dialog.levelOptions p.dialog.selected.length) then
      { p.dialog with level := level }
    else p.dialog
  | .setName name => if creating p.view then { p.dialog with name := name } else p.dialog
  | _ => if creating p.view then p.dialog else .start

def step (p : Page) (e : Event) : Page where
  view := stepView p e
  dialog := stepDialog p e
  asked := p.asked ++ (takes p e).toList

variable {p : Page} {e : Event} {t : Taking} {d : Str}

theorem creating_iff {v : View} : creating v = true ↔ v.modal = some .create := by
  unfold creating
  split
  · rename_i hmodal
    exact iff_of_true rfl hmodal
  · rename_i hmodal
    exact iff_of_false Bool.false_ne_true hmodal

/-! ## The requests of the view -/

/-- The calls of the view that take disks. -/
def takesDisks : View.Call → Bool
  | .createArray | .addDisks _ _ | .wipeDisk _ => true
  | .removeDisk _ _ | .deleteArray _ => false

theorem confirm_calls (p : Page) :
    (takes p (.view .confirm) = none ∧ (View.confirm p.view).calls = p.view.calls) ∨
    (takes p (.view .confirm) = none ∧ ∃ md disk,
      (View.confirm p.view).calls = p.view.calls ++ [.removeDisk md disk]) ∨
    (creating p.view = true ∧ (View.confirm p.view).calls = p.view.calls ++ [.createArray]) ∨
    ∃ t, takes p (.view .confirm) = some t ∧
      (View.confirm p.view).calls = p.view.calls ++ [t.call] := by
  unfold takes View.confirm creating
  cases p.view.modal with
  | none => exact .inl ⟨rfl, rfl⟩
  | some modal =>
    cases modal with
    | create => exact .inr (.inr (.inl ⟨rfl, rfl⟩))
    | expand a selected =>
      dsimp only
      split
      · exact .inl ⟨rfl, rfl⟩
      · split
        · exact .inl ⟨rfl, rfl⟩
        · exact .inr (.inr (.inr ⟨_, rfl, rfl⟩))
    | markFailed a sel =>
      dsimp only
      split
      · exact .inl ⟨rfl, rfl⟩
      · exact .inr (.inl ⟨rfl, _, _, rfl⟩)
    | rebuild a sel =>
      dsimp only
      split
      · exact .inl ⟨rfl, rfl⟩
      · exact .inr (.inr (.inr ⟨_, rfl, rfl⟩))
    | wipeDisk device => exact .inr (.inr (.inr ⟨_, rfl, rfl⟩))

theorem returned_calls (k : Nat) (res : Except Str Unit) (v : View) :
    (View.returned k res v).calls ⊆ v.calls := by
  unfold View.returned
  split
  · exact fun _ h => h
  all_goals exact List.eraseIdx_subset

/-- What an event asks for: a deletion by the button of a row, or what the button of a dialog
does. -/
theorem step_calls {v : View} {e : View.Event} {c : View.Call} (hc : c ∈ (View.step v e).calls) :
    c ∈ v.calls ∨ (∃ md, c = .deleteArray md) ∨ e = .confirm := by
  cases e with
  | arrays reload res =>
    left
    unfold View.step View.answerArrays at hc
    dsimp only at hc
    split at hc
    · cases res <;> exact hc
    · exact hc
  | disks reload res =>
    left
    unfold View.step View.answerDisks at hc
    dsimp only at hc
    split at hc
    · cases res <;> exact hc
    · exact hc
  | returned k res => exact .inl (returned_calls k res v hc)
  | tick k =>
    left
    unfold View.step View.tick at hc
    dsimp only at hc
    split at hc
    · exact hc
    · split at hc <;> exact hc
  | press row button =>
    unfold View.step View.press at hc
    dsimp only at hc
    split at hc
    · exact .inl hc
    · split at hc
      · exact .inl hc
      · cases button with
        | delete =>
          rcases List.mem_append.mp hc with hc | hc
          · exact .inl hc
          · exact .inr (.inl ⟨_, List.mem_singleton.mp hc⟩)
        | _ => exact .inl hc
  | openWipe k =>
    left
    unfold View.step at hc
    dsimp only at hc
    split at hc <;> exact hc
  | select device =>
    left
    unfold View.step View.select at hc
    dsimp only at hc
    split at hc
    · split at hc
      · exact hc
      · split at hc <;> exact hc
    · split at hc <;> exact hc
    · split at hc <;> exact hc
    · exact hc
  | confirm => exact .inr (.inr rfl)
  | _ => exact .inl hc

/-- A call of the view that takes disks is one of the requests. -/
theorem calls_takes {c : View.Call} (hc : c ∈ (step p e).view.calls)
    (htakes : takesDisks c = true) : c ∈ p.view.calls ∨ ∃ t, takes p e = some t ∧ c = t.call := by
  cases e with
  | view e =>
    by_cases hconfirm : e = .confirm
    · subst hconfirm
      unfold step stepView at hc
      dsimp only at hc
      split at hc
      · exact .inl hc
      · rename_i hcreating
        rcases confirm_calls p with ⟨-, hcalls⟩ | ⟨-, md, disk, hcalls⟩ | ⟨hcreate, -⟩ |
          ⟨t, ht, hcalls⟩
        · exact .inl (hcalls ▸ hc)
        · rw [hcalls] at hc
          rcases List.mem_append.mp hc with hc | hc
          · exact .inl hc
          · rw [List.mem_singleton.mp hc] at htakes
            cases htakes
        · exact absurd hcreate hcreating
        · rw [hcalls] at hc
          rcases List.mem_append.mp hc with hc | hc
          · exact .inl hc
          · exact .inr ⟨t, ht, List.mem_singleton.mp hc⟩
    · have hview : (step p (.view e)).view = View.step p.view e := by
        cases e with
        | confirm => exact absurd rfl hconfirm
        | _ => rfl
      rw [hview] at hc
      rcases step_calls hc with hc | ⟨md, rfl⟩ | rfl
      · exact .inl hc
      · cases htakes
      · exact absurd rfl hconfirm
  | submit agreed =>
    unfold step stepView at hc
    dsimp only at hc
    split at hc
    · rename_i hsubmit
      have hmodal : creating p.view = true := by
        simp only [Bool.and_eq_true] at hsubmit
        exact hsubmit.1.1
      have hcalls : (View.confirm p.view).calls = p.view.calls ++ [.createArray] := by
        rw [View.confirm, creating_iff.mp hmodal]
      rw [hcalls] at hc
      rcases List.mem_append.mp hc with hc | hc
      · exact .inl hc
      · exact .inr ⟨_, if_pos hsubmit, List.mem_singleton.mp hc⟩
    · exact .inl hc
  | _ => exact .inl hc

theorem stepView_cases (p : Page) (e : Event) : stepView p e = p.view ∨
    (∃ e', e = .view e' ∧ stepView p e = View.step p.view e') ∨
      stepView p e = View.confirm p.view := by
  cases e with
  | view e =>
    cases e with
    | confirm =>
      unfold stepView
      dsimp only
      split
      · exact .inl rfl
      · exact .inr (.inr rfl)
    | _ => exact .inr (.inl ⟨_, rfl, rfl⟩)
  | submit agreed =>
    unfold stepView
    dsimp only
    split
    · exact .inr (.inr rfl)
    · exact .inl rfl
  | _ => exact .inl rfl

/-! ## Disks in an open dialog -/

/-- The disks that a dialog holds. -/
def heldBy (modal : Option View.Modal) (selected : List Str) : List Str :=
  match modal with
  | some .create => selected
  | some (.expand _ selected) => selected
  | some (.rebuild _ sel) => if sel = [] then [] else [sel]
  | some (.wipeDisk device) => [device]
  | _ => []

def held (p : Page) : List Str := heldBy p.view.modal p.dialog.selected

theorem takes_held (ht : takes p e = some t) : t.disks ⊆ held p := by
  unfold held
  cases e with
  | submit agreed =>
    unfold takes at ht
    dsimp only at ht
    split at ht
    · rename_i hsubmit
      simp only [Bool.and_eq_true] at hsubmit
      cases ht
      rw [creating_iff.mp hsubmit.1.1]
      exact fun _ h => h
    · cases ht
  | view e =>
    unfold takes at ht
    split at ht
    · rename_i heq
      cases heq
    · split at ht
      · rename_i hmodal
        rw [hmodal]
        split at ht
        · cases ht
        · split at ht
          · cases ht
          · cases ht
            exact fun _ h => h
      · rename_i a sel hmodal
        rw [hmodal]
        split at ht
        · cases ht
        · rename_i hsel
          cases ht
          simp [heldBy, hsel, Taking.disks]
      · rename_i device hmodal
        rw [hmodal]
        cases ht
        exact fun _ h => h
      · cases ht
    · cases ht
  | _ => cases ht

theorem press_held {v : View} {row : Nat} {button : View.Button} {selected : List Str}
    (hd : d ∈ heldBy (View.press row button v).modal selected) :
    d ∈ heldBy v.modal selected := by
  unfold View.press at hd
  split at hd
  · exact hd
  · split at hd
    · exact hd
    · split at hd
      · simp [heldBy] at hd
      · simp [heldBy] at hd
      · simp [heldBy] at hd
      · exact hd

theorem select_held {v : View} {device : Str} {selected : List Str}
    (hd : d ∈ heldBy (View.select device v).modal selected) :
    isAvailable v d = true ∨ d ∈ heldBy v.modal selected := by
  unfold View.select at hd
  split at hd
  · rename_i a sel hmodal
    rw [hmodal]
    split at hd
    · rw [hmodal] at hd
      exact .inr hd
    · rename_i havail
      split at hd
      · exact .inr (List.mem_of_mem_erase hd)
      · rcases List.mem_append.mp hd with hd | hd
        · exact .inr hd
        · rw [List.mem_singleton.mp hd]
          exact .inl (by simpa using havail)
  · rename_i a sel hmodal
    split at hd
    · simp [heldBy] at hd
    · exact .inr hd
  · rename_i a sel hmodal
    split at hd
    · rename_i havail
      simp only [heldBy] at hd
      split at hd
      · simp at hd
      · rename_i hne
        rw [List.mem_singleton.mp hd]
        exact .inl (havail.resolve_left hne)
    · exact .inr hd
  · exact .inr hd

theorem openWipe_held {v : View} {k : Nat} {selected : List Str}
    (hd : d ∈ heldBy (View.step v (.openWipe k)).modal selected) :
    isAvailable v d = true ∨ d ∈ heldBy v.modal selected := by
  unfold View.step at hd
  dsimp only at hd
  split at hd
  · rename_i disk hdisk
    rw [heldBy, List.mem_singleton] at hd
    subst hd
    exact .inl (List.any_eq_true.mpr ⟨disk, List.mem_of_getElem? hdisk, by simp⟩)
  · exact .inr hd

theorem confirm_held {v : View} {selected : List Str}
    (hd : d ∈ heldBy (View.confirm v).modal selected) : d ∈ heldBy v.modal selected := by
  unfold View.confirm at hd
  cases hmodal : v.modal with
  | none => simpa [hmodal] using hd
  | some modal =>
    rw [hmodal] at hd
    cases modal with
    | create => exact hd
    | expand a sel =>
      dsimp only at hd
      split at hd
      · rwa [hmodal] at hd
      · split at hd
        · rwa [hmodal] at hd
        · cases hd
    | markFailed a sel =>
      dsimp only at hd
      split at hd
      · rwa [hmodal] at hd
      · cases hd
    | rebuild a sel =>
      dsimp only at hd
      split at hd
      · rwa [hmodal] at hd
      · cases hd
    | wipeDisk device =>
      dsimp only [View.handleWipeDisk] at hd
      rwa [hmodal] at hd

/-- What an event of the view leaves in a dialog was there, or was shown as free. -/
theorem viewStep_held {v : View} {e : View.Event} {selected : List Str}
    (hd : d ∈ heldBy (View.step v e).modal selected)
    (hcreating : creating v = true ∨ selected = []) :
    isAvailable v d = true ∨ d ∈ heldBy v.modal selected := by
  cases e with
  | raidStatus => exact .inr hd
  | onLoad => exact .inr hd
  | arrays reload res =>
    unfold View.step View.answerArrays at hd
    dsimp only at hd
    split at hd
    · cases res <;> exact .inr hd
    · exact .inr hd
  | disks reload res =>
    unfold View.step View.answerDisks at hd
    dsimp only at hd
    split at hd
    · cases res <;> exact .inr hd
    · exact .inr hd
  | returned k res =>
    unfold View.step View.returned at hd
    dsimp only at hd
    split at hd
    all_goals first | exact .inr hd | cases hd
  | tick k =>
    unfold View.step View.tick at hd
    dsimp only at hd
    split at hd
    · exact .inr hd
    · split at hd <;> exact .inr hd
  | press row button => exact .inr (press_held hd)
  | openCreate =>
    rcases hcreating with hmodal | rfl
    · rw [creating_iff.mp hmodal]
      exact .inr hd
    · cases hd
  | openWipe k => exact openWipe_held hd
  | close => cases hd
  | select device => exact select_held hd
  | confirm => exact .inr (confirm_held hd)

theorem heldBy_nil {modal : Option View.Modal} {selected : List Str} (hd : d ∈ heldBy modal []) :
    d ∈ heldBy modal selected := by
  unfold heldBy at hd ⊢
  split at hd
  · cases hd
  all_goals exact hd

theorem toggle_held {device : Str} {dialog : Dialog}
    (hd : d ∈ (dialog.toggle device).selected) : d = device ∨ d ∈ dialog.selected := by
  unfold Dialog.toggle at hd
  dsimp only at hd
  split at hd
  · exact .inr (List.mem_of_mem_erase hd)
  · rcases List.mem_append.mp hd with hd | hd
    · exact .inr hd
    · exact .inl (List.mem_singleton.mp hd)

/-- A disk that a dialog holds was held before, or was shown as free. -/
theorem held_step (hd : d ∈ held (step p e)) : isAvailable p.view d = true ∨ d ∈ held p := by
  have hdialog : ∀ w : View,
      d ∈ heldBy w.modal (if creating p.view then p.dialog else .start).selected →
        d ∈ heldBy w.modal p.dialog.selected := by
    intro w hw
    split at hw
    · exact hw
    · exact heldBy_nil hw
  cases e with
  | view e =>
    by_cases hconfirm : e = .confirm
    · subst hconfirm
      right
      unfold held step stepView stepDialog at hd
      dsimp only at hd
      split at hd
      · exact hd
      · exact confirm_held (heldBy_nil hd)
    · have hview : stepView p (.view e) = View.step p.view e := by
        cases e with
        | confirm => exact absurd rfl hconfirm
        | _ => rfl
      unfold held step stepDialog at hd
      rw [hview] at hd
      cases hcreating : creating p.view with
      | true =>
        rw [hcreating] at hd
        exact viewStep_held hd (.inl hcreating)
      | false =>
        rw [hcreating] at hd
        exact (viewStep_held hd (.inr rfl)).imp id heldBy_nil
  | toggle device =>
    unfold held step stepView stepDialog at hd
    dsimp only at hd
    split at hd
    · rename_i hfree
      simp only [Bool.and_eq_true] at hfree
      rw [creating_iff.mp hfree.1] at hd
      rcases toggle_held hd with rfl | hd
      · exact .inl hfree.2
      · right
        rw [held, creating_iff.mp hfree.1]
        exact hd
    · exact .inr hd
  | setLevel level =>
    right
    unfold held step stepView stepDialog at hd
    dsimp only at hd
    split at hd <;> exact hd
  | setName name =>
    right
    unfold held step stepView stepDialog at hd
    dsimp only at hd
    split at hd <;> exact hd
  | submit agreed =>
    right
    unfold held step stepView stepDialog at hd
    dsimp only at hd
    split at hd
    · exact confirm_held (hdialog _ hd)
    · exact hdialog _ hd

/-! ## Every request -/

theorem asked_origin {es : List Event} (ht : t ∈ (run step start es).asked) :
    ∃ pre e post, es = pre ++ e :: post ∧ takes (run step start pre) e = some t := by
  have hstep : ∀ p e t, t ∈ (step p e).asked → takes p e = some t ∨ (t ∈ p.asked ∧ True) := by
    intro p e t ht
    rcases List.mem_append.mp ht with ht | ht
    · exact .inr ⟨ht, trivial⟩
    · exact .inl (Option.mem_toList.mp ht)
  rcases run_origin (Q := fun (p : Page) t => t ∈ p.asked) hstep start t es ht with
    ⟨hstart, -⟩ | ⟨pre, e, post, hes, htakes, -⟩
  · cases hstart
  · exact ⟨pre, e, post, hes, htakes⟩

/-- The calls of the view that take disks are among the requests. -/
theorem calls_asked (es : List Event) : ∀ c ∈ (run step start es).view.calls,
    takesDisks c = true → ∃ t ∈ (run step start es).asked, c = t.call := by
  induction es using List.reverseRecOn with
  | nil => exact fun c hc => absurd hc List.not_mem_nil
  | append_singleton es e ih =>
    intro c hc htakes
    rw [run_append, run_cons, run_nil] at hc ⊢
    rcases calls_takes hc htakes with hc | ⟨t, ht, hcall⟩
    · obtain ⟨t, ht, hcall⟩ := ih c hc htakes
      exact ⟨t, List.mem_append_left _ ht, hcall⟩
    · exact ⟨t, List.mem_append_right _ (Option.mem_toList.mpr ht), hcall⟩

theorem held_origin {es : List Event} (hd : d ∈ held (run step start es)) :
    ∃ pre e post, es = pre ++ e :: post ∧ isAvailable (run step start pre).view d = true ∧
      Guarded step (fun p _ => d ∈ held p) (run step start (pre ++ [e])) post := by
  have hstep : ∀ p e d, d ∈ held (step p e) →
      isAvailable p.view d = true ∨ (d ∈ held p ∧ d ∈ held p) :=
    fun p e d hd => (held_step hd).imp id fun h => ⟨h, h⟩
  rcases run_origin (Q := fun (p : Page) d => d ∈ held p) hstep start d es hd with
    ⟨hstart, -⟩ | horigin
  · cases hstart
  · exact horigin

/-! ## The disk of the system -/

variable {σ : Type} {R : Runner σ} {h : Host σ} {T : Topology}

/-- The answers with disks are those of `ListDisks`. -/
def Answered (R : Runner σ) (_ : Page) : Event → Prop
  | .view (.disks _ (.ok disks)) =>
    ∃ h : Host σ, disks = some ((ListDisks R h).1.map DiskInfo.shown)
  | _ => True

/-- Whatever is clicked and in whatever order the answers come, no request takes this disk. -/
def Spares (R : Runner σ) (device : Str) : Prop :=
  ∀ es, Guarded step (Answered R) start es → ∀ t ∈ (run step start es).asked, device ∉ t.disks

theorem allDisks_step {v : View} {e : View.Event} {x : View.Disk}
    (hx : x ∈ View.allDisks (View.step v e)) :
    x ∈ View.allDisks v ∨ ∃ reload disks, e = .disks reload (.ok disks) ∧ x ∈ disks.getD [] := by
  rcases View.step_cases v e with h | h | ⟨reload, res, rfl, hmem⟩ | ⟨reload, res, rfl, hmem⟩ |
    ⟨-, a, sel, -, -, hstep⟩
  · rw [View.allDisks, h.disks] at hx
    exact .inl hx
  · rw [View.allDisks, h.disks] at hx
    exact .inl hx
  · rw [(View.arrays_step res hmem).2.1] at hx
    exact .inl hx
  · rw [(View.disks_step res hmem).1] at hx
    cases res with
    | error e => exact .inl hx
    | ok disks => exact .inr ⟨reload, disks, rfl, hx⟩
  · rw [hstep] at hx
    exact .inl hx

/-- A disk that is never listed is in no list, in no dialog and in no request. -/
structure Unseen (device : Str) (p : Page) : Prop where
  listed : ∀ x ∈ View.allDisks p.view, x.device ≠ device
  held : device ∉ held p
  asked : ∀ t ∈ p.asked, device ∉ t.disks

theorem unseen_step (hlisted : ∀ h : Host σ, ∀ x ∈ (ListDisks R h).1, x.Device ≠ d)
    (hp : Unseen d p) (he : Answered R p e) : Unseen d (step p e) := by
  have hfree : isAvailable p.view d ≠ true := by
    intro hfree
    obtain ⟨x, hx, hdevice⟩ := List.any_eq_true.mp hfree
    exact hp.listed x (List.mem_filter.mp hx).1 (by simpa using hdevice)
  refine ⟨fun x hx => ?_, fun hd => ?_, fun t ht hd => ?_⟩
  · have hview : (step p e).view = stepView p e := rfl
    rw [hview] at hx
    rcases stepView_cases p e with hstep | ⟨e', rfl, hstep⟩ | hstep
    · exact hp.listed x (hstep ▸ hx)
    · rw [hstep] at hx
      rcases allDisks_step hx with hx | ⟨reload, disks, rfl, hmem⟩
      · exact hp.listed x hx
      · obtain ⟨h, rfl⟩ := he
        obtain ⟨y, hy, rfl⟩ := List.mem_map.mp hmem
        exact hlisted h y hy
    · have hconfirm : View.confirm p.view = View.step p.view .confirm := rfl
      rw [hstep, hconfirm] at hx
      rcases allDisks_step hx with hx | ⟨reload, disks, he', -⟩
      · exact hp.listed x hx
      · cases he'
  · exact (held_step hd).elim hfree hp.held
  · rcases List.mem_append.mp ht with ht | ht
    · exact hp.asked t ht hd
    · exact hp.held (takes_held (Option.mem_toList.mp ht) hd)

theorem spares_of_unlisted (hlisted : ∀ h : Host σ, ∀ x ∈ (ListDisks R h).1, x.Device ≠ d) :
    Spares R d := by
  intro es hes t ht
  have hstart : Unseen d start := by
    refine ⟨fun x hx => ?_, fun hd => ?_, fun t ht => ?_⟩
    · cases hx
    · cases hd
    · cases ht
  have hall : Always step (Unseen d) start es :=
    always_of_guarded (fun p e hp he => unseen_step hlisted hp he) (fun _ hp => hp) hstart hes
  have hlast := always_iff_prefix.mp hall es [] (List.append_nil es).symm
  exact hlast.asked t ht

/-- The answer to the first request for the disks. -/
def listedBy (R : Runner σ) (h : Host σ) : Event :=
  .view (.disks 1 (.ok (some ((ListDisks R h).1.map DiskInfo.shown))))

/-- A listed disk can be wiped. -/
theorem not_spares_of_listed {x : DiskInfo} (hx : x ∈ (ListDisks R h).1) : ¬ Spares R x.Device := by
  obtain ⟨k, hk⟩ := List.mem_iff_getElem?.mp (List.mem_map_of_mem (f := DiskInfo.shown) hx)
  have hfree : availableDisks (step start (listedBy R h)).view =
      (ListDisks R h).1.map DiskInfo.shown := List.filter_eq_self.mpr fun _ _ => rfl
  have hmodal : (step (step start (listedBy R h)) (.view (.openWipe k))).view.modal =
      some (.wipeDisk x.Device) := by
    show (View.step _ (.openWipe k)).modal = _
    simp only [View.step, hfree, hk]
    rfl
  have htakes : takes (step (step start (listedBy R h)) (.view (.openWipe k))) (.view .confirm) =
      some (.wipe x.Device) := by
    simp only [takes, hmodal]
  intro hspares
  refine hspares [listedBy R h, .view (.openWipe k), .view .confirm]
    ⟨⟨h, rfl⟩, trivial, trivial, trivial⟩ (.wipe x.Device) ?_ List.mem_cons_self
  refine List.mem_append_right _ ?_
  rw [htakes]
  exact List.mem_cons_self

/-- Two disks, with what is mounted on `/`. -/
def told (T : Topology) : Runner Unit := fun c env =>
  (if c = findmntRoot then ⟨"/dev/" ++ T.node ++ "\n", [], none⟩
    else if c = lsblkParent ("/dev/" ++ T.node) then ⟨T.below.headD [] ++ "\n", [], none⟩
    else if c = lsblkDisks then
      ⟨"sda 256060514304 0 SSD 870\nsdb 4000787030016 1 Red\nsdc 4000787030016 1 Red\n", [], none⟩
    else ⟨[], [], none⟩, env)

theorem told_tells (T : Topology) : T.Tells (told T) := by
  have hother : lsblkParent ("/dev/" ++ T.node) ≠ findmntRoot := fun heq => by
    cases (Cmd.mk.inj heq).1
  have hparent (h : Host Unit) : (h.run (told T) (lsblkParent ("/dev/" ++ T.node))).1 =
      ⟨T.below.headD [] ++ "\n", [], none⟩ := by
    simp only [Host.run, told, if_neg hother, if_true]
  have hline : firstLine (T.below.headD [] ++ "\n") = T.below.headD [] := by
    have hplain : ∀ c ∈ T.below.headD [], (c ≠ '\n' : Bool) = true := by
      intro c hc
      cases hbelow : T.below with
      | nil => rw [hbelow] at hc; cases hc
      | cons name rest =>
        rw [hbelow] at hc
        have hspace := (T.words name (by simp [hbelow])).2 c hc
        rw [decide_eq_true_eq]
        rintro rfl
        cases hspace
    rw [firstLine, List.takeWhile_append_of_pos hplain]
    exact List.append_nil _
  exact ⟨fun h => ⟨rfl, rfl⟩, fun h => by rw [hparent]; exact ⟨rfl, .inl hline⟩⟩

def onPartition : Topology := ⟨"sda2", ["sda"], by decide, by decide⟩

def onVolume : Topology := ⟨"mapper/vg-root", ["sda3", "sda"], by decide, by decide⟩

def booted : Host Unit := .start () fun _ => none

/-- A disk that a request takes was shown as free when it was chosen, and held since. -/
theorem asked_offered {es : List Event} (ht : t ∈ (run step start es).asked) :
    ∃ pre e post, es = pre ++ e :: post ∧ takes (run step start pre) e = some t ∧
      ∀ d ∈ t.disks, ∃ before chosen after, pre = before ++ chosen :: after ∧
        isAvailable (run step start before).view d = true ∧
        Guarded step (fun p _ => d ∈ held p) (run step start (before ++ [chosen])) after := by
  obtain ⟨pre, e, post, hes, htakes⟩ := asked_origin ht
  exact ⟨pre, e, post, hes, htakes, fun d hd => held_origin (takes_held htakes hd)⟩

/-- Two disks are chosen for a mirror. -/
def mirrored : List Event :=
  [listedBy (told onPartition) booted, .view .openCreate, .toggle "/dev/sdb", .toggle "/dev/sdc",
    .setLevel "1", .submit true]

def mirror : Dialog.Creation := ⟨"/dev/md0", "1", ["/dev/sdb", "/dev/sdc"], true⟩

theorem mirror_asked : .create mirror ∈ (run step start mirrored).asked := by
  decide +kernel

theorem asked_offered_mirror : ∃ pre e post, mirrored = pre ++ e :: post ∧
    takes (run step start pre) e = some (.create mirror) ∧
      ∀ d ∈ (["/dev/sdb", "/dev/sdc"] : List Str), ∃ before chosen after,
        pre = before ++ chosen :: after ∧ isAvailable (run step start before).view d = true ∧
        Guarded step (fun p _ => d ∈ held p) (run step start (before ++ [chosen])) after :=
  asked_offered mirror_asked

/-- A disk that another array took in the meantime is not deselected. -/
example :
    isAvailable (run step start (mirrored.take 5 ++
      [.view (.arrays 1 (.ok (some [⟨"/dev/md1", "1", "clean", some ["/dev/sdb"]⟩])))])).view
        "/dev/sdb" = false ∧
    takes (run step start (mirrored.take 5 ++
      [.view (.arrays 1 (.ok (some [⟨"/dev/md1", "1", "clean", some ["/dev/sdb"]⟩])))]))
        (.submit true) = some (.create mirror) := by
  decide +kernel

/-! ## New arrays -/

/-- The disks of the dialog are different ones, and its level is on offer for so many. -/
structure Sound (dialog : Dialog) : Prop where
  nodup : dialog.selected.Nodup
  level : dialog.level = [] ∨ dialog.level ∈ Dialog.levelOptions dialog.selected.length

theorem levelOptions_valid {level : Str} {count : Nat} (h : level ∈ Dialog.levelOptions count) :
    ∃ minDisks, validLevels level = some minDisks ∧ minDisks ≤ count := by
  unfold Dialog.levelOptions at h
  split at h
  · cases h
  · split at h
    · simp only [List.mem_cons, List.not_mem_nil, or_false] at h
      rcases h with rfl | rfl
      · exact ⟨2, rfl, by omega⟩
      · exact ⟨2, rfl, by omega⟩
    · split at h
      · simp only [List.mem_cons, List.not_mem_nil, or_false] at h
        rcases h with rfl | rfl
        · exact ⟨2, rfl, by omega⟩
        · exact ⟨3, rfl, by omega⟩
      · simp only [List.mem_cons, List.not_mem_nil, or_false] at h
        rcases h with rfl | rfl | rfl | rfl | rfl
        · exact ⟨2, rfl, by omega⟩
        · exact ⟨2, rfl, by omega⟩
        · exact ⟨3, rfl, by omega⟩
        · exact ⟨4, rfl, by omega⟩
        · exact ⟨4, rfl, by omega⟩

theorem sound_toggle {device : Str} {dialog : Dialog} (h : Sound dialog) :
    Sound (dialog.toggle device) := by
  refine ⟨?_, .inl rfl⟩
  unfold Dialog.toggle
  dsimp only
  split
  · exact h.nodup.erase device
  · rename_i hmem
    refine List.nodup_append.mpr ⟨h.nodup, by simp, fun a ha b hb => ?_⟩
    rw [List.mem_singleton.mp hb]
    rintro rfl
    exact hmem ha

theorem sound_start : Sound .start := ⟨List.nodup_nil, .inl rfl⟩

theorem sound_step (h : Sound p.dialog) (e : Event) : Sound (step p e).dialog := by
  show Sound (stepDialog p e)
  cases e with
  | toggle device =>
    unfold stepDialog
    dsimp only
    split
    · exact sound_toggle h
    · exact h
  | setLevel level =>
    unfold stepDialog
    dsimp only
    split
    · rename_i hlevel
      refine ⟨h.nodup, ?_⟩
      simp only [Bool.and_eq_true, Bool.or_eq_true, decide_eq_true_eq] at hlevel
      exact hlevel.2
    · exact h
  | setName name =>
    unfold stepDialog
    dsimp only
    split
    · exact ⟨h.nodup, h.level⟩
    · exact h
  | _ =>
    unfold stepDialog
    dsimp only
    split
    · exact h
    · exact sound_start

theorem sound_run (es : List Event) : Sound (run step start es).dialog := by
  have hall : Always step (fun p => Sound p.dialog) start es :=
    always_of_guarded (G := fun _ _ => True) (fun p e hp _ => sound_step hp e) (fun _ hp => hp)
      sound_start (guarded_of_forall (fun _ _ => trivial) start es)
  exact always_iff_prefix.mp hall es [] (List.append_nil es).symm

/-- `raidHandlers.create` -/
def createArray (R : Runner σ) (req : Dialog.Creation) (h : Host σ) :
    Except (Nat × Str) Unit × Host σ :=
  if !req.confirm then (.error (428, "confirmation_required"), h)
  else match Create R req.device req.level req.devices h with
    | (.error e, h') => (.error (422, e), h')
    | (.ok (), h') => (.ok (), h')

theorem takes_create {req : Dialog.Creation} (ht : takes p e = some (.create req)) :
    req = p.dialog.creation ∧ p.dialog.level ≠ [] := by
  cases e with
  | submit agreed =>
    unfold takes at ht
    dsimp only at ht
    split at ht
    · rename_i hsubmit
      simp only [canSubmit, Bool.and_eq_true, decide_eq_true_eq] at hsubmit
      cases ht
      exact ⟨rfl, hsubmit.1.2.1⟩
    · cases ht
  | view e =>
    unfold takes at ht
    split at ht
    · rename_i heq
      cases heq
    · split at ht
      · split at ht
        · cases ht
        · split at ht <;> cases ht
      · split at ht <;> cases ht
      · cases ht
      · cases ht
    · cases ht
  | _ => cases ht

/-- The only requests of the dialog that are refused are those with an odd name, and those that
`mdadm` refuses. -/
theorem creation_checked {es : List Event} {req : Dialog.Creation}
    (hreq : .create req ∈ (run step start es).asked) (R : Runner σ) (h : Host σ) :
    req.devices.Nodup ∧ (createArray R req h).1 =
      if ValidMDDevice req.device = false then .error (422, "device md non valido: " ++ req.device)
      else match req.devices.find? fun d => !ValidDevice d with
        | some d => .error (422, "device non valido: " ++ d)
        | none => match (h.run R (mdadmCreate req.device req.level req.devices)).1.err with
          | some e => .error (422, e)
          | none => .ok () := by
  obtain ⟨pre, e, post, -, htakes⟩ := asked_origin hreq
  obtain ⟨rfl, hne⟩ := takes_create htakes
  obtain ⟨hnodup, hlevel⟩ := sound_run pre
  generalize run step start pre = p at hne hnodup hlevel
  obtain ⟨minDisks, hvalid, hcount⟩ := levelOptions_valid (hlevel.resolve_left hne)
  refine ⟨hnodup, ?_⟩
  have hconfirm : p.dialog.creation.confirm = true := rfl
  have hlevels : validLevels p.dialog.creation.level = some minDisks := hvalid
  have henough : ¬ p.dialog.creation.devices.length < minDisks := Nat.not_lt.mpr hcount
  unfold createArray Create
  cases hmd : ValidMDDevice p.dialog.creation.device with
  | false =>
    simp only [hconfirm, Bool.not_true, Bool.not_false, Bool.false_eq_true, if_false, if_true]
  | true =>
    simp only [hconfirm, hlevels, if_neg henough, Bool.not_true, Bool.false_eq_true, if_false,
      Bool.true_eq_false]
    cases p.dialog.creation.devices.find? fun d => !ValidDevice d with
    | some d => rfl
    | none =>
      dsimp only
      cases (h.run R _).1.err <;> rfl

theorem creation_checked_mirror :
    mirror.devices.Nodup ∧ (createArray (told onPartition) mirror booted).1 = .ok () :=
  creation_checked mirror_asked (told onPartition) booted

end Page
end Raid
end Nasd
