import Mathlib.Data.List.Lemmas
import Nasd.Lib.Run
import Nasd.Lib.Text

/-!
# Nasd.Raid.View

`RaidView` of `src/js/app.js`: the arrays and disks that the backend lists, with what the view
itself remembers of disks that were added or marked as failed. That is laid over every later answer
and never compared with it. An event is one task of the browser: an answer, a timer, or a click.

* `right_iff_fits` — when what is shown agrees with what the backend lists.
* `step_cases`     — what an event does to the lists and to the memory of the view.
* `view_right_iff` — the runs in which the view is right whenever it has come to rest.
-/

namespace Nasd

open Text Machine

namespace Raid
namespace View

/-! ## Objects as maps -/

/-- A JavaScript object by its own properties. -/
structure Dict (β : Type) where
  entries : List (Str × β)
  keys : (entries.map Prod.fst).Nodup

namespace Dict

variable {β : Type} {m : Dict β} {k : Str} {v : β}

def empty : Dict β := ⟨[], List.nodup_nil⟩

def get? (m : Dict β) (k : Str) : Option β := m.entries.lookup k

def delete (m : Dict β) (k : Str) : Dict β :=
  ⟨m.entries.filter fun e => e.1 ≠ k, m.keys.sublist (List.filter_sublist.map _)⟩

theorem not_mem_delete : k ∉ (m.delete k).entries.map Prod.fst := by
  intro hmem
  obtain ⟨e, he, rfl⟩ := List.mem_map.mp hmem
  simpa using (List.mem_filter.mp he).2

def put (m : Dict β) (k : Str) (v : β) : Dict β :=
  ⟨(k, v) :: (m.delete k).entries, List.nodup_cons.mpr ⟨not_mem_delete, (m.delete k).keys⟩⟩

def values (m : Dict β) : List β := m.entries.map Prod.snd

theorem get?_eq_some : m.get? k = some v ↔ (k, v) ∈ m.entries := by
  obtain ⟨entries, keys⟩ := m
  unfold get?
  dsimp only
  induction entries with
  | nil => simp
  | cons e entries ih =>
    obtain ⟨c, w⟩ := e
    rw [List.map_cons, List.nodup_cons] at keys
    by_cases hk : k = c
    · subst hk
      rw [List.lookup_cons_self, Option.some.injEq, List.mem_cons, Prod.mk.injEq]
      refine ⟨fun h => .inl ⟨rfl, h.symm⟩, fun h => ?_⟩
      rcases h with ⟨-, rfl⟩ | hmem
      · rfl
      · exact absurd (List.mem_map_of_mem (f := Prod.fst) hmem) keys.1
    · have hskip : ((c, w) :: entries).lookup k = entries.lookup k := by
        have hne : (k == c) = false := by simpa using hk
        rw [List.lookup_cons, hne]
      rw [hskip, ih keys.2, List.mem_cons, Prod.mk.injEq]
      exact ⟨.inr, fun h => h.resolve_left fun h => hk h.1⟩

theorem mem_values_put {w : β} :
    w ∈ (m.put k v).values ↔ w = v ∨ ∃ c, c ≠ k ∧ m.get? c = some w := by
  have hrest : w ∈ (m.delete k).values ↔ ∃ c, c ≠ k ∧ m.get? c = some w := by
    simp only [values, List.mem_map, get?_eq_some]
    constructor
    · rintro ⟨e, he, rfl⟩
      obtain ⟨he, hk⟩ := List.mem_filter.mp he
      exact ⟨e.1, by simpa using hk, he⟩
    · rintro ⟨c, hc, hmem⟩
      exact ⟨(c, w), List.mem_filter.mpr ⟨hmem, by simpa using hc⟩, rfl⟩
  rw [← hrest]
  exact List.mem_cons

theorem mem_values {w : β} : w ∈ m.values ↔ ∃ c, m.get? c = some w := by
  simp only [values, List.mem_map, get?_eq_some]
  exact ⟨fun ⟨e, he, h⟩ => ⟨e.1, h ▸ he⟩, fun ⟨c, hc⟩ => ⟨_, hc, rfl⟩⟩

end Dict

/-- Disks by the array that they were recorded for. -/
abbrev Overrides := Dict (List Str)

/-- `p[device] || []` -/
def Overrides.at (m : Overrides) (device : Str) : List Str := (m.get? device).getD []

/-- `Object.values(p).flat()` -/
def Overrides.all (m : Overrides) : List Str := m.values.flatten

def Overrides.add (m : Overrides) (device : Str) (disks : List Str) : Overrides :=
  m.put device (m.at device ++ disks)

theorem Overrides.mem_all_add {m : Overrides} {device x : Str} {disks : List Str} :
    x ∈ (m.add device disks).all ↔ x ∈ m.all ∨ x ∈ disks := by
  have hmem : x ∈ m.all ↔ x ∈ m.at device ∨ ∃ c, c ≠ device ∧ ∃ w, m.get? c = some w ∧ x ∈ w := by
    simp only [all, List.mem_flatten, Dict.mem_values]
    constructor
    · rintro ⟨w, ⟨c, hc⟩, hx⟩
      by_cases hcd : c = device
      · left
        subst hcd
        rwa [Overrides.at, hc]
      · exact .inr ⟨c, hcd, w, hc, hx⟩
    · rintro (hx | ⟨c, -, w, hc, hx⟩)
      · cases hget : m.get? device with
        | none => rw [Overrides.at, hget] at hx; cases hx
        | some w => rw [Overrides.at, hget] at hx; exact ⟨w, ⟨_, hget⟩, hx⟩
      · exact ⟨w, ⟨c, hc⟩, hx⟩
  rw [hmem]
  simp only [all, add, List.mem_flatten, Dict.mem_values_put]
  constructor
  · rintro ⟨w, rfl | ⟨c, hcd, hc⟩, hx⟩
    · rcases List.mem_append.mp hx with hx | hx
      · exact .inl (.inl hx)
      · exact .inr hx
    · exact .inl (.inr ⟨c, hcd, w, hc, hx⟩)
  · rintro ((hx | ⟨c, hcd, w, hc, hx⟩) | hx)
    · exact ⟨_, .inl rfl, List.mem_append_left _ hx⟩
    · exact ⟨w, .inr ⟨c, hcd, hc⟩, hx⟩
    · exact ⟨_, .inl rfl, List.mem_append_right _ hx⟩

/-! ## What is shown -/

def calcRaidCapacity (level : Str) (n : Nat) (minSizeBytes : Int) : Int :=
  if n = 0 ∨ minSizeBytes = 0 then 0
  else if level = "0" then minSizeBytes * n
  else if level = "1" then minSizeBytes
  else if level = "5" then if 3 ≤ n then minSizeBytes * (n - 1) else 0
  else if level = "6" then if 4 ≤ n then minSizeBytes * (n - 2) else 0
  else if level = "10" then if 4 ≤ n then minSizeBytes * (n / 2 : Nat) else 0
  else if level = "linear" then minSizeBytes * n
  else minSizeBytes

/-- An array of an answer. -/
structure RaidArray where
  device : Str
  level : Str
  state : Str
  devices : Option (List Str)
  deriving DecidableEq

/-- `a.devices || []` -/
def RaidArray.members (a : RaidArray) : List Str := a.devices.getD []

structure Disk where
  device : Str
  size_bytes : Int
  deriving DecidableEq

/-- An array with what the view lays over it. -/
structure Row where
  array : RaidArray
  devices : List Str
  failedDevices : List Str
  displayState : Str
  deriving DecidableEq

inductive Modal where
  | create
  | expand (array : Row) (selected : List Str)
  | markFailed (array : Row) (sel : Str)
  | rebuild (array : Row) (sel : Str)
  | wipeDisk (device : Str)

/-- One simulated progress. -/
structure Timer where
  mdDevice : Str
  phase : Str
  total : Nat
  step : Nat

/-- The calls whose answers the view waits for, those of the lists apart. -/
inductive Call where
  | addDisks (mdDevice : Str) (disks : List Str)
  | removeDisk (mdDevice disk : Str)
  | deleteArray (mdDevice : Str)
  | wipeDisk (device : Str)
  | createArray

inductive Which where
  | arrays | disks
  deriving DecidableEq

/-- A request for a list, with the number of its reload. -/
structure Request where
  list : Which
  reload : Nat
  deriving DecidableEq

end View

/-- The state of the component, its timers, the calls and requests without an answer, how many
reloads there were, and the lists that the backend gave to the latest reload that it answered. -/
structure View where
  arrays : Option (List View.RaidArray)
  disks : Option (List View.Disk)
  err : Str
  failedMap : View.Overrides
  statusMap : View.Dict Str
  addedDisksMap : View.Overrides
  modal : Option View.Modal
  timers : List View.Timer
  calls : List View.Call
  requests : List View.Request
  reloads : Nat
  toldArrays : Nat × List View.RaidArray
  toldDisks : Nat × List View.Disk

namespace View

def enrich (v : View) (a : RaidArray) : Row where
  array := a
  devices := a.members ++ v.addedDisksMap.at a.device
  failedDevices := (v.failedMap.at a.device).eraseDups
  displayState := match v.statusMap.get? a.device with
    | some phase => phase
    | none => if (v.failedMap.at a.device).eraseDups ≠ [] then "degraded" else a.state

def allDisks (v : View) : List Disk := v.disks.getD []

def enrichedArrays (v : View) : List Row := (v.arrays.getD []).map (enrich v)

def usedDevices (v : View) : List Str := (enrichedArrays v).flatMap Row.devices

def availableDisks (v : View) : List Disk :=
  (allDisks v).filter fun d => d.device ∉ usedDevices v ∧ d.device ∉ v.failedMap.all

/-- The smallest size of these disks that is known. -/
def minSize (disks : List Disk) (devices : List Str) : Int :=
  (((disks.filter fun d => d.device ∈ devices).map Disk.size_bytes).filter fun s =>
    0 < s).min?.getD 0

def totalSize (v : View) (a : Row) : Int :=
  calcRaidCapacity a.array.level a.devices.length (minSize (allDisks v) a.devices)

def Row.hasFailed (a : Row) : Bool := a.failedDevices ≠ []

def Row.busy (a : Row) : Bool := a.displayState = "expanding" ∨ a.displayState = "rebuilding"

/-! ## Handlers -/

def load (v : View) : View :=
  { v with
    err := []
    reloads := v.reloads + 1
    requests := v.requests ++ [⟨.arrays, v.reloads + 1⟩, ⟨.disks, v.reloads + 1⟩] }

/-- The interval is of 200 milliseconds. -/
def startProgress (mdDevice phase : Str) (durationMs : Nat) (v : View) : View :=
  { v with timers := v.timers ++ [⟨mdDevice, phase, durationMs / 200, 0⟩] }

/-- One call of the function of a timer. -/
def tick (k : Nat) (v : View) : View :=
  match v.timers[k]? with
  | none => v
  | some t =>
    if t.total ≤ t.step + 1 then
      load { v with timers := v.timers.eraseIdx k, statusMap := v.statusMap.delete t.mdDevice }
    else
      { v with
        timers := v.timers.set k { t with step := t.step + 1 }
        statusMap := v.statusMap.put t.mdDevice t.phase }

def handleExpand (array : Row) (newDevices : List Str) (v : View) : View :=
  startProgress array.array.device "expanding" 5000
    { v with
      modal := none
      calls := v.calls ++ [.addDisks array.array.device newDevices]
      addedDisksMap := v.addedDisksMap.add array.array.device newDevices }

def handleMarkFailed (array : Row) (diskDevice : Str) (v : View) : View :=
  { v with
    modal := none
    calls := v.calls ++ [.removeDisk array.array.device diskDevice]
    failedMap := v.failedMap.add array.array.device [diskDevice] }

def handleRebuild (array : Row) (failedDisk newDisk : Str) (v : View) : View :=
  startProgress array.array.device "rebuilding" 8000
    { v with
      modal := none
      calls := v.calls ++ [.addDisks array.array.device [newDisk]]
      failedMap := v.failedMap.put array.array.device
        ((v.failedMap.at array.array.device).filter fun d => d ≠ failedDisk)
      addedDisksMap := v.addedDisksMap.add array.array.device [newDisk] }

def handleWipeDisk (device : Str) (v : View) : View :=
  { v with err := [], calls := v.calls ++ [.wipeDisk device] }

/-- After the dialog has been confirmed. -/
def handleDelete (array : Row) (v : View) : View :=
  { v with calls := v.calls ++ [.deleteArray array.array.device] }

/-! ## Events -/

/-- A button of a row. -/
inductive Button where
  | expand | markFailed | rebuild | delete
  deriving DecidableEq

def Button.disabled (a : Row) : Button → Bool
  | .expand | .delete => a.busy
  | .markFailed => a.busy || a.hasFailed
  | .rebuild => !a.hasFailed || a.busy

/-- `raidStatus` comes over the socket, `onLoad` from the section of the filesystems. `arrays` and
`disks` answer a request of a reload, `returned` one of the calls. `select` is a click on a disk in
a dialog, `confirm` one on its button. -/
inductive Event where
  | raidStatus
  | onLoad
  | arrays (reload : Nat) (res : Except Str (Option (List RaidArray)))
  | disks (reload : Nat) (res : Except Str (Option (List Disk)))
  | returned (call : Nat) (res : Except Str Unit)
  | tick (timer : Nat)
  | press (row : Nat) (button : Button)
  | openCreate
  | openWipe (disk : Nat)
  | close
  | select (device : Str)
  | confirm

def answerArrays (reload : Nat) (res : Except Str (Option (List RaidArray))) (v : View) : View :=
  if ⟨.arrays, reload⟩ ∈ v.requests then
    match res with
    | .error e => { v with err := e, requests := v.requests.erase ⟨.arrays, reload⟩ }
    | .ok arrays =>
      { v with
        arrays := arrays
        requests := v.requests.erase ⟨.arrays, reload⟩
        toldArrays := if v.toldArrays.1 ≤ reload then (reload, arrays.getD []) else v.toldArrays }
  else v

def answerDisks (reload : Nat) (res : Except Str (Option (List Disk))) (v : View) : View :=
  if ⟨.disks, reload⟩ ∈ v.requests then
    match res with
    | .error e => { v with err := e, requests := v.requests.erase ⟨.disks, reload⟩ }
    | .ok disks =>
      { v with
        disks := disks
        requests := v.requests.erase ⟨.disks, reload⟩
        toldDisks := if v.toldDisks.1 ≤ reload then (reload, disks.getD []) else v.toldDisks }
  else v

def returned (k : Nat) (res : Except Str Unit) (v : View) : View :=
  match v.calls[k]?, res with
  | none, _ => v
  | some _, .error e => { v with err := e, calls := v.calls.eraseIdx k }
  | some (.deleteArray _), .ok _ => load { v with calls := v.calls.eraseIdx k }
  | some (.wipeDisk _), .ok _ => load { v with modal := none, calls := v.calls.eraseIdx k }
  | some .createArray, .ok _ => load { v with modal := none, calls := v.calls.eraseIdx k }
  | some _, .ok _ => { v with calls := v.calls.eraseIdx k }

def press (row : Nat) (button : Button) (v : View) : View :=
  match (enrichedArrays v)[row]? with
  | none => v
  | some a =>
    if button.disabled a then v
    else match button with
      | .expand => { v with modal := some (.expand a []) }
      | .markFailed => { v with modal := some (.markFailed a []) }
      | .rebuild => { v with modal := some (.rebuild a []) }
      | .delete => handleDelete a v

def isAvailable (v : View) (device : Str) : Bool :=
  (availableDisks v).any fun d => d.device = device

def select (device : Str) (v : View) : View :=
  match v.modal with
  | some (.expand a selected) =>
    if !isAvailable v device then v
    else if device ∈ selected then { v with modal := some (.expand a (selected.erase device)) }
    else { v with modal := some (.expand a (selected ++ [device])) }
  | some (.markFailed a _) =>
    if device ∈ a.devices ∧ device ∉ a.failedDevices then
      { v with modal := some (.markFailed a device) }
    else v
  | some (.rebuild a _) =>
    if device = [] ∨ isAvailable v device then { v with modal := some (.rebuild a device) } else v
  | _ => v

/-- What the button of an open dialog does; it is disabled, or only says so, where nothing
happens. -/
def confirm (v : View) : View :=
  match v.modal with
  | some .create => { v with calls := v.calls ++ [.createArray] }
  | some (.expand a selected) =>
    if a.array.level ∈ [("0" : Str), "1"] ∨ selected = [] then v
    else if a.array.level = "10" ∧ selected.length % 2 ≠ 0 then v
    else handleExpand a selected v
  | some (.markFailed a sel) => if sel = [] then v else handleMarkFailed a sel v
  | some (.rebuild a sel) =>
    if sel = [] then v else handleRebuild a ((a.failedDevices.head?).getD []) sel v
  | some (.wipeDisk device) => handleWipeDisk device v
  | none => v

def step (v : View) : Event → View
  | .raidStatus => load v
  | .onLoad => load v
  | .arrays reload res => answerArrays reload res v
  | .disks reload res => answerDisks reload res v
  | .returned k res => returned k res v
  | .tick k => tick k v
  | .press row button => press row button v
  | .openCreate => { v with modal := some .create }
  | .openWipe k =>
    match (availableDisks v)[k]? with
    | some d => { v with modal := some (.wipeDisk d.device) }
    | none => v
  | .close => { v with modal := none }
  | .select device => select device v
  | .confirm => confirm v

/-- The view when it has been mounted. -/
def start : View :=
  load
    { arrays := none
      disks := none
      err := []
      failedMap := .empty
      statusMap := .empty
      addedDisksMap := .empty
      modal := none
      timers := []
      calls := []
      requests := []
      reloads := 0
      toldArrays := (0, [])
      toldDisks := (0, []) }

/-! ## At rest -/

/-- No simulated progress is running and both requests of the last reload have an answer. -/
def Settled (v : View) : Prop := v.timers = [] ∧ ∀ q ∈ v.requests, q.reload ≠ v.reloads

/-- The disks of each array, its size and the disks on offer are those of the lists of the
backend. -/
structure Right (v : View) : Prop where
  nodup : ∀ a ∈ enrichedArrays v, a.devices.Nodup
  devices : (enrichedArrays v).map (fun a => (a.array.device, a.devices)) =
    v.toldArrays.2.map fun a => (a.device, a.members)
  capacity : (enrichedArrays v).map (totalSize v) = v.toldArrays.2.map fun a =>
    calcRaidCapacity a.level a.members.length (minSize v.toldDisks.2 a.members)
  available : availableDisks v =
    v.toldDisks.2.filter fun d => ∀ a ∈ v.toldArrays.2, d.device ∉ a.members

/-- These lists show nothing of what the view remembers. -/
structure Fits (arrays : List RaidArray) (disks : List Disk) (failed added : Overrides) : Prop where
  nodup : ∀ a ∈ arrays, a.members.Nodup
  added : ∀ a ∈ arrays, added.at a.device = []
  failed : ∀ d ∈ disks, (∀ a ∈ arrays, d.device ∉ a.members) → d.device ∉ failed.all

/-- The lists shown are those of the latest reload that was answered. -/
structure Current (v : View) : Prop where
  arrays : v.arrays.getD [] = v.toldArrays.2
  disks : allDisks v = v.toldDisks.2

def FitsNow (v : View) : Prop :=
  Fits (v.arrays.getD []) (allDisks v) v.failedMap v.addedDisksMap

/-- The answers come in the order of the reloads. -/
def InOrder (v : View) : Event → Prop
  | .arrays reload (.ok _) => v.toldArrays.1 ≤ reload
  | .disks reload (.ok _) => v.toldDisks.1 ≤ reload
  | _ => True

def answered {α : Type} (old : List α) : Except Str (Option (List α)) → List α
  | .ok new => new.getD []
  | .error _ => old

/-- The last answer that the view waits for. -/
def Last (v : View) (r : Request) : Prop :=
  r ∈ v.requests ∧ v.timers = [] ∧ ∀ q ∈ v.requests.erase r, q.reload ≠ v.reloads

/-- The last answer to a reload fits what the view remembers, and no disk is marked as failed at
rest that the backend lists outside of all arrays. -/
def allowed (v : View) : Event → Prop
  | .arrays reload res => Last v ⟨.arrays, reload⟩ →
    Fits (answered (v.arrays.getD []) res) (allDisks v) v.failedMap v.addedDisksMap
  | .disks reload res => Last v ⟨.disks, reload⟩ →
    Fits (v.arrays.getD []) (answered (allDisks v) res) v.failedMap v.addedDisksMap
  | .confirm => ∀ a sel, v.modal = some (.markFailed a sel) → sel ≠ [] → Settled v →
    ∀ d ∈ allDisks v, d.device = sel → ∃ a ∈ v.arrays.getD [], sel ∈ a.members
  | _ => True

variable {v w : View} {e : Event}

theorem enrich_devices {a : RaidArray} (hnone : v.addedDisksMap.at a.device = []) :
    (enrich v a).devices = a.members := by
  rw [enrich, hnone, List.append_nil]

theorem mem_usedDevices {device : Str} :
    device ∈ usedDevices v ↔ ∃ a ∈ v.arrays.getD [], device ∈ (enrich v a).devices := by
  rw [usedDevices, enrichedArrays, List.mem_flatMap]
  constructor
  · rintro ⟨r, hr, hmem⟩
    obtain ⟨a, ha, rfl⟩ := List.mem_map.mp hr
    exact ⟨a, ha, hmem⟩
  · rintro ⟨a, ha, hmem⟩
    exact ⟨_, List.mem_map_of_mem ha, hmem⟩

theorem fits_of_right (hcur : Current v) (h : Right v) : FitsNow v := by
  have hnone : ∀ a ∈ v.arrays.getD [], v.addedDisksMap.at a.device = [] := by
    have hdevices := h.devices
    rw [enrichedArrays, List.map_map, ← hcur.arrays] at hdevices
    intro a ha
    have hone := congrArg Prod.snd (List.map_inj_left.mp hdevices a ha)
    exact List.append_right_eq_self.mp hone
  refine ⟨fun a ha => ?_, hnone, fun d hd hfree hfailed => ?_⟩
  · rw [← enrich_devices (hnone a ha)]
    exact h.nodup _ (List.mem_map_of_mem ha)
  · have hmem : d ∈ availableDisks v := by
      rw [h.available, ← hcur.disks, ← hcur.arrays]
      exact List.mem_filter.mpr ⟨hd, by simpa using hfree⟩
    have hboth := (List.mem_filter.mp hmem).2
    rw [decide_eq_true_eq] at hboth
    exact hboth.2 hfailed

theorem right_of_fits (hcur : Current v) (h : FitsNow v) : Right v := by
  have hsame : ∀ a ∈ v.arrays.getD [], (enrich v a).devices = a.members :=
    fun a ha => enrich_devices (h.added a ha)
  refine ⟨?_, ?_, ?_, ?_⟩
  · intro r hr
    obtain ⟨a, ha, rfl⟩ := List.mem_map.mp hr
    rw [hsame a ha]
    exact h.nodup a ha
  · rw [enrichedArrays, List.map_map, ← hcur.arrays]
    exact List.map_congr_left fun a ha => Prod.ext rfl (hsame a ha)
  · rw [enrichedArrays, List.map_map, ← hcur.arrays, ← hcur.disks]
    refine List.map_congr_left fun a ha => ?_
    simp only [Function.comp_apply, totalSize, hsame a ha]
    rfl
  · rw [availableDisks, ← hcur.arrays, ← hcur.disks]
    refine List.filter_congr fun d hd => ?_
    rw [decide_eq_decide, mem_usedDevices]
    constructor
    · rintro ⟨hfree, -⟩ a ha hmem
      exact hfree ⟨a, ha, (hsame a ha).symm ▸ hmem⟩
    · intro hfree
      exact ⟨fun ⟨a, ha, hmem⟩ => hfree a ha (hsame a ha ▸ hmem), h.failed d hd hfree⟩

theorem right_iff_fits (hcur : Current v) : Right v ↔ FitsNow v :=
  ⟨fits_of_right hcur, right_of_fits hcur⟩

/-! ## What an event does -/

/-- Nothing that the lists shown depend on is different. -/
structure Same (v w : View) : Prop where
  arrays : w.arrays = v.arrays
  disks : w.disks = v.disks
  failed : w.failedMap = v.failedMap
  added : w.addedDisksMap = v.addedDisksMap
  timers : w.timers = v.timers
  requests : w.requests = v.requests
  reloads : w.reloads = v.reloads
  toldArrays : w.toldArrays = v.toldArrays
  toldDisks : w.toldDisks = v.toldDisks

/-- The lists are as they were, and there is something to wait for. -/
structure Busy (v w : View) : Prop where
  arrays : w.arrays = v.arrays
  disks : w.disks = v.disks
  toldArrays : w.toldArrays = v.toldArrays
  toldDisks : w.toldDisks = v.toldDisks
  waits : ¬ Settled w

theorem Same.refl (v : View) : Same v v := ⟨rfl, rfl, rfl, rfl, rfl, rfl, rfl, rfl, rfl⟩

theorem not_settled_load (v : View) : ¬ Settled (load v) := by
  rintro ⟨-, hall⟩
  exact hall ⟨.arrays, v.reloads + 1⟩ (by simp [load]) rfl

theorem busy_load (harrays : w.arrays = v.arrays) (hdisks : w.disks = v.disks)
    (htold : w.toldArrays = v.toldArrays) (htold' : w.toldDisks = v.toldDisks) : Busy v (load w) :=
  ⟨harrays, hdisks, htold, htold', not_settled_load w⟩

theorem not_settled_timers (h : v.timers ≠ []) : ¬ Settled v := fun hs => h hs.1

theorem tick_cases (k : Nat) (v : View) : Same v (tick k v) ∨ Busy v (tick k v) := by
  unfold tick
  cases ht : v.timers[k]? with
  | none => exact .inl (.refl v)
  | some t =>
    dsimp only
    split
    · exact .inr (busy_load rfl rfl rfl rfl)
    · refine .inr ⟨rfl, rfl, rfl, rfl, not_settled_timers fun hnil => ?_⟩
      have hlt := (List.getElem?_eq_some_iff.mp ht).1
      have hlen := congrArg List.length hnil
      rw [List.length_set, List.length_nil] at hlen
      omega

theorem returned_cases (k : Nat) (res : Except Str Unit) (v : View) :
    Same v (returned k res v) ∨ Busy v (returned k res v) := by
  unfold returned
  split
  · exact .inl (.refl v)
  · exact .inl ⟨rfl, rfl, rfl, rfl, rfl, rfl, rfl, rfl, rfl⟩
  · exact .inr (busy_load rfl rfl rfl rfl)
  · exact .inr (busy_load rfl rfl rfl rfl)
  · exact .inr (busy_load rfl rfl rfl rfl)
  · exact .inl ⟨rfl, rfl, rfl, rfl, rfl, rfl, rfl, rfl, rfl⟩

theorem press_same (row : Nat) (button : Button) (v : View) : Same v (press row button v) := by
  unfold press
  split
  · exact .refl v
  · split
    · exact .refl v
    · cases button <;> exact ⟨rfl, rfl, rfl, rfl, rfl, rfl, rfl, rfl, rfl⟩

theorem select_same (device : Str) (v : View) : Same v (select device v) := by
  unfold select
  split
  · split
    · exact .refl v
    · split <;> exact ⟨rfl, rfl, rfl, rfl, rfl, rfl, rfl, rfl, rfl⟩
  · split
    · exact ⟨rfl, rfl, rfl, rfl, rfl, rfl, rfl, rfl, rfl⟩
    · exact .refl v
  · split
    · exact ⟨rfl, rfl, rfl, rfl, rfl, rfl, rfl, rfl, rfl⟩
    · exact .refl v
  · exact .refl v

theorem busy_startProgress {mdDevice phase : Str} {durationMs : Nat} (harrays : w.arrays = v.arrays)
    (hdisks : w.disks = v.disks) (htold : w.toldArrays = v.toldArrays)
    (htold' : w.toldDisks = v.toldDisks) : Busy v (startProgress mdDevice phase durationMs w) :=
  ⟨harrays, hdisks, htold, htold', not_settled_timers (by simp [startProgress])⟩

theorem confirm_cases (v : View) : Same v (confirm v) ∨ Busy v (confirm v) ∨
    ∃ a sel, v.modal = some (.markFailed a sel) ∧ sel ≠ [] ∧
      confirm v = handleMarkFailed a sel v := by
  unfold confirm
  split
  · exact .inl ⟨rfl, rfl, rfl, rfl, rfl, rfl, rfl, rfl, rfl⟩
  · split
    · exact .inl (.refl v)
    · split
      · exact .inl (.refl v)
      · exact .inr (.inl (busy_startProgress rfl rfl rfl rfl))
  · rename_i a sel hmodal
    split
    · exact .inl (.refl v)
    · rename_i hsel
      exact .inr (.inr ⟨a, sel, hmodal, hsel, rfl⟩)
  · split
    · exact .inl (.refl v)
    · exact .inr (.inl (busy_startProgress rfl rfl rfl rfl))
  · exact .inl ⟨rfl, rfl, rfl, rfl, rfl, rfl, rfl, rfl, rfl⟩
  · exact .inl (.refl v)

theorem openWipe_same (k : Nat) (v : View) : Same v (step v (.openWipe k)) := by
  unfold step
  dsimp only
  split
  · exact ⟨rfl, rfl, rfl, rfl, rfl, rfl, rfl, rfl, rfl⟩
  · exact .refl v

/-- Only the answers change the lists, and only a disk that is marked as failed changes what the
view remembers without a progress or a reload after it. -/
theorem step_cases (v : View) (e : Event) : Same v (step v e) ∨ Busy v (step v e) ∨
    (∃ reload res, e = .arrays reload res ∧ ⟨.arrays, reload⟩ ∈ v.requests) ∨
    (∃ reload res, e = .disks reload res ∧ ⟨.disks, reload⟩ ∈ v.requests) ∨
    (e = .confirm ∧ ∃ a sel, v.modal = some (.markFailed a sel) ∧ sel ≠ [] ∧
      step v e = handleMarkFailed a sel v) := by
  cases e with
  | raidStatus => exact .inr (.inl (busy_load rfl rfl rfl rfl))
  | onLoad => exact .inr (.inl (busy_load rfl rfl rfl rfl))
  | arrays reload res =>
    by_cases hmem : ⟨.arrays, reload⟩ ∈ v.requests
    · exact .inr (.inr (.inl ⟨reload, res, rfl, hmem⟩))
    · left
      have hsame : step v (.arrays reload res) = v := if_neg hmem
      rw [hsame]
      exact .refl v
  | disks reload res =>
    by_cases hmem : ⟨.disks, reload⟩ ∈ v.requests
    · exact .inr (.inr (.inr (.inl ⟨reload, res, rfl, hmem⟩)))
    · left
      have hsame : step v (.disks reload res) = v := if_neg hmem
      rw [hsame]
      exact .refl v
  | returned k res => exact (returned_cases k res v).imp id .inl
  | tick k => exact (tick_cases k v).imp id .inl
  | press row button => exact .inl (press_same row button v)
  | openCreate => exact .inl ⟨rfl, rfl, rfl, rfl, rfl, rfl, rfl, rfl, rfl⟩
  | openWipe k => exact .inl (openWipe_same k v)
  | close => exact .inl ⟨rfl, rfl, rfl, rfl, rfl, rfl, rfl, rfl, rfl⟩
  | select device => exact .inl (select_same device v)
  | confirm =>
    exact (confirm_cases v).imp id fun h => h.imp id fun h => .inr (.inr ⟨rfl, h⟩)

theorem arrays_step {reload : Nat} (res : Except Str (Option (List RaidArray)))
    (hmem : ⟨.arrays, reload⟩ ∈ v.requests) :
    (step v (.arrays reload res)).arrays.getD [] = answered (v.arrays.getD []) res ∧
      allDisks (step v (.arrays reload res)) = allDisks v ∧
      (step v (.arrays reload res)).failedMap = v.failedMap ∧
      (step v (.arrays reload res)).addedDisksMap = v.addedDisksMap ∧
      (Settled (step v (.arrays reload res)) ↔ Last v ⟨.arrays, reload⟩) := by
  have hstep : step v (.arrays reload res) = _ := if_pos hmem
  rw [hstep]
  cases res <;> exact ⟨rfl, rfl, rfl, rfl, (and_iff_right hmem).symm⟩

theorem disks_step {reload : Nat} (res : Except Str (Option (List Disk)))
    (hmem : ⟨.disks, reload⟩ ∈ v.requests) :
    allDisks (step v (.disks reload res)) = answered (allDisks v) res ∧
      (step v (.disks reload res)).arrays = v.arrays ∧
      (step v (.disks reload res)).failedMap = v.failedMap ∧
      (step v (.disks reload res)).addedDisksMap = v.addedDisksMap ∧
      (Settled (step v (.disks reload res)) ↔ Last v ⟨.disks, reload⟩) := by
  have hstep : step v (.disks reload res) = _ := if_pos hmem
  rw [hstep]
  cases res <;> exact ⟨rfl, rfl, rfl, rfl, (and_iff_right hmem).symm⟩

theorem current_step (hcur : Current v) (horder : InOrder v e) : Current (step v e) := by
  rcases step_cases v e with h | h | ⟨reload, res, rfl, hmem⟩ | ⟨reload, res, rfl, hmem⟩ |
    ⟨rfl, a, sel, -, -, hstep⟩
  · exact ⟨by rw [h.arrays, h.toldArrays, hcur.arrays],
      by rw [allDisks, h.disks, h.toldDisks]; exact hcur.disks⟩
  · exact ⟨by rw [h.arrays, h.toldArrays, hcur.arrays],
      by rw [allDisks, h.disks, h.toldDisks]; exact hcur.disks⟩
  · have hstep : step v (.arrays reload res) = _ := if_pos hmem
    rw [hstep]
    cases res with
    | error e => exact ⟨hcur.arrays, hcur.disks⟩
    | ok arrays =>
      have hle : v.toldArrays.1 ≤ reload := horder
      refine ⟨?_, hcur.disks⟩
      dsimp only
      rw [if_pos hle]
  · have hstep : step v (.disks reload res) = _ := if_pos hmem
    rw [hstep]
    cases res with
    | error e => exact ⟨hcur.arrays, hcur.disks⟩
    | ok disks =>
      have hle : v.toldDisks.1 ≤ reload := horder
      refine ⟨hcur.arrays, ?_⟩
      dsimp only
      rw [if_pos hle]
      rfl
  · rw [hstep]
    exact ⟨hcur.arrays, hcur.disks⟩

/-! ## Any run -/

theorem settled_same (h : Same v w) : Settled w ↔ Settled v := by
  rw [Settled, Settled, h.timers, h.requests, h.reloads]

theorem fits_of_cases (hfits : Settled v → FitsNow v) (h : Same v w ∨ Busy v w) :
    Settled w → FitsNow w := by
  intro hs
  rcases h with h | h
  · have hold := hfits ((settled_same h).mp hs)
    rw [FitsNow, allDisks] at hold ⊢
    rwa [h.arrays, h.disks, h.failed, h.added]
  · exact absurd hs h.waits

/-- A failed disk is missing from those on offer unless it is in an array. -/
theorem fits_add {arrays : List RaidArray} {disks : List Disk} {failed added : Overrides}
    {mdDevice sel : Str} (h : Fits arrays disks failed added) :
    Fits arrays disks (failed.add mdDevice [sel]) added ↔
      ∀ d ∈ disks, d.device = sel → ∃ a ∈ arrays, sel ∈ a.members := by
  constructor
  · rintro hnew d hd rfl
    by_contra hfree
    have hnot := hnew.failed d hd fun a ha hmem => hfree ⟨a, ha, hmem⟩
    exact hnot (Overrides.mem_all_add.mpr (.inr (List.mem_singleton.mpr rfl)))
  · intro hused
    refine ⟨h.nodup, h.added, fun d hd hfree hmem => ?_⟩
    rcases Overrides.mem_all_add.mp hmem with hmem | hmem
    · exact h.failed d hd hfree hmem
    · obtain ⟨a, ha, hin⟩ := hused d hd (List.mem_singleton.mp hmem)
      exact hfree a ha (List.mem_singleton.mp hmem ▸ hin)

/-- The button of an open dialog, where it marks a disk as failed and where it does not. -/
theorem allowed_confirm (hfits : Settled v → FitsNow v) :
    allowed v .confirm ↔ (Settled (step v .confirm) → FitsNow (step v .confirm)) := by
  by_cases hmarks : ∃ a sel, v.modal = some (.markFailed a sel) ∧ sel ≠ []
  · obtain ⟨a, sel, hmodal, hsel⟩ := hmarks
    have hstep : step v .confirm = handleMarkFailed a sel v := by
      simp only [step, confirm, hmodal, if_neg hsel]
    rw [hstep]
    have hallowed : allowed v .confirm ↔ (Settled v →
        ∀ d ∈ allDisks v, d.device = sel → ∃ a ∈ v.arrays.getD [], sel ∈ a.members) := by
      refine ⟨fun h => h a sel hmodal hsel, fun h b s hb _ => ?_⟩
      rw [hmodal, Option.some.injEq, Modal.markFailed.injEq] at hb
      exact hb.2 ▸ h
    rw [hallowed]
    refine forall_congr' fun hs => ?_
    exact (fits_add (hfits hs)).symm
  · refine iff_of_true (fun a sel hmodal hsel => absurd ⟨a, sel, hmodal, hsel⟩ hmarks) ?_
    refine fits_of_cases hfits ?_
    rcases confirm_cases v with h | h | ⟨a, sel, hmodal, hsel, -⟩
    · exact .inl h
    · exact .inr h
    · exact absurd ⟨a, sel, hmodal, hsel⟩ hmarks

/-- At rest the lists fit exactly after the events that are allowed. -/
theorem allowed_iff (hfits : Settled v → FitsNow v) :
    allowed v e ↔ (Settled (step v e) → FitsNow (step v e)) := by
  have hkept : ∀ {e}, allowed v e → Same v (step v e) ∨ Busy v (step v e) →
      (allowed v e ↔ (Settled (step v e) → FitsNow (step v e))) :=
    fun hallowed h => iff_of_true hallowed (fits_of_cases hfits h)
  cases e with
  | raidStatus => exact hkept trivial (.inr (busy_load rfl rfl rfl rfl))
  | onLoad => exact hkept trivial (.inr (busy_load rfl rfl rfl rfl))
  | arrays reload res =>
    by_cases hmem : ⟨.arrays, reload⟩ ∈ v.requests
    · obtain ⟨harrays, hdisks, hfailed, hadded, hsettled⟩ := arrays_step res hmem
      rw [hsettled, FitsNow, harrays, hdisks, hfailed, hadded]
      rfl
    · have hsame : step v (.arrays reload res) = v := if_neg hmem
      refine hkept (fun hlast => absurd hlast.1 hmem) (.inl ?_)
      rw [hsame]
      exact .refl v
  | disks reload res =>
    by_cases hmem : ⟨.disks, reload⟩ ∈ v.requests
    · obtain ⟨hdisks, harrays, hfailed, hadded, hsettled⟩ := disks_step res hmem
      rw [hsettled, FitsNow, harrays, hdisks, hfailed, hadded]
      rfl
    · have hsame : step v (.disks reload res) = v := if_neg hmem
      refine hkept (fun hlast => absurd hlast.1 hmem) (.inl ?_)
      rw [hsame]
      exact .refl v
  | returned k res => exact hkept trivial (returned_cases k res v)
  | tick k => exact hkept trivial (tick_cases k v)
  | press row button => exact hkept trivial (.inl (press_same row button v))
  | openCreate => exact hkept trivial (.inl ⟨rfl, rfl, rfl, rfl, rfl, rfl, rfl, rfl, rfl⟩)
  | openWipe k => exact hkept trivial (.inl (openWipe_same k v))
  | close => exact hkept trivial (.inl ⟨rfl, rfl, rfl, rfl, rfl, rfl, rfl, rfl, rfl⟩)
  | select device => exact hkept trivial (.inl (select_same device v))
  | confirm => exact allowed_confirm hfits

/-- When the answers come in order, the view is right whenever it is at rest if and only if every
event is allowed. -/
theorem view_right_iff {es : List Event} (horder : Guarded step InOrder start es) :
    Always step (fun v => Settled v → Right v) start es ↔ Guarded step allowed start es := by
  have hstart : Current start ∧ (Settled start → FitsNow start) :=
    ⟨⟨rfl, rfl⟩, fun hs => absurd hs (not_settled_load _)⟩
  have hstep : ∀ v e, Current v ∧ (Settled v → FitsNow v) → InOrder v e → allowed v e →
      Current (step v e) ∧ (Settled (step v e) → FitsNow (step v e)) :=
    fun v e hinv horder hallowed =>
      ⟨current_step hinv.1 horder, (allowed_iff hinv.2).mp hallowed⟩
  constructor
  · refine guarded_of_always hstep (fun v e hinv horder hright => ?_) hstart horder
    refine (allowed_iff hinv.2).mpr fun hs => ?_
    exact (right_iff_fits (current_step hinv.1 horder)).mp (hright hs)
  · intro hallowed
    exact always_of_guarded (fun v e hinv hboth => hstep v e hinv hboth.1 hboth.2)
      (fun v hinv hs => (right_iff_fits hinv.1).mpr (hinv.2 hs)) hstart (horder.and hallowed)

/-! ## Runs -/

/-- A list of the backend with one array. -/
def oneArray (devices : List Str) : List RaidArray :=
  [⟨"/dev/md0", "5", "clean", some devices⟩]

def fourDisks : List Disk :=
  [⟨"/dev/sdb", 100⟩, ⟨"/dev/sdc", 100⟩, ⟨"/dev/sdd", 100⟩, ⟨"/dev/sde", 100⟩]

def listed : List Event :=
  [.arrays 1 (.ok (some (oneArray ["/dev/sdb", "/dev/sdc", "/dev/sdd"]))),
    .disks 1 (.ok (some fourDisks))]

/-- The array is expanded by a disk, and the reload that follows lists it with that disk. -/
def expanded : List Event :=
  listed ++ [.press 0 .expand, .select "/dev/sde", .confirm] ++ List.replicate 25 (.tick 0) ++
    [.arrays 2 (.ok (some (oneArray ["/dev/sdb", "/dev/sdc", "/dev/sdd", "/dev/sde"]))),
      .disks 2 (.ok (some fourDisks))]

/-- A disk is marked as failed, and the next reload lists the array without it. -/
def removed : List Event :=
  listed ++ [.press 0 .markFailed, .select "/dev/sdb", .confirm, .raidStatus,
    .arrays 2 (.ok (some (oneArray ["/dev/sdc", "/dev/sdd"]))), .disks 2 (.ok (some fourDisks))]

/-- The new disk is shown twice and counted twice. The disk that was removed is never on offer
again. -/
theorem view_wrong :
    ¬ Always step (fun v => Settled v → Right v) start expanded ∧
      (enrichedArrays (run step start expanded)).map (fun a => (a.devices.length,
        totalSize (run step start expanded) a)) = [(5, 400)] ∧
      ¬ Always step (fun v => Settled v → Right v) start removed ∧
      (availableDisks (run step start removed)).map Disk.device = [("/dev/sde" : Str)] := by
  have hshown : (enrichedArrays (run step start expanded)).map Row.devices =
      [[("/dev/sdb" : Str), "/dev/sdc", "/dev/sdd", "/dev/sde", "/dev/sde"]] := by decide +kernel
  have hoffered : (availableDisks (run step start removed)).map Disk.device =
      [("/dev/sde" : Str)] := by decide +kernel
  refine ⟨fun h => ?_, by decide +kernel, fun h => ?_, hoffered⟩
  · have hright := always_iff_prefix.mp h _ [] (List.append_nil _).symm
      ⟨List.length_eq_zero_iff.mp (by decide +kernel), by decide +kernel⟩
    have hnodup : ∀ ds ∈ (enrichedArrays (run step start expanded)).map Row.devices, ds.Nodup := by
      intro ds hds
      obtain ⟨a, ha, rfl⟩ := List.mem_map.mp hds
      exact hright.nodup a ha
    rw [hshown] at hnodup
    exact absurd (hnodup _ List.mem_cons_self) (by decide)
  · have hright := always_iff_prefix.mp h _ [] (List.append_nil _).symm
      ⟨List.length_eq_zero_iff.mp (by decide +kernel), by decide +kernel⟩
    have hfree := hright.available
    have hlen : ((run step start removed).toldDisks.2.filter fun d =>
        ∀ a ∈ (run step start removed).toldArrays.2, d.device ∉ a.members).length = 2 := by
      decide +kernel
    have hone := congrArg List.length hoffered
    rw [List.length_map, hfree, hlen] at hone
    cases hone

/-- A disk is marked as failed, another one is wiped, and the reload lists the array with all of its
disks. -/
def kept : List Event :=
  listed ++ [.press 0 .markFailed, .select "/dev/sdb", .confirm, .returned 0 (.ok ()), .openWipe 0,
    .confirm, .returned 0 (.ok ()),
    .arrays 2 (.ok (some (oneArray ["/dev/sdb", "/dev/sdc", "/dev/sdd"]))),
    .disks 2 (.ok (some fourDisks))]

theorem allowed_of_waiting {reload : Nat} {res : Except Str (Option (List RaidArray))} {v : View}
    (hd : ⟨.disks, v.reloads⟩ ∈ v.requests.erase ⟨.arrays, reload⟩) :
    allowed v (.arrays reload res) := by
  rintro ⟨-, -, hall⟩
  exact absurd rfl (hall _ hd)

/-- The disk that is selected in the dialog of failed disks. -/
def marking (v : View) : Option Str :=
  match v.modal with
  | some (.markFailed _ sel) => some sel
  | _ => none

theorem allowed_of_marking {v : View}
    (h : ∀ sel, marking v = some sel → ∃ a ∈ v.arrays.getD [], sel ∈ a.members) :
    allowed v .confirm := by
  intro a sel hmodal _ _ d _ _
  exact h sel (by rw [marking, hmodal])

theorem view_right_kept : Guarded step InOrder start kept ∧
    Always step (fun v => Settled v → Right v) start kept ∧
    (enrichedArrays (run step start kept)).map Row.failedDevices = [[("/dev/sdb" : Str)]] := by
  have horder : Guarded step InOrder start kept :=
    ⟨Nat.zero_le 1, Nat.zero_le 1, trivial, trivial, trivial, trivial, trivial, trivial, trivial,
      Nat.le_succ 1, Nat.le_succ 1, trivial⟩
  refine ⟨horder, (view_right_iff horder).mpr ⟨?_, ?_, trivial, trivial, ?_, trivial, trivial, ?_,
    trivial, ?_, ?_, trivial⟩, by decide +kernel⟩
  · exact allowed_of_waiting (by decide +kernel)
  · intro _
    exact ⟨by decide +kernel, by decide +kernel, by decide +kernel⟩
  · refine allowed_of_marking fun sel hsel => ?_
    have hdisk : marking (run step start (kept.take 4)) = some ("/dev/sdb" : Str) := by
      decide +kernel
    rw [← Option.some.inj (hdisk.symm.trans hsel)]
    decide +kernel
  · refine allowed_of_marking fun sel hsel => ?_
    have hnone : marking (run step start (kept.take 7)) = none := by decide +kernel
    cases hnone.symm.trans hsel
  · exact allowed_of_waiting (by decide +kernel)
  · intro _
    exact ⟨by decide +kernel, by decide +kernel, by decide +kernel⟩

end View
end Raid
end Nasd
