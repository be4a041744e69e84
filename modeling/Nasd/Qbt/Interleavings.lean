import Nasd.Lib.Run
import Nasd.Qbt.Gating

/-!
# Nasd.Qbt.Interleavings

Any interleaving of the requests of `Nasd.Qbt.Gating`: a list of events, each the arrival of a
request or a turn of one that is in flight.

* `Inv`        — what holds in between; the row of a configuration may still be behind.
* `step_inv`   — one event.
* `gated_runs` — any run, of which the turns are `allowed`.
* `run_alone`  — a request that has the server for itself.
-/

namespace Nasd

open Machine

namespace Qbt
namespace Gating

open Text Go Sys
open Prog (Asks)
open Raid.Routine (Releases)
open Routine (isActive)

variable {σ α : Type} {O : OS σ}

/-! ## What holds in between -/

/-- A flight by what is left of it. -/
inductive Stage (O : OS σ) (s : Site Row σ) (f : Flight) : Prop where
  | tame (h : Asks Tame f.left)
  | checking (hcall : f.call.configures = true) (h : Checks O f.left)
  | launching (hcall : f.call.configures = true) (hmounted : mounted O s.host.env = true)
      (h : Launches f.left)
  | storing (h : Stores f.left)
  | starting (hcall : f.call.starts = true) (h : Starts f.left)

/-- While the row of a configuration is still to be updated, the service may run already. -/
structure Inv (O : OS σ) (s : Server σ) : Prop where
  mounted : active O s.shared.host.env = true → mounted O s.shared.host.env = true
  configured : active O s.shared.host.env = true →
    s.shared.row.configured = true ∨ ∃ i f, Pool.At s i f ∧ Stores f.left
  stage : ∀ i f, Pool.At s i f → Stage O s.shared f

variable {s : Server σ} {f : Flight} {i : Nat}

theorem Stage.serve (hO : Lawful O) (s : Site Row σ) (call : Call) : Stage O s (serve call) := by
  cases call with
  | storage m => exact .tame (.bind (asks_storage (Raid.Routine.mutate_asks m)) fun _ => .pure _)
  | configure r => exact .checking rfl (configure_checks hO r)
  | start => exact .starting rfl start_starts
  | stop => exact .tame (.bind stop_asks fun _ => .pure _)
  | status => exact .tame (.bind status_asks fun _ => .pure _)

/-- Only a configuration that has seen a volume depends on the machine. -/
theorem Stage.move {s s' : Site Row σ} (h : Stage O s f)
    (hkeep : (mounted O s.host.env = true → mounted O s'.host.env = true) ∨
      (f.call.configures = true → f.left.head? = none)) : Stage O s' f := by
  cases h with
  | tame h => exact .tame h
  | checking hcall h => exact .checking hcall h
  | storing h => exact .storing h
  | starting hcall h => exact .starting hcall h
  | launching hcall hmounted h =>
    rcases hkeep with hkeep | hdone
    · exact .launching hcall (hkeep hmounted) h
    · obtain ⟨call, left⟩ := f
      cases left with
      | done x => exact .tame trivial
      | ask a k => cases hdone hcall

theorem not_stores_of_tame {a : Sys.Action Row} {k : a.Answer → Sys.Routine Row α} (ha : Tame a) :
    ¬ Stores (.ask a k) := by
  intro h
  cases h
  cases ha

theorem settled_iff : settled s = true ↔
    ∀ i f, Pool.At s i f → f.call.configures = true → f.left.head? = none := by
  rw [settled, List.all_eq_true]
  constructor
  · intro h i f hat hcall
    have hdone := h f hat.mem
    rw [hcall] at hdone
    exact Option.isNone_iff_eq_none.mp hdone
  · intro h f hf
    obtain ⟨i, hi⟩ := List.mem_iff_getElem?.mp hf
    cases hcall : f.call.configures with
    | false => rfl
    | true => rw [h i f hi hcall]; rfl

/-- A flight whose turn it is and that does not update the row next is not the one that will. -/
theorem Inv.elsewhere (hinv : Inv O s) (hat : Pool.At s i f) (hnot : ¬ Stores f.left)
    (hactive : active O s.shared.host.env = true) :
    s.shared.row.configured = true ∨ ∃ j g, j ≠ i ∧ Pool.At s j g ∧ Stores g.left := by
  rcases hinv.configured hactive with hrow | ⟨j, g, hg, hstores⟩
  · exact .inl hrow
  · refine .inr ⟨j, g, ?_, hg, hstores⟩
    rintro rfl
    rw [hg.unique hat] at hstores
    exact hnot hstores

/-- What a turn of `f` has to keep. -/
theorem Inv.advance (hinv : Inv O s) (hat : Pool.At s i f) {out : Flight × Site Row σ}
    (hmounted : active O out.2.host.env = true → Gating.mounted O out.2.host.env = true)
    (hconfigured : active O out.2.host.env = true → out.2.row.configured = true ∨
      Stores out.1.left ∨ ∃ j g, j ≠ i ∧ Pool.At s j g ∧ Stores g.left)
    (hstage : Stage O out.2 out.1)
    (hkeep : (Gating.mounted O s.shared.host.env = true → Gating.mounted O out.2.host.env = true) ∨
      settled s = true) : Inv O (Pool.advance i out s) := by
  have hhere : ∀ {j g}, Pool.At (Pool.advance i out s) j g ↔
      (j = i ∧ g = out.1) ∨ (j ≠ i ∧ Pool.At s j g) := Pool.at_advance hat
  constructor
  · exact hmounted
  · intro hactive
    rcases hconfigured hactive with hrow | hstores | ⟨j, g, hne, hg, hstores⟩
    · exact .inl hrow
    · exact .inr ⟨i, out.1, hhere.mpr (.inl ⟨rfl, rfl⟩), hstores⟩
    · exact .inr ⟨j, g, hhere.mpr (.inr ⟨hne, hg⟩), hstores⟩
  · intro j g hg
    rcases hhere.mp hg with ⟨-, rfl⟩ | ⟨-, hg⟩
    · exact hstage
    · exact (hinv.stage j g hg).move
        (hkeep.imp_right fun hsettled => settled_iff.mp hsettled j g hg)

/-- A turn that starts nothing: no volume is lost, or nothing depends on it. -/
structure Turned (O : OS σ) (s : Server σ) (out : Site Row σ) : Prop where
  active : Gating.active O out.host.env = true → Gating.active O s.shared.host.env = true
  row : out.row = s.shared.row
  keep : (mounted O s.shared.host.env = true → mounted O out.host.env = true) ∨
    (Gating.active O s.shared.host.env = false ∧ settled s = true)

theorem meets_run {call : Call} {c : Cmd} {k : Result → Sys.Routine Row Answer}
    (h : meets O s ⟨call, .ask (.run c) k⟩ = true) :
    (releases c = true → mounted O (O.run c s.shared.host.env).2 = true ∨
      (active O s.shared.host.env = false ∧ settled s = true)) ∧
    (call.starts = true → c = enableNow →
      s.shared.row.configured = true ∧ mounted O s.shared.host.env = true) := by
  unfold meets at h
  simp only [Prog.head?, Bool.and_eq_true, Bool.or_eq_true, Bool.not_eq_true',
    Bool.and_eq_false_iff, decide_eq_false_iff_not] at h
  obtain ⟨hrelease, hstart⟩ := h
  constructor
  · intro hr
    rcases hrelease with (hno | hleft) | hidle
    · rw [hno] at hr
      cases hr
    · exact .inl hleft
    · exact .inr hidle
  · intro hcall hc
    rcases hstart with (hno | hno) | hrow
    · rw [hno] at hcall
      cases hcall
    · exact absurd hc hno
    · exact hrow

theorem env_write (path content : Str) (s : Site Row σ) :
    (perform O (.write path content) s).2.host.env = (O.write path content s.host.env).2 := by
  show (s.host.tryWrite O path content).2.env = _
  unfold Host.tryWrite
  dsimp only
  split <;> rfl

theorem tame_turned (hO : Lawful O) {call : Call} {a : Sys.Action Row}
    {k : a.Answer → Sys.Routine Row Answer} (ha : Tame a)
    (hmeets : meets O s ⟨call, .ask a k⟩ = true) : Turned O s (perform O a s.shared).2 := by
  cases ha with
  | calm h => exact ⟨hO.calm_active h, rfl, .inl (hO.calm_mounted h)⟩
  | release h =>
    refine ⟨hO.release_active h, rfl, ?_⟩
    exact ((meets_run hmeets).1 (by cases h <;> rfl)).imp_left fun hleft _ => hleft
  | read path => exact ⟨id, rfl, .inl id⟩
  | save path content => exact ⟨id, rfl, .inl id⟩
  | write path content =>
    constructor
    · rw [env_write]
      exact hO.write_active
    · rfl
    · rw [env_write]
      exact .inl hO.write_mounted
  | load => exact ⟨id, rfl, .inl id⟩

/-- A turn that starts nothing, of a flight that may go on. -/
theorem Turned.inv (hinv : Inv O s) {call : Call} {a : Sys.Action Row}
    {k : a.Answer → Sys.Routine Row Answer} (hat : Pool.At s i ⟨call, .ask a k⟩) (ha : Tame a)
    {out : Flight × Site Row σ} (hturned : Turned O s out.2) (hstage : Stage O out.2 out.1) :
    Inv O (Pool.advance i out s) := by
  refine hinv.advance hat (fun hactive => ?_) (fun hactive => ?_) hstage
    (hturned.keep.imp_right fun h => h.2)
  · have hbefore := hturned.active hactive
    rcases hturned.keep with hkeep | ⟨hidle, -⟩
    · exact hkeep (hinv.mounted hbefore)
    · rw [hidle] at hbefore
      cases hbefore
  · rw [hturned.row]
    exact (hinv.elsewhere hat (not_stores_of_tame ha) (hturned.active hactive)).imp_right .inr

/-- A configuration in flight is not settled. -/
theorem Turned.kept {out : Site Row σ} (hturned : Turned O s out) {call : Call}
    {a : Sys.Action Row} {k : a.Answer → Sys.Routine Row Answer}
    (hat : Pool.At s i ⟨call, .ask a k⟩) (hcall : call.configures = true)
    (hmounted : mounted O s.shared.host.env = true) : mounted O out.host.env = true := by
  rcases hturned.keep with hkeep | ⟨-, hsettled⟩
  · exact hkeep hmounted
  · cases settled_iff.mp hsettled i _ hat hcall

/-- Starting the service, with a volume there. -/
theorem start_inv (hO : Lawful O) (hinv : Inv O s) {call : Call}
    {k : Result → Sys.Routine Row Answer} (hat : Pool.At s i ⟨call, .ask (.run enableNow) k⟩)
    (hmounted : mounted O s.shared.host.env = true)
    (hnext : (O.run enableNow s.shared.host.env).1.err = none →
      s.shared.row.configured = true ∨ Stores (k (O.run enableNow s.shared.host.env).1))
    (hstage : Stage O (perform O (.run enableNow) s.shared).2
      ⟨call, k (O.run enableNow s.shared.host.env).1⟩) :
    Inv O (Pool.advance i (turn O ⟨call, .ask (.run enableNow) k⟩ s.shared) s) := by
  refine hinv.advance hat (fun _ => hO.start_mounted hmounted) (fun hactive => ?_) hstage
    (.inl hO.start_mounted)
  by_cases hok : (O.run enableNow s.shared.host.env).1.err = none
  · exact (hnext hok).imp_right .inl
  · have hnot : ¬ Stores (.ask (.run enableNow) k : Sys.Routine Row Answer) := fun h => by cases h
    exact (hinv.elsewhere hat hnot (hO.start_failed hok hactive)).imp_right .inr

theorem advance_inv (hO : Lawful O) (hinv : Inv O s) (hat : Pool.At s i f)
    (hmeets : meets O s f = true) : Inv O (Pool.advance i (turn O f s.shared) s) := by
  obtain ⟨call, left⟩ := f
  cases left with
  | done x =>
    have hstage := hinv.stage i _ hat
    have hnot : ¬ Stores (.done x : Sys.Routine Row Answer) := fun h => by cases h
    exact hinv.advance hat hinv.mounted
      (fun hactive => (hinv.elsewhere hat hnot hactive).imp_right .inr) hstage (.inl id)
  | ask a k =>
    have htame : ∀ ha : Tame a, Turned O s (perform O a s.shared).2 :=
      fun ha => tame_turned hO ha hmeets
    cases hinv.stage i _ hat with
    | tame h => exact (htame h.1).inv hinv hat h.1 (.tame (h.2 _))
    | checking hcall h =>
      refine (htame h.1).inv hinv hat h.1 ?_
      rcases h.2 s.shared with hchecks | ⟨hmounted, hlaunch⟩
      · exact .checking hcall hchecks
      · exact .launching hcall ((htame h.1).kept hat hcall hmounted) hlaunch
    | launching hcall hmounted h =>
      cases h with
      | tame h => exact (htame h.1).inv hinv hat h.1 (.tame (h.2 _))
      | ask ha hk =>
        exact (htame ha).inv hinv hat ha
          (.launching hcall ((htame ha).kept hat hcall hmounted) (hk _))
      | start hok hbad =>
        refine start_inv hO hinv hat hmounted (fun hnone => .inr (hok _ hnone)) ?_
        by_cases hnone : (O.run enableNow s.shared.host.env).1.err = none
        · exact .storing (hok _ hnone)
        · exact .tame (hbad _ hnone)
    | storing h =>
      cases h with
      | @intro row error k hrow hk =>
        cases error with
        | none => exact hinv.advance hat hinv.mounted (fun _ => .inl hrow) (.tame (hk _)) (.inl id)
        | some e =>
          have hstored : s.shared.row.configured = true ∨ active O s.shared.host.env = false := by
            simpa [meets, Prog.head?] using hmeets
          refine hinv.advance hat hinv.mounted (fun hactive => ?_) (.tame (hk _)) (.inl id)
          rcases hstored with hrow | hidle
          · exact .inl hrow
          · have hactive' : active O s.shared.host.env = true := hactive
            rw [hidle] at hactive'
            cases hactive'
    | starting hcall h =>
      obtain ⟨hk⟩ := h
      obtain ⟨hrow, hmounted⟩ := (meets_run hmeets).2 hcall rfl
      exact start_inv hO hinv hat hmounted (fun _ => .inl hrow) (.tame (hk _))

theorem step_inv (hO : Lawful O) {e : Pool.Event Call} (hinv : Inv O s)
    (he : allowed O s e = true) : Inv O (step O s e) := by
  have hstep : step O s e = Pool.step serve (turn O) s e := rfl
  rw [hstep]
  rcases Pool.step_cases serve (turn O) s e with ⟨q, rfl, hq⟩ | ⟨i, f, rfl, hat, hi⟩ | ⟨i, rfl, hi⟩
  · rw [hq]
    refine ⟨hinv.mounted, fun hactive => ?_, fun i f hf => ?_⟩
    · refine (hinv.configured hactive).imp_right ?_
      rintro ⟨i, f, hf, hstores⟩
      exact ⟨i, f, Pool.at_arrive.mpr (.inl hf), hstores⟩
    · rcases Pool.at_arrive.mp hf with hf | ⟨-, rfl⟩
      · exact hinv.stage i f hf
      · exact .serve hO _ q
  · rw [hi]
    have hget : s.procs[i]? = some f := hat
    rw [allowed, hget] at he
    exact advance_inv hO hinv hat he
  · rw [hi]
    exact hinv

/-! ## Any run -/

theorem gated_of_quiescent (hinv : Inv O s) (hquiet : Quiescent s) : Gated O s.shared := by
  intro hactive
  refine ⟨(hinv.configured hactive).resolve_right ?_, hinv.mounted hactive⟩
  rintro ⟨i, f, hf, hstores⟩
  obtain ⟨call, left⟩ := f
  cases hstores
  cases hquiet _ hf.mem

/-- Whenever no request is in flight the service runs only with a configured app and a volume. -/
theorem gated_runs (hO : Lawful O) {es : List (Pool.Event Call)} (hidle : s.procs = [])
    (hgated : Gated O s.shared) (hrun : Guarded (step O) (fun s e => allowed O s e = true) s es) :
    Always (step O) (fun s => Quiescent s → Gated O s.shared) s es := by
  have hinv : Inv O s := by
    refine ⟨fun h => (hgated h).2, fun h => .inl (hgated h).1, fun i f hf => ?_⟩
    have hnone := hf.mem
    rw [hidle] at hnone
    cases hnone
  exact always_of_guarded (fun s e hinv he => step_inv hO hinv he)
    (fun s hinv hquiet => gated_of_quiescent hinv hquiet) hinv hrun

/-- A request that has the server for itself is its routine, from the first command to the last. -/
theorem run_alone (O : OS σ) (call : Call) (site : Site Row σ) :
    ∃ n, run (step O) ⟨site, []⟩ (.arrive call :: List.replicate n (.advance 0)) =
      ⟨(call.routine.exec (perform O) site).2,
        [⟨call, .done (call.routine.exec (perform O) site).1⟩]⟩ := by
  have hturns : ∀ (p : Sys.Routine Row Answer) (site : Site Row σ), ∃ n,
      run (step O) ⟨site, [⟨call, p⟩]⟩ (List.replicate n (.advance 0)) =
        ⟨(p.exec (perform O) site).2, [⟨call, .done (p.exec (perform O) site).1⟩]⟩ := by
    intro p
    induction p with
    | done x => exact fun site => ⟨0, rfl⟩
    | ask a k ih =>
      intro site
      obtain ⟨n, hn⟩ := ih (perform O a site).1 (perform O a site).2
      exact ⟨n + 1, hn⟩
  exact hturns call.routine site

/-! ## The Manager's own rule -/

/-- The states in which the service may run are those in which the app is configured and a volume
was listed. -/
theorem State_running_or_stopped (configured : Bool) (s : Site Row σ) :
    (((Routine.State configured).exec (perform O) s).1 = .running ∨
      ((Routine.State configured).exec (perform O) s).1 = .stopped) ↔
    configured = true ∧ (Routine.Volumes.exec (perform O) s).1 ≠ [] := by
  unfold Routine.State
  rw [Prog.exec_bind]
  by_cases hnil : (Routine.Volumes.exec (perform O) s).1 = []
  · rw [if_pos hnil]
    simp [hnil]
  · rw [if_neg hnil]
    cases configured with
    | false => simp
    | true =>
      simp only [Bool.not_true, Bool.false_eq_true, if_false, Prog.exec_bind]
      split
      · simp [hnil]
      · simp [hnil]

/-- What `Reconcile` would see to: after it the service runs only if it had listed a volume. -/
theorem Reconcile_stops (hO : Lawful O) (hstop : ∀ env, active O (O.run stopQbt env).2 = false)
    (s : Site Row σ)
    (hactive : active O (Routine.Reconcile.exec (perform O) s).2.host.env = true) :
    (Routine.Volumes.exec (perform O) s).1 ≠ [] := by
  intro hnil
  unfold Routine.Reconcile at hactive
  rw [Prog.exec_bind, if_pos hnil, Prog.exec_bind] at hactive
  generalize (Routine.Volumes.exec (perform O) s).2 = s' at hactive
  have hasked : (Routine.ServiceActive.exec (perform O) s' : Bool × Site Row σ) =
      (active O s'.host.env, (perform O (.run isActive) s').2) := rfl
  rw [hasked] at hactive
  cases hrunning : active O s'.host.env with
  | true =>
    rw [hrunning, if_pos rfl, Prog.exec_bind] at hactive
    exact Bool.false_ne_true ((hstop _).symm.trans hactive)
  | false =>
    rw [hrunning, if_neg Bool.false_ne_true] at hactive
    have hbefore := hO.calm_active .look hactive
    rw [hrunning] at hbefore
    cases hbefore

/-! ## A machine with one array -/

structure Box where
  running : Bool
  mounted : Bool
  deriving DecidableEq

def printed (text : Str) : Result := ⟨text, [], none⟩

/-- Every command succeeds. The array is `md0`, and what is mounted is mounted from it. -/
def box : OS Box where
  run c b :=
    if c = enableNow then (printed [], { b with running := true })
    else if releases c then (printed [], { b with mounted := false })
    else if c.name = "mount" then (printed [], { b with mounted := true })
    else if c = stopQbt then (printed [], { b with running := false })
    else if c = isActive then (printed (if b.running then "active\n" else "inactive\n"), b)
    else if c = Raid.cat Raid.procMdstat then (printed "md0 : active raid1 sdb[1] sda[0]\n", b)
    else if c = Raid.cat Raid.procMounts then
      (printed (if b.mounted then "/dev/md0 /srv/nas/md0 ext4 rw 0 0\n" else []), b)
    else (printed [], b)
  write _ _ b := (none, b)
  rename _ _ b := (none, b)

theorem active_box (b : Box) : active box b = b.running := by
  obtain ⟨running, mounted⟩ := b
  cases running <;> cases mounted <;> decide +kernel

theorem mounted_box (b : Box) : mounted box b = b.mounted := by
  obtain ⟨running, mounted⟩ := b
  cases running <;> cases mounted <;> decide +kernel

theorem tools_name {name other : Str} (h : tools.contains name = true)
    (hother : tools.contains other = false) : name ≠ other := by
  rintro rfl
  rw [h] at hother
  cases hother

theorem calm_ne_start {c : Cmd} (hc : Calm c) : c ≠ enableNow := by
  intro heq
  have hname : c.name = "systemctl" := congrArg Cmd.name heq
  have hargs : c.args = [("enable" : Str), "--now", serviceUnit] := congrArg Cmd.args heq
  cases hc with
  | quiet hquiet =>
    cases hquiet with
    | tool h => exact tools_name h rfl hname
    | mdadm h => exact (by decide : ("mdadm" : Str) ≠ "systemctl") hname
    | look cmd => exact (by decide : ("sh" : Str) ≠ "systemctl") hname
    | apt h => exact (by decide : ("systemd-run" : Str) ≠ "systemctl") hname
  | stop => exact absurd hargs (by decide)
  | reload => exact absurd hargs (by decide)
  | look => exact absurd hargs (by decide)

theorem calm_keeps {c : Cmd} (hc : Calm c) : releases c = false := by
  cases hc with
  | quiet hquiet =>
    cases hquiet with
    | tool h =>
      simp only [releases, tools_name h (rfl : tools.contains "umount" = false),
        tools_name h (rfl : tools.contains "mdadm" = false), decide_false, Bool.false_and,
        Bool.or_self]
    | mdadm h => simpa [releases] using h
    | look cmd => rfl
    | apt h => rfl
  | stop => rfl
  | reload => rfl
  | look => rfl

theorem box_running {c : Cmd} (hc : c ≠ enableNow) (b : Box) :
    (box.run c b).2.running = true → b.running = true := by
  have hrun : (box.run c b).2.running = b.running ∨ (box.run c b).2.running = false := by
    unfold box
    dsimp only
    rw [if_neg hc]
    split_ifs <;> simp
  intro h
  rcases hrun with hsame | hdown
  · rw [← hsame, h]
  · rw [hdown] at h
    cases h

theorem box_mounted {c : Cmd} (hc : releases c = false) (b : Box) :
    b.mounted = true → (box.run c b).2.mounted = true := by
  intro h
  unfold box
  dsimp only
  simp only [hc, Bool.false_eq_true, if_false]
  split_ifs <;> simp [h]

theorem box_lawful : Lawful box where
  calm_active hc b h := by
    rw [active_box] at h ⊢
    exact box_running (calm_ne_start hc) b h
  calm_mounted hc b h := by
    rw [mounted_box] at h ⊢
    exact box_mounted (calm_keeps hc) b h
  release_active {c} hc b h := by
    have hne : c ≠ enableNow := by
      intro heq
      have hname := congrArg Cmd.name heq
      cases hc with
      | umount target => exact (by decide : ("umount" : Str) ≠ "systemctl") hname
      | stop md => exact (by decide : ("mdadm" : Str) ≠ "systemctl") hname
    rw [active_box] at h ⊢
    exact box_running hne b h
  start_mounted {b} h := by
    rw [mounted_box] at h ⊢
    exact h
  start_failed h := absurd rfl h
  write_active h := h
  write_mounted h := h
  listed {line b b'} _ h := by
    rw [mounted_box]
    obtain ⟨running, mounted⟩ := b'
    cases mounted with
    | true => rfl
    | false => exact absurd rfl h

def site (row : Row) (b : Box) : Server Box := ⟨⟨row, Host.start b fun _ => none⟩, []⟩

def fresh : Row := ⟨false, [], [], [], "2770", 8080⟩

def wizard : Row :=
  ⟨true, "/srv/nas/md0/tmp", "/srv/nas/md0/torrents", "/srv/nas/md0/films", "2770", 8080⟩

/-- The service is started, stopped before the volume is unmounted, and all is well. -/
def orderly : List (Pool.Event Call) :=
  [.arrive .start, .arrive .stop, .advance 0,
    .arrive (.storage (.filesystem ⟨"md0", .unmountFilesystem (some ⟨"/srv/nas/md0", true⟩)⟩)),
    .advance 1, .advance 2, .advance 2]

theorem gated_runs_orderly :
    Always (step box) (fun s => Quiescent s → Gated box s.shared) (site wizard ⟨false, true⟩)
      orderly :=
  gated_runs box_lawful rfl (by decide +kernel)
    ⟨rfl, rfl, by decide +kernel, rfl, by decide +kernel, by decide +kernel, by decide +kernel,
      trivial⟩

/-- Started before the wizard was seen and without a volume, or left running when its volume goes:
the service is active. -/
theorem left_running :
    ¬ Always (step box) (fun s => Quiescent s → Gated box s.shared) (site fresh ⟨false, false⟩)
        [.arrive .start, .advance 0] ∧
      ¬ Always (step box) (fun s => Quiescent s → Gated box s.shared) (site wizard ⟨true, true⟩)
        (.arrive (.storage (.filesystem ⟨"md0", .deleteArray "true"⟩)) ::
          List.replicate 8 (.advance 0)) := by
  constructor
  · intro h
    have hlast := always_iff_prefix.mp h _ [] (List.append_nil _).symm
    exact absurd hlast (by decide +kernel)
  · intro h
    have hlast := always_iff_prefix.mp h _ [] (List.append_nil _).symm
    exact absurd hlast (by decide +kernel)

end Gating
end Qbt
end Nasd
