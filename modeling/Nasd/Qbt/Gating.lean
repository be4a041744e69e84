import Nasd.Qbt.Routines

/-!
# Nasd.Qbt.Gating

The rule that ties qBittorrent to the volumes: the service runs only when the app is configured and
a volume is mounted. Requests on the storage and on the app are served at the same time, one
command, file or row at a time.

* `Gated`, `meets`   — the rule, and what a turn of a request has to be like for it.
* `Lawful`           — what is taken of the machine: what starts the service or undoes a mount.
* `configure_checks` — a configuration starts the service only once it has seen a volume.
-/

namespace Nasd
namespace Qbt
namespace Gating

open Text Go Dirs Files Sys
open Prog (Asks Gives)
open Raid.Routine (Releases Storage)
open Routine (Submission isActive)

variable {σ α β : Type}

/-! ## The server -/

/-- The requests on the storage and on the app. -/
inductive Call where
  | storage (m : Raid.Routine.Mutation)
  | configure (r : Submission)
  | start
  | stop
  | status

inductive Answer where
  | storage (r : Raid.Reply)
  | qbt (r : Reply)
  | status (s : Routine.Status)

def Call.routine : Call → Sys.Routine Row Answer
  | .storage m => do
    let r ← Raid.Routine.mutate m
    pure (.storage r)
  | .configure r => do
    let out ← Routine.configure r
    pure (.qbt out)
  | .start => do
    let out ← Routine.start
    pure (.qbt out)
  | .stop => do
    let out ← Routine.stop
    pure (.qbt out)
  | .status => do
    let s ← Routine.status
    pure (.status s)

def Call.configures : Call → Bool
  | .configure _ => true
  | _ => false

def Call.starts : Call → Bool
  | .start => true
  | _ => false

/-- A request in flight, and what is left to do for it. -/
structure Flight where
  call : Call
  left : Sys.Routine Row Answer

abbrev Server (σ : Type) := Pool.State (Site Row σ) Flight

def serve (call : Call) : Flight := ⟨call, call.routine⟩

def turn (O : OS σ) (f : Flight) (s : Site Row σ) : Flight × Site Row σ :=
  ({ f with left := (f.left.next (perform O) s).1 }, (f.left.next (perform O) s).2)

def step (O : OS σ) : Server σ → Pool.Event Call → Server σ := Pool.step serve (turn O)

/-- No request is in flight. -/
def Quiescent (s : Server σ) : Prop := ∀ f ∈ s.procs, f.left.Finished

instance (s : Server σ) : Decidable (Quiescent s) :=
  inferInstanceAs (Decidable (∀ f ∈ s.procs, f.left.Finished))

/-! ## The rule -/

/-- What `systemctl is-active` says of the service. -/
def active (O : OS σ) (env : σ) : Bool := TrimSpace (O.run isActive env).1.stdout = "active"

/-- What the listing of the volumes comes to at once. -/
def volumes (O : OS σ) (env : σ) : List Volume :=
  ((Routine.Volumes : Sys.Routine Unit _).exec (perform O) ⟨(), Host.start env fun _ => none⟩).1

def mounted (O : OS σ) (env : σ) : Bool := volumes O env ≠ []

def Gated (O : OS σ) (s : Site Row σ) : Prop :=
  active O s.host.env = true → s.row.configured = true ∧ mounted O s.host.env = true

instance (O : OS σ) (s : Site Row σ) : Decidable (Gated O s) :=
  inferInstanceAs (Decidable (active O s.host.env = true →
    s.row.configured = true ∧ mounted O s.host.env = true))

def releases (c : Cmd) : Bool :=
  c.name = "umount" || (c.name = "mdadm" && c.args.head? = some ("--stop" : Str))

/-- No configuration is being set up. -/
def settled (s : Server σ) : Bool :=
  s.procs.all fun f => !f.call.configures || f.left.head?.isNone

/-- A turn of `f`. A command that undoes a mount or stops an array leaves a volume, or the service
is down and no configuration is being set up; a request starts the service only in the states
`running` and `stopped`; the `UPDATE` of a first configuration works. -/
def meets (O : OS σ) (s : Server σ) (f : Flight) : Bool :=
  let site := s.shared
  match f.left.head? with
  | some (.run c) =>
    (!releases c || mounted O (O.run c site.host.env).2 ||
      (!active O site.host.env && settled s)) &&
    (!(f.call.starts && c = enableNow) || (site.row.configured && mounted O site.host.env))
  | some (.store _ (some _)) => site.row.configured || !active O site.host.env
  | _ => true

def allowed (O : OS σ) (s : Server σ) : Pool.Event Call → Bool
  | .arrive _ => true
  | .advance i => (s.procs[i]?).all (meets O s)

/-! ## The machine -/

/-- The commands that neither start the service nor take a volume away. -/
inductive Calm : Cmd → Prop where
  | quiet {c : Cmd} (h : Quiet c) : Calm c
  | stop : Calm stopQbt
  | reload : Calm daemonReload
  | look : Calm isActive

/-- Only `enable --now` starts the service, when it succeeds; only `umount` and `mdadm --stop` can
take the last volume away; and an array that is mounted is listed. -/
structure Lawful (O : OS σ) : Prop where
  calm_active : ∀ {c}, Calm c → ∀ {env}, active O (O.run c env).2 = true → active O env = true
  calm_mounted : ∀ {c}, Calm c → ∀ {env}, mounted O env = true → mounted O (O.run c env).2 = true
  release_active : ∀ {c}, Releases c → ∀ {env}, active O (O.run c env).2 = true →
    active O env = true
  start_mounted : ∀ {env}, mounted O env = true → mounted O (O.run enableNow env).2 = true
  start_failed : ∀ {env}, (O.run enableNow env).1.err ≠ none →
    active O (O.run enableNow env).2 = true → active O env = true
  write_active : ∀ {path content env}, active O (O.write path content env).2 = true →
    active O env = true
  write_mounted : ∀ {path content env}, mounted O env = true →
    mounted O (O.write path content env).2 = true
  listed : ∀ {line env env'}, line ∈ Raid.mdLines (O.run (Raid.cat Raid.procMdstat) env).1.stdout →
    Raid.mountOf (Raid.mountsText (O.run (Raid.cat Raid.procMounts) env').1)
      ("/dev/" ++ Raid.arrayName line) ≠ none →
    mounted O env' = true

/-! ## What the requests ask for -/

/-- Anything but starting the service or changing the row. -/
inductive Tame : Sys.Action Row → Prop where
  | calm {c : Cmd} (h : Calm c) : Tame (.run c)
  | release {c : Cmd} (h : Releases c) : Tame (.run c)
  | read (path : Str) : Tame (.read path)
  | save (path content : Str) : Tame (.save path content)
  | write (path content : Str) : Tame (.write path content)
  | load : Tame .load

theorem asks_storage {p : Sys.Routine Row α} (h : Asks Storage p) : Asks Tame p := by
  refine h.mono fun a ha => ?_
  cases ha with
  | quiet h => exact .calm (.quiet h)
  | release h => exact .release h
  | read path => exact .read path
  | save path content => exact .save path content

theorem asks_tool {c : Cmd} (h : tools.contains c.name = true) :
    Asks Tame (Sys.Routine.run c : Sys.Routine Row Result) :=
  .act (.calm (.quiet (.tool h)))

theorem asks_apt {script : Str}
    (h : HasPrefix script "apt-get " = true ∨ HasPrefix script "dpkg " = true) :
    Asks Tame (Routine.aptRun script : Sys.Routine Row _) :=
  .bind (.act (.calm (.quiet (.apt h)))) fun _ => .pure _

theorem Volumes_asks : Asks Tame (Routine.Volumes : Sys.Routine Row _) :=
  .bind (asks_storage Raid.Routine.ListFilesystems_asks) fun _ => .pure _

theorem checkDir_asks (tree : Key → FS) (d : Folders) (key : Key) :
    Asks Tame (Routine.checkDir tree d key) := by
  refine .ite (.pure _) (.bind (.ite (.pure _) (.bind Volumes_asks fun _ => .pure _)) fun out => ?_)
  split <;> exact .pure _

theorem checkDirs_asks (tree : Key → FS) (d : Folders) (keys : List Key) :
    Asks Tame (Routine.checkDirs tree d keys) := by
  induction keys with
  | nil => exact .pure _
  | cons key keys ih => exact .bind (checkDir_asks tree d key) fun _ => .bind ih fun _ => .pure _

theorem EnsureInstalled_asks : Asks Tame (Routine.EnsureInstalled : Sys.Routine Row _) := by
  refine .bind (.act (.calm (.quiet (.look "qbittorrent-nox")))) fun found => .ite (.pure _) ?_
  refine .bind (asks_apt (.inl rfl)) fun _ => .bind (asks_apt (.inl rfl)) fun _ => .ite (.pure _) ?_
  refine .bind (asks_apt (.inr rfl)) fun _ => .bind (asks_apt (.inl rfl)) fun _ => ?_
  exact .ite (.pure _) (.pure _)

theorem EnsureUserGroup_asks : Asks Tame (Routine.EnsureUserGroup : Sys.Routine Row _) :=
  .bind (asks_tool rfl) fun _ => .bind (asks_tool rfl) fun _ =>
    .bind (.ite (.pure _) (asks_tool rfl)) fun _ => .bind (asks_tool rfl) fun _ =>
      .bind (asks_tool rfl) fun _ => .bind (asks_tool rfl) fun _ => .pure _

theorem setUp_asks (checked : ValidateResult) :
    Asks Tame (Routine.setUp checked : Sys.Routine Row _) := by
  refine .ite (.pure _) (.bind EnsureInstalled_asks fun out => ?_)
  split
  · exact .pure _
  · exact .bind EnsureUserGroup_asks fun _ => .pure _

theorem applyDir_asks (dir mode : Str) (steps : List Step) :
    Asks Tame (Routine.applyDir dir mode steps : Sys.Routine Row _) := by
  refine .bind (asks_tool rfl) fun out => ?_
  split
  · exact .pure _
  · refine .bind (asks_tool rfl) fun _ => .bind (asks_tool rfl) fun _ => .bind (asks_tool rfl)
      fun _ => .bind (asks_tool rfl) fun test => ?_
    split <;> exact .pure _

theorem applyDirs_asks (mode : Str) (ds : List Str) (steps : List Step) :
    Asks Tame (Routine.applyDirs mode ds steps : Sys.Routine Row _) := by
  induction ds generalizing steps with
  | nil => exact .pure _
  | cons d ds ih => exact .bind (applyDir_asks d mode steps) fun out => .ite (ih _) (.pure _)

theorem asks_write (path content : Str) :
    Asks Tame (Sys.Routine.write path content : Sys.Routine Row _) := .act (.write path content)

theorem writeConfig_asks (cfg : Config) (hash : Str) :
    Asks Tame (Routine.writeConfig cfg hash : Sys.Routine Row _) := by
  refine .bind (asks_tool rfl) fun _ => .bind (asks_write _ _) fun out => ?_
  split
  · exact .pure _
  · exact .bind (asks_tool rfl) fun _ => .pure _

theorem installUnit_asks (port : Int) :
    Asks Tame (Routine.installUnit port : Sys.Routine Row _) := by
  refine .bind (asks_write _ _) fun out => ?_
  split
  · exact .pure _
  · exact .bind (.act (.calm .reload)) fun _ => .pure _

theorem stop_asks : Asks Tame Routine.stop := by
  refine .bind (.bind (.act (.calm .stop)) fun _ => .pure _) fun out => ?_
  split <;> exact .pure _

theorem State_asks (configured : Bool) : Asks Tame (Routine.State configured : Sys.Routine Row _) :=
  .bind Volumes_asks fun _ => .ite (.pure _) (.ite (.pure _)
    (.bind (.bind (.act (.calm .look)) fun _ => .pure _) fun _ => .ite (.pure _) (.pure _)))

theorem status_asks : Asks Tame Routine.status :=
  .bind (.act .load) fun _ => .bind (State_asks _) fun _ => .bind Volumes_asks fun _ => .pure _

/-! ## How far a request is -/

/-- The row is updated next, and the app is configured in it. -/
inductive Stores : Sys.Routine Row α → Prop where
  | intro {row : Row} {error : Option Str} {k : Option Str → Sys.Routine Row α}
      (hrow : row.configured = true) (hk : ∀ x, Asks Tame (k x)) :
      Stores (.ask (.store row error) k)

/-- The service is started next, and that is all. -/
inductive Starts : Sys.Routine Row α → Prop where
  | intro {k : Result → Sys.Routine Row α} (hk : ∀ x, Asks Tame (k x)) :
      Starts (.ask (.run enableNow) k)

/-- The service may be started; when it was, the row is updated next. -/
inductive Launches : Sys.Routine Row α → Prop where
  | tame {p : Sys.Routine Row α} (h : Asks Tame p) : Launches p
  | ask {a : Sys.Action Row} {k : a.Answer → Sys.Routine Row α} (ha : Tame a)
      (hk : ∀ x, Launches (k x)) : Launches (.ask a k)
  | start {k : Result → Sys.Routine Row α} (hok : ∀ x, x.err = none → Stores (k x))
      (hbad : ∀ x, x.err ≠ none → Asks Tame (k x)) : Launches (.ask (.run enableNow) k)

theorem Launches.bind_gives {Q : α → Prop} {p : Sys.Routine Row α} {f : α → Sys.Routine Row β}
    (hp : Asks Tame p) (hq : Gives Q p) (hf : ∀ x, Q x → Launches (f x)) : Launches (p >>= f) := by
  induction p with
  | done x => exact hf x hq
  | ask a k ih => exact .ask hp.1 fun x => ih x (hp.2 x) (hq x)

theorem Launches.bind {p : Sys.Routine Row α} {f : α → Sys.Routine Row β} (hp : Asks Tame p)
    (hf : ∀ x, Launches (f x)) : Launches (p >>= f) :=
  .bind_gives hp (.all fun _ => trivial) fun x _ => hf x

/-- Nothing is started, unless an answer has shown a volume that is mounted. -/
def Checks (O : OS σ) : Sys.Routine Row α → Prop
  | .done _ => True
  | .ask a k => Tame a ∧ ∀ s : Site Row σ, Checks O (k (perform O a s).1) ∨
      (mounted O s.host.env = true ∧ Launches (k (perform O a s).1))

variable {O : OS σ}

theorem Checks.of_asks {p : Sys.Routine Row α} (h : Asks Tame p) : Checks O p := by
  induction p with
  | done x => trivial
  | ask a k ih => exact ⟨h.1, fun s => .inl (ih _ (h.2 _))⟩

theorem Checks.bind {Q : α → Prop} {p : Sys.Routine Row α} {f : α → Sys.Routine Row β}
    (hp : Asks Tame p) (hq : Gives Q p) (hf : ∀ x, Q x → Checks O (f x)) : Checks O (p >>= f) := by
  induction p with
  | done x => exact hf x hq
  | ask a k ih => exact ⟨hp.1, fun s => .inl (ih _ (hp.2 _) (hq _))⟩

theorem Checks.run {c : Cmd} {f : Result → Sys.Routine Row α} (hc : Calm c)
    (h : ∀ env, Checks O (f (O.run c env).1) ∨
      (mounted O env = true ∧ Launches (f (O.run c env).1))) :
    Checks O (Sys.Routine.run c >>= f) := ⟨.calm hc, fun s => h s.host.env⟩

theorem volumesOf_none {fss : List Raid.FilesystemInfo} (h : ∀ f ∈ fss, f.isMounted = false) :
    Routine.volumesOf fss = [] := by
  have hfilter : (fss.filter fun f => f.isMounted && f.mountPoint ≠ []) = [] := by
    refine List.filter_eq_nil_iff.mpr fun f hf => ?_
    rw [h f hf]
    exact Bool.false_ne_true
  rw [Routine.volumesOf, hfilter]
  rfl

/-- Listing the volumes shows that one is mounted, or that there is none. -/
theorem Volumes_checks (hO : Lawful O) {f : List Volume → Sys.Routine Row α}
    (hlaunch : ∀ vols, Launches (f vols)) (hnone : Asks Tame (f [])) :
    Checks O (Routine.Volumes >>= f) := by
  have hcat : ∀ path, Calm (Raid.cat path) := fun path => .quiet (.tool rfl)
  unfold Routine.Volumes Raid.Routine.ListFilesystems Raid.Routine.ListArrays
  simp only [Prog.bind_assoc]
  refine .run (hcat _) fun env => .inl ?_
  cases (O.run (Raid.cat Raid.procMdstat) env).1.err with
  | some e => exact .of_asks hnone
  | none =>
    simp only [Prog.bind_assoc]
    refine .bind (asks_storage (Raid.Routine.details_asks _)) (Raid.Routine.details_gives _)
      fun arrays harrays => .run (hcat _) fun env' => ?_
    have hlist : ∀ mounts, Asks Tame (Raid.Routine.filesystems mounts arrays : Sys.Routine Row _) :=
      fun mounts => asks_storage (Raid.Routine.filesystems_asks mounts arrays)
    by_cases hnot : ∀ a ∈ arrays,
        Raid.mountOf (Raid.mountsText (O.run (Raid.cat Raid.procMounts) env').1) a.device = none
    · refine .inl (.of_asks (.bind_gives (hlist _) (Raid.Routine.filesystems_gives hnot) ?_))
      intro fss hfss
      rw [volumesOf_none hfss]
      exact hnone
    · simp only [not_forall] at hnot
      obtain ⟨a, ha, hmount⟩ := hnot
      obtain ⟨line, hline, hdev⟩ := List.mem_map.mp (harrays a ha)
      rw [← hdev] at hmount
      exact .inr ⟨hO.listed hline hmount, .bind (hlist _) fun fss => hlaunch _⟩

theorem resolveInVolumes_checks (hO : Lawful O) {tree : FS} {path : Str}
    {f : Except Str Volume → Sys.Routine Row α} (hlaunch : ∀ out, Launches (f out))
    (herror : ∀ e, Asks Tame (f (.error e))) :
    Checks O (Routine.resolveInVolumes tree path >>= f) := by
  unfold Routine.resolveInVolumes
  split
  · exact .of_asks (herror _)
  · rw [Prog.bind_assoc]
    exact Volumes_checks hO (fun _ => hlaunch _) (herror _)

theorem checkDir_checks (hO : Lawful O) {tree : Key → FS} {d : Folders} {key : Key}
    {f : Except Str Volume → Sys.Routine Row α} (hlaunch : ∀ out, Launches (f out))
    (herror : ∀ e, Asks Tame (f (.error e))) :
    Checks O (Routine.checkDir tree d key >>= f) := by
  unfold Routine.checkDir
  split
  · exact .of_asks (herror _)
  · rw [Prog.bind_assoc]
    refine resolveInVolumes_checks hO (fun out => ?_) fun e => herror _
    cases out with
    | error e => exact hlaunch _
    | ok v => exact hlaunch _

theorem verdict_refused {d : Folders} {checked : List (Key × Except Str Volume)}
    {c : Key × Except Str Volume} (hc : c ∈ checked) (herror : errorOf c.2 ≠ none) :
    (Routine.verdict d checked).ok = false := by
  obtain ⟨e, he⟩ := Option.ne_none_iff_exists'.mp herror
  have hmem : e ∈ checked.filterMap fun c => errorOf c.2 := List.mem_filterMap.mpr ⟨c, hc, he⟩
  unfold Routine.verdict
  exact List.isEmpty_eq_false_iff.mpr
    (List.append_ne_nil_of_left_ne_nil (List.ne_nil_of_mem hmem) _)

/-- The first directory that is examined decides: without a volume it is refused, and with it the
whole configuration. -/
theorem Validate_checks (hO : Lawful O) {tree : Key → FS} {order : Order} {d : Folders}
    {f : ValidateResult → Sys.Routine Row α} (hlaunch : ∀ checked, Launches (f checked))
    (hrefused : ∀ checked : ValidateResult, checked.ok = false → Asks Tame (f checked)) :
    Checks O (Routine.Validate tree order d >>= f) := by
  obtain ⟨key, keys, hkeys⟩ : ∃ key keys, order.keys = key :: keys :=
    List.exists_cons_of_ne_nil fun hnil => by
      have hmem := order.mem .temp_dir
      rw [hnil] at hmem
      cases hmem
  unfold Routine.Validate
  rw [hkeys, Routine.checkDirs]
  simp only [Prog.bind_assoc]
  refine checkDir_checks hO (fun out => ?_) fun e => ?_
  · exact .bind (checkDirs_asks tree d keys) fun rest => hlaunch _
  · exact .bind (checkDirs_asks tree d keys) fun rest =>
      hrefused _ (verdict_refused List.mem_cons_self (by exact Option.some_ne_none e))

theorem Start_launches {f : Except Str Unit → Sys.Routine Row α} (hok : Stores (f (.ok ())))
    (hbad : ∀ e, Asks Tame (f (.error e))) : Launches (Routine.Start >>= f) := by
  refine .start (fun out hout => ?_) fun out hout => ?_
  · obtain ⟨stdout, stderr, err⟩ := out
    cases hout
    exact hok
  · obtain ⟨e, he⟩ := Option.ne_none_iff_exists'.mp hout
    obtain ⟨stdout, stderr, err⟩ := out
    cases he
    exact hbad _

theorem finish_launches {plain : Str} {hash : Except Str Str} {cfg : Config} {steps : List Step}
    {f : Outcome → Sys.Routine Row α} (hok : ∀ out, out.err = none → Stores (f out))
    (hbad : ∀ out, out.err ≠ none → Asks Tame (f out)) :
    Launches (Routine.finish plain hash cfg steps >>= f) := by
  have hfailed : ∀ {steps pass e}, Asks Tame (f ⟨steps, pass, some e⟩) :=
    hbad _ (Option.some_ne_none _)
  unfold Routine.finish
  rw [Prog.bind_assoc]
  refine .bind (.act (.calm .stop)) fun _ => ?_
  cases hash with
  | error e => exact .tame hfailed
  | ok hash =>
    dsimp only
    rw [Prog.bind_assoc]
    refine .bind (writeConfig_asks cfg hash) fun out => ?_
    cases out with
    | error e => exact .tame hfailed
    | ok _ =>
      dsimp only
      rw [Prog.bind_assoc]
      refine .bind (installUnit_asks _) fun out => ?_
      cases out with
      | error e => exact .tame hfailed
      | ok _ =>
        dsimp only
        rw [Prog.bind_assoc]
        exact Start_launches (hok _ rfl) fun e => hfailed

theorem setUp_gives (checked : ValidateResult) :
    Gives (fun out => ∀ failed, out = .error failed → failed.err ≠ none)
      (Routine.setUp checked : Sys.Routine Row _) := by
  have hfailed : ∀ {steps e} {failed : Outcome},
      (Except.error ⟨steps, [], some e⟩ : Except Outcome (List Step)) = .error failed →
        failed.err ≠ none := by
    intro steps e failed h
    cases h
    exact Option.some_ne_none e
  unfold Routine.setUp
  split
  · exact fun _ => hfailed
  · refine .bind (Q := fun _ => True) (.all fun _ => trivial) fun out _ => ?_
    split
    · exact fun _ => hfailed
    · refine .bind (Q := fun _ => True) (.all fun _ => trivial) fun _ _ failed h => ?_
      cases h

/-- A configuration starts the service only once a volume has been seen, and when it has started it,
what follows is its own. -/
theorem Configure_checks (hO : Lawful O) {tree : Key → FS} {order : Order} {plain : Str}
    {hash : Except Str Str} {cfg : Config} {f : Outcome → Sys.Routine Row α}
    (hok : ∀ out, out.err = none → Stores (f out))
    (hbad : ∀ out, out.err ≠ none → Asks Tame (f out)) :
    Checks O (Routine.Configure tree order plain hash cfg >>= f) := by
  unfold Routine.Configure
  simp only [Prog.bind_assoc]
  refine Validate_checks hO (fun checked => ?_) fun checked hrefused => ?_
  · refine .bind_gives (setUp_asks checked) (setUp_gives checked) fun out hout => ?_
    cases out with
    | error failed => exact .tame (hbad failed (hout failed rfl))
    | ok steps =>
      dsimp only
      rw [Prog.bind_assoc]
      refine .bind (applyDirs_asks _ _ _) fun out => ?_
      obtain ⟨none | d, steps⟩ := out
      · exact finish_launches hok hbad
      · exact .tame (hbad _ (Option.some_ne_none _))
  · unfold Routine.setUp
    rw [hrefused]
    exact hbad _ (Option.some_ne_none _)

theorem configure_checks (hO : Lawful O) (r : Submission) :
    Checks O (Call.configure r).routine := by
  show Checks O (Routine.configure r >>= _)
  unfold Routine.configure
  cases r.body with
  | none => exact .of_asks (.pure _)
  | some body =>
    dsimp only
    rw [Prog.bind_assoc]
    refine Configure_checks hO (fun out hout => ?_) fun out hout => ?_
    · rw [hout]
      dsimp only
      rw [Prog.bind_assoc]
      refine Stores.intro rfl fun error => ?_
      cases error with
      | none => exact .pure _
      | some e => exact .pure _
    · obtain ⟨e, he⟩ := Option.ne_none_iff_exists'.mp hout
      rw [he]
      exact .pure _

theorem start_starts : Starts Call.start.routine := by
  refine .intro fun out => ?_
  obtain ⟨stdout, stderr, err⟩ := out
  cases err with
  | none => exact .pure _
  | some e => exact .pure _

end Gating
end Qbt
end Nasd
