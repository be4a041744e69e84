import Nasd.Qbt.Requests
import Nasd.Raid.Listing

/-!
# Nasd.Qbt.Routines

The Manager of `internal/qbt` and the handlers of `internal/api/qbt.go` command by command, with the
volumes that `internal/api/router.go` takes from the listing of the filesystems.

* `Validate_alone`  — with volumes that do not change it is the validation of `Nasd.Qbt.Volumes`.
* `Configure_alone` — what comes after the validation is that of `Nasd.Qbt.Configure`.
* `configure_alone` — and so is the handler that of `Nasd.Qbt.Requests`.
-/

namespace Nasd
namespace Qbt
namespace Routine

open Text Go Dirs Files Sys Sys.Routine

variable {ρ σ : Type}

/-! ## Volumes -/

/-- The adapter of the router: the filesystems that are mounted. -/
def volumesOf (fss : List Raid.FilesystemInfo) : List Volume :=
  (fss.filter fun f => f.isMounted && f.mountPoint ≠ []).map fun f =>
    ⟨Filepath.Base f.mountPoint, f.mountPoint, f.freeBytes⟩

def Volumes : Routine ρ (List Volume) := do
  let fss ← Raid.Routine.ListFilesystems
  pure (volumesOf fss)

def resolveInVolumes (T : FS) (path : Str) : Routine ρ (Except Str Volume) :=
  if badPath path then pure (.error "invalid path")
  else do
    let vols ← Volumes
    pure (match vols.find? (holds (canonExisting T (Filepath.Clean path))) with
      | some v => .ok v
      | none => .error "path is outside data volumes")

/-- The volumes are listed anew for each directory, and the tree is that of the moment. -/
def checkDir (tree : Key → FS) (d : Folders) (key : Key) : Routine ρ (Except Str Volume) :=
  if d.get key = [] then pure (.error (key.text ++ ": required"))
  else do
    match ← resolveInVolumes (tree key) (d.get key) with
    | .error e => pure (.error (key.text ++ ": " ++ e))
    | .ok v => pure (.ok v)

def checkDirs (tree : Key → FS) (d : Folders) : List Key → Routine ρ (List (Key × Except Str Volume))
  | [] => pure []
  | key :: keys => do
    let checked ← checkDir tree d key
    let rest ← checkDirs tree d keys
    pure ((key, checked) :: rest)

def verdict (d : Folders) (checked : List (Key × Except Str Volume)) : ValidateResult :=
  let errors := checked.filterMap (fun c => errorOf c.2) ++
    if d.tempDir ≠ [] ∧ d.tempDir = d.downloadsDir then
      [("temp_dir and downloads_dir must be different" : Str)] else []
  { ok := errors.isEmpty
    errors
    warnings :=
      if d.torfileDir ≠ [] ∧ (d.torfileDir = d.tempDir ∨ d.torfileDir = d.downloadsDir) then
        [("torfile_dir coincides with another directory" : Str)] else []
    free := checked.filterMap fun c => c.2.toOption.map fun v => (c.1, v.freeBytes) }

def Validate (tree : Key → FS) (order : Order) (d : Folders) : Routine ρ ValidateResult := do
  let checked ← checkDirs tree d order.keys
  pure (verdict d checked)

/-! ## Installing and preparing -/

def aptRun (script : Str) : Routine ρ (Str × Bool) := do
  let out ← run (aptCmd script)
  pure (out.stdout, out.err.isNone)

def EnsureInstalled : Routine ρ (Option Str) := do
  let found ← run haveQbt
  if found.err = none then pure none
  else do
    let _ ← aptRun "apt-get update -y"
    let first ← aptRun installQbt
    if first.2 then pure none
    else do
      let _ ← aptRun "dpkg --configure -a; apt-get -f install -y"
      let second ← aptRun installQbt
      if second.2 then pure none
      else pure (some ("apt install: " ++ lastLines (first.1 ++ "\n" ++ second.1) 8))

def useradd : Cmd :=
  ⟨"useradd", ["--system", "--home-dir", homeDir, "--create-home", "--shell", "/usr/sbin/nologin",
    "-g", svcGroup, svcUser]⟩

def EnsureUserGroup : Routine ρ Unit := do
  let _ ← run ⟨"groupadd", ["-f", svcGroup]⟩
  let found ← run ⟨"id", [svcUser]⟩
  let _ ← (if found.err = none then pure found else run useradd : Routine ρ Result)
  let _ ← run ⟨"usermod", ["-g", svcGroup, svcUser]⟩
  let _ ← run (mkdirP confDir)
  let _ ← run (chownR homeDir)

def applyDir (dir mode : Str) (steps : List Step) : Routine ρ (Bool × List Step) := do
  let out ← run (mkdirP dir)
  match out.err with
  | some e => pure (false, steps ++ [⟨"mkdir " ++ dir, false, e⟩])
  | none => do
    let _ ← run (chown dir)
    let _ ← run (chmod mode dir)
    let _ ← run (setfacl dir)
    let test ← run (testWrite dir)
    match test.err with
    | some _ => pure (false, steps ++ [⟨"verify write " ++ dir, false, svcUser ++ " cannot write"⟩])
    | none => pure (true, steps ++ [⟨dir, true, "owner " ++ owner ++ " mode " ++ mode⟩])

def applyDirs (mode : Str) : List Str → List Step → Routine ρ (Option Str × List Step)
  | [], steps => pure (none, steps)
  | d :: ds, steps => do
    let out ← applyDir d mode steps
    if out.1 then applyDirs mode ds out.2 else pure (some d, out.2)

/-! ## Files and service -/

def writeConfig (cfg : Config) (hash : Str) : Routine ρ (Except Str Unit) := do
  let _ ← run (mkdirP confDir)
  match ← write (confDir ++ "/qBittorrent.conf") (confText cfg hash) with
  | .error e => pure (.error e)
  | .ok () => do
    let _ ← run (chownR (homeDir ++ "/.config"))
    pure (.ok ())

def installUnit (port : Int) : Routine ρ (Except Str Unit) := do
  match ← write unitPath (unitText port) with
  | .error e => pure (.error e)
  | .ok () => do
    let _ ← run daemonReload
    pure (.ok ())

def Start : Routine ρ (Except Str Unit) := do
  let out ← run enableNow
  pure (match out.err with | some _ => .error (TrimSpace out.stderr) | none => .ok ())

def Stop : Routine ρ (Except Str Unit) := do
  let out ← run stopQbt
  pure (match out.err with | some e => .error e | none => .ok ())

/-! ## Configure -/

def setUp (checked : ValidateResult) : Routine ρ (Except Outcome (List Step)) :=
  if !checked.ok then
    pure (.error ⟨[], [], some ("validation failed: " ++ Go.Join checked.errors "; ")⟩)
  else do
    match ← EnsureInstalled with
    | some e => pure (.error ⟨[⟨"install qbittorrent-nox", false, e⟩], [], some e⟩)
    | none => do
      EnsureUserGroup
      pure (.ok setUpSteps)

def finish (plain : Str) (hash : Except Str Str) (cfg : Config) (steps : List Step) :
    Routine ρ Outcome := do
  let _ ← run stopQbt
  match hash with
  | .error e => pure ⟨steps, [], some e⟩
  | .ok hash => do
    match ← writeConfig cfg hash with
    | .error e => pure ⟨steps ++ [⟨"write qBittorrent.conf", false, e⟩], [], some e⟩
    | .ok () => do
      let steps := steps ++ [⟨"qBittorrent.conf written", true, []⟩]
      match ← installUnit cfg.webUIPort with
      | .error e => pure ⟨steps ++ [⟨"systemd unit", false, e⟩], [], some e⟩
      | .ok () => do
        match ← Start with
        | .error e => pure ⟨steps ++ [⟨"start service", false, e⟩], plain, some e⟩
        | .ok () =>
          pure ⟨steps ++ [⟨"service started (WebUI :" ++ Itoa cfg.webUIPort ++ ")", true, []⟩],
            plain, none⟩

def Configure (tree : Key → FS) (order : Order) (plain : Str) (hash : Except Str Str)
    (cfg : Config) : Routine ρ Outcome := do
  let checked ← Validate tree order cfg.toFolders
  match ← setUp checked with
  | .error out => pure out
  | .ok steps => do
    match ← applyDirs cfg.mode cfg.dirs steps with
    | (some d, steps) => pure ⟨steps, [], some ("failed to prepare " ++ d)⟩
    | (none, steps) => finish plain hash cfg steps

/-! ## State -/

/-- `configured` of the source is never reported. -/
inductive AppState where
  | unavailable
  | available
  | running
  | stopped
  deriving DecidableEq

def isActive : Cmd := ⟨"systemctl", ["is-active", serviceUnit]⟩

def ServiceActive : Routine ρ Bool := do
  let out ← run isActive
  pure (TrimSpace out.stdout = "active")

def State (configured : Bool) : Routine ρ AppState := do
  let vols ← Volumes
  if vols = [] then pure .unavailable
  else if !configured then pure .available
  else do
    if ← ServiceActive then pure .running else pure .stopped

/-- No handler calls it. -/
def Reconcile : Routine ρ Unit := do
  let vols ← Volumes
  if vols = [] then do
    if ← ServiceActive then do
      let _ ← run stopQbt
    else pure ()
  else pure ()

/-! ## Handlers -/

/-- The wizard's body, `none` when it cannot be decoded, and what the request meets: the tree when
each directory is examined, the order of a map, the new password with its hash, and the error of the
`UPDATE`. -/
structure Submission where
  body : Option Config
  tree : Key → FS
  order : Order
  plain : Str
  hash : Except Str Str
  update : Option Str

def configure (r : Submission) : Routine Row Reply :=
  match r.body with
  | none => pure ⟨400, some "bad_request", [], none⟩
  | some body => do
    let c := body.defaulted
    let out ← Configure r.tree r.order r.plain r.hash c
    match out.err with
    | some e => pure ⟨422, some e, out.steps, none⟩
    | none => do
      match ← store c.row r.update with
      | some e => pure ⟨500, some e, [], none⟩
      | none => pure ⟨200, none, out.steps, some (out.pass, c.webUIPort)⟩

def start : Routine Row Reply := do
  match ← Start with
  | .error e => pure ⟨422, some e, [], none⟩
  | .ok () => pure ⟨200, none, [], none⟩

def stop : Routine Row Reply := do
  match ← Stop with
  | .error e => pure ⟨422, some e, [], none⟩
  | .ok () => pure ⟨200, none, [], none⟩

structure Status where
  state : AppState
  config : Row
  volumes : Nat

def Row.shown (row : Row) : Row :=
  { row with webUIPort := if row.webUIPort = 0 then 8080 else row.webUIPort }

def status : Routine Row Status := do
  let row ← load
  let state ← State row.configured
  let vols ← Volumes
  pure ⟨state, Row.shown row, vols.length⟩

/-! ## Alone -/

variable {O : OS σ} {h h' : Host σ} {T : FS} {vols : List Volume}

theorem resolveInVolumes_alone (hvols : Alone O (Volumes : Routine ρ _) h (vols, h')) (T : FS)
    (path : Str) (hpath : badPath path = false) :
    Alone O (resolveInVolumes T path : Routine ρ _) h (Qbt.resolveInVolumes T vols path, h') := by
  unfold resolveInVolumes Qbt.resolveInVolumes
  rw [hpath]
  exact .bind hvols (.pure _ _)

/-- When the listing says the same each time, the directories are checked against it. -/
theorem checkDirs_alone (hvols : ∀ h, ∃ h', Alone O (Volumes : Routine ρ _) h (vols, h')) (T : FS)
    (d : Folders) (keys : List Key) (h : Host σ) :
    ∃ h', Alone O (checkDirs (fun _ => T) d keys : Routine ρ _) h
      (keys.map fun key => (key, Qbt.checkDir T vols d key), h') := by
  have hdir : ∀ key h, ∃ h', Alone O (checkDir (fun _ => T) d key : Routine ρ _) h
      (Qbt.checkDir T vols d key, h') := by
    intro key h
    unfold checkDir Qbt.checkDir
    by_cases hnil : d.get key = []
    · rw [if_pos hnil, if_pos hnil]
      exact ⟨h, .pure _ _⟩
    · rw [if_neg hnil, if_neg hnil]
      obtain ⟨h', hresolved⟩ : ∃ h', Alone O (resolveInVolumes T (d.get key) : Routine ρ _) h
          (Qbt.resolveInVolumes T vols (d.get key), h') := by
        cases hpath : badPath (d.get key) with
        | true =>
          unfold resolveInVolumes Qbt.resolveInVolumes
          rw [hpath]
          exact ⟨h, .pure _ _⟩
        | false =>
          obtain ⟨h', hlisted⟩ := hvols h
          exact ⟨h', resolveInVolumes_alone hlisted T _ hpath⟩
      refine ⟨h', .bind hresolved ?_⟩
      generalize Qbt.resolveInVolumes T vols (d.get key) = resolved
      cases resolved with
      | error e => exact .pure _ _
      | ok v => exact .pure _ _
  induction keys generalizing h with
  | nil => exact ⟨h, .pure _ _⟩
  | cons key keys ih =>
    obtain ⟨h₁, hkey⟩ := hdir key h
    obtain ⟨h₂, hkeys⟩ := ih h₁
    exact ⟨h₂, .bind hkey (.bind hkeys (.pure _ _))⟩

theorem Validate_alone (hvols : ∀ h, ∃ h', Alone O (Volumes : Routine ρ _) h (vols, h')) (T : FS)
    (order : Order) (d : Folders) (h : Host σ) :
    ∃ h', Alone O (Validate (fun _ => T) order d : Routine ρ _) h
      (Qbt.Validate T vols order d, h') := by
  obtain ⟨h', hchecked⟩ := checkDirs_alone hvols T d order.keys h
  exact ⟨h', .bind hchecked (.pure _ _)⟩

theorem aptRun_alone (script : Str) (h : Host σ) :
    Alone O (aptRun script : Routine ρ _) h (Qbt.aptRun O script h) :=
  .bind (.run _ h) (.pure _ _)

theorem EnsureInstalled_alone (h : Host σ) :
    Alone O (EnsureInstalled : Routine ρ _) h (Qbt.EnsureInstalled O h) :=
  .bind (.run _ h) (.ite (.pure _ _) (.bind (aptRun_alone _ _) (.bind (aptRun_alone _ _)
    (.ite (.pure _ _) (.bind (aptRun_alone _ _) (.bind (aptRun_alone _ _)
      (.ite (.pure _ _) (.pure _ _))))))))

theorem EnsureUserGroup_alone (h : Host σ) :
    Alone O (EnsureUserGroup : Routine ρ Unit) h ((), Qbt.EnsureUserGroup O h) := by
  have hrest : ∀ h : Host σ, Alone O (do
      let _ ← run ⟨"usermod", ["-g", svcGroup, svcUser]⟩
      let _ ← run (mkdirP confDir)
      let _ ← run (chownR homeDir) : Routine ρ Unit) h
      ((), (((h.run O.run ⟨"usermod", ["-g", svcGroup, svcUser]⟩).2.run O.run (mkdirP confDir)).2.run
        O.run (chownR homeDir)).2) :=
    fun h => .bind (.run _ _) (.bind (.run _ _) (.bind (.run _ _) (.pure _ _)))
  refine .bind (.run _ h) (.bind (.run _ _) ?_)
  unfold Qbt.EnsureUserGroup
  dsimp only
  split
  · exact .bind (.pure _ _) (hrest _)
  · exact .bind (.run _ _) (hrest _)

theorem applyDir_alone (dir mode : Str) (steps : List Step) (h : Host σ) :
    Alone O (applyDir dir mode steps : Routine ρ _) h (Qbt.applyDir O dir mode steps h) := by
  refine .bind (.run _ h) ?_
  unfold Qbt.applyDir
  dsimp only
  cases (h.run O.run (mkdirP dir)).1.err with
  | some e => exact .pure _ _
  | none =>
    refine .bind (.run _ _) (.bind (.run _ _) (.bind (.run _ _) (.bind (.run _ _) ?_)))
    dsimp only
    generalize Host.run O.run (testWrite dir) _ = test
    cases test.1.err with
    | some e => exact .pure _ _
    | none => exact .pure _ _

theorem applyDirs_alone (mode : Str) (ds : List Str) (steps : List Step) (h : Host σ) :
    Alone O (applyDirs mode ds steps : Routine ρ _) h (Qbt.applyDirs O mode ds steps h) := by
  induction ds generalizing steps h with
  | nil => exact .pure _ _
  | cons d ds ih => exact .bind (applyDir_alone d mode steps h) (.ite (ih _ _) (.pure _ _))

theorem writeConfig_alone (cfg : Config) (hash : Str) (h : Host σ) :
    Alone O (writeConfig cfg hash : Routine ρ _) h (Qbt.writeConfig O cfg hash h) := by
  refine .bind (.run _ h) (.bind (.write _ _ _) ?_)
  unfold Qbt.writeConfig
  dsimp only
  generalize Host.tryWrite O _ _ _ = out
  obtain ⟨e | u, h₁⟩ := out
  · exact .pure _ _
  · exact .bind (.run _ _) (.pure _ _)

theorem installUnit_alone (port : Int) (h : Host σ) :
    Alone O (installUnit port : Routine ρ _) h (Qbt.installUnit O port h) := by
  refine .bind (.write _ _ h) ?_
  unfold Qbt.installUnit
  generalize Host.tryWrite O _ _ _ = out
  obtain ⟨e | u, h₁⟩ := out
  · exact .pure _ _
  · exact .bind (.run _ _) (.pure _ _)

theorem Start_alone (h : Host σ) : Alone O (Start : Routine ρ _) h (Qbt.Start O h) :=
  .bind (.run _ h) (.pure _ _)

theorem finish_alone (plain : Str) (hash : Except Str Str) (cfg : Config) (steps : List Step)
    (h : Host σ) :
    Alone O (finish plain hash cfg steps : Routine ρ _) h (Qbt.finish O plain hash cfg steps h) := by
  refine .bind (.run _ h) ?_
  unfold Qbt.finish
  dsimp only
  cases hash with
  | error e => exact .pure _ _
  | ok hash =>
    refine .bind (writeConfig_alone cfg hash _) ?_
    unfold stopQbt
    dsimp only
    generalize Qbt.writeConfig O cfg hash _ = out
    obtain ⟨e | u, h₁⟩ := out
    · exact .pure _ _
    · refine .bind (installUnit_alone _ _) ?_
      dsimp only
      generalize Qbt.installUnit O _ _ = out
      obtain ⟨e | u, h₂⟩ := out
      · exact .pure _ _
      · refine .bind (Start_alone _) ?_
        dsimp only
        generalize Qbt.Start O h₂ = out
        obtain ⟨e | u, h₃⟩ := out
        · exact .pure _ _
        · exact .pure _ _

/-- Once the validation has come to a verdict, on the volumes that were listed. -/
theorem Configure_alone {tree : Key → FS} {order : Order} (cfg : Config)
    (hchecked : Alone O (Validate tree order cfg.toFolders : Routine ρ _) h
      (Qbt.Validate T vols order cfg.toFolders, h')) (plain : Str) (hash : Except Str Str) :
    Alone O (Configure tree order plain hash cfg : Routine ρ _) h
      (Qbt.Configure O T vols order plain hash cfg h') := by
  have hset : Alone O (setUp (Qbt.Validate T vols order cfg.toFolders) : Routine ρ _) h'
      (Qbt.setUp O T vols order cfg h') := by
    refine .ite (.pure _ _) (.bind (EnsureInstalled_alone h') ?_)
    generalize Qbt.EnsureInstalled O h' = out
    obtain ⟨none | e, h₁⟩ := out
    · exact .bind (EnsureUserGroup_alone _) (.pure _ _)
    · exact .pure _ _
  refine .bind hchecked (.bind hset ?_)
  unfold Qbt.Configure
  generalize Qbt.setUp O T vols order cfg h' = out
  obtain ⟨e | steps, h₁⟩ := out
  · exact .pure _ _
  · refine .bind (applyDirs_alone _ _ _ _) ?_
    dsimp only
    generalize Qbt.applyDirs O _ _ steps h₁ = out
    obtain ⟨⟨none | d, steps⟩, h₂⟩ := out
    · exact finish_alone _ _ _ _ _
    · exact .pure _ _

/-- The request of `Nasd.Qbt.Requests` that meets the same. -/
def Submission.request (r : Submission) (T : FS) (vols : List Volume) : Request :=
  ⟨r.body, T, vols, r.order, r.plain, r.hash, r.update⟩

theorem configure_alone {r : Submission} {row : Row} (hchecked : ∀ c, r.body = some c →
      Alone O (Validate r.tree r.order c.toFolders : Routine Row _) h
        (Qbt.Validate T vols r.order c.toFolders, h')) (hbody : r.body ≠ none) :
    (configure r).exec (perform O) ⟨row, h⟩ =
      ((Qbt.configure O (r.request T vols) ⟨row, h'⟩).1,
        ⟨(Qbt.configure O (r.request T vols) ⟨row, h'⟩).2.row,
          (Qbt.configure O (r.request T vols) ⟨row, h'⟩).2.host⟩) := by
  obtain ⟨c, hc⟩ := Option.ne_none_iff_exists'.mp hbody
  have hconfigure := Configure_alone c.defaulted (hchecked c hc) r.plain r.hash
  unfold configure Qbt.configure Submission.request
  rw [hc]
  dsimp only
  rw [Prog.exec_bind, hconfigure row]
  generalize Qbt.Configure O T vols r.order r.plain r.hash c.defaulted h' = out
  obtain ⟨⟨steps, pass, err⟩, h₁⟩ := out
  cases err with
  | some e => rfl
  | none =>
    cases r.update with
    | some e => rfl
    | none => rfl

end Routine
end Qbt
end Nasd
