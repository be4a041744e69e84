import Nasd.Lib.Run
import Nasd.Qbt.Confined
import Nasd.Script

/-!
# Nasd.Qbt.Requests

The requests to `/api/apps/qbt/configure` (`internal/api/qbt.go`), one after another: `Configure`,
then the row of `qbt_config`. What the row, `qBittorrent.conf`, the unit and the service come to when
an operation fails halfway.

* `prepared`           — a request up to the point where the service is stopped.
* `confText_reads`     — the directories and the port as qBittorrent reads them.
* `step_sound`         — one request.
* `configure_requests` — any run of them.
-/

namespace Nasd

open Machine

namespace Qbt

open Text Go Dirs Files Sys

variable {σ : Type}

/-! ## Requests -/

/-- The row of `qbt_config`. -/
structure Row where
  configured : Bool
  tempDir : Str
  torfileDir : Str
  downloadsDir : Str
  permsMode : Str
  webUIPort : Int
  deriving DecidableEq

structure Backend (σ : Type) where
  row : Row
  host : Host σ

/-- The body, `none` when it cannot be decoded, and what the request meets: the tree and the volumes
of the moment, the order of a map, the new password with its hash, and the error of the `UPDATE`. -/
structure Request where
  body : Option Config
  tree : FS
  vols : List Volume
  order : Order
  plain : Str
  hash : Except Str Str
  update : Option Str

structure Reply where
  code : Nat
  error : Option Str
  steps : List Step
  shown : Option (Str × Int)

def Config.defaulted (c : Config) : Config :=
  { c with webUIPort := if c.webUIPort = 0 then 8080 else c.webUIPort, permsMode := c.mode }

def Config.row (c : Config) : Row :=
  ⟨true, c.tempDir, c.torfileDir, c.downloadsDir, c.permsMode, c.webUIPort⟩

def configure (O : OS σ) (r : Request) (b : Backend σ) : Reply × Backend σ :=
  match r.body with
  | none => (⟨400, some "bad_request", [], none⟩, b)
  | some body =>
    let c := body.defaulted
    let out := Configure O r.tree r.vols r.order r.plain r.hash c b.host
    match out.1.err with
    | some e => (⟨422, some e, out.1.steps, none⟩, { b with host := out.2 })
    | none =>
      match r.update with
      | some e => (⟨500, some e, [], none⟩, { b with host := out.2 })
      | none => (⟨200, none, out.1.steps, some (out.1.pass, c.webUIPort)⟩, ⟨c.row, out.2⟩)

def step (O : OS σ) (b : Backend σ) (r : Request) : Backend σ := (configure O r b).2

/-! ## What is on disk -/

def confFile : Str := confDir ++ "/qBittorrent.conf"

/-- The value of a key in `qBittorrent.conf`. -/
def confValue (key text : Str) : Option Str :=
  ((lines text).find? fun l => HasPrefix l (key ++ "=")).map (·.drop (key.length + 1))

def execStart : Str := "ExecStart=/usr/bin/qbittorrent-nox --confirm-legal-notice --webui-port="

def unitPort (text : Str) : Option Str :=
  ((lines text).find? fun l => HasPrefix l execStart).map (·.drop execStart.length)

/-- The file has the directories and the port of the row. -/
structure ConfAgrees (row : Row) (text : Str) : Prop where
  downloads : confValue "Session\\DefaultSavePath" text = some row.downloadsDir
  temp : confValue "Session\\TempPath" text = some row.tempDir
  torfiles : confValue "Session\\TorrentExportDirectory" text = some row.torfileDir
  port : confValue "WebUI\\Port" text = some (Itoa row.webUIPort)

/-- A configured row is the one that the files on disk were written for. -/
def Consistent (b : Backend σ) : Prop :=
  b.row.configured = true →
    (∃ t, b.host.files confFile = some t ∧ ConfAgrees b.row t) ∧
    ∃ t, b.host.files unitPath = some t ∧ unitPort t = some (Itoa b.row.webUIPort)

/-- The programs that `Configure` runs besides `systemctl`. -/
def preparing (c : Cmd) : Bool :=
  [("sh" : Str), "systemd-run", "groupadd", "id", "useradd", "usermod", "mkdir", "chown", "chmod",
    "setfacl", "runuser"].contains c.name

/-- Whether the service runs. Those programs do not change that, and neither does writing a file. -/
structure Service (O : OS σ) where
  active : σ → Bool
  prepare : ∀ c, preparing c = true → ∀ env, active (O.run c env).2 = active env
  write : ∀ path content env, active (O.write path content env).2 = active env

variable {O : OS σ} {S : Service O} {h h' h'' : Host σ} {cfg : Config} {steps : List Step}

/-- The two files and the running state of the service are the same. -/
structure Same (S : Service O) (h h' : Host σ) : Prop where
  conf : h'.files confFile = h.files confFile
  unit : h'.files unitPath = h.files unitPath
  active : S.active h'.env = S.active h.env

structure Unchanged (S : Service O) (b b' : Backend σ) : Prop where
  row : b'.row = b.row
  host : Same S b.host b'.host

theorem Same.refl : Same S h h := ⟨rfl, rfl, rfl⟩

theorem Same.trans (h₁ : Same S h h') (h₂ : Same S h' h'') : Same S h h'' :=
  ⟨h₂.conf.trans h₁.conf, h₂.unit.trans h₁.unit, h₂.active.trans h₁.active⟩

theorem Unchanged.consistent {b b' : Backend σ} (hb : Unchanged S b b') (h : Consistent b) :
    Consistent b' := by
  unfold Consistent
  rw [hb.row, hb.host.conf, hb.host.unit]
  exact h

/-! ## Before the service is stopped -/

theorem run_same {c : Cmd} (hc : preparing c = true) (h : Host σ) :
    Same S h (h.run O.run c).2 := ⟨rfl, rfl, S.prepare c hc h.env⟩

theorem EnsureInstalled_same (S : Service O) (h : Host σ) : Same S h (EnsureInstalled O h).2 := by
  have hsh : ∀ h : Host σ, Same S h (h.run O.run haveQbt).2 := run_same (by rfl)
  have hapt : ∀ (script : Str) (h : Host σ), Same S h (aptRun O script h).2 :=
    fun script h => run_same (c := aptCmd script) (by rfl) h
  unfold EnsureInstalled
  dsimp only
  split
  · exact hsh h
  · have hfirst := ((hsh h).trans (hapt "apt-get update -y" _)).trans (hapt installQbt _)
    split
    · exact hfirst
    · have hsecond := (hfirst.trans (hapt "dpkg --configure -a; apt-get -f install -y" _)).trans
        (hapt installQbt _)
      split <;> exact hsecond

theorem EnsureUserGroup_same (S : Service O) (h : Host σ) : Same S h (EnsureUserGroup O h) := by
  have hid : Same S h
      ((h.run O.run ⟨"groupadd", ["-f", svcGroup]⟩).2.run O.run ⟨"id", [svcUser]⟩).2 :=
    (run_same (by rfl) h).trans (run_same (by rfl) _)
  unfold EnsureUserGroup
  dsimp only
  refine Same.trans ?_ (((run_same (by rfl) _).trans (run_same (by rfl) _)).trans
    (run_same (by rfl) _))
  split
  · exact hid
  · exact hid.trans (run_same (by rfl) _)

theorem setUp_same (S : Service O) (r : Request) (cfg : Config) (h : Host σ) :
    Same S h (setUp O r.tree r.vols r.order cfg h).2 := by
  unfold setUp
  dsimp only
  split
  · exact .refl
  · have hinst := EnsureInstalled_same S h
    split
    · rename_i heq
      rw [heq] at hinst
      exact hinst
    · rename_i heq
      rw [heq] at hinst
      exact hinst.trans (EnsureUserGroup_same S _)

theorem applyDir_same (S : Service O) (dir mode : Str) (steps : List Step) (h : Host σ) :
    Same S h (applyDir O dir mode steps h).2 := by
  have hmkdir : Same S h (h.run O.run (mkdirP dir)).2 := run_same (by rfl) h
  unfold applyDir
  dsimp only
  split
  · exact hmkdir
  · have htest := (((hmkdir.trans (run_same (c := chown dir) (by rfl) _)).trans
      (run_same (c := chmod mode dir) (by rfl) _)).trans
      (run_same (c := setfacl dir) (by rfl) _)).trans (run_same (c := testWrite dir) (by rfl) _)
    split <;> exact htest

theorem applyDirs_same (S : Service O) (mode : Str) (ds : List Str) (steps : List Step)
    (h : Host σ) : Same S h (applyDirs O mode ds steps h).2 := by
  induction ds generalizing steps h with
  | nil => exact .refl
  | cons d ds ih =>
    have hdir := applyDir_same S d mode steps h
    unfold applyDirs
    dsimp only
    split
    · exact hdir.trans (ih _ _)
    · exact hdir

/-- The request up to the point where the service is stopped, when it gets there. -/
def prepared (O : OS σ) (r : Request) (c : Config) (h : Host σ) : Option (List Step × Host σ) :=
  match setUp O r.tree r.vols r.order c h with
  | (.error _, _) => none
  | (.ok steps, h) =>
    match applyDirs O c.mode c.dirs steps h with
    | ((some _, _), _) => none
    | ((none, steps), h) => some (steps, h)

variable {r : Request}

theorem prepared_same (hp : prepared O r cfg h = some (steps, h')) : Same S h h' := by
  have hset := setUp_same S r cfg h
  unfold prepared at hp
  generalize setUp O r.tree r.vols r.order cfg h = out at hp hset
  obtain ⟨e | steps₁, h₁⟩ := out
  · cases hp
  · have hdirs := applyDirs_same S cfg.mode cfg.dirs steps₁ h₁
    dsimp only at hp
    generalize applyDirs O cfg.mode cfg.dirs steps₁ h₁ = out at hp hdirs
    obtain ⟨⟨none | d, steps₂⟩, h₂⟩ := out
    · cases hp
      exact hset.trans hdirs
    · cases hp

theorem Configure_prepared (hp : prepared O r cfg h = some (steps, h')) :
    Configure O r.tree r.vols r.order r.plain r.hash cfg h =
      finish O r.plain r.hash cfg steps h' := by
  unfold prepared at hp
  unfold Configure
  generalize setUp O r.tree r.vols r.order cfg h = out at hp ⊢
  obtain ⟨e | steps₁, h₁⟩ := out
  · cases hp
  · dsimp only at hp ⊢
    generalize applyDirs O cfg.mode cfg.dirs steps₁ h₁ = out at hp ⊢
    obtain ⟨⟨none | d, steps₂⟩, h₂⟩ := out
    · cases hp
      rfl
    · cases hp

/-- A set-up that fails has an error to show. -/
theorem setUp_error {out : Outcome} (hset : setUp O r.tree r.vols r.order cfg h = (.error out, h')) :
    out.err ≠ none := by
  unfold setUp at hset
  dsimp only at hset
  split at hset
  · cases hset
    exact Option.some_ne_none _
  · split at hset
    · cases hset
      exact Option.some_ne_none _
    · cases hset

/-- A request that does not get there is an error, and nothing has changed. -/
theorem Configure_refused (S : Service O) (hp : prepared O r cfg h = none) :
    (Configure O r.tree r.vols r.order r.plain r.hash cfg h).1.err ≠ none ∧
      Same S h (Configure O r.tree r.vols r.order r.plain r.hash cfg h).2 := by
  have hset := setUp_same S r cfg h
  have herr : ∀ {out h'}, setUp O r.tree r.vols r.order cfg h = (.error out, h') → out.err ≠ none :=
    setUp_error
  unfold prepared at hp
  unfold Configure
  generalize setUp O r.tree r.vols r.order cfg h = out at hp hset herr ⊢
  obtain ⟨failed | steps₁, h₁⟩ := out
  · exact ⟨herr rfl, hset⟩
  · have hdirs := applyDirs_same S cfg.mode cfg.dirs steps₁ h₁
    dsimp only at hp ⊢
    generalize applyDirs O cfg.mode cfg.dirs steps₁ h₁ = out at hp hdirs ⊢
    obtain ⟨⟨none | d, steps₂⟩, h₂⟩ := out
    · cases hp
    · exact ⟨Option.some_ne_none _, hset.trans hdirs⟩

/-! ## From there on -/

def stopQbt : Cmd := ⟨"systemctl", ["stop", serviceUnit]⟩
def daemonReload : Cmd := ⟨"systemctl", ["daemon-reload"]⟩
def enableNow : Cmd := ⟨"systemctl", ["enable", "--now", serviceUnit]⟩

def stopped (O : OS σ) (h : Host σ) : Host σ := (h.run O.run stopQbt).2

/-- The host when `qBittorrent.conf` is written. -/
def ready (O : OS σ) (h : Host σ) : Host σ := ((stopped O h).run O.run (mkdirP confDir)).2

/-- What is left to do, once the hash is there. -/
def lateOps (cfg : Config) (hash : Str) : List Op :=
  [.may stopQbt, .may (mkdirP confDir), .write confFile (confText cfg hash),
    .may (chownR (homeDir ++ "/.config")), .write unitPath (unitText cfg.webUIPort),
    .may daemonReload, .must enableNow]

theorem perform_write_ok {path content : Str}
    (hop : (Op.write path content).perform O h = some h') :
    h.tryWrite O path content = (.ok (), h') := by
  rw [Op.perform] at hop
  split at hop
  · rename_i heq
    cases hop
    exact heq
  · cases hop

/-- The two writes and the start, each with the host that it finds. -/
theorem lateOps_spec {hash : Str} (hops : performs O (lateOps cfg hash) h = some h') :
    ∃ h₁ h₂, (ready O h).tryWrite O confFile (confText cfg hash) = (.ok (), h₁) ∧
      ((h₁.run O.run (chownR (homeDir ++ "/.config"))).2).tryWrite O unitPath
        (unitText cfg.webUIPort) = (.ok (), h₂) ∧
      (((h₂.run O.run daemonReload).2).run O.run enableNow).1.err = none ∧
      h' = (((h₂.run O.run daemonReload).2).run O.run enableNow).2 := by
  obtain ⟨_, hstop, hops⟩ := performs_cons.mp hops
  cases hstop
  obtain ⟨_, hmkdir, hops⟩ := performs_cons.mp hops
  cases hmkdir
  obtain ⟨h₁, hconf, hops⟩ := performs_cons.mp hops
  obtain ⟨_, hchown, hops⟩ := performs_cons.mp hops
  cases hchown
  obtain ⟨h₂, hunit, hops⟩ := performs_cons.mp hops
  obtain ⟨_, hreload, hops⟩ := performs_cons.mp hops
  cases hreload
  obtain ⟨_, hstart, hend⟩ := performs_cons.mp hops
  cases hend
  exact ⟨h₁, h₂, perform_write_ok hconf, perform_write_ok hunit, perform_must.mp hstart⟩

theorem finish_works (plain : Str) (steps : List Step) {hash : Str}
    (hops : performs O (lateOps cfg hash) h = some h') :
    (finish O plain (.ok hash) cfg steps h).1.err = none ∧
      (finish O plain (.ok hash) cfg steps h).2 = h' := by
  obtain ⟨h₁, h₂, hconf, hunit, hstart, rfl⟩ := lateOps_spec hops
  have hconf' : (((h.run O.run ⟨"systemctl", ["stop", serviceUnit]⟩).2.run O.run
      (mkdirP confDir)).2).tryWrite O (confDir ++ "/qBittorrent.conf") (confText cfg hash) =
      (.ok (), h₁) := hconf
  have hwrite : writeConfig O cfg hash (h.run O.run ⟨"systemctl", ["stop", serviceUnit]⟩).2 =
      (.ok (), (h₁.run O.run (chownR (homeDir ++ "/.config"))).2) := by
    unfold writeConfig
    dsimp only
    rw [hconf']
  have hinstall : installUnit O cfg.webUIPort (h₁.run O.run (chownR (homeDir ++ "/.config"))).2 =
      (.ok (), (h₂.run O.run daemonReload).2) := by
    unfold installUnit
    rw [hunit]
    rfl
  have hstart' : ((h₂.run O.run daemonReload).2.run O.run
      ⟨"systemctl", ["enable", "--now", serviceUnit]⟩).1.err = none := hstart
  have hstarted : Start O (h₂.run O.run daemonReload).2 =
      (.ok (), ((h₂.run O.run daemonReload).2.run O.run enableNow).2) := by
    unfold Start
    dsimp only
    rw [hstart']
    rfl
  unfold finish
  dsimp only
  rw [hwrite]
  dsimp only
  rw [hinstall]
  dsimp only
  rw [hstarted]
  exact ⟨rfl, rfl⟩

theorem lateOps_files {hash : Str} (hops : performs O (lateOps cfg hash) h = some h') :
    h'.files confFile = some (confText cfg hash) ∧
      h'.files unitPath = some (unitText cfg.webUIPort) := by
  have hne : confFile ≠ unitPath := by decide
  constructor
  · refine performs_written [.may stopQbt, .may (mkdirP confDir)] ?_ hops
    simp [Op.writes, hne]
  · refine performs_written [.may stopQbt, .may (mkdirP confDir),
      .write confFile (confText cfg hash), .may (chownR (homeDir ++ "/.config"))] ?_ hops
    simp [Op.writes]

theorem finish_unwritten (plain : Str) (steps : List Step) {hash e : Str} {left : Option Str}
    (hw : (O.write confFile (confText cfg hash) (ready O h).env).1 = some (e, left)) :
    (finish O plain (.ok hash) cfg steps h).1.err = some e ∧
      (finish O plain (.ok hash) cfg steps h).2.files = Function.update h.files confFile left ∧
      (finish O plain (.ok hash) cfg steps h).2.env =
        (O.write confFile (confText cfg hash) (ready O h).env).2 := by
  have hfailed : (((h.run O.run ⟨"systemctl", ["stop", serviceUnit]⟩).2.run O.run
      (mkdirP confDir)).2).tryWrite O (confDir ++ "/qBittorrent.conf") (confText cfg hash) =
      (.error e, { ready O h with
        env := (O.write confFile (confText cfg hash) (ready O h).env).2
        files := Function.update h.files confFile left }) := by
    show (ready O h).tryWrite O confFile (confText cfg hash) = _
    rw [Host.tryWrite, hw]
    rfl
  have hwrite : writeConfig O cfg hash (h.run O.run ⟨"systemctl", ["stop", serviceUnit]⟩).2 =
      (.error e, { ready O h with
        env := (O.write confFile (confText cfg hash) (ready O h).env).2
        files := Function.update h.files confFile left }) := by
    unfold writeConfig
    dsimp only
    rw [hfailed]
  unfold finish
  dsimp only
  rw [hwrite]
  exact ⟨rfl, rfl, rfl⟩

/-! ## The files as they are read -/

/-- The lines of `qBittorrent.conf` before the password. -/
def confLines (cfg : Config) : List Str :=
  ["[BitTorrent]", "Session\\DefaultSavePath=" ++ cfg.downloadsDir,
    "Session\\TempPath=" ++ cfg.tempDir, "Session\\TempPathEnabled=true",
    "Session\\TorrentExportDirectory=" ++ cfg.torfileDir,
    "Session\\FinishedTorrentExportDirectory=" ++ cfg.torfileDir,
    "Session\\ScanDirs\\1\\path=" ++ cfg.torfileDir,
    "Session\\ScanDirs\\1\\download_path_enabled=false", [], "[LegalNotice]", "Accepted=true", [],
    "[Preferences]", "WebUI\\Port=" ++ Itoa cfg.webUIPort, "WebUI\\Address=*",
    "WebUI\\Username=admin"]

theorem confText_eq (cfg : Config) (hash : Str) :
    confText cfg hash = (confLines cfg).flatMap (· ++ ['\n']) ++
      ("WebUI\\Password_PBKDF2=\"" ++ hash ++ "\"\n") := by
  have hfirst : ("[BitTorrent]\n" : Str) = "[BitTorrent]" ++ ['\n'] := by decide +kernel
  have htemp : ("Session\\TempPathEnabled=true\n" : Str) =
      "Session\\TempPathEnabled=true" ++ ['\n'] := by decide +kernel
  have hscan : ("Session\\ScanDirs\\1\\download_path_enabled=false\n" : Str) =
      "Session\\ScanDirs\\1\\download_path_enabled=false" ++ ['\n'] := by decide +kernel
  have hlegal : ("\n[LegalNotice]\nAccepted=true\n" : Str) =
      '\n' :: ("[LegalNotice]" ++ '\n' :: ("Accepted=true" ++ ['\n'])) := by decide +kernel
  have hprefs : ("\n[Preferences]\n" : Str) = '\n' :: ("[Preferences]" ++ ['\n']) := by
    decide +kernel
  have haddr : ("WebUI\\Address=*\n" : Str) = "WebUI\\Address=*" ++ ['\n'] := by decide +kernel
  have huser : ("WebUI\\Username=admin\n" : Str) = "WebUI\\Username=admin" ++ ['\n'] := by
    decide +kernel
  have hend : ("\n" : Str) = ['\n'] := by decide +kernel
  unfold confText confLines
  simp only [List.flatMap_cons, List.flatMap_nil, List.append_assoc,
    List.cons_append, List.nil_append, hfirst, htemp, hscan, hlegal, hprefs, haddr, huser, hend]

theorem confLines_line (hdirs : ∀ d ∈ cfg.dirs, '\n' ∉ d) : ∀ l ∈ confLines cfg, '\n' ∉ l := by
  have hdown := hdirs cfg.downloadsDir (by simp [Config.dirs])
  have htemp := hdirs cfg.tempDir (by simp [Config.dirs])
  have htor := hdirs cfg.torfileDir (by simp [Config.dirs])
  unfold confLines
  simp only [List.forall_mem_cons, List.mem_append, hdown, htemp, htor, Itoa_line,
    or_false]
  refine ⟨?_, ?_, ?_, ?_, ?_, ?_, ?_, ?_, ?_, ?_, ?_, ?_, ?_, ?_, ?_, ?_, List.forall_mem_nil _⟩ <;>
    decide +kernel

theorem confText_lines (hash : Str) (hdirs : ∀ d ∈ cfg.dirs, '\n' ∉ d) :
    lines (confText cfg hash) =
      confLines cfg ++ lines ("WebUI\\Password_PBKDF2=\"" ++ hash ++ "\"\n") := by
  rw [confText_eq, lines_terminated_append (confLines_line hdirs)]

theorem confText_reads {hash : Str} (hdirs : ∀ d ∈ cfg.dirs, '\n' ∉ d) :
    ConfAgrees cfg.row (confText cfg hash) := by
  have hlines := confText_lines hash hdirs
  constructor <;>
    · rw [confValue, hlines]
      rfl

/-- The lines of the unit down to the command. -/
def unitLines (port : Int) : List Str :=
  ["[Unit]", "Description=qBittorrent-nox (managed by nasd)", "After=network-online.target",
    "Wants=network-online.target", [], "[Service]", "User=" ++ svcUser, "Group=" ++ svcGroup,
    "UMask=0002", execStart ++ Itoa port]

theorem unitText_eq (port : Int) :
    unitText port = (unitLines port).flatMap (· ++ ['\n']) ++
      "Restart=on-failure\nRestartSec=3\n\n[Install]\nWantedBy=multi-user.target\n" := by
  have hfirst : ("[Unit]\n" : Str) = "[Unit]" ++ ['\n'] := by decide +kernel
  have hdesc : ("Description=qBittorrent-nox (managed by nasd)\n" : Str) =
      "Description=qBittorrent-nox (managed by nasd)" ++ ['\n'] := by decide +kernel
  have hnet : ("After=network-online.target\nWants=network-online.target\n\n" : Str) =
      "After=network-online.target" ++ '\n' :: ("Wants=network-online.target" ++ ['\n', '\n']) := by
    decide +kernel
  have hservice : ("[Service]\nUser=" : Str) = "[Service]" ++ '\n' :: "User=" := by decide +kernel
  have hgroup : ("\nGroup=" : Str) = '\n' :: "Group=" := by decide +kernel
  have humask : ("\nUMask=0002\n" : Str) = '\n' :: ("UMask=0002" ++ ['\n']) := by decide +kernel
  have hend : ("\n" : Str) = ['\n'] := by decide +kernel
  unfold unitText unitLines execStart
  simp only [List.flatMap_cons, List.flatMap_nil, List.append_assoc,
    List.cons_append, List.nil_append, hfirst, hdesc, hnet, hservice, hgroup, humask, hend]

theorem unitText_reads (port : Int) : unitPort (unitText port) = some (Itoa port) := by
  have hlines : ∀ l ∈ unitLines port, '\n' ∉ l := by
    unfold unitLines
    simp only [List.forall_mem_cons, List.mem_append, Itoa_line, or_false]
    refine ⟨?_, ?_, ?_, ?_, ?_, ?_, ?_, ?_, ?_, ?_, List.forall_mem_nil _⟩ <;> decide +kernel
  rw [unitPort, unitText_eq, lines_terminated_append hlines]
  rfl

/-! ## One request -/

/-- What the run of a request must be like: it ends before the service is stopped, or all that is
left then succeeds, or the hash or the first write fails and the service was not running. -/
inductive Sound (S : Service O) (b : Backend σ) (r : Request) : Prop where
  | undecoded (hbody : r.body = none)
  | refused {c : Config} (hbody : r.body = some c) (hp : prepared O r c.defaulted b.host = none)
  | done {c : Config} {steps : List Step} {h h' : Host σ} {hash : Str} (hbody : r.body = some c)
      (hp : prepared O r c.defaulted b.host = some (steps, h)) (hhash : r.hash = .ok hash)
      (hops : performs O (lateOps c.defaulted hash) h = some h') (hupdate : r.update = none)
      (hdirs : ∀ d ∈ c.dirs, '\n' ∉ d)
  | unhashed {c : Config} {steps : List Step} {h : Host σ} {e : Str} (hbody : r.body = some c)
      (hp : prepared O r c.defaulted b.host = some (steps, h)) (hhash : r.hash = .error e)
      (hidle : S.active (stopped O h).env = S.active h.env)
  | unwritten {c : Config} {steps : List Step} {h : Host σ} {hash e : Str}
      (hbody : r.body = some c) (hp : prepared O r c.defaulted b.host = some (steps, h))
      (hhash : r.hash = .ok hash)
      (hw : (O.write confFile (confText c.defaulted hash) (ready O h).env).1 =
        some (e, h.files confFile))
      (hidle : S.active (stopped O h).env = S.active h.env)

variable {b : Backend σ} {c : Config} {e : Str}

/-- A request that `Configure` refuses changes no more than `Configure` did. -/
theorem configure_failed (hbody : r.body = some c)
    (herr : (Configure O r.tree r.vols r.order r.plain r.hash c.defaulted b.host).1.err ≠ none)
    (hsame : Same S b.host
      (Configure O r.tree r.vols r.order r.plain r.hash c.defaulted b.host).2) :
    Unchanged S b (step O b r) := by
  unfold step configure
  rw [hbody]
  dsimp only
  split
  · exact ⟨rfl, hsame⟩
  · rename_i hok
    exact absurd hok herr

/-- One that gets further, and fails there with nothing lost. -/
theorem finish_failed (hbody : r.body = some c)
    (hp : prepared O r c.defaulted b.host = some (steps, h))
    (herr : (finish O r.plain r.hash c.defaulted steps h).1.err ≠ none)
    (hsame : Same S h (finish O r.plain r.hash c.defaulted steps h).2) :
    Unchanged S b (step O b r) := by
  rw [← Configure_prepared hp] at herr hsame
  exact configure_failed hbody herr ((prepared_same hp).trans hsame)

/-- A request that succeeds replaces the row and the host. -/
theorem configure_works (hbody : r.body = some c)
    (hok : (Configure O r.tree r.vols r.order r.plain r.hash c.defaulted b.host).1.err = none)
    (hupdate : r.update = none) :
    (configure O r b).1.error = none ∧ step O b r = ⟨c.defaulted.row,
      (Configure O r.tree r.vols r.order r.plain r.hash c.defaulted b.host).2⟩ := by
  unfold step configure
  rw [hbody]
  dsimp only
  rw [hok, hupdate]
  exact ⟨rfl, rfl⟩

theorem unwritten_same {hash : Str}
    (hw : (O.write confFile (confText cfg hash) (ready O h).env).1 = some (e, h.files confFile))
    (hidle : S.active (stopped O h).env = S.active h.env) (plain : Str) :
    Same S h (finish O plain (.ok hash) cfg steps h).2 := by
  obtain ⟨-, hfiles, henv⟩ := finish_unwritten plain steps hw
  have hready : S.active (ready O h).env = S.active (stopped O h).env :=
    S.prepare (mkdirP confDir) rfl _
  constructor
  · rw [hfiles, Function.update_self]
  · rw [hfiles, Function.update_of_ne (by decide)]
  · rw [henv, S.write, hready, hidle]

theorem step_sound (hb : Consistent b) (hr : Sound S b r) :
    Consistent (step O b r) ∧ ((configure O r b).1.error ≠ none → Unchanged S b (step O b r)) := by
  cases hr with
  | undecoded hbody =>
    have hstep : step O b r = b := by rw [step, configure, hbody]
    rw [hstep]
    exact ⟨hb, fun _ => ⟨rfl, .refl⟩⟩
  | refused hbody hp =>
    obtain ⟨herr, hsame⟩ := Configure_refused S hp
    have hun := configure_failed hbody herr hsame
    exact ⟨hun.consistent hb, fun _ => hun⟩
  | @done c steps h h' hash hbody hp hhash hops hupdate hdirs =>
    have hfinish := finish_works r.plain steps hops
    rw [← hhash, ← Configure_prepared hp] at hfinish
    obtain ⟨hnone, hstep⟩ := configure_works hbody hfinish.1 hupdate
    obtain ⟨hfile, hunit⟩ := lateOps_files hops
    refine ⟨fun _ => ?_, fun herr => absurd hnone herr⟩
    rw [hstep, hfinish.2]
    exact ⟨⟨_, hfile, confText_reads hdirs⟩, _, hunit, unitText_reads _⟩
  | unhashed hbody hp hhash hidle =>
    have hun : Unchanged S b (step O b r) := finish_failed hbody hp
      (by rw [hhash]; exact Option.some_ne_none _) (by rw [hhash]; exact ⟨rfl, rfl, hidle⟩)
    exact ⟨hun.consistent hb, fun _ => hun⟩
  | unwritten hbody hp hhash hw hidle =>
    have hun : Unchanged S b (step O b r) := finish_failed hbody hp
      (by rw [hhash, (finish_unwritten _ _ hw).1]; exact Option.some_ne_none _)
      (by rw [hhash]; exact unwritten_same hw hidle _)
    exact ⟨hun.consistent hb, fun _ => hun⟩

/-! ## Any run -/

theorem run_consistent {rs : List Request} (hb : Consistent b)
    (hg : Guarded (step O) (Sound S) b rs) : Consistent (run (step O) b rs) := by
  have hstep : ∀ s r, Consistent s → Sound S s r → Consistent (step O s r) :=
    fun s r hs hr => (step_sound hs hr).1
  have halways : Always (step O) Consistent b rs :=
    always_of_guarded hstep (fun _ hs => hs) hb hg
  exact always_iff_prefix.mp halways rs [] (by simp)

/-- After each request of such a run the row is that of the files, and a request that was answered
with an error has changed nothing. -/
theorem configure_requests (pre : List Request) (hb : Consistent b)
    (hg : Guarded (step O) (Sound S) b (pre ++ [r])) :
    Consistent (run (step O) b (pre ++ [r])) ∧
      ((configure O r (run (step O) b pre)).1.error ≠ none →
        Unchanged S (run (step O) b pre) (run (step O) b (pre ++ [r]))) := by
  obtain ⟨hpre, hr, -⟩ := guarded_append.mp hg
  rw [run_append]
  exact step_sound (run_consistent hb hpre) hr

/-! ## A service that does not start again -/

/-- Not started yet, running, or stopped. -/
inductive Phase where
  | fresh | running | down
  deriving DecidableEq

/-- The service starts once. Everything else succeeds. -/
def once : OS Phase where
  run c u :=
    if c = enableNow then
      match u with
      | .fresh => (⟨[], [], none⟩, .running)
      | _ => (⟨[], "Job for qbittorrent.service failed.", some "exit status 1"⟩, .down)
    else if c = stopQbt then (⟨[], [], none⟩, if u = .running then .down else u)
    else (⟨[], [], none⟩, u)
  write _ _ u := (none, u)
  rename _ _ u := (none, u)

theorem once_quiet {c : Cmd} (hc : preparing c = true) (u : Phase) : (once.run c u).2 = u := by
  have hname : c.name ≠ "systemctl" := by
    intro hname
    rw [preparing, hname] at hc
    exact absurd hc (by decide +kernel)
  have hstart : c ≠ enableNow := fun h => hname (congrArg Cmd.name h)
  have hstop : c ≠ stopQbt := fun h => hname (congrArg Cmd.name h)
  show (if c = enableNow then _ else if c = stopQbt then _ else _ : Result × Phase).2 = u
  rw [if_neg hstart, if_neg hstop]

def onceService : Service once where
  active u := decide (u = .running)
  prepare _ hc u := by rw [once_quiet hc u]
  write _ _ _ := rfl

def unconfigured : Backend Phase :=
  ⟨⟨false, [], [], [], "2770", 8080⟩, Host.start .fresh fun _ => none⟩

def folders (downloads : Str) : Config :=
  ⟨⟨"/vol/temp", "/vol/torrents", downloads⟩, "2770", 8080⟩

def asking (downloads : Str) : Request where
  body := some (folders downloads)
  tree := linkedVol
  vols := [volume.volume]
  order := keysInOrder
  plain := "abc"
  hash := .ok "@ByteArray(c2FsdA==:aGFzaA==)"
  update := none

theorem folders_sound : Sound onceService unconfigured (asking "/vol/downloads") := by
  have hdone : ((prepared once (asking "/vol/downloads") (folders "/vol/downloads").defaulted
      unconfigured.host).bind fun p => performs once
        (lateOps (folders "/vol/downloads").defaulted "@ByteArray(c2FsdA==:aGFzaA==)") p.2).isSome =
      true := by decide +kernel
  obtain ⟨h', hops⟩ := Option.isSome_iff_exists.mp hdone
  obtain ⟨⟨steps, h⟩, hp, hops⟩ := Option.bind_eq_some_iff.mp hops
  exact .done rfl hp rfl hops rfl (by decide)

theorem unconfigured_consistent : Consistent unconfigured := fun h => nomatch h

def served : Backend Phase := step once unconfigured (asking "/vol/downloads")

/-- Downloads and unfinished files in one directory are refused before anything is touched. -/
theorem same_folder_refused : Sound onceService served (asking "/vol/temp") := by
  have hnone : (prepared once (asking "/vol/temp") (folders "/vol/temp").defaulted
      served.host).isNone = true := by decide +kernel
  exact .refused rfl (Option.isNone_iff_eq_none.mp hnone)

/-- A body that says nothing, a configuration, and one that is refused. -/
theorem configure_requests_refused :
    (configure once (asking "/vol/temp") served).1.error ≠ none ∧ served.row.configured = true ∧
      Consistent (run (step once) unconfigured [{ asking "/vol/downloads" with body := none },
        asking "/vol/downloads", asking "/vol/temp"]) ∧
      Unchanged onceService served (run (step once) unconfigured
        [{ asking "/vol/downloads" with body := none }, asking "/vol/downloads",
          asking "/vol/temp"]) := by
  have hboth := configure_requests
    [{ asking "/vol/downloads" with body := none }, asking "/vol/downloads"]
    unconfigured_consistent ⟨.undecoded rfl, folders_sound, same_folder_refused, trivial⟩
  have herror : (configure once (asking "/vol/temp") served).1.error ≠ none := by decide +kernel
  exact ⟨herror, by decide +kernel, hboth.1, hboth.2 herror⟩

/-- The second time the service does not start: the file has the new directory, the row the old
one, and the service is down. -/
theorem films_half_done :
    Consistent served ∧ served.row.configured = true ∧
      (configure once (asking "/vol/films") served).1.error ≠ none ∧
      ¬ Consistent (step once served (asking "/vol/films")) ∧
      ¬ Unchanged onceService served (step once served (asking "/vol/films")) := by
  refine ⟨(step_sound unconfigured_consistent folders_sound).1, by decide +kernel,
    by decide +kernel, fun h => ?_, fun h => ?_⟩
  · obtain ⟨⟨t, ht, hagree⟩, -⟩ := h (by decide +kernel)
    have hdownloads : ((step once served (asking "/vol/films")).host.files confFile).bind
        (confValue "Session\\DefaultSavePath") ≠
          some (step once served (asking "/vol/films")).row.downloadsDir := by decide +kernel
    rw [ht] at hdownloads
    exact hdownloads hagree.downloads
  · have hactive : onceService.active (step once served (asking "/vol/films")).host.env ≠
        onceService.active served.host.env := by decide +kernel
    exact hactive h.host.active

end Qbt
end Nasd
