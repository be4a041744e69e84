import Nasd.Qbt.Volumes
import Nasd.System

/-!
# Nasd.Qbt.Configure

`Configure` of `internal/qbt/configure.go`: after `Validate` the program is installed, the user of
the service is created, the three directories are prepared (`applyDir`), and the configuration and
the unit are written. The password of the web interface and its hash are given.

* `setUp`  — what comes before the directories.
* `turns`  — the directories as they come up, each with the host just before.
* `Validate_ok_iff` — the configurations that are let through.
-/

namespace Nasd
namespace Qbt

open Text Go Dirs Files Sys

variable {σ : Type}

def svcUser : Str := "qbtuser"
def svcGroup : Str := "nas-media"
def homeDir : Str := "/var/lib/qbt"
def serviceUnit : Str := "qbittorrent.service"
def unitPath : Str := "/etc/systemd/system/" ++ serviceUnit
def confDir : Str := homeDir ++ "/.config/qBittorrent"

structure Config extends Folders where
  permsMode : Str
  webUIPort : Int
  deriving DecidableEq

structure Step where
  name : Str
  ok : Bool
  msg : Str
  deriving DecidableEq

/-! ## Installing -/

def haveQbt : Cmd := ⟨"sh", ["-c", "command -v qbittorrent-nox >/dev/null 2>&1"]⟩

/-- A script run outside the sandbox of `nasd`. -/
def aptCmd (script : Str) : Cmd where
  name := "systemd-run"
  args := ["--wait", "--collect", "--pipe", "--quiet", "--", "sh", "-c",
    "DEBIAN_FRONTEND=noninteractive " ++ script ++ " 2>&1"]

def aptRun (O : OS σ) (script : Str) (h : Host σ) : (Str × Bool) × Host σ :=
  let out := h.run O.run (aptCmd script)
  ((out.1.stdout, out.1.err.isNone), out.2)

def lastLines (s : Str) (n : Nat) : Str :=
  let ls := (TrimSpace s).splitOn '\n'
  Go.Join (ls.drop (ls.length - n)) " | "

def installQbt : Str := "apt-get install -y --no-install-recommends qbittorrent-nox acl"

/-- The error, if the program is not there and cannot be installed; dpkg is repaired once. -/
def EnsureInstalled (O : OS σ) (h : Host σ) : Option Str × Host σ :=
  let found := h.run O.run haveQbt
  if found.1.err = none then (none, found.2)
  else
    let updated := aptRun O "apt-get update -y" found.2
    let first := aptRun O installQbt updated.2
    if first.1.2 then (none, first.2)
    else
      let repaired := aptRun O "dpkg --configure -a; apt-get -f install -y" first.2
      let second := aptRun O installQbt repaired.2
      if second.1.2 then (none, second.2)
      else (some ("apt install: " ++ lastLines (first.1.1 ++ "\n" ++ second.1.1) 8), second.2)

def owner : Str := svcUser ++ ":" ++ svcGroup

def mkdirP (dir : Str) : Cmd := ⟨"mkdir", ["-p", dir]⟩
def chownR (dir : Str) : Cmd := ⟨"chown", ["-R", owner, dir]⟩

def EnsureUserGroup (O : OS σ) (h : Host σ) : Host σ :=
  let h := (h.run O.run ⟨"groupadd", ["-f", svcGroup]⟩).2
  let found := h.run O.run ⟨"id", [svcUser]⟩
  let h := if found.1.err = none then found.2 else
    (found.2.run O.run ⟨"useradd", ["--system", "--home-dir", homeDir, "--create-home", "--shell",
      "/usr/sbin/nologin", "-g", svcGroup, svcUser]⟩).2
  let h := (h.run O.run ⟨"usermod", ["-g", svcGroup, svcUser]⟩).2
  let h := (h.run O.run (mkdirP confDir)).2
  (h.run O.run (chownR homeDir)).2

/-! ## Directories -/

def chown (dir : Str) : Cmd := ⟨"chown", [owner, dir]⟩
def chmod (mode dir : Str) : Cmd := ⟨"chmod", [mode, dir]⟩
def setfacl (dir : Str) : Cmd := ⟨"setfacl", ["-d", "-m", "g:" ++ svcGroup ++ ":rwx", dir]⟩
def testWrite (dir : Str) : Cmd := ⟨"runuser", ["-u", svcUser, "--", "test", "-w", dir]⟩

def applyDir (O : OS σ) (dir mode : Str) (steps : List Step) (h : Host σ) :
    (Bool × List Step) × Host σ :=
  let out := h.run O.run (mkdirP dir)
  match out.1.err with
  | some e => ((false, steps ++ [⟨"mkdir " ++ dir, false, e⟩]), out.2)
  | none =>
    let h := (out.2.run O.run (chown dir)).2
    let h := (h.run O.run (chmod mode dir)).2
    let h := (h.run O.run (setfacl dir)).2
    let test := h.run O.run (testWrite dir)
    match test.1.err with
    | some _ =>
      ((false, steps ++ [⟨"verify write " ++ dir, false, svcUser ++ " cannot write"⟩]), test.2)
    | none => ((true, steps ++ [⟨dir, true, "owner " ++ owner ++ " mode " ++ mode⟩]), test.2)

/-- The loop over the directories: the first that cannot be prepared ends it. -/
def applyDirs (O : OS σ) (mode : Str) : List Str → List Step → Host σ →
    (Option Str × List Step) × Host σ
  | [], steps, h => ((none, steps), h)
  | d :: ds, steps, h =>
    let out := applyDir O d mode steps h
    if out.1.1 then applyDirs O mode ds out.1.2 out.2 else ((some d, out.1.2), out.2)

/-- Each directory that the loop comes to, with the host before it. -/
def turns (O : OS σ) (mode : Str) : List Str → List Step → Host σ → List (Str × Host σ)
  | [], _, _ => []
  | d :: ds, steps, h =>
    let out := applyDir O d mode steps h
    (d, h) :: if out.1.1 then turns O mode ds out.1.2 out.2 else []

/-! ## Files and service -/

def Config.dirs (cfg : Config) : List Str := [cfg.tempDir, cfg.torfileDir, cfg.downloadsDir]

def Config.mode (cfg : Config) : Str := if cfg.permsMode ≠ "2775" then "2770" else "2775"

def confText (cfg : Config) (hash : Str) : Str :=
  "[BitTorrent]\n" ++
  ("Session\\DefaultSavePath=" ++ cfg.downloadsDir ++ "\n") ++
  ("Session\\TempPath=" ++ cfg.tempDir ++ "\n") ++
  "Session\\TempPathEnabled=true\n" ++
  ("Session\\TorrentExportDirectory=" ++ cfg.torfileDir ++ "\n") ++
  ("Session\\FinishedTorrentExportDirectory=" ++ cfg.torfileDir ++ "\n") ++
  ("Session\\ScanDirs\\1\\path=" ++ cfg.torfileDir ++ "\n") ++
  "Session\\ScanDirs\\1\\download_path_enabled=false\n" ++
  "\n[LegalNotice]\nAccepted=true\n" ++
  "\n[Preferences]\n" ++
  ("WebUI\\Port=" ++ Itoa cfg.webUIPort ++ "\n") ++
  "WebUI\\Address=*\n" ++
  "WebUI\\Username=admin\n" ++
  ("WebUI\\Password_PBKDF2=\"" ++ hash ++ "\"\n")

def writeConfig (O : OS σ) (cfg : Config) (hash : Str) (h : Host σ) : Except Str Unit × Host σ :=
  let h := (h.run O.run (mkdirP confDir)).2
  match h.tryWrite O (confDir ++ "/qBittorrent.conf") (confText cfg hash) with
  | (.error e, h) => (.error e, h)
  | (.ok (), h) => (.ok (), (h.run O.run (chownR (homeDir ++ "/.config"))).2)

def unitText (port : Int) : Str :=
  "[Unit]\n" ++
  "Description=qBittorrent-nox (managed by nasd)\n" ++
  "After=network-online.target\nWants=network-online.target\n\n" ++
  ("[Service]\nUser=" ++ svcUser ++ "\nGroup=" ++ svcGroup ++ "\nUMask=0002\n") ++
  ("ExecStart=/usr/bin/qbittorrent-nox --confirm-legal-notice --webui-port=" ++ Itoa port ++
    "\n") ++
  "Restart=on-failure\nRestartSec=3\n\n[Install]\nWantedBy=multi-user.target\n"

def installUnit (O : OS σ) (port : Int) (h : Host σ) : Except Str Unit × Host σ :=
  match h.tryWrite O unitPath (unitText port) with
  | (.error e, h) => (.error e, h)
  | (.ok (), h) => (.ok (), (h.run O.run ⟨"systemctl", ["daemon-reload"]⟩).2)

def Start (O : OS σ) (h : Host σ) : Except Str Unit × Host σ :=
  let out := h.run O.run ⟨"systemctl", ["enable", "--now", serviceUnit]⟩
  (match out.1.err with | some _ => .error (TrimSpace out.1.stderr) | none => .ok (), out.2)

/-! ## Configure -/

structure Outcome where
  steps : List Step
  pass : Str
  err : Option Str

def setUpSteps : List Step :=
  [⟨"qbittorrent-nox installed", true, []⟩, ⟨"service user " ++ owner, true, []⟩]

/-- Validation, on the tree as it is then, and what the directories need first. -/
def setUp (O : OS σ) (T : FS) (vols : List Volume) (order : Order) (cfg : Config) (h : Host σ) :
    Except Outcome (List Step) × Host σ :=
  let checked := Validate T vols order cfg.toFolders
  if !checked.ok then
    (.error ⟨[], [], some ("validation failed: " ++ Go.Join checked.errors "; ")⟩, h)
  else match EnsureInstalled O h with
    | (some e, h) => (.error ⟨[⟨"install qbittorrent-nox", false, e⟩], [], some e⟩, h)
    | (none, h) => (.ok setUpSteps, EnsureUserGroup O h)

/-- `plain` is the new password and `hash` what `webuiPassword` makes of it. -/
def finish (O : OS σ) (plain : Str) (hash : Except Str Str) (cfg : Config) (steps : List Step)
    (h : Host σ) : Outcome × Host σ :=
  let h := (h.run O.run ⟨"systemctl", ["stop", serviceUnit]⟩).2
  match hash with
  | .error e => (⟨steps, [], some e⟩, h)
  | .ok hash =>
    match writeConfig O cfg hash h with
    | (.error e, h) => (⟨steps ++ [⟨"write qBittorrent.conf", false, e⟩], [], some e⟩, h)
    | (.ok (), h) =>
      let steps := steps ++ [⟨"qBittorrent.conf written", true, []⟩]
      match installUnit O cfg.webUIPort h with
      | (.error e, h) => (⟨steps ++ [⟨"systemd unit", false, e⟩], [], some e⟩, h)
      | (.ok (), h) =>
        match Start O h with
        | (.error e, h) => (⟨steps ++ [⟨"start service", false, e⟩], plain, some e⟩, h)
        | (.ok (), h) =>
          (⟨steps ++ [⟨"service started (WebUI :" ++ Itoa cfg.webUIPort ++ ")", true, []⟩], plain,
            none⟩, h)

def Configure (O : OS σ) (T : FS) (vols : List Volume) (order : Order) (plain : Str)
    (hash : Except Str Str) (cfg : Config) (h : Host σ) : Outcome × Host σ :=
  match setUp O T vols order cfg h with
  | (.error out, h) => (out, h)
  | (.ok steps, h) =>
    match applyDirs O cfg.mode cfg.dirs steps h with
    | ((some d, steps), h) => (⟨steps, [], some ("failed to prepare " ++ d)⟩, h)
    | ((none, steps), h) => finish O plain hash cfg steps h

/-! ## Validation -/

variable {T : FS} {vols : List Volume} {order : Order} {d : Folders}

theorem Order.mem (order : Order) (key : Key) : key ∈ order.keys := by
  rw [order.perm.mem_iff]
  cases key <;> decide

theorem errorOf_eq_none_iff {c : Except Str Volume} : errorOf c = none ↔ ∃ w, c = .ok w := by
  cases c <;> simp [errorOf]

theorem checkDir_ok_iff {key : Key} : (∃ w, checkDir T vols d key = .ok w) ↔
    ∃ w, resolveInVolumes T vols (d.get key) = .ok w := by
  unfold checkDir
  by_cases hnil : d.get key = []
  · simp [hnil, resolveInVolumes, badPath]
  · rw [if_neg hnil]
    cases resolveInVolumes T vols (d.get key) with
    | error e => simp
    | ok w => simp

/-- The order in which the directories are examined does not matter. -/
theorem Validate_ok_iff : (Validate T vols order d).ok = true ↔
    (∀ key, ∃ w, resolveInVolumes T vols (d.get key) = .ok w) ∧ d.tempDir ≠ d.downloadsDir := by
  have hchecked : (order.keys.map fun key => (key, checkDir T vols d key)).filterMap
      (fun c => errorOf c.2) = [] ↔ ∀ key, ∃ w, resolveInVolumes T vols (d.get key) = .ok w := by
    rw [List.filterMap_eq_nil_iff]
    constructor
    · intro hall key
      rw [← checkDir_ok_iff, ← errorOf_eq_none_iff]
      exact hall _ (List.mem_map_of_mem (order.mem key))
    · intro hall c hc
      obtain ⟨key, -, rfl⟩ := List.mem_map.mp hc
      exact errorOf_eq_none_iff.mpr (checkDir_ok_iff.mpr (hall key))
  rw [Validate, List.isEmpty_iff, List.append_eq_nil_iff, hchecked]
  constructor
  · rintro ⟨hall, hsame⟩
    refine ⟨hall, fun heq => ?_⟩
    obtain ⟨w, hw⟩ := hall .temp_dir
    have hne : d.tempDir ≠ [] := by
      rintro hnil
      rw [Folders.get, hnil] at hw
      cases hw
    rw [if_pos ⟨hne, heq⟩] at hsame
    cases hsame
  · rintro ⟨hall, hne⟩
    exact ⟨hall, if_neg fun h => hne h.2⟩

end Qbt
end Nasd
