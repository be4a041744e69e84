import Nasd.Filepath
import Nasd.Shares.Manager

/-!
# Nasd.Shares.Apply

`ApplyNFS`, `ApplySMB` and `GrantShareAccess` of `internal/shares/shares.go` on a host, with the
commands that they run on the way. Paths are those of the default configuration.

* `ApplyNFS_ok`, `ApplySMB_ok` — when nothing fails, the file is replaced by its new text, or kept
  if a share is refused.
-/

namespace Nasd
namespace Shares

open Text Go Sys

variable {σ : Type} {U : PrintTable} {O : OS σ} {all : List Share} {h : Host σ}

def exportsPath : Str := "/etc/exports"
def sambaConf : Str := "/etc/samba/smb.conf"
def includePath : Str := "/etc/samba/nasd-shares.conf"

def tmpOf (path : Str) : Str := path ++ ".tmp"

def writeFileAtomic (O : OS σ) (path content : Str) (h : Host σ) : Except Str Unit × Host σ :=
  match h.tryWrite O (tmpOf path) content with
  | (.error e, h) => (.error e, h)
  | (.ok (), h) => h.tryRename O (tmpOf path) path

/-! ## Commands -/

def mkdir (path : Str) : Cmd := ⟨"mkdir", ["-p", path]⟩
def chmod (path : Str) : Cmd := ⟨"chmod", ["0777", path]⟩
def enableNow (units : List Str) : Cmd := ⟨"systemctl", "enable" :: "--now" :: units⟩
def disableNow (units : List Str) : Cmd := ⟨"systemctl", "disable" :: "--now" :: units⟩
def exportfs : Cmd := ⟨"exportfs", ["-ra"]⟩
def testparm : Cmd := ⟨"testparm", ["-s", sambaConf]⟩
def reloadConfig : Cmd := ⟨"smbcontrol", ["all", "reload-config"]⟩

def nfsUnits : List Str := ["nfs-server"]
def smbUnits : List Str := ["smbd", "nmbd"]

/-- The folder of a share is created and opened to everyone. -/
def makeFolder (O : OS σ) (s : Share) (h : Host σ) : Except Str Unit × Host σ :=
  let made := h.run O.run (mkdir s.path)
  match made.1.err with
  | some e => (.error ("creazione cartella " ++ s.path ++ ": " ++ e), made.2)
  | none => (.ok (), (made.2.run O.run (chmod s.path)).2)

/-! ## NFS -/

/-- The loop over the shares, from the text and the number of exports so far. -/
def applyExports (U : PrintTable) (O : OS σ) :
    List Share → Str → Nat → Host σ → Except Str (Str × Nat) × Host σ
  | [], b, enabled, h => (.ok (b, enabled), h)
  | s :: rest, b, enabled, h =>
    if !s.isExport then applyExports U O rest b enabled h
    else if ContainsAny s.path "\n\"" then (.error (badExportPath s), h)
    else match makeFolder O s h with
      | (.error e, h) => (.error e, h)
      | (.ok (), h) =>
        match exportEach U s.clients with
        | .error e => (.error e, h)
        | .ok clients =>
          applyExports U O rest (b ++ (Quote U s.path ++ clients ++ ['\n'])) (enabled + 1) h

/-- The server runs only while there are exports. -/
def reloadNFS (O : OS σ) (enabled : Nat) (h : Host σ) : Except Str Unit × Host σ :=
  if enabled > 0 then
    let started := h.run O.run (enableNow nfsUnits)
    match started.1.err with
    | some e => (.error ("avvio nfs-server: " ++ e), started.2)
    | none =>
      let out := started.2.run O.run exportfs
      (match out.1.err with | some e => .error e | none => .ok (), out.2)
  else
    let out := (h.run O.run (disableNow nfsUnits)).2.run O.run exportfs
    (match out.1.err with | some e => .error e | none => .ok (), out.2)

def ApplyNFS (U : PrintTable) (O : OS σ) (all : List Share) (h : Host σ) :
    Except Str Unit × Host σ :=
  match applyExports U O all exportsHeader 0 h with
  | (.error e, h) => (.error e, h)
  | (.ok (b, enabled), h) =>
    match writeFileAtomic O exportsPath b h with
    | (.error e, h) => (.error e, h)
    | (.ok (), h) => reloadNFS O enabled h

/-! ## SMB -/

def applySections (O : OS σ) :
    List Share → Str → Nat → Host σ → Except Str (Str × Nat) × Host σ
  | [], b, enabled, h => (.ok (b, enabled), h)
  | s :: rest, b, enabled, h =>
    if !s.isSMB then applySections O rest b enabled h
    else if !ValidShareName s.name then (.error (badShareName s), h)
    else match makeFolder O s h with
      | (.error e, h) => (.error e, h)
      | (.ok (), h) => applySections O rest (b ++ sectionText s) (enabled + 1) h

/-- The new file is checked by `testparm`; errors of `smbcontrol` and of stopping are ignored. -/
def reloadSMB (O : OS σ) (enabled : Nat) (h : Host σ) : Except Str Unit × Host σ :=
  let checked := h.run O.run testparm
  match checked.1.err with
  | some e => (.error ("configurazione samba non valida: " ++ e), checked.2)
  | none =>
    if enabled > 0 then
      let started := checked.2.run O.run (enableNow smbUnits)
      match started.1.err with
      | some e => (.error ("avvio smbd/nmbd: " ++ e), started.2)
      | none => (.ok (), (started.2.run O.run reloadConfig).2)
    else (.ok (), (checked.2.run O.run (disableNow smbUnits)).2)

def ApplySMB (O : OS σ) (all : List Share) (h : Host σ) : Except Str Unit × Host σ :=
  match applySections O all smbHeader 0 h with
  | (.error e, h) => (.error e, h)
  | (.ok (b, enabled), h) =>
    match writeFileAtomic O includePath b h with
    | (.error e, h) => (.error e, h)
    | (.ok (), h) => reloadSMB O enabled h

/-! ## Access -/

def traverse (dir : Str) : Cmd := ⟨"chmod", ["o+x", dir]⟩
def readable (path : Str) : Cmd := ⟨"chmod", ["-R", "o+rX", path]⟩

def badGrantChars : Str := "\n\r\x00\"'`"

/-- The loop over the directories above a path, from the nearest one up. -/
def openAncestors (O : OS σ) (p : Str) (h : Host σ) : Host σ :=
  if p = "/" ∨ p = "." ∨ p = [] then h
  else openAncestors O (Filepath.Dir p) (h.run O.run (traverse p)).2
termination_by if p = "." then 0 else p.length
decreasing_by
  rename_i hgo
  obtain ⟨hroot, hrest⟩ := not_or.mp hgo
  obtain ⟨hdot, hne⟩ := not_or.mp hrest
  have hpos : 0 < p.length := List.length_pos_iff.mpr hne
  rw [if_neg hdot]
  rcases Filepath.Dir_shorter hroot with hend | hshorter
  · rw [if_pos hend]; exact hpos
  · split <;> omega

/-- The directories above the folder of a share are made traversable, and all of it readable. -/
def GrantShareAccess (O : OS σ) (path : Str) (h : Host σ) : Except Str Unit × Host σ :=
  if !HasPrefix path "/" || ContainsAny path badGrantChars then
    (.error ("percorso non valido: " ++ path), h)
  else
    let out := (openAncestors O (Filepath.Dir path) h).run O.run (readable path)
    match out.1.err with
    | some e => (.error ("grant access " ++ path ++ ": " ++ e), out.2)
    | none => (.ok (), out.2)

/-! ## When nothing fails -/

/-- The file system with `path` replaced, and nothing left of the temporary file. -/
def replaced (path content : Str) (fs : Files) : Files :=
  Function.update (Function.update fs (tmpOf path) none) path (some content)

theorem rename_written {path : Str} {fs : Files} {t : Str} (ht : fs (tmpOf path) = some t) :
    Files.rename (tmpOf path) path fs = .ok (replaced path t fs) := by
  simp only [Files.rename, ht, replaced]

theorem writeFileAtomic_ok (hO : O.Works) (path content : Str) (h : Host σ) :
    (writeFileAtomic O path content h).1 = .ok () ∧
    (writeFileAtomic O path content h).2.files = replaced path content h.files := by
  have hread : Function.update h.files (tmpOf path) (some content) (tmpOf path) = some content :=
    Function.update_self ..
  have hfiles : replaced path content (Function.update h.files (tmpOf path) (some content)) =
      replaced path content h.files := by
    rw [replaced, replaced, Function.update_idem]
  simp only [writeFileAtomic, Host.tryWrite, Host.tryRename, hO.write, hO.rename, Host.writeFile,
    rename_written hread, hfiles]
  exact ⟨trivial, trivial⟩

theorem run_err (hO : O.Works) (c : Cmd) (h : Host σ) : (h.run O.run c).1.err = none :=
  hO.run c h.env

theorem makeFolder_ok (hO : O.Works) (s : Share) (h : Host σ) :
    (makeFolder O s h).1 = .ok () ∧ (makeFolder O s h).2.files = h.files := by
  simp only [makeFolder, run_err hO, Host.run_files]
  exact ⟨trivial, trivial⟩

theorem applyExports_ok (hO : O.Works) (U : PrintTable) :
    ∀ (all : List Share) (b : Str) (enabled : Nat) (h : Host σ),
      (applyExports U O all b enabled h).2.files = h.files ∧
      (applyExports U O all b enabled h).1.map (·.1) = (exportLines U all).map (b ++ ·) := by
  intro all
  induction all with
  | nil => intro b enabled h; simp [applyExports, exportLines, Except.map]
  | cons s rest ih =>
    intro b enabled h
    obtain ⟨hmade, hfiles⟩ := makeFolder_ok hO s h
    simp only [applyExports, exportLines, exportLine]
    split
    · exact ih b enabled h
    · split
      · exact ⟨rfl, rfl⟩
      · split
        · rename_i e h' heq; rw [heq] at hmade; cases hmade
        · rename_i h' heq
          rw [heq] at hfiles
          cases exportEach U s.clients with
          | error e => exact ⟨hfiles, rfl⟩
          | ok clients =>
            obtain ⟨hf, ht⟩ := ih (b ++ (Quote U s.path ++ clients ++ ['\n'])) (enabled + 1) h'
            refine ⟨hf.trans hfiles, ?_⟩
            rw [ht]
            cases exportLines U rest with
            | error e => rfl
            | ok ts => simp [Except.map]

theorem applySections_ok (hO : O.Works) :
    ∀ (all : List Share) (b : Str) (enabled : Nat) (h : Host σ),
      (applySections O all b enabled h).2.files = h.files ∧
      (applySections O all b enabled h).1.map (·.1) = (smbSections all).map (b ++ ·) := by
  intro all
  induction all with
  | nil => intro b enabled h; simp [applySections, smbSections, Except.map]
  | cons s rest ih =>
    intro b enabled h
    obtain ⟨hmade, hfiles⟩ := makeFolder_ok hO s h
    simp only [applySections, smbSections]
    split
    · exact ih b enabled h
    · split
      · exact ⟨rfl, rfl⟩
      · split
        · rename_i e h' heq; rw [heq] at hmade; cases hmade
        · rename_i h' heq
          rw [heq] at hfiles
          obtain ⟨hf, ht⟩ := ih (b ++ sectionText s) (enabled + 1) h'
          refine ⟨hf.trans hfiles, ?_⟩
          rw [ht]
          cases smbSections rest with
          | error e => rfl
          | ok ts => simp [Except.map]

theorem reloadNFS_ok (hO : O.Works) (enabled : Nat) (h : Host σ) :
    (reloadNFS O enabled h).1 = .ok () ∧ (reloadNFS O enabled h).2.files = h.files := by
  simp only [reloadNFS, run_err hO]
  split <;> exact ⟨rfl, rfl⟩

theorem reloadSMB_ok (hO : O.Works) (enabled : Nat) (h : Host σ) :
    (reloadSMB O enabled h).1 = .ok () ∧ (reloadSMB O enabled h).2.files = h.files := by
  simp only [reloadSMB, run_err hO]
  split <;> exact ⟨rfl, rfl⟩

/-- What an `Apply` does to the files: all or nothing. -/
def afterApply (path : Str) (text : Except Str Str) (fs : Files) : Files :=
  match text with
  | .error _ => fs
  | .ok t => replaced path t fs

theorem ApplyNFS_ok (hO : O.Works) (U : PrintTable) (all : List Share) (h : Host σ) :
    (ApplyNFS U O all h).1 = (exportsText U all).map (fun _ => ()) ∧
    (ApplyNFS U O all h).2.files = afterApply exportsPath (exportsText U all) h.files := by
  obtain ⟨hfiles, htext⟩ := applyExports_ok hO U all exportsHeader 0 h
  simp only [exportsText, ← htext]
  unfold ApplyNFS
  split
  · rename_i e h' heq
    rw [heq] at hfiles ⊢
    exact ⟨rfl, hfiles⟩
  · rename_i b enabled h' heq
    rw [heq] at hfiles ⊢
    obtain ⟨hw, hwf⟩ := writeFileAtomic_ok hO exportsPath b h'
    split
    · rename_i e h'' hbad; rw [hbad] at hw; cases hw
    · rename_i h'' hgood
      rw [hgood] at hwf
      obtain ⟨hr, hrf⟩ := reloadNFS_ok hO enabled h''
      exact ⟨hr, hrf.trans (by rw [hwf, hfiles]; rfl)⟩

theorem ApplySMB_ok (hO : O.Works) (all : List Share) (h : Host σ) :
    (ApplySMB O all h).1 = (smbText all).map (fun _ => ()) ∧
    (ApplySMB O all h).2.files = afterApply includePath (smbText all) h.files := by
  obtain ⟨hfiles, htext⟩ := applySections_ok hO all smbHeader 0 h
  simp only [smbText, ← htext]
  unfold ApplySMB
  split
  · rename_i e h' heq
    rw [heq] at hfiles ⊢
    exact ⟨rfl, hfiles⟩
  · rename_i b enabled h' heq
    rw [heq] at hfiles ⊢
    obtain ⟨hw, hwf⟩ := writeFileAtomic_ok hO includePath b h'
    split
    · rename_i e h'' hbad; rw [hbad] at hw; cases hw
    · rename_i h'' hgood
      rw [hgood] at hwf
      obtain ⟨hr, hrf⟩ := reloadSMB_ok hO enabled h''
      exact ⟨hr, hrf.trans (by rw [hwf, hfiles]; rfl)⟩

end Shares
end Nasd
