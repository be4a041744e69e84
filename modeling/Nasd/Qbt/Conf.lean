import Nasd.Lib.Ini
import Nasd.Qbt.Confined
import Nasd.Qbt.Requests

/-!
# Nasd.Qbt.Conf

`qBittorrent.conf` as it is read back. The directories are written as they are, each at the end of a
line, after a check that they lie in the volumes; a line break in one of them begins a line of its
own.

* `EncodeToString_line`   — the hash of the password is on one line.
* `read_confText_iff`     — when the file says what was configured.
* `writeConfig_reads_iff` — for the configurations that are let through.
-/

namespace Nasd
namespace Qbt

open Text Go Files Sys

variable {σ : Type} {O : OS σ} {cfg : Config} {hash : Str} {h : Host σ}

/-! ## The password -/

def base64Alphabet : Str := "ABCDEFGHIJKLMNOPQRSTUVWXYZabcdefghijklmnopqrstuvwxyz0123456789+/"

/-- The character of six bits. -/
def base64Char (n : Nat) : Char := base64Alphabet.getD (n % 64) 'A'

/-- `base64.StdEncoding.EncodeToString` -/
def EncodeToString : List UInt8 → Str
  | [] => []
  | [a] => [base64Char (a.toNat / 4), base64Char (a.toNat * 16), '=', '=']
  | [a, b] =>
    [base64Char (a.toNat / 4), base64Char (a.toNat * 16 + b.toNat / 16),
      base64Char (b.toNat * 4), '=']
  | a :: b :: c :: rest =>
    [base64Char (a.toNat / 4), base64Char (a.toNat * 16 + b.toNat / 16),
      base64Char (b.toNat * 4 + c.toNat / 64), base64Char c.toNat] ++ EncodeToString rest

/-- The hash in the form of qBittorrent, from a salt and the key derived with it. -/
def webuiPassword (salt key : List UInt8) : Str :=
  "@ByteArray(" ++ EncodeToString salt ++ ":" ++ EncodeToString key ++ ")"

theorem base64Char_line (n : Nat) : base64Char n ≠ '\n' := by
  have hall : ∀ c ∈ base64Alphabet, c ≠ '\n' := by decide
  have hlt : n % 64 < base64Alphabet.length := Nat.mod_lt n (by decide)
  rw [base64Char, List.getD_eq_getElem?_getD, List.getElem?_eq_getElem hlt]
  exact hall _ (List.getElem_mem hlt)

theorem EncodeToString_line (bytes : List UInt8) : '\n' ∉ EncodeToString bytes := by
  have hchar : ∀ n, '\n' ≠ base64Char n := fun n => (base64Char_line n).symm
  have hpad : '\n' ≠ '=' := by decide
  induction bytes using EncodeToString.induct with
  | case1 => exact List.not_mem_nil
  | case2 a =>
    simp only [EncodeToString, List.mem_cons, List.not_mem_nil, hchar _, hpad, or_self,
      not_false_eq_true]
  | case3 a b =>
    simp only [EncodeToString, List.mem_cons, List.not_mem_nil, hchar _, hpad, or_self,
      not_false_eq_true]
  | case4 a b c rest ih =>
    simp only [EncodeToString, List.mem_append, List.mem_cons, List.not_mem_nil, hchar _, ih,
      or_self, not_false_eq_true]

theorem webuiPassword_line (salt key : List UInt8) : '\n' ∉ webuiPassword salt key := by
  have hopen : '\n' ∉ ("@ByteArray(" : Str) := by decide
  have hmid : '\n' ∉ (":" : Str) := by decide
  have hclose : '\n' ∉ (")" : Str) := by decide
  intro hc
  unfold webuiPassword at hc
  rcases List.mem_append.mp hc with hc | hc
  · rcases List.mem_append.mp hc with hc | hc
    · rcases List.mem_append.mp hc with hc | hc
      · exact (List.mem_append.mp hc).elim hopen (EncodeToString_line salt)
      · exact hmid hc
    · exact EncodeToString_line key hc
  · exact hclose hc

/-! ## The file -/

/-- What the file is to say. -/
def confItems (cfg : Config) (hash : Str) : List Ini.Item :=
  [.header "BitTorrent", .entry "Session\\DefaultSavePath" cfg.downloadsDir,
    .entry "Session\\TempPath" cfg.tempDir, .entry "Session\\TempPathEnabled" "true",
    .entry "Session\\TorrentExportDirectory" cfg.torfileDir,
    .entry "Session\\FinishedTorrentExportDirectory" cfg.torfileDir,
    .entry "Session\\ScanDirs\\1\\path" cfg.torfileDir,
    .entry "Session\\ScanDirs\\1\\download_path_enabled" "false", .header "LegalNotice",
    .entry "Accepted" "true", .header "Preferences", .entry "WebUI\\Port" (Itoa cfg.webUIPort),
    .entry "WebUI\\Address" "*", .entry "WebUI\\Username" "admin",
    .entry "WebUI\\Password_PBKDF2" ('"' :: (hash ++ ['"']))]

theorem readLine_section {line name : Str} (hline : line = '[' :: (name ++ [']'])) :
    Ini.readLine line = some (.header name) := by
  rw [hline]
  exact Ini.readLine_header

theorem readLine_key {line key value : Str} (hline : line = key ++ ['=']) (hne : key ≠ [])
    (hhead : key.head? ≠ some '[') (hkey : '=' ∉ key) :
    Ini.readLine (line ++ value) = some (.entry key value) := by
  rw [hline, List.append_assoc]
  exact Ini.readLine_entry hhead hne hkey

/-- Each line before the password says what it is to say. -/
theorem confLines_read (cfg : Config) (hash : Str) : (confLines cfg).filterMap Ini.readLine ++
    [.entry "WebUI\\Password_PBKDF2" ('"' :: (hash ++ ['"']))] = confItems cfg hash := by
  have hdown : Ini.readLine ("Session\\DefaultSavePath=" ++ cfg.downloadsDir) =
      some (.entry "Session\\DefaultSavePath" cfg.downloadsDir) :=
    readLine_key (by decide +kernel) (by decide) (by decide) (by decide)
  have htemp : Ini.readLine ("Session\\TempPath=" ++ cfg.tempDir) =
      some (.entry "Session\\TempPath" cfg.tempDir) :=
    readLine_key (by decide +kernel) (by decide) (by decide) (by decide)
  have hexport : Ini.readLine ("Session\\TorrentExportDirectory=" ++ cfg.torfileDir) =
      some (.entry "Session\\TorrentExportDirectory" cfg.torfileDir) :=
    readLine_key (by decide +kernel) (by decide) (by decide) (by decide)
  have hfinished : Ini.readLine ("Session\\FinishedTorrentExportDirectory=" ++ cfg.torfileDir) =
      some (.entry "Session\\FinishedTorrentExportDirectory" cfg.torfileDir) :=
    readLine_key (by decide +kernel) (by decide) (by decide) (by decide)
  have hscan : Ini.readLine ("Session\\ScanDirs\\1\\path=" ++ cfg.torfileDir) =
      some (.entry "Session\\ScanDirs\\1\\path" cfg.torfileDir) :=
    readLine_key (by decide +kernel) (by decide) (by decide) (by decide)
  have hport : Ini.readLine ("WebUI\\Port=" ++ Itoa cfg.webUIPort) =
      some (.entry "WebUI\\Port" (Itoa cfg.webUIPort)) :=
    readLine_key (by decide +kernel) (by decide) (by decide) (by decide)
  have hbt : Ini.readLine "[BitTorrent]" = some (.header "BitTorrent") :=
    readLine_section (by decide +kernel)
  have hlegal : Ini.readLine "[LegalNotice]" = some (.header "LegalNotice") :=
    readLine_section (by decide +kernel)
  have hprefs : Ini.readLine "[Preferences]" = some (.header "Preferences") :=
    readLine_section (by decide +kernel)
  unfold confLines confItems
  simp only [List.filterMap_cons, hbt, hdown, htemp, hexport, hfinished, hscan, Ini.readLine_nil,
    hlegal, hprefs, hport]
  rfl

theorem confText_all_lines (hhash : '\n' ∉ hash) (hdirs : ∀ d ∈ cfg.dirs, '\n' ∉ d) :
    lines (confText cfg hash) =
      confLines cfg ++ ["WebUI\\Password_PBKDF2=" ++ '"' :: (hash ++ ['"']), []] := by
  have hopen : ("WebUI\\Password_PBKDF2=\"" : Str) = "WebUI\\Password_PBKDF2=" ++ ['"'] := by
    decide +kernel
  have hclose : ("\"\n" : Str) = ['"', '\n'] := by decide +kernel
  have hlast : ("WebUI\\Password_PBKDF2=\"" ++ hash ++ "\"\n" : Str) =
      ("WebUI\\Password_PBKDF2=" ++ '"' :: (hash ++ ['"'])) ++ '\n' :: [] := by
    rw [hopen, hclose]
    simp only [List.append_assoc, List.cons_append, List.nil_append]
  have hline : '\n' ∉ ("WebUI\\Password_PBKDF2=" ++ '"' :: (hash ++ ['"']) : Str) := by
    have hkey : '\n' ∉ ("WebUI\\Password_PBKDF2=" : Str) := by decide +kernel
    have hquote : '\n' ≠ '"' := by decide
    simp only [List.mem_append, List.mem_cons, List.not_mem_nil, hkey, hquote, hhash, or_self,
      not_false_eq_true]
  rw [confText_lines hash hdirs, hlast, lines_append_newline, lines_of_not_mem hline, lines_nil]
  rfl

theorem read_confText_iff (hhash : '\n' ∉ hash) :
    Ini.read (confText cfg hash) = confItems cfg hash ↔ ∀ d ∈ cfg.dirs, '\n' ∉ d := by
  constructor
  · intro hread d hd
    have hline : ∀ key, Ini.Item.entry key d ∈ confItems cfg hash → '\n' ∉ d := by
      intro key hmem hc
      rw [← hread] at hmem
      exact Ini.read_line hmem (List.mem_append_right _ hc)
    simp only [Config.dirs, List.mem_cons, List.not_mem_nil, or_false] at hd
    rcases hd with rfl | rfl | rfl
    · exact hline "Session\\TempPath" (by simp [confItems])
    · exact hline "Session\\TorrentExportDirectory" (by simp [confItems])
    · exact hline "Session\\DefaultSavePath" (by simp [confItems])
  · intro hdirs
    have hlast : Ini.readLine ("WebUI\\Password_PBKDF2=" ++ '"' :: (hash ++ ['"'])) =
        some (.entry "WebUI\\Password_PBKDF2" ('"' :: (hash ++ ['"']))) :=
      readLine_key (by decide +kernel) (by decide) (by decide) (by decide)
    rw [Ini.read, confText_all_lines hhash hdirs, List.filterMap_append, ← confLines_read cfg hash]
    simp only [List.filterMap_cons, hlast]
    rfl

/-! ## The configurations that are let through -/

/-- What is written is the text, whole. -/
theorem writeConfig_file {h' : Host σ} (hrun : writeConfig O cfg hash h = (.ok (), h')) :
    h'.files confFile = some (confText cfg hash) := by
  unfold writeConfig Host.tryWrite at hrun
  dsimp only at hrun
  split at hrun
  · cases hrun
  · rename_i hwrite
    split at hwrite
    · cases hwrite
      cases hrun
      exact Host.writeFile_self confFile (confText cfg hash) (h.run O.run (mkdirP confDir)).2
    · cases hwrite

/-- Whatever the host, the file that is written says what was configured; a newline and nothing else
ends a line of it. -/
def SaysItems (cfg : Config) (hash : Str) : Prop :=
  ∀ (σ : Type) (O : OS σ) (h h' : Host σ), writeConfig O cfg hash h = (.ok (), h') →
    (h'.files confFile).map Ini.read = some (confItems cfg hash)

theorem saysItems_iff (hhash : '\n' ∉ hash) :
    SaysItems cfg hash ↔ ∀ d ∈ cfg.dirs, '\n' ∉ d := by
  rw [← read_confText_iff hhash]
  constructor
  · intro hsays
    have hread := hsays Unit .faultless (.start () fun _ => none) _ rfl
    rw [writeConfig_file (O := OS.faultless) (h := .start () fun _ => none) rfl] at hread
    exact Option.some.inj hread
  · intro hread σ O h h' hrun
    rw [writeConfig_file hrun, Option.map_some, hread]

/-- For every configuration that is let through the file says what was configured, exactly when none
of its directories has a line break in it. -/
theorem writeConfig_reads_iff (T : FS) (vols : List Volume) (order : Order) (cfg : Config)
    (salt key : List UInt8) :
    ((Validate T vols order cfg.toFolders).ok = true →
        SaysItems cfg (webuiPassword salt key)) ↔
      ((Validate T vols order cfg.toFolders).ok = true → ∀ d ∈ cfg.dirs, '\n' ∉ d) := by
  rw [saysItems_iff (webuiPassword_line salt key)]

/-- The name of the directory for what is not complete goes on with lines of its own. -/
def adding : Config where
  tempDir := "/vol/tmp\n[Preferences]\nWebUI\\LocalHostAuth=false"
  torfileDir := "/vol/torrents"
  downloadsDir := "/vol/downloads"
  permsMode := "2770"
  webUIPort := 8080

/-- It is let through, and qBittorrent is told to let anyone in from the host itself. -/
theorem key_added :
    (Validate linkedVol ([volume].map Mounted.volume) keysInOrder adding.toFolders).ok = true ∧
    Ini.Item.entry "WebUI\\LocalHostAuth" "false" ∈
      Ini.read (confText adding (webuiPassword [] [])) ∧
    ¬ SaysItems adding (webuiPassword [] []) := by
  refine ⟨by decide +kernel, by decide +kernel, ?_⟩
  rw [saysItems_iff (webuiPassword_line [] [])]
  exact fun hdirs => hdirs adding.tempDir (by simp [Config.dirs]) (by decide +kernel)

end Qbt
end Nasd
