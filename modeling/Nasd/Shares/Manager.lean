import Nasd.Lib.Json
import Nasd.System

/-!
# Nasd.Shares.Manager

`internal/shares/shares.go`: the shares, and the two configuration files generated from the list
of all of them.

* `exportsText` — `/etc/exports`, and its refusal of a path or of a client.
* `smbText`     — `nasd-shares.conf`.

A configuration blob is kept as the JSON value of its text.
-/

namespace Nasd
namespace Shares

open Text Go Sys Json

variable {σ : Type}

abbrev Protocol := Str

def NFS : Protocol := "nfs"
def SMB : Protocol := "smb"

structure Share where
  name : Str
  path : Str
  protocol : Protocol
  readOnly : Bool
  allowedIPs : List Str
  validUsers : List Str
  enabled : Bool
  config : Option Value

/-! ## Configuration blob -/

structure SMBOptions where
  minProtocol : Str
  signing : Bool
  encryption : Bool
  timeMachine : Bool
  guest : Bool
  oplocks : Str
  hideDotFiles : Bool
  caseSensitivity : Str
  comment : Str
  deriving DecidableEq

structure NFSAdv where
  sync : Bool
  noRootSquash : Bool
  rootSquash : Bool
  allSquash : Bool
  anonuid : Int
  anongid : Int
  noSubtreeCheck : Bool
  secure : Bool
  crossmnt : Bool
  deriving DecidableEq

structure NFSRule where
  client : Str
  perm : Str
  adv : NFSAdv
  deriving DecidableEq

structure NFSVersions where
  v3 : Bool
  v4 : Bool
  v41 : Bool
  v42 : Bool
  deriving DecidableEq

structure ShareConfig where
  recycleBin : Bool
  smb : SMBOptions
  rules : List NFSRule
  versions : NFSVersions
  deriving DecidableEq

def SMBOptions.zero : SMBOptions := ⟨[], false, false, false, false, [], false, [], []⟩
def NFSAdv.zero : NFSAdv := ⟨false, false, false, false, 0, 0, false, false, false⟩
def NFSRule.zero : NFSRule := ⟨[], [], .zero⟩
def NFSVersions.zero : NFSVersions := ⟨false, false, false, false⟩
def ShareConfig.zero : ShareConfig := ⟨false, .zero, [], .zero⟩

def SMBOptions.fields : Json.Fields SMBOptions :=
  [field "minProtocol" (·.minProtocol) (fun v o => { o with minProtocol := v }) readStr,
   field "signing" (·.signing) (fun v o => { o with signing := v }) readBool,
   field "encryption" (·.encryption) (fun v o => { o with encryption := v }) readBool,
   field "timeMachine" (·.timeMachine) (fun v o => { o with timeMachine := v }) readBool,
   field "guest" (·.guest) (fun v o => { o with guest := v }) readBool,
   field "oplocks" (·.oplocks) (fun v o => { o with oplocks := v }) readStr,
   field "hideDotFiles" (·.hideDotFiles) (fun v o => { o with hideDotFiles := v }) readBool,
   field "caseSensitivity" (·.caseSensitivity) (fun v o => { o with caseSensitivity := v }) readStr,
   field "comment" (·.comment) (fun v o => { o with comment := v }) readStr]

def NFSAdv.fields : Json.Fields NFSAdv :=
  [field "sync" (·.sync) (fun v a => { a with sync := v }) readBool,
   field "noRootSquash" (·.noRootSquash) (fun v a => { a with noRootSquash := v }) readBool,
   field "rootSquash" (·.rootSquash) (fun v a => { a with rootSquash := v }) readBool,
   field "allSquash" (·.allSquash) (fun v a => { a with allSquash := v }) readBool,
   field "anonuid" (·.anonuid) (fun v a => { a with anonuid := v }) readInt,
   field "anongid" (·.anongid) (fun v a => { a with anongid := v }) readInt,
   field "noSubtreeCheck" (·.noSubtreeCheck) (fun v a => { a with noSubtreeCheck := v }) readBool,
   field "secure" (·.secure) (fun v a => { a with secure := v }) readBool,
   field "crossmnt" (·.crossmnt) (fun v a => { a with crossmnt := v }) readBool]

def NFSRule.fields : Json.Fields NFSRule :=
  [field "client" (·.client) (fun v r => { r with client := v }) readStr,
   field "perm" (·.perm) (fun v r => { r with perm := v }) readStr,
   field "adv" (·.adv) (fun v r => { r with adv := v }) (readObj NFSAdv.fields)]

def NFSVersions.fields : Json.Fields NFSVersions :=
  [field "v3" (·.v3) (fun v n => { n with v3 := v }) readBool,
   field "v4" (·.v4) (fun v n => { n with v4 := v }) readBool,
   field "v41" (·.v41) (fun v n => { n with v41 := v }) readBool,
   field "v42" (·.v42) (fun v n => { n with v42 := v }) readBool]

def ShareConfig.fields : Json.Fields ShareConfig :=
  [field "recycleBin" (·.recycleBin) (fun v c => { c with recycleBin := v }) readBool,
   field "smb" (·.smb) (fun v c => { c with smb := v }) (readObj SMBOptions.fields),
   field "rules" (·.rules) (fun v c => { c with rules := v })
     (readList NFSRule.zero (readObj NFSRule.fields)),
   field "versions" (·.versions) (fun v c => { c with versions := v }) (readObj NFSVersions.fields)]

/-- A blob that does not fit is read as far as it does; the source ignores the error. -/
def Share.parseConfig (s : Share) : ShareConfig :=
  match s.config with
  | none => .zero
  | some v => readObj ShareConfig.fields v .zero

/-! ## NFS -/

def squashOpt (a : NFSAdv) : Str :=
  if a.allSquash then "all_squash"
  else if a.noRootSquash then "no_root_squash" else "root_squash"

def idOpts (key : Str) (id : Int) : List Str := if id > 0 then [key ++ '=' :: Itoa id] else []

def nfsRuleOptList (r : NFSRule) : List Str :=
  (if r.perm = "ro" then "ro" else "rw") ::
  (if r.adv.sync then "sync" else "async") ::
  (if r.adv.noSubtreeCheck then "no_subtree_check" else "subtree_check") ::
  (if r.adv.secure then "secure" else "insecure") ::
  squashOpt r.adv ::
  ((if r.adv.crossmnt then [("crossmnt" : Str)] else []) ++
    idOpts "anonuid" r.adv.anonuid ++ idOpts "anongid" r.adv.anongid)

def nfsRuleOpts (r : NFSRule) : Str := Join (nfsRuleOptList r) ","

def badClientChars : Str := " \t\r\n\"()"

/-- One ` client(options)` of an export. -/
def exportClient (U : PrintTable) (client opts : Str) : Except Str Str :=
  if ContainsAny client badClientChars then .error ("client NFS non valido: " ++ Quote U client)
  else .ok (' ' :: client ++ '(' :: opts ++ [')'])

def exportEach (U : PrintTable) : List (Str × Str) → Except Str Str
  | [] => .ok []
  | (client, opts) :: rest =>
    match exportClient U client opts with
    | .error e => .error e
    | .ok t =>
      match exportEach U rest with
      | .error e => .error e
      | .ok ts => .ok (t ++ ts)

def ruleClient (r : NFSRule) : Str :=
  if TrimSpace r.client = [] then "*" else TrimSpace r.client

/-- The clients of a share with their options: its rules, or else its allowed hosts. -/
def Share.clients (s : Share) : List (Str × Str) :=
  if s.parseConfig.rules ≠ [] then
    s.parseConfig.rules.map fun r => (ruleClient r, nfsRuleOpts r)
  else
    let opts : Str := if s.readOnly then "ro" else "rw"
    let hosts : List Str := if s.allowedIPs = [] then ["*"] else s.allowedIPs
    hosts.map fun h => (h, opts ++ ",sync,no_subtree_check")

def Share.isExport (s : Share) : Bool := s.protocol = NFS && s.enabled

def badExportPath (s : Share) : Str := "percorso non valido: " ++ s.path

def exportsHeader : Str := "# Generato da nasd - non modificare a mano\n"

/-- The line of `/etc/exports` for a share, without its newline. -/
def exportLine (U : PrintTable) (s : Share) : Except Str Str :=
  if ContainsAny s.path "\n\"" then .error (badExportPath s)
  else match exportEach U s.clients with
    | .error e => .error e
    | .ok clients => .ok (Quote U s.path ++ clients)

def exportLines (U : PrintTable) : List Share → Except Str Str
  | [] => .ok []
  | s :: rest =>
    if !s.isExport then exportLines U rest
    else match exportLine U s with
      | .error e => .error e
      | .ok line =>
        match exportLines U rest with
        | .error e => .error e
        | .ok ts => .ok (line ++ '\n' :: ts)

/-- `/etc/exports` for the whole list. -/
def exportsText (U : PrintTable) (all : List Share) : Except Str Str :=
  (exportLines U all).map (exportsHeader ++ ·)

/-! ## SMB -/

def confValue (s : Str) : Str := s.map fun c => if c = '\n' ∨ c = '\r' then ' ' else c

def goBool (b : Bool) : Str := if b then "true" else "false"

def param (on : Bool) (key value : Str) : List (Str × Str) := if on then [(key, value)] else []

def vfsObjects (cfg : ShareConfig) : List Str :=
  (if cfg.recycleBin then [("recycle" : Str)] else []) ++
    (if cfg.smb.timeMachine then [("fruit" : Str)] else [])

/-- The parameters that follow from the share's configuration, and the fixed ones. -/
def smbOptions (cfg : ShareConfig) : List (Str × Str) :=
  let comment := TrimSpace cfg.smb.comment
  param (comment ≠ []) "comment" (confValue comment) ++
  param cfg.smb.hideDotFiles "hide dot files" "yes" ++
  param (cfg.smb.caseSensitivity = "sensitive") "case sensitive" "yes" ++
  param (cfg.smb.caseSensitivity = "insensitive") "case sensitive" "no" ++
  param (cfg.smb.oplocks = "disabled") "oplocks" "no" ++
  param cfg.smb.encryption "smb encrypt" "required" ++
  (if vfsObjects cfg = [] then [] else
    param true "vfs objects" (Join (vfsObjects cfg) " ") ++
    param cfg.recycleBin "recycle:repository" ".recycle" ++
    param cfg.recycleBin "recycle:keeptree" "yes" ++
    param cfg.recycleBin "recycle:versions" "yes" ++
    param cfg.smb.timeMachine "fruit:time machine" "yes") ++
  param true "create mask" "0664" ++ param true "directory mask" "0775" ++
  param true "browseable" "yes"

/-- A share without valid users is open to guests. -/
def smbAccess (s : Share) : List (Str × Str) :=
  [("path", s.path), ("read only", goBool s.readOnly),
    if s.validUsers ≠ [] then ("valid users", Join s.validUsers " ") else ("guest ok", "yes")]

def smbParams (s : Share) : List (Str × Str) := smbAccess s ++ smbOptions s.parseConfig

def paramLine (kv : Str × Str) : Str := ' ' :: ' ' :: ' ' :: kv.1 ++ ' ' :: '=' :: ' ' :: kv.2

/-- The lines of a share's section; an empty one ends it. -/
def smbSection (s : Share) : List Str :=
  ('[' :: s.name ++ [']']) :: (smbParams s).map paramLine ++ [[]]

def Share.isSMB (s : Share) : Bool := s.protocol = SMB && s.enabled

def badShareName (s : Share) : Str := "nome share non valido: " ++ s.name

def smbHeader : Str := "# Generato da nasd\n"

def sectionText (s : Share) : Str := (smbSection s).flatMap (· ++ ['\n'])

def smbSections : List Share → Except Str Str
  | [] => .ok []
  | s :: rest =>
    if !s.isSMB then smbSections rest
    else if !ValidShareName s.name then .error (badShareName s)
    else match smbSections rest with
      | .error e => .error e
      | .ok ts => .ok (sectionText s ++ ts)

/-- `nasd-shares.conf` for the whole list. -/
def smbText (all : List Share) : Except Str Str := (smbSections all).map (smbHeader ++ ·)

end Shares
end Nasd
