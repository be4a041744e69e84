import Nasd.Shares.Exports
import Nasd.Shares.Include
import Nasd.Shares.RoundTrip

/-!
# Nasd.Shares.Legacy

Shares from before the column `config`: opened in the web UI (`mapShareFromAPI`), saved as they are
(`mapCIFSToAPI`, `mapNFSToAPI`) and read back from their rows. The forms are built here from whatever
texts the columns hold, unlike the forms of `Nasd.Shares.Frontend`, which are typed in.

* `mapCIFSToAPI_object`, `mapNFSToAPI_object` — the two mappings are those of `Nasd.Shares.Frontend`.
* `granted_resaved`     — the exports line grants the same.
* `listed_resaved`      — the section of an SMB share lists the same names.
* `resaved_preserved`   — both, for every share that was stored without a configuration.
-/

namespace Nasd
namespace Shares

open Text Go Json

/-! ## Forms as objects -/

/-- What `mapCIFSToAPI` reads of a form, and all of it. An absent status is the empty text. -/
structure CIFSObject where
  name : Str
  path : Str
  guest : Bool
  users : List (Str × Perm)
  groups : List (Str × Perm)
  defaultPerm : Perm
  status : Str
  json : Value

structure NFSObject where
  name : Str
  path : Str
  rules : List (Str × Access)
  status : Str
  json : Value

def CIFSObject.toAPI (form : CIFSObject) : Share where
  name := form.name
  path := form.path
  protocol := SMB
  readOnly := form.defaultPerm = .ro
  allowedIPs := []
  validUsers := if form.guest then [] else
    (form.users.filter (·.2 ≠ .none)).map (·.1) ++
      (form.groups.filter (·.2 ≠ .none)).map fun g => '@' :: g.1
  enabled := form.status = [] || form.status = ("active" : Str)
  config := some form.json

def NFSObject.toAPI (form : NFSObject) : Share where
  name := form.name
  path := form.path
  protocol := NFS
  readOnly := form.rules ≠ [] ∧ ∀ r ∈ form.rules, r.2 = .ro
  allowedIPs := (form.rules.map (·.1)).filter (· ≠ [])
  validUsers := []
  enabled := form.status = [] || form.status = ("active" : Str)
  config := some form.json

def statusText : Option Line → Str
  | some l => l.text
  | none => []

theorem isActive_statusText (status : Option Line) :
    isActive status = (statusText status = [] || statusText status = ("active" : Str)) := by
  cases status <;> rfl

def CIFSForm.object (form : CIFSForm) : CIFSObject where
  name := form.name.text
  path := form.path.text
  guest := form.smb.guest
  users := form.users.map fun u => (u.username.text, u.perm)
  groups := form.groups.map fun g => (g.name.text, g.perm)
  defaultPerm := form.defaultPerm
  status := statusText form.status
  json := form.toJson

def NFSForm.object (form : NFSForm) : NFSObject where
  name := form.name.text
  path := form.path.text
  rules := form.rules.map fun r => (r.client.text, r.perm)
  status := statusText form.status
  json := form.toJson

theorem mapCIFSToAPI_object (form : CIFSForm) : mapCIFSToAPI form = form.object.toAPI := by
  unfold mapCIFSToAPI CIFSObject.toAPI CIFSForm.permitted CIFSForm.object
  simp only [isActive_statusText, List.filter_map, List.map_map]
  rfl

theorem mapNFSToAPI_object (form : NFSForm) : mapNFSToAPI form = form.object.toAPI := by
  unfold mapNFSToAPI NFSObject.toAPI NFSForm.object
  simp only [isActive_statusText, List.map_map, List.forall_mem_map, ne_eq, List.map_eq_nil_iff]
  rfl

/-! ## Opening -/

/-- A user of the interface's list. -/
structure Account where
  username : Str
  role : Str

/-- `path.match(/^\/mnt\/([^/]+)/)?.[1] || path.split("/")[2] || ""` -/
def volumeOf (path : Str) : Str :=
  let mnt := if HasPrefix path "/mnt/" then (path.drop 5).takeWhile (· ≠ '/') else []
  if mnt ≠ [] then mnt else ((path.splitOn '/')[2]?).getD []

/-- `found?.role || "User"` -/
def roleOf (ulist : List Account) (u : Str) : Str :=
  let role := ((ulist.find? (·.username = u)).map (·.role)).getD []
  if role ≠ [] then role else "User"

def statusOf (enabled : Bool) : Str := if enabled then "active" else "disabled"

def permOf (readOnly : Bool) : Access := if readOnly then .ro else .rw

def Access.perm : Access → Perm
  | .ro => .ro
  | .rw => .rw

def defaultAdv : AdvForm where
  sync := true
  noRootSquash := false
  rootSquash := true
  allSquash := false
  anonuid := some "65534"
  anongid := some "65534"
  noSubtreeCheck := true
  secure := true
  crossmnt := false

def openCIFS (dto : ShareDTO) (ulist : List Account) : CIFSObject :=
  let s := dto.share
  let perm := permOf s.readOnly
  let vu := s.validUsers.filter fun u => !HasPrefix u "@"
  let vg := (s.validUsers.filter fun u => HasPrefix u "@").map (·.drop 1)
  { name := s.name
    path := s.path
    guest := false
    users := vu.map fun u => (u, perm.perm)
    groups := vg.map fun g => (g, perm.perm)
    defaultPerm := perm.perm
    status := statusOf s.enabled
    json := .obj [("id", .num (Itoa dto.id)), ("name", .str s.name), ("description", .str []),
      ("volume", .str (volumeOf s.path)), ("path", .str s.path), ("createFolder", .bool true),
      ("recycleBin", .bool false), ("hidden", .bool false),
      ("quota", .obj [("enabled", .bool false), ("size", .num "200"), ("unit", .str "GB"),
        ("warningPct", .num "80")]),
      ("smb", .obj [("networkName", .str s.name), ("minProtocol", .str "SMB2"),
        ("signing", .bool false), ("encryption", .bool false), ("timeMachine", .bool false),
        ("guest", .bool false), ("oplocks", .str "enabled"), ("hideDotFiles", .bool false),
        ("caseSensitivity", .str "insensitive"), ("comment", .str []),
        ("logAccess", .bool false)]),
      ("users", .arr (vu.map fun u => .obj [("username", .str u), ("role", .str (roleOf ulist u)),
        ("perm", .str perm.text)])),
      ("groups", .arr (vg.map fun g => .obj [("name", .str g), ("perm", .str perm.text)])),
      ("defaultPerm", .str perm.text), ("status", .str (statusOf s.enabled)),
      ("usedGB", .num "0"), ("connections", .num "0"), ("createdAt", .str []),
      ("modifiedAt", .str [])] }

def openedRule (perm : Access) (i : Nat) (client : Str) : Value :=
  .obj [("id", .num (Itoa (i + 1))), ("client", .str client), ("perm", .str perm.text),
    ("advOpen", .bool false), ("adv", defaultAdv.toJson)]

def openNFS (dto : ShareDTO) : NFSObject :=
  let s := dto.share
  let perm := permOf s.readOnly
  let clients := if s.allowedIPs ≠ [] then s.allowedIPs else ["*"]
  { name := s.name
    path := s.path
    rules := clients.map fun ip => (ip, perm)
    status := statusOf s.enabled
    json := .obj [("id", .num (Itoa dto.id)), ("name", .str s.name), ("description", .str []),
      ("volume", .str (volumeOf s.path)), ("path", .str s.path), ("createFolder", .bool true),
      ("logAccess", .bool false),
      ("versions", .obj [("v3", .bool true), ("v4", .bool true), ("v41", .bool false),
        ("v42", .bool false)]),
      ("nfsv4", .obj [("domain", .str "nas.local"), ("kerberos", .bool false), ("kdc", .str []),
        ("realm", .str []), ("kerberosMode", .str "krb5")]),
      ("rules", .arr (clients.mapIdx (openedRule perm))),
      ("global", .obj [("fsid", .bool false), ("fsidNum", .num "0"), ("acl", .bool false),
        ("pnfs", .bool false), ("sec", .str "sys"), ("description", .str [])]),
      ("status", .str (statusOf s.enabled)), ("createdAt", .str []), ("modifiedAt", .str [])] }

inductive Opened where
  | stored (members : List (Str × Value))
  | cifs (form : CIFSObject)
  | nfs (form : NFSObject)

/-- A configuration that is an object is the form, but for what the server says of the share. -/
def withServer (dto : ShareDTO) (ms : List (Str × Value)) : List (Str × Value) :=
  let server : List (Str × Value) :=
    [("id", .num (Itoa dto.id)), ("name", .str dto.share.name), ("path", .str dto.share.path),
      ("volume", .str (volumeOf dto.share.path)), ("status", .str (statusOf dto.share.enabled))]
  ms.filter (fun m => m.1 ∉ server.map (·.1)) ++ server

def mapShareFromAPI (dto : ShareDTO) (ulist : List Account) : Opened :=
  match dto.share.config with
  | some (.obj ms) => .stored (withServer dto ms)
  | some (.arr vs) => .stored (withServer dto (vs.mapIdx fun i v => (Itoa i, v)))
  | _ => if dto.share.protocol = SMB then .cifs (openCIFS dto ulist) else .nfs (openNFS dto)

/-- Saved under its id and read back, unless it is refused. -/
def saved (id : Int) (s : Share) : Option Share :=
  match validateShare s with
  | .error _ => none
  | .ok () => some (Row.ofShare id s).share

/-- The share after its form was opened and saved without a change, when the form is one of a share
without a configuration. -/
def resaved (dto : ShareDTO) (ulist : List Account) : Option Share :=
  match mapShareFromAPI dto ulist with
  | .stored _ => none
  | .cifs form => saved dto.id form.toAPI
  | .nfs form => saved dto.id form.toAPI

variable {dto : ShareDTO} {ulist : List Account} {U : PrintTable} {s : Share}

theorem saved_of_same (s s' : Share) (hv : validateShare s = .ok ()) (hname : s'.name = s.name)
    (hpath : s'.path = s.path) (hprotocol : s'.protocol = s.protocol) (id : Int) :
    saved id s' = some (Row.ofShare id s').share := by
  have hv' : validateShare s' = .ok () := by
    rw [← hv]
    unfold validateShare
    rw [hname, hpath, hprotocol]
  rw [saved, hv']

theorem resaved_smb (dto : ShareDTO) (hv : validateShare dto.share = .ok ())
    (hconfig : dto.share.config = none) (hsmb : dto.share.protocol = SMB) :
    resaved dto ulist = some (Row.ofShare dto.id (openCIFS dto ulist).toAPI).share := by
  simp only [resaved, mapShareFromAPI, hconfig, hsmb, if_true]
  exact saved_of_same dto.share (openCIFS dto ulist).toAPI hv rfl rfl hsmb.symm dto.id

theorem resaved_nfs (dto : ShareDTO) (hv : validateShare dto.share = .ok ())
    (hconfig : dto.share.config = none) (hnfs : dto.share.protocol = NFS) :
    resaved dto ulist = some (Row.ofShare dto.id (openNFS dto).toAPI).share := by
  have hne : (NFS : Str) ≠ SMB := by decide
  simp only [resaved, mapShareFromAPI, hconfig, hnfs, if_neg hne]
  exact saved_of_same dto.share (openNFS dto).toAPI hv rfl rfl hnfs.symm dto.id

/-- An entry that `loadAll` gives. -/
def Loaded (dto : ShareDTO) : Prop := ∀ x ∈ dto.share.allowedIPs ++ dto.share.validUsers, IsEntry x

theorem loaded_row (r : Row) : Loaded ⟨r.id, r.share⟩ := by
  intro x hx
  rcases List.mem_append.mp hx with hx | hx
  · exact isEntry_of_mem_splitCSV hx
  · exact isEntry_of_mem_splitCSV hx

/-! ## SMB -/

/-- The names with those of users first. -/
def usersFirst (us : List Str) : List Str :=
  (us.filter fun u => !HasPrefix u "@") ++ us.filter fun u => HasPrefix u "@"

theorem mem_usersFirst {us : List Str} {u : Str} : u ∈ usersFirst us ↔ u ∈ us := by
  simp only [usersFirst, List.mem_append, List.mem_filter, ← and_or_left, Bool.not_eq_true',
    and_iff_left_iff_imp]
  intro _
  cases HasPrefix u "@" <;> simp

theorem at_drop {u : Str} (hu : HasPrefix u "@" = true) : '@' :: u.drop 1 = u := by
  obtain ⟨rest, rfl⟩ := HasPrefix_iff.mp hu
  rfl

theorem openCIFS_validUsers (dto : ShareDTO) (ulist : List Account) :
    (openCIFS dto ulist).toAPI.validUsers = usersFirst dto.share.validUsers := by
  have hperm : (permOf dto.share.readOnly).perm ≠ .none := by
    cases dto.share.readOnly <;> exact nofun
  have hgroups : ((dto.share.validUsers.filter fun u => HasPrefix u "@").map (·.drop 1)).map
      (fun g => '@' :: g) = dto.share.validUsers.filter fun u => HasPrefix u "@" := by
    rw [List.map_map]
    conv_rhs => rw [← List.map_id (dto.share.validUsers.filter _)]
    exact List.map_congr_left fun u hu => at_drop (List.mem_filter.mp hu).2
  simp only [CIFSObject.toAPI, openCIFS, List.filter_map, List.map_map, Function.comp_def, ne_eq,
    hperm, not_false_eq_true, decide_true, List.filter_true, List.map_id', Bool.false_eq_true,
    if_false, usersFirst]
  rw [← hgroups]
  simp [Function.comp_def]

theorem validUsers_resaved (ulist : List Account) (hloaded : Loaded dto) :
    (Row.ofShare dto.id (openCIFS dto ulist).toAPI).share.validUsers =
      usersFirst dto.share.validUsers := by
  have hentries : ∀ x ∈ usersFirst dto.share.validUsers, IsEntry x := fun x hx =>
    hloaded x (List.mem_append_right _ (mem_usersFirst.mp hx))
  rw [Row.share_ofShare]
  show splitCSV (joinCSV (openCIFS dto ulist).toAPI.validUsers) = _
  rw [openCIFS_validUsers, splitCSV_joinCSV_iff.mpr hentries]

theorem parameters_append_newline (t u : Str) :
    parameters (t ++ '\n' :: u) = parameters t ++ parameters u := by
  rw [parameters, lines_append_newline, List.filterMap_append]
  rfl

theorem parameters_lines (ls : List Str) (t : Str) :
    parameters (ls.flatMap (· ++ ['\n']) ++ t) = ls.flatMap parameters ++ parameters t := by
  induction ls with
  | nil => rfl
  | cons l ls ih =>
    have hcut : (l :: ls).flatMap (· ++ ['\n']) ++ t =
        l ++ '\n' :: (ls.flatMap (· ++ ['\n']) ++ t) := by simp
    rw [hcut, parameters_append_newline, ih, List.flatMap_cons, List.append_assoc]

/-- The lines of a section on what it shares and with whom. -/
def accessLines (s : Share) : List Str :=
  ('[' :: s.name ++ [']']) :: (smbAccess s).map paramLine

/-- A line of an option says nothing else. -/
theorem parameters_option {cfg : ShareConfig} {kv : Str × Str} (hkv : kv ∈ smbOptions cfg) :
    parameters (paramLine kv) = [(kv.1, trim isBlank kv.2)] := by
  obtain ⟨hkey, hvalue⟩ := smbOptions_areOptions cfg kv hkv
  have hkeys : ∀ k ∈ optionKeys, '\n' ∉ k := by decide
  have hline : '\n' ∉ paramLine kv := by simp [paramLine, hvalue, hkeys kv.1 hkey]
  rw [parameters, lines_of_not_mem hline, List.filterMap_cons,
    parameter_paramLine (isKey_of_mem kv.1 (List.mem_append_right _ hkey))]
  rfl

/-- The other parameters are read from those lines, one line each or not. -/
theorem setting_accessLines (s : Share) {key : Str} (hkey : key ∉ optionKeys) :
    setting key (sectionText s) =
      ((((accessLines s).flatMap parameters).filter (·.1 = key)).getLast?).map (·.2) := by
  have hsection : sectionText s = (accessLines s ++
      (smbOptions s.parseConfig).map paramLine).flatMap (· ++ ['\n']) ++ ['\n'] := by
    simp [sectionText, smbSection, smbParams, accessLines]
  have hoptions : (((smbOptions s.parseConfig).map paramLine).flatMap parameters).filter
      (·.1 = key) = [] := by
    refine List.filter_eq_nil_iff.mpr fun kv hkv => ?_
    obtain ⟨l, hl, hkv⟩ := List.mem_flatMap.mp hkv
    obtain ⟨o, ho, rfl⟩ := List.mem_map.mp hl
    rw [parameters_option ho, List.mem_singleton] at hkv
    rw [hkv, decide_eq_true_eq]
    rintro rfl
    exact hkey (smbOptions_areOptions _ o ho).1
  have hend : parameters ['\n'] = [] := rfl
  rw [setting, hsection, parameters_lines, hend, List.append_nil, List.flatMap_append,
    List.filter_append, hoptions, List.append_nil]

theorem setting_congr {s s' : Share} (hname : s'.name = s.name) (haccess : smbAccess s' = smbAccess s)
    {key : Str} (hkey : key ∉ optionKeys) :
    setting key (sectionText s') = setting key (sectionText s) := by
  have hlines : accessLines s' = accessLines s := by rw [accessLines, hname, haccess, accessLines]
  rw [setting_accessLines s' hkey, setting_accessLines s hkey, hlines]

/-- The names of users first or not, a section lists the same ones and is open to guests the same,
unless a name goes over a line and has moved. -/
theorem listed_resaved (s s' : Share) (hname : s'.name = s.name) (hpath : s'.path = s.path)
    (hreadOnly : s'.readOnly = s.readOnly) (husers : s'.validUsers = usersFirst s.validUsers)
    (hv : validateShare s = .ok ())
    (hreorder : (∀ u ∈ s.validUsers, '\n' ∉ u) ∨ usersFirst s.validUsers = s.validUsers) :
    (setting "guest ok" (sectionText s') = some ("yes" : Str) ↔
      setting "guest ok" (sectionText s) = some ("yes" : Str)) ∧
    ∀ n, n ∈ listed (sectionText s') ↔ n ∈ listed (sectionText s) := by
  rcases hreorder with hlines | horder
  · obtain ⟨hchars, -, -, hclean⟩ := validateShare_ok hv
    have hold : OneLine s :=
      ⟨name_chars hchars rfl, containsAny_false.mp hclean _ (by decide), hlines⟩
    have hnew : OneLine s' := by
      refine ⟨hname ▸ hold.name, hpath ▸ hold.path, fun u hu => hlines u ?_⟩
      rw [husers] at hu
      exact mem_usersFirst.mp hu
    constructor
    · rw [setting_guest hold, setting_guest hnew, husers, List.eq_nil_iff_forall_not_mem,
        List.eq_nil_iff_forall_not_mem]
      simp only [mem_usersFirst]
    · intro n
      rw [listed_section hold, listed_section hnew, husers]
      simp only [List.mem_flatMap, mem_usersFirst]
  · have haccess : smbAccess s' = smbAccess s := by
      rw [smbAccess, hpath, hreadOnly, husers, horder, smbAccess]
    have hsetting : ∀ {key : Str}, key ∉ optionKeys →
        setting key (sectionText s') = setting key (sectionText s) :=
      fun hkey => setting_congr hname haccess hkey
    refine ⟨by rw [hsetting (by decide)], fun n => ?_⟩
    rw [listed, hsetting (by decide), listed]

/-! ## NFS -/

/-- The options of a client, and the ids of those who are squashed. -/
structure Grant where
  options : Effective
  anonuid : Int
  anongid : Int
  deriving DecidableEq

/-- The last option `key=n`, or the default of 65534. -/
def idOption (key opts : Str) : Int :=
  (((opts.splitOn ',').filterMap fun w =>
    if HasPrefix w (key ++ "=") then Atoi (w.drop (key.length + 1)) else none).getLast?).getD 65534

def readGrant (opts : Str) : Grant :=
  ⟨readOptions opts, idOption "anonuid" opts, idOption "anongid" opts⟩

/-- `client(options)` -/
def readGranted (w : Str) : Str × Grant :=
  ((readClient w).1, readGrant (((w.dropWhile (· ≠ '(')).drop 1).takeWhile (· ≠ ')')))

/-- The clients of the share's line in `/etc/exports`, with what each is granted. -/
def granted (U : PrintTable) (s : Share) : Except Str (List (Str × Grant)) :=
  (exportLine U s).map fun line =>
    (words isBlank (line.drop (Quote U s.path).length)).map readGranted

/-- Nothing in the options ends them or the word they stand in. -/
def IsOptions (opts : Str) : Prop := ∀ c ∈ opts, isBlank c = false ∧ c ≠ ')'

theorem readGranted_client {client opts : Str} (hclient : Accepts client) (hopts : IsOptions opts) :
    readGranted (client ++ '(' :: opts ++ [')']) = (orStar client, readGrant opts) := by
  have hpre : ∀ c ∈ client, decide (c ≠ '(') = true := by
    intro c hc
    rw [decide_eq_true_eq]
    rintro rfl
    exact hclient.not_mem '(' (by decide) hc
  have hin : ∀ c ∈ opts, decide (c ≠ ')') = true := fun c hc => by simpa using (hopts c hc).2
  have hclose : ')' ∉ opts := fun hc => (hopts _ hc).2 rfl
  have hline : client ++ '(' :: opts ++ [')'] = client ++ '(' :: (opts ++ [')']) := by simp
  have hinside : (((client ++ '(' :: opts ++ [')']).dropWhile (· ≠ '(')).drop 1).takeWhile
      (· ≠ ')') = opts := by
    rw [hline, List.dropWhile_append_of_pos hpre, List.dropWhile_cons_of_neg (by simp),
      List.drop_succ_cons, List.drop_zero, List.takeWhile_append_of_pos hin]
    simp
  rw [readGranted, hinside, readClient_options (hclient.not_mem '(' (by decide)) hclose]

/-- The clients of a line that all have the same options. -/
theorem words_clients {opts : Str} {hosts : List Str} (hopts : IsOptions opts)
    (haccept : ∀ h ∈ hosts, Accepts h) :
    words isBlank ((hosts.map fun h => h ++ '(' :: opts ++ [')']).flatMap (' ' :: ·)) =
      hosts.map fun h => h ++ '(' :: opts ++ [')'] := by
  refine words_flatMap_cons rfl fun w hw => ?_
  obtain ⟨h, hh, rfl⟩ := List.mem_map.mp hw
  refine ⟨by simp, fun c hc => ?_⟩
  simp only [List.append_assoc, List.cons_append, List.mem_append, List.mem_cons,
    List.not_mem_nil, or_false] at hc
  rcases hc with hc | rfl | hc | rfl
  · cases hblank : isBlank c with
    | false => rfl
    | true =>
      simp only [isBlank, Bool.or_eq_true, decide_eq_true_eq] at hblank
      rcases hblank with rfl | rfl
      · exact absurd hc ((haccept h hh).not_mem ' ' (by decide))
      · exact absurd hc ((haccept h hh).not_mem '\t' (by decide))
  · rfl
  · exact (hopts c hc).1
  · rfl

theorem granted_ok {opts line : Str} {hosts : List Str} (hopts : IsOptions opts)
    (hclients : s.clients = hosts.map fun h => (h, opts)) (hline : exportLine U s = .ok line) :
    granted U s = .ok (hosts.map fun h => (orStar h, readGrant opts)) := by
  rw [granted, hline]
  unfold exportLine at hline
  split at hline
  · cases hline
  · split at hline
    · cases hline
    · rename_i text htext
      cases hline
      obtain ⟨haccept, rfl⟩ := (exportEach_ok_iff U).mp htext
      rw [hclients, List.forall_mem_map] at haccept
      rw [hclients, List.map_map]
      have hread : ∀ h ∈ hosts,
          readGranted (h ++ '(' :: opts ++ [')']) = (orStar h, readGrant opts) :=
        fun h hh => readGranted_client (haccept h hh) hopts
      have hwords := words_clients hopts haccept
      refine congrArg Except.ok ?_
      dsimp only [Function.comp_def]
      rw [List.drop_left, hwords, List.map_map]
      exact List.map_congr_left hread

/-- Whether a line is refused, and why, does not depend on the options. -/
theorem exportEach_error {o o' e : Str} {hosts : List Str}
    (herr : exportEach U (hosts.map fun h => (h, o)) = .error e) :
    exportEach U (hosts.map fun h => (h, o')) = .error e := by
  induction hosts with
  | nil => cases herr
  | cons h hosts ih =>
    simp only [List.map_cons, exportEach, exportClient] at herr ⊢
    split at herr
    · rename_i hbad
      split at hbad
      · rename_i hclient
        cases hbad
        cases herr
        rw [if_pos hclient]
      · cases hbad
    · rename_i hok
      split at hok
      · cases hok
      · rename_i hclient
        rw [if_neg hclient]
        split at herr
        · rename_i e' hrest
          cases herr
          rw [ih hrest]
        · cases herr

theorem exportLine_error {s' : Share} {o o' e : Str} {hosts : List Str} (hpath : s'.path = s.path)
    (hclients : s.clients = hosts.map fun h => (h, o))
    (hclients' : s'.clients = hosts.map fun h => (h, o')) (herr : exportLine U s = .error e) :
    exportLine U s' = .error e := by
  have hbadPath : badExportPath s' = badExportPath s := by unfold badExportPath; rw [hpath]
  unfold exportLine at herr ⊢
  rw [hpath, hbadPath]
  by_cases hbad : ContainsAny s.path "\n\"" = true
  · rw [if_pos hbad] at herr ⊢
    exact herr
  · rw [if_neg hbad] at herr ⊢
    cases hrest : exportEach U s.clients with
    | ok clients =>
      rw [hrest] at herr
      cases herr
    | error e' =>
      rw [hrest] at herr
      cases herr
      rw [hclients] at hrest
      rw [hclients', exportEach_error hrest]

/-- Two shares whose clients have options that read the same grant the same. -/
theorem granted_congr {s' : Share} {o o' : Str} {hosts : List Str} (hpath : s'.path = s.path)
    (ho : IsOptions o) (ho' : IsOptions o') (hsame : readGrant o' = readGrant o)
    (hclients : s.clients = hosts.map fun h => (h, o))
    (hclients' : s'.clients = hosts.map fun h => (h, o')) : granted U s' = granted U s := by
  cases hline : exportLine U s with
  | error e =>
    have hline' := exportLine_error hpath hclients hclients' hline
    rw [granted, granted, hline, hline']
    rfl
  | ok line =>
    cases hline' : exportLine U s' with
    | error e =>
      rw [exportLine_error hpath.symm hclients' hclients hline'] at hline
      cases hline
    | ok line' => rw [granted_ok ho hclients hline, granted_ok ho' hclients' hline', hsame]

/-- The hosts of a share that has no rules. -/
def Share.hosts (s : Share) : List Str := if s.allowedIPs = [] then ["*"] else s.allowedIPs

def legacyOpts (perm : Access) : Str := perm.text ++ ",sync,no_subtree_check"

/-- What `nfsRuleOpts` writes for a rule of a form that was opened. -/
def openedOpts (perm : Access) : Str := nfsRuleOpts ⟨[], perm.text, defaultAdv.options⟩

theorem readGrant_opened (perm : Access) :
    readGrant (openedOpts perm) = readGrant (legacyOpts perm) := by
  cases perm <;> decide +kernel

theorem isOptions_legacy (perm : Access) : IsOptions (legacyOpts perm) := by
  unfold IsOptions
  cases perm <;> decide

theorem isOptions_opened (perm : Access) : IsOptions (openedOpts perm) := by
  unfold IsOptions
  cases perm <;> decide

theorem clients_legacy (hconfig : s.config = none) :
    s.clients = s.hosts.map fun h => (h, legacyOpts (permOf s.readOnly)) := by
  have hparse : s.parseConfig = .zero := by rw [Share.parseConfig, hconfig]
  rw [Share.clients, hparse, if_neg (by simp [ShareConfig.zero]), Share.hosts, legacyOpts]
  cases s.readOnly <;> rfl

theorem read_openedRule (perm : Access) (i : Nat) (client : Str) :
    readObj NFSRule.fields (openedRule perm i client) .zero =
      ⟨client, perm.text, defaultAdv.options⟩ := by
  have hread : readObj NFSRule.fields (openedRule perm i client) .zero =
      ⟨client, perm.text, readObj NFSAdv.fields defaultAdv.toJson .zero⟩ := rfl
  rw [hread, read_adv]

theorem rules_opened (dto : ShareDTO) :
    (openNFS dto).toAPI.parseConfig.rules = dto.share.hosts.map fun h =>
      ⟨h, (permOf dto.share.readOnly).text, defaultAdv.options⟩ := by
  have hrules : (openNFS dto).toAPI.parseConfig.rules =
      ((if dto.share.allowedIPs ≠ [] then dto.share.allowedIPs else ["*"]).mapIdx
        (openedRule (permOf dto.share.readOnly))).map fun v => readObj NFSRule.fields v .zero := rfl
  have hhosts : (if dto.share.allowedIPs ≠ [] then dto.share.allowedIPs else ["*"]) =
      dto.share.hosts := ite_not ..
  rw [hrules, hhosts]
  refine List.ext_getElem? fun i => ?_
  rw [List.getElem?_map, List.getElem?_mapIdx, List.getElem?_map, Option.map_map]
  exact congrArg (Option.map · _) (funext fun h => read_openedRule _ i h)

theorem hosts_entries (hloaded : Loaded dto) : ∀ h ∈ dto.share.hosts, IsEntry h := by
  unfold Share.hosts
  split
  · intro h hh
    rw [List.mem_singleton.mp hh]
    decide
  · exact fun h hh => hloaded h (List.mem_append_left _ hh)

theorem hosts_ne_nil (s : Share) : s.hosts ≠ [] := by
  unfold Share.hosts
  split
  · exact List.cons_ne_nil _ _
  · rename_i hne
    exact hne

theorem clients_resaved (hloaded : Loaded dto) :
    (Row.ofShare dto.id (openNFS dto).toAPI).share.clients =
      dto.share.hosts.map fun h => (h, openedOpts (permOf dto.share.readOnly)) := by
  have hparse : (Row.ofShare dto.id (openNFS dto).toAPI).share.parseConfig =
      (openNFS dto).toAPI.parseConfig := rfl
  have hne : (dto.share.hosts.map fun h =>
      (⟨h, (permOf dto.share.readOnly).text, defaultAdv.options⟩ : NFSRule)) ≠ [] :=
    fun hnil => hosts_ne_nil _ (List.map_eq_nil_iff.mp hnil)
  rw [Share.clients, hparse, rules_opened, if_pos hne, List.map_map]
  refine List.map_congr_left fun h hh => ?_
  have hentry := hosts_entries hloaded h hh
  have hclient : ruleClient ⟨h, (permOf dto.share.readOnly).text, defaultAdv.options⟩ = h := by
    rw [ruleClient, hentry.trimmed, if_neg hentry.some]
  rw [Function.comp_apply, hclient]
  rfl

/-- The exports line of an opened form grants what the one without rules did. -/
theorem granted_resaved (hloaded : Loaded dto) (hconfig : dto.share.config = none) :
    granted U (Row.ofShare dto.id (openNFS dto).toAPI).share = granted U dto.share :=
  granted_congr rfl (isOptions_legacy _) (isOptions_opened _) (readGrant_opened _)
    (clients_legacy hconfig) (clients_resaved hloaded)

/-! ## Both -/

/-- What the two files grant for a share is what they granted for it before. -/
structure Preserved (U : PrintTable) (old new : Share) : Prop where
  name : new.name = old.name
  path : new.path = old.path
  protocol : new.protocol = old.protocol
  readOnly : new.readOnly = old.readOnly
  enabled : new.enabled = old.enabled
  guest : old.protocol = SMB → (setting "guest ok" (sectionText new) = some ("yes" : Str) ↔
    setting "guest ok" (sectionText old) = some ("yes" : Str))
  users : old.protocol = SMB → ∀ n, n ∈ listed (sectionText new) ↔ n ∈ listed (sectionText old)
  clients : old.protocol = NFS → granted U new = granted U old

/-- The valid users of an SMB share are one line each, or the form has them in the same order. -/
def Reorderable (s : Share) : Prop :=
  s.protocol = SMB → (∀ u ∈ s.validUsers, '\n' ∉ u) ∨ usersFirst s.validUsers = s.validUsers

theorem enabled_statusOf (b : Bool) :
    (decide (statusOf b = []) || decide (statusOf b = ("active" : Str))) = b := by
  cases b <;> rfl

theorem readOnly_permOf (b : Bool) : decide ((permOf b).perm = .ro) = b := by cases b <;> rfl

theorem readOnly_rules {hosts : List Str} (hne : hosts ≠ []) (b : Bool) :
    decide ((hosts.map fun h => (h, permOf b)) ≠ [] ∧
      ∀ r ∈ hosts.map (fun h => (h, permOf b)), r.2 = .ro) = b := by
  obtain ⟨h, hs, rfl⟩ := List.exists_cons_of_ne_nil hne
  cases b <;> simp [permOf]

theorem readOnly_openNFS (dto : ShareDTO) : (openNFS dto).toAPI.readOnly = dto.share.readOnly := by
  have hrules : (openNFS dto).rules = dto.share.hosts.map fun h => (h, permOf dto.share.readOnly) :=
    congrArg (List.map _) (ite_not ..)
  rw [NFSObject.toAPI, hrules]
  exact readOnly_rules (hosts_ne_nil _) _

theorem preserved_smb (hv : validateShare dto.share = .ok ()) (hloaded : Loaded dto)
    (hsmb : dto.share.protocol = SMB) (hreorder : Reorderable dto.share) :
    Preserved U dto.share (Row.ofShare dto.id (openCIFS dto ulist).toAPI).share := by
  have hreadOnly : (Row.ofShare dto.id (openCIFS dto ulist).toAPI).share.readOnly =
      dto.share.readOnly :=
    (intToBool_boolToInt _).trans (readOnly_permOf _)
  have hlisted := listed_resaved dto.share (Row.ofShare dto.id (openCIFS dto ulist).toAPI).share rfl
    rfl hreadOnly (validUsers_resaved ulist hloaded) hv (hreorder hsmb)
  have hnfs : dto.share.protocol ≠ NFS := by rw [hsmb]; decide
  exact {
    name := rfl
    path := rfl
    protocol := hsmb.symm
    readOnly := hreadOnly
    enabled := (intToBool_boolToInt _).trans (enabled_statusOf _)
    guest := fun _ => hlisted.1
    users := fun _ => hlisted.2
    clients := fun h => absurd h hnfs }

theorem preserved_nfs (hloaded : Loaded dto) (hconfig : dto.share.config = none)
    (hnfs : dto.share.protocol = NFS) :
    Preserved U dto.share (Row.ofShare dto.id (openNFS dto).toAPI).share := by
  have hsmb : dto.share.protocol ≠ SMB := by rw [hnfs]; decide
  exact {
    name := rfl
    path := rfl
    protocol := hnfs.symm
    readOnly := (intToBool_boolToInt _).trans (readOnly_openNFS dto)
    enabled := (intToBool_boolToInt _).trans (enabled_statusOf _)
    guest := fun h => absurd h hsmb
    users := fun h => absurd h hsmb
    clients := fun _ => granted_resaved hloaded hconfig }

/-- Opened and saved without a change, a share that was stored without a configuration grants what
it granted before. -/
theorem resaved_preserved (U : PrintTable) (ulist : List Account) (id : Int) (s : ValidShare)
    (hconfig : s.share.config = none) (hreorder : Reorderable (Row.ofShare id s.share).share) :
    ∃ new, resaved ⟨id, (Row.ofShare id s.share).share⟩ ulist = some new ∧
      Preserved U (Row.ofShare id s.share).share new := by
  have hloaded := loaded_row (Row.ofShare id s.share)
  have hv : validateShare (Row.ofShare id s.share).share = .ok () := s.valid
  obtain ⟨-, hprotocol, -⟩ := validateShare_ok hv
  rcases hprotocol with hnfs | hsmb
  · exact ⟨_, resaved_nfs ⟨id, _⟩ hv hconfig hnfs, preserved_nfs hloaded hconfig hnfs⟩
  · exact ⟨_, resaved_smb ⟨id, _⟩ hv hconfig hsmb,
      preserved_smb hv hloaded hsmb hreorder⟩

def album (validUsers : List Str) : Share where
  name := "Album"
  path := "/mnt/data/album"
  protocol := SMB
  readOnly := false
  allowedIPs := []
  validUsers := validUsers
  enabled := true
  config := none

theorem album_valid (us : List Str) : validateShare (album us) = .ok () := by
  have hnobody : validateShare (album []) = .ok () := by decide +kernel
  unfold validateShare at hnobody ⊢
  exact hnobody

theorem resaved_preserved_album :
    ∃ new, resaved ⟨4, (Row.ofShare 4 (album ["@staff", "anna"])).share⟩ [] = some new ∧
      Preserved .asciiOnly (Row.ofShare 4 (album ["@staff", "anna"])).share new :=
  resaved_preserved .asciiOnly [] 4 ⟨album ["@staff", "anna"], album_valid _⟩ rfl
    fun _ => .inl (by decide +kernel)

/-- A group whose name goes over a line stands before a user: only the form lets the user in. -/
theorem anna_let_in :
    ¬ ∃ new, resaved ⟨4, (Row.ofShare 4 (album ["@staff\nold", "anna"])).share⟩ [] = some new ∧
      Preserved .asciiOnly (Row.ofShare 4 (album ["@staff\nold", "anna"])).share new := by
  rintro ⟨new, hnew, hpreserved⟩
  have husers := hpreserved.users rfl "anna"
  have hold : ("anna" : Str) ∉
      listed (sectionText (Row.ofShare 4 (album ["@staff\nold", "anna"])).share) := by decide +kernel
  have hread : ((resaved ⟨4, (Row.ofShare 4 (album ["@staff\nold", "anna"])).share⟩ []).map
      fun s => decide (("anna" : Str) ∈ listed (sectionText s))) = some true := by decide +kernel
  rw [hnew, Option.map_some, Option.some_inj, decide_eq_true_eq] at hread
  exact hold (husers.mp hread)

end Shares
end Nasd
