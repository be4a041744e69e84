import Nasd.Shares.Table

/-!
# Nasd.Shares.Frontend

The share forms of the web UI (`frontend/src/js/app.js`) and the requests made of them.

* `mapCIFSToAPI`, `mapNFSToAPI` — the share that a form asks for, as the handlers decode it. The
  whole form travels along as the share's configuration.
* `preview`                     — the text that `NFSRulesEditor` shows.
* `parseConfig_cifs`, `parseConfig_nfs` — what the generators read of the form.

The members of a form that no generator has a field for (description, volume, quota, dates and so
on) are kept in `rest`, whatever they hold.
-/

namespace Nasd
namespace Shares

open Text Go Json

/-- What a text input, or an entry of a list of names, holds: one line. -/
structure Line where
  text : Str
  oneLine : '\n' ∉ text

/-- Members of a form that the generators do not know. -/
structure Rest where
  members : List (Str × Value)
  unknown : ∀ m ∈ members, findField ShareConfig.fields m.1 = none

def Rest.none : Rest := ⟨[], by simp⟩

/-! ## CIFS -/

inductive Perm where
  | none | ro | rw | full
  deriving DecidableEq

def Perm.text : Perm → Str
  | .none => "none"
  | .ro => "ro"
  | .rw => "rw"
  | .full => "full"

structure UserPerm where
  username : Line
  role : Line
  perm : Perm

structure GroupPerm where
  name : Line
  perm : Perm

structure SMBForm where
  networkName : Line
  minProtocol : Line
  signing : Bool
  encryption : Bool
  timeMachine : Bool
  guest : Bool
  oplocks : Line
  hideDotFiles : Bool
  caseSensitivity : Line
  comment : Line
  logAccess : Bool

/-- `status` is set on a share that is being edited. -/
structure CIFSForm where
  name : Line
  path : Line
  recycleBin : Bool
  smb : SMBForm
  users : List UserPerm
  groups : List GroupPerm
  defaultPerm : Perm
  status : Option Line
  rest : Rest

def UserPerm.toJson (u : UserPerm) : Value :=
  .obj [("username", .str u.username.text), ("role", .str u.role.text), ("perm", .str u.perm.text)]

def GroupPerm.toJson (g : GroupPerm) : Value :=
  .obj [("name", .str g.name.text), ("perm", .str g.perm.text)]

def SMBForm.toJson (o : SMBForm) : Value :=
  .obj [("networkName", .str o.networkName.text), ("minProtocol", .str o.minProtocol.text),
    ("signing", .bool o.signing), ("encryption", .bool o.encryption),
    ("timeMachine", .bool o.timeMachine), ("guest", .bool o.guest),
    ("oplocks", .str o.oplocks.text), ("hideDotFiles", .bool o.hideDotFiles),
    ("caseSensitivity", .str o.caseSensitivity.text), ("comment", .str o.comment.text),
    ("logAccess", .bool o.logAccess)]

def statusMember : Option Line → List (Str × Value)
  | some l => [("status", .str l.text)]
  | none => []

def CIFSForm.members (form : CIFSForm) : List (Str × Value) :=
  [("name", .str form.name.text), ("path", .str form.path.text),
    ("recycleBin", .bool form.recycleBin), ("smb", form.smb.toJson),
    ("users", .arr (form.users.map UserPerm.toJson)),
    ("groups", .arr (form.groups.map GroupPerm.toJson)),
    ("defaultPerm", .str form.defaultPerm.text)]

def CIFSForm.toJson (form : CIFSForm) : Value :=
  .obj (form.members ++ (statusMember form.status ++ form.rest.members))

/-- `form.status ? form.status === "active" : true` -/
def isActive : Option Line → Bool
  | some l => l.text = [] || l.text = ("active" : Str)
  | none => true

/-- The users, and the groups with an `@`, whose permission is not `none`. -/
def CIFSForm.permitted (form : CIFSForm) : List Str :=
  (form.users.filter (·.perm ≠ .none)).map (·.username.text) ++
    (form.groups.filter (·.perm ≠ .none)).map fun g => '@' :: g.name.text

def mapCIFSToAPI (form : CIFSForm) : Share where
  name := form.name.text
  path := form.path.text
  protocol := SMB
  readOnly := form.defaultPerm = .ro
  allowedIPs := []
  validUsers := if form.smb.guest then [] else form.permitted
  enabled := isActive form.status
  config := some form.toJson

/-! ## NFS -/

inductive Access where
  | ro | rw
  deriving DecidableEq

def Access.text : Access → Str
  | .ro => "ro"
  | .rw => "rw"

/-- `anonuid` and `anongid` are numbers as `JSON.stringify` writes them; it writes `null`, here
`none`, for one that is not finite. -/
structure AdvForm where
  sync : Bool
  noRootSquash : Bool
  rootSquash : Bool
  allSquash : Bool
  anonuid : Option Str
  anongid : Option Str
  noSubtreeCheck : Bool
  secure : Bool
  crossmnt : Bool
  deriving DecidableEq

/-- `id` is a number as `JSON.stringify` writes it. -/
structure RuleForm where
  id : Str
  client : Line
  perm : Access
  advOpen : Bool
  adv : AdvForm

structure NFSForm where
  name : Line
  path : Line
  versions : NFSVersions
  rules : List RuleForm
  status : Option Line
  rest : Rest

def numOrNull : Option Str → Value
  | some lit => .num lit
  | none => .null

def AdvForm.toJson (a : AdvForm) : Value :=
  .obj [("sync", .bool a.sync), ("noRootSquash", .bool a.noRootSquash),
    ("rootSquash", .bool a.rootSquash), ("allSquash", .bool a.allSquash),
    ("anonuid", numOrNull a.anonuid), ("anongid", numOrNull a.anongid),
    ("noSubtreeCheck", .bool a.noSubtreeCheck), ("secure", .bool a.secure),
    ("crossmnt", .bool a.crossmnt)]

def RuleForm.toJson (r : RuleForm) : Value :=
  .obj [("id", .num r.id), ("client", .str r.client.text), ("perm", .str r.perm.text),
    ("advOpen", .bool r.advOpen), ("adv", r.adv.toJson)]

def versionsJson (v : NFSVersions) : Value :=
  .obj [("v3", .bool v.v3), ("v4", .bool v.v4), ("v41", .bool v.v41), ("v42", .bool v.v42)]

def NFSForm.members (form : NFSForm) : List (Str × Value) :=
  [("name", .str form.name.text), ("path", .str form.path.text),
    ("versions", versionsJson form.versions), ("rules", .arr (form.rules.map RuleForm.toJson))]

def NFSForm.toJson (form : NFSForm) : Value :=
  .obj (form.members ++ (statusMember form.status ++ form.rest.members))

def mapNFSToAPI (form : NFSForm) : Share where
  name := form.name.text
  path := form.path.text
  protocol := NFS
  readOnly := form.rules ≠ [] ∧ ∀ r ∈ form.rules, r.perm = .ro
  allowedIPs := (form.rules.map (·.client.text)).filter (· ≠ [])
  validUsers := []
  enabled := isActive form.status
  config := some form.toJson

/-! ## Preview -/

def previewOpts (r : RuleForm) : List Str :=
  r.perm.text ::
  (if r.adv.sync then "sync" else "async") ::
  ((if r.adv.noRootSquash then [("no_root_squash" : Str)]
    else if r.adv.rootSquash then ["root_squash"] else []) ++
  (if r.adv.allSquash then [("all_squash" : Str)] else []) ++
  (if r.adv.noSubtreeCheck then [("no_subtree_check" : Str)] else []) ++
  (if !r.adv.secure then [("insecure" : Str)] else []) ++
  (if r.adv.crossmnt then [("crossmnt" : Str)] else []))

/-- `path||"/mnt/..."` -/
def shownPath (path : Str) : Str := if path = [] then "/mnt/..." else path

def previewLine (exportPath : Str) (r : RuleForm) : Str :=
  if r.client.text = [] then []
  else shownPath exportPath ++
    ' ' :: r.client.text ++ '(' :: Join (previewOpts r) "," ++ [')']

def noRulesText : Str := "# Add client rules above"

/-- The preview of `NFSRulesEditor`. -/
def preview (rules : List RuleForm) (exportPath : Str) : Str :=
  let text := unlines ((rules.map (previewLine exportPath)).filter (· ≠ []))
  if text = [] then noRulesText else text

/-- `NFSModal` shows the preview for the form's path. -/
def NFSForm.preview (form : NFSForm) : Str :=
  Shares.preview form.rules (shownPath form.path.text)

/-! ## What the generators read -/

theorem readObj_rest (rest : Rest) (c : ShareConfig) :
    readObj ShareConfig.fields (.obj rest.members) c = c := by
  obtain ⟨ms, hms⟩ := rest
  induction ms with
  | nil => rfl
  | cons m ms ih =>
    have hunknown : findField ShareConfig.fields m.1 = none := hms m List.mem_cons_self
    simp only [readObj_skip hunknown]
    exact ih fun m hm => hms m (List.mem_cons_of_mem _ hm)

theorem readObj_status (status : Option Line) (rest : Rest) (c : ShareConfig) :
    readObj ShareConfig.fields (.obj (statusMember status ++ rest.members)) c = c := by
  rw [readObj_append, readObj_rest]
  cases status with
  | none => rfl
  | some l => rfl

def SMBForm.options (o : SMBForm) : SMBOptions where
  minProtocol := o.minProtocol.text
  signing := o.signing
  encryption := o.encryption
  timeMachine := o.timeMachine
  guest := o.guest
  oplocks := o.oplocks.text
  hideDotFiles := o.hideDotFiles
  caseSensitivity := o.caseSensitivity.text
  comment := o.comment.text

theorem parseConfig_cifs (form : CIFSForm) :
    (mapCIFSToAPI form).parseConfig = ⟨form.recycleBin, form.smb.options, [], .zero⟩ := by
  have hconfig : (mapCIFSToAPI form).parseConfig =
      readObj ShareConfig.fields form.toJson .zero := rfl
  rw [hconfig, CIFSForm.toJson, readObj_append, readObj_status]
  rfl

def readId (o : Option Str) : Int := (o.bind parseInt).getD 0

def AdvForm.options (a : AdvForm) : NFSAdv where
  sync := a.sync
  noRootSquash := a.noRootSquash
  rootSquash := a.rootSquash
  allSquash := a.allSquash
  anonuid := readId a.anonuid
  anongid := readId a.anongid
  noSubtreeCheck := a.noSubtreeCheck
  secure := a.secure
  crossmnt := a.crossmnt

def RuleForm.rule (r : RuleForm) : NFSRule := ⟨r.client.text, r.perm.text, r.adv.options⟩

theorem read_numOrNull (o : Option Str) : readInt (numOrNull o) 0 = readId o := by
  cases o <;> rfl

theorem read_adv (a : AdvForm) : readObj NFSAdv.fields a.toJson .zero = a.options := by
  have hread : readObj NFSAdv.fields a.toJson .zero =
      ⟨a.sync, a.noRootSquash, a.rootSquash, a.allSquash, readInt (numOrNull a.anonuid) 0,
        readInt (numOrNull a.anongid) 0, a.noSubtreeCheck, a.secure, a.crossmnt⟩ := rfl
  rw [hread, read_numOrNull, read_numOrNull]
  rfl

theorem read_rule (r : RuleForm) : readObj NFSRule.fields r.toJson .zero = r.rule := by
  have hread : readObj NFSRule.fields r.toJson .zero =
      ⟨r.client.text, r.perm.text, readObj NFSAdv.fields r.adv.toJson .zero⟩ := rfl
  rw [hread, read_adv]
  rfl

theorem parseConfig_nfs (form : NFSForm) :
    (mapNFSToAPI form).parseConfig =
      ⟨false, .zero, form.rules.map RuleForm.rule, form.versions⟩ := by
  have hconfig : (mapNFSToAPI form).parseConfig =
      readObj ShareConfig.fields form.toJson .zero := rfl
  have hrules : (form.rules.map RuleForm.toJson).map (fun v => readObj NFSRule.fields v .zero) =
      form.rules.map RuleForm.rule := by
    rw [List.map_map]
    exact List.map_congr_left fun r _ => read_rule r
  rw [hconfig, NFSForm.toJson, readObj_append, readObj_status, ← hrules]
  rfl

end Shares
end Nasd
