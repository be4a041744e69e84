import Nasd.Shares.Reload

/-!
# Nasd.Shares.Toggle

The button of `SharesView` that enables or disables a share (`handleToggle` of `src/js/app.js`). It
sends the whole share anew: the row as the page has it listed, opened as a form, mapped back, and
with the other `enabled`.

* `CIFSObject.ofMembers`, `NFSObject.ofMembers` — what the mappings read of a form that is an object.
* `toAPI_form`       — on the forms of `Nasd.Shares.Frontend` they are the mappings there.
* `FromForm`         — the columns of a row are those of the form in its configuration.
* `toggled_fromForm` — such a row is stored as it was, but for `enabled`.
-/

namespace Nasd
namespace Shares

open Text Go Json

/-! ## Objects -/

/-- `v.key` -/
def member (key : Str) : Value → Option Value
  | .obj ms => ms.lookup key
  | _ => none

def text : Option Value → Option Str
  | some (.str s) => some s
  | _ => none

/-- A text that may be absent. -/
def textOrNone : Option Value → Option Str
  | none => some []
  | some (.str s) => some s
  | _ => none

/-- A flag that may be absent. -/
def flag : Option Value → Option Bool
  | none => some false
  | some (.bool b) => some b
  | _ => none

def entries {α : Type} (read : Value → Option α) : Option Value → Option (List α)
  | some (.arr vs) => vs.mapM read
  | _ => none

def Perm.ofText (t : Str) : Option Perm := [Perm.none, .ro, .rw, .full].find? (·.text = t)

def Access.ofText (t : Str) : Option Access := [Access.ro, .rw].find? (·.text = t)

def readPerm (v : Option Value) : Option Perm := (text v).bind Perm.ofText

def readAccess (v : Option Value) : Option Access := (text v).bind Access.ofText

def readUser (v : Value) : Option (Str × Perm) := do
  let username ← text (member "username" v)
  let perm ← readPerm (member "perm" v)
  pure (username, perm)

def readGroup (v : Value) : Option (Str × Perm) := do
  let name ← text (member "name" v)
  let perm ← readPerm (member "perm" v)
  pure (name, perm)

def readRule (v : Value) : Option (Str × Access) := do
  let client ← text (member "client" v)
  let perm ← readAccess (member "perm" v)
  pure (client, perm)

/-- What `mapCIFSToAPI` reads of an object. There is none when the object is no form: where the
mapping would throw, or would take a value for a text or a flag that is none. -/
def CIFSObject.ofMembers (ms : List (Str × Value)) : Option CIFSObject := do
  let name ← text (member "name" (.obj ms))
  let path ← text (member "path" (.obj ms))
  let guest ← flag ((member "smb" (.obj ms)).bind (member "guest"))
  let users ← entries readUser (member "users" (.obj ms))
  let groups ← entries readGroup (member "groups" (.obj ms))
  let defaultPerm ← readPerm (member "defaultPerm" (.obj ms))
  let status ← textOrNone (member "status" (.obj ms))
  pure ⟨name, path, guest, users, groups, defaultPerm, status, .obj ms⟩

/-- What `mapNFSToAPI` reads of an object. -/
def NFSObject.ofMembers (ms : List (Str × Value)) : Option NFSObject := do
  let name ← text (member "name" (.obj ms))
  let path ← text (member "path" (.obj ms))
  let rules ← entries readRule (some ((member "rules" (.obj ms)).getD (.arr [])))
  let status ← textOrNone (member "status" (.obj ms))
  pure ⟨name, path, rules, status, .obj ms⟩

/-- `mapCIFSToAPI` on the tab of the CIFS shares, `mapNFSToAPI` on the other. -/
def Opened.toAPI (protocol : Protocol) : Opened → Option Share
  | .stored ms =>
    if protocol = SMB then (CIFSObject.ofMembers ms).map CIFSObject.toAPI
    else (NFSObject.ofMembers ms).map NFSObject.toAPI
  | .cifs form => some form.toAPI
  | .nfs form => some form.toAPI

/-- `handleToggle` -/
def toggled (dto : ShareDTO) (ulist : List Account) : Option Share :=
  ((mapShareFromAPI dto ulist).toAPI dto.share.protocol).map fun s =>
    { s with enabled := !dto.share.enabled }

/-! ## Typed forms -/

theorem entries_map {α β : Type} {read : Value → Option β} {toJson : α → Value} {f : α → β}
    (hread : ∀ a, read (toJson a) = some (f a)) (l : List α) :
    entries read (some (.arr (l.map toJson))) = some (l.map f) := by
  show (l.map toJson).mapM read = some (l.map f)
  induction l with
  | nil => rfl
  | cons a l ih => simp [List.mapM_cons, hread a, ih]

theorem Perm.ofText_text (p : Perm) : Perm.ofText p.text = some p := by
  cases p <;> rfl

theorem Access.ofText_text (p : Access) : Access.ofText p.text = some p := by
  cases p <;> rfl

theorem readUser_toJson (u : UserPerm) : readUser u.toJson = some (u.username.text, u.perm) := by
  have hperm : readPerm (member "perm" u.toJson) = some u.perm := u.perm.ofText_text
  rw [readUser, hperm]
  rfl

theorem readGroup_toJson (g : GroupPerm) : readGroup g.toJson = some (g.name.text, g.perm) := by
  have hperm : readPerm (member "perm" g.toJson) = some g.perm := g.perm.ofText_text
  rw [readGroup, hperm]
  rfl

theorem readRule_toJson (r : RuleForm) : readRule r.toJson = some (r.client.text, r.perm) := by
  have hperm : readAccess (member "perm" r.toJson) = some r.perm := r.perm.ofText_text
  rw [readRule, hperm]
  rfl

/-- The status of a form is not among its other members. -/
def ShareForm.OwnStatus : ShareForm → Prop
  | .cifs form => ("status" : Str) ∉ form.rest.members.map Prod.fst
  | .nfs form => ("status" : Str) ∉ form.rest.members.map Prod.fst

instance : (form : ShareForm) → Decidable form.OwnStatus
  | .cifs form => inferInstanceAs (Decidable (_ ∉ form.rest.members.map Prod.fst))
  | .nfs form => inferInstanceAs (Decidable (_ ∉ form.rest.members.map Prod.fst))

theorem lookup_eq_none {ms : List (Str × Value)} {key : Str} (h : key ∉ ms.map Prod.fst) :
    ms.lookup key = none := by
  rw [List.lookup_eq_none_iff]
  intro m hm
  simpa using fun heq : key = m.1 => h (heq ▸ List.mem_map_of_mem hm)

theorem textOrNone_status (status : Option Line) {ms : List (Str × Value)}
    (h : ("status" : Str) ∉ ms.map Prod.fst) :
    textOrNone ((statusMember status ++ ms).lookup ("status" : Str)) = some (statusText status) := by
  cases status with
  | none =>
    show textOrNone (ms.lookup ("status" : Str)) = _
    rw [lookup_eq_none h]
    rfl
  | some l => rfl

theorem CIFSObject.ofMembers_form (form : CIFSForm) (h : (ShareForm.cifs form).OwnStatus) :
    CIFSObject.ofMembers (ShareForm.cifs form).members = some form.object := by
  have husers : entries readUser (member "users" (.obj (ShareForm.cifs form).members)) =
      some (form.users.map fun u => (u.username.text, u.perm)) := entries_map readUser_toJson _
  have hgroups : entries readGroup (member "groups" (.obj (ShareForm.cifs form).members)) =
      some (form.groups.map fun g => (g.name.text, g.perm)) := entries_map readGroup_toJson _
  have hperm : readPerm (member "defaultPerm" (.obj (ShareForm.cifs form).members)) =
      some form.defaultPerm := form.defaultPerm.ofText_text
  have hstatus : textOrNone (member "status" (.obj (ShareForm.cifs form).members)) =
      some (statusText form.status) := textOrNone_status form.status h
  simp only [CIFSObject.ofMembers, husers, hgroups, hperm, hstatus]
  rfl

theorem NFSObject.ofMembers_form (form : NFSForm) (h : (ShareForm.nfs form).OwnStatus) :
    NFSObject.ofMembers (ShareForm.nfs form).members = some form.object := by
  have hrules : entries readRule
      (some ((member "rules" (.obj (ShareForm.nfs form).members)).getD (.arr []))) =
      some (form.rules.map fun r => (r.client.text, r.perm)) := entries_map readRule_toJson _
  have hstatus : textOrNone (member "status" (.obj (ShareForm.nfs form).members)) =
      some (statusText form.status) := textOrNone_status form.status h
  simp only [NFSObject.ofMembers, hrules, hstatus]
  rfl

theorem toAPI_form (form : ShareForm) (h : form.OwnStatus) :
    (Opened.stored form.members).toAPI form.toAPI.protocol = some form.toAPI := by
  cases form with
  | cifs form =>
    have hsmb : (ShareForm.cifs form).toAPI.protocol = SMB := rfl
    rw [Opened.toAPI, if_pos hsmb, CIFSObject.ofMembers_form form h]
    exact congrArg some (mapCIFSToAPI_object form).symm
  | nfs form =>
    have hnfs : (ShareForm.nfs form).toAPI.protocol ≠ SMB := by
      show NFS ≠ SMB
      decide
    rw [Opened.toAPI, if_neg hnfs, NFSObject.ofMembers_form form h]
    exact congrArg some (mapNFSToAPI_object form).symm

variable {ms : List (Str × Value)} {dto : ShareDTO} {s : Share} {r : Row} {protocol : Protocol}

/-! ## One row -/

theorem member_withServer (key : Str) (hkey : key ∉ serverKeys) :
    member key (.obj (withServer dto ms)) = member key (.obj ms) := by
  show (withServer dto ms).lookup key = ms.lookup key
  rw [lookup_withServer, if_neg hkey]

theorem member_server (key : Str) (hkey : key ∈ serverKeys) :
    member key (.obj (withServer dto ms)) = (serverMembers dto).lookup key := by
  show (withServer dto ms).lookup key = _
  rw [lookup_withServer, if_pos hkey]

theorem status_eq (enabled : Bool) :
    (statusOf enabled = [] || statusOf enabled = ("active" : Str)) = enabled := by
  cases enabled <;> decide

theorem CIFSObject.ofMembers_withServer {o : CIFSObject} (h : CIFSObject.ofMembers ms = some o) :
    CIFSObject.ofMembers (withServer dto ms) =
      some { o with
        name := dto.share.name
        path := dto.share.path
        status := statusOf dto.share.enabled
        json := .obj (withServer dto ms) } := by
  simp only [CIFSObject.ofMembers, Option.bind_eq_bind, Option.bind_eq_some_iff] at h
  obtain ⟨name, -, path, -, guest, hguest, users, husers, groups, hgroups, perm, hperm, status, -,
    ho⟩ := h
  cases ho
  have hname : member "name" (.obj (withServer dto ms)) = some (.str dto.share.name) :=
    member_server _ (by decide)
  have hpath : member "path" (.obj (withServer dto ms)) = some (.str dto.share.path) :=
    member_server _ (by decide)
  have hstatus : member "status" (.obj (withServer dto ms)) =
      some (.str (statusOf dto.share.enabled)) := member_server _ (by decide)
  simp only [CIFSObject.ofMembers, hname, hpath, hstatus,
    member_withServer "smb" (by decide), member_withServer "users" (by decide),
    member_withServer "groups" (by decide),
    member_withServer "defaultPerm" (by decide), hguest, husers, hgroups, hperm]
  rfl

theorem NFSObject.ofMembers_withServer {o : NFSObject} (h : NFSObject.ofMembers ms = some o) :
    NFSObject.ofMembers (withServer dto ms) =
      some { o with
        name := dto.share.name
        path := dto.share.path
        status := statusOf dto.share.enabled
        json := .obj (withServer dto ms) } := by
  simp only [NFSObject.ofMembers, Option.bind_eq_bind, Option.bind_eq_some_iff] at h
  obtain ⟨name, -, path, -, rules, hrules, status, -, ho⟩ := h
  cases ho
  have hname : member "name" (.obj (withServer dto ms)) = some (.str dto.share.name) :=
    member_server _ (by decide)
  have hpath : member "path" (.obj (withServer dto ms)) = some (.str dto.share.path) :=
    member_server _ (by decide)
  have hstatus : member "status" (.obj (withServer dto ms)) =
      some (.str (statusOf dto.share.enabled)) := member_server _ (by decide)
  simp only [NFSObject.ofMembers, hname, hpath, hstatus,
    member_withServer "rules" (by decide), hrules]
  rfl

/-- A form opened and mapped back is the share that the form is of, under what the server says. -/
theorem toAPI_withServer (dto : ShareDTO) (h : (Opened.stored ms).toAPI protocol = some s) :
    (Opened.stored (withServer dto ms)).toAPI protocol =
      some { s with
        name := dto.share.name
        path := dto.share.path
        enabled := dto.share.enabled
        config := some (.obj (withServer dto ms)) } := by
  rw [Opened.toAPI] at h ⊢
  by_cases hsmb : protocol = SMB
  · rw [if_pos hsmb, Option.map_eq_some_iff] at h
    obtain ⟨o, ho, rfl⟩ := h
    rw [if_pos hsmb, CIFSObject.ofMembers_withServer ho, Option.map_some, CIFSObject.toAPI]
    simp only [status_eq]
    rfl
  · rw [if_neg hsmb, Option.map_eq_some_iff] at h
    obtain ⟨o, ho, rfl⟩ := h
    rw [if_neg hsmb, NFSObject.ofMembers_withServer ho, Option.map_some, NFSObject.toAPI]
    simp only [status_eq]
    rfl

theorem CIFSObject.ofMembers_json {o : CIFSObject} (h : CIFSObject.ofMembers ms = some o) :
    o.json = .obj ms := by
  simp only [CIFSObject.ofMembers, Option.bind_eq_bind, Option.bind_eq_some_iff] at h
  obtain ⟨_, -, _, -, _, -, _, -, _, -, _, -, _, -, ho⟩ := h
  cases ho
  rfl

theorem NFSObject.ofMembers_json {o : NFSObject} (h : NFSObject.ofMembers ms = some o) :
    o.json = .obj ms := by
  simp only [NFSObject.ofMembers, Option.bind_eq_bind, Option.bind_eq_some_iff] at h
  obtain ⟨_, -, _, -, _, -, _, -, ho⟩ := h
  cases ho
  rfl

theorem toAPI_stored (h : (Opened.stored ms).toAPI protocol = some s) :
    s.config = some (.obj ms) ∧ (Opened.stored ms).toAPI s.protocol = some s := by
  rw [Opened.toAPI] at h
  by_cases hsmb : protocol = SMB
  · rw [if_pos hsmb, Option.map_eq_some_iff] at h
    obtain ⟨o, ho, rfl⟩ := h
    have hprotocol : o.toAPI.protocol = SMB := rfl
    refine ⟨congrArg some (CIFSObject.ofMembers_json ho), ?_⟩
    rw [Opened.toAPI, if_pos hprotocol, ho]
    rfl
  · rw [if_neg hsmb, Option.map_eq_some_iff] at h
    obtain ⟨o, ho, rfl⟩ := h
    have hprotocol : o.toAPI.protocol ≠ SMB := by
      show NFS ≠ SMB
      decide
    refine ⟨congrArg some (NFSObject.ofMembers_json ho), ?_⟩
    rw [Opened.toAPI, if_neg hprotocol, ho]
    rfl

/-- The row is what the page stores of a form, whatever `enabled` is. -/
def FromForm (r : Row) : Prop :=
  ∃ ms s, (Opened.stored ms).toAPI r.protocol = some s ∧
    r = .ofShare r.id { s with enabled := intToBool r.enabled }

theorem fromForm_ofShare (h : (Opened.stored ms).toAPI protocol = some s) (id : Int)
    (enabled : Bool) : FromForm (.ofShare id { s with enabled := enabled }) := by
  refine ⟨ms, s, (toAPI_stored h).2, ?_⟩
  show Row.ofShare id _ = Row.ofShare id { s with enabled := intToBool (boolToInt enabled) }
  rw [intToBool_boolToInt]

/-- What a share is set to. The members of its form that the server says are those of its columns. -/
structure Setting where
  name : Str
  path : Str
  protocol : Protocol
  readOnly : Bool
  allowedIPs : List Str
  validUsers : List Str
  enabled : Bool
  member : Str → Option Value

def Share.setting (s : Share) : Setting where
  name := s.name
  path := s.path
  protocol := s.protocol
  readOnly := s.readOnly
  allowedIPs := s.allowedIPs
  validUsers := s.validUsers
  enabled := s.enabled
  member key := if key ∈ serverKeys then none else s.config.bind (member key)

def Setting.flip (x : Setting) : Setting := { x with enabled := !x.enabled }

theorem Setting.flip_inj {x y : Setting} (h : x.flip = y.flip) : x = y := by
  obtain ⟨⟩ := x
  obtain ⟨⟩ := y
  simpa [Setting.flip] using h

/-- What is sent for a row that was stored of a form is stored as the row was, but for `enabled`. -/
theorem toggled_fromForm (h : FromForm r) (ulist : List Account) :
    ∃ s, toggled ⟨r.id, r.share⟩ ulist = some s ∧ FromForm (.ofShare r.id s) ∧
      (Row.ofShare r.id s).share.setting = r.share.setting.flip := by
  obtain ⟨ms, s, hs, hr⟩ := h
  have hshare : r.share = { s with
      allowedIPs := splitCSV (joinCSV s.allowedIPs)
      validUsers := splitCSV (joinCSV s.validUsers)
      enabled := intToBool r.enabled } := by
    conv_lhs => rw [hr]
    exact Row.share_ofShare _ _
  have hconfig : r.share.config = some (.obj ms) := by
    rw [hshare]
    exact (toAPI_stored hs).1
  have hopened : mapShareFromAPI ⟨r.id, r.share⟩ ulist =
      .stored (withServer ⟨r.id, r.share⟩ ms) := by
    rw [mapShareFromAPI, hconfig]
  have hback := toAPI_withServer ⟨r.id, r.share⟩ hs
  refine ⟨_, by rw [toggled, hopened]; exact congrArg _ hback,
    fromForm_ofShare hback r.id !r.share.enabled, ?_⟩
  rw [Row.share_ofShare]
  simp only [Share.setting, Setting.flip, Option.bind_some, Setting.mk.injEq, hshare, true_and]
  refine funext fun key => ?_
  split
  · rfl
  · rename_i hkey
    rw [(toAPI_stored hs).1]
    exact member_withServer key hkey

end Shares
end Nasd
