import Nasd.Raid.Listing
import Nasd.Shares.Legacy

/-!
# Nasd.Shares.Reload

A form of the web UI that is saved and opened again: the whole of it is stored as the configuration
of the share, and what is opened is that configuration with the members of the server laid over it.
Among these is the volume, which is read off the path.

* `volumeOf_eq`     — the volume of a path is its second component.
* `reloaded_iff`    — the forms that come back as they were saved.
* `keepsVolume_iff` — the same for a form on a volume, by where that is mounted.
-/

namespace Nasd
namespace Shares

open Text Go Json

/-! ## Volumes -/

/-- `s.replace(old, "")` -/
def dropFirst (old : Str) : Str → Str
  | [] => []
  | c :: s => if HasPrefix (c :: s) old then (c :: s).drop old.length else c :: dropFirst old s

structure Volume where
  name : Str
  mount : Str
  deriving DecidableEq

/-- The volumes that the forms offer. -/
def volumes (fsList : List Raid.FilesystemInfo) : List Volume :=
  (fsList.filter fun fs => fs.mountPoint ≠ [] ∧ fs.fsType ≠ []).map fun fs =>
    ⟨dropFirst "/dev/" fs.device, fs.mountPoint⟩

/-- The second component of a path behind its first slash; a path with fewer has none. -/
def IsSecond (path part : Str) : Prop :=
  (path.splitOn '/')[2]? = some part ∨ ((path.splitOn '/').length ≤ 2 ∧ part = [])

variable {p part mount : Str}

theorem splitOn_head (q : Str) : ∃ rest, q.splitOn '/' = q.takeWhile (· ≠ '/') :: rest := by
  have hhead : '/' ∉ q.takeWhile (· ≠ '/') := fun hmem => by
    simpa using List.mem_takeWhile_imp hmem
  have hparts : q.takeWhile (· ≠ '/') ++ q.dropWhile (· ≠ '/') = q :=
    List.takeWhile_append_dropWhile
  cases hrest : q.dropWhile (· ≠ '/') with
  | nil =>
    rw [hrest, List.append_nil] at hparts
    rw [hparts] at hhead ⊢
    exact ⟨[], List.splitOn_eq_singleton hhead⟩
  | cons c r =>
    have hc : c = '/' := by
      have hnot := List.head?_dropWhile_not (fun c => decide (c ≠ '/')) q
      rw [hrest] at hnot
      simpa using hnot
    rw [hrest, hc] at hparts
    refine ⟨r.splitOn '/', ?_⟩
    conv_lhs => rw [← hparts]
    rw [List.splitOn_append_cons_self, List.splitOn_eq_singleton hhead]
    rfl

/-- A path below `/mnt` is no exception. -/
theorem volumeOf_eq (path : Str) : volumeOf path = ((path.splitOn '/')[2]?).getD [] := by
  unfold volumeOf
  dsimp only
  by_cases hmnt : HasPrefix path "/mnt/" = true
  · rw [if_pos hmnt]
    split
    · obtain ⟨q, rfl⟩ := HasPrefix_iff.mp hmnt
      obtain ⟨rest, hrest⟩ := splitOn_head q
      have hsplit : (("/mnt/" : Str) ++ q).splitOn '/' = [] :: "mnt" :: q.splitOn '/' := by
        have hcut : ("/mnt/" : Str) ++ q = "/mnt" ++ '/' :: q := rfl
        have hmount : ("/mnt" : Str).splitOn '/' = [[], "mnt"] := by decide
        rw [hcut, List.splitOn_append_cons_self, hmount]
        rfl
      rw [hsplit, hrest]
      rfl
    · rfl
  · rw [if_neg hmnt, if_neg (not_not.mpr rfl)]

theorem volumeOf_iff : volumeOf p = part ↔ IsSecond p part := by
  rw [volumeOf_eq, IsSecond]
  cases hget : (p.splitOn '/')[2]? with
  | none =>
    have hlen := List.getElem?_eq_none_iff.mp hget
    simp [hlen, eq_comm]
  | some second =>
    have hlen := (List.getElem?_eq_some_iff.mp hget).1
    have hnot : ¬ (p.splitOn '/').length ≤ 2 := by omega
    simp [hnot]

/-! ## Forms -/

inductive ShareForm where
  | cifs (form : CIFSForm)
  | nfs (form : NFSForm)

namespace ShareForm

/-- The form as an object. -/
def members : ShareForm → List (Str × Value)
  | .cifs form => form.members ++ (statusMember form.status ++ form.rest.members)
  | .nfs form => form.members ++ (statusMember form.status ++ form.rest.members)

def name : ShareForm → Str
  | .cifs form => form.name.text
  | .nfs form => form.name.text

def path : ShareForm → Str
  | .cifs form => form.path.text
  | .nfs form => form.path.text

def toAPI : ShareForm → Share
  | .cifs form => mapCIFSToAPI form
  | .nfs form => mapNFSToAPI form

/-- What a member of the form holds, if it is there. -/
def get (form : ShareForm) (key : Str) : Option Value := form.members.lookup key

variable {form : ShareForm}

theorem toAPI_config (form : ShareForm) : form.toAPI.config = some (.obj form.members) := by
  cases form <;> rfl

theorem get_name (form : ShareForm) : form.get "name" = some (.str form.toAPI.name) := by
  cases form <;> rfl

theorem get_path (form : ShareForm) : form.get "path" = some (.str form.toAPI.path) := by
  cases form <;> rfl

theorem toAPI_path (form : ShareForm) : form.toAPI.path = form.path := by
  cases form <;> rfl

/-- The selected volume is the second component of the path. -/
def KeepsVolume (form : ShareForm) : Prop :=
  ∃ vol, form.get "volume" = some (.str vol) ∧ IsSecond form.path vol

end ShareForm

/-! ## Reloading -/

/-- An opened form has every member of the saved one and no other, apart from the id and the
status. -/
structure Reloaded (form : ShareForm) (opened : Opened) : Prop where
  same : ∃ ms, opened = .stored ms ∧
    ∀ key : Str, key ≠ "id" → key ≠ "status" → ms.lookup key = form.get key

variable {dto : ShareDTO} {ms : List (Str × Value)} {key : Str}

/-- The members that the server says last. -/
def serverKeys : List Str := ["id", "name", "path", "volume", "status"]

theorem lookup_append {ns : List (Str × Value)} :
    (ms ++ ns).lookup key = (ms.lookup key).or (ns.lookup key) := by
  induction ms with
  | nil => rfl
  | cons m ms ih =>
    obtain ⟨k, v⟩ := m
    rw [List.cons_append, List.lookup_cons, List.lookup_cons]
    cases key == k with
    | true => rfl
    | false => exact ih

theorem lookup_filter (p : Str → Bool) (ms : List (Str × Value)) (key : Str) :
    (ms.filter fun m => p m.1).lookup key = if p key then ms.lookup key else none := by
  induction ms with
  | nil => simp
  | cons m ms ih =>
    obtain ⟨k, v⟩ := m
    by_cases hk : key = k
    · subst hk
      cases hp : p key with
      | true => simp [hp]
      | false => rw [List.filter_cons_of_neg (by simp [hp]), ih, hp]; simp
    · have hne : (key == k) = false := by simpa using hk
      rw [List.lookup_cons, hne]
      cases hp : p k with
      | true => rw [List.filter_cons_of_pos (by simp [hp]), List.lookup_cons, hne]; exact ih
      | false => rw [List.filter_cons_of_neg (by simp [hp])]; exact ih

/-- What the server says of a share. -/
def serverMembers (dto : ShareDTO) : List (Str × Value) :=
  [("id", .num (Itoa dto.id)), ("name", .str dto.share.name), ("path", .str dto.share.path),
    ("volume", .str (volumeOf dto.share.path)), ("status", .str (statusOf dto.share.enabled))]

theorem lookup_withServer : (withServer dto ms).lookup key =
    if key ∈ serverKeys then (serverMembers dto).lookup key else ms.lookup key := by
  have hkept := lookup_filter (fun k => decide (k ∉ serverKeys)) ms key
  have hjoin : (withServer dto ms).lookup key =
      ((ms.filter fun m => decide (m.1 ∉ serverKeys)).lookup key).or
        ((serverMembers dto).lookup key) := lookup_append
  rw [hjoin, hkept]
  by_cases hkey : key ∈ serverKeys
  · simp [hkey]
  · have hserver : (serverMembers dto).lookup key = none := by
      rw [List.lookup_eq_none_iff]
      intro m hm
      have hmem : m.1 ∈ serverKeys := List.mem_map_of_mem (f := Prod.fst) hm
      simpa using fun heq : key = m.1 => hkey (heq ▸ hmem)
    simp [hkey, hserver]

variable {t t' : Table} {st : Stmt} {id : Int} {form : ShareForm}

/-- The opened form of a share that was saved from a form. -/
theorem opened_saved (hexec : st.exec t = .changed t') (hs : st.stores t = some (id, form.toAPI))
    (ulist : List Account) : ∃ dto : ShareDTO, dto.share.name = form.toAPI.name ∧
      dto.share.path = form.toAPI.path ∧
      (listedUnder id t').map (fun s => mapShareFromAPI ⟨id, s⟩ ulist) =
        [.stored (withServer dto form.members)] := by
  have hlisted : listedUnder id t' = [(Row.ofShare id form.toAPI).share] :=
    listedUnder_row (stores_row hexec hs)
  refine ⟨⟨id, (Row.ofShare id form.toAPI).share⟩, rfl, rfl, ?_⟩
  have hconfig : (Row.ofShare id form.toAPI).share.config = some (.obj form.members) :=
    form.toAPI_config
  rw [hlisted, List.map_singleton, mapShareFromAPI, hconfig]

/-- A form comes back as it was saved when its volume is the second component of its path. -/
theorem reloaded_iff (ulist : List Account) {t t' : Table} {st : Stmt} {id : Int} {form : ShareForm}
    (hexec : st.exec t = .changed t') (hs : st.stores t = some (id, form.toAPI)) :
    ∃ opened, (listedUnder id t').map (fun s => mapShareFromAPI ⟨id, s⟩ ulist) = [opened] ∧
      (Reloaded form opened ↔ form.KeepsVolume) := by
  obtain ⟨dto, hname, hpath, hopened⟩ := opened_saved hexec hs ulist
  refine ⟨_, hopened, ?_⟩
  have hvolume : (withServer dto form.members).lookup ("volume" : Str) =
      some (.str (volumeOf form.path)) := by
    rw [lookup_withServer, if_pos (by decide), ← form.toAPI_path, ← hpath]
    rfl
  constructor
  · rintro ⟨ms, hms, hsame⟩
    cases hms
    refine ⟨volumeOf form.path, ?_, volumeOf_iff.mp rfl⟩
    rw [← hsame "volume" (by decide) (by decide), hvolume]
  · rintro ⟨vol, hvol, hsecond⟩
    refine ⟨_, rfl, fun key hid hstatus => ?_⟩
    by_cases hkey : key ∈ serverKeys
    · have hcases : key = "name" ∨ key = "path" ∨ key = "volume" := by
        simp only [serverKeys, List.mem_cons, List.not_mem_nil, or_false] at hkey
        rcases hkey with h | h | h | h | h
        · exact absurd h hid
        · exact .inl h
        · exact .inr (.inl h)
        · exact .inr (.inr h)
        · exact absurd h hstatus
      rcases hcases with rfl | rfl | rfl
      · rw [form.get_name, ← hname, lookup_withServer, if_pos (by decide)]
        rfl
      · rw [form.get_path, ← hpath, lookup_withServer, if_pos (by decide)]
        rfl
      · rw [hvolume, hvol, volumeOf_iff.mpr hsecond]
    · rw [lookup_withServer, if_neg hkey]
      rfl

/-! ## Mount points -/

theorem isSecond_below (hmount : (mount.splitOn '/')[2]? = some p) (sub : Str) :
    IsSecond (mount ++ '/' :: sub) part ↔ part = p := by
  have hget : ((mount ++ '/' :: sub).splitOn '/')[2]? = some p := by
    rw [List.splitOn_append_cons_self,
      List.getElem?_append_left (List.getElem?_eq_some_iff.mp hmount).1, hmount]
  have hlen := (List.getElem?_eq_some_iff.mp hget).1
  rw [IsSecond, hget, Option.some.injEq]
  constructor
  · rintro (h | ⟨hle, -⟩)
    · exact h.symm
    · omega
  · exact fun h => .inl h.symm

/-- On a volume, with a path below its mount point: the mount point has to be a directory of the
name of the volume in a directory of the root, or below such a one. -/
theorem keepsVolume_iff (v : Volume) (sub : Str) (hmount : (v.mount.splitOn '/')[2]? = some p)
    (hpath : form.path = v.mount ++ '/' :: sub) (hvol : form.get "volume" = some (.str v.name)) :
    form.KeepsVolume ↔ v.name = p := by
  unfold ShareForm.KeepsVolume
  rw [hpath, hvol]
  constructor
  · rintro ⟨vol, hsame, hsecond⟩
    rw [Option.some.injEq, Value.str.injEq] at hsame
    rw [hsame]
    exact (isSecond_below hmount sub).mp hsecond
  · exact fun h => ⟨v.name, rfl, (isSecond_below hmount sub).mpr h⟩

/-! ## A new share -/

/-- The form of a new CIFS share on a volume. -/
def formOn (path : Line) (volume : Str) : CIFSForm where
  name := newForm.name
  path := path
  recycleBin := newForm.recycleBin
  smb := newForm.smb
  users := newForm.users
  groups := newForm.groups
  defaultPerm := newForm.defaultPerm
  status := newForm.status
  rest := ⟨[("description", .str []), ("volume", .str volume), ("createFolder", .bool true),
    ("hidden", .bool false), ("quota", .obj [("enabled", .bool false), ("size", .num "200"),
      ("unit", .str "GB"), ("warningPct", .num "80")])], by
    intro m hm
    simp only [List.mem_cons, List.not_mem_nil, or_false] at hm
    rcases hm with rfl | rfl | rfl | rfl | rfl <;> rfl⟩

/-- The array as `ListFilesystems` reports it. -/
def mountedAt (mountPoint : Str) : Raid.FilesystemInfo :=
  ⟨"/dev/md0", "1", "clean", "ext4", mountPoint, 100, 10, 90, true⟩

def nasForm : ShareForm := .cifs (formOn ⟨"/srv/nas/md0/docs", by decide⟩ "md0")

theorem nasForm_valid : validateShare nasForm.toAPI = .ok () := by decide +kernel

/-- The volume below `/srv/nas` comes back as `nas`. -/
theorem reloaded_nas :
    volumes [mountedAt "/srv/nas/md0"] = [⟨"md0", "/srv/nas/md0"⟩] ∧
      nasForm.get "volume" = some (.str "md0") ∧ nasForm.path = "/srv/nas/md0" ++ "/docs" ∧
      ∃ t' ms, (Stmt.insert ⟨nasForm.toAPI, nasForm_valid⟩).exec .empty = .changed t' ∧
        (listedUnder 1 t').map (fun s => mapShareFromAPI ⟨1, s⟩ []) = [.stored ms] ∧
        ms.lookup ("volume" : Str) = some (.str "nas") ∧ ¬ Reloaded nasForm (.stored ms) := by
  refine ⟨by decide, rfl, rfl, _, _, rfl, rfl, rfl, ?_⟩
  rintro ⟨ms, hms, hsame⟩
  cases hms
  have hvolume := hsame "volume" (by decide) (by decide)
  have htext : (some (.str "nas") : Option Value) = some (.str "md0") := hvolume
  rw [Option.some.injEq, Value.str.injEq] at htext
  exact absurd htext (by decide)

def mntForm : ShareForm := .cifs (formOn ⟨"/mnt/md0/docs", by decide⟩ "md0")

theorem mntForm_valid : validateShare mntForm.toAPI = .ok () := by decide +kernel

theorem reloaded_mnt : ∃ opened,
    (listedUnder 1 ((Table.empty.insert ⟨mntForm.toAPI, mntForm_valid⟩).after .empty)).map
      (fun s => mapShareFromAPI ⟨1, s⟩ []) = [opened] ∧ Reloaded mntForm opened := by
  have hexec : (Stmt.insert ⟨mntForm.toAPI, mntForm_valid⟩).exec .empty =
      .changed ((Table.empty.insert ⟨mntForm.toAPI, mntForm_valid⟩).after .empty) := rfl
  have hs : (Stmt.insert ⟨mntForm.toAPI, mntForm_valid⟩).stores .empty =
      some (1, mntForm.toAPI) := rfl
  have hkeeps : mntForm.KeepsVolume :=
    (keepsVolume_iff ⟨"md0", "/mnt/md0"⟩ "docs" (by decide) rfl rfl).mpr rfl
  obtain ⟨opened, hopened, hiff⟩ := reloaded_iff [] hexec hs
  exact ⟨opened, hopened, hiff.mpr hkeeps⟩

end Shares
end Nasd
