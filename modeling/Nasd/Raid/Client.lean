import Nasd.Lib.Url
import Nasd.Raid.Manager
import Nasd.Server.Router

/-!
# Nasd.Raid.Client

The RAID calls of the interface that name a device in their URL (`src/js/api.js`), from the call to
what the handler of `internal/api/handlers.go` does with it: the browser resolves the URL, net/url
splits it into `Path` and `RawPath`, chi matches `RawPath` when it is set and hands out the matched
segments as they are, and the handler puts `/dev/` before them.

* `setPath_join`     — what chi matches, for a path of encoded segments.
* `served_asked_iff` — when the handler's devices are the ones of the interface.
* `addDisk_refused`, `removeDisk_refused` — a disk is never added to an array, or taken out.
-/

namespace Nasd
namespace Raid
namespace Client

open Text Go Sys Url Server

/-! ## Devices -/

/-- A device as `ListArrays` and `ListDisks` report it. -/
structure Device where
  name : Str
  named : name ≠ []

def Device.path (d : Device) : Str := "/dev/" ++ d.name

/-- The arrays of `/proc/mdstat` that `mdadm --detail` knows. -/
def ListArrays (mdstat : Str) (detail : Str → Bool) : List Str :=
  ((mdLines mdstat).map fun line => "/dev/" ++ arrayName line).filter detail

def listDisk (osDisk line : Str) : Option Str :=
  match Fields line with
  | [] => none
  | name :: _ =>
    if HasPrefix name "loop" || HasPrefix name "sr" || HasPrefix name "md" then none
    else if osDisk ≠ [] ∧ name = osDisk then none
    else some ("/dev/" ++ name)

def ListDisks (out osDisk : Str) : List Str :=
  ((TrimSpace out).splitOn '\n').filterMap (listDisk osDisk)

theorem ListArrays_devices {mdstat dev : Str} {detail : Str → Bool}
    (h : dev ∈ ListArrays mdstat detail) :
    ∃ d : Device, dev = d.path := by
  obtain ⟨line, hline, rfl⟩ := List.mem_map.mp (List.mem_filter.mp h).1
  have hpre : HasPrefix line "md" = true := (List.mem_filter.mp hline).2
  obtain ⟨rest, rfl⟩ := HasPrefix_iff.mp hpre
  have hne : arrayName (("md" : Str) ++ rest) ≠ [] := by
    show ('m' :: _) ≠ []
    exact List.cons_ne_nil _ _
  exact ⟨⟨_, hne⟩, rfl⟩

theorem ListDisks_devices {out osDisk dev : Str} (h : dev ∈ ListDisks out osDisk) :
    ∃ d : Device, dev = d.path := by
  obtain ⟨line, -, hdisk⟩ := List.mem_filterMap.mp h
  unfold listDisk at hdisk
  split at hdisk
  · cases hdisk
  · rename_i name rest hfields
    have hne : name ≠ [] := (mem_words (hfields ▸ List.mem_cons_self : name ∈ Fields line)).1
    split at hdisk
    · cases hdisk
    · split at hdisk
      · cases hdisk
      · cases hdisk
        exact ⟨⟨name, hne⟩, rfl⟩

/-! ## The interface -/

/-- The characters that `encodeURIComponent` leaves alone. -/
def unreserved (c : Char) : Bool :=
  c.isAlphanum || c ∈ ['-', '_', '.', '!', '~', '*', '\'', '(', ')']

def encodeURIComponent (s : Str) : Str := escape unreserved s

/-- `replace(/^\/dev\//, "")` -/
def bare (device : Str) : Str := TrimPrefix device "/dev/"

/-- The calls, with the devices that the interface passes. `smart` is called with the device
without its `/dev/`. -/
inductive Call where
  | deleteArray (md : Device)
  | createFilesystem (md : Device) (fstype mountPoint : Str)
  | mountFilesystem (md : Device) (fstype mountPoint : Str)
  | unmountFilesystem (md : Device) (mountPoint : Str)
  | growFilesystem (md : Device) (fstype : Str)
  | deleteFilesystem (md : Device)
  | smart (device : Device)
  | wipeDisk (device : Device)
  | addDisk (md disk : Device)
  | removeDisk (md disk : Device)

/-- The JSON object of a body, as the handlers decode it: a field that is not sent is the zero
value. -/
structure Body where
  fstype : Str
  mount_point : Str
  confirm : Bool
  disk : Str

structure Sent where
  method : Method
  url : Str
  body : Body

/-- `request(method, path, body)` -/
def request (method : Method) (path : Str) (body : Body) : Sent := ⟨method, "/api" ++ path, body⟩

def noBody : Body := ⟨[], [], false, []⟩

def Call.send : Call → Sent
  | .deleteArray md =>
    request .delete ("/raid/arrays/" ++ encodeURIComponent (bare md.path) ++ "?confirm=true") noBody
  | .createFilesystem md fstype mountPoint =>
    request .post ("/raid/arrays/" ++ encodeURIComponent (bare md.path) ++ "/filesystem")
      { noBody with fstype := fstype, mount_point := mountPoint, confirm := true }
  | .mountFilesystem md fstype mountPoint =>
    request .post ("/raid/arrays/" ++ encodeURIComponent (bare md.path) ++ "/filesystem/mount")
      { noBody with fstype := fstype, mount_point := mountPoint, confirm := true }
  | .unmountFilesystem md mountPoint =>
    request .post ("/raid/arrays/" ++ encodeURIComponent (bare md.path) ++ "/filesystem/unmount")
      { noBody with mount_point := mountPoint, confirm := true }
  | .growFilesystem md fstype =>
    request .post ("/raid/arrays/" ++ encodeURIComponent (bare md.path) ++ "/filesystem/grow")
      { noBody with fstype := fstype }
  | .deleteFilesystem md =>
    request .delete
      ("/raid/arrays/" ++ encodeURIComponent (bare md.path) ++ "/filesystem?confirm=true") noBody
  | .smart device =>
    request .get ("/raid/disks/" ++ encodeURIComponent (bare device.path) ++ "/smart") noBody
  | .wipeDisk device =>
    request .post ("/raid/disks/" ++ encodeURIComponent (bare device.path) ++ "/wipe")
      { noBody with confirm := true }
  | .addDisk md disk =>
    request .post ("/raid/arrays/" ++ encodeURIComponent md.path ++ "/disks")
      { noBody with disk := disk.path }
  | .removeDisk md disk =>
    request .delete
      ("/raid/arrays/" ++ encodeURIComponent md.path ++ "/disks/" ++ encodeURIComponent disk.path)
      noBody

/-- The path and the query that the browser asks for. Encoded dots, which it resolves as well, never
come out of `encodeURIComponent`. -/
def fetch (url : Str) : Str × Str :=
  (removeDots (url.takeWhile (· ≠ '?')), (url.dropWhile (· ≠ '?')).drop 1)

/-! ## The server -/

/-- The characters that `escape(s, encodePath)` of net/url leaves alone. -/
def pathSafe (c : Char) : Bool :=
  c.isAlphanum || c ∈ ['-', '_', '.', '~', '$', '&', '+', ',', '/', ':', ';', '=', '@']

structure URL where
  path : Str
  rawPath : Str

/-- `RawPath` is set only when it is not the default encoding of `Path`. -/
def setPath (p : Str) : Option URL :=
  (unescape p).map fun path => ⟨path, if p = escape pathSafe path then [] else p⟩

/-- The path that chi matches. -/
def routePath (u : URL) : Str := if u.rawPath ≠ [] then u.rawPath else u.path

/-- `Query().Get(key)`, for values with nothing to decode. -/
def queryGet (query key : Str) : Str :=
  (((query.splitOn '&').find? fun kv => HasPrefix kv (key ++ "=")).map
    (·.drop (key.length + 1))).getD []

/-- What a handler asks of the raid Manager. The array of an unmounted filesystem goes only into the
event. -/
inductive ManagerCall where
  | Stop (md : Str)
  | CreateFilesystem (md fsType mountPoint : Str)
  | MountOnly (md fsType mountPoint : Str)
  | UnmountFilesystem (mountPoint : Str)
  | GrowFilesystem (md fsType : Str)
  | WipeFilesystem (md : Str)
  | SmartInfo (device : Str)
  | WipeDisk (disk : Str)
  | AddDisk (md disk : Str)
  | RemoveDisk (md disk : Str)
  deriving DecidableEq

/-- The Manager's call, and the device of the `raid.status` event. -/
structure Handled where
  call : ManagerCall
  event : Option Str
  deriving DecidableEq

def handle (param : Str → Str) (query : Str) (req : Body) : Handler → Option Handled
  | .raidDeleteArray =>
    if queryGet query "confirm" ≠ "true" then none
    else
      let md : Str := "/dev/" ++ param "md"
      some ⟨.Stop md, some md⟩
  | .raidCreateFilesystem =>
    if !req.confirm then none
    else
      let md : Str := "/dev/" ++ param "md"
      some ⟨.CreateFilesystem md req.fstype req.mount_point, some md⟩
  | .raidMountFilesystem =>
    if !req.confirm then none
    else
      let md : Str := "/dev/" ++ param "md"
      some ⟨.MountOnly md req.fstype req.mount_point, some md⟩
  | .raidUnmountFilesystem =>
    if !req.confirm then none
    else some ⟨.UnmountFilesystem req.mount_point, some ("/dev/" ++ param "md")⟩
  | .raidGrowFilesystem =>
    let md : Str := "/dev/" ++ param "md"
    some ⟨.GrowFilesystem md req.fstype, some md⟩
  | .raidDeleteFilesystem =>
    if queryGet query "confirm" ≠ "true" then none
    else
      let md : Str := "/dev/" ++ param "md"
      some ⟨.WipeFilesystem md, some md⟩
  | .raidSmart => some ⟨.SmartInfo ("/dev/" ++ param "device"), none⟩
  | .raidWipeDisk =>
    if !req.confirm then none
    else
      let disk : Str := "/dev/" ++ param "device"
      some ⟨.WipeDisk disk, some disk⟩
  | .raidAddDisk => some ⟨.AddDisk ("/dev/" ++ param "md") req.disk, none⟩
  | .raidRemoveDisk => some ⟨.RemoveDisk ("/dev/" ++ param "md") ("/dev/" ++ param "disk"), none⟩
  | _ => none

/-- From the call of the interface to the call of the Manager, when the request gets that far. -/
def served (c : Call) : Option Handled :=
  let asked := fetch c.send.url
  (setPath asked.1).bind fun u =>
    (findBySegments c.send.method (routePath u) NewRouter).bind fun found =>
      handle found.2 asked.2 c.send.body found.1.handler

/-- The device that the URL names first. -/
def Call.target : Call → Device
  | .deleteArray md => md
  | .createFilesystem md _ _ => md
  | .mountFilesystem md _ _ => md
  | .unmountFilesystem md _ => md
  | .growFilesystem md _ => md
  | .deleteFilesystem md => md
  | .smart device => device
  | .wipeDisk device => device
  | .addDisk md _ => md
  | .removeDisk md _ => md

/-- What the call is for, about a device. -/
def Call.about (device : Str) : Call → Handled
  | .deleteArray _ => ⟨.Stop device, some device⟩
  | .createFilesystem _ fstype mountPoint =>
    ⟨.CreateFilesystem device fstype mountPoint, some device⟩
  | .mountFilesystem _ fstype mountPoint => ⟨.MountOnly device fstype mountPoint, some device⟩
  | .unmountFilesystem _ mountPoint => ⟨.UnmountFilesystem mountPoint, some device⟩
  | .growFilesystem _ fstype => ⟨.GrowFilesystem device fstype, some device⟩
  | .deleteFilesystem _ => ⟨.WipeFilesystem device, some device⟩
  | .smart _ => ⟨.SmartInfo device, none⟩
  | .wipeDisk _ => ⟨.WipeDisk device, some device⟩
  | .addDisk _ disk => ⟨.AddDisk device disk.path, none⟩
  | .removeDisk _ disk => ⟨.RemoveDisk device disk.path, none⟩

/-- The devices are the ones that the interface passed. -/
def Call.asked (c : Call) : Handled := c.about c.target.path

/-- The call removes the `/dev/` of its device before encoding it. -/
def Call.strips : Call → Bool
  | .addDisk _ _ | .removeDisk _ _ => false
  | _ => true

/-- A name that the route parameter gives back: no dot segment, and either nothing in it is encoded
or net/url's own encoding of it is the same. -/
def Survives (name : Str) : Prop :=
  name ≠ "." ∧ name ≠ ".." ∧
    ((∀ c ∈ name, unreserved c = true) ∨ ∀ c ∈ name, unreserved c = pathSafe c)

instance (name : Str) : Decidable (Survives name) := by
  unfold Survives
  infer_instance

/-! ## What chi matches -/

variable {segs : List Str}

theorem not_mem_encode {s : Str} : '/' ∉ encodeURIComponent s :=
  not_mem_escape rfl (by decide) (by decide)

theorem encode_plain {s : Str} (hs : ∀ c ∈ s, c.isAlphanum = true) : encodeURIComponent s = s :=
  escape_of_kept fun c hc => by simp [unreserved, hs c hc]

/-- Segments of letters and digits, which no encoder changes. -/
def Plain (ss : List Str) : Prop := ∀ s ∈ ss, ∀ c ∈ s, c.isAlphanum = true

theorem plain_of_all {ss : List Str} (h : (ss.all fun s => s.all Char.isAlphanum) = true) :
    Plain ss := fun s hs c hc => List.all_eq_true.mp (List.all_eq_true.mp h s hs) c hc

theorem map_encode_plain {ss : List Str} (h : Plain ss) : ss.map encodeURIComponent = ss := by
  have hid : ∀ s ∈ ss, encodeURIComponent s = id s := fun s hs => encode_plain (h s hs)
  rw [List.map_congr_left hid, List.map_id]

theorem encode_not_dots {s : Str} (h : s ≠ "." ∧ s ≠ "..") :
    encodeURIComponent s ≠ "." ∧ encodeURIComponent s ≠ ".." :=
  ⟨escape_ne_of_kept rfl (List.all_eq_true.mp rfl) h.1,
    escape_ne_of_kept rfl (List.all_eq_true.mp rfl) h.2⟩

theorem alike_of_alphanum {c : Char} (hc : c.isAlphanum = true) : unreserved c = pathSafe c := by
  simp [unreserved, pathSafe, hc]

/-- When both encoders write the path alike, `RawPath` stays empty and chi matches the decoded
path. -/
theorem setPath_alike (hne : segs ≠ []) (h : ∀ s ∈ segs, ∀ c ∈ s, unreserved c = pathSafe c) :
    ∃ u, setPath (slashed (segs.map encodeURIComponent)) = some u ∧
      (routePath u).splitOn '/' = [] :: segs := by
  have hdecoded : unescape (slashed (segs.map encodeURIComponent)) = some (slashed segs) :=
    unescape_slashed rfl segs
  have hsame : slashed (segs.map encodeURIComponent) = escape pathSafe (slashed segs) := by
    rw [escape_slashed rfl]
    exact (slashed_escape_eq_iff rfl rfl).mpr h
  have hslash : ∀ s ∈ segs, '/' ∉ s := by
    intro s hs hmem
    cases h s hs '/' hmem
  refine ⟨⟨slashed segs, []⟩, ?_, splitOn_slashed hne hslash⟩
  rw [setPath, hdecoded, Option.map_some, if_pos hsame]

/-- Otherwise chi matches the path as it was sent. -/
theorem setPath_unlike (h : ¬ ∀ s ∈ segs, ∀ c ∈ s, unreserved c = pathSafe c) :
    ∃ u, setPath (slashed (segs.map encodeURIComponent)) = some u ∧
      (routePath u).splitOn '/' = [] :: segs.map encodeURIComponent := by
  have hne : segs ≠ [] := by
    rintro rfl
    exact h fun s hs => nomatch hs
  have hdecoded : unescape (slashed (segs.map encodeURIComponent)) = some (slashed segs) :=
    unescape_slashed rfl segs
  have hdiff : slashed (segs.map encodeURIComponent) ≠ escape pathSafe (slashed segs) := by
    rw [escape_slashed rfl]
    exact fun heq => h ((slashed_escape_eq_iff rfl rfl).mp heq)
  have hraw : slashed (segs.map encodeURIComponent) ≠ [] := by
    obtain ⟨s, rest, rfl⟩ := List.exists_cons_of_ne_nil hne
    rw [List.map_cons, slashed_cons]
    exact List.cons_ne_nil _ _
  refine ⟨⟨slashed segs, slashed (segs.map encodeURIComponent)⟩, ?_, ?_⟩
  · rw [setPath, hdecoded, Option.map_some, if_neg hdiff]
  · rw [routePath, if_pos hraw]
    refine splitOn_slashed (mt List.map_eq_nil_iff.mp hne) fun u hu => ?_
    obtain ⟨s, -, rfl⟩ := List.mem_map.mp hu
    exact not_mem_encode

/-- The route parameter of an encoded name. -/
def param (name : Str) : Str :=
  if ∀ c ∈ name, unreserved c = pathSafe c then name else encodeURIComponent name

theorem param_eq_iff {name : Str} : param name = name ↔
    (∀ c ∈ name, unreserved c = true) ∨ ∀ c ∈ name, unreserved c = pathSafe c := by
  unfold param
  split
  · rename_i h
    exact iff_of_true rfl (.inr h)
  · rename_i h
    rw [or_iff_left h]
    exact escape_eq_self_iff

/-- One encoded name among segments that need no encoding. -/
theorem setPath_name {before after : List Str} {name : Str}
    (hbefore : Plain before) (hafter : Plain after) :
    ∃ u, setPath (slashed ((before ++ name :: after).map encodeURIComponent)) = some u ∧
      (routePath u).splitOn '/' = [] :: (before ++ param name :: after) := by
  have hiff : (∀ s ∈ before ++ name :: after, ∀ c ∈ s, unreserved c = pathSafe c) ↔
      ∀ c ∈ name, unreserved c = pathSafe c := by
    refine ⟨fun h => h name (by simp), fun h s hs c hc => ?_⟩
    simp only [List.mem_append, List.mem_cons] at hs
    rcases hs with hs | rfl | hs
    · exact alike_of_alphanum (hbefore s hs c hc)
    · exact h c hc
    · exact alike_of_alphanum (hafter s hs c hc)
  by_cases h : ∀ c ∈ name, unreserved c = pathSafe c
  · rw [param, if_pos h]
    exact setPath_alike (by simp) (hiff.mpr h)
  · obtain ⟨u, hset, hroute⟩ := setPath_unlike (mt hiff.mp h)
    refine ⟨u, hset, ?_⟩
    rw [hroute, param, if_neg h, List.map_append, List.map_cons,
      map_encode_plain hbefore, map_encode_plain hafter]

/-! ## The way of a call -/

def findSegments (m : Method) (segs : List Str) : Routes → Option (Endpoint × (Str → Str))
  | [] => none
  | e :: es =>
    match matchSegments (e.pattern.splitOn '/') segs with
    | none => findSegments m segs es
    | some params =>
      if e.method = m then some (e, fun k => (params.lookup k).getD [])
      else findSegments m segs es

theorem findBySegments_eq (m : Method) (path : Str) (rs : Routes) :
    findBySegments m path rs = findSegments m (path.splitOn '/') rs := by
  induction rs with
  | nil => rfl
  | cons e rs ih =>
    unfold findBySegments
    rw [ih]
    rfl

/-- The segments of a call's path around its device, and its query. -/
def Call.before : Call → List Str
  | .smart _ | .wipeDisk _ => ["api", "raid", "disks"]
  | _ => ["api", "raid", "arrays"]

def Call.after : Call → List Str
  | .deleteArray _ => []
  | .createFilesystem _ _ _ => ["filesystem"]
  | .mountFilesystem _ _ _ => ["filesystem", "mount"]
  | .unmountFilesystem _ _ => ["filesystem", "unmount"]
  | .growFilesystem _ _ => ["filesystem", "grow"]
  | .deleteFilesystem _ => ["filesystem"]
  | .smart _ => ["smart"]
  | .wipeDisk _ => ["wipe"]
  | .addDisk _ _ => ["disks"]
  | .removeDisk _ disk => ["disks", disk.path]

def Call.query : Call → Str
  | .deleteArray _ => "confirm=true"
  | .deleteFilesystem _ => "confirm=true"
  | _ => []

def Call.urlName (c : Call) : Str := if c.strips then c.target.name else c.target.path

def Call.segments (c : Call) : List Str := c.before ++ c.urlName :: c.after

theorem bare_path (d : Device) : bare d.path = d.name := by
  unfold bare TrimPrefix Device.path
  rw [if_pos (HasPrefix_iff.mpr (List.prefix_append _ _)), List.drop_left]

theorem before_plain (c : Call) : Plain c.before := by
  cases c <;> exact plain_of_all rfl

theorem after_plain {c : Call} (h : c.strips = true) : Plain c.after := by
  cases c with
  | addDisk md disk => cases h
  | removeDisk md disk => cases h
  | _ => exact plain_of_all rfl

theorem removeDisk_after (md disk : Device) :
    slashed ((Call.removeDisk md disk).after.map encodeURIComponent) =
      "/disks/" ++ encodeURIComponent disk.path := by
  have hdisks : encodeURIComponent "disks" = "disks" := 
    encode_plain (List.all_eq_true.mp rfl)
  have hend : slashed [encodeURIComponent disk.path] = '/' :: encodeURIComponent disk.path :=
    List.flatMap_singleton _ _
  rw [Call.after, List.map_cons, slashed_cons, List.map_singleton, hend, hdisks]
  rfl

theorem url_removeDisk (md disk : Device) : (Call.removeDisk md disk).send.url =
    slashed ((Call.removeDisk md disk).segments.map encodeURIComponent) := by
  have hbefore : slashed (Call.removeDisk md disk).before = "/api/raid/arrays" := rfl
  rw [Call.segments, List.map_append, List.map_cons, slashed_append, slashed_cons,
    map_encode_plain (before_plain _), removeDisk_after, hbefore]
  simp only [Call.send, request, List.append_assoc]
  rfl

theorem url_eq (c : Call) : c.send.url =
    slashed (c.segments.map encodeURIComponent) ++ if c.query = [] then [] else '?' :: c.query := by
  cases c with
  | removeDisk md disk => exact (url_removeDisk md disk).trans (List.append_nil _).symm
  | addDisk md disk =>
    rw [Call.segments, List.map_append, List.map_cons, slashed_append, slashed_cons,
      map_encode_plain (before_plain _)]
    simp only [Call.send, request, List.append_assoc, List.cons_append]
    rfl
  | _ =>
    rw [Call.segments, List.map_append, List.map_cons, slashed_append, slashed_cons,
      map_encode_plain (before_plain _), map_encode_plain (after_plain rfl)]
    simp only [Call.send, request, bare_path, List.append_assoc, List.cons_append]
    rfl

theorem no_query_mark {s : Str} : '?' ∉ encodeURIComponent s :=
  not_mem_escape rfl (by decide) (by decide)

theorem encoded_no_slash : ∀ u ∈ segs.map encodeURIComponent, '/' ∉ u := by
  intro u hu
  obtain ⟨s, -, rfl⟩ := List.mem_map.mp hu
  exact not_mem_encode

theorem encoded_ne_nil (c : Call) : c.segments.map encodeURIComponent ≠ [] := by
  simp [Call.segments]

theorem fetch_eq (c : Call) :
    fetch c.send.url = (removeDots (slashed (c.segments.map encodeURIComponent)), c.query) := by
  have hmark : ∀ ch ∈ slashed (c.segments.map encodeURIComponent), (ch ≠ '?' : Bool) = true := by
    intro ch hch
    obtain ⟨u, hu, hmem⟩ := List.mem_flatMap.mp hch
    obtain ⟨s, -, rfl⟩ := List.mem_map.mp hu
    rcases List.mem_cons.mp hmem with rfl | hmem
    · rfl
    · simp only [ne_eq, decide_eq_true_eq]
      rintro rfl
      exact no_query_mark hmem
  have hpath : c.send.url.takeWhile (· ≠ '?') = slashed (c.segments.map encodeURIComponent) := by
    rw [url_eq, List.takeWhile_append_of_pos hmark]
    split
    · simp
    · simp
  have hquery : (c.send.url.dropWhile (· ≠ '?')).drop 1 = c.query := by
    rw [url_eq, List.dropWhile_append_of_pos hmark]
    split
    · rename_i hnil
      simp [hnil]
    · simp
  rw [fetch, hpath, hquery]

/-- What the browser asks for, when no segment of the path is a dot segment. -/
theorem fetch_of_plain {c : Call} (hdots : ∀ s ∈ c.segments, s ≠ "." ∧ s ≠ "..") :
    fetch c.send.url = (slashed (c.segments.map encodeURIComponent), c.query) := by
  have hplain : ∀ u ∈ c.segments.map encodeURIComponent, u ≠ "." ∧ u ≠ ".." := by
    intro u hu
    obtain ⟨s, hs, rfl⟩ := List.mem_map.mp hu
    exact encode_not_dots (hdots s hs)
  rw [fetch_eq, removeDots_slashed (encoded_ne_nil c) encoded_no_slash hplain]

theorem served_of_route {c : Call} {asked segs : List Str}
    (hfetch : fetch c.send.url = (slashed (asked.map encodeURIComponent), c.query))
    (hroute : ∃ u, setPath (slashed (asked.map encodeURIComponent)) = some u ∧
      (routePath u).splitOn '/' = segs) :
    served c = (findSegments c.send.method segs NewRouter).bind fun found =>
      handle found.2 c.query c.send.body found.1.handler := by
  obtain ⟨u, hset, hsegs⟩ := hroute
  rw [served, hfetch, hset, Option.bind_some, findBySegments_eq, hsegs]

theorem plain_not_dots {ss : List Str} (h : Plain ss) : ∀ s ∈ ss, s ≠ "." ∧ s ≠ ".." := by
  intro s hs
  have hdot : '.' ∉ s := fun hmem => by cases h s hs '.' hmem
  refine ⟨?_, ?_⟩ <;>
    · rintro rfl
      exact hdot (by decide)

theorem segments_not_dots {c : Call} (hname : c.urlName ≠ "." ∧ c.urlName ≠ "..")
    (hafter : ∀ s ∈ c.after, s ≠ "." ∧ s ≠ "..") : ∀ s ∈ c.segments, s ≠ "." ∧ s ≠ ".." := by
  intro s hs
  simp only [Call.segments, List.mem_append, List.mem_cons] at hs
  rcases hs with hs | rfl | hs
  · exact plain_not_dots (before_plain c) s hs
  · exact hname
  · exact hafter s hs

/-- A call that strips hands on the parameter of the device's name. -/
theorem served_strips {c : Call} (hc : c.strips = true) (hone : c.target.name ≠ ".")
    (htwo : c.target.name ≠ "..") :
    served c = some (c.about ("/dev/" ++ param c.target.name)) := by
  have hname : c.urlName = c.target.name := if_pos hc
  have hdots : ∀ s ∈ c.segments, s ≠ "." ∧ s ≠ ".." :=
    segments_not_dots ⟨hname ▸ hone, hname ▸ htwo⟩ (plain_not_dots (after_plain hc))
  have hroute : ∃ u, setPath (slashed (c.segments.map encodeURIComponent)) = some u ∧
      (routePath u).splitOn '/' = [] :: (c.before ++ param c.urlName :: c.after) :=
    setPath_name (before_plain c) (after_plain hc)
  rw [served_of_route (fetch_of_plain hdots) hroute, hname]
  cases c with
  | addDisk md disk => cases hc
  | removeDisk md disk => cases hc
  | _ => rfl

theorem path_not_dots (d : Device) : d.path ≠ "." ∧ d.path ≠ ".." := by
  have hhead : d.path.head? = some '/' := rfl
  constructor <;>
    · intro h
      rw [h] at hhead
      cases hhead

/-- The encoded `/dev/` keeps `RawPath` set, so the parameters stay encoded. -/
theorem served_unstripped {c : Call} (hc : c.strips = false) :
    served c = (findSegments c.send.method ([] :: c.segments.map encodeURIComponent) NewRouter).bind
      fun found => handle found.2 c.query c.send.body found.1.handler := by
  have hname : c.urlName = c.target.path := if_neg (by simp [hc])
  have hafter : ∀ s ∈ c.after, s ≠ "." ∧ s ≠ ".." := by
    intro s hs
    cases c with
    | addDisk md disk => exact plain_not_dots (plain_of_all rfl) s hs
    | removeDisk md disk =>
      rcases List.mem_cons.mp hs with rfl | hs
      · exact ⟨by decide, by decide⟩
      · rw [List.mem_singleton.mp hs]
        exact path_not_dots disk
    | _ => cases hc
  have hdots : ∀ s ∈ c.segments, s ≠ "." ∧ s ≠ ".." :=
    segments_not_dots (hname ▸ path_not_dots _) hafter
  have hslash : ¬ ∀ s ∈ c.segments, ∀ ch ∈ s, unreserved ch = pathSafe ch := by
    intro h
    have hmem : c.target.path ∈ c.segments := by simp [Call.segments, hname]
    cases h _ hmem '/' List.mem_cons_self
  exact served_of_route (fetch_of_plain hdots) (setPath_unlike hslash)

theorem served_addDisk (md disk : Device) : served (.addDisk md disk) =
    some ⟨.AddDisk ("/dev/" ++ encodeURIComponent md.path) disk.path, none⟩ :=
  served_unstripped rfl

theorem served_removeDisk (md disk : Device) : served (.removeDisk md disk) =
    some ⟨.RemoveDisk ("/dev/" ++ encodeURIComponent md.path)
      ("/dev/" ++ encodeURIComponent disk.path), none⟩ :=
  served_unstripped rfl

/-! ## Dot segments -/

theorem matchSegments_mem {ps segs : List Str} {params : List (Str × Str)}
    (h : matchSegments ps segs = some params) : ∀ kv ∈ params, kv.2 ∈ segs := by
  induction ps generalizing segs params with
  | nil =>
    cases segs with
    | nil =>
      cases h
      exact fun kv hkv => nomatch hkv
    | cons s segs => cases h
  | cons p ps ih =>
    cases segs with
    | nil => cases h
    | cons s segs =>
      unfold matchSegments at h
      split at h
      · obtain ⟨rest, hrest, rfl⟩ := Option.map_eq_some_iff.mp h
        intro kv hkv
        rcases List.mem_cons.mp hkv with rfl | hkv
        · exact List.mem_cons_self
        · exact List.mem_cons_of_mem s (ih hrest kv hkv)
      · split at h
        · exact fun kv hkv => List.mem_cons_of_mem s (ih h kv hkv)
        · cases h

theorem lookup_mem {params : List (Str × Str)} {k v : Str} (h : params.lookup k = some v) :
    ∃ kv ∈ params, kv.2 = v := by
  induction params with
  | nil => cases h
  | cons kv params ih =>
    obtain ⟨k', v'⟩ := kv
    rw [List.lookup_cons] at h
    split at h
    · cases h
      exact ⟨(k', v), List.mem_cons_self, rfl⟩
    · obtain ⟨kv, hkv, hv⟩ := ih h
      exact ⟨kv, List.mem_cons_of_mem _ hkv, hv⟩

/-- A route parameter is a segment of the path, or empty. -/
theorem findSegments_param {m : Method} {segs : List Str} {rs : Routes}
    {found : Endpoint × (Str → Str)} (h : findSegments m segs rs = some found) (k : Str) :
    found.2 k ∈ segs ∨ found.2 k = [] := by
  induction rs with
  | nil => cases h
  | cons e rs ih =>
    unfold findSegments at h
    split at h
    · exact ih h
    · rename_i params hmatch
      split at h
      · cases h
        show (params.lookup k).getD [] ∈ segs ∨ (params.lookup k).getD [] = []
        cases hlook : params.lookup k with
        | none => exact .inr rfl
        | some v =>
          obtain ⟨kv, hkv, rfl⟩ := lookup_mem hlook
          exact .inl (matchSegments_mem hmatch kv hkv)
      · exact ih h

/-- The device that a handler builds first. -/
def Handled.device (x : Handled) : Str :=
  match x.call with
  | .Stop md | .CreateFilesystem md _ _ | .MountOnly md _ _ | .GrowFilesystem md _
  | .WipeFilesystem md | .SmartInfo md | .WipeDisk md | .AddDisk md _ | .RemoveDisk md _ => md
  | .UnmountFilesystem _ => x.event.getD []

theorem about_device (c : Call) (device : Str) : (c.about device).device = device := by
  cases c <;> rfl

theorem handle_device {f : Str → Str} {query : Str} {req : Body} {h : Handler} {x : Handled}
    (hx : handle f query req h = some x) : ∃ k, x.device = "/dev/" ++ f k := by
  unfold handle at hx
  split at hx <;> (try split at hx) <;> cases hx <;> exact ⟨_, rfl⟩

theorem served_dots {c : Call} (hc : c.strips = true)
    (hdot : c.target.name = "." ∨ c.target.name = "..") : served c ≠ some c.asked := by
  have hname : c.urlName = c.target.name := if_pos hc
  have hsegs : ∀ u ∈ c.segments.map encodeURIComponent, u ≠ "." → u ≠ ".." →
      ∀ ch ∈ u, ch.isAlphanum = true := by
    intro u hu hone htwo
    obtain ⟨s, hs, rfl⟩ := List.mem_map.mp hu
    simp only [Call.segments, List.mem_append, List.mem_cons, hname] at hs
    rcases hs with hs | rfl | hs
    · rw [encode_plain (before_plain c s hs)]
      exact before_plain c s hs
    · rcases hdot with h | h <;> rw [h] at hone htwo
      · exact absurd rfl hone
      · exact absurd rfl htwo
    · rw [encode_plain (after_plain hc s hs)]
      exact after_plain hc s hs
  -- what is left of the path has no dot in it, so neither has any parameter
  obtain ⟨kept, hne, hkept, hplain⟩ := removeDots_slashed_mem (List.forall_mem_nil _)
    (encoded_ne_nil c) encoded_no_slash hsegs
  have hfetch : fetch c.send.url = (slashed (kept.map encodeURIComponent), c.query) := by
    rw [fetch_eq, hkept, map_encode_plain hplain]
  have hroute := setPath_alike hne fun s hs ch hch => alike_of_alphanum (hplain s hs ch hch)
  rw [served_of_route hfetch hroute]
  intro h
  obtain ⟨found, hfound, hhandle⟩ := Option.bind_eq_some_iff.mp h
  obtain ⟨k, hk⟩ := handle_device hhandle
  have hparam : found.2 k = c.target.name := by
    have hdevice : "/dev/" ++ c.target.name = ("/dev/" : Str) ++ found.2 k :=
      (about_device c c.target.path).symm.trans hk
    exact (List.append_cancel_left hdevice).symm
  have hclean : ∀ ch ∈ found.2 k, ch.isAlphanum = true := by
    rcases findSegments_param hfound k with hmem | hnil
    · rcases List.mem_cons.mp hmem with hnil | hmem
      · rw [hnil]
        exact List.forall_mem_nil _
      · exact hplain _ hmem
    · rw [hnil]
      exact List.forall_mem_nil _
  have hmem : '.' ∈ found.2 k := by
    rw [hparam]
    rcases hdot with h | h <;> rw [h] <;> decide
  cases hclean '.' hmem

/-! ## The devices of the interface -/

theorem about_asked_iff (c : Call) (device : Str) :
    c.about device = c.asked ↔ device = c.target.path := by
  refine ⟨fun h => ?_, fun h => by rw [h, Call.asked]⟩
  have hdevice := congrArg Handled.device h
  rwa [about_device, Call.asked, about_device] at hdevice

theorem path_inj_iff (c : Call) (name : Str) :
    ("/dev/" : Str) ++ name = c.target.path ↔ name = c.target.name := List.append_right_inj _

theorem encode_path_ne (d : Device) : encodeURIComponent d.path ≠ d.name := by
  intro h
  have hle : d.path.length ≤ (encodeURIComponent d.path).length := length_le_escape _
  have hlen : d.path.length = 5 + d.name.length := List.length_append
  rw [h] at hle
  omega

/-- The handler works with the devices that the interface passed exactly when the call removes the
`/dev/` and the name comes back from the route parameter. -/
theorem served_asked_iff (c : Call) :
    served c = some c.asked ↔ c.strips = true ∧ Survives c.target.name := by
  cases hc : c.strips with
  | false =>
    refine iff_of_false (fun h => ?_) fun h => nomatch h.1
    have hmd : ∀ d : Device, ("/dev/" : Str) ++ encodeURIComponent d.path ≠ d.path :=
      fun d heq => encode_path_ne d (List.append_cancel_left heq)
    cases c with
    | addDisk md disk =>
      rw [served_addDisk] at h
      injection h with h
      exact hmd md (congrArg Handled.device h)
    | removeDisk md disk =>
      rw [served_removeDisk] at h
      injection h with h
      exact hmd md (congrArg Handled.device h)
    | _ => cases hc
  | true =>
    by_cases hdot : c.target.name = "." ∨ c.target.name = ".."
    · refine iff_of_false (served_dots hc hdot) fun h => ?_
      rcases hdot with hdot | hdot
      · exact h.2.1 hdot
      · exact h.2.2.1 hdot
    · rw [not_or] at hdot
      rw [served_strips hc hdot.1 hdot.2, Option.some_inj, about_asked_iff, path_inj_iff,
        param_eq_iff]
      exact ⟨fun h => ⟨rfl, hdot.1, hdot.2, h⟩, fun h => h.2.2.2⟩

/-- The arrays `md0`, `md1`, ... and the usual names of disks. -/
theorem survives_of_alphanum {name : Str} (h : ∀ c ∈ name, c.isAlphanum = true) : Survives name := by
  have hplain : Plain [name] := fun s hs c hc => h c (List.mem_singleton.mp hs ▸ hc)
  have hdots := plain_not_dots hplain name (List.mem_singleton_self name)
  exact ⟨hdots.1, hdots.2, .inr fun c hc => alike_of_alphanum (h c hc)⟩

/-- Expanding `/dev/md0` by `/dev/sdb`. -/
theorem addDisk_encoded :
    served (.addDisk ⟨"md0", by decide⟩ ⟨"sdb", by decide⟩) =
        some ⟨.AddDisk "/dev/%2Fdev%2Fmd0" "/dev/sdb", none⟩ ∧
      Call.asked (.addDisk ⟨"md0", by decide⟩ ⟨"sdb", by decide⟩) =
        ⟨.AddDisk "/dev/md0" "/dev/sdb", none⟩ :=
  ⟨served_addDisk _ _, rfl⟩

/-! ## Disks of an array -/

variable {σ : Type}

def AddDisk (R : Runner σ) (mdDevice disk : Str) (h : Host σ) : Except Str Unit × Host σ :=
  if !ValidMDDevice mdDevice || !ValidDevice disk then (.error "parametri non validi", h)
  else
    let out := h.run R ⟨"mdadm", ["--add", mdDevice, disk]⟩
    match out.1.err with
    | some e => (.error e, out.2)
    | none => (.ok (), out.2)

def RemoveDisk (R : Runner σ) (mdDevice disk : Str) (h : Host σ) : Except Str Unit × Host σ :=
  if !ValidMDDevice mdDevice || !ValidDevice disk then (.error "parametri non validi", h)
  else
    let failed := h.run R ⟨"mdadm", ["--fail", mdDevice, disk]⟩
    match failed.1.err with
    | some e => (.error e, failed.2)
    | none =>
      let removed := failed.2.run R ⟨"mdadm", ["--remove", mdDevice, disk]⟩
      match removed.1.err with
      | some e => (.error e, removed.2)
      | none => (.ok (), removed.2)

theorem encoded_invalid (d : Device) : ValidMDDevice ("/dev/" ++ encodeURIComponent d.path) = false :=
  rfl

/-- No array is ever expanded from the interface, whatever the machine. -/
theorem addDisk_refused (R : Runner σ) (md disk : Device) (h : Host σ) :
    ∃ m d, served (.addDisk md disk) = some ⟨.AddDisk m d, none⟩ ∧
      AddDisk R m d h = (.error "parametri non validi", h) := by
  refine ⟨_, _, served_addDisk md disk, ?_⟩
  rw [AddDisk, encoded_invalid md]
  rfl

/-- Nor is a disk ever marked failed. -/
theorem removeDisk_refused (R : Runner σ) (md disk : Device) (h : Host σ) :
    ∃ m d, served (.removeDisk md disk) = some ⟨.RemoveDisk m d, none⟩ ∧
      RemoveDisk R m d h = (.error "parametri non validi", h) := by
  refine ⟨_, _, served_removeDisk md disk, ?_⟩
  rw [RemoveDisk, encoded_invalid md]
  rfl

end Client
end Raid
end Nasd
