import Nasd.Lib.Query
import Nasd.Raid.Client

/-!
# Nasd.Server.Queries

The calls of the interface that pass a text in the query of their URL (`src/js/api.js`), from the
call to what the handler asks of its manager: the template literal, the browser's own encoding of a
query, the routes, and `r.URL.Query().Get`.

* `parseQuery_asked` — the handler finds the values that the call was given.
* `served_asked`     — the manager is asked about them, whatever is in them.
* `Logs_bounded`     — the journal is asked for a bounded number of lines, of a known unit.
-/

namespace Nasd
namespace Server
namespace Queries

open Text Go Url
open Raid.Client (encodeURIComponent unreserved pathSafe setPath routePath)

/-! ## The interface -/

inductive Call where
  | listFiles (path : Str)
  | removePath (path : Str)
  | qbtBrowse (path : Str)
  | adminLogs (unit : Str) (lines : Nat)
  | removeMediaDir (path : Str)
  | uploadFiles (dirPath : Str)
  | downloadUrl (path : Str)

structure Sent where
  method : Method
  url : Str

/-- `request(method, path)` -/
def request (method : Method) (path : Str) : Sent := ⟨method, "/api" ++ path⟩

def Call.send : Call → Sent
  | .listFiles path => request .get ("/files/?path=" ++ encodeURIComponent path)
  | .removePath path =>
    request .delete ("/files/?path=" ++ encodeURIComponent path ++ "&confirm=true")
  | .qbtBrowse path => request .get ("/apps/qbt/browse?path=" ++ encodeURIComponent path)
  | .adminLogs unit lines =>
    request .get ("/admin/logs?unit=" ++ encodeURIComponent unit ++ "&lines=" ++
      Itoa (if lines = 0 then 300 else lines : Nat))
  | .removeMediaDir path => request .delete ("/dlna/dirs?path=" ++ encodeURIComponent path)
  | .uploadFiles dirPath => ⟨.post, "/api/files/upload?path=" ++ encodeURIComponent dirPath⟩
  | .downloadUrl path => ⟨.get, "/api/files/download?path=" ++ encodeURIComponent path⟩

/-- The characters that a browser leaves alone in a query. -/
def specialQuery (c : Char) : Bool :=
  decide (0x21 ≤ c.toNat ∧ c.toNat ≤ 0x7e) && c ∉ ['"', '#', '<', '>', '\'']

/-- The path and the query that the browser asks for. -/
def fetch (url : Str) : Str × Str :=
  (removeDots (url.takeWhile (· ≠ '?')),
    escape specialQuery (((url.dropWhile (· ≠ '?')).drop 1).takeWhile (· ≠ '#')))

/-! ## The server -/

def KnownUnits : List Str :=
  ["nasd", "smbd", "nmbd", "nfs-server", "minidlna", "qbittorrent", "ssh"]

def validUnit (s : Str) : Bool := KnownUnits.any (s = ·)

/-- The arguments that `Management.Logs` gives `journalctl`. -/
def Logs (unit : Str) (lines : Int) : Except Str (List Str) :=
  let n : Int := if lines ≤ 0 ∨ lines > 2000 then 300 else lines
  let args : List Str := ["--no-pager", "-o", "short-iso", "-n", Itoa n]
  if TrimSpace unit = [] then .ok args
  else if !validUnit (TrimSpace unit) then .error "invalid unit"
  else .ok (args ++ [("-u" : Str), TrimSpace unit])

/-- What a handler asks of its manager. -/
inductive ManagerCall where
  | List (path : Str)
  | Remove (path : Str)
  | OpenForDownload (path : Str)
  | upload (dir : Str)
  | Browse (path : Str)
  | journalctl (args : Except Str (List Str))
  | deleteDir (path : Str)

/-- A number out of the range of `Atoi` is out of the bounds of `Logs` as well, like zero. -/
def handle (query : Values) : Handler → Option ManagerCall
  | .fileList => some (.List (query.Get "path"))
  | .fileRemove =>
    if query.Get "confirm" ≠ "true" then none
    else some (.Remove (query.Get "path"))
  | .fileDownload => some (.OpenForDownload (query.Get "path"))
  | .fileUpload => some (.upload (query.Get "path"))
  | .qbtBrowse => some (.Browse (query.Get "path"))
  | .adminLogs =>
    some (.journalctl (Logs (query.Get "unit") ((Atoi (query.Get "lines")).getD 0)))
  | .dlnaRemoveDir => some (.deleteDir (query.Get "path"))
  | _ => none

/-- From the call of the interface to the call of the manager, when the request gets that far. -/
def served (c : Call) : Option ManagerCall :=
  let asked := fetch c.send.url
  (setPath asked.1).bind fun u =>
    (findBySegments c.send.method (routePath u) NewRouter).bind fun found =>
      handle (parseQuery asked.2) found.1.handler

/-- What the call is for. -/
def Call.asked : Call → ManagerCall
  | .listFiles path => .List path
  | .removePath path => .Remove path
  | .qbtBrowse path => .Browse path
  | .adminLogs unit lines => .journalctl (Logs unit lines)
  | .removeMediaDir path => .deleteDir path
  | .uploadFiles dirPath => .upload dirPath
  | .downloadUrl path => .OpenForDownload path

/-! ## The two halves of a URL -/

def Call.path : Call → Str
  | .listFiles _ | .removePath _ => "/api/files/"
  | .qbtBrowse _ => "/api/apps/qbt/browse"
  | .adminLogs _ _ => "/api/admin/logs"
  | .removeMediaDir _ => "/api/dlna/dirs"
  | .uploadFiles _ => "/api/files/upload"
  | .downloadUrl _ => "/api/files/download"

def Call.pairs : Call → List (Str × Str)
  | .removePath path => [("path", path), ("confirm", "true")]
  | .adminLogs unit lines =>
    [("unit", unit), ("lines", Itoa (if lines = 0 then 300 else lines : Nat))]
  | .listFiles path | .qbtBrowse path | .removeMediaDir path | .uploadFiles path
  | .downloadUrl path => [("path", path)]

def Call.handler : Call → Handler
  | .listFiles _ => .fileList
  | .removePath _ => .fileRemove
  | .qbtBrowse _ => .qbtBrowse
  | .adminLogs _ _ => .adminLogs
  | .removeMediaDir _ => .dlnaRemoveDir
  | .uploadFiles _ => .fileUpload
  | .downloadUrl _ => .fileDownload

theorem encode_digits (n : Nat) : encodeURIComponent (Itoa n) = Itoa n :=
  Raid.Client.encode_plain fun c hc => by simp [Char.isAlphanum, Itoa_digits hc]

theorem encode_true : encodeURIComponent "true" = "true" :=
  Raid.Client.encode_plain (List.all_eq_true.mp rfl)

theorem send_url (c : Call) : c.send.url = c.path ++ '?' :: writeQuery unreserved c.pairs := by
  cases c with
  | removePath path =>
    have htrue : escape unreserved "true" = "true" := encode_true
    rw [Call.pairs, writeQuery_cons_cons, writeQuery_singleton, htrue]
    simp only [Call.send, request, List.append_assoc]
    rfl
  | adminLogs unit lines =>
    have hdigits (n : Nat) : escape unreserved (Itoa n) = Itoa n := encode_digits n
    rw [Call.pairs, writeQuery_cons_cons, writeQuery_singleton, hdigits]
    simp only [Call.send, request, List.append_assoc]
    rfl
  | _ =>
    rw [Call.pairs, writeQuery_singleton]
    simp only [Call.send, request]
    rfl

/-! ## What the browser sends -/

theorem path_safe (c : Call) : ∀ ch ∈ c.path, pathSafe ch = true := by
  cases c <;> exact List.all_eq_true.mp rfl

theorem keys_plain (c : Call) : ∀ kv ∈ c.pairs, PlainKey kv.1 := by
  cases c <;> simp [Call.pairs] <;> decide

theorem keys_kept (c : Call) : ∀ kv ∈ c.pairs, ∀ ch ∈ kv.1, specialQuery ch = true := by
  cases c <;> simp [Call.pairs] <;> decide

theorem pairs_ne_nil (c : Call) : c.pairs ≠ [] := by
  cases c <;> exact List.cons_ne_nil _ _

/-- The characters that neither `encodeURIComponent` nor the browser encodes. -/
def kept (c : Char) : Bool := unreserved c && specialQuery c

theorem kept_separates : Separates kept := by
  unfold Separates
  decide

/-- Nothing in the query ends it. -/
theorem query_no_fragment (c : Call) : ∀ ch ∈ writeQuery unreserved c.pairs, ch ≠ '#' := by
  have hvalue (v : Str) : '#' ∉ escape unreserved v := not_mem_escape rfl (by decide) (by decide)
  refine mem_writeQuery (P := fun ch => ch ≠ '#') (by decide) (by decide) (fun kv hkv ch hch => ?_)
    fun kv _ ch hch => ?_
  · rintro rfl
    cases keys_kept c kv hkv '#' hch
  · rintro rfl
    exact hvalue kv.2 hch

theorem fetch_send (c : Call) : fetch c.send.url = (c.path, writeQuery kept c.pairs) := by
  have hmark : ∀ ch ∈ c.path, (ch ≠ '?' : Bool) = true := by
    intro ch hch
    rw [decide_eq_true_eq]
    rintro rfl
    cases path_safe c '?' hch
  have hdots : removeDots c.path = c.path := by
    cases c <;> rfl
  have hpath : c.send.url.takeWhile (· ≠ '?') = c.path := by
    rw [send_url, List.takeWhile_append_of_pos hmark]
    simp
  have hquery : (c.send.url.dropWhile (· ≠ '?')).drop 1 = writeQuery unreserved c.pairs := by
    rw [send_url, List.dropWhile_append_of_pos hmark]
    simp
  have hwhole : (writeQuery unreserved c.pairs).takeWhile (· ≠ '#') =
      writeQuery unreserved c.pairs :=
    List.takeWhile_eq_self_iff.mpr fun ch hch => decide_eq_true (query_no_fragment c ch hch)
  rw [fetch, hpath, hquery, hwhole, hdots,
    escape_writeQuery rfl (by decide) rfl rfl (keys_kept c)]
  rfl

/-- The handler finds the values that the call was given. -/
theorem parseQuery_asked (c : Call) : parseQuery (fetch c.send.url).2 = c.pairs := by
  rw [fetch_send]
  exact parseQuery_write kept_separates (keys_plain c) (pairs_ne_nil c)

/-! ## What the server does -/

theorem setPath_path (c : Call) : setPath c.path = some ⟨c.path, []⟩ := by
  have hpercent : '%' ∉ c.path := fun hmem => by cases path_safe c '%' hmem
  rw [setPath, unescape_plain hpercent, Option.map_some,
    if_pos (escape_of_kept (path_safe c)).symm]

theorem find_path (c : Call) : ∃ e params,
    findBySegments c.send.method c.path NewRouter = some (e, params) ∧ e.handler = c.handler := by
  cases c <;> exact ⟨_, _, rfl, rfl⟩

theorem validUnit_iff {s : Str} : validUnit s = true ↔ s ∈ KnownUnits := by
  simp [validUnit]

/-- The journal is asked for a bounded number of lines, and of a unit only if it is known. -/
theorem Logs_bounded {unit : Str} {lines : Int} {args : List Str} (h : Logs unit lines = .ok args) :
    ∃ n : Int, 0 < n ∧ n ≤ 2000 ∧
      (args = (["--no-pager", "-o", "short-iso", "-n", Itoa n] : List Str) ∨
        ∃ u ∈ KnownUnits,
          args = (["--no-pager", "-o", "short-iso", "-n", Itoa n, "-u", u] : List Str)) := by
  refine ⟨if lines ≤ 0 ∨ lines > 2000 then 300 else lines, by split <;> omega,
    by split <;> omega, ?_⟩
  simp only [Logs] at h
  split at h
  · cases h
    exact .inl rfl
  · split at h
    · cases h
    · rename_i hvalid
      cases h
      rw [Bool.not_eq_true', Bool.not_eq_false] at hvalid
      exact .inr ⟨TrimSpace unit, validUnit_iff.mp hvalid, rfl⟩

/-- The number of lines is read back, or it is out of bounds and so is what is read. -/
theorem Logs_lines (unit : Str) (lines : Nat) :
    Logs unit ((Atoi (Itoa (if lines = 0 then 300 else lines : Nat))).getD 0) =
      Logs unit lines := by
  by_cases hzero : lines = 0
  · rw [if_pos hzero, Atoi_Itoa (by omega), Option.getD_some, hzero]
    rfl
  · rw [if_neg hzero]
    by_cases hlt : lines < 2 ^ 63
    · rw [Atoi_Itoa hlt, Option.getD_some]
    · have hlarge : ((lines : Int) ≤ 0 ∨ (lines : Int) > 2000) := by omega
      rw [Atoi_large (by omega), Option.getD_none]
      simp only [Logs, if_pos hlarge]
      rfl

/-- The manager is asked about what the call was given, whatever is in it. -/
theorem served_asked (c : Call) : served c = some c.asked := by
  obtain ⟨e, params, hfind, hhandler⟩ := find_path c
  have hroute : routePath ⟨c.path, []⟩ = c.path := rfl
  have hkvs : parseQuery (writeQuery kept c.pairs) = c.pairs :=
    parseQuery_write kept_separates (keys_plain c) (pairs_ne_nil c)
  rw [served, fetch_send, setPath_path, Option.bind_some, hroute, hfind, Option.bind_some, hhandler,
    hkvs]
  cases c with
  | adminLogs unit lines =>
    exact congrArg (fun args => some (ManagerCall.journalctl args)) (Logs_lines unit lines)
  | _ => rfl

end Queries
end Server
end Nasd
