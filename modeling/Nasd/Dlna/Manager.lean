import Mathlib.Data.Char
import Mathlib.Data.List.Lex
import Mathlib.Data.List.Nodup
import Mathlib.Data.List.Sort
import Nasd.Script

/-!
# Nasd.Dlna.Manager

The media directories of the DLNA server: the table `media_dirs`, `Configure` of
`internal/dlna/dlna.go`, and the handlers `addDir` and `removeDir` of `internal/api/handlers.go`.

* `confText`         — `minidlna.conf` for a list of directories.
* `Configure_ok_iff` — `Configure` as a script.
-/

namespace Nasd
namespace Dlna

open Text Go Sys

variable {σ : Type} {O : OS σ} {h h' : Host σ}

/-- A directory with the kind of its media: `A`, `V`, `P`, or nothing for all of them. -/
structure MediaDir where
  path : Str
  type : Str
  deriving DecidableEq

/-- The rows of `media_dirs`; the paths are unique. -/
structure MediaDirs where
  rows : List MediaDir
  paths : (rows.map MediaDir.path).Nodup

def MediaDirs.empty : MediaDirs := ⟨[], List.nodup_nil⟩

/-- `SELECT … ORDER BY path` -/
def loadDirs (t : MediaDirs) : List MediaDir := t.rows.insertionSort fun d e => d.path ≤ e.path

/-! ## Configuration -/

def miniDLNAConf : Str := "/etc/minidlna.conf"

def sanitize (s : Str) : Str := s.filter fun c => c ≠ '\n' && c ≠ '\r'

def confHeader (name : Str) : Str :=
  "# Generato da nasd\n" ++ ("friendly_name=" ++ sanitize name ++ "\n") ++
    "db_dir=/var/cache/minidlna\n" ++ "log_dir=/var/log\n" ++ "inotify=yes\n"

def dirLine (d : MediaDir) : Str :=
  if d.type ≠ [] then "media_dir=" ++ d.type ++ "," ++ d.path ++ "\n"
  else "media_dir=" ++ d.path ++ "\n"

def dirLines : List MediaDir → Except Str Str
  | [] => .ok []
  | d :: rest =>
    if ContainsAny d.path "\n" then .error "percorso non valido"
    else match dirLines rest with
      | .error e => .error e
      | .ok ts => .ok (dirLine d ++ ts)

def confText (name : Str) (dirs : List MediaDir) : Except Str Str :=
  (dirLines dirs).map (confHeader name ++ ·)

def restartMiniDLNA : Cmd := ⟨"systemctl", ["restart", "minidlna"]⟩

def Configure (O : OS σ) (name : Str) (dirs : List MediaDir) (h : Host σ) :
    Except Str Unit × Host σ :=
  match confText name dirs with
  | .error e => (.error e, h)
  | .ok t =>
    match h.tryWrite O miniDLNAConf t with
    | (.error e, h) => (.error e, h)
    | (.ok (), h) =>
      let out := h.run O.run restartMiniDLNA
      (match out.1.err with | some e => .error e | none => .ok (), out.2)

def configureOps (text : Str) : List Op := [.write miniDLNAConf text, .must restartMiniDLNA]

theorem Configure_ok_iff {name : Str} {dirs : List MediaDir} :
    Configure O name dirs h = (.ok (), h') ↔
      ∃ text, confText name dirs = .ok text ∧ performs O (configureOps text) h = some h' := by
  unfold Configure configureOps
  cases htext : confText name dirs with
  | error e => simp
  | ok text =>
    simp only [Except.ok.injEq, exists_eq_left', performs_cons, Op.perform]
    cases hwrite : h.tryWrite O miniDLNAConf text with
    | mk r h₁ =>
      cases r with
      | error e => simp
      | ok u =>
        simp only [Option.some.injEq, exists_eq_left']
        cases hrun : (h₁.run O.run restartMiniDLNA).1.err with
        | none => simp
        | some e => simp

/-! ## Handlers -/

/-- A status code and the text that goes with it. -/
structure Reply where
  code : Nat
  text : Str
  deriving DecidableEq

def Reply.failed (r : Reply) : Prop := 400 ≤ r.code

instance (r : Reply) : Decidable r.failed := inferInstanceAs (Decidable (_ ≤ _))

/-- The body of `addDir`, `none` when it is not a directory, and the query of `removeDir`. -/
inductive Request where
  | addDir (body : Option MediaDir)
  | removeDir (path : Str)

inductive Stmt where
  | insert (d : MediaDir)
  | delete (path : Str)

def check : Request → Except Reply Stmt
  | .addDir none => .error ⟨400, "bad_request"⟩
  | .addDir (some d) =>
    if !HasPrefix d.path "/" || ContainsAny d.path "\n\r\x00" then
      .error ⟨422, "percorso non valido"⟩
    else if d.type ∈ [("" : Str), "A", "V", "P"] then .ok (.insert d)
    else .error ⟨422, "tipo media non valido"⟩
  | .removeDir path => .ok (.delete path)

def uniqueViolation : Str :=
  "constraint failed: UNIQUE constraint failed: media_dirs.path (2067)"

/-- The table after a statement, or the answer when it changes nothing. -/
def Stmt.exec : Stmt → MediaDirs → Except Reply MediaDirs
  | .insert d, t =>
    if hdup : d.path ∈ t.rows.map MediaDir.path then .error ⟨422, uniqueViolation⟩
    else .ok {
      rows := t.rows ++ [d]
      paths := by
        rw [List.map_append]
        exact List.Nodup.append t.paths (List.nodup_singleton _)
          (by rw [List.map_singleton, List.disjoint_singleton]; exact hdup) }
  | .delete path, t =>
    if path ∉ t.rows.map MediaDir.path then .error ⟨404, "not_found"⟩
    else .ok {
      rows := t.rows.filter (·.path ≠ path)
      paths := t.paths.sublist (List.filter_sublist.map _) }

def Stmt.reply : Stmt → Reply
  | .insert _ => ⟨201, "added"⟩
  | .delete _ => ⟨200, "deleted"⟩

def applyFailed (e : Str) : Reply := ⟨500, "apply_failed: " ++ e⟩

/-- The name of the server is a setting. -/
structure Backend (σ : Type) where
  dirs : MediaDirs
  name : Str
  host : Host σ

/-- `addDir` and `removeDir`. -/
def handle (O : OS σ) (q : Request) (b : Backend σ) : Reply × Backend σ :=
  match check q with
  | .error r => (r, b)
  | .ok st =>
    match st.exec b.dirs with
    | .error r => (r, b)
    | .ok t =>
      match Configure O b.name (loadDirs t) b.host with
      | (.error e, h) => (applyFailed e, { b with dirs := t, host := h })
      | (.ok (), h) => (st.reply, { b with dirs := t, host := h })

end Dlna
end Nasd
