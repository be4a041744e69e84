import Nasd.Filemgr.Upload
import Nasd.Files.Changes
import Nasd.Lib.Trace

/-!
# Nasd.Filemgr.Handlers

`fileHandlers` of `internal/api/handlers.go`, with what each request does to the files: the tree,
the bytes, the permissions, and where file systems are mounted.

* `FileHandlers.mkdir`, `rename`, `remove`, `chmod`, `download`, `upload` — one definition each.
* `handle` — a request, and `serve` — one after the other.
-/

namespace Nasd
namespace Filemgr

open Text Go Filepath Dirs Files

/-- The files of the machine. -/
structure Disk extends Store where
  modes : Loc Name → Nat
  mounts : List (Loc Name)

/-- What the process was started with, and what the system says of a call that fails. -/
structure Host where
  umask : Nat
  error : Disk → Str → Str

/-- The permissions that something new gets. -/
def Host.masked (h : Host) (mode : Nat) : Nat := mode &&& (0o777 ^^^ h.umask)

/-- More entries, with these permissions. -/
def Disk.grow (D : Disk) (S : Store) (mode : Nat) : Disk :=
  { toStore := S
    modes := fun l => if (D.tree.node l).isNone && (S.tree.node l).isSome then mode else D.modes l
    mounts := D.mounts }

/-- What was below `src` is below `dst`. -/
def Disk.moved (D : Disk) (src dst : Loc Name) : Disk :=
  { tree := D.tree.move src dst
    bytes := fun l => D.bytes (FileTree.whence src dst l)
    modes := fun l => D.modes (FileTree.whence src dst l)
    mounts := FileTree.moveMounts src dst D.mounts }

def Manager.Rename (m : Manager) (D : Disk) (src dst : Str) : Except Str Renamed :=
  match m.resolve src with
  | .error e => .error e
  | .ok a =>
    match m.resolve dst with
    | .error e => .error e
    | .ok b => .ok (Files.Rename D.tree D.mounts a b)

inductive Reply where
  | done (status : Nat) (text : Str)
  | file (name : Str) (body : Bytes)
  | uploaded (files : List Str)
  | failed (status : Nat) (message : Str)
  deriving DecidableEq

namespace FileHandlers

def mkdir (h : Host) (m : Manager) (D : Disk) : Option Str → Reply × Disk
  | none => (.failed 400 "bad_request", D)
  | some path =>
    match m.Mkdir D.tree path with
    | .error e => (.failed 422 e, D)
    | .ok r =>
      (if r.arrived.isSome then .done 201 "created" else .failed 422 (h.error D path),
        D.grow { D.toStore with tree := r.tree } (h.masked 0o755))

def rename (h : Host) (m : Manager) (D : Disk) : Option (Str × Str) → Reply × Disk
  | none => (.failed 400 "bad_request", D)
  | some (src, dst) =>
    match m.Rename D src dst with
    | .error e => (.failed 422 e, D)
    | .ok .failed => (.failed 422 (h.error D src), D)
    | .ok .same => (.done 200 "renamed", D)
    | .ok (.moved s d) => (.done 200 "renamed", D.moved s d)

/-- What is confirmed is removed, as far as it can be. -/
def remove (h : Host) (m : Manager) (D : Disk) (confirm path : Str) : Reply × Disk :=
  if confirm ≠ "true" then (.failed 428 "confirmation_required", D)
  else
    match m.Remove path with
    | .error e => (.failed 422 e, D)
    | .ok abs =>
      (if (RemoveAll D.tree D.mounts abs).1 then .done 200 "deleted"
        else .failed 422 (h.error D path),
        { D with tree := (RemoveAll D.tree D.mounts abs).2 })

def chmod (h : Host) (m : Manager) (D : Disk) : Option (Str × Str) → Reply × Disk
  | none => (.failed 400 "bad_request", D)
  | some (path, mode) =>
    match ParseUint mode 8 32 with
    | none => (.failed 422 "mode_non_valido", D)
    | some v =>
      if v > 0o777 then (.failed 422 "mode_non_valido", D)
      else
        match m.Chmod D.tree path with
        | .error e => (.failed 422 e, D)
        | .ok none => (.failed 422 (h.error D path), D)
        | .ok (some l) => (.done 200 "chmod_ok", { D with modes := Function.update D.modes l v })

/-- The name is that of the file opened, without the directories. -/
def download (h : Host) (m : Manager) (D : Disk) (path : Str) : Reply :=
  match m.OpenForDownload D.tree path with
  | .error e => .failed 422 e
  | .ok none => .failed 422 (h.error D path)
  | .ok (some l) =>
    match m.resolve path with
    | .error e => .failed 422 e
    | .ok abs => .file (Base abs) (D.bytes l)

def upload (h : Host) (m : Manager) (D : Disk) (path : Str) (body : Option Multipart) :
    Reply × Disk :=
  (match (Filemgr.upload m (h.error D) path body D.toStore).1 with
    | .created files => .uploaded files
    | .fail status message => .failed status message,
    D.grow (Filemgr.upload m (h.error D) path body D.toStore).2 (h.masked 0o644))

end FileHandlers

/-- What changes the files, and a download. -/
inductive Request where
  | mkdir (body : Option Str)
  | rename (body : Option (Str × Str))
  | remove (confirm path : Str)
  | chmod (body : Option (Str × Str))
  | download (path : Str)
  | upload (path : Str) (body : Option Multipart)

def handle (h : Host) (m : Manager) (D : Disk) : Request → Reply × Disk
  | .mkdir body => FileHandlers.mkdir h m D body
  | .rename body => FileHandlers.rename h m D body
  | .remove confirm path => FileHandlers.remove h m D confirm path
  | .chmod body => FileHandlers.chmod h m D body
  | .download path => (FileHandlers.download h m D path, D)
  | .upload path body => FileHandlers.upload h m D path body

/-- The answers to some requests, one after the other, and the files afterwards. -/
def serve (h : Host) (m : Manager) (D : Disk) (reqs : List Request) : List Reply × Disk :=
  Machine.trace (handle h m) D reqs

end Filemgr
end Nasd
