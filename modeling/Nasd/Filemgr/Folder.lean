import Nasd.Filemgr.Handlers

/-!
# Nasd.Filemgr.Folder

What the file manager is for: a folder of files and folders, each at the names that lead to it, with
its permissions. It knows of no path but the names, of no link, and of nothing outside.

* `place`, `way`  — the names that a request comes to, for any text, and those before a NUL.
* `Folder.handle` — what each request does to a folder.
* `view`          — the folder that the files below a root are.
-/

namespace Nasd
namespace Filemgr

open Text Go Filepath Dirs Files

inductive Item where
  | dir (mode : Nat)
  | file (mode : Nat) (body : Bytes)
  deriving DecidableEq

def Item.withMode (mode : Nat) : Item → Item
  | .dir _ => .dir mode
  | .file _ body => .file mode body

@[ext] structure Folder where
  item : Loc Name → Option Item
  mounts : List (Loc Name)

/-- An answer without the text of its error. -/
inductive Outcome where
  | done (status : Nat)
  | file (name : Str) (body : Bytes)
  | uploaded (files : List Str)
  | refused (status : Nat)
  deriving DecidableEq

def Reply.outcome : Reply → Outcome
  | .done status _ => .done status
  | .file name body => .file name body
  | .uploaded files => .uploaded files
  | .failed status _ => .refused status

/-- The names that the text of a request comes to; no name has NUL in it. -/
def place (rel : Str) : Option (Loc Name) :=
  if '\x00' ∈ absPath (normalised rel) then none else some (locOf (absPath (normalised rel)))

/-- The names before the first one with NUL in it. -/
def way (rel : Str) : Loc Name := locOf (absPath ((normalised rel).takeWhile ('\x00' ∉ ·)))

/-- The permissions of new folders and new files. -/
structure Defaults where
  dir : Nat
  file : Nat

namespace Folder

variable (F : Folder)

def isDir (l : Loc Name) : Bool :=
  match F.item l with
  | some (.dir _) => true
  | _ => false

def isFile (l : Loc Name) : Bool :=
  match F.item l with
  | some (.file _ _) => true
  | _ => false

/-- A file stands where a folder would have to be. -/
def blocked (l : Loc Name) : Bool := l.inits.any F.isFile

def mkdir (mode : Nat) (l : Loc Name) : Folder :=
  { F with item := fun m => if m <+: l ∧ F.item m = none then some (.dir mode) else F.item m }

/-- A file or folder can get another name in a folder of the same file system, with whatever is
below it, if no folder has that name; a file may be replaced by a file. -/
def CanRename (s d : Loc Name) : Prop :=
  s ≠ [] ∧ d ≠ [] ∧ F.item s ≠ none ∧ F.isDir d.dropLast = true ∧ F.isDir d = false ∧
    FileTree.sameMount F.mounts s.dropLast d.dropLast = true ∧
    (s = d ∨ ¬ s <+: d ∧ ¬ (F.isDir s = true ∧ F.item d ≠ none) ∧ s ∉ F.mounts ∧ d ∉ F.mounts)

instance (s d : Loc Name) : Decidable (F.CanRename s d) :=
  inferInstanceAs (Decidable (_ ∧ _ ∧ _ ∧ _ ∧ _ ∧ _ ∧ _))

def rename (s d : Loc Name) : Folder where
  item m := if ¬ d <+: m ∧ s <+: m then none else F.item (FileTree.whence s d m)
  mounts := FileTree.moveMounts s d F.mounts

def remove (l : Loc Name) : Folder :=
  { F with item := fun m =>
      if l <+: m ∧ FileTree.holds F.mounts m = false then none else F.item m }

def chmod (mode : Nat) (l : Loc Name) : Folder :=
  { F with item := Function.update F.item l ((F.item l).map (Item.withMode mode)) }

/-- A file is saved in a folder, under a name that no folder has. -/
def CanSave (l : Loc Name) : Prop := l ≠ [] ∧ F.isDir l.dropLast = true ∧ F.isDir l = false

instance (l : Loc Name) : Decidable (F.CanSave l) := inferInstanceAs (Decidable (_ ∧ _ ∧ _))

/-- A file that is there keeps its permissions. -/
def save (mode : Nat) (l : Loc Name) (body : Bytes) : Folder :=
  { F with item := Function.update F.item l <| some <|
      match F.item l with
      | some (.file old _) => .file old body
      | _ => .file mode body }

theorem save_new {F : Folder} {mode : Nat} {l : Loc Name} {body : Bytes} (h : F.item l = none) :
    (F.save mode l body).item l = some (.file mode body) := by
  simp [save, h]

theorem save_over {F : Folder} {mode old : Nat} {l : Loc Name} {body b : Bytes}
    (h : F.item l = some (.file old b)) :
    (F.save mode l body).item l = some (.file old body) := by
  simp [save, h]

theorem save_of_ne {F : Folder} {mode : Nat} {l k : Loc Name} {body : Bytes} (h : k ≠ l) :
    (F.save mode l body).item k = F.item k :=
  Function.update_of_ne h _ _

def upload (mode : Nat) (dir : Str) (closed : Bool) :
    List Part → List Str → Folder → Outcome × Folder
  | [], saved, F => (if closed then .uploaded saved else .refused 400, F)
  | p :: ps, saved, F =>
    if p.FileName = [] then upload mode dir closed ps saved F
    else
      match place (Filepath.Join [dir, p.name]) with
      | none => (.refused 422, F)
      | some l =>
        if F.CanSave l then
          if p.broken.isSome then (.refused 422, F.save mode l p.body)
          else upload mode dir closed ps (saved ++ [p.name]) (F.save mode l p.body)
        else (.refused 422, F)

def handle (new : Defaults) : Request → Outcome × Folder
  | .mkdir none => (.refused 400, F)
  | .mkdir (some path) =>
    match place path with
    | none => (.refused 422, if F.blocked (way path) then F else F.mkdir new.dir (way path))
    | some l => if F.blocked l then (.refused 422, F) else (.done 201, F.mkdir new.dir l)
  | .rename none => (.refused 400, F)
  | .rename (some (src, dst)) =>
    match place src, place dst with
    | some s, some d => if F.CanRename s d then (.done 200, F.rename s d) else (.refused 422, F)
    | _, _ => (.refused 422, F)
  | .remove confirm path =>
    if confirm ≠ "true" then (.refused 428, F)
    else
      match place path with
      | none => (.refused 422, F)
      | some l =>
        if l = [] then (.refused 422, F)
        else if F.item l = none then
          (if F.blocked l then .refused 422 else .done 200, F)
        else
          (if FileTree.holds F.mounts l then .refused 422 else .done 200, F.remove l)
  | .chmod none => (.refused 400, F)
  | .chmod (some (path, mode)) =>
    match ParseUint mode 8 32 with
    | none => (.refused 422, F)
    | some v =>
      if v > 0o777 then (.refused 422, F)
      else
        match place path with
        | none => (.refused 422, F)
        | some l => if F.item l = none then (.refused 422, F) else (.done 200, F.chmod v l)
  | .download path =>
    match place path with
    | none => (.refused 422, F)
    | some l =>
      match F.item l with
      | some (.file _ body) => (.file ((l.getLast?.map Subtype.val).getD []) body, F)
      | _ => (.refused 422, F)
  | .upload _ none => (.refused 400, F)
  | .upload dir (some b) => upload new.file dir b.closed b.parts [] F

def serve (new : Defaults) (reqs : List Request) : List Outcome × Folder :=
  Machine.trace (fun F => F.handle new) F reqs

end Folder

def Disk.item (D : Disk) (l : Loc Name) : Option Item :=
  match D.tree.node l with
  | some .dir => some (.dir (D.modes l))
  | some .file => some (.file (D.modes l) (D.bytes l))
  | _ => none

/-- The folder that the files below `rs` are. -/
def view (rs : List Name) (D : Disk) : Folder where
  item l := D.item (rs ++ l)
  mounts := D.mounts.filterMap fun p => if rs <+: p then some (p.drop rs.length) else none

end Filemgr
end Nasd
