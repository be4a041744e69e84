import Nasd.Lib.Text

/-!
# Nasd.Server.Router

The route tree that `NewRouter` builds (`internal/api/router.go`), flattened to its endpoints. Each
endpoint carries the middlewares that run before its handler, outermost first: those of the groups
around it, then its own. The three that run for every request (real IP, recovery from panics,
security headers) decide nothing and are left out, and so are the static files.

* `router_guarded` — every handler that changes the system sits behind `Auth`, `CSRF` and
  `RequireAdmin`, in this order.
-/

namespace Nasd
namespace Server

open Text

inductive Method where
  | get | head | post | put | patch | delete | options | connect | trace
  | other (name : Str)
  deriving DecidableEq

inductive Middleware where
  | auth | csrf | requireAdmin
  deriving DecidableEq

inductive Handler where
  | authLogin | authLogout | authMe
  | userList | userCreate | userDelete | userSetPassword | userListGroups
  | raidListDisks | raidWipeDisk | raidList | raidCreate | raidSmart | raidDeleteArray
  | raidAddDisk | raidRemoveDisk | raidListFilesystems | raidCreateFilesystem
  | raidMountFilesystem | raidUnmountFilesystem | raidGrowFilesystem | raidDeleteFilesystem
  | sharesList | sharesCreate | sharesUpdate | sharesDelete
  | fileList | fileDownload | fileMkdir | fileRename | fileChmod | fileUpload | fileRemove
  | dlnaListDirs | dlnaListFiles | dlnaAddDir | dlnaRemoveDir | dlnaRescan
  | qbtStatus | qbtVolumes | qbtBrowse | qbtMkdir | qbtValidate | qbtConfigure | qbtStart | qbtStop
  | adminLogs | adminReboot | adminShutdown
  | hubServeWS
  deriving DecidableEq

/-- The handlers that change users, shares, arrays, files, media directories, the qBittorrent
service or the power of the machine. -/
def Handler.mutates : Handler → Bool
  | .userCreate | .userDelete | .userSetPassword => true
  | .raidWipeDisk | .raidCreate | .raidDeleteArray | .raidAddDisk | .raidRemoveDisk => true
  | .raidCreateFilesystem | .raidMountFilesystem | .raidUnmountFilesystem => true
  | .raidGrowFilesystem | .raidDeleteFilesystem => true
  | .sharesCreate | .sharesUpdate | .sharesDelete => true
  | .fileMkdir | .fileRename | .fileChmod | .fileUpload | .fileRemove => true
  | .dlnaAddDir | .dlnaRemoveDir | .dlnaRescan => true
  | .qbtMkdir | .qbtConfigure | .qbtStart | .qbtStop => true
  | .adminReboot | .adminShutdown => true
  | _ => false

structure Endpoint where
  middlewares : List Middleware
  method : Method
  pattern : Str
  handler : Handler
  deriving DecidableEq

abbrev Routes := List Endpoint

/-! ## Registration -/

def Get (pattern : Str) (h : Handler) : Routes := [⟨[], .get, pattern, h⟩]
def Post (pattern : Str) (h : Handler) : Routes := [⟨[], .post, pattern, h⟩]
def Put (pattern : Str) (h : Handler) : Routes := [⟨[], .put, pattern, h⟩]
def Delete (pattern : Str) (h : Handler) : Routes := [⟨[], .delete, pattern, h⟩]

/-- Routes behind middlewares: `r.With(m)` before one, or `r.Group` with `r.Use` before several. -/
def Behind (ms : List Middleware) (rs : Routes) : Routes :=
  rs.map fun e => { e with middlewares := ms ++ e.middlewares }

/-- `r.Route(pattern, ...)` -/
def Route (pattern : Str) (rs : Routes) : Routes :=
  rs.map fun e => { e with pattern := pattern ++ e.pattern }

/-! ## The tree -/

def usersRoutes : Routes :=
  Route "/users" (
    Get "/" .userList ++
    Behind [.requireAdmin] (Post "/" .userCreate) ++
    Behind [.requireAdmin] (Delete "/{username}" .userDelete) ++
    Behind [.requireAdmin] (Post "/{username}/password" .userSetPassword)) ++
  Get "/groups" .userListGroups

def raidRoutes : Routes :=
  Route "/raid" (Behind [.requireAdmin] (
    Get "/disks" .raidListDisks ++
    Post "/disks/{device}/wipe" .raidWipeDisk ++
    Get "/arrays" .raidList ++
    Post "/arrays" .raidCreate ++
    Get "/disks/{device}/smart" .raidSmart ++
    Delete "/arrays/{md}" .raidDeleteArray ++
    Post "/arrays/{md}/disks" .raidAddDisk ++
    Delete "/arrays/{md}/disks/{disk}" .raidRemoveDisk ++
    Get "/filesystems" .raidListFilesystems ++
    Post "/arrays/{md}/filesystem" .raidCreateFilesystem ++
    Post "/arrays/{md}/filesystem/mount" .raidMountFilesystem ++
    Post "/arrays/{md}/filesystem/unmount" .raidUnmountFilesystem ++
    Post "/arrays/{md}/filesystem/grow" .raidGrowFilesystem ++
    Delete "/arrays/{md}/filesystem" .raidDeleteFilesystem))

def sharesRoutes : Routes :=
  Route "/shares" (
    Get "/" .sharesList ++
    Behind [.requireAdmin] (
      Post "/" .sharesCreate ++
      Put "/{id}" .sharesUpdate ++
      Delete "/{id}" .sharesDelete))

def filesRoutes : Routes :=
  Route "/files" (Behind [.requireAdmin] (
    Get "/" .fileList ++
    Get "/download" .fileDownload ++
    Post "/mkdir" .fileMkdir ++
    Post "/rename" .fileRename ++
    Post "/chmod" .fileChmod ++
    Post "/upload" .fileUpload ++
    Delete "/" .fileRemove))

def dlnaRoutes : Routes :=
  Route "/dlna" (Behind [.requireAdmin] (
    Get "/dirs" .dlnaListDirs ++
    Get "/files" .dlnaListFiles ++
    Post "/dirs" .dlnaAddDir ++
    Delete "/dirs" .dlnaRemoveDir ++
    Post "/rescan" .dlnaRescan))

def qbtRoutes : Routes :=
  Route "/apps/qbt" (
    Get "/status" .qbtStatus ++
    Get "/volumes" .qbtVolumes ++
    Behind [.requireAdmin] (Get "/browse" .qbtBrowse) ++
    Behind [.requireAdmin] (Post "/mkdir" .qbtMkdir) ++
    Behind [.requireAdmin] (Post "/validate" .qbtValidate) ++
    Behind [.requireAdmin] (Post "/configure" .qbtConfigure) ++
    Behind [.requireAdmin] (Post "/start" .qbtStart) ++
    Behind [.requireAdmin] (Post "/stop" .qbtStop))

def adminRoutes : Routes :=
  Route "/admin" (Behind [.requireAdmin] (
    Get "/logs" .adminLogs ++
    Post "/reboot" .adminReboot ++
    Post "/shutdown" .adminShutdown))

def NewRouter : Routes :=
  Route "/api" (
    Post "/auth/login" .authLogin ++
    Behind [.auth, .csrf] (
      Post "/auth/logout" .authLogout ++
      Get "/auth/me" .authMe ++
      usersRoutes ++ raidRoutes ++ sharesRoutes ++ filesRoutes ++ dlnaRoutes ++ qbtRoutes ++
      adminRoutes)) ++
  Get "/ws" .hubServeWS

/-- The handler of a request, as chi finds it: some registered endpoint of the same method, and the
values of the parameters in its pattern. -/
structure Matcher where
  find : Method → Str → Option (Endpoint × (Str → Str))
  registered : ∀ m path e params, find m path = some (e, params) → e ∈ NewRouter
  sameMethod : ∀ m path e params, find m path = some (e, params) → e.method = m

/-- Segment by segment: a segment in braces is a parameter, any other is itself. -/
def matchSegments : List Str → List Str → Option (List (Str × Str))
  | [], [] => some []
  | p :: ps, seg :: segs =>
    if p.head? = some '{' then
      (matchSegments ps segs).map fun params => ((p.drop 1).dropLast, seg) :: params
    else if p = seg then matchSegments ps segs
    else none
  | _, _ => none

def findBySegments (m : Method) (path : Str) : Routes → Option (Endpoint × (Str → Str))
  | [] => none
  | e :: es =>
    match matchSegments (e.pattern.splitOn '/') (path.splitOn '/') with
    | none => findBySegments m path es
    | some params =>
      if e.method = m then some (e, fun k => (params.lookup k).getD [])
      else findBySegments m path es

theorem findBySegments_spec {m : Method} {path : Str} {e : Endpoint} {params : Str → Str}
    {rs : Routes} (h : findBySegments m path rs = some (e, params)) : e ∈ rs ∧ e.method = m := by
  induction rs with
  | nil => cases h
  | cons e' rs ih =>
    unfold findBySegments at h
    split at h
    · exact ⟨List.mem_cons_of_mem _ (ih h).1, (ih h).2⟩
    · split at h
      · rename_i hm
        cases h
        exact ⟨List.mem_cons_self, hm⟩
      · exact ⟨List.mem_cons_of_mem _ (ih h).1, (ih h).2⟩

def Matcher.bySegments : Matcher where
  find m path := findBySegments m path NewRouter
  registered _ _ _ _ h := (findBySegments_spec h).1
  sameMethod _ _ _ _ h := (findBySegments_spec h).2

/-! ## Guards -/

theorem router_guarded : ∀ e ∈ NewRouter,
    e.handler.mutates = true ∨ .requireAdmin ∈ e.middlewares →
      e.middlewares = [.auth, .csrf, .requireAdmin] := by
  decide

theorem router_methods : ∀ e ∈ NewRouter, e.method ≠ .head ∧ e.method ≠ .options := by
  decide

end Server
end Nasd
