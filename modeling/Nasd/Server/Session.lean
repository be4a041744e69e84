import Mathlib.Data.List.Nodup
import Mathlib.Logic.Function.Basic
import Nasd.Lib.Text

/-!
# Nasd.Server.Session

The two stores behind access: the sessions in memory (`internal/auth/auth.go`) and the accounts of
the web interface (the table `app_users`). Time is a number that only grows; a session is admitted
up to and including the moment it expires.

* `SessionStore.Get_eq_some`, `sessions_Delete`, `sessions_gc` — which sessions are admitted, and
  which ones an operation leaves.
* `Accounts.unique` — one row for a username, in every value.
-/

namespace Nasd
namespace Server

open Text

structure Session where
  Token : Str
  Username : Str
  IsAdmin : Bool
  CSRFToken : Str
  ExpiresAt : Nat
  deriving DecidableEq

structure SessionStore where
  sessions : Str → Option Session
  ttl : Nat

namespace SessionStore

def NewSessionStore (ttl : Nat) : SessionStore := ⟨fun _ => none, ttl⟩

/-- The two random tokens are drawn outside; a token already in use is overwritten. -/
def Create (username : Str) (isAdmin : Bool) (token csrf : Str) (now : Nat) (st : SessionStore) :
    Session × SessionStore :=
  let sess : Session := ⟨token, username, isAdmin, csrf, now + st.ttl⟩
  (sess, { st with sessions := Function.update st.sessions token (some sess) })

def Get (token : Str) (now : Nat) (st : SessionStore) : Option Session :=
  match st.sessions token with
  | none => none
  | some sess => if sess.ExpiresAt < now then none else some sess

def Delete (token : Str) (st : SessionStore) : SessionStore :=
  { st with sessions := Function.update st.sessions token none }

/-- Entries past their end are deleted. -/
def gc (now : Nat) (st : SessionStore) : SessionStore :=
  { st with sessions := fun token => (st.sessions token).filter fun v => !decide (v.ExpiresAt < now) }

variable {st : SessionStore} {token : Str} {now : Nat} {sess : Session}

theorem Get_eq_some : st.Get token now = some sess ↔
    st.sessions token = some sess ∧ now ≤ sess.ExpiresAt := by
  unfold Get
  split
  · rename_i h; simp [h]
  · rename_i sess' h
    rw [h]
    split
    · rename_i hexp
      simp only [Option.some.injEq, reduceCtorEq, false_iff]
      rintro ⟨rfl, hle⟩
      omega
    · rename_i hexp
      simp only [Option.some.injEq]
      constructor
      · rintro rfl; exact ⟨rfl, by omega⟩
      · rintro ⟨rfl, -⟩; rfl

theorem sessions_Delete {tok : Str} (h : (st.Delete tok).sessions token = some sess) :
    token ≠ tok ∧ st.sessions token = some sess := by
  by_cases htok : token = tok
  · subst htok
    simp [Delete] at h
  · simp only [Delete, Function.update_of_ne htok] at h
    exact ⟨htok, h⟩

/-- The sweep keeps the entries that `Get` would return at that time. -/
theorem sessions_gc_eq (st : SessionStore) (token : Str) (now : Nat) :
    (st.gc now).sessions token = st.Get token now := by
  ext sess
  rw [Get_eq_some, gc, Option.filter_eq_some_iff, Bool.not_eq_true', decide_eq_false_iff_not,
    Nat.not_lt]

theorem sessions_gc (h : (st.gc now).sessions token = some sess) :
    st.sessions token = some sess := (Get_eq_some.mp (sessions_gc_eq st token now ▸ h)).1

end SessionStore

/-! ## Accounts -/

structure AppUser where
  username : Str
  passwordHash : Str
  isAdmin : Bool
  deriving DecidableEq

/-- The rows of `app_users`, whose column `username` is `UNIQUE`. -/
structure Accounts where
  rows : List AppUser
  unique : (rows.map AppUser.username).Nodup

namespace Accounts

/-- `SELECT ... WHERE username=?` -/
def lookup (username : Str) (a : Accounts) : Option AppUser :=
  a.rows.find? fun u => u.username = username

/-- `INSERT`; `none` when the constraint is violated. -/
def insert (u : AppUser) (a : Accounts) : Option Accounts :=
  if h : u.username ∈ a.rows.map AppUser.username then none
  else some ⟨a.rows ++ [u], by
    rw [List.map_append, List.nodup_append]
    exact ⟨a.unique, by simp, by simpa using fun v hv heq => h (List.mem_map.mpr ⟨v, hv, heq⟩)⟩⟩

def setHash (username hash : Str) (a : Accounts) : Accounts where
  rows := a.rows.map fun u => if u.username = username then { u with passwordHash := hash } else u
  unique := by
    have hnames : (a.rows.map fun u => if u.username = username then
        { u with passwordHash := hash } else u).map AppUser.username =
        a.rows.map AppUser.username := by
      rw [List.map_map]
      exact List.map_congr_left fun u _ => by simp only [Function.comp]; split <;> rfl
    rw [hnames]
    exact a.unique

/-- `DELETE ... WHERE username=?` -/
def delete (username : Str) (a : Accounts) : Accounts where
  rows := a.rows.filter fun u => u.username ≠ username
  unique := a.unique.sublist (List.filter_sublist.map _)

variable {a : Accounts} {u : AppUser} {username : Str}

theorem mem_of_lookup (h : a.lookup username = some u) : u ∈ a.rows ∧ u.username = username :=
  ⟨List.mem_of_find?_eq_some h, by simpa using List.find?_some h⟩

theorem mem_insert {v : AppUser} {a' : Accounts} (h : a.insert v = some a') (hu : u ∈ a.rows) :
    u ∈ a'.rows := by
  unfold insert at h
  split at h
  · cases h
  · cases h; exact List.mem_append_left _ hu

/-- Changing a hash keeps the names and the roles. -/
theorem mem_setHash {hash : Str} (hu : u ∈ a.rows) :
    ∃ u' ∈ (a.setHash username hash).rows, u'.username = u.username ∧ u'.isAdmin = u.isAdmin := by
  refine ⟨_, List.mem_map.mpr ⟨u, hu, rfl⟩, ?_⟩
  split <;> exact ⟨rfl, rfl⟩

theorem mem_delete : u ∈ (a.delete username).rows ↔ u ∈ a.rows ∧ u.username ≠ username := by
  simp [delete]

end Accounts

end Server
end Nasd
