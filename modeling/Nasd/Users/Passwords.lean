import Nasd.Server.Machine
import Nasd.System

/-!
# Nasd.Users.Passwords

The three places where a password is kept: `/etc/shadow` and Samba's database, which
`internal/users/users.go` sets through `chpasswd` and `smbpasswd`, and `app_users`, which the
handlers `create` and `setPassword` write afterwards.

* `SetPassword_keeps_iff`       — when setting a password leaves every password as it was.
* `error_keeps_credentials_iff` — when a request that answers with an error does.
-/

namespace Nasd
namespace Users

open Text Go Sys Server

variable {σ : Type}

/-! ## Manager -/

/-- Commands without and with a text on their standard input. -/
structure Shell (σ : Type) where
  run : Runner σ
  runStdin : Str → Runner σ

def outcome (r : Result) : Except Str Unit :=
  match r.err with
  | some e => .error e
  | none => .ok ()

def CreateUser (S : Shell σ) (username comment : Str) (env : σ) : Except Str Unit × σ :=
  if !ValidUsername username then (.error "nome utente non valido", env)
  else
    let args : List Str := ["-m", "-s", "/bin/bash"]
    let args := if comment ≠ [] then args ++ [("-c" : Str), comment] else args
    let out := S.run ⟨"useradd", args ++ [username]⟩ env
    (outcome out.1, out.2)

def chpasswd (S : Shell σ) (username password : Str) (env : σ) : Result × σ :=
  S.runStdin (username ++ ":" ++ password ++ "\n") ⟨"chpasswd", []⟩ env

def smbpasswd (S : Shell σ) (username password : Str) (env : σ) : Result × σ :=
  S.runStdin (password ++ "\n" ++ password ++ "\n") ⟨"smbpasswd", ["-s", "-a", username]⟩ env

def SetPassword (S : Shell σ) (username password : Str) (env : σ) : Except Str Unit × σ :=
  if !ValidUsername username then (.error "nome utente non valido", env)
  else if ContainsAny password "\n\r" || password = [] then (.error "password non valida", env)
  else
    let out := chpasswd S username password env
    match out.1.err with
    | some e => (.error e, out.2)
    | none => (.ok (), (smbpasswd S username password out.2).2)

/-! ## Passwords of the machine -/

/-- The password that the system and Samba ask of a name, and what the programs do to them:
`useradd` makes an account without one, the other two set one when they succeed. -/
structure Passwords (S : Shell σ) where
  system : σ → Str → Option Str
  samba : σ → Str → Option Str
  useradd : ∀ args env, system (S.run ⟨"useradd", args⟩ env).2 = system env ∧
    samba (S.run ⟨"useradd", args⟩ env).2 = samba env
  chpasswd : ∀ username password env, ':' ∉ username → '\n' ∉ username → '\n' ∉ password →
    samba (chpasswd S username password env).2 = samba env ∧
    system (chpasswd S username password env).2 =
      if (chpasswd S username password env).1.err = none then
        Function.update (system env) username (some password)
      else system env
  smbpasswd : ∀ username password env, '\n' ∉ password →
    system (smbpasswd S username password env).2 = system env ∧
    samba (smbpasswd S username password env).2 =
      if (smbpasswd S username password env).1.err = none then
        Function.update (samba env) username (some password)
      else samba env

variable {S : Shell σ} {P : Passwords S} {username password comment : Str} {env env' : σ}

theorem validUsername_chars (h : ValidUsername username = true) :
    ':' ∉ username ∧ '\n' ∉ username := by
  cases username with
  | nil => exact ⟨List.not_mem_nil, List.not_mem_nil⟩
  | cons c cs =>
    simp only [ValidUsername, Bool.and_eq_true, Bool.or_eq_true, decide_eq_true_eq,
      List.all_eq_true] at h
    obtain ⟨⟨hc, -⟩, hcs⟩ := h
    have hall : ∀ d ∈ c :: cs, ((d.isLower = true ∨ d.isDigit = true) ∨ d = '_') ∨ d = '-' := by
      intro d hd
      rcases List.mem_cons.mp hd with rfl | hd
      · rcases hc with hc | hc
        · exact .inl (.inl (.inl hc))
        · exact .inl (.inr hc)
      · exact hcs d hd
    constructor
    · intro hmem; revert hall; exact fun hall => absurd (hall _ hmem) (by decide)
    · intro hmem; revert hall; exact fun hall => absurd (hall _ hmem) (by decide)

theorem newline_not_mem (h : ContainsAny password "\n\r" = false) : '\n' ∉ password := by
  intro hmem
  rw [ContainsAny, List.any_eq_false] at h
  exact h _ hmem (by decide)

/-- Both passwords of every name are as they were. -/
def Same (P : Passwords S) (env env' : σ) : Prop :=
  P.system env' = P.system env ∧ P.samba env' = P.samba env

theorem CreateUser_same : Same P env (CreateUser S username comment env).2 := by
  unfold CreateUser
  split
  · exact ⟨rfl, rfl⟩
  · exact P.useradd _ _

/-- `SetPassword` sets a password that is not the account's already. -/
structure Sets (P : Passwords S) (username password : Str) (env : σ) : Prop where
  name : ValidUsername username = true
  text : ContainsAny password "\n\r" = false
  nonempty : password ≠ []
  ran : (chpasswd S username password env).1.err = none
  differs : P.system env username ≠ some password ∨
    (smbpasswd S username password (chpasswd S username password env).2).1.err = none ∧
      P.samba env username ≠ some password

theorem SetPassword_refused
    (h : ¬ (ValidUsername username = true ∧ ContainsAny password "\n\r" = false ∧ password ≠ [])) :
    ∃ e, SetPassword S username password env = (.error e, env) := by
  unfold SetPassword
  split
  · exact ⟨_, rfl⟩
  · split
    · exact ⟨_, rfl⟩
    · rename_i hname htext
      refine absurd ⟨by simpa using hname, ?_⟩ h
      simpa using htext

theorem SetPassword_eq (hname : ValidUsername username = true)
    (htext : ContainsAny password "\n\r" = false) (hne : password ≠ []) :
    SetPassword S username password env =
      match (chpasswd S username password env).1.err with
      | some e => (.error e, (chpasswd S username password env).2)
      | none => (.ok (), (smbpasswd S username password (chpasswd S username password env).2).2) := by
  have hbad : (ContainsAny password "\n\r" || decide (password = [])) = false := by
    rw [htext, decide_eq_false hne]
    rfl
  unfold SetPassword
  rw [if_neg (by simp [hname]), if_neg (by rw [hbad]; exact Bool.false_ne_true)]

theorem SetPassword_keeps_iff :
    Same P env (SetPassword S username password env).2 ↔ ¬ Sets P username password env := by
  by_cases hok : ValidUsername username = true ∧ ContainsAny password "\n\r" = false ∧ password ≠ []
  · obtain ⟨hname, htext, hne⟩ := hok
    have hline := newline_not_mem htext
    obtain ⟨hcolon, hname'⟩ := validUsername_chars hname
    obtain ⟨hsamba, hsystem⟩ := P.chpasswd username password env hcolon hname' hline
    rw [SetPassword_eq hname htext hne]
    cases hrun : (chpasswd S username password env).1.err with
    | some e =>
      refine iff_of_true ⟨?_, hsamba⟩ fun hs => by simpa [hrun] using hs.ran
      rw [hsystem, hrun, if_neg (by simp)]
    | none =>
      obtain ⟨hsystem', hsamba'⟩ :=
        P.smbpasswd username password (chpasswd S username password env).2 hline
      rw [hrun, if_pos rfl] at hsystem
      simp only [Same, hsystem', hsamba', hsystem, hsamba, Function.update_eq_self_iff]
      constructor
      · rintro ⟨hsame, hsame'⟩ ⟨-, -, -, -, hdiff | ⟨hran, hdiff⟩⟩
        · exact hdiff hsame.symm
        · rw [if_pos hran, Function.update_eq_self_iff] at hsame'
          exact hdiff hsame'.symm
      · intro hnot
        have hkept : P.system env username = some password := by
          by_contra hdiff
          exact hnot ⟨hname, htext, hne, hrun, .inl hdiff⟩
        refine ⟨hkept.symm, ?_⟩
        split
        · rename_i hran
          rw [Function.update_eq_self_iff]
          by_contra hdiff
          exact hnot ⟨hname, htext, hne, hrun, .inr ⟨hran, fun heq => hdiff heq.symm⟩⟩
        · rfl
  · have hkept : ∃ e, SetPassword S username password env = (.error e, env) :=
      SetPassword_refused hok
    obtain ⟨e, he⟩ := hkept
    rw [he]
    exact iff_of_true ⟨rfl, rfl⟩ fun hs => hok ⟨hs.name, hs.text, hs.nonempty⟩

theorem SetPassword_error {e : Str} (h : (SetPassword S username password env).1 = .error e) :
    ¬ Sets P username password env := by
  rintro ⟨hname, htext, hne, hran, -⟩
  rw [SetPassword_eq hname htext hne, hran] at h
  cases h

/-! ## Handlers -/

/-- The hash that bcrypt makes of the password, with its salt, and the error of the database
statement when there is one. -/
structure Answers where
  hash : Str
  dbErr : Option Str

/-- bcrypt refuses more than 72 bytes. -/
def HashPassword (d : Answers) (password : Str) : Option Str :=
  if 72 < (password.flatMap String.utf8EncodeChar).length then none else some d.hash

structure Backend (σ : Type) where
  accounts : Accounts
  env : σ

/-- The two requests with their bodies, `none` when they cannot be decoded. -/
inductive Request where
  | create (body : Option CreateReq)
  | setPassword (username : Str) (body : Option Str)

def create (S : Shell σ) (d : Answers) (body : Option CreateReq) (b : Backend σ) :
    Reply × Backend σ :=
  match body with
  | none => (.error 400 "bad_request", b)
  | some req =>
    if req.Password = [] then (.error 400 "password_required", b)
    else
      let env := (CreateUser S req.Username req.Comment b.env).2
      let env := (SetPassword S req.Username req.Password env).2
      match HashPassword d req.Password with
      | none => (.error 500 "hash_error", { b with env := env })
      | some hash =>
        match d.dbErr with
        | some e => (.error 422 e, { b with env := env })
        | none =>
          match b.accounts.insert ⟨req.Username, hash, req.IsAdmin⟩ with
          | none => (.error 422 uniqueViolation, { b with env := env })
          | some accounts => (.status 201 "created", ⟨accounts, env⟩)

def setPassword (S : Shell σ) (d : Answers) (username : Str) (body : Option Str) (b : Backend σ) :
    Reply × Backend σ :=
  match body with
  | none => (.error 400 "bad_request", b)
  | some password =>
    if password = [] then (.error 400 "bad_request", b)
    else
      let out := SetPassword S username password b.env
      match out.1 with
      | .error e => (.error 422 e, { b with env := out.2 })
      | .ok () =>
        match HashPassword d password with
        | none => (.error 500 "hash_error", { b with env := out.2 })
        | some hash =>
          match d.dbErr with
          | some e => (.error 422 e, { b with env := out.2 })
          | none => (.status 200 "ok", ⟨b.accounts.setHash username hash, out.2⟩)

def handle (S : Shell σ) (d : Answers) (b : Backend σ) : Request → Reply × Backend σ
  | .create body => create S d body b
  | .setPassword username body => setPassword S d username body b

/-- The server's `create` is this one when no statement fails and setting the machine's passwords
is what it does to the rest of the system. -/
theorem create_serves {A : App σ} {r : Server.Request} {draw : Draw} {s : State σ} {d : Answers}
    (hworld : ∀ req, r.body.create = some req → A.handle .userCreate r s.world =
      (SetPassword S req.Username req.Password (CreateUser S req.Username req.Comment s.world).2).2)
    (hhash : ∀ req, r.body.create = some req → draw.hash = HashPassword d req.Password)
    (hdb : d.dbErr = none) :
    Server.create A r draw s =
      ((create S d r.body.create ⟨s.accounts, s.world⟩).1,
        { s with
          accounts := (create S d r.body.create ⟨s.accounts, s.world⟩).2.accounts
          world := (create S d r.body.create ⟨s.accounts, s.world⟩).2.env }) := by
  unfold Server.create create
  cases hbody : r.body.create with
  | none => rfl
  | some req =>
    simp only [hworld req hbody, hhash req hbody, hdb]
    split
    · rfl
    · cases HashPassword d req.Password with
      | none => rfl
      | some hash =>
        simp only
        cases Accounts.insert ⟨req.Username, hash, req.IsAdmin⟩ s.accounts <;> rfl

theorem setPassword_serves {A : App σ} {r : Server.Request} {draw : Draw} {s : State σ}
    {d : Answers}
    (hworld : ∀ password, r.body.password = some password → A.handle .userSetPassword r s.world =
      (SetPassword S username password s.world).2)
    (herr : ∀ password, r.body.password = some password →
      (SetPassword S username password s.world).1 =
        match draw.passwordErr with
        | some e => .error e
        | none => .ok ())
    (hhash : ∀ password, r.body.password = some password → draw.hash = HashPassword d password)
    (hdb : d.dbErr = none) :
    Server.setPassword A r draw username s =
      ((setPassword S d username r.body.password ⟨s.accounts, s.world⟩).1,
        { s with
          accounts := (setPassword S d username r.body.password ⟨s.accounts, s.world⟩).2.accounts
          world := (setPassword S d username r.body.password ⟨s.accounts, s.world⟩).2.env }) := by
  unfold Server.setPassword setPassword
  cases hbody : r.body.password with
  | none => rfl
  | some password =>
    simp only [hworld password hbody, herr password hbody, hhash password hbody, hdb]
    split
    · rfl
    · cases draw.passwordErr with
      | some e => rfl
      | none => cases HashPassword d password <;> rfl

/-! ## Requests that answer with an error -/

def IsError : Reply → Prop
  | .error _ _ => True
  | _ => False

@[simp] theorem isError_error {code : Nat} {msg : Str} : IsError (.error code msg) := trivial

@[simp] theorem isError_status {code : Nat} {msg : Str} : ¬ IsError (.status code msg) := id

/-- No credential of any account has changed. -/
structure Keeps (P : Passwords S) (b b' : Backend σ) : Prop where
  machine : Same P b.env b'.env
  hashes : ∀ username, (b'.accounts.lookup username).map AppUser.passwordHash =
    (b.accounts.lookup username).map AppUser.passwordHash

/-- What fails after the password was set: bcrypt, or the statement on `app_users`. -/
def FailsLate (d : Answers) (b : Backend σ) : Request → Prop
  | .create (some req) => HashPassword d req.Password = none ∨ d.dbErr ≠ none ∨
      req.Username ∈ b.accounts.rows.map AppUser.username
  | .setPassword _ (some password) => HashPassword d password = none ∨ d.dbErr ≠ none
  | _ => False

/-- The request sets a password of the machine that is not the account's already. -/
def SetsPassword (P : Passwords S) (b : Backend σ) : Request → Prop
  | .create (some req) =>
    Sets P req.Username req.Password (CreateUser S req.Username req.Comment b.env).2
  | .setPassword username (some password) => Sets P username password b.env
  | _ => False

variable {d : Answers} {b : Backend σ}

theorem keeps_accounts : Keeps P b { b with env := env } ↔ Same P b.env env :=
  ⟨fun h => h.machine, fun h => ⟨h, fun _ => rfl⟩⟩

theorem keeps_refl : Keeps P b b := ⟨⟨rfl, rfl⟩, fun _ => rfl⟩

theorem create_keeps_iff {req : CreateReq} :
    Same P b.env (SetPassword S req.Username req.Password
        (CreateUser S req.Username req.Comment b.env).2).2 ↔
      ¬ SetsPassword P b (.create (some req)) := by
  obtain ⟨hsystem, hsamba⟩ : Same P b.env (CreateUser S req.Username req.Comment b.env).2 :=
    CreateUser_same
  rw [SetsPassword, ← SetPassword_keeps_iff, Same, Same, hsystem, hsamba]

theorem insert_eq_none {u : AppUser} {a : Accounts} :
    a.insert u = none ↔ u.username ∈ a.rows.map AppUser.username := by
  unfold Accounts.insert
  split
  · rename_i hmem; simp only [hmem]
  · rename_i hmem; simp only [hmem, reduceCtorEq]

theorem create_error_iff (req : CreateReq) :
    (IsError (create S d (some req) b).1 → Keeps P b (create S d (some req) b).2) ↔
      ¬ (FailsLate d b (.create (some req)) ∧ SetsPassword P b (.create (some req))) := by
  by_cases hempty : req.Password = []
  · simp only [create, hempty, if_true]
    exact iff_of_true (fun _ => keeps_refl) fun h => h.2.nonempty hempty
  · rw [not_and, ← create_keeps_iff]
    simp only [create, hempty, if_false, FailsLate]
    cases hhash : HashPassword d req.Password with
    | none => simp only [isError_error, keeps_accounts, true_or, forall_const]
    | some hash =>
      cases hdb : d.dbErr with
      | some e => simp only [isError_error, keeps_accounts, ne_eq, reduceCtorEq, not_false_eq_true,
          true_or, or_true, forall_const]
      | none =>
        simp only [ne_eq, not_true_eq_false, reduceCtorEq, false_or]
        rw [← insert_eq_none (u := ⟨req.Username, hash, req.IsAdmin⟩)]
        cases hins : b.accounts.insert ⟨req.Username, hash, req.IsAdmin⟩ with
        | none => simp only [isError_error, keeps_accounts, forall_const]
        | some accounts => simp only [isError_status, reduceCtorEq, IsEmpty.forall_iff]

theorem setPassword_error_iff (username password : Str) :
    (IsError (setPassword S d username (some password) b).1 →
        Keeps P b (setPassword S d username (some password) b).2) ↔
      ¬ (FailsLate d b (.setPassword username (some password)) ∧
        SetsPassword P b (.setPassword username (some password))) := by
  by_cases hempty : password = []
  · simp only [setPassword, hempty, if_true]
    exact iff_of_true (fun _ => keeps_refl) fun h => h.2.nonempty rfl
  · rw [not_and, SetsPassword, ← SetPassword_keeps_iff]
    simp only [setPassword, hempty, if_false, FailsLate]
    cases hset : (SetPassword S username password b.env).1 with
    | error e =>
      have hkept := SetPassword_keeps_iff.mpr (SetPassword_error (P := P) hset)
      simp only [isError_error, keeps_accounts, hkept, implies_true]
    | ok u =>
      cases hhash : HashPassword d password with
      | none => simp only [isError_error, keeps_accounts, true_or, forall_const]
      | some hash =>
        cases hdb : d.dbErr with
        | some e => simp only [isError_error, keeps_accounts, ne_eq, reduceCtorEq,
            not_false_eq_true, or_true, forall_const]
        | none => simp only [isError_status, ne_eq, reduceCtorEq, not_true_eq_false, or_self,
            IsEmpty.forall_iff]

/-- A request that answers with an error changes no credential, exactly unless it fails after the
password and the password took. -/
theorem error_keeps_credentials_iff (P : Passwords S) (d : Answers) (b : Backend σ) (q : Request) :
    (IsError (handle S d b q).1 → Keeps P b (handle S d b q).2) ↔
      ¬ (FailsLate d b q ∧ SetsPassword P b q) := by
  cases q with
  | create body =>
    cases body with
    | none => exact iff_of_true (fun _ => keeps_refl) fun h => h.1
    | some req => exact create_error_iff req
  | setPassword username body =>
    cases body with
    | none => exact iff_of_true (fun _ => keeps_refl) fun h => h.1
    | some password => exact setPassword_error_iff username password

/-! ## A machine on which every command succeeds -/

/-- The text before the first such character. -/
def upTo (c : Char) (t : Str) : Str := t.takeWhile (· ≠ c)

theorem upTo_append {c : Char} {t : Str} (ht : c ∉ t) (rest : Str) :
    upTo c (t ++ c :: rest) = t := by
  unfold upTo
  have hbefore : ∀ a ∈ t, decide (a ≠ c) = true :=
    fun a ha => decide_eq_true fun heq : a = c => ht (heq ▸ ha)
  rw [List.takeWhile_append_of_pos hbefore]
  simp

/-- The two databases of passwords. -/
structure Stores where
  system : Str → Option Str
  samba : Str → Option Str

def obedient : Shell Stores where
  run _ env := (⟨[], [], none⟩, env)
  runStdin input c env :=
    if c.name = "chpasswd" then
      let password := upTo '\n' (input.drop ((upTo ':' input).length + 1))
      (⟨[], [], none⟩,
        { env with system := Function.update env.system (upTo ':' input) (some password) })
    else match c.args with
    | [_, _, username] =>
      (⟨[], [], none⟩,
        { env with samba := Function.update env.samba username (some (upTo '\n' input)) })
    | _ => (⟨[], [], none⟩, env)

def obedientPasswords : Passwords obedient where
  system := Stores.system
  samba := Stores.samba
  useradd _ _ := ⟨rfl, rfl⟩
  chpasswd username password env hcolon hline hpass := by
    have hinput : username ++ ":" ++ password ++ "\n" = username ++ ':' :: (password ++ ['\n']) := by
      simp
    have hrest : (username ++ ':' :: (password ++ ['\n'])).drop (username.length + 1) =
        password ++ ['\n'] := by
      rw [List.drop_append]
      simp
    refine ⟨rfl, ?_⟩
    show Function.update env.system _ _ = Function.update env.system _ _
    rw [hinput, upTo_append hcolon, hrest, upTo_append hpass]
  smbpasswd username password env hpass := by
    refine ⟨rfl, ?_⟩
    show Function.update env.samba _ _ = Function.update env.samba _ _
    have hinput : password ++ "\n" ++ password ++ "\n" = password ++ '\n' :: (password ++ ['\n']) := by
      simp
    rw [hinput, upTo_append hpass]

def adminOnly : Accounts where
  rows := [⟨"admin", "$2a$12$old", true⟩]
  unique := List.nodup_singleton _

/-- Creating `admin` again answers that the name is taken, and leaves the system's and Samba's
`admin` with the password of the request; a password of 73 bytes answers `hash_error` and is set. -/
theorem error_changes_passwords :
    ¬ (IsError (handle obedient ⟨"$2a$12$new", none⟩
          ⟨adminOnly, ⟨fun _ => none, fun _ => none⟩⟩
          (.create (some ⟨"admin", [], "guess", false⟩))).1 →
        Keeps obedientPasswords ⟨adminOnly, ⟨fun _ => none, fun _ => none⟩⟩
          (handle obedient ⟨"$2a$12$new", none⟩ ⟨adminOnly, ⟨fun _ => none, fun _ => none⟩⟩
            (.create (some ⟨"admin", [], "guess", false⟩))).2) ∧
    ¬ (IsError (handle obedient ⟨"$2a$12$new", none⟩
          ⟨adminOnly, ⟨fun _ => none, fun _ => none⟩⟩
          (.setPassword "admin" (some (List.replicate 73 'x')))).1 →
        Keeps obedientPasswords ⟨adminOnly, ⟨fun _ => none, fun _ => none⟩⟩
          (handle obedient ⟨"$2a$12$new", none⟩ ⟨adminOnly, ⟨fun _ => none, fun _ => none⟩⟩
            (.setPassword "admin" (some (List.replicate 73 'x')))).2) := by
  constructor
  · intro h
    have hsame := congrFun (h trivial).machine.1 "admin"
    revert hsame
    decide +kernel
  · intro h
    have hsame := congrFun (h trivial).machine.1 "admin"
    revert hsame
    decide +kernel

end Users
end Nasd
