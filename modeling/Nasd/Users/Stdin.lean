import Nasd.Users.Passwords

/-!
# Nasd.Users.Stdin

What `SetPassword` sends. `chpasswd` reads lines `username:password` and `smbpasswd` reads the
password twice, so the texts must be read as one account and one password, whatever they hold.

* `sent_cases`           — the commands that are run, with their standard input.
* `SetPassword_encodes`  — every username and every password.
-/

namespace Nasd
namespace Users

open Text Go Sys

variable {σ : Type} {S : Shell σ} {P : Passwords S} {username password : Str} {env : σ}

/-! ## Calls -/

/-- A command that was run, with the text on its standard input where it has one. -/
structure Call where
  cmd : Cmd
  stdin : Option Str

/-- The same commands, written down as they are run. -/
def recording (S : Shell σ) : Shell (σ × List Call) where
  run c s := ((S.run c s.1).1, (S.run c s.1).2, s.2 ++ [⟨c, none⟩])
  runStdin text c s :=
    ((S.runStdin text c s.1).1, (S.runStdin text c s.1).2, s.2 ++ [⟨c, some text⟩])

def sent (S : Shell σ) (username password : Str) (env : σ) : List Call :=
  (SetPassword (recording S) username password (env, [])).2.2

theorem SetPassword_recording :
    (SetPassword (recording S) username password (env, [])).1 =
        (SetPassword S username password env).1 ∧
      (SetPassword (recording S) username password (env, [])).2.1 =
        (SetPassword S username password env).2 := by
  unfold SetPassword
  split
  · exact ⟨rfl, rfl⟩
  · split
    · exact ⟨rfl, rfl⟩
    · dsimp only [chpasswd, recording]
      split <;> exact ⟨rfl, rfl⟩

def toChpasswd (username password : Str) : Call :=
  ⟨⟨"chpasswd", []⟩, some (username ++ ":" ++ password ++ "\n")⟩

def toSmbpasswd (username password : Str) : Call :=
  ⟨⟨"smbpasswd", ["-s", "-a", username]⟩, some (password ++ "\n" ++ password ++ "\n")⟩

/-- What `SetPassword` takes. -/
structure Accepted (username password : Str) : Prop where
  name : ValidUsername username = true
  text : ContainsAny password "\n\r" = false
  nonempty : password ≠ []

theorem sent_refused (h : ¬ Accepted username password) : sent S username password env = [] := by
  have hrefused : ∃ e, SetPassword (recording S) username password (env, []) =
      (.error e, (env, [])) := SetPassword_refused fun hok => h ⟨hok.1, hok.2.1, hok.2.2⟩
  obtain ⟨e, he⟩ := hrefused
  rw [sent, he]

/-- Samba is told only where the system has taken the password. -/
theorem sent_accepted (h : Accepted username password) : sent S username password env =
    if (chpasswd S username password env).1.err = none then
      [toChpasswd username password, toSmbpasswd username password]
    else [toChpasswd username password] := by
  rw [sent, SetPassword_eq h.name h.text h.nonempty]
  have hanswer : (chpasswd (recording S) username password (env, [])).1 =
      (chpasswd S username password env).1 := rfl
  rw [hanswer]
  cases (chpasswd S username password env).1.err with
  | none => rfl
  | some e => rw [if_neg (Option.some_ne_none e)]; rfl

/-! ## Reading the texts -/

/-- One line, cut at its first `:` into the account and the password; the command line is the same
for every password. -/
structure ReadByChpasswd (username password : Str) (c : Call) : Prop where
  cmd : c.cmd = ⟨"chpasswd", []⟩
  stdin : ∃ text line, c.stdin = some text ∧ readLines text = [line] ∧
    cut ':' line = some (username, password)

/-- Two lines, both the password. -/
structure ReadBySmbpasswd (username password : Str) (c : Call) : Prop where
  cmd : c.cmd = ⟨"smbpasswd", ["-s", "-a", username]⟩
  stdin : ∃ text, c.stdin = some text ∧ readLines text = [password, password]

theorem toChpasswd_read (h : Accepted username password) :
    ReadByChpasswd username password (toChpasswd username password) := by
  obtain ⟨hcolon, hname⟩ := validUsername_chars h.name
  have hline : ∀ l ∈ [username ++ ':' :: password], '\n' ∉ l := by
    intro l hl hmem
    rw [List.mem_singleton.mp hl, List.mem_append] at hmem
    rcases hmem with hmem | hmem
    · exact hname hmem
    · rcases List.mem_cons.mp hmem with hmem | hmem
      · cases hmem
      · exact newline_not_mem h.text hmem
  refine ⟨rfl, _, username ++ ':' :: password, rfl, ?_, cut_append hcolon _⟩
  have hread := readLines_terminated hline
  simpa using hread

theorem toSmbpasswd_read (h : Accepted username password) :
    ReadBySmbpasswd username password (toSmbpasswd username password) := by
  have hline : ∀ l ∈ [password, password], '\n' ∉ l := by
    intro l hl
    obtain rfl : l = password := by simpa using hl
    exact newline_not_mem h.text
  refine ⟨rfl, _, rfl, ?_⟩
  have hread := readLines_terminated hline
  simpa using hread

/-! ## Every username and password -/

/-- The calls are for one account and one password. -/
def Encodes (username password : Str) : List Call → Prop
  | [c] => ReadByChpasswd username password c
  | [c, c'] => ReadByChpasswd username password c ∧ ReadBySmbpasswd username password c'
  | _ => False

theorem sent_encodes (h : Accepted username password) :
    Encodes username password (sent S username password env) := by
  rw [sent_accepted h]
  split
  · exact ⟨toChpasswd_read h, toSmbpasswd_read h⟩
  · exact toChpasswd_read h

/-- No other account is touched, for any programs that do what the two promise for one line and
for two. -/
theorem SetPassword_other {name : Str} (hne : name ≠ username) :
    P.system (SetPassword S username password env).2 name = P.system env name ∧
      P.samba (SetPassword S username password env).2 name = P.samba env name := by
  by_cases h : Accepted username password
  · have hline := newline_not_mem h.text
    obtain ⟨hcolon, hname⟩ := validUsername_chars h.name
    obtain ⟨hsamba, hsystem⟩ := P.chpasswd username password env hcolon hname hline
    have hsystem' : P.system (chpasswd S username password env).2 name = P.system env name := by
      rw [hsystem]
      split
      · exact Function.update_of_ne hne ..
      · rfl
    rw [SetPassword_eq h.name h.text h.nonempty]
    cases (chpasswd S username password env).1.err with
    | some e => exact ⟨hsystem', congrFun hsamba name⟩
    | none =>
      obtain ⟨hsystem₂, hsamba₂⟩ :=
        P.smbpasswd username password (chpasswd S username password env).2 hline
      refine ⟨(congrFun hsystem₂ name).trans hsystem', ?_⟩
      rw [hsamba₂, ← congrFun hsamba name]
      split
      · exact Function.update_of_ne hne ..
      · rfl
  · have hrefused : ∃ e, SetPassword S username password env = (.error e, env) :=
      SetPassword_refused fun hok => h ⟨hok.1, hok.2.1, hok.2.2⟩
    obtain ⟨e, he⟩ := hrefused
    rw [he]
    exact ⟨rfl, rfl⟩

theorem SetPassword_encodes (S : Shell σ) (username password : Str) (env : σ) :
    ((∃ e, SetPassword S username password env = (.error e, env)) ∧
        sent S username password env = [] ∨
      Encodes username password (sent S username password env)) ∧
    ∀ (P : Passwords S) (name : Str), name ≠ username →
      P.system (SetPassword S username password env).2 name = P.system env name ∧
        P.samba (SetPassword S username password env).2 name = P.samba env name := by
  refine ⟨?_, fun P name hne => SetPassword_other hne⟩
  by_cases h : Accepted username password
  · exact .inr (sent_encodes h)
  · exact .inl ⟨SetPassword_refused fun hok => h ⟨hok.1, hok.2.1, hok.2.2⟩, sent_refused h⟩

example : Encodes "anna" "a:b" (sent (σ := Unit) ⟨fun _ _ => (⟨[], [], none⟩, ()),
    fun _ _ _ => (⟨[], [], none⟩, ())⟩ "anna" "a:b" ()) := by
  refine ⟨⟨rfl, _, "anna:a:b", rfl, ?_, ?_⟩, ⟨rfl, _, rfl, ?_⟩⟩ <;> decide

end Users
end Nasd
