import Nasd.Go

/-!
# Nasd.Config.Yaml

The configuration of `nasd` and its parser (`internal/config/config.go`, `yaml.go`), beside the layout
of `config.example.yaml`.

* `parseLine_entry`  — one key of the layout, whatever its text.
* `parseYAML_layout` — what the parser makes of a configuration that was written down.
* `parseYAML_layout_iff` — when that is the configuration itself.
* `filesRoot_kept`   — no text at all sets the root of the file manager.
-/

namespace Nasd
namespace Yaml

open Text Go

/-! ## Configuration -/

structure ServerConfig where
  listen : Str
  tlsCert : Str
  tlsKey : Str
  deriving DecidableEq

structure DatabaseConfig where
  path : Str
  migrationsDir : Str
  deriving DecidableEq

/-- The time to live in nanoseconds. -/
structure SecurityConfig where
  sessionTTL : Int
  bcryptCost : Int
  csrfEnabled : Bool
  deriving DecidableEq

structure PathsConfig where
  staticDir : Str
  sambaConf : Str
  exports : Str
  miniDLNAConf : Str
  filesRoot : Str
  deriving DecidableEq

structure Config where
  server : ServerConfig
  database : DatabaseConfig
  security : SecurityConfig
  paths : PathsConfig
  deriving DecidableEq

def hour : Nat := 3600000000000

def defaults : Config where
  server := ⟨":8443", [], []⟩
  database := ⟨"/var/lib/nasd/nasd.db", "/usr/share/nasd/migrations"⟩
  security := ⟨8 * hour, 12, true⟩
  paths := ⟨"/usr/share/nasd/www", "/etc/samba/smb.conf", "/etc/exports", "/etc/minidlna.conf", "/srv"⟩

/-! ## Durations -/

/-- The units of `time.ParseDuration` in nanoseconds; the two `µs` are U+00B5 and U+03BC. -/
def unitMap (u : Str) : Option Nat :=
  if u = "ns" then some 1
  else if u = "us" ∨ u = "\u00b5s" ∨ u = "\u03bcs" then some 1000
  else if u = "ms" then some 1000000
  else if u = "s" then some 1000000000
  else if u = "m" then some 60000000000
  else if u = "h" then some hour
  else none

/-- `time.ParseDuration` up to its sign, which adds up `value unit` pairs in 64 bits. What the digits
after a point add is computed with floating-point numbers there, and is any function here. -/
def sumUnits (frac : Str → Nat → Nat) : Nat → Str → Nat → Option Nat
  | 0, _, _ => none
  | fuel + 1, s, d =>
    let digits := s.takeWhile Char.isDigit
    let s₁ := s.dropWhile Char.isDigit
    let v := Nat.ofDigitChars 10 digits 0
    let fs := if s₁.head? = some '.' then (s₁.drop 1).takeWhile Char.isDigit else []
    let s₂ := if s₁.head? = some '.' then (s₁.drop 1).dropWhile Char.isDigit else s₁
    let u := s₂.takeWhile fun c => c ≠ '.' ∧ !c.isDigit
    let s₃ := s₂.dropWhile fun c => c ≠ '.' ∧ !c.isDigit
    if v > 2 ^ 63 then none
    else if digits = [] ∧ fs = [] then none
    else
      match unitMap u with
      | none => none
      | some unit =>
        if v > 2 ^ 63 / unit then none
        else
          let w := v * unit + if fs = [] then 0 else frac fs unit
          let sum := (d + w) % 2 ^ 64
          if w > 2 ^ 63 then none
          else if sum > 2 ^ 63 then none
          else if s₃ = [] then some sum
          else sumUnits frac fuel s₃ sum

def ParseDuration (frac : Str → Nat → Nat) (s : Str) : Option Int :=
  let neg := s.head? = some '-'
  let s := if s.head? = some '-' ∨ s.head? = some '+' then s.drop 1 else s
  if s = "0" then some 0
  else if s = [] then none
  else
    match sumUnits frac s.length s 0 with
    | none => none
    | some d =>
      if neg then some (-(d : Int)) else if d > 2 ^ 63 - 1 then none else some (d : Int)

/-! ## Parser -/

def isQuote (c : Char) : Bool := c = '"' || c = '\''

variable (frac : Str → Nat → Nat)

def assign (cfg : Config) (sec key val : Str) : Config :=
  if sec = "server" then
    if key = "listen" then { cfg with server.listen := val }
    else if key = "tls_cert" then { cfg with server.tlsCert := val }
    else if key = "tls_key" then { cfg with server.tlsKey := val }
    else cfg
  else if sec = "database" then
    if key = "path" then { cfg with database.path := val }
    else if key = "migrations_dir" then { cfg with database.migrationsDir := val }
    else cfg
  else if sec = "security" then
    if key = "session_ttl" then
      match ParseDuration frac val with
      | some d => { cfg with security.sessionTTL := d }
      | none => cfg
    else if key = "bcrypt_cost" then
      match Atoi val with
      | some n => { cfg with security.bcryptCost := n }
      | none => cfg
    else if key = "csrf_enabled" then { cfg with security.csrfEnabled := val = "true" }
    else cfg
  else if sec = "paths" then
    if key = "static_dir" then { cfg with paths.staticDir := val }
    else if key = "samba_conf" then { cfg with paths.sambaConf := val }
    else if key = "exports" then { cfg with paths.exports := val }
    else if key = "minidlna_conf" then { cfg with paths.miniDLNAConf := val }
    else cfg
  else cfg

/-- One line, on the section it stands in and the configuration so far. -/
def parseLine (st : Str × Config) (raw : Str) : Str × Config :=
  let line := (raw.rdropWhile (· = '\r')).takeWhile (· ≠ '#')
  if TrimSpace line = [] then st
  else
    let indented := HasPrefix line " " || HasPrefix line "\t"
    match cut ':' (TrimSpace line) with
    | none => st
    | some (k, v) =>
      let key := TrimSpace k
      let val := trim isQuote (TrimSpace v)
      if !indented ∧ val = [] then (key, st.2) else (st.1, assign frac st.2 st.1 key val)

/-- It never returns an error. -/
def parseYAML (data : Str) (cfg : Config) : Config :=
  ((lines data).foldl (parseLine frac) ([], cfg)).2

/-- `Load`, of a file that can be read or does not exist. -/
def Load (file : Option Str) : Config :=
  match file with
  | none => defaults
  | some data =>
    let cfg := parseYAML frac data defaults
    let cfg :=
      if cfg.security.sessionTTL ≤ 0 then { cfg with security.sessionTTL := 8 * hour } else cfg
    if cfg.security.bcryptCost = 0 then { cfg with security.bcryptCost := 12 } else cfg

/-! ## Layout -/

def quoted (s : Str) : Str := '"' :: (s ++ ['"'])

def entry (key text : Str) : Str := "  " ++ key ++ ": " ++ text

def serverLines (c : ServerConfig) : List Str :=
  ["server:",
    entry "listen" (quoted c.listen),
    entry "tls_cert" (quoted c.tlsCert),
    entry "tls_key" (quoted c.tlsKey)]

def databaseLines (c : DatabaseConfig) : List Str :=
  ["database:",
    entry "path" (quoted c.path),
    entry "migrations_dir" (quoted c.migrationsDir)]

/-- `ttl` is the text of the duration. -/
def securityLines (ttl : Str) (c : SecurityConfig) : List Str :=
  ["security:",
    entry "session_ttl" (quoted ttl),
    entry "bcrypt_cost" (Itoa c.bcryptCost),
    entry "csrf_enabled" (if c.csrfEnabled then "true" else "false")]

def pathsLines (c : PathsConfig) : List Str :=
  ["paths:",
    entry "static_dir" (quoted c.staticDir),
    entry "samba_conf" (quoted c.sambaConf),
    entry "exports" (quoted c.exports),
    entry "minidlna_conf" (quoted c.miniDLNAConf),
    entry "files_root" (quoted c.filesRoot)]

/-- The lines of `config.example.yaml`, less its comments, with the values of `c`. -/
def layout (ttl : Str) (c : Config) : List Str :=
  serverLines c.server ++ [] :: (databaseLines c.database ++
    [] :: (securityLines ttl c.security ++ [] :: (pathsLines c.paths ++ [[]])))

/-! ## One line -/

/-- The keys of the layout: words without a colon and without a comment. -/
def IsKey (key : Str) : Prop :=
  key ≠ [] ∧ ∀ c ∈ key, isSpace c = false ∧ c ≠ ':' ∧ c ≠ '#'

instance (key : Str) : Decidable (IsKey key) := by
  unfold IsKey
  infer_instance

/-- What the parser reads from the text of a key. -/
def readText (text : Str) : Str := trim isQuote (TrimSpace (text.takeWhile (· ≠ '#')))

variable {frac} {key text sec : Str} {cfg : Config}

theorem TrimSpace_entry (hkey : IsKey key) (text : Str) : TrimSpace (entry key text) =
    key ++ ':' :: (' ' :: text).rdropWhile isSpace := by
  obtain ⟨hne, hplain⟩ := hkey
  obtain ⟨c, k, rfl⟩ := List.exists_cons_of_ne_nil hne
  have hshape : entry (c :: k) text = ' ' :: ' ' :: ((c :: k) ++ ':' :: (' ' :: text)) := by
    simp [entry]
  have hspace : isSpace ' ' = true := rfl
  have hcolon : isSpace ':' = false := rfl
  have hc : ¬ isSpace c = true := by simp [(hplain c List.mem_cons_self).1]
  rw [hshape, TrimSpace, trim_cons_sep hspace, trim_cons_sep hspace, trim, List.cons_append,
    List.dropWhile_cons_of_neg hc, ← List.cons_append, rdropWhile_append_cons hcolon]

theorem cut_append {sep : Char} {s : Str} (hs : sep ∉ s) (t : Str) :
    cut sep (s ++ sep :: t) = some (s, t) := by
  have hkeep : ∀ c ∈ s, (decide (c ≠ sep)) = true := by
    intro c hc
    simp only [ne_eq, decide_eq_true_eq]
    rintro rfl
    exact hs hc
  rw [cut, if_pos (by simp), List.takeWhile_append_of_pos hkeep, List.dropWhile_append_of_pos hkeep]
  simp

theorem TrimSpace_key (hkey : IsKey key) : TrimSpace key = key :=
  trim_eq_self_iff.mpr ⟨fun c hc => (hkey.2 c (List.mem_of_mem_head? hc)).1,
    fun c hc => (hkey.2 c (List.mem_of_mem_getLast? hc)).1⟩

theorem entry_keeps_end (key : Str) (htext : text.getLast? ≠ some '\r') :
    (entry key text).rdropWhile (· = '\r') = entry key text := by
  cases text using List.reverseRecOn with
  | nil =>
    have hend : entry key [] = ("  " ++ key ++ [':']) ++ [' '] := by simp [entry]
    rw [hend, List.rdropWhile_concat, if_neg (by decide)]
  | append_singleton t c =>
    have hend : entry key (t ++ [c]) = entry key t ++ [c] := (List.append_assoc _ t [c]).symm
    have hc : ¬ (decide (c = '\r')) = true := by
      rw [List.getLast?_concat] at htext
      simpa using htext
    rw [hend, List.rdropWhile_concat, if_neg hc]

theorem entry_comment (hkey : IsKey key) (text : Str) :
    (entry key text).takeWhile (· ≠ '#') = entry key (text.takeWhile (· ≠ '#')) := by
  have hkeep : ∀ c ∈ "  " ++ key ++ ": ", (decide (c ≠ '#')) = true := by
    intro c hc
    simp only [List.mem_append] at hc
    rcases hc with (hc | hc) | hc
    · exact List.all_eq_true.mp (by rfl : ("  " : Str).all (decide <| · ≠ '#') = true) c hc
    · simpa using (hkey.2 c hc).2.2
    · exact List.all_eq_true.mp (by rfl : (": " : Str).all (decide <| · ≠ '#') = true) c hc
  rw [entry, List.takeWhile_append_of_pos hkeep, entry]

/-- A key of the layout is assigned what is read from its text. -/
theorem parseLine_entry (hkey : IsKey key) (htext : text.getLast? ≠ some '\r') :
    parseLine frac (sec, cfg) (entry key text) =
      (sec, assign frac cfg sec key (readText text)) := by
  have hraw := entry_keeps_end key htext
  have hcut := entry_comment hkey text
  have hindent : (HasPrefix (entry key (text.takeWhile (· ≠ '#'))) " " ||
      HasPrefix (entry key (text.takeWhile (· ≠ '#'))) "\t") = true := rfl
  have hcolon : ':' ∉ key := fun hmem => (hkey.2 ':' hmem).2.1 rfl
  have hval : TrimSpace ((' ' :: text.takeWhile (· ≠ '#')).rdropWhile isSpace) =
      TrimSpace (text.takeWhile (· ≠ '#')) := by
    rw [TrimSpace, trim_rdropWhile, trim_cons_sep rfl, TrimSpace]
  unfold parseLine
  simp only [hraw, hcut, hindent, TrimSpace_entry hkey, cut_append hcolon,
    TrimSpace_key hkey, hval, readText]
  simp

/-! ## Texts -/

theorem quoted_end (s : Str) : (quoted s).getLast? ≠ some '\r' := by
  have hend : (quoted s).getLast? = some '"' := List.getLast?_concat (l := '"' :: s)
  rw [hend]
  decide

theorem takeWhile_of_not_mem {c : Char} {s : Str} (h : c ∉ s) : s.takeWhile (· ≠ c) = s := by
  refine List.takeWhile_eq_self_iff.mpr fun d hd => ?_
  simp only [ne_eq, decide_eq_true_eq]
  rintro rfl
  exact h hd

theorem readText_quoted {s : Str} (hq : ∀ c ∈ s, isQuote c = false) (hh : '#' ∉ s) :
    readText (quoted s) = s := by
  have hhash : '#' ∉ quoted s := by
    simp [quoted, hh]
  have hspace : TrimSpace (quoted s) = quoted s := by
    refine trim_eq_self_iff.mpr ⟨fun c hc => ?_, fun c hc => ?_⟩
    · cases hc
      rfl
    · have hend : (quoted s).getLast? = some '"' := List.getLast?_concat (l := '"' :: s)
      rw [hend] at hc
      cases hc
      rfl
  have hopen : trim isQuote (quoted s) = trim isQuote (s ++ ['"']) := trim_cons_sep rfl _
  have hclose : (s ++ ['"']).rdropWhile isQuote = s.rdropWhile isQuote := by
    rw [List.rdropWhile_concat, if_pos (by rfl)]
  rw [readText, takeWhile_of_not_mem hhash, hspace, hopen, ← trim_rdropWhile, hclose,
    trim_rdropWhile]
  exact trim_eq_self_iff.mpr ⟨fun c hc => hq c (List.mem_of_mem_head? hc),
    fun c hc => hq c (List.mem_of_mem_getLast? hc)⟩

/-- Nothing after a number sign is read, quoted or not. -/
theorem readText_hash (text : Str) : '#' ∉ readText text := by
  intro hmem
  have hsub : readText text <:+: text.takeWhile (· ≠ '#') :=
    (trim_isInfix _).trans (trim_isInfix _)
  have := List.mem_takeWhile_imp (hsub.mem hmem)
  simp at this

theorem readText_quoted_iff {s : Str} (hq : ∀ c ∈ s, isQuote c = false) :
    readText (quoted s) = s ↔ '#' ∉ s :=
  ⟨fun h => h ▸ readText_hash _, readText_quoted hq⟩

/-- A word without quotes is read as it is. -/
theorem readText_word {s : Str}
    (h : ∀ c ∈ s, isSpace c = false ∧ isQuote c = false ∧ c ≠ '#') : readText s = s := by
  have hhash : '#' ∉ s := fun hmem => (h '#' hmem).2.2 rfl
  have hspace : TrimSpace s = s := trim_eq_self_iff.mpr
    ⟨fun c hc => (h c (List.mem_of_mem_head? hc)).1,
      fun c hc => (h c (List.mem_of_mem_getLast? hc)).1⟩
  rw [readText, takeWhile_of_not_mem hhash, hspace]
  exact trim_eq_self_iff.mpr ⟨fun c hc => (h c (List.mem_of_mem_head? hc)).2.1,
    fun c hc => (h c (List.mem_of_mem_getLast? hc)).2.1⟩

/-! ## Durations that are accepted -/

/-- The characters of a duration. -/
def durationChar (c : Char) : Bool :=
  c.isDigit || c ∈ ['.', '+', '-', 'n', 's', 'u', '\u00b5', '\u03bc', 'm', 'h']

theorem unitMap_chars {u : Str} {unit : Nat} (h : unitMap u = some unit) :
    ∀ c ∈ u, durationChar c = true := by
  have hknown : u ∈ (["ns", "us", "\u00b5s", "\u03bcs", "ms", "s", "m", "h"] : List Str) := by
    by_contra hnot
    simp only [List.mem_cons, List.not_mem_nil, or_false, not_or] at hnot
    obtain ⟨hns, hus, hus₁, hus₂, hms, hs, hm, hh⟩ := hnot
    simp only [unitMap, hns, hus, hus₁, hus₂, hms, hs, hm, hh, or_self, if_false] at h
    cases h
  have hall : (["ns", "us", "\u00b5s", "\u03bcs", "ms", "s", "m", "h"] : List Str).all
      (fun w => w.all durationChar) = true := rfl
  exact List.all_eq_true.mp (List.all_eq_true.mp hall u hknown)

theorem digits_chars {s : Str} : ∀ c ∈ s.takeWhile Char.isDigit, durationChar c = true := by
  intro c hc
  simp [durationChar, List.mem_takeWhile_imp hc]

/-- The value and the unit that come first, and what is left. -/
theorem sumUnits_chars {fuel : Nat} {s : Str} {d n : Nat} (h : sumUnits frac fuel s d = some n) :
    ∀ c ∈ s, durationChar c = true := by
  induction fuel generalizing s d with
  | zero => cases h
  | succ fuel ih =>
    unfold sumUnits at h
    extract_lets digits s₁ v fs s₂ u s₃ at h
    split at h
    · cases h
    split at h
    · cases h
    split at h
    · cases h
    rename_i unit hunit
    split at h
    · cases h
    extract_lets w sum at h
    split at h
    · cases h
    split at h
    · cases h
    have hrest : ∀ c ∈ s₃, durationChar c = true := by
      split at h
      · rename_i hnil
        rw [hnil]
        exact fun c hc => nomatch hc
      · exact ih h
    have hs₂ : ∀ c ∈ s₂, durationChar c = true := by
      intro c hc
      rw [← List.takeWhile_append_dropWhile (p := fun c => c ≠ '.' ∧ !c.isDigit) (l := s₂)] at hc
      rcases List.mem_append.mp hc with hc | hc
      · exact unitMap_chars hunit c hc
      · exact hrest c hc
    have hs₁ : ∀ c ∈ s₁, durationChar c = true := by
      by_cases hdot : s₁.head? = some '.'
      · obtain ⟨t, ht⟩ := List.head?_eq_some_iff.mp hdot
        have hs₂t : s₂ = t.dropWhile Char.isDigit := by
          show (if s₁.head? = some '.' then (s₁.drop 1).dropWhile Char.isDigit else s₁) = _
          rw [if_pos hdot, ht]
          rfl
        intro c hc
        rw [ht] at hc
        rcases List.mem_cons.mp hc with rfl | hc
        · rfl
        · rw [← List.takeWhile_append_dropWhile (p := Char.isDigit) (l := t)] at hc
          rcases List.mem_append.mp hc with hc | hc
          · exact digits_chars c hc
          · exact hs₂ c (hs₂t ▸ hc)
      · have hs₂s : s₂ = s₁ := if_neg hdot
        exact hs₂s ▸ hs₂
    intro c hc
    rw [← List.takeWhile_append_dropWhile (p := Char.isDigit) (l := s)] at hc
    rcases List.mem_append.mp hc with hc | hc
    · exact digits_chars c hc
    · exact hs₁ c hc

theorem ParseDuration_chars {s : Str} {d : Int} (h : ParseDuration frac s = some d) :
    ∀ c ∈ s, durationChar c = true := by
  unfold ParseDuration at h
  extract_lets neg t at h
  have ht : ∀ c ∈ t, durationChar c = true := by
    split at h
    · rename_i hzero
      rw [hzero]
      exact List.all_eq_true.mp rfl
    · split at h
      · cases h
      · split at h
        · cases h
        · rename_i n hsum
          exact sumUnits_chars hsum
  by_cases hsign : s.head? = some '-' ∨ s.head? = some '+'
  · have hdrop : t = s.drop 1 := if_pos hsign
    rw [hdrop] at ht
    obtain ⟨a, ha, hchar⟩ : ∃ a, s.head? = some a ∧ durationChar a = true := by
      rcases hsign with hs | hs
      · exact ⟨_, hs, rfl⟩
      · exact ⟨_, hs, rfl⟩
    obtain ⟨u, rfl⟩ := List.head?_eq_some_iff.mp ha
    intro c hc
    rcases List.mem_cons.mp hc with rfl | hc
    · exact hchar
    · exact ht c hc
  · have hsame : t = s := if_neg hsign
    exact hsame ▸ ht

/-- Every duration has a text. -/
theorem ParseDuration_nanoseconds (n : Nat) (h : n < 2 ^ 63) :
    ParseDuration frac (Itoa n ++ "ns") = some (n : Int) := by
  have hdigits : ∀ c ∈ Itoa n, c.isDigit = true := fun _ hc => Itoa_digits hc
  have hne : Itoa n ≠ [] := Itoa_ne_nil n
  have htake : (Itoa n ++ ("ns" : Str)).takeWhile Char.isDigit = Itoa n := by
    rw [List.takeWhile_append_of_pos hdigits]
    simp
  have hdrop : (Itoa n ++ ("ns" : Str)).dropWhile Char.isDigit = "ns" := by
    rw [List.dropWhile_append_of_pos hdigits]
    rfl
  have hhead : (Itoa n ++ ("ns" : Str)).head? = (Itoa n).head? := List.head?_append_of_ne_nil _ hne
  have hsum : sumUnits frac (Itoa n ++ ("ns" : Str)).length (Itoa n ++ "ns") 0 = some n := by
    have hlen : (Itoa n ++ ("ns" : Str)).length = (Itoa n).length + 1 + 1 := by simp
    have hdot : ("ns" : Str).head? ≠ some '.' := by decide
    have hunit : ("ns" : Str).takeWhile (fun c => c ≠ '.' ∧ !c.isDigit) = "ns" := rfl
    have hrest : ("ns" : Str).dropWhile (fun c => c ≠ '.' ∧ !c.isDigit) = [] := rfl
    have hmap : unitMap "ns" = some 1 := rfl
    have hmod : (0 + (n * 1 + 0)) % 2 ^ 64 = n := by omega
    rw [hlen]
    unfold sumUnits
    simp only [htake, hdrop, Itoa_value, if_neg hdot, hunit, hrest, hmap, if_true, hmod]
    rw [if_neg (by omega), if_neg (fun h => hne h.1), if_neg (by omega), if_neg (by omega),
      if_neg (by omega)]
  obtain ⟨hminus, hplus⟩ := Itoa_unsigned n
  have hzero : Itoa n ++ ("ns" : Str) ≠ "0" := by
    intro h
    have := congrArg List.getLast? h
    simp at this
  unfold ParseDuration
  simp only [hhead, hminus, hplus, or_self, if_false, hzero, List.append_eq_nil_iff, hne,
    false_and, hsum]
  exact if_neg (by omega)

theorem durationChar_plain {c : Char} (h : durationChar c = true) :
    isSpace c = false ∧ isQuote c = false ∧ c ≠ '#' ∧ c ≠ '\n' := by
  have hdigit : ∀ d : Char, d.isDigit = false → c.isDigit = true → c ≠ d := by
    rintro d hd hc rfl
    rw [hd] at hc
    cases hc
  simp only [durationChar, Bool.or_eq_true] at h
  rcases h with h | h
  · refine ⟨isSpace_of_isDigit h, ?_, hdigit '#' rfl h, hdigit '\n' rfl h⟩
    simp [isQuote, hdigit '"' rfl h, hdigit '\'' rfl h]
  · have hall : (['.', '+', '-', 'n', 's', 'u', '\u00b5', '\u03bc', 'm', 'h'] : List Char).all
        (fun c => !isSpace c && !isQuote c && c != '#' && c != '\n') = true := rfl
    have := List.all_eq_true.mp hall c (by simpa using h)
    simpa [and_assoc] using this

/-! ## The layout, read -/

def ServerConfig.read (c : ServerConfig) : ServerConfig where
  listen := readText (quoted c.listen)
  tlsCert := readText (quoted c.tlsCert)
  tlsKey := readText (quoted c.tlsKey)

def DatabaseConfig.read (c : DatabaseConfig) : DatabaseConfig where
  path := readText (quoted c.path)
  migrationsDir := readText (quoted c.migrationsDir)

/-- The root is the one that was there before. -/
def PathsConfig.read (c : PathsConfig) (root : Str) : PathsConfig where
  staticDir := readText (quoted c.staticDir)
  sambaConf := readText (quoted c.sambaConf)
  exports := readText (quoted c.exports)
  miniDLNAConf := readText (quoted c.miniDLNAConf)
  filesRoot := root

def Config.read (c : Config) (root : Str) : Config :=
  ⟨c.server.read, c.database.read, c.security, c.paths.read root⟩

def Config.texts (c : Config) : List Str :=
  [c.server.listen, c.server.tlsCert, c.server.tlsKey, c.database.path, c.database.migrationsDir,
    c.paths.staticDir, c.paths.sambaConf, c.paths.exports, c.paths.miniDLNAConf, c.paths.filesRoot]

/-- The configurations that a file can hold: positive numbers of 64 bits, and texts without line
breaks and quotes. -/
structure Config.Writable (c : Config) : Prop where
  ttl : 0 < c.security.sessionTTL ∧ c.security.sessionTTL < 2 ^ 63
  cost : 0 < c.security.bcryptCost ∧ c.security.bcryptCost < 2 ^ 63
  texts : ∀ s ∈ c.texts, '\n' ∉ s ∧ ∀ ch ∈ s, isQuote ch = false

theorem parseLine_quoted (hkey : IsKey key) (s : Str) : parseLine frac (sec, cfg)
    (entry key (quoted s)) = (sec, assign frac cfg sec key (readText (quoted s))) :=
  parseLine_entry hkey (quoted_end s)

theorem parse_server (c : ServerConfig) (st : Str × Config) :
    (serverLines c).foldl (parseLine frac) st = (("server" : Str), { st.2 with server := c.read }) := by
  have hsec : parseLine frac st "server:" = (("server" : Str), st.2) := rfl
  have hlisten : IsKey "listen" := by decide
  have hcert : IsKey "tls_cert" := by decide
  have htls : IsKey "tls_key" := by decide
  simp only [serverLines, List.foldl_cons, List.foldl_nil, hsec, parseLine_quoted hlisten,
    parseLine_quoted hcert, parseLine_quoted htls]
  rfl

theorem parse_database (c : DatabaseConfig) (st : Str × Config) :
    (databaseLines c).foldl (parseLine frac) st =
      (("database" : Str), { st.2 with database := c.read }) := by
  have hsec : parseLine frac st "database:" = (("database" : Str), st.2) := rfl
  have hpath : IsKey "path" := by decide
  have hmigrations : IsKey "migrations_dir" := by decide
  simp only [databaseLines, List.foldl_cons, List.foldl_nil, hsec, parseLine_quoted hpath,
    parseLine_quoted hmigrations]
  rfl

theorem parse_paths (c : PathsConfig) (st : Str × Config) :
    (pathsLines c).foldl (parseLine frac) st =
      (("paths" : Str), { st.2 with paths := c.read st.2.paths.filesRoot }) := by
  have hsec : parseLine frac st "paths:" = (("paths" : Str), st.2) := rfl
  have hstatic : IsKey "static_dir" := by decide
  have hsamba : IsKey "samba_conf" := by decide
  have hexports : IsKey "exports" := by decide
  have hdlna : IsKey "minidlna_conf" := by decide
  have hroot : IsKey "files_root" := by decide
  have hset : ∀ (cfg : Config) (v : Str),
      assign frac cfg "paths" "static_dir" v = { cfg with paths.staticDir := v } ∧
      assign frac cfg "paths" "samba_conf" v = { cfg with paths.sambaConf := v } ∧
      assign frac cfg "paths" "exports" v = { cfg with paths.exports := v } ∧
      assign frac cfg "paths" "minidlna_conf" v = { cfg with paths.miniDLNAConf := v } ∧
      assign frac cfg "paths" "files_root" v = cfg :=
    fun cfg v => ⟨rfl, rfl, rfl, rfl, rfl⟩
  simp only [pathsLines, List.foldl_cons, List.foldl_nil, hsec, parseLine_quoted hstatic,
    parseLine_quoted hsamba, parseLine_quoted hexports, parseLine_quoted hdlna,
    parseLine_quoted hroot, hset, PathsConfig.read]

theorem duration_read {ttl : Str} {d : Int} (h : ParseDuration frac ttl = some d) :
    readText (quoted ttl) = ttl := by
  have hplain := fun c hc => durationChar_plain (ParseDuration_chars h c hc)
  exact readText_quoted (fun c hc => (hplain c hc).2.1) fun hmem => (hplain '#' hmem).2.2.1 rfl

theorem number_plain (n : Nat) :
    ∀ c ∈ Itoa n, isSpace c = false ∧ isQuote c = false ∧ c ≠ '#' ∧ c ≠ '\n' :=
  fun _ hc => durationChar_plain (by simp [durationChar, Itoa_digits hc])

theorem number_read (n : Nat) : readText (Itoa n) = Itoa n :=
  readText_word fun c hc =>
    ⟨(number_plain n c hc).1, (number_plain n c hc).2.1, (number_plain n c hc).2.2.1⟩

theorem number_end (n : Nat) : (Itoa n).getLast? ≠ some '\r' := by
  intro h
  cases Itoa_digits (List.mem_of_mem_getLast? h)

theorem parse_security {ttl : Str} {c : SecurityConfig} (hcost : 0 ≤ c.bcryptCost)
    (hbound : c.bcryptCost < 2 ^ 63) (httl : ParseDuration frac ttl = some c.sessionTTL)
    (st : Str × Config) : (securityLines ttl c).foldl (parseLine frac) st =
      (("security" : Str), { st.2 with security := c }) := by
  obtain ⟨sessionTTL, bcryptCost, csrfEnabled⟩ := c
  obtain ⟨n, rfl⟩ := Int.eq_ofNat_of_zero_le hcost
  have hn : n < 2 ^ 63 := by
    have : (n : Int) < 2 ^ 63 := hbound
    omega
  have hsec : parseLine frac st "security:" = (("security" : Str), st.2) := rfl
  have hduration : IsKey "session_ttl" := by decide
  have hbcrypt : IsKey "bcrypt_cost" := by decide
  have hcsrf : IsKey "csrf_enabled" := by decide
  have hflag : ∀ b : Bool, (if b then "true" else "false" : Str).getLast? ≠ some '\r' ∧
      readText (if b then "true" else "false") = (if b then "true" else "false" : Str) := by
    decide
  simp only [securityLines, List.foldl_cons, List.foldl_nil, hsec, parseLine_quoted hduration,
    parseLine_entry hbcrypt (number_end n), parseLine_entry hcsrf (hflag csrfEnabled).1,
    duration_read httl, number_read n, (hflag csrfEnabled).2]
  have hcost : Atoi (Itoa n) = some (n : Int) := Atoi_Itoa hn
  have hset : ∀ cfg : Config,
      assign frac cfg "security" "session_ttl" ttl = { cfg with security.sessionTTL := sessionTTL } ∧
      assign frac cfg "security" "bcrypt_cost" (Itoa n) =
        { cfg with security.bcryptCost := n } := by
    intro cfg
    have httl' : ParseDuration frac ttl = some sessionTTL := httl
    constructor
    · show (match ParseDuration frac ttl with | some d => _ | none => _) = _
      rw [httl']
    · show (match Atoi (Itoa n) with | some d => _ | none => _) = _
      rw [hcost]
  rw [(hset st.2).1, (hset _).2]
  cases csrfEnabled <;> rfl

theorem entry_newline (hkey : '\n' ∉ key) (htext : '\n' ∉ text) : '\n' ∉ entry key text := by
  simp only [entry, List.mem_append, not_or]
  exact ⟨⟨⟨by decide, hkey⟩, by decide⟩, htext⟩

theorem quoted_newline {s : Str} (h : '\n' ∉ s) : '\n' ∉ quoted s := by
  simp [quoted, h]

variable {ttl : Str} {c : Config}

theorem layout_newline (hc : c.Writable)
    (httl : ParseDuration frac ttl = some c.security.sessionTTL) :
    ∀ l ∈ layout ttl c, '\n' ∉ l := by
  have htext : ∀ {key s : Str}, s ∈ c.texts → '\n' ∉ key → '\n' ∉ entry key (quoted s) :=
    fun hs hkey => entry_newline hkey (quoted_newline (hc.texts _ hs).1)
  have hduration : '\n' ∉ ttl :=
    fun hmem => (durationChar_plain (ParseDuration_chars httl '\n' hmem)).2.2.2 rfl
  have hcost : '\n' ∉ Itoa c.security.bcryptCost := by
    obtain ⟨n, hn⟩ := Int.eq_ofNat_of_zero_le (Int.le_of_lt hc.cost.1)
    rw [hn]
    exact fun hmem => (number_plain n '\n' hmem).2.2.2 rfl
  have hflag : ∀ b : Bool, '\n' ∉ (if b then "true" else "false" : Str) := by
    decide
  simp only [layout, serverLines, databaseLines, securityLines, pathsLines, List.cons_append,
    List.nil_append, List.forall_mem_cons, List.not_mem_nil, false_imp_iff, implies_true, and_true,
    not_false_eq_true, true_and]
  refine ⟨by decide, htext ?_ (by decide), htext ?_ (by decide), htext ?_ (by decide), by decide,
    htext ?_ (by decide), htext ?_ (by decide), by decide,
    entry_newline (by decide) (quoted_newline hduration), entry_newline (by decide) hcost,
    entry_newline (by decide) (hflag _), by decide, htext ?_ (by decide), htext ?_ (by decide),
    htext ?_ (by decide), htext ?_ (by decide), htext ?_ (by decide)⟩
  all_goals simp [Config.texts]

/-- What the parser makes of a configuration that was written down. -/
theorem parseYAML_layout (hc : c.Writable)
    (httl : ParseDuration frac ttl = some c.security.sessionTTL) (cfg : Config) :
    parseYAML frac (unlines (layout ttl c)) cfg = c.read cfg.paths.filesRoot := by
  have hlines : lines (unlines (layout ttl c)) = layout ttl c :=
    lines_unlines (by simp [layout, serverLines]) (layout_newline hc httl)
  have hblank : ∀ st : Str × Config, parseLine frac st [] = st := fun _ => rfl
  rw [parseYAML, hlines]
  simp only [layout, List.foldl_append, List.foldl_cons, List.foldl_nil, hblank, parse_server,
    parse_database, parse_security (Int.le_of_lt hc.cost.1) hc.cost.2 httl, parse_paths]
  rfl

theorem read_eq_iff (hc : c.Writable) {root : Str} (hroot : '#' ∉ root) :
    c.read root = c ↔ c.paths.filesRoot = root ∧ ∀ s ∈ c.texts, '#' ∉ s := by
  have hiff : ∀ s ∈ c.texts, (readText (quoted s) = s ↔ '#' ∉ s) :=
    fun s hs => readText_quoted_iff (hc.texts s hs).2
  simp only [Config.texts, List.forall_mem_cons] at hiff ⊢
  obtain ⟨⟨listen, tlsCert, tlsKey⟩, ⟨path, migrationsDir⟩, security,
    ⟨staticDir, sambaConf, exports, miniDLNAConf, filesRoot⟩⟩ := c
  obtain ⟨h₁, h₂, h₃, h₄, h₅, h₆, h₇, h₈, h₉, -, -⟩ := hiff
  simp only [Config.read, ServerConfig.read, DatabaseConfig.read, PathsConfig.read,
    Config.mk.injEq, ServerConfig.mk.injEq, DatabaseConfig.mk.injEq, PathsConfig.mk.injEq,
    h₁, h₂, h₃, h₄, h₅, h₆, h₇, h₈, h₉, true_and]
  constructor
  · rintro ⟨⟨hl, ht, hk⟩, ⟨hp, hm⟩, hs, hb, he, hd, rfl⟩
    exact ⟨rfl, hl, ht, hk, hp, hm, hs, hb, he, hd, hroot, fun s hs => nomatch hs⟩
  · rintro ⟨rfl, hl, ht, hk, hp, hm, hs, hb, he, hd, -, -⟩
    exact ⟨⟨hl, ht, hk⟩, ⟨hp, hm⟩, hs, hb, he, hd, rfl⟩

/-- A configuration comes back exactly when it leaves the file manager's root alone and has no
number sign in it. -/
theorem parseYAML_layout_iff (hc : c.Writable)
    (httl : ParseDuration frac ttl = some c.security.sessionTTL) :
    parseYAML frac (unlines (layout ttl c)) defaults = c ↔
      c.paths.filesRoot = "/srv" ∧ ∀ s ∈ c.texts, '#' ∉ s := by
  rw [parseYAML_layout hc httl]
  exact read_eq_iff hc (by decide)

/-- So does `Load`, whose own checks leave positive numbers alone. -/
theorem Load_layout (hc : c.Writable)
    (httl : ParseDuration frac ttl = some c.security.sessionTTL)
    (hroot : c.paths.filesRoot = "/srv") (hplain : ∀ s ∈ c.texts, '#' ∉ s) :
    Load frac (some (unlines (layout ttl c))) = c := by
  have hparse : parseYAML frac (unlines (layout ttl c)) defaults = c :=
    (parseYAML_layout_iff hc httl).mpr ⟨hroot, hplain⟩
  have httl₀ : ¬ c.security.sessionTTL ≤ 0 := by
    have := hc.ttl.1
    omega
  have hcost₀ : c.security.bcryptCost ≠ 0 := by
    have := hc.cost.1
    omega
  simp only [Load, hparse, if_neg httl₀, if_neg hcost₀]

/-- The example file as it is shipped. -/
theorem parseYAML_example :
    parseYAML (fun _ _ => 0) (unlines (layout "8h" { defaults with
        server := ⟨":8443", "/etc/nasd/tls/cert.pem", "/etc/nasd/tls/key.pem"⟩ })) defaults =
      { defaults with server := ⟨":8443", "/etc/nasd/tls/cert.pem", "/etc/nasd/tls/key.pem"⟩ } :=
  (parseYAML_layout_iff ⟨by decide, by decide, by decide +kernel⟩ (by decide +kernel)).mpr
    ⟨rfl, by decide +kernel⟩

/-- A root of its own is read as the default one. -/
theorem files_root_ignored :
    Config.Writable { defaults with paths.filesRoot := "/data" } ∧
      ParseDuration (fun _ _ => 0) "8h" = some defaults.security.sessionTTL ∧
      parseYAML (fun _ _ => 0)
        (unlines (layout "8h" { defaults with paths.filesRoot := "/data" })) defaults = defaults ∧
      { defaults with paths.filesRoot := "/data" } ≠ defaults := by
  exact ⟨⟨by decide, by decide, by decide +kernel⟩, by decide +kernel, by decide +kernel,
    by decide⟩

/-! ## Every key but one -/

theorem assign_keeps_root (cfg : Config) (sec key val : Str) :
    (assign frac cfg sec key val).paths.filesRoot = cfg.paths.filesRoot := by
  unfold assign
  repeat' split
  all_goals rfl

theorem parseLine_keeps_root (st : Str × Config) (raw : Str) :
    (parseLine frac st raw).2.paths.filesRoot = st.2.paths.filesRoot := by
  unfold parseLine
  extract_lets line indented
  split
  · rfl
  · split
    · rfl
    · extract_lets key val
      split
      · rfl
      · exact assign_keeps_root _ _ _ _

/-- No text at all sets the root of the file manager. -/
theorem filesRoot_kept (data : Str) (cfg : Config) :
    (parseYAML frac data cfg).paths.filesRoot = cfg.paths.filesRoot := by
  have hrun : ∀ (ls : List Str) (st : Str × Config),
      (ls.foldl (parseLine frac) st).2.paths.filesRoot = st.2.paths.filesRoot := by
    intro ls
    induction ls with
    | nil => exact fun _ => rfl
    | cons l ls ih => exact fun st => (ih _).trans (parseLine_keeps_root st l)
  exact hrun _ _

end Yaml
end Nasd
