import Nasd.System

/-!
# Nasd.System.Journal

The journal of the machine, `parseJournal` of `internal/system/sysmgmt.go`, and the layouts of
`time.Parse` by which it knows a timestamp.

* `isJournalTS_clean`  — what a timestamp is made of.
* `parseJournal_lines` — one entry for each line that is kept.
* `entry_line`         — the entry of a record is that record.
* `parseJournal_exact` — both, for every text and every list of records.
-/

namespace Nasd
namespace Journal

open Text Go

/-! ## Timestamps -/

/-- One or two digits, two when `fixed`. -/
def getnum (fixed : Bool) : Str → Option (Nat × Str)
  | a :: b :: rest =>
    if a.isDigit then
      if b.isDigit then some (Nat.ofDigitChars 10 [a, b] 0, rest)
      else if fixed then none else some (Nat.ofDigitChars 10 [a] 0, b :: rest)
    else none
  | [a] => if a.isDigit && !fixed then some (Nat.ofDigitChars 10 [a] 0, []) else none
  | [] => none

def longYear : Str → Option (Nat × Str)
  | a :: b :: c :: d :: rest =>
    if [a, b, c, d].all Char.isDigit then some (Nat.ofDigitChars 10 [a, b, c, d] 0, rest) else none
  | _ => none

/-- A character of the layout. -/
def skip (c : Char) : Str → Option Str
  | d :: rest => if d = c then some rest else none
  | [] => none

/-- A fraction of the second, which no layout here asks for. -/
def dropFraction : Str → Str
  | c :: d :: rest =>
    if (c = '.' || c = ',') && d.isDigit then rest.dropWhile Char.isDigit else c :: d :: rest
  | value => value

def zone (sign : Char) (hour min rest : Str) : Option Str := do
  let (hr, _) ← getnum true hour
  let (mm, _) ← getnum true min
  if hr ≤ 24 ∧ mm ≤ 60 ∧ (sign = '+' ∨ sign = '-') then some rest else none

/-- `-07:00` or `-0700`. -/
def numTZ : Bool → Str → Option Str
  | true, sign :: h₁ :: h₂ :: ':' :: m₁ :: m₂ :: rest => zone sign [h₁, h₂] [m₁, m₂] rest
  | false, sign :: h₁ :: h₂ :: m₁ :: m₂ :: rest => zone sign [h₁, h₂] [m₁, m₂] rest
  | _, _ => none

def isLeap (year : Nat) : Bool := year % 4 = 0 && (year % 100 ≠ 0 || year % 400 = 0)

def daysIn (month year : Nat) : Nat :=
  if month = 2 then if isLeap year then 29 else 28
  else if month ∈ [4, 6, 9, 11] then 30 else 31

def inRange (lo hi : Nat) (p : Nat × Str) : Option (Nat × Str) :=
  if lo ≤ p.1 ∧ p.1 ≤ hi then some p else none

/-- `time.Parse` with the layout `2006-01-02T15:04:05-07:00`, or the one without the last colon. -/
def parse (colon : Bool) (value : Str) : Option Unit := do
  let (year, value) ← longYear value
  let value ← skip '-' value
  let (month, value) ← (getnum true value).bind (inRange 1 12)
  let value ← skip '-' value
  let (day, value) ← getnum true value
  let value ← skip 'T' value
  let (_, value) ← (getnum false value).bind (inRange 0 23)
  let value ← skip ':' value
  let (_, value) ← (getnum true value).bind (inRange 0 59)
  let value ← skip ':' value
  let (_, value) ← (getnum true value).bind (inRange 0 59)
  let value ← numTZ colon (dropFraction value)
  if value = [] ∧ 1 ≤ day ∧ day ≤ daysIn month year then some () else none

def isJournalTS (ts : Str) : Bool := (parse true ts).isSome || (parse false ts).isSome

/-! ## Entries -/

structure LogEntry where
  Time : Str
  Unit : Str
  Message : Str
  Level : Str
  deriving DecidableEq

/-- The host before the first space. -/
def skipHost (rest : Str) : Str :=
  match cut ' ' rest with
  | some (host, after) => if host ≠ [] then after else rest
  | none => rest

def unitOf (tag : Str) : Str :=
  match cut '[' tag with
  | some (name, _) => if name ≠ [] then name else tag
  | none => tag

/-- The unit and the message. -/
def unitAndMessage (rest : Str) : Str × Str :=
  match cut ':' rest with
  | some (tag, msg) => if tag ≠ [] then (unitOf tag, TrimSpace msg) else ([], rest)
  | none => ([], rest)

/-- The timestamp, the unit and the message. A line without a timestamp is a message. -/
def fields (ln : Str) : Str × Str × Str :=
  match cut ' ' ln with
  | some (ts, rest) =>
    if ts ≠ [] ∧ isJournalTS ts then (ts, unitAndMessage (skipHost (TrimSpace rest)))
    else ([], [], ln)
  | none => ([], [], ln)

def level (K : CaseTable) (message : Str) : Str :=
  if Contains (ToLower K message) "error" || Contains (ToLower K message) "failed" ||
      Contains (ToLower K message) "fatal" then "error"
  else if Contains (ToLower K message) "warn" then "warn"
  else "info"

def entry (K : CaseTable) (ln : Str) : LogEntry where
  Time := (fields ln).1
  Unit := (fields ln).2.1
  Message := (fields ln).2.2
  Level := level K (fields ln).2.2

/-- The loop over the lines. -/
def parseLines (K : CaseTable) : List Str → List LogEntry
  | [] => []
  | ln :: rest =>
    if TrimRight ln "\r" = [] || HasPrefix (TrimRight ln "\r") "-- " then parseLines K rest
    else entry K (TrimRight ln "\r") :: parseLines K rest

def parseJournal (K : CaseTable) (out : Str) : List LogEntry :=
  parseLines K (lines (TrimRight out "\n"))

/-! ## What a timestamp is made of -/

def isTimeChar (c : Char) : Bool := c.isDigit || ['-', 'T', ':', '+', '.', ','].contains c

/-- All of the text is made of these characters. -/
def Clean (s : Str) : Prop := ∀ c ∈ s, isTimeChar c = true

variable {s r : Str} {n : Nat} {fixed colon : Bool} {c : Char}

theorem isTimeChar_of_isDigit (h : c.isDigit = true) : isTimeChar c = true := by
  rw [isTimeChar, h, Bool.true_or]

theorem clean_nil : Clean [] := fun _ h => absurd h List.not_mem_nil

theorem clean_cons (hc : isTimeChar c = true) (hs : Clean s) : Clean (c :: s) := by
  intro d hd
  rcases List.mem_cons.mp hd with rfl | hd
  · exact hc
  · exact hs d hd

theorem getnum_clean (h : getnum fixed s = some (n, r)) (hr : Clean r) : Clean s := by
  unfold getnum at h
  split at h
  · split at h
    · rename_i ha
      split at h
      · rename_i hb
        cases h
        exact clean_cons (isTimeChar_of_isDigit ha) (clean_cons (isTimeChar_of_isDigit hb) hr)
      · split at h
        · cases h
        · cases h
          exact clean_cons (isTimeChar_of_isDigit ha) hr
    · cases h
  · split at h
    · rename_i ha
      cases h
      exact clean_cons (isTimeChar_of_isDigit (Bool.and_eq_true_iff.mp ha).1) hr
    · cases h
  · cases h

theorem longYear_clean (h : longYear s = some (n, r)) (hr : Clean r) :
    Clean s ∧ ∃ c rest, s = c :: rest ∧ c.isDigit = true := by
  unfold longYear at h
  split at h
  · split at h
    · rename_i hall
      cases h
      simp only [List.all_cons, List.all_nil, Bool.and_true, Bool.and_eq_true] at hall
      obtain ⟨ha, hb, hc, hd⟩ := hall
      exact ⟨clean_cons (isTimeChar_of_isDigit ha) (clean_cons (isTimeChar_of_isDigit hb)
        (clean_cons (isTimeChar_of_isDigit hc) (clean_cons (isTimeChar_of_isDigit hd) hr))),
        _, _, rfl, ha⟩
    · cases h
  · cases h

theorem skip_clean (hc : isTimeChar c = true) (h : skip c s = some r) (hr : Clean r) : Clean s := by
  unfold skip at h
  split at h
  · split at h
    · rename_i hd
      cases h
      exact clean_cons (hd ▸ hc) hr
    · cases h
  · cases h

theorem dropFraction_clean (h : Clean (dropFraction s)) : Clean s := by
  unfold dropFraction at h
  split at h
  · rename_i c d rest
    split at h
    · rename_i hfrac
      rw [Bool.and_eq_true, Bool.or_eq_true, decide_eq_true_eq, decide_eq_true_eq] at hfrac
      obtain ⟨hc, hd⟩ := hfrac
      have hpoint : isTimeChar c = true := by rcases hc with rfl | rfl <;> rfl
      refine clean_cons hpoint (clean_cons (isTimeChar_of_isDigit hd) fun e he => ?_)
      rw [← List.takeWhile_append_dropWhile (p := Char.isDigit) (l := rest)] at he
      rcases List.mem_append.mp he with he | he
      · exact isTimeChar_of_isDigit (List.mem_takeWhile_imp he)
      · exact h e he
    · exact h
  · exact h

theorem zone_clean {sign : Char} {hour min : Str} (h : zone sign hour min r = some s) :
    isTimeChar sign = true ∧ (∃ p, getnum true hour = some p) ∧
      (∃ p, getnum true min = some p) ∧ s = r := by
  simp only [zone, Option.bind_eq_bind, Option.bind_eq_some_iff] at h
  obtain ⟨p, hp, q, hq, h⟩ := h
  split at h
  · rename_i hrange
    cases h
    refine ⟨?_, ⟨p, hp⟩, ⟨q, hq⟩, rfl⟩
    rcases hrange.2.2 with rfl | rfl <;> rfl
  · cases h

theorem numTZ_clean (h : numTZ colon s = some r) (hr : Clean r) : Clean s := by
  have hpair : ∀ {a b : Char} {p : Nat × Str}, getnum true [a, b] = some p →
      isTimeChar a = true ∧ isTimeChar b = true := by
    intro a b p hp
    simp only [getnum] at hp
    split at hp
    · rename_i ha
      split at hp
      · rename_i hb
        exact ⟨isTimeChar_of_isDigit ha, isTimeChar_of_isDigit hb⟩
      · cases hp
    · cases hp
  unfold numTZ at h
  split at h
  · obtain ⟨hsign, ⟨p, hp⟩, ⟨q, hq⟩, rfl⟩ := zone_clean h
    exact clean_cons hsign (clean_cons (hpair hp).1 (clean_cons (hpair hp).2 (clean_cons rfl
      (clean_cons (hpair hq).1 (clean_cons (hpair hq).2 hr)))))
  · obtain ⟨hsign, ⟨p, hp⟩, ⟨q, hq⟩, rfl⟩ := zone_clean h
    exact clean_cons hsign (clean_cons (hpair hp).1 (clean_cons (hpair hp).2
      (clean_cons (hpair hq).1 (clean_cons (hpair hq).2 hr))))
  · cases h

theorem inRange_getnum {lo hi : Nat}
    (h : ∃ k t, getnum fixed s = some (k, t) ∧ inRange lo hi (k, t) = some (n, r)) :
    getnum fixed s = some (n, r) := by
  obtain ⟨k, t, hk, h⟩ := h
  unfold inRange at h
  split at h
  · cases h
    exact hk
  · cases h

theorem parse_clean (h : parse colon s = some ()) :
    Clean s ∧ ∃ c rest, s = c :: rest ∧ c.isDigit = true := by
  simp only [parse, Option.bind_eq_bind, Option.bind_eq_some_iff, Prod.exists] at h
  obtain ⟨y, v₁, hyear, v₂, hs₁, mo, v₃, hmonth, v₄, hs₂, d, v₅, hday, v₆, hs₃, ho, v₇, hhour, v₈,
    hs₄, mi, v₉, hmin, v₁₀, hs₅, se, v₁₁, hsec, v₁₂, htz, hend⟩ := h
  split at hend
  · rename_i hempty
    rw [hempty.1] at htz
    have hsec' : Clean v₁₁ := dropFraction_clean (numTZ_clean htz clean_nil)
    have hmin' : Clean v₉ := skip_clean rfl hs₅ (getnum_clean (inRange_getnum hsec) hsec')
    have hhour' : Clean v₇ := skip_clean rfl hs₄ (getnum_clean (inRange_getnum hmin) hmin')
    have hday' : Clean v₅ := skip_clean rfl hs₃ (getnum_clean (inRange_getnum hhour) hhour')
    have hmonth' : Clean v₃ := skip_clean rfl hs₂ (getnum_clean hday hday')
    have hyear' : Clean v₁ := skip_clean rfl hs₁ (getnum_clean (inRange_getnum hmonth) hmonth')
    exact longYear_clean hyear hyear'
  · cases hend

/-- Digits, and the characters of the layouts; a digit begins it. -/
theorem isJournalTS_clean (h : isJournalTS s = true) :
    Clean s ∧ ∃ c rest, s = c :: rest ∧ c.isDigit = true := by
  rw [isJournalTS, Bool.or_eq_true, Option.isSome_iff_exists, Option.isSome_iff_exists] at h
  rcases h with ⟨u, h⟩ | ⟨u, h⟩
  · exact parse_clean h
  · exact parse_clean h

/-! ## Lines -/

/-- The lines that have an entry, without the carriage returns at their end. -/
def keptLines (text : Str) : List Str :=
  ((lines text).map (TrimRight · "\r")).filter fun ln => ln ≠ [] && !HasPrefix ln "-- "

variable {K : CaseTable}

theorem parseLines_eq (ls : List Str) : parseLines K ls =
    ((ls.map (TrimRight · "\r")).filter fun ln => ln ≠ [] && !HasPrefix ln "-- ").map
      (entry K) := by
  induction ls with
  | nil => rfl
  | cons l ls ih =>
    rw [parseLines, List.map_cons]
    split
    · rename_i hskip
      rw [List.filter_cons_of_neg, ih]
      simpa using fun hne => by simpa [hne] using hskip
    · rename_i hkeep
      rw [List.filter_cons_of_pos, List.map_cons, ih]
      simpa using hkeep

/-- The newlines at the end of a text begin empty lines only. -/
theorem lines_TrimRight (text : Str) :
    ∃ k, lines text = lines (TrimRight text "\n") ++ List.replicate k [] := by
  induction text using List.reverseRecOn with
  | nil => exact ⟨0, rfl⟩
  | append_singleton text c ih =>
    have hend : TrimRight (text ++ [c]) "\n" =
        if c = '\n' then TrimRight text "\n" else text ++ [c] := by
      rw [TrimRight, List.rdropWhile_concat, TrimRight]
      simp
    rw [hend]
    split
    · rename_i hc
      obtain ⟨k, hk⟩ := ih
      refine ⟨k + 1, ?_⟩
      have hline : lines (text ++ ['\n']) = lines text ++ [[]] := lines_append_newline text []
      rw [hc, hline, hk, List.append_assoc, ← List.replicate_succ']
    · exact ⟨0, by simp⟩

theorem parseJournal_lines (text : Str) :
    parseJournal K text = (keptLines text).map (entry K) := by
  obtain ⟨k, hk⟩ := lines_TrimRight text
  have hempty : ((List.replicate k ([] : Str)).map (TrimRight · "\r")).filter
      (fun ln => ln ≠ [] && !HasPrefix ln "-- ") = [] := by
    rw [List.filter_eq_nil_iff]
    intro l hl
    obtain ⟨m, hm, rfl⟩ := List.mem_map.mp hl
    rw [List.eq_of_mem_replicate hm]
    exact Bool.false_ne_true
  rw [parseJournal, parseLines_eq, keptLines, hk, List.map_append, List.filter_append, hempty,
    List.append_nil]

/-! ## Records -/

/-- A record of the journal. -/
structure Record where
  ts : Str
  host : Str
  unit : Str
  pid : Option Str
  message : Str
  stamped : isJournalTS ts = true
  host_ne : host ≠ []
  host_word : ∀ c ∈ host, isSpace c = false
  unit_ne : unit ≠ []
  unit_clean : ':' ∉ unit ∧ '[' ∉ unit ∧ '\n' ∉ unit
  pid_digits : ∀ p, pid = some p → ∀ c ∈ p, c.isDigit = true
  message_line : '\n' ∉ message
  message_trimmed : TrimSpace message = message

namespace Record

def tag (r : Record) : Str :=
  r.unit ++ match r.pid with
    | some p => '[' :: p ++ [']']
    | none => []

/-- The record as `journalctl` prints it. -/
def line (r : Record) : Str :=
  r.ts ++ ' ' :: (r.host ++ ' ' :: (r.tag ++ ':' :: ' ' :: r.message))

variable {r : Record}

theorem tag_colon : ':' ∉ r.tag := by
  intro hmem
  rcases List.mem_append.mp hmem with hmem | hmem
  · exact r.unit_clean.1 hmem
  · cases hpid : r.pid with
    | none => simp [hpid] at hmem
    | some p =>
      have hc : ':' ∈ p := by simpa [hpid] using hmem
      cases r.pid_digits p hpid _ hc

theorem tag_line : '\n' ∉ r.tag := by
  intro hmem
  rcases List.mem_append.mp hmem with hmem | hmem
  · exact r.unit_clean.2.2 hmem
  · cases hpid : r.pid with
    | none => simp [hpid] at hmem
    | some p =>
      have hc : '\n' ∈ p := by simpa [hpid] using hmem
      cases r.pid_digits p hpid _ hc

theorem tag_ne : r.tag ≠ [] := by
  intro hnil
  exact r.unit_ne (List.append_eq_nil_iff.mp hnil).1

theorem unitOf_tag : unitOf r.tag = r.unit := by
  unfold unitOf tag
  cases r.pid with
  | none =>
    have hcut : cut '[' r.unit = none := if_neg r.unit_clean.2.1
    simp only [List.append_nil, hcut]
  | some p =>
    simp only [List.cons_append, cut_append r.unit_clean.2.1, if_pos r.unit_ne]

theorem ts_space : ' ' ∉ r.ts := by
  intro hmem
  cases (isJournalTS_clean r.stamped).1 _ hmem

theorem ts_line : '\n' ∉ r.ts := by
  intro hmem
  cases (isJournalTS_clean r.stamped).1 _ hmem

theorem ts_ne : r.ts ≠ [] := by
  obtain ⟨c, rest, hts, -⟩ := (isJournalTS_clean r.stamped).2
  rw [hts]
  exact List.cons_ne_nil _ _

theorem host_space {c : Char} (hc : isSpace c = true) : c ∉ r.host := by
  intro hmem
  rw [r.host_word c hmem] at hc
  cases hc

theorem line_newline : '\n' ∉ r.line := by
  simp only [line, List.mem_append, List.mem_cons, not_or]
  exact ⟨ts_line, by decide, host_space rfl, by decide, tag_line, by decide, by decide,
    r.message_line⟩

/-- The carriage returns at the end of a line are not part of a record. -/
theorem line_TrimRight : TrimRight r.line "\r" = r.line := by
  have hmessage : TrimRight r.message "\r" = r.message := by
    rw [TrimRight, List.rdropWhile_eq_self_iff]
    intro hne hlast
    have hspace := (trim_eq_self_iff.mp r.message_trimmed).2 _ (List.getLast?_eq_some_getLast hne)
    have hcr : r.message.getLast hne = '\r' := by simpa using hlast
    rw [hcr] at hspace
    cases hspace
  have hsplit : r.line =
      (r.ts ++ ' ' :: (r.host ++ ' ' :: (r.tag ++ [':']))) ++ ' ' :: r.message := by
    simp [line]
  unfold TrimRight at hmessage ⊢
  rw [hsplit, rdropWhile_append_cons rfl, hmessage]

theorem line_kept : (r.line ≠ [] && !HasPrefix r.line "-- ") = true := by
  obtain ⟨c, rest, hts, hc⟩ := (isJournalTS_clean r.stamped).2
  have hline : r.line =
      c :: (rest ++ ' ' :: (r.host ++ ' ' :: (r.tag ++ ':' :: ' ' :: r.message))) := by
    rw [line, hts, List.cons_append]
  have hdash : HasPrefix r.line "-- " = false := by
    rw [Bool.eq_false_iff]
    intro hpre
    obtain ⟨t, ht⟩ := HasPrefix_iff.mp hpre
    rw [hline] at ht
    have hhead : '-' = c := (List.cons.inj ht).1
    rw [← hhead] at hc
    cases hc
  rw [hdash, hline]
  rfl

/-- What stands behind the timestamp, without the spaces around it. -/
theorem rest_trimmed : TrimSpace (r.host ++ ' ' :: (r.tag ++ ':' :: ' ' :: r.message)) =
    r.host ++ ' ' :: (r.tag ++ ':' :: (' ' :: r.message).rdropWhile isSpace) := by
  obtain ⟨c, host, hhost⟩ := List.exists_cons_of_ne_nil r.host_ne
  have hc : isSpace c = false := r.host_word c (hhost ▸ List.mem_cons_self)
  have hfront : (r.host ++ ' ' :: (r.tag ++ ':' :: ' ' :: r.message)).dropWhile isSpace =
      r.host ++ ' ' :: (r.tag ++ ':' :: ' ' :: r.message) := by
    rw [hhost, List.cons_append, List.dropWhile_cons_of_neg (by simp [hc])]
  have hsplit : r.host ++ ' ' :: (r.tag ++ ':' :: ' ' :: r.message) =
      (r.host ++ ' ' :: r.tag) ++ ':' :: (' ' :: r.message) := by simp
  rw [TrimSpace, trim, hfront, hsplit, rdropWhile_append_cons rfl]
  simp

theorem fields_line : fields r.line = (r.ts, r.unit, r.message) := by
  have hhost : skipHost (TrimSpace (r.host ++ ' ' :: (r.tag ++ ':' :: ' ' :: r.message))) =
      r.tag ++ ':' :: (' ' :: r.message).rdropWhile isSpace := by
    rw [rest_trimmed, skipHost, cut_append (host_space rfl)]
    exact if_pos r.host_ne
  have hmessage : TrimSpace ((' ' :: r.message).rdropWhile isSpace) = r.message := by
    rw [TrimSpace, trim_rdropWhile, trim_cons_sep rfl]
    exact r.message_trimmed
  rw [fields, line, cut_append ts_space]
  simp only [if_pos (And.intro r.ts_ne r.stamped), hhost, unitAndMessage, cut_append r.tag_colon,
    if_pos r.tag_ne, unitOf_tag, hmessage]

/-- The entry of a record is that record. -/
theorem entry_line : ((entry K r.line).Time, (entry K r.line).Unit, (entry K r.line).Message) =
    (r.ts, r.unit, r.message) := fields_line

end Record

theorem keptLines_records (rs : List Record) :
    keptLines (rs.flatMap fun r => r.line ++ ['\n']) = rs.map Record.line := by
  have hline : ∀ l ∈ rs.map Record.line, '\n' ∉ l := by
    intro l hl
    obtain ⟨r, -, rfl⟩ := List.mem_map.mp hl
    exact r.line_newline
  have hlines : lines (rs.flatMap fun r => r.line ++ ['\n']) = rs.map Record.line ++ [[]] := by
    rw [← lines_terminated hline, List.flatMap_map]
  have htrim : (rs.map Record.line).map (TrimRight · "\r") = rs.map Record.line := by
    rw [List.map_map]
    exact List.map_congr_left fun r _ => r.line_TrimRight
  have hkeep : ∀ l ∈ rs.map Record.line, (l ≠ [] && !HasPrefix l "-- ") = true := by
    intro l hl
    obtain ⟨r, -, rfl⟩ := List.mem_map.mp hl
    exact r.line_kept
  rw [keptLines, hlines, List.map_append, htrim, List.filter_append, List.filter_eq_self.mpr hkeep]
  exact List.append_nil _

theorem parseJournal_exact (K : CaseTable) (text : Str) (rs : List Record) :
    parseJournal K text = (keptLines text).map (entry K) ∧
      (parseJournal K (rs.flatMap fun r => r.line ++ ['\n'])).map
        (fun e => (e.Time, e.Unit, e.Message)) = rs.map fun r => (r.ts, r.unit, r.message) := by
  refine ⟨parseJournal_lines text, ?_⟩
  rw [parseJournal_lines, keptLines_records, List.map_map, List.map_map]
  exact List.map_congr_left fun r _ => r.entry_line

/-- A message of a process, with colons and brackets in it. -/
def jobFailed : Record where
  ts := "2026-07-10T09:38:07+02:00"
  host := "nas"
  unit := "systemd"
  pid := some "1"
  message := "dev-md0.device: Job [start] failed: timeout"
  stamped := by decide
  host_ne := by decide
  host_word := by decide
  unit_ne := by decide
  unit_clean := by decide
  pid_digits := by rintro p ⟨⟩; decide
  message_line := by decide
  message_trimmed := by decide

/-- One of no process, which says nothing. -/
def silent : Record where
  ts := "2026-07-10T09:38:08+02:00"
  host := "nas"
  unit := "kernel"
  pid := none
  message := ""
  stamped := by decide
  host_ne := by decide
  host_word := by decide
  unit_ne := by decide
  unit_clean := by decide
  pid_digits := by rintro p ⟨⟩
  message_line := by decide
  message_trimmed := by decide

example : jobFailed.line =
    "2026-07-10T09:38:07+02:00 nas systemd[1]: dev-md0.device: Job [start] failed: timeout" ∧
    (parseJournal .asciiOnly ([jobFailed, silent].flatMap fun r => r.line ++ ['\n'])).map
      (fun e => (e.Time, e.Unit, e.Message)) =
      [(jobFailed.ts, jobFailed.unit, jobFailed.message), (silent.ts, silent.unit, [])] := by
  decide +kernel

example : parseJournal .asciiOnly
      "2026-07-10T09:38:07+02:00 nas systemd[1]: dev-md0.device: Job failed\r\n-- Boot 1 --\n\n" =
    [⟨"2026-07-10T09:38:07+02:00", "systemd", "dev-md0.device: Job failed", "error"⟩] := by
  decide +kernel

end Journal
end Nasd
