import Nasd.Shares.Access
import Nasd.Shares.Accepted
import Nasd.Shares.Regenerate

/-!
# Nasd.Shares.Include

`nasd-shares.conf` read back, line by line: a line `[x]` opens a section, a line `key = value` sets a
parameter of the open one.

* `readLines_sections` — the sections of shares whose texts are one line each.
* `expected_read`      — what the section of a plain share says of a parameter.
* `include_reads_back_iff` — the whole file, for a table of accepted shares.
-/

namespace Nasd
namespace Shares

open Text Go Sys

variable {σ : Type} {O : OS σ} {s : Share} {ss : List Share} {t : Table} {h h' : Host σ}

/-! ## Reading -/

/-- `[x]` -/
def heading (line : Str) : Option Str :=
  if (line.dropWhile isBlank).head? = some '[' then
    some (((line.dropWhile isBlank).drop 1).takeWhile (· ≠ ']'))
  else none

abbrev Params := List (Str × Str)

/-- The parameters before the first section, and the sections. -/
def readLines : List Str → Params × List (Str × Params)
  | [] => ([], [])
  | l :: ls =>
    let (ps, sections) := readLines ls
    match heading l with
    | some x => ([], (x, ps) :: sections)
    | none =>
      match parameter l with
      | some kv => (kv :: ps, sections)
      | none => (ps, sections)

def readInclude (text : Str) : Params × List (Str × Params) := readLines (lines text)

/-- What a parameter says: two of them are lists of names. -/
def meaning (key value : Str) : List Str :=
  if key = "valid users" ∨ key = "vfs objects" then words isListSep value else [value]

/-- Every value that is set for the key, in order. -/
def valuesOf (key : Str) (ps : Params) : List (List Str) :=
  (ps.filter (·.1 = key)).map fun kv => meaning key kv.2

/-- The comment without white space around it, on one line. -/
def ShareConfig.comment (cfg : ShareConfig) : Str :=
  (trim isSpace cfg.smb.comment).map fun c => if c = '\n' ∨ c = '\r' then ' ' else c

/-- The parameters of a section that the advanced options stand for, and three that are the same for
every share. `minProtocol`, `signing` and `guest` have none: the first two are not for a single share,
and guests are let in by the valid users. -/
def ShareConfig.expected (cfg : ShareConfig) (key : Str) : Option (List Str) :=
  if key = "comment" then if cfg.comment = [] then none else some [cfg.comment]
  else if key = "hide dot files" then if cfg.smb.hideDotFiles then some ["yes"] else none
  else if key = "case sensitive" then
    if cfg.smb.caseSensitivity = "sensitive" then some ["yes"]
    else if cfg.smb.caseSensitivity = "insensitive" then some ["no"]
    else none
  else if key = "oplocks" then if cfg.smb.oplocks = "disabled" then some ["no"] else none
  else if key = "smb encrypt" then if cfg.smb.encryption then some ["required"] else none
  else if key = "vfs objects" then
    if cfg.recycleBin then some ("recycle" :: if cfg.smb.timeMachine then ["fruit"] else [])
    else if cfg.smb.timeMachine then some ["fruit"]
    else none
  else if key = "recycle:repository" then if cfg.recycleBin then some [".recycle"] else none
  else if key = "recycle:keeptree" then if cfg.recycleBin then some ["yes"] else none
  else if key = "recycle:versions" then if cfg.recycleBin then some ["yes"] else none
  else if key = "fruit:time machine" then if cfg.smb.timeMachine then some ["yes"] else none
  else if key = "create mask" then some ["0664"]
  else if key = "directory mask" then some ["0775"]
  else if key = "browseable" then some ["yes"]
  else none

/-- What the section of a share should say of a parameter, if anything. -/
def Share.expected (s : Share) (key : Str) : Option (List Str) :=
  if key = "path" then some [s.path]
  else if key = "read only" then some [if s.readOnly then "true" else "false"]
  else if key = "valid users" then if s.validUsers = [] then none else some s.validUsers
  else if key = "guest ok" then if s.validUsers = [] then some ["yes"] else none
  else s.parseConfig.expected key

def IsGlobal (name : Str) : Prop := name.map Char.toLower = "global"

instance : DecidablePred IsGlobal := fun _ => inferInstanceAs (Decidable (_ = _))

/-- The section is named after the share, and sets every parameter as the share says, and once. -/
def Share.IsSection (s : Share) (sec : Str × Params) : Prop :=
  sec.1 = s.name ∧ ∀ key, valuesOf key sec.2 = (s.expected key).toList

/-- The file has one section for each share, in order, and nothing else; no section is the reserved
one. -/
structure ReadsBack (ss : List Share) (text : Str) : Prop where
  free : (readInclude text).1 = []
  sections : List.Forall₂ Share.IsSection ss (readInclude text).2
  reserved : ∀ sec ∈ (readInclude text).2, ¬ IsGlobal sec.1

/-- The name is not reserved, no name of `valid users` is cut, and the path ends in no blank. -/
structure Share.Plain (s : Share) : Prop where
  name : ¬ IsGlobal s.name
  validUsers : ∀ u ∈ s.validUsers, ∀ c ∈ u, isListSep c = false
  path : ∀ c, s.path.getLast? = some c → isBlank c = false

/-! ## Lines -/

theorem heading_of_parameter {line : Str} {kv : Str × Str} (hp : parameter line = some kv) :
    heading line = none := by
  unfold parameter at hp
  split at hp
  · cases hp
  · rename_i hhead
    exact if_neg hhead

theorem heading_name {name : Str} (hname : ']' ∉ name) : heading ('[' :: name ++ [']']) = some name := by
  have hdrop : ('[' :: name ++ [']']).dropWhile isBlank = '[' :: (name ++ [']']) := rfl
  have hin : ∀ c ∈ name, decide (c ≠ ']') = true := by
    intro c hc
    rw [decide_eq_true_eq]
    rintro rfl
    exact hname hc
  rw [heading, hdrop, List.head?_cons, if_pos rfl, List.drop_one, List.tail_cons, List.takeWhile_append_of_pos hin]
  simp

theorem readLines_params {ps : Params} (hps : ∀ kv ∈ ps, IsKey kv.1) (ls : List Str) :
    readLines (ps.map paramLine ++ ls) =
      (ps.map (fun kv => (kv.1, trim isBlank kv.2)) ++ (readLines ls).1, (readLines ls).2) := by
  induction ps with
  | nil => rfl
  | cons kv ps ih =>
    obtain ⟨k, v⟩ := kv
    have hkey : IsKey k := hps _ List.mem_cons_self
    have hline : parameter (paramLine (k, v)) = some (k, trim isBlank v) := parameter_paramLine hkey
    rw [List.map_cons, List.cons_append, readLines, ih fun q hq => hps q (List.mem_cons_of_mem _ hq)]
    simp only [heading_of_parameter hline, hline]
    rfl

theorem readLines_section (hname : ']' ∉ s.name) (ls : List Str) :
    readLines (smbSection s ++ ls) =
      ([], (s.name, (smbParams s).map (fun kv => (kv.1, trim isBlank kv.2)) ++ (readLines ls).1) ::
        (readLines ls).2) := by
  have hempty : readLines ([] :: ls) = readLines ls := by
    simp [readLines, heading, parameter]
  have hsection : smbSection s ++ ls =
      ('[' :: s.name ++ [']']) :: ((smbParams s).map paramLine ++ [] :: ls) := by
    simp [smbSection]
  have hkeys : ∀ kv ∈ smbParams s, IsKey kv.1 := fun kv hkv =>
    isKey_of_mem kv.1 (keys_smbParams hkv)
  rw [hsection, readLines, readLines_params hkeys, hempty]
  simp only [heading_name hname]

/-- Sections of shares, read one by one. -/
theorem readLines_sections (hnames : ∀ s ∈ ss, ']' ∉ s.name) :
    readLines (ss.flatMap smbSection ++ [[]]) =
      ([], ss.map fun s => (s.name, (smbParams s).map fun kv => (kv.1, trim isBlank kv.2))) := by
  induction ss with
  | nil => rfl
  | cons s ss ih =>
    rw [List.flatMap_cons, List.append_assoc, readLines_section (hnames s List.mem_cons_self),
      ih fun q hq => hnames q (List.mem_cons_of_mem _ hq)]
    simp

theorem readInclude_text (hlines : ∀ s ∈ ss, OneLine s) (hnames : ∀ s ∈ ss, ']' ∉ s.name) :
    readInclude (smbHeader ++ ss.flatMap sectionText) =
      ([], ss.map fun s => (s.name, (smbParams s).map fun kv => (kv.1, trim isBlank kv.2))) := by
  have hheader : smbHeader = ("# Generato da nasd" : Str) ++ ['\n'] := rfl
  have htext : smbHeader ++ ss.flatMap sectionText =
      ("# Generato da nasd" : Str) ++ '\n' :: (ss.flatMap smbSection).flatMap (· ++ ['\n']) := by
    rw [hheader, List.flatMap_assoc, List.append_assoc]
    rfl
  have hone : ∀ l ∈ ss.flatMap smbSection, '\n' ∉ l := by
    intro l hl
    obtain ⟨s, hs, hl⟩ := List.mem_flatMap.mp hl
    exact (hlines s hs).lines l hl
  have hfirst : lines ("# Generato da nasd" : Str) = [("# Generato da nasd" : Str)] :=
    lines_of_not_mem (by decide)
  have hcomment : ∀ ls, readLines (("# Generato da nasd" : Str) :: ls) = readLines ls := by
    intro ls
    have hnone : heading "# Generato da nasd" = none := by decide
    have hnone' : parameter "# Generato da nasd" = none := by decide
    rw [readLines]
    simp only [hnone, hnone']
  rw [readInclude, htext, lines_append_newline, hfirst, List.singleton_append, hcomment,
    lines_terminated hone, readLines_sections hnames]

/-! ## Settings -/

theorem confValue_trimmed {v : Str} (hv : trim isSpace v = v) :
    trim isBlank (confValue v) = confValue v := by
  have hkeep : ∀ c, isSpace c = false → isBlank (if c = '\n' ∨ c = '\r' then ' ' else c) = false := by
    intro c hc
    split
    · rename_i hnl
      rcases hnl with rfl | rfl <;> cases hc
    · by_contra hblank
      rw [Bool.not_eq_false] at hblank
      rw [isSpace_of_isBlank hblank] at hc
      cases hc
  obtain ⟨hhead, hlast⟩ := trim_eq_self_iff.mp hv
  refine trim_eq_self_iff.mpr ⟨fun c hc => ?_, fun c hc => ?_⟩
  · rw [confValue, List.head?_map, Option.map_eq_some_iff] at hc
    obtain ⟨d, hd, rfl⟩ := hc
    exact hkeep d (hhead d hd)
  · rw [confValue, List.getLast?_map, Option.map_eq_some_iff] at hc
    obtain ⟨d, hd, rfl⟩ := hc
    exact hkeep d (hlast d hd)

theorem valuesOf_append (key : Str) (ps qs : Params) :
    valuesOf key (ps ++ qs) = valuesOf key ps ++ valuesOf key qs := by
  rw [valuesOf, List.filter_append, List.map_append]
  rfl

theorem valuesOf_of_not_mem {key : Str} {ps : Params} (h : ∀ kv ∈ ps, kv.1 ≠ key) :
    valuesOf key (ps.map fun kv => (kv.1, trim isBlank kv.2)) = [] := by
  rw [valuesOf, List.filter_eq_nil_iff.mpr, List.map_nil]
  intro kv hkv
  obtain ⟨kv', hkv', rfl⟩ := List.mem_map.mp hkv
  simpa using h kv' hkv'

theorem valuesOf_param (key : Str) (on : Bool) (k v : Str) :
    valuesOf key ((param on k v).map fun kv => (kv.1, trim isBlank kv.2)) =
      if on = true ∧ k = key then [meaning key (trim isBlank v)] else [] := by
  unfold param valuesOf
  cases on <;> by_cases hk : k = key <;> simp [hk]

/-- The options one by one: those of the modules are there when the modules are. -/
theorem smbOptions_eq (cfg : ShareConfig) : smbOptions cfg =
    param (TrimSpace cfg.smb.comment ≠ []) "comment" (confValue (TrimSpace cfg.smb.comment)) ++
    param cfg.smb.hideDotFiles "hide dot files" "yes" ++
    param (cfg.smb.caseSensitivity = "sensitive") "case sensitive" "yes" ++
    param (cfg.smb.caseSensitivity = "insensitive") "case sensitive" "no" ++
    param (cfg.smb.oplocks = "disabled") "oplocks" "no" ++
    param cfg.smb.encryption "smb encrypt" "required" ++
    param (vfsObjects cfg ≠ []) "vfs objects" (Join (vfsObjects cfg) " ") ++
    param cfg.recycleBin "recycle:repository" ".recycle" ++
    param cfg.recycleBin "recycle:keeptree" "yes" ++
    param cfg.recycleBin "recycle:versions" "yes" ++
    param cfg.smb.timeMachine "fruit:time machine" "yes" ++
    param true "create mask" "0664" ++ param true "directory mask" "0775" ++
    param true "browseable" "yes" := by
  have hmodules : ∀ a b : Bool, ∀ v : Str, ∀ ws : List Str,
      ws = (if a then [("recycle" : Str)] else []) ++ (if b then [("fruit" : Str)] else []) →
      (if ws = [] then [] else param true "vfs objects" v ++
        param a "recycle:repository" ".recycle" ++ param a "recycle:keeptree" "yes" ++
        param a "recycle:versions" "yes" ++ param b "fruit:time machine" "yes") =
      param (ws ≠ []) "vfs objects" v ++ param a "recycle:repository" ".recycle" ++
        param a "recycle:keeptree" "yes" ++ param a "recycle:versions" "yes" ++
        param b "fruit:time machine" "yes" := by
    rintro a b v ws rfl
    cases a <;> cases b <;> rfl
  rw [smbOptions, hmodules cfg.recycleBin cfg.smb.timeMachine _ (vfsObjects cfg) rfl]
  simp only [List.append_assoc]

theorem expected_of_not_mem {key : Str} (cfg : ShareConfig) (h : key ∉ optionKeys) :
    cfg.expected key = none := by
  simp only [optionKeys, List.mem_cons, List.not_mem_nil, or_false, not_or] at h
  simp only [ShareConfig.expected, h, if_false]

theorem options_read (cfg : ShareConfig) (key : Str) :
    valuesOf key ((smbOptions cfg).map fun kv => (kv.1, trim isBlank kv.2)) =
      (cfg.expected key).toList := by
  by_cases hkey : key ∈ optionKeys
  · have hcomment : trim isBlank (confValue (TrimSpace cfg.smb.comment)) = cfg.comment :=
      confValue_trimmed (trim_trim _)
    have hsome : decide (TrimSpace cfg.smb.comment ≠ []) = decide (cfg.comment ≠ []) :=
      decide_eq_decide.mpr (not_congr List.map_eq_nil_iff.symm)
    rw [smbOptions_eq]
    simp only [List.map_append, valuesOf_append, valuesOf_param]
    simp only [optionKeys, List.mem_cons, List.not_mem_nil, or_false] at hkey
    rcases hkey with rfl | rfl | rfl | rfl | rfl | rfl | rfl | rfl | rfl | rfl | rfl | rfl | rfl
    all_goals
      simp +decide only [ShareConfig.expected, and_false, and_true, if_false, if_true,
        List.append_nil, List.nil_append, hcomment, hsome]
    case inl => cases hc : cfg.comment <;> rfl
    case inr.inl => cases cfg.smb.hideDotFiles <;> rfl
    case inr.inr.inl =>
      by_cases hyes : cfg.smb.caseSensitivity = "sensitive"
      · rw [hyes]
        rfl
      · by_cases hno : cfg.smb.caseSensitivity = "insensitive"
        · rw [hno]
          rfl
        · simp only [hyes, hno, decide_false, Bool.false_eq_true, if_false]
          rfl
    case inr.inr.inr.inl =>
      by_cases hoff : cfg.smb.oplocks = "disabled"
      · simp only [hoff, decide_true, if_true]
        rfl
      · simp only [hoff, decide_false, Bool.false_eq_true, if_false]
        rfl
    case inr.inr.inr.inr.inl => cases cfg.smb.encryption <;> rfl
    case inr.inr.inr.inr.inr.inl =>
      unfold vfsObjects
      cases cfg.recycleBin <;> cases cfg.smb.timeMachine <;> decide
    case inr.inr.inr.inr.inr.inr.inr.inr.inr.inl => cases cfg.smb.timeMachine <;> rfl
    all_goals cases cfg.recycleBin <;> rfl
  · rw [expected_of_not_mem cfg hkey]
    refine valuesOf_of_not_mem fun kv hkv hsame => hkey ?_
    rw [← hsame]
    exact (smbOptions_areOptions cfg kv hkv).1

theorem words_users (us : List Str) :
    words isListSep (trim isBlank (Join us " ")) = us.flatMap (words isListSep) := by
  have hblank : ∀ c, isBlank c = true → isListSep c = true := by
    intro c hc
    simp only [isBlank, Bool.or_eq_true, decide_eq_true_eq] at hc
    simp only [isListSep, Bool.or_eq_true, decide_eq_true_eq]
    rcases hc with hc | hc <;> simp [hc]
  exact (words_trim hblank _).trans (words_intercalate rfl _)

/-- Names that no separator cuts. -/
theorem flatMap_words_eq_self {us : List Str} (hsome : ∀ u ∈ us, u ≠ [])
    (hwhole : ∀ u ∈ us, ∀ c ∈ u, isListSep c = false) : us.flatMap (words isListSep) = us := by
  induction us with
  | nil => rfl
  | cons u us ih =>
    rw [List.flatMap_cons, words_of_clean (hsome u List.mem_cons_self) (hwhole u List.mem_cons_self),
      ih (fun v hv => hsome v (List.mem_cons_of_mem _ hv))
        fun v hv => hwhole v (List.mem_cons_of_mem _ hv)]
    rfl

theorem access_read (hs : s.Plain) (hsome : ∀ u ∈ s.validUsers, u ≠ [])
    (hroot : HasPrefix s.path "/" = true) {key : Str} (hkey : key ∈ accessKeys) :
    valuesOf key ((smbAccess s).map fun kv => (kv.1, trim isBlank kv.2)) =
      (s.expected key).toList := by
  have hpath : trim isBlank s.path = s.path := by
    obtain ⟨rest, hrest⟩ := HasPrefix_iff.mp hroot
    refine trim_eq_self_iff.mpr ⟨fun c hc => ?_, hs.path⟩
    rw [← hrest] at hc
    cases hc
    rfl
  have husers : meaning "valid users" (trim isBlank (Join s.validUsers " ")) = s.validUsers := by
    have hread : meaning "valid users" (trim isBlank (Join s.validUsers " ")) =
        words isListSep (trim isBlank (Join s.validUsers " ")) := if_pos (.inl rfl)
    rw [hread, words_users, flatMap_words_eq_self hsome hs.validUsers]
  have haccess : smbAccess s = param true "path" s.path ++
      param true "read only" (goBool s.readOnly) ++
      param (s.validUsers ≠ []) "valid users" (Join s.validUsers " ") ++
      param (s.validUsers = []) "guest ok" "yes" := by
    unfold smbAccess param
    by_cases hnil : s.validUsers = []
    · simp only [hnil, ne_eq, not_true_eq_false, decide_false, decide_true, Bool.false_eq_true,
        if_true, if_false]
      rfl
    · simp only [hnil, ne_eq, not_false_eq_true, decide_true, decide_false, Bool.false_eq_true,
        if_true, if_false]
      rfl
  rw [haccess]
  simp only [List.map_append, valuesOf_append, valuesOf_param]
  simp only [accessKeys, List.mem_cons, List.not_mem_nil, or_false] at hkey
  rcases hkey with rfl | rfl | rfl | rfl
  all_goals
    simp +decide only [Share.expected, and_false, and_true, if_false, if_true, List.append_nil,
      List.nil_append, husers]
  case inl => rw [hpath]; rfl
  case inr.inl => cases s.readOnly <;> rfl
  all_goals cases s.validUsers <;> rfl

/-- The section of a plain share says of every parameter what it should. -/
theorem expected_read (hs : s.Plain) (hsome : ∀ u ∈ s.validUsers, u ≠ [])
    (hroot : HasPrefix s.path "/" = true) (key : Str) :
    valuesOf key ((smbParams s).map fun kv => (kv.1, trim isBlank kv.2)) =
      (s.expected key).toList := by
  rw [smbParams, List.map_append, valuesOf_append, options_read]
  by_cases hkey : key ∈ accessKeys
  · have hother : key ∉ optionKeys := by
      revert hkey
      revert key
      decide
    rw [access_read hs hsome hroot hkey, expected_of_not_mem _ hother, Option.toList_none,
      List.append_nil]
  · have hnone : valuesOf key ((smbAccess s).map fun kv => (kv.1, trim isBlank kv.2)) = [] := by
      refine valuesOf_of_not_mem fun kv hkv hsame => hkey ?_
      rw [← hsame]
      exact keys_smbAccess hkv
    simp only [accessKeys, List.mem_cons, List.not_mem_nil, or_false, not_or] at hkey
    rw [hnone, List.nil_append, Share.expected, if_neg hkey.1, if_neg hkey.2.1, if_neg hkey.2.2.1,
      if_neg hkey.2.2.2]

/-! ## The whole file -/

/-- A value that was read has no blank at its ends. -/
theorem trimmed_of_read : ∀ {ls : List Str} {kv : Str × Str},
    (kv ∈ (readLines ls).1 ∨ ∃ sec ∈ (readLines ls).2, kv ∈ sec.2) → trim isBlank kv.2 = kv.2 := by
  intro ls
  induction ls with
  | nil =>
    intro kv hkv
    rcases hkv with hkv | ⟨sec, hsec, -⟩
    · cases hkv
    · cases hsec
  | cons l ls ih =>
    intro kv hkv
    rw [readLines] at hkv
    cases hhead : heading l with
    | some x =>
      simp only [hhead] at hkv
      rcases hkv with hkv | ⟨sec, hsec, hkv⟩
      · cases hkv
      · rcases List.mem_cons.mp hsec with rfl | hsec
        · exact ih (.inl hkv)
        · exact ih (.inr ⟨sec, hsec, hkv⟩)
    | none =>
      cases hparam : parameter l with
      | none =>
        simp only [hhead, hparam] at hkv
        exact ih hkv
      | some kv' =>
        simp only [hhead, hparam] at hkv
        rcases hkv with hkv | ⟨sec, hsec, hkv⟩
        · rcases List.mem_cons.mp hkv with rfl | hkv
          · unfold parameter at hparam
            split at hparam
            · cases hparam
            · split at hparam
              · cases hparam
              · cases hparam
                exact trim_trim _
          · exact ih (.inl hkv)
        · exact ih (.inr ⟨sec, hsec, hkv⟩)

theorem exists_of_forall₂ {α β : Type} {R : α → β → Prop} {as : List α} {bs : List β}
    (h : List.Forall₂ R as bs) {a : α} (ha : a ∈ as) : ∃ b ∈ bs, R a b := by
  induction h with
  | nil => cases ha
  | cons hab _ ih =>
    rcases List.mem_cons.mp ha with rfl | ha
    · exact ⟨_, List.mem_cons_self, hab⟩
    · obtain ⟨b, hb, hrel⟩ := ih ha
      exact ⟨b, List.mem_cons_of_mem _ hb, hrel⟩

/-- A value that a key has is that of one of its parameters. -/
theorem mem_valuesOf {key : Str} {ps : Params} {v : List Str} (h : v ∈ valuesOf key ps) :
    ∃ kv ∈ ps, kv.1 = key ∧ meaning key kv.2 = v := by
  obtain ⟨kv, hkv, rfl⟩ := List.mem_map.mp h
  obtain ⟨hmem, hkey⟩ := List.mem_filter.mp hkv
  exact ⟨kv, hmem, of_decide_eq_true hkey, rfl⟩

theorem plain_of_readsBack {text : Str} (hback : ReadsBack ss text) (hs : s ∈ ss) : s.Plain := by
  obtain ⟨sec, hsec, hname, hvalues⟩ := exists_of_forall₂ hback.sections hs
  refine ⟨?_, ?_, ?_⟩
  · rw [← hname]
    exact hback.reserved sec hsec
  · intro u hu
    have hexpected : s.expected "valid users" = some s.validUsers :=
      if_neg (List.ne_nil_of_mem hu)
    have hmem : s.validUsers ∈ valuesOf "valid users" sec.2 := by
      rw [hvalues, hexpected]
      exact List.mem_singleton_self _
    obtain ⟨kv, -, -, hread⟩ := mem_valuesOf hmem
    have hwords : words isListSep kv.2 = s.validUsers := hread
    rw [← hwords] at hu
    exact (mem_words hu).2.1
  · have hmem : [s.path] ∈ valuesOf "path" sec.2 := by
      rw [hvalues]
      exact List.mem_singleton_self _
    obtain ⟨kv, hkv, -, hread⟩ := mem_valuesOf hmem
    have hvalue : kv.2 = s.path := List.singleton_inj.mp hread
    have htrim : trim isBlank kv.2 = kv.2 := trimmed_of_read (.inr ⟨sec, hsec, hkv⟩)
    rw [hvalue] at htrim
    exact (trim_eq_self_iff.mp htrim).2

theorem name_chars {name : Str} (hname : ValidShareName name = true) {c : Char}
    (hc : (c.isAlphanum || c = ' ' || c = '_' || c = '.' || c = '-') = false) : c ∉ name := by
  intro hmem
  rw [ValidShareName, Bool.and_eq_true, List.all_eq_true] at hname
  rw [hname.2 c hmem] at hc
  cases hc

theorem readsBack_of_plain (hvalid : ∀ s ∈ ss, validateShare s = .ok ())
    (hsome : ∀ s ∈ ss, ∀ u ∈ s.validUsers, u ≠ []) (hplain : ∀ s ∈ ss, s.Plain) :
    ReadsBack ss (smbHeader ++ ss.flatMap sectionText) := by
  have hlines : ∀ s ∈ ss, OneLine s := by
    intro s hs
    obtain ⟨hname, -, -, hchars⟩ := validateShare_ok (hvalid s hs)
    refine ⟨name_chars hname rfl, containsAny_false.mp hchars _ (by decide), fun u hu hc => ?_⟩
    have hclean := (hplain s hs).validUsers u hu _ hc
    cases hclean
  have hnames : ∀ s ∈ ss, ']' ∉ s.name := fun s hs =>
    name_chars (validateShare_ok (hvalid s hs)).1 rfl
  have hread := readInclude_text hlines hnames
  refine ⟨congrArg Prod.fst hread, ?_, ?_⟩
  · rw [hread, List.forall₂_map_right_iff, List.forall₂_same]
    exact fun s hs => ⟨rfl, expected_read (hplain s hs) (hsome s hs)
      (validateShare_ok (hvalid s hs)).2.2.1⟩
  · rw [hread]
    intro sec hsec
    obtain ⟨s, hs, rfl⟩ := List.mem_map.mp hsec
    exact (hplain s hs).name

theorem validUsers_some (hs : s ∈ loadShares t) : ∀ u ∈ s.validUsers, u ≠ [] := by
  obtain ⟨r, -, rfl⟩ := mem_loadShares.mp hs
  intro u hu
  exact (mem_splitCSV hu).1

/-- The file that a successful `ApplySMB` writes for accepted shares says what they say exactly when
every share that is on is plain. -/
theorem include_reads_back_iff (ht : t.Accepted)
    (hok : ApplySMB O (loadShares t) h = (.ok (), h')) :
    (∃ text, h'.files includePath = some text ∧
      ReadsBack ((loadShares t).filter Share.isSMB) text) ↔
    ∀ s ∈ (loadShares t).filter Share.isSMB, s.Plain := by
  obtain ⟨-, hops⟩ := ApplySMB_ok_iff.mp hok
  have hfile := smbOps_file hops
  constructor
  · rintro ⟨text, -, hback⟩ s hs
    exact plain_of_readsBack hback hs
  · intro hplain
    refine ⟨_, hfile, readsBack_of_plain ?_ ?_ hplain⟩
    · intro s hs
      exact ht.valid (List.mem_of_mem_filter hs)
    · intro s hs
      exact validUsers_some (List.mem_of_mem_filter hs)

/-- A share for one user. -/
def forUser (user : Str) : Share := ⟨"a", "/a", SMB, false, [], [user], true, none⟩

def forUserTable (user : Str) : Table := (Table.empty.insert ⟨forUser user, rfl⟩).after .empty

theorem forUserTable_accepted (user : Str) : (forUserTable user).Accepted := by
  intro r hr
  rw [List.mem_singleton.mp hr]
  exact ⟨⟨forUser user, rfl⟩, rfl⟩

theorem include_reads_back_user :
    (∃ text, (ApplySMB .faultless (loadShares (forUserTable "u")) (.start () fun _ => none)).2.files
        includePath = some text ∧
      ReadsBack ((loadShares (forUserTable "u")).filter Share.isSMB) text) := by
  have hplain : ∀ s ∈ (loadShares (forUserTable "u")).filter Share.isSMB, s.Plain := by
    intro s hs
    have hone : (loadShares (forUserTable "u")).filter Share.isSMB = [forUser "u"] := rfl
    rw [hone, List.mem_singleton] at hs
    rw [hs]
    refine ⟨by decide, fun u hu c hc => ?_, fun c hc => ?_⟩
    · rw [List.mem_singleton.mp hu] at hc
      rw [List.mem_singleton.mp hc]
      rfl
    · cases hc
      rfl
  exact (include_reads_back_iff (forUserTable_accepted "u")
    (Prod.ext (ApplySMB_accepts OS.faultless_works (forUserTable_accepted "u")) rfl)).mpr hplain

/-- The name of a user opens a section of its own. -/
theorem include_opens_section :
    validateShare (forUser "u\n[b]\npath = /") = .ok () ∧
    (loadShares (forUserTable "u\n[b]\npath = /")).map (·.name) = [("a" : Str)] ∧
    (ApplySMB .faultless (loadShares (forUserTable "u\n[b]\npath = /"))
      (.start () fun _ => none)).1 = .ok () ∧
    ((ApplySMB .faultless (loadShares (forUserTable "u\n[b]\npath = /"))
      (.start () fun _ => none)).2.files includePath).map
        (fun text => (readInclude text).2.map (·.1)) = some [("a" : Str), "b"] :=
  ⟨rfl, by decide, by decide, by decide⟩

end Shares
end Nasd
