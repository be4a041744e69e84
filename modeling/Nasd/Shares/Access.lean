import Nasd.Shares.Frontend

/-!
# Nasd.Shares.Access

What the section of a share grants, against what the CIFS form says: through `mapCIFSToAPI`, the
columns of the table and `ApplySMB`, read back from the text as Samba reads it.

* `parameters_section` — reading a section gives the parameters that were written.
* `validUsers_stored`  — the list that arrives in the section.
* `grants_no_more_iff` — when the section grants no more than the form.

Quotation marks in names are read as ordinary characters.
-/

namespace Nasd
namespace Shares

open Text Go

/-! ## Reading smb.conf -/

/-- What separates the names of a list. -/
def isListSep (c : Char) : Bool := c = ' ' || c = '\t' || c = ',' || c = '\n' || c = '\r'

/-- `key = value`, split at the first `=`, the blanks around both dropped. -/
def parameter (line : Str) : Option (Str × Str) :=
  if (line.dropWhile isBlank).head? = some '[' then none
  else match line.dropWhile (· ≠ '=') with
  | [] => none
  | _ :: value => some (trim isBlank (line.takeWhile (· ≠ '=')), trim isBlank value)

def parameters (text : Str) : List (Str × Str) := (lines text).filterMap parameter

/-- The value of a parameter; the last one counts. -/
def setting (key text : Str) : Option Str :=
  ((parameters text).filter (·.1 = key)).getLast?.map (·.2)

/-- The names in `valid users`. -/
def listed (text : Str) : List Str :=
  match setting "valid users" text with
  | none => []
  | some v => words isListSep v

/-- Samba lets the name in: nobody is listed, or the name is. -/
def Admitted (text name : Str) : Prop := listed text = [] ∨ name ∈ listed text

/-! ## What the form says -/

/-- Users by their names, groups by theirs with an `@`, each with its permission. -/
def CIFSForm.principals (form : CIFSForm) : List (Str × Perm) :=
  form.users.map (fun u => (u.username.text, u.perm)) ++
    form.groups.map fun g => ('@' :: g.name.text, g.perm)

/-- The section grants no more than the form. -/
structure GrantsNoMore (form : CIFSForm) (text : Str) : Prop where
  guest : setting "guest ok" text = some ("yes" : Str) → form.smb.guest = true
  listed : ∀ n ∈ listed text, ∃ p ∈ form.principals, p.1 = n ∧ p.2 ≠ .none
  denied : ∀ p ∈ form.principals, p.2 = .none → p.1 ∉ Shares.listed text
  readOnly : ∀ p ∈ form.principals, p.2 = .ro →
    setting "read only" text = some ("true" : Str) ∨ ¬ Admitted text p.1

/-- The names that a permitted name comes to: it is cut at commas, then at what separates the names
of a list. -/
def namesOf (name : Str) : List Str := (splitCSV name).flatMap (words isListSep)

/-- A name that is not made of commas and spaces only. -/
def HasLetter (n : Str) : Prop := ∃ c ∈ n, c ≠ ',' ∧ isSpace c = false

/-- `named`: some name is permitted. `whole`: no permitted name is cut. `denied`: no name with the
permission `none` is among the permitted ones. `readOnly`: unless the share is read-only by default,
no name with the permission `ro` is let in. -/
structure FormIsSafe (form : CIFSForm) : Prop where
  named : form.smb.guest = true ∨ ∃ n ∈ form.permitted, HasLetter n
  whole : form.smb.guest = true ∨ ∀ n ∈ form.permitted.flatMap namesOf, n ∈ form.permitted
  denied : form.smb.guest = true ∨
    ∀ p ∈ form.principals, p.2 = .none → p.1 ∉ form.permitted.flatMap namesOf
  readOnly : form.defaultPerm = .ro ∨
    ∀ p ∈ form.principals, p.2 = .ro →
      form.smb.guest = false ∧ p.1 ∉ form.permitted.flatMap namesOf

/-! ## The section, parameter by parameter -/

def optionKeys : List Str :=
  ["comment", "hide dot files", "case sensitive", "oplocks", "smb encrypt", "vfs objects",
    "recycle:repository", "recycle:keeptree", "recycle:versions", "fruit:time machine",
    "create mask", "directory mask", "browseable"]

def accessKeys : List Str := ["path", "read only", "valid users", "guest ok"]

theorem confValue_oneLine (s : Str) : '\n' ∉ confValue s := by
  intro h
  obtain ⟨c, -, hc⟩ := List.mem_map.mp h
  split at hc
  · cases hc
  · rename_i hne
    exact hne (.inl hc)

/-- The options that do not come from a text of the share. -/
def fixedOptions : List (Str × Str) :=
  [("hide dot files", "yes"), ("case sensitive", "yes"), ("case sensitive", "no"), ("oplocks", "no"),
    ("smb encrypt", "required"), ("vfs objects", "recycle"), ("vfs objects", "fruit"),
    ("vfs objects", "recycle fruit"), ("recycle:repository", ".recycle"),
    ("recycle:keeptree", "yes"), ("recycle:versions", "yes"), ("fruit:time machine", "yes"),
    ("create mask", "0664"), ("directory mask", "0775"), ("browseable", "yes")]

theorem mem_param {on : Bool} {k v : Str} {kv : Str × Str} :
    kv ∈ param on k v ↔ on = true ∧ kv = (k, v) := by
  unfold param
  split
  · rename_i hon; simp [hon]
  · rename_i hoff; simp [hoff]

theorem mem_smbOptions {cfg : ShareConfig} {kv : Str × Str} (h : kv ∈ smbOptions cfg) :
    (kv = (("comment" : Str), confValue (TrimSpace cfg.smb.comment)) ∧ TrimSpace cfg.smb.comment ≠ []) ∨
      kv ∈ fixedOptions := by
  have hfixed : ∀ {on : Bool} {k v : Str}, (k, v) ∈ fixedOptions → kv ∈ param on k v →
      kv ∈ fixedOptions := by
    intro on k v hkv hmem
    rw [(mem_param.mp hmem).2]
    exact hkv
  have hvfs : ∀ {on : Bool}, vfsObjects cfg ≠ [] →
      kv ∈ param on "vfs objects" (Join (vfsObjects cfg) " ") → kv ∈ fixedOptions := by
    intro on hne hmem
    refine hfixed ?_ hmem
    revert hne
    unfold vfsObjects
    cases cfg.recycleBin <;> cases cfg.smb.timeMachine <;> decide
  simp only [smbOptions, List.mem_append] at h
  rcases h with ((((((((h | h) | h) | h) | h) | h) | h) | h) | h) | h
  · obtain ⟨hon, rfl⟩ := mem_param.mp h
    exact .inl ⟨rfl, by simpa using hon⟩
  case inl.inl.inl.inr =>
    right
    split at h
    · cases h
    · rename_i hne
      simp only [List.mem_append] at h
      rcases h with (((h | h) | h) | h) | h
      · exact hvfs hne h
      all_goals exact hfixed (by decide) h
  all_goals exact .inr (hfixed (by decide) h)

theorem fixedOptions_keys : ∀ kv ∈ fixedOptions, kv.1 ∈ optionKeys ∧ '\n' ∉ kv.2 := by decide

/-- Parameters of one line each, under the keys of the options. -/
def AreOptions (ps : List (Str × Str)) : Prop := ∀ kv ∈ ps, kv.1 ∈ optionKeys ∧ '\n' ∉ kv.2

theorem smbOptions_areOptions (cfg : ShareConfig) : AreOptions (smbOptions cfg) := by
  intro kv h
  rcases mem_smbOptions h with ⟨rfl, -⟩ | hfixed
  · have hkey : ("comment" : Str) ∈ optionKeys := by decide
    exact ⟨hkey, confValue_oneLine _⟩
  · exact fixedOptions_keys kv hfixed

/-- A key that the reader finds again in its line. -/
def IsKey (k : Str) : Prop :=
  '=' ∉ k ∧ k.head?.any (fun c => !isBlank c && c ≠ '[') = true ∧
    trim isBlank (' ' :: ' ' :: ' ' :: k ++ [' ']) = k

instance (k : Str) : Decidable (IsKey k) := inferInstanceAs (Decidable (_ ∧ _ ∧ _))

theorem isKey_of_mem : ∀ k ∈ accessKeys ++ optionKeys, IsKey k := by decide

theorem parameter_paramLine {k v : Str} (hk : IsKey k) :
    parameter (paramLine (k, v)) = some (k, trim isBlank v) := by
  obtain ⟨heq, hhead, htrim⟩ := hk
  have hpre : ∀ c ∈ ' ' :: ' ' :: ' ' :: k ++ [' '], decide (c ≠ '=') = true := by
    intro c hc
    simp only [List.cons_append, List.mem_cons, List.mem_append, List.not_mem_nil, or_false] at hc
    rw [decide_eq_true_eq]
    rintro rfl
    rcases hc with hc | hc | hc | hc | hc
    · cases hc
    · cases hc
    · cases hc
    · exact heq hc
    · cases hc
  have hline : paramLine (k, v) = (' ' :: ' ' :: ' ' :: k ++ [' ']) ++ '=' :: ' ' :: v := by
    simp [paramLine]
  have hstart : ((paramLine (k, v)).dropWhile isBlank).head? ≠ some '[' := by
    cases k with
    | nil => cases hhead
    | cons c k =>
      simp only [List.head?_cons, Option.any_some, Bool.and_eq_true, Bool.not_eq_true',
        decide_eq_true_eq] at hhead
      have hdrop : (paramLine (c :: k, v)).dropWhile isBlank =
          c :: (k ++ ' ' :: '=' :: ' ' :: v) := by
        simp [paramLine, hhead.1, show isBlank ' ' = true from rfl]
      rw [hdrop, List.head?_cons]
      intro h
      exact hhead.2 (Option.some.inj h)
  have hvalue : trim isBlank (' ' :: v) = trim isBlank v := trim_cons_sep rfl v
  rw [parameter, if_neg hstart, hline, List.dropWhile_append_of_pos hpre,
    List.takeWhile_append_of_pos hpre]
  simpa [hvalue] using htrim

theorem keys_smbAccess {s : Share} {kv : Str × Str} (h : kv ∈ smbAccess s) :
    kv.1 ∈ accessKeys := by
  simp only [smbAccess, List.mem_cons, List.not_mem_nil, or_false] at h
  rcases h with rfl | rfl | rfl
  · exact (by decide : ("path" : Str) ∈ accessKeys)
  · exact (by decide : ("read only" : Str) ∈ accessKeys)
  · split
    · exact (by decide : ("valid users" : Str) ∈ accessKeys)
    · exact (by decide : ("guest ok" : Str) ∈ accessKeys)

theorem keys_smbParams {s : Share} {kv : Str × Str} (h : kv ∈ smbParams s) :
    kv.1 ∈ accessKeys ++ optionKeys := by
  rcases List.mem_append.mp h with h | h
  · exact List.mem_append_left _ (keys_smbAccess h)
  · exact List.mem_append_right _ (smbOptions_areOptions _ kv h).1

/-- The texts of a share that get into its section are one line each. -/
structure OneLine (s : Share) : Prop where
  name : '\n' ∉ s.name
  path : '\n' ∉ s.path
  validUsers : ∀ u ∈ s.validUsers, '\n' ∉ u

variable {s : Share}

theorem join_oneLine {us : List Str} (h : ∀ u ∈ us, '\n' ∉ u) : '\n' ∉ Join us " " := by
  intro hc
  rcases mem_Join hc with ⟨u, hu, hcu⟩ | hc
  · exact h u hu hcu
  · have hsep : '\n' ∉ (" " : Str) := by decide
    exact hsep hc

theorem OneLine.values (h : OneLine s) {kv : Str × Str} (hkv : kv ∈ smbParams s) : '\n' ∉ kv.2 := by
  rcases List.mem_append.mp hkv with hkv | hkv
  · unfold smbAccess at hkv
    simp only [List.mem_cons, List.not_mem_nil, or_false] at hkv
    rcases hkv with rfl | rfl | rfl
    · exact h.path
    · cases s.readOnly <;> decide
    · split
      · exact join_oneLine h.validUsers
      · decide
  · exact (smbOptions_areOptions _ kv hkv).2

theorem OneLine.lines (h : OneLine s) : ∀ l ∈ smbSection s, '\n' ∉ l := by
  intro l hl
  rcases List.mem_append.mp hl with hl | hl
  · rcases List.mem_cons.mp hl with rfl | hl
    · simp [h.name]
    · obtain ⟨kv, hkv, rfl⟩ := List.mem_map.mp hl
      have hkey : ∀ k ∈ accessKeys ++ optionKeys, '\n' ∉ k := by decide
      simp [paramLine, h.values hkv, hkey kv.1 (keys_smbParams hkv)]
  · rw [List.mem_singleton] at hl
    rw [hl]
    exact List.not_mem_nil

/-- Reading a section gives the parameters that were written. -/
theorem parameters_section (h : OneLine s) :
    parameters (sectionText s) = (smbParams s).map fun kv => (kv.1, trim isBlank kv.2) := by
  have hheader : parameter ('[' :: s.name ++ [']']) = none := by
    simp [parameter, show isBlank '[' = false from rfl]
  have hempty : parameter [] = none := rfl
  have hparams : ((smbParams s).map paramLine).filterMap parameter =
      (smbParams s).map fun kv => (kv.1, trim isBlank kv.2) := by
    rw [List.filterMap_map, ← List.filterMap_eq_map]
    refine List.filterMap_congr fun kv hkv => ?_
    exact parameter_paramLine (isKey_of_mem kv.1 (keys_smbParams hkv))
  rw [parameters, sectionText, lines_terminated h.lines, smbSection]
  simp only [List.cons_append, List.filterMap_cons, List.filterMap_append, List.filterMap_nil,
    hempty, hparams, List.append_nil]
  rw [← List.cons_append, hheader]

theorem setting_section (h : OneLine s) {key : Str} (hkey : key ∉ optionKeys) :
    setting key (sectionText s) =
      (((smbAccess s).filter (·.1 = key)).getLast?).map fun kv => trim isBlank kv.2 := by
  have hoptions : (smbOptions s.parseConfig).filter (·.1 = key) = [] := by
    refine List.filter_eq_nil_iff.mpr fun kv hkv => ?_
    rw [decide_eq_true_eq]
    rintro rfl
    exact hkey (smbOptions_areOptions _ kv hkv).1
  rw [setting, parameters_section h, List.filter_map, List.getLast?_map, Option.map_map, smbParams]
  have hkeys : ((fun kv : Str × Str => decide (kv.1 = key)) ∘
      fun kv : Str × Str => (kv.1, trim isBlank kv.2)) = fun kv => decide (kv.1 = key) := rfl
  rw [hkeys, List.filter_append, hoptions, List.append_nil]
  rfl

theorem setting_readOnly (h : OneLine s) :
    setting "read only" (sectionText s) = some (goBool s.readOnly) := by
  have hfilter : (smbAccess s).filter (·.1 = ("read only" : Str)) =
      [(("read only" : Str), goBool s.readOnly)] := by
    unfold smbAccess
    split <;> rfl
  rw [setting_section h (by decide), hfilter]
  cases s.readOnly <;> rfl

theorem setting_guest (h : OneLine s) :
    setting "guest ok" (sectionText s) = some ("yes" : Str) ↔ s.validUsers = [] := by
  by_cases hnil : s.validUsers = []
  · have hfilter : (smbAccess s).filter (·.1 = ("guest ok" : Str)) =
        [(("guest ok" : Str), ("yes" : Str))] := by
      simp only [smbAccess, hnil, ne_eq, not_true_eq_false, if_false]; rfl
    rw [setting_section h (by decide), hfilter]
    exact ⟨fun _ => hnil, fun _ => rfl⟩
  · have hfilter : (smbAccess s).filter (·.1 = ("guest ok" : Str)) = [] := by
      simp only [smbAccess, ne_eq, hnil, not_false_eq_true, if_true]; rfl
    rw [setting_section h (by decide), hfilter]
    exact ⟨fun hbad => (by cases hbad), fun hbad => absurd hbad hnil⟩

theorem listed_section (h : OneLine s) :
    listed (sectionText s) = s.validUsers.flatMap (words isListSep) := by
  by_cases hnil : s.validUsers = []
  · have hfilter : (smbAccess s).filter (·.1 = ("valid users" : Str)) = [] := by
      simp only [smbAccess, hnil, ne_eq, not_true_eq_false, if_false]; rfl
    rw [listed, setting_section h (by decide), hfilter, hnil]
    rfl
  · have hfilter : (smbAccess s).filter (·.1 = ("valid users" : Str)) =
        [(("valid users" : Str), Join s.validUsers " ")] := by
      simp only [smbAccess, ne_eq, hnil, not_false_eq_true, if_true]; rfl
    have hblank : ∀ c, isBlank c = true → isListSep c = true := by
      intro c hc
      simp only [isBlank, Bool.or_eq_true, decide_eq_true_eq] at hc
      simp only [isListSep, Bool.or_eq_true, decide_eq_true_eq]
      rcases hc with hc | hc <;> simp [hc]
    have hjoin : words isListSep (trim isBlank (Join s.validUsers " ")) =
        s.validUsers.flatMap (words isListSep) :=
      (words_trim hblank _).trans (words_intercalate rfl _)
    rw [listed, setting_section h (by decide), hfilter]
    exact hjoin

/-! ## Through the table -/

theorem splitCSV_append_comma (a b : Str) :
    splitCSV (a ++ ',' :: b) = splitCSV a ++ splitCSV b := by
  have hsplit : (a ++ ',' :: b).splitOn ',' = a.splitOn ',' ++ b.splitOn ',' :=
    List.splitOn_append_cons_self a b
  rw [splitCSV, hsplit, List.map_append, List.filter_append]
  rfl

theorem splitCSV_joinCSV : ∀ xs : List Str, splitCSV (joinCSV xs) = xs.flatMap splitCSV
  | [] => rfl
  | [x] => by rw [joinCSV, Join_singleton, List.flatMap_singleton]
  | x :: y :: ys => by
    have hsplit : joinCSV (x :: y :: ys) = x ++ ',' :: joinCSV (y :: ys) := Join_cons_cons ..
    rw [hsplit, splitCSV_append_comma, splitCSV_joinCSV (y :: ys)]
    rfl

theorem mem_splitCSV {t w : Str} (h : w ∈ splitCSV t) :
    w ≠ [] ∧ ∃ u ∈ t.splitOn ',', w = TrimSpace u := by
  obtain ⟨hmem, hne⟩ := List.mem_filter.mp h
  obtain ⟨u, hu, rfl⟩ := List.mem_map.mp hmem
  exact ⟨by simpa using hne, u, hu, rfl⟩

theorem splitCSV_isInfix {t w : Str} (h : w ∈ splitCSV t) : w <:+: t := by
  obtain ⟨-, u, hu, rfl⟩ := mem_splitCSV h
  rw [List.splitOn_eq_splitOnP] at hu
  exact (trim_isInfix u).trans (mem_splitOnP hu).2

theorem exists_mem_splitCSV {t : Str} {c : Char} (hc : c ∈ t) (hcomma : c ≠ ',')
    (hspace : isSpace c = false) : ∃ w ∈ splitCSV t, c ∈ w := by
  obtain ⟨u, hu, hcu⟩ := exists_mem_splitOnP (p := (· == ',')) (by simpa using hcomma) hc
  have hcw : c ∈ TrimSpace u := mem_trim hspace hcu
  refine ⟨TrimSpace u, List.mem_filter.mpr ⟨List.mem_map.mpr ⟨u, ?_, rfl⟩, ?_⟩, hcw⟩
  · rw [List.splitOn_eq_splitOnP]; exact hu
  · simpa using List.ne_nil_of_mem hcw

/-- Every entry has a character that separates nothing. -/
theorem exists_of_mem_splitCSV {t w : Str} (h : w ∈ splitCSV t) :
    ∃ c ∈ w, c ∈ t ∧ c ≠ ',' ∧ isSpace c = false := by
  obtain ⟨hne, u, hu, rfl⟩ := mem_splitCSV h
  rw [List.splitOn_eq_splitOnP] at hu
  obtain ⟨hclean, hpart⟩ := mem_splitOnP hu
  have hletter : ∃ c ∈ u, isSpace c = false := by
    by_contra hall
    refine hne (trim_eq_nil_iff.mpr fun c hc => ?_)
    by_contra hspace
    exact hall ⟨c, hc, by simpa using hspace⟩
  obtain ⟨c, hc, hspace⟩ := hletter
  exact ⟨c, mem_trim hspace hc, hpart.subset hc, by simpa using hclean c hc, hspace⟩

theorem splitCSV_ne_nil_iff {n : Str} : splitCSV n ≠ [] ↔ HasLetter n := by
  constructor
  · intro h
    obtain ⟨w, hw⟩ := List.exists_mem_of_ne_nil _ h
    obtain ⟨c, -, hc, hcomma, hspace⟩ := exists_of_mem_splitCSV hw
    exact ⟨c, hc, hcomma, hspace⟩
  · rintro ⟨c, hc, hcomma, hspace⟩
    obtain ⟨w, hw, -⟩ := exists_mem_splitCSV hc hcomma hspace
    exact List.ne_nil_of_mem hw

theorem namesOf_ne_nil {n : Str} (h : HasLetter n) : namesOf n ≠ [] := by
  obtain ⟨c, hc, hcomma, hspace⟩ := h
  obtain ⟨w, hw, hcw⟩ := exists_mem_splitCSV hc hcomma hspace
  intro hnil
  have hsep : isListSep c = true :=
    words_eq_nil_iff.mp (List.flatMap_eq_nil_iff.mp hnil w hw) c hcw
  simp only [isListSep, Bool.or_eq_true, decide_eq_true_eq, hcomma, or_false] at hsep
  rcases hsep with ((rfl | rfl) | rfl) | rfl <;> cases hspace

/-- The share of a CIFS form, as it is read back from its row. -/
def stored (id : Int) (form : CIFSForm) : Share := (Row.ofShare id (mapCIFSToAPI form)).share

theorem validUsers_stored (id : Int) (form : CIFSForm) :
    (stored id form).validUsers =
      if form.smb.guest then [] else form.permitted.flatMap splitCSV := by
  rw [stored, Row.share_ofShare]
  simp only [mapCIFSToAPI]
  split
  · rfl
  · exact splitCSV_joinCSV _

theorem mem_permitted {form : CIFSForm} {n : Str} :
    n ∈ form.permitted ↔ ∃ p ∈ form.principals, p.1 = n ∧ p.2 ≠ .none := by
  simp only [CIFSForm.permitted, CIFSForm.principals, List.mem_append, List.mem_map,
    List.mem_filter, decide_eq_true_eq]
  constructor
  · rintro (⟨u, ⟨hu, hperm⟩, rfl⟩ | ⟨g, ⟨hg, hperm⟩, rfl⟩)
    · exact ⟨_, .inl ⟨u, hu, rfl⟩, rfl, hperm⟩
    · exact ⟨_, .inr ⟨g, hg, rfl⟩, rfl, hperm⟩
  · rintro ⟨p, ⟨u, hu, rfl⟩ | ⟨g, hg, rfl⟩, rfl, hperm⟩
    · exact .inl ⟨u, ⟨hu, hperm⟩, rfl⟩
    · exact .inr ⟨g, ⟨hg, hperm⟩, rfl⟩

theorem permitted_oneLine {form : CIFSForm} {n : Str} (h : n ∈ form.permitted) : '\n' ∉ n := by
  rcases List.mem_append.mp h with h | h
  · obtain ⟨u, -, rfl⟩ := List.mem_map.mp h
    exact u.username.oneLine
  · obtain ⟨g, -, rfl⟩ := List.mem_map.mp h
    rw [List.mem_cons]
    rintro (hc | hc)
    · cases hc
    · exact g.name.oneLine hc

theorem oneLine_stored (id : Int) (form : CIFSForm) : OneLine (stored id form) where
  name := form.name.oneLine
  path := form.path.oneLine
  validUsers := by
    intro u hu
    rw [validUsers_stored] at hu
    split at hu
    · cases hu
    · obtain ⟨n, hn, hun⟩ := List.mem_flatMap.mp hu
      exact fun hc => permitted_oneLine hn ((splitCSV_isInfix hun).subset hc)

/-! ## What the section grants -/

variable {id : Int} {form : CIFSForm}

theorem guest_stored :
    setting "guest ok" (sectionText (stored id form)) = some ("yes" : Str) ↔
      form.smb.guest = true ∨ ∀ n ∈ form.permitted, ¬ HasLetter n := by
  have hnone : form.permitted.flatMap splitCSV = [] ↔ ∀ n ∈ form.permitted, ¬ HasLetter n := by
    rw [List.flatMap_eq_nil_iff]
    refine forall₂_congr fun n _ => ?_
    rw [← splitCSV_ne_nil_iff, not_not]
  rw [setting_guest (oneLine_stored id form), validUsers_stored]
  cases form.smb.guest with
  | true => simp
  | false => simpa using hnone

theorem listed_stored :
    listed (sectionText (stored id form)) =
      if form.smb.guest then [] else form.permitted.flatMap namesOf := by
  rw [listed_section (oneLine_stored id form), validUsers_stored]
  cases form.smb.guest with
  | true => rfl
  | false => exact List.flatMap_assoc

theorem readOnly_stored :
    setting "read only" (sectionText (stored id form)) = some ("true" : Str) ↔
      form.defaultPerm = .ro := by
  have hro : (stored id form).readOnly = decide (form.defaultPerm = .ro) := by
    rw [stored, Row.share_ofShare]
    rfl
  rw [setting_readOnly (oneLine_stored id form), hro]
  by_cases h : form.defaultPerm = .ro
  · simp [h, goBool]
  · have hne : ("false" : Str) ≠ "true" := by decide
    simp only [h, decide_false, goBool, Bool.false_eq_true, if_false, iff_false]
    exact fun heq => hne (Option.some.inj heq)

theorem safe_of_grantsNoMore (h : GrantsNoMore form (sectionText (stored id form))) :
    FormIsSafe form := by
  obtain ⟨hguest, hlisted, hdenied, hreadOnly⟩ := h
  rw [guest_stored] at hguest
  rw [listed_stored] at hlisted hdenied
  refine ⟨?_, ?_, ?_, ?_⟩
  · by_contra hneither
    rw [not_or] at hneither
    exact hneither.1 (hguest (.inr fun n hn hletter => hneither.2 ⟨n, hn, hletter⟩))
  · cases hg : form.smb.guest with
    | true => exact .inl rfl
    | false =>
      right
      intro n hn
      rw [hg, if_neg (by simp)] at hlisted
      exact mem_permitted.mpr (hlisted n hn)
  · cases hg : form.smb.guest with
    | true => exact .inl rfl
    | false =>
      right
      intro p hp hnone
      rw [hg, if_neg (by simp)] at hdenied
      exact hdenied p hp hnone
  · by_cases hro : form.defaultPerm = .ro
    · exact .inl hro
    · right
      intro p hp hperm
      rcases hreadOnly p hp hperm with hset | hout
      · exact absurd (readOnly_stored.mp hset) hro
      · rw [Admitted, not_or, listed_stored] at hout
        cases hg : form.smb.guest with
        | true => rw [hg] at hout; exact absurd rfl hout.1
        | false => rw [hg] at hout; exact ⟨rfl, hout.2⟩

theorem grantsNoMore_of_safe (h : FormIsSafe form) :
    GrantsNoMore form (sectionText (stored id form)) := by
  obtain ⟨hnamed, hwhole, hdenied, hreadOnly⟩ := h
  refine ⟨?_, ?_, ?_, ?_⟩
  · rw [guest_stored]
    rintro (hg | hnone)
    · exact hg
    · rcases hnamed with hg | ⟨n, hn, hletter⟩
      · exact hg
      · exact absurd hletter (hnone n hn)
  · intro n hn
    rw [listed_stored] at hn
    rcases hwhole with hg | hwhole
    · rw [hg, if_pos rfl] at hn; cases hn
    · split at hn
      · cases hn
      · exact mem_permitted.mp (hwhole n hn)
  · intro p hp hperm
    rw [listed_stored]
    rcases hdenied with hg | hdenied
    · rw [hg, if_pos rfl]; exact List.not_mem_nil
    · split
      · exact List.not_mem_nil
      · exact hdenied p hp hperm
  · intro p hp hperm
    rcases hreadOnly with hro | hreadOnly
    · exact .inl (readOnly_stored.mpr hro)
    · obtain ⟨hg, hout⟩ := hreadOnly p hp hperm
      right
      rw [Admitted, listed_stored, hg, if_neg (by simp), not_or]
      refine ⟨?_, hout⟩
      rcases hnamed with hg' | ⟨n, hn, hletter⟩
      · rw [hg] at hg'; cases hg'
      · exact fun hnil => namesOf_ne_nil hletter (List.flatMap_eq_nil_iff.mp hnil n hn)

/-- The section grants no more than the form exactly when the form is safe. -/
theorem grants_no_more_iff (id : Int) (form : CIFSForm) :
    GrantsNoMore form (sectionText (stored id form)) ↔ FormIsSafe form :=
  ⟨safe_of_grantsNoMore, grantsNoMore_of_safe⟩

/-- The form that `CIFSModal` starts from, with a name and a path. -/
def newForm : CIFSForm where
  name := ⟨"docs", by decide⟩
  path := ⟨"/srv/docs", by decide⟩
  recycleBin := false
  smb := ⟨⟨"docs", by decide⟩, ⟨"SMB2", by decide⟩, false, false, false, false,
    ⟨"enabled", by decide⟩, false, ⟨"insensitive", by decide⟩, ⟨[], by decide⟩, false⟩
  users := []
  groups := []
  defaultPerm := .none
  status := none
  rest := .none

/-- Nobody is permitted, and the share is open to guests. -/
theorem newForm_open_to_guests : ¬ GrantsNoMore newForm (sectionText (stored 1 newForm)) := by
  intro h
  have hguest : newForm.smb.guest = true := h.guest (by decide)
  cases hguest

end Shares
end Nasd
