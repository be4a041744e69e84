import Nasd.Dlna.Manager

/-!
# Nasd.Dlna.ReadBack

`minidlna.conf` read back. Every line is `key=value`, cut at the first `=`. The value of a
`media_dir` may begin with the letter of a kind and a comma; a path begins with `/`, so that no path
is taken for one.

* `decodeDir_encodeDir` — one row.
* `Configure_read_back` — the file of every table that `addDir` and `removeDir` can lead to.
-/

namespace Nasd
namespace Dlna

open Text Go Sys

variable {σ : Type} {O : OS σ} {d : MediaDir} {dirs : List MediaDir} {t : MediaDirs} {name : Str}

/-! ## Reading -/

def entries (text : Str) : List (Str × Str) := (readLines text).filterMap (cut '=')

def valuesOf (key text : Str) : List Str :=
  ((entries text).filter (·.1 = key)).map Prod.snd

/-- The value of a `media_dir`: a leading `A`, `V` or `P` with a comma is the kind. -/
def decodeDir : Str → MediaDir
  | c :: ',' :: path => if c ∈ ['A', 'V', 'P'] then ⟨path, [c]⟩ else ⟨c :: ',' :: path, []⟩
  | path => ⟨path, []⟩

/-! ## Rows -/

/-- What `addDir` asks of a row. -/
structure Served (d : MediaDir) : Prop where
  rooted : d.path.head? = some '/'
  line : '\n' ∉ d.path
  type : d.type ∈ [("" : Str), "A", "V", "P"]

/-- The tables that requests lead to, from the empty one. -/
inductive Reachable : MediaDirs → Prop where
  | empty : Reachable .empty
  | step {t t' : MediaDirs} {q : Request} {st : Stmt} :
      Reachable t → check q = .ok st → st.exec t = .ok t' → Reachable t'

theorem handle_reachable {q : Request} {b : Backend σ} (hb : Reachable b.dirs) :
    Reachable (handle O q b).2.dirs := by
  unfold handle
  cases hcheck : check q with
  | error r => exact hb
  | ok st =>
    dsimp only
    cases hexec : st.exec b.dirs with
    | error r => exact hb
    | ok t =>
      have ht : Reachable t := .step hb hcheck hexec
      dsimp only
      split <;> exact ht

theorem served_of_check {q : Request} (h : check q = .ok (.insert d)) : Served d := by
  rcases q with (_ | e) | path
  · cases h
  · simp only [check] at h
    split at h
    · cases h
    · rename_i hpath
      split at h
      · rename_i htype
        cases h
        simp only [Bool.or_eq_true, Bool.not_eq_true', not_or, Bool.not_eq_false,
          Bool.not_eq_true] at hpath
        obtain ⟨hroot, hclean⟩ := hpath
        refine ⟨?_, ?_, htype⟩
        · obtain ⟨rest, hrest⟩ := HasPrefix_iff.mp hroot
          rw [← hrest]
          rfl
        · intro hmem
          rw [ContainsAny, List.any_eq_false] at hclean
          exact hclean _ hmem (by decide)
      · cases h
  · cases h

theorem served_of_reachable (ht : Reachable t) : ∀ d ∈ t.rows, Served d := by
  induction ht with
  | empty => exact fun d hd => absurd hd List.not_mem_nil
  | @step t t' q st _ hcheck hexec ih =>
    cases st with
    | insert d =>
      simp only [Stmt.exec] at hexec
      split at hexec
      · cases hexec
      · cases hexec
        intro e he
        rcases List.mem_append.mp he with he | he
        · exact ih e he
        · rw [List.mem_singleton.mp he]
          exact served_of_check hcheck
    | delete path =>
      simp only [Stmt.exec] at hexec
      split at hexec
      · cases hexec
      · cases hexec
        exact fun e he => ih e (List.mem_of_mem_filter he)

theorem mem_loadDirs : d ∈ loadDirs t ↔ d ∈ t.rows :=
  (List.perm_insertionSort _ t.rows).mem_iff

theorem loadDirs_length : (loadDirs t).length = t.rows.length :=
  (List.perm_insertionSort _ t.rows).length_eq

/-! ## One row -/

/-- What stands behind `media_dir=`. -/
def encodeDir (d : MediaDir) : Str := if d.type ≠ [] then d.type ++ "," ++ d.path else d.path

theorem dirLine_eq (d : MediaDir) : dirLine d = "media_dir" ++ '=' :: encodeDir d ++ ['\n'] := by
  unfold dirLine encodeDir
  split <;> simp

theorem decodeDir_rooted {p : Str} (h : p.head? = some '/') : decodeDir p = ⟨p, []⟩ := by
  cases p with
  | nil => cases h
  | cons c p =>
    obtain rfl : c = '/' := Option.some.inj h
    unfold decodeDir
    split
    · rename_i heq
      cases heq
      rw [if_neg (by decide)]
    · rfl

/-- The letter of a kind is never the beginning of a path. -/
theorem decodeDir_encodeDir (hd : Served d) : decodeDir (encodeDir d) = d := by
  obtain ⟨path, type⟩ := d
  obtain ⟨hroot, -, htype⟩ := hd
  have hcases : type = [] ∨ type = ['A'] ∨ type = ['V'] ∨ type = ['P'] := by
    simpa [List.mem_cons] using htype
  rcases hcases with rfl | rfl | rfl | rfl
  · exact decodeDir_rooted hroot
  all_goals rfl

theorem encodeDir_line (hd : Served d) : '\n' ∉ encodeDir d := by
  have htype : ∀ s ∈ [("" : Str), "A", "V", "P"], '\n' ∉ s := by decide
  unfold encodeDir
  split
  · simp only [List.mem_append, not_or]
    exact ⟨⟨htype _ hd.type, by decide⟩, hd.line⟩
  · exact hd.line

/-! ## The file -/

/-- The keys and values of the file, in its order. -/
def confEntries (name : Str) (dirs : List MediaDir) : List (Str × Str) :=
  ("friendly_name", sanitize name) :: ("db_dir", "/var/cache/minidlna") ::
    ("log_dir", "/var/log") :: ("inotify", "yes") ::
    dirs.map fun d => (("media_dir" : Str), encodeDir d)

def entryLine (e : Str × Str) : Str := e.1 ++ '=' :: e.2

theorem dirLines_ok (h : ∀ d ∈ dirs, Served d) : dirLines dirs = .ok (dirs.flatMap dirLine) := by
  induction dirs with
  | nil => rfl
  | cons d dirs ih =>
    have hclean : ContainsAny d.path "\n" = false := by
      rw [ContainsAny, List.any_eq_false]
      intro c hc hnew
      obtain rfl : c = '\n' := by simpa using hnew
      exact (h d List.mem_cons_self).line hc
    rw [dirLines, if_neg (by rw [hclean]; exact Bool.false_ne_true),
      ih fun e he => h e (List.mem_cons_of_mem _ he)]
    rfl

theorem confHeader_lines : confHeader name = ("# Generato da nasd" : Str) ++ '\n' ::
    (entryLine ("friendly_name", sanitize name) ++ '\n' ::
      (entryLine ("db_dir", "/var/cache/minidlna") ++ '\n' ::
        (entryLine ("log_dir", "/var/log") ++ '\n' ::
          (entryLine ("inotify", "yes") ++ ['\n'])))) := by
  have hcomment : ("# Generato da nasd\n" : Str) = "# Generato da nasd" ++ ['\n'] := by decide
  have hname : ("friendly_name=" : Str) = "friendly_name" ++ ['='] := by decide
  have hdb : ("db_dir=/var/cache/minidlna\n" : Str) =
      entryLine ("db_dir", "/var/cache/minidlna") ++ ['\n'] := by decide
  have hlog : ("log_dir=/var/log\n" : Str) = entryLine ("log_dir", "/var/log") ++ ['\n'] := by
    decide
  have hnotify : ("inotify=yes\n" : Str) = entryLine ("inotify", "yes") ++ ['\n'] := by decide
  have hend : ("\n" : Str) = ['\n'] := rfl
  unfold confHeader
  rw [hcomment, hname, hdb, hlog, hnotify, hend]
  simp only [entryLine, List.append_assoc, List.cons_append, List.nil_append]

theorem flatMap_dirLine : dirs.flatMap dirLine =
    (dirs.map fun d => entryLine ("media_dir", encodeDir d)).flatMap (· ++ ['\n']) := by
  rw [List.flatMap_map]
  exact congrArg (dirs.flatMap ·) (funext dirLine_eq)

/-- The file is written line by line. -/
theorem confText_lines (h : ∀ d ∈ dirs, Served d) : confText name dirs =
    .ok ((("# Generato da nasd" : Str) :: (confEntries name dirs).map entryLine).flatMap
      (· ++ ['\n'])) := by
  rw [confText, dirLines_ok h, Except.map, flatMap_dirLine, confHeader_lines]
  simp only [confEntries, List.map_cons, List.map_map, List.flatMap_cons, Function.comp_def,
    List.append_assoc, List.cons_append, List.nil_append]

theorem sanitize_line : '\n' ∉ sanitize name := by
  intro hmem
  simpa using (List.mem_filter.mp hmem).2

/-- The keys of the file. -/
def confKeys : List Str := ["friendly_name", "db_dir", "log_dir", "inotify", "media_dir"]

theorem confKeys_clean : ∀ k ∈ confKeys, '=' ∉ k ∧ '\n' ∉ k := by decide

theorem entryLine_line {e : Str × Str} (hkey : e.1 ∈ confKeys) (hvalue : '\n' ∉ e.2) :
    '\n' ∉ entryLine e := by
  intro hmem
  rcases List.mem_append.mp hmem with hmem | hmem
  · exact (confKeys_clean _ hkey).2 hmem
  · rcases List.mem_cons.mp hmem with hmem | hmem
    · cases hmem
    · exact hvalue hmem

theorem confEntries_clean (h : ∀ d ∈ dirs, Served d) :
    ∀ e ∈ confEntries name dirs, e.1 ∈ confKeys ∧ '\n' ∉ e.2 := by
  intro e he
  simp only [confEntries, List.mem_cons, List.mem_map] at he
  rcases he with rfl | rfl | rfl | rfl | ⟨d, hd, rfl⟩
  · exact ⟨by simp [confKeys], sanitize_line⟩
  · decide
  · decide
  · decide
  · exact ⟨by simp [confKeys], encodeDir_line (h d hd)⟩

theorem cut_entryLine {e : Str × Str} (h : '=' ∉ e.1) : cut '=' (entryLine e) = some e :=
  cut_append h e.2

theorem filterMap_cut {es : List (Str × Str)} (h : ∀ e ∈ es, '=' ∉ e.1) :
    (es.map entryLine).filterMap (cut '=') = es := by
  induction es with
  | nil => rfl
  | cons e es ih =>
    rw [List.map_cons, List.filterMap_cons, cut_entryLine (h e List.mem_cons_self),
      ih fun e' he' => h e' (List.mem_cons_of_mem _ he')]

theorem readLines_confText {text : Str} (h : ∀ d ∈ dirs, Served d)
    (htext : confText name dirs = .ok text) :
    readLines text = ("# Generato da nasd" : Str) :: (confEntries name dirs).map entryLine := by
  have hline : ∀ l ∈ ("# Generato da nasd" : Str) :: (confEntries name dirs).map entryLine,
      '\n' ∉ l := by
    intro l hl
    rcases List.mem_cons.mp hl with rfl | hl
    · decide
    · obtain ⟨e, he, rfl⟩ := List.mem_map.mp hl
      obtain ⟨hkey, hvalue⟩ := confEntries_clean h e he
      exact entryLine_line hkey hvalue
  rw [confText_lines h, Except.ok.injEq] at htext
  rw [← htext, readLines_terminated hline]

theorem entries_confText {text : Str} (h : ∀ d ∈ dirs, Served d)
    (htext : confText name dirs = .ok text) : entries text = confEntries name dirs := by
  have hcomment : cut '=' "# Generato da nasd" = none := by decide
  rw [entries, readLines_confText h htext, List.filterMap_cons, hcomment]
  exact filterMap_cut fun e he => (confKeys_clean _ (confEntries_clean h e he).1).1

/-- The entries of one key among those of another. -/
theorem filter_key {α : Type} (k key : Str) (f : α → Str) (as : List α) :
    (as.map fun a => (k, f a)).filter (fun e => decide (e.1 = key)) =
      if k = key then as.map fun a => (k, f a) else [] := by
  split
  · rename_i hk
    rw [List.filter_eq_self]
    intro e he
    obtain ⟨a, -, rfl⟩ := List.mem_map.mp he
    exact decide_eq_true hk
  · rename_i hk
    rw [List.filter_eq_nil_iff]
    intro e he
    obtain ⟨a, -, rfl⟩ := List.mem_map.mp he
    simpa using hk

theorem filter_key_cons (k key v : Str) (es : List (Str × Str)) :
    ((k, v) :: es).filter (fun e => decide (e.1 = key)) =
      if k = key then (k, v) :: es.filter (fun e => decide (e.1 = key))
      else es.filter (fun e => decide (e.1 = key)) := by
  simp only [List.filter_cons, decide_eq_true_eq]

theorem valuesOf_name {text : Str} (h : ∀ d ∈ dirs, Served d)
    (htext : confText name dirs = .ok text) : valuesOf "friendly_name" text = [sanitize name] := by
  unfold valuesOf
  rw [entries_confText h htext, confEntries, filter_key_cons, if_pos rfl,
    filter_key_cons, if_neg (by decide), filter_key_cons, if_neg (by decide), filter_key_cons,
    if_neg (by decide), filter_key, if_neg (by decide)]
  rfl

theorem valuesOf_dirs {text : Str} (h : ∀ d ∈ dirs, Served d)
    (htext : confText name dirs = .ok text) :
    valuesOf "media_dir" text = dirs.map encodeDir := by
  unfold valuesOf
  rw [entries_confText h htext, confEntries, filter_key_cons, if_neg (by decide),
    filter_key_cons, if_neg (by decide), filter_key_cons, if_neg (by decide), filter_key_cons,
    if_neg (by decide), filter_key, if_pos rfl, List.map_map]
  rfl

theorem Configure_files {h : Host σ} {text : Str} (htext : confText name dirs = .ok text)
    (hwrite : (h.tryWrite O miniDLNAConf text).1 = .ok ()) :
    (Configure O name dirs h).2.files miniDLNAConf = some text := by
  have hfile : (h.tryWrite O miniDLNAConf text).2.files miniDLNAConf = some text := by
    simp only [Host.tryWrite] at hwrite ⊢
    cases hout : (O.write miniDLNAConf text h.env).1 with
    | none => exact Host.writeFile_self miniDLNAConf text h
    | some e => simp [hout] at hwrite
  unfold Configure
  rw [htext]
  dsimp only
  cases hrun : h.tryWrite O miniDLNAConf text with
  | mk r h₁ =>
    rw [hrun] at hwrite hfile
    cases hwrite
    exact hfile

/-- The file that `Configure` writes says the name and the rows of the table, and nothing more. -/
theorem Configure_read_back (O : OS σ) (h : Host σ) (name : Str) {t : MediaDirs}
    (ht : Reachable t) :
    ∃ text, confText name (loadDirs t) = .ok text ∧
      ((h.tryWrite O miniDLNAConf text).1 = .ok () →
        (Configure O name (loadDirs t) h).2.files miniDLNAConf = some text) ∧
      valuesOf "friendly_name" text = [name.filter fun c => c ≠ '\n' && c ≠ '\r'] ∧
      (valuesOf "media_dir" text).map decodeDir = loadDirs t ∧
      (readLines text).length = 5 + t.rows.length := by
  have hserved : ∀ d ∈ loadDirs t, Served d := fun d hd =>
    served_of_reachable ht d (mem_loadDirs.mp hd)
  have htext : confText name (loadDirs t) = .ok ((("# Generato da nasd" : Str) ::
      (confEntries name (loadDirs t)).map entryLine).flatMap (· ++ ['\n'])) :=
    confText_lines hserved
  refine ⟨_, htext, Configure_files htext, valuesOf_name hserved htext, ?_, ?_⟩
  · rw [valuesOf_dirs hserved htext, List.map_map]
    exact (List.map_congr_left fun d hd => decodeDir_encodeDir (hserved d hd)).trans
      (List.map_id _)
  · rw [readLines_confText hserved htext, ← loadDirs_length]
    simp only [confEntries, List.length_cons, List.length_map]
    omega

/-- Three directories, one without a kind, in the order in which they were added. -/
def mixed : MediaDirs :=
  ⟨[⟨"/music", "A"⟩, ⟨"/films", []⟩, ⟨"/a,media_dir=V,/b", "P"⟩], by decide⟩

theorem mixed_reachable : Reachable mixed := by
  have hone : Reachable ⟨[⟨"/music", "A"⟩], List.nodup_singleton _⟩ :=
    .step .empty (rfl : check (.addDir (some ⟨"/music", "A"⟩)) = .ok (.insert ⟨"/music", "A"⟩)) rfl
  have htwo : Reachable ⟨[⟨"/music", "A"⟩, ⟨"/films", []⟩], by decide⟩ :=
    .step hone (rfl : check (.addDir (some ⟨"/films", []⟩)) = .ok (.insert ⟨"/films", []⟩)) rfl
  exact .step htwo (rfl : check (.addDir (some ⟨"/a,media_dir=V,/b", "P"⟩)) =
    .ok (.insert ⟨"/a,media_dir=V,/b", "P"⟩)) rfl

/-- They are read back in the order of their paths. A path may hold what a line of the file holds:
here a comma, an `=` and the letter of a kind. -/
theorem Configure_read_back_mixed :
    Reachable mixed ∧
      ∃ text, confText "N\nAS" (loadDirs mixed) = .ok text ∧
        valuesOf "friendly_name" text = ["NAS"] ∧
        (valuesOf "media_dir" text).map decodeDir =
          [⟨"/a,media_dir=V,/b", "P"⟩, ⟨"/films", []⟩, ⟨"/music", "A"⟩] := by
  have hload : loadDirs mixed =
      [⟨"/a,media_dir=V,/b", "P"⟩, ⟨"/films", []⟩, ⟨"/music", "A"⟩] := by decide
  obtain ⟨text, htext, -, hname, hdirs, -⟩ :=
    Configure_read_back OS.faultless (Host.start () fun _ => none) "N\nAS" mixed_reachable
  exact ⟨mixed_reachable, text, htext, hname, hdirs.trans hload⟩

end Dlna
end Nasd
