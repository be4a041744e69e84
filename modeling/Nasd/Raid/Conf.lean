import Nasd.Lib.Run
import Nasd.Raid.Stop

/-!
# Nasd.Raid.Conf

`mdadm.conf` along a run of `Create`, `Stop` and `WipeDisk` whose commands all succeed. The log of
commands says which arrays were created and stopped; replayed on the initial text (`expected`) it
says what the file should be. The source edits the file by substring, and keeps to that exactly
when every step meets `ConfGuard`.

* `persistArray_conf`, `Stop_confText`, `WipeDisk_confText` — the file after each operation, and
  `persistArray_events`, `stop_events` what the log says of it.
* `exec_expected_iff` — one operation keeps the file as expected iff it meets its guard.
-/

namespace Nasd
namespace Raid

open Text Go Sys Machine

variable {σ : Type}

/-- A system on which every command succeeds, and on which the scan of an array reports one line,
`ARRAY` and the device, with or without a UUID. -/
structure Tools (σ : Type) where
  runner : Runner σ
  succeeds : ∀ c s, (runner c s).1.err = none
  scan_device : ∀ md s, ValidMDDevice md = true →
    ∃ rest, Fields (runner (mdadmScan md) s).1.stdout = ("ARRAY" : Str) :: md :: rest
  scan_line : ∀ md s, ValidMDDevice md = true →
    '\n' ∉ TrimSpace (runner (mdadmScan md) s).1.stdout

inductive Op where
  | create (md level : Str) (devices : List Str)
  | stop (md : Str)
  | wipe (d : Str)

def exec (T : Tools σ) (h : Host σ) : Op → Host σ
  | .create md level devices => (Create T.runner md level devices h).2
  | .stop md => (Stop T.runner md h).2
  | .wipe d => (WipeDisk T.runner d h).2

/-! ## The expected text -/

def Terminated (t : Str) : Prop := t = [] ∨ t.getLast? = some '\n'

instance (t : Str) : Decidable (Terminated t) := inferInstanceAs (Decidable (_ ∨ _))

def terminate (t : Str) : Str := if Terminated t then t else t ++ ['\n']

/-- A line of its own at the end of the text, unless the text has that line. -/
def addLine (line t : Str) : Str :=
  if line ∈ lines t then t else terminate t ++ line ++ ['\n']

def replay (t : Str) : ArrayEvent → Str
  | .stopped md => keepLines (fun l => !lineOf md l) t
  | .scanned line => addLine line t

def confText (h : Host σ) : Str := (h.files mdadmConf).getD []

/-- The text that the arrays created and stopped so far make of the initial one. -/
def expected (t : Str) (h : Host σ) : Str := (arrayEvents h.log).foldl replay t

def ConfAsExpected (t : Str) (h : Host σ) : Prop := confText h = expected t h

instance (t : Str) (h : Host σ) : Decidable (ConfAsExpected t h) :=
  inferInstanceAs (Decidable (_ = _))

theorem foldl_replay_stopped (mds : List Str) : ∀ t : Str,
    (mds.map ArrayEvent.stopped).foldl replay t = without lineOf mds t := by
  induction mds with
  | nil => intro t; simp
  | cons md mds ih =>
    intro t
    rw [List.map_cons, List.foldl_cons, ih, without_cons (fun _ => lineOf_nil)]
    rfl

/-! ## Create -/

/-- The arguments that `Create` accepts. -/
def Accepts (md level : Str) (devices : List Str) : Prop :=
  ValidMDDevice md = true ∧ (∃ n, validLevels level = some n ∧ n ≤ devices.length) ∧
    ∀ d ∈ devices, ValidDevice d = true

/-- The host when `Create` comes to `mdadm.conf`. -/
def created (T : Tools σ) (md level : Str) (devices : List Str) (h : Host σ) : Host σ :=
  ((h.run T.runner (mdadmCreate md level devices)).2.run T.runner (wipefs md)).2

theorem Create_accepted (T : Tools σ) {md level : Str} {devices : List Str} {h : Host σ}
    (ha : Accepts md level devices) : (Create T.runner md level devices h).2 =
      persistArray T.runner md (created T md level devices h) := by
  obtain ⟨hv, ⟨n, hn, hle⟩, hd⟩ := ha
  have hfind : devices.find? (fun d => !ValidDevice d) = none := by
    rw [List.find?_eq_none]
    intro d hmem
    simp [hd d hmem]
  have hrun : (h.run T.runner (mdadmCreate md level devices)).1.err = none := T.succeeds ..
  simp only [Create, hv, Bool.not_true, Bool.false_eq_true, if_false, hn, Nat.not_lt.mpr hle, hfind,
    hrun]
  rfl

theorem Create_refused (R : Runner σ) {md level : Str} {devices : List Str} {h : Host σ}
    (ha : ¬ Accepts md level devices) : (Create R md level devices h).2 = h := by
  unfold Create
  split
  · rfl
  · rename_i hv
    split
    · rfl
    · rename_i n hn
      split
      · rfl
      · rename_i hle
        split
        · rfl
        · rename_i hfind
          refine absurd ⟨by simpa using hv, ⟨n, hn, by omega⟩, ?_⟩ ha
          intro d hd
          simpa using List.find?_eq_none.mp hfind d hd

/-- The line the scan of the array reports. -/
def scanLine (T : Tools σ) (md : Str) (h : Host σ) : Str :=
  TrimSpace (T.runner (mdadmScan md) h.env).1.stdout

theorem persistArray_eq (T : Tools σ) {md : Str} (hv : ValidMDDevice md = true) (h : Host σ) :
    persistArray T.runner md h =
      if Contains (confText h) (dedupKey md (scanLine T md h)) then (h.run T.runner (mdadmScan md)).2
      else ((((h.run T.runner (mdadmScan md)).2.writeFile mdadmConf
        (confText h ++ scanLine T md h ++ "\n")).run T.runner updateInitramfs).2) := by
  have hrun : (h.run T.runner (mdadmScan md)).1.err = none := T.succeeds ..
  have hline : TrimSpace (h.run T.runner (mdadmScan md)).1.stdout = scanLine T md h := rfl
  have harray : HasPrefix (scanLine T md h) "ARRAY" = true := by
    obtain ⟨rest, hrest⟩ := T.scan_device md h.env hv
    exact HasPrefix_iff.mpr (words_head_trim hrest)
  simp only [persistArray, hrun, hline, harray, Bool.not_true, Bool.false_eq_true, if_false]
  rfl

theorem persistArray_events (T : Tools σ) {md : Str} (hv : ValidMDDevice md = true) (h : Host σ) :
    arrayEvents (persistArray T.runner md h).log =
      arrayEvents h.log ++ [.scanned (scanLine T md h)] := by
  have hline : TrimSpace (h.run T.runner (mdadmScan md)).1.stdout = scanLine T md h := rfl
  rw [persistArray_eq T hv]
  split <;> simp [hline]

theorem persistArray_conf (T : Tools σ) {md : Str} (hv : ValidMDDevice md = true) (h : Host σ) :
    confText (persistArray T.runner md h) =
      if Contains (confText h) (dedupKey md (scanLine T md h)) then confText h
      else confText h ++ scanLine T md h ++ "\n" := by
  rw [persistArray_eq T hv]
  split
  · rfl
  · simp [confText]

/-- The deduplication key is a token of the line. -/
theorem dedupKey_isInfix {md line : Str} (hmd : md ∈ Fields line) : dedupKey md line <:+: line := by
  unfold dedupKey
  cases hfind : (Fields line).find? fun tok => HasPrefix tok "UUID=" with
  | none => exact (mem_words hmd).2.2
  | some tok => exact (mem_words (List.mem_of_find?_eq_some hfind)).2.2

theorem mem_Fields_scanLine (T : Tools σ) {md : Str} (hv : ValidMDDevice md = true) (h : Host σ) :
    md ∈ Fields (scanLine T md h) := by
  obtain ⟨rest, hrest⟩ := T.scan_device md h.env hv
  have hwords : Fields (scanLine T md h) = _ := (words_trim (fun _ h => h) _).trans hrest
  rw [hwords]
  simp

theorem append_eq_addLine_iff {line t : Str} (hnew : line ∉ lines t) :
    t ++ line ++ ['\n'] = addLine line t ↔ Terminated t := by
  rw [addLine, if_neg hnew, List.append_left_inj, List.append_left_inj, terminate]
  split
  · rename_i ht; simp [ht]
  · rename_i ht; simp [ht]

theorem ne_addLine {line t : Str} (hnew : line ∉ lines t) : t ≠ addLine line t := by
  intro heq
  have hlen := congrArg List.length heq
  rw [addLine, if_neg hnew, List.length_append, List.length_append, terminate] at hlen
  split at hlen
  · simp only [List.length_cons, List.length_nil] at hlen; omega
  · simp only [List.length_append, List.length_cons, List.length_nil] at hlen; omega

/-! ## Stop and WipeDisk -/

theorem clearMembers_events (R : Runner σ) (ds : List Str) :
    ∀ h : Host σ, arrayEvents (clearMembers R ds h).log = arrayEvents h.log := by
  induction ds with
  | nil => intro h; rfl
  | cons d ds ih => intro h; simp [clearMembers, ih]

theorem prepareStop_events (R : Runner σ) (md : Str) (h : Host σ) :
    arrayEvents (prepareStop R md h).2.log = arrayEvents h.log := by
  simp only [prepareStop, mdadmConfRemove_log, arrayMembers_snd, findMountPoint_snd]
  split <;> simp

theorem Stop_events (T : Tools σ) {md : Str} (hv : ValidMDDevice md = true) (h : Host σ) :
    arrayEvents (Stop T.runner md h).2.log = arrayEvents h.log ++ [.stopped md] := by
  have hrun : ((prepareStop T.runner md h).2.run T.runner (mdadmStop md)).1.err = none :=
    T.succeeds ..
  simp only [Stop, hv, Bool.not_true, Bool.false_eq_true, if_false, hrun]
  simp [clearMembers_events, prepareStop_events]

/-- The arrays that an operation stops. -/
def stopsOf (T : Tools σ) (h : Host σ) : Op → List Str
  | .create .. => []
  | .stop md => if ValidMDDevice md then [md] else []
  | .wipe d => wiped T.runner d h

theorem confText_map (h h' : Host σ) {f : Str → Str} (hf : f [] = [])
    (hmap : h'.files mdadmConf = (h.files mdadmConf).map f) : confText h' = f (confText h) := by
  rw [confText, confText, hmap]
  cases h.files mdadmConf with
  | none => exact hf.symm
  | some t => rfl

theorem Stop_confText (T : Tools σ) (md : Str) (h : Host σ) :
    confText (exec T h (.stop md)) = without namesArray (stopsOf T h (.stop md)) (confText h) := by
  cases hv : ValidMDDevice md with
  | false => simp [exec, stopsOf, hv, Stop_invalid hv]
  | true =>
    simp only [stopsOf, hv, if_true]
    refine confText_map _ _ (keepLines_nil _) ?_
    rw [without_singleton]
    exact Stop_conf hv

theorem WipeDisk_confText (T : Tools σ) (d : Str) (h : Host σ) :
    confText (exec T h (.wipe d)) = without namesArray (stopsOf T h (.wipe d)) (confText h) :=
  confText_map _ _ (keepLines_nil _) (WipeDisk_conf d)

/-- Filtering by name and filtering by device leave the same file exactly when every line that
contains a name belongs to one of the arrays. -/
theorem without_namesArray_eq_iff {mds : List Str} {t : Str} :
    without namesArray mds t = without lineOf mds t ↔
      ∀ l ∈ lines t, ∀ md ∈ mds, namesArray md l = true → ∃ md' ∈ mds, lineOf md' l = true := by
  rw [without, without, keepLines_inj (by simp) (by simp)]
  refine forall₂_congr fun l _ => ?_
  constructor
  · intro heq md hmd hnames
    have hany : mds.any (namesArray · l) = true := List.any_eq_true.mpr ⟨md, hmd, hnames⟩
    rw [Bool.not_inj heq] at hany
    exact List.any_eq_true.mp hany
  · intro hall
    congr 1
    rw [Bool.eq_iff_iff, List.any_eq_true, List.any_eq_true]
    constructor
    · rintro ⟨md, hmd, hnames⟩; exact hall md hmd hnames
    · rintro ⟨md, hmd, hline⟩; exact ⟨md, hmd, namesArray_of_lineOf hline⟩

/-! ## Runs -/

/-- What keeps an operation to its own lines. A new line is already there whole, or else its key
occurs nowhere and the file is terminated; a line that contains the name of a stopped array
belongs to one of the arrays stopped. -/
def ConfGuard (T : Tools σ) (h : Host σ) : Op → Prop
  | .create md level devices =>
    Accepts md level devices →
      scanLine T md (created T md level devices h) ∈ lines (confText h) ∨
      (Terminated (confText h) ∧ Contains (confText h)
        (dedupKey md (scanLine T md (created T md level devices h))) = false)
  | op => ∀ l ∈ lines (confText h), ∀ md ∈ stopsOf T h op, namesArray md l = true →
      ∃ md' ∈ stopsOf T h op, lineOf md' l = true

theorem stop_events (T : Tools σ) (md : Str) (h : Host σ) : arrayEvents (exec T h (.stop md)).log =
    arrayEvents h.log ++ (stopsOf T h (.stop md)).map .stopped := by
  cases hv : ValidMDDevice md with
  | false => simp [exec, stopsOf, hv, Stop_invalid hv]
  | true =>
    simp only [stopsOf, hv, if_true, List.map_cons, List.map_nil]
    exact Stop_events T hv h

theorem create_refused_conf {T : Tools σ} {t md level : Str} {devices : List Str} {h : Host σ}
    (hexp : ConfAsExpected t h) (ha : ¬ Accepts md level devices) :
    ConfAsExpected t (exec T h (.create md level devices)) := by
  rw [exec, Create_refused _ ha]
  exact hexp

theorem create_expected_iff {T : Tools σ} {t md level : Str} {devices : List Str} {h : Host σ}
    (hexp : ConfAsExpected t h) : ConfAsExpected t (exec T h (.create md level devices)) ↔
      ConfGuard T h (.create md level devices) := by
  by_cases ha : Accepts md level devices
  · have hv := ha.1
    have hconf : confText (created T md level devices h) = confText h := rfl
    have hlog : arrayEvents (created T md level devices h).log = arrayEvents h.log := by
      simp [created]
    have hkey := dedupKey_isInfix (mem_Fields_scanLine T hv (created T md level devices h))
    simp only [ConfGuard, ha, true_imp_iff]
    rw [ConfAsExpected, expected, exec, Create_accepted T ha, persistArray_conf T hv,
      persistArray_events T hv, hlog, hconf, List.foldl_append]
    rw [show (arrayEvents h.log).foldl replay t = confText h from hexp.symm]
    simp only [List.foldl_cons, List.foldl_nil, replay]
    generalize scanLine T md (created T md level devices h) = line at hkey ⊢
    by_cases hnew : line ∈ lines (confText h)
    · have hcontains : Contains (confText h) (dedupKey md line) = true :=
        Contains_iff.mpr (hkey.trans (isInfix_of_mem_lines hnew))
      simp [hnew, hcontains, addLine]
    · cases hcontains : Contains (confText h) (dedupKey md line) with
      | true => simp [hnew, ne_addLine hnew]
      | false =>
        have hiff := append_eq_addLine_iff hnew
        simpa [hnew] using hiff
  · have hkeep := create_refused_conf (T := T) hexp ha
    simp [ConfGuard, ha, hkeep]

theorem stops_expected_iff {T : Tools σ} {t : Str} {h : Host σ} {op : Op}
    (hexp : ConfAsExpected t h)
    (hconf : confText (exec T h op) = without namesArray (stopsOf T h op) (confText h))
    (hevents : arrayEvents (exec T h op).log =
      arrayEvents h.log ++ (stopsOf T h op).map .stopped) :
    ConfAsExpected t (exec T h op) ↔
      ∀ l ∈ lines (confText h), ∀ md ∈ stopsOf T h op, namesArray md l = true →
        ∃ md' ∈ stopsOf T h op, lineOf md' l = true := by
  rw [ConfAsExpected, expected, hconf, hevents, List.foldl_append, foldl_replay_stopped]
  rw [show (arrayEvents h.log).foldl replay t = confText h from hexp.symm]
  exact without_namesArray_eq_iff

theorem exec_expected_iff {T : Tools σ} {t : Str} {h : Host σ} (hexp : ConfAsExpected t h)
    (op : Op) : ConfAsExpected t (exec T h op) ↔ ConfGuard T h op := by
  cases op with
  | create md level devices => exact create_expected_iff hexp
  | stop md => exact stops_expected_iff hexp (Stop_confText T md h) (stop_events T md h)
  | wipe d => exact stops_expected_iff hexp (WipeDisk_confText T d h) (WipeDisk_events d)

/-- Along every run, `mdadm.conf` is the initial text with a whole line for every array created
and without the lines of those stopped, exactly when every operation meets its guard. -/
theorem conf_always_as_expected_iff (T : Tools σ) (env : σ) (files : Str → Option Str)
    (ops : List Op) :
    Always (exec T) (ConfAsExpected (confText (Host.start env files))) (Host.start env files) ops ↔
      Guarded (exec T) (ConfGuard T) (Host.start env files) ops := by
  refine always_iff_guarded (I := ConfAsExpected _) ?_ (fun _ hexp => hexp) ?_ rfl
  · intro h op hexp hguard
    exact (exec_expected_iff hexp op).mpr hguard
  · intro h op hexp hnext
    exact (exec_expected_iff hexp op).mp hnext

theorem mem_addLine {line t : Str} (hline : '\n' ∉ line) : line ∈ lines (addLine line t) := by
  by_cases hmem : line ∈ lines t
  · rw [addLine, if_pos hmem]; exact hmem
  · rw [addLine, if_neg hmem, lines_append_newline]
    refine List.mem_append_left _ ?_
    have hlast : terminate t = [] ∨ ∃ u, terminate t = u ++ ['\n'] := by
      unfold terminate
      split
      · rename_i hterm
        rcases hterm with hnil | hlast
        · exact .inl hnil
        · exact .inr ⟨t.dropLast, (List.dropLast_append_getLast? _ hlast).symm⟩
      · exact .inr ⟨t, rfl⟩
    rcases hlast with hnil | ⟨u, hu⟩
    · rw [hnil, List.nil_append, lines_of_not_mem hline]; simp
    · rw [hu, List.append_assoc, List.singleton_append, lines_append_newline,
        lines_of_not_mem hline]
      simp

/-- A creation that meets its guard leaves the array's line whole in the file. -/
theorem create_adds_line {T : Tools σ} {t md level : Str} {devices : List Str} {h : Host σ}
    (hexp : ConfAsExpected t h) (ha : Accepts md level devices)
    (hguard : ConfGuard T h (.create md level devices)) :
    scanLine T md (created T md level devices h) ∈
      lines (confText (exec T h (.create md level devices))) := by
  have hnext : ConfAsExpected t (exec T h (.create md level devices)) :=
    (create_expected_iff hexp).mpr hguard
  rw [hnext, expected, exec, Create_accepted T ha, persistArray_events T ha.1, List.foldl_append]
  exact mem_addLine (T.scan_line md _ ha.1)

/-! ## Two arrays -/

theorem ValidMDDevice_clean {md : Str} (hv : ValidMDDevice md = true) :
    md ≠ [] ∧ ∀ c ∈ md, isSpace c = false := by
  simp only [ValidMDDevice, Bool.and_eq_true, List.all_eq_true, HasPrefix_iff] at hv
  obtain ⟨⟨⟨rest, rfl⟩, -⟩, hdigits⟩ := hv
  have hhead : ∀ c ∈ ("/dev/md" : Str), (!isSpace c) = true := List.all_eq_true.mp rfl
  refine ⟨by simp, ?_⟩
  intro c hc
  rcases List.mem_append.mp hc with hc | hc
  · simpa using hhead c hc
  · exact isSpace_of_isDigit (hdigits c hc)

/-- What the scan prints for an array without a UUID. -/
def plainLine (md : Str) : Str := "ARRAY " ++ md ++ "\n"

theorem Fields_plainLine {md : Str} (hv : ValidMDDevice md = true) :
    Fields (plainLine md) = [("ARRAY" : Str), md] := by
  obtain ⟨hne, hclean⟩ := ValidMDDevice_clean hv
  have hblank : Fields (plainLine md) = words isSpace "ARRAY" ++ words isSpace (md ++ "\n") :=
    words_append_sep (c := ' ') rfl "ARRAY" (md ++ "\n")
  have hend : words isSpace (md ++ "\n") = words isSpace md ++ words isSpace [] :=
    words_append_sep (c := '\n') rfl md []
  rw [hblank, hend, words_of_clean hne hclean]
  rfl

theorem newline_not_mem_plainLine {md : Str} (hv : ValidMDDevice md = true) :
    '\n' ∉ TrimSpace (plainLine md) := by
  obtain ⟨-, hclean⟩ := ValidMDDevice_clean hv
  have htrim : TrimSpace (plainLine md) = ("ARRAY " ++ md : Str).rdropWhile isSpace :=
    List.rdropWhile_concat_pos (p := isSpace) ("ARRAY " ++ md) '\n' rfl
  rw [htrim]
  intro hmem
  rcases List.mem_append.mp ((List.rdropWhile_prefix _ _).subset hmem) with hmem | hmem
  · revert hmem; decide
  · exact absurd (hclean _ hmem) (by decide)

/-- Commands that succeed, with scans that report no UUID. -/
def plainRunner : Runner Unit := fun c s =>
  (⟨match c.args with
    | [_, _, md] => if c = mdadmScan md then plainLine md else []
    | _ => [], [], none⟩, s)

theorem plainRunner_scan (md : Str) (s : Unit) :
    (plainRunner (mdadmScan md) s).1.stdout = plainLine md := by
  simp [plainRunner, mdadmScan]

def plainTools : Tools Unit where
  runner := plainRunner
  succeeds _ _ := rfl
  scan_device md s hv := ⟨[], by rw [plainRunner_scan, Fields_plainLine hv]⟩
  scan_line md s hv := by
    rw [plainRunner_scan]
    exact newline_not_mem_plainLine hv

def twoArrays : Str → Option Str := Function.update (fun _ => none) mdadmConf
  (some "ARRAY /dev/md1 UUID=a\nARRAY /dev/md10 UUID=b\n")

/-- Stopping `md1` removes the line of `md10` as well. -/
theorem stop_drops_other_line :
    ¬ Always (exec plainTools) (ConfAsExpected (confText (Host.start () twoArrays)))
      (Host.start () twoArrays) [.stop "/dev/md1"] := by
  have hlost : ¬ ConfAsExpected (confText (Host.start () twoArrays))
      (exec plainTools (Host.start () twoArrays) (.stop "/dev/md1")) := by
    decide
  rintro ⟨-, hnext⟩
  exact hlost hnext

end Raid
end Nasd
