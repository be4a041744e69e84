import Nasd.Shares.Exports

/-!
# Nasd.Shares.Preview

The `/etc/exports` preview of `NFSRulesEditor` against the line that `ApplyNFS` writes once the
form has gone through `mapNFSToAPI` and the table, both read as `exports(5)` says: which directory,
which clients, which options.

* `applied_of_accepts`, `previewed_eq` — what the two say, rule by rule.
* `preview_matches_iff`                — when they say the same.
-/

namespace Nasd
namespace Shares

open Text Go Json

variable {U : PrintTable} {id : Int} {form : NFSForm} {r : RuleForm}

/-- The share of an NFS form, as it is read back from its row. -/
def storedNFS (id : Int) (form : NFSForm) : Share := (Row.ofShare id (mapNFSToAPI form)).share

/-- What the preview says. -/
def previewed (form : NFSForm) : List (List UInt8 × Str × Effective) :=
  (lines form.preview).flatMap readLine

/-- What the line of `/etc/exports` says; a share that `ApplyNFS` refuses has none. -/
def applied (U : PrintTable) (id : Int) (form : NFSForm) : List (List UInt8 × Str × Effective) :=
  match exportLine U (storedNFS id form) with
  | .ok line => readLine line
  | .error _ => []

/-! ## Rule by rule -/

def RuleForm.core (r : RuleForm) : Str := TrimSpace r.client.text

def RuleForm.EndsBlank (r : RuleForm) : Prop := ∀ c, r.client.text.getLast? = some c → isBlank c = true

instance (r : RuleForm) : Decidable r.EndsBlank :=
  match h : r.client.text.getLast? with
  | none => isTrue (by intro c hc; rw [h] at hc; cases hc)
  | some d =>
    if hd : isBlank d = true then
      isTrue (by intro c hc; rw [h] at hc; rw [← Option.some.inj hc]; exact hd)
    else isFalse fun hall => hd (hall d h)

def RuleForm.appliedAs (r : RuleForm) : Str × Effective := (orStar r.core, r.effective)

/-- A client with a blank after it is shown apart from its options. -/
def RuleForm.shownAs (r : RuleForm) : List (Str × Effective) :=
  if r.client.text = [] then []
  else if r.core = [] then [("*", r.shown)]
  else if r.EndsBlank then [(r.core, defaultOpts.effective), ("*", r.shown)]
  else [(r.core, r.shown)]

/-- A client with a blank after it. -/
def RuleForm.Split (r : RuleForm) : Prop := r.core ≠ [] ∧ r.EndsBlank

/-- By its fields the rule gives the client these options. -/
def RuleForm.Gives (r : RuleForm) (client : Str) (o : Effective) : Prop :=
  orStar r.core = client ∧ r.effective = o

/-- It seems to, too, by the text of its client: one with a blank after it seems to be given the
default options, and everyone else those of the rule. -/
def RuleForm.Seems (r : RuleForm) (client : Str) (o : Effective) : Prop :=
  r.client.text ≠ [] ∧
    (¬ r.Split ∧ r.Gives client o ∨
      r.Split ∧ (client = r.core ∧ o = defaultOpts.effective ∨ client = "*" ∧ o = r.effective))

/-- No word of the form begins a comment, or default options for what follows on the line. -/
structure NoMarks (form : NFSForm) : Prop where
  path : ∀ w ∈ words isBlank form.path.text, Unmarked w
  shown : ∀ r ∈ form.rules, ∀ w ∈ words isBlank r.client.text, Unmarked w
  applied : ∀ r ∈ form.rules, Unmarked r.core

/-- `copied`: the preview shows the path without quotes, as it is. `some`, `accepted`: there is a
rule, and `ApplyNFS` takes every client. `unmarked`: none begins with `#` or `-`. `subtree`: no rule
asks for the subtree check. `aligned`: clients have blanks at their ends, but no other white space.
`empty`: what a rule without a client gives, another one seems to give. `split`: of a client with a
blank after it, what the rule seems to give is given, and what it gives, a rule seems to give. -/
structure Agrees (U : PrintTable) (form : NFSForm) : Prop where
  copied : ∀ c ∈ form.path.text, Copies U c
  some : form.rules ≠ []
  accepted : ∀ r ∈ form.rules, Accepts r.core
  unmarked : ∀ r ∈ form.rules, Unmarked r.core
  subtree : ∀ r ∈ form.rules, r.adv.noSubtreeCheck = true
  aligned : ∀ r ∈ form.rules, trim isBlank r.client.text = r.core
  empty : ∀ r ∈ form.rules, r.client.text = [] → ∃ s ∈ form.rules, s.Seems "*" r.effective
  split : ∀ r ∈ form.rules, r.Split →
    (∃ s ∈ form.rules, s.Gives r.core defaultOpts.effective) ∧
    (∃ s ∈ form.rules, s.Gives "*" r.effective) ∧
    (∃ s ∈ form.rules, s.Seems r.core r.effective)

/-! ## The line -/

theorem clients_storedNFS (id : Int) {form : NFSForm} (h : form.rules ≠ []) :
    (storedNFS id form).clients =
      form.rules.map fun r => (orStar r.core, Join (nfsRuleOptList r.rule) ",") := by
  have hconfig : (storedNFS id form).parseConfig.rules = form.rules.map RuleForm.rule := by
    have hparse : (storedNFS id form).parseConfig = (mapNFSToAPI form).parseConfig := rfl
    rw [hparse, parseConfig_nfs]
  rw [Share.clients, hconfig, if_pos (by simpa using h), List.map_map]
  rfl

theorem exportLine_storedNFS (U : PrintTable) (id : Int) {form : NFSForm}
    (hpath : ContainsAny form.path.text "\n\"" = false) :
    exportLine U (storedNFS id form) =
      match exportEach U (storedNFS id form).clients with
      | .error e => .error e
      | .ok clients => .ok (Quote U form.path.text ++ clients) := by
  have hok : ¬ ContainsAny (storedNFS id form).path "\n\"" = true := by
    have hsame : (storedNFS id form).path = form.path.text := rfl
    rw [hsame, hpath]
    exact Bool.false_ne_true
  unfold exportLine
  exact if_neg hok

theorem accepts_star : Accepts (orStar []) := by
  unfold Accepts
  decide

theorem accepts_orStar {c : Str} : Accepts (orStar c) ↔ Accepts c := by
  cases c with
  | nil => exact ⟨fun _ _ _ => List.not_mem_nil, fun _ => accepts_star⟩
  | cons d c => rfl

theorem unmarked_orStar {c : Str} (h : Unmarked c) : Unmarked (orStar c) := by
  cases c with
  | nil => exact ⟨by decide, by decide⟩
  | cons d c => exact h

theorem orStar_orStar (c : Str) : orStar (orStar c) = orStar c := by
  cases c <;> rfl

theorem quote_not_mem {path : Str} (hpath : ContainsAny path "\n\"" = false) : '"' ∉ path := by
  intro hmem
  have hnone := List.any_eq_false.mp hpath _ hmem
  exact hnone (List.contains_iff_mem.mpr (by decide))

theorem applied_of_clients (U : PrintTable) {id : Int} {form : NFSForm}
    (hpath : ContainsAny form.path.text "\n\"" = false) {cs : List (Str × List Str)}
    (hcs : (storedNFS id form).clients = cs.map fun p => (p.1, Join p.2 ","))
    (haccepts : ∀ p ∈ cs, Accepts p.1) (hmarks : ∀ p ∈ cs, Unmarked p.1)
    (hwords : ∀ p ∈ cs, AreWords p.2) :
    applied U id form = cs.map fun p =>
      (unescape (quoted U form.path.text), orStar p.1, readOptions (Join p.2 ",")) := by
  rw [applied, exportLine_storedNFS U id hpath, hcs, exportEach_words U haccepts]
  exact readLine_clients U (quote_not_mem hpath) haccepts hmarks hwords

theorem applied_of_accepts (U : PrintTable) (id : Int) {form : NFSForm}
    (hpath : ContainsAny form.path.text "\n\"" = false) (hsome : form.rules ≠ [])
    (haccepts : ∀ r ∈ form.rules, Accepts r.core) (hmarks : ∀ r ∈ form.rules, Unmarked r.core) :
    applied U id form =
      (form.rules.map RuleForm.appliedAs).map (unescape (quoted U form.path.text), ·) := by
  have hclients : (storedNFS id form).clients =
      (form.rules.map fun r => (orStar r.core, nfsRuleOptList r.rule)).map
        fun p => (p.1, Join p.2 ",") := by
    rw [clients_storedNFS id hsome, List.map_map]
    rfl
  rw [applied_of_clients U hpath hclients, List.map_map, List.map_map]
  · refine List.map_congr_left fun r _ => ?_
    have hopts : readOptions (Join (nfsRuleOptList r.rule) ",") = r.effective := read_nfsRuleOpts r
    simp only [Function.comp_apply, orStar_orStar, hopts, RuleForm.appliedAs]
  · intro p hp
    obtain ⟨r, hr, rfl⟩ := List.mem_map.mp hp
    exact accepts_orStar.mpr (haccepts r hr)
  · intro p hp
    obtain ⟨r, hr, rfl⟩ := List.mem_map.mp hp
    exact unmarked_orStar (hmarks r hr)
  · intro p hp
    obtain ⟨r, -, rfl⟩ := List.mem_map.mp hp
    exact areWords_nfsRuleOptList _

theorem applied_of_refused (U : PrintTable) (id : Int) {form : NFSForm}
    (hpath : ContainsAny form.path.text "\n\"" = false) {r : RuleForm} (hr : r ∈ form.rules)
    (hbad : ¬ Accepts r.core) : applied U id form = [] := by
  have hrefused : ∃ p ∈ (storedNFS id form).clients, ¬ Accepts p.1 := by
    rw [clients_storedNFS id (List.ne_nil_of_mem hr)]
    exact ⟨_, List.mem_map.mpr ⟨r, hr, rfl⟩, fun h => hbad (accepts_orStar.mp h)⟩
  obtain ⟨e, he⟩ := exportEach_refused U hrefused
  rw [applied, exportLine_storedNFS U id hpath, he]

/-- Without rules the whole world gets the share. -/
theorem applied_of_no_rules (U : PrintTable) (id : Int) {form : NFSForm}
    (hpath : ContainsAny form.path.text "\n\"" = false) (hnone : form.rules = []) :
    applied U id form ≠ [] := by
  have hconfig : (storedNFS id form).parseConfig.rules = [] := by
    have hparse : (storedNFS id form).parseConfig = (mapNFSToAPI form).parseConfig := rfl
    rw [hparse, parseConfig_nfs, hnone]
    rfl
  have hhosts : (storedNFS id form).allowedIPs = [] := by
    have hlist : (storedNFS id form).allowedIPs =
        splitCSV (joinCSV ((form.rules.map (·.client.text)).filter (· ≠ []))) := rfl
    rw [hlist, hnone]
    rfl
  obtain ⟨access, haccess, hclients⟩ : ∃ access : Str, (∀ c ∈ access, isOptionChar c = true) ∧
      (storedNFS id form).clients = [(("*" : Str), [access, "sync", "no_subtree_check"])].map
        fun p : Str × List Str => (p.1, Join p.2 ",") := by
    rw [Share.clients, hconfig, if_neg (by simp), hhosts]
    cases (storedNFS id form).readOnly with
    | true => exact ⟨"ro", ofChars rfl, rfl⟩
    | false => exact ⟨"rw", ofChars rfl, rfl⟩
  rw [applied_of_clients U hpath hclients]
  · simp
  · intro p hp
    rw [List.mem_singleton.mp hp]
    exact accepts_star
  · intro p hp
    rw [List.mem_singleton.mp hp]
    exact unmarked_orStar (c := []) ⟨by simp, by simp⟩
  · intro p hp
    rw [List.mem_singleton.mp hp]
    refine .cons haccess (.cons (ofChars rfl) (.cons (ofChars rfl) ?_))
    intro w hw
    cases hw

/-! ## The preview -/

def previewEntries (r : RuleForm) : List (Str × Effective) :=
  if r.client.text = [] then []
  else (words isBlank (r.client.text ++ ('(' :: Join (previewOpts r) "," ++ [')']))).map readClient

/-- With a blank in the path, what comes after it is shown among the clients. -/
def shownEntries (path : Str) (r : RuleForm) : List (Str × Effective) :=
  if r.client.text = [] then []
  else (words isBlank (afterBare path)).map readClient ++ previewEntries r

theorem previewEntries_shown {path : Str} {e : Str × Effective} (h : e ∈ previewEntries r) :
    e ∈ shownEntries path r := by
  have hne : r.client.text ≠ [] := by
    intro hnil
    rw [previewEntries, if_pos hnil] at h
    cases h
  rw [shownEntries, if_neg hne]
  exact List.mem_append_right _ h

theorem previewLine_oneLine (form : NFSForm) (r : RuleForm) :
    '\n' ∉ previewLine form.path.text r := by
  have hopts : '\n' ∉ Join (previewOpts r) "," := not_mem_join (areWords_previewOpts r) rfl (by decide)
  have hpath : '\n' ∉ shownPath form.path.text := by
    unfold shownPath
    split
    · decide
    · exact form.path.oneLine
  unfold previewLine
  split
  · exact List.not_mem_nil
  · simp only [List.append_assoc, List.cons_append, List.mem_append, List.mem_cons, hopts, hpath,
      r.client.oneLine, List.not_mem_nil, or_false, false_or]
    decide

theorem shownOpts_clean (r : RuleForm) :
    ∀ c ∈ '(' :: Join (previewOpts r) "," ++ [')'], isBlank c = false := by
  have hopts : ∀ {c : Char}, isBlank c = true → c ∉ Join (previewOpts r) "," := by
    intro c hc
    simp only [isBlank, Bool.or_eq_true, decide_eq_true_eq] at hc
    rcases hc with rfl | rfl
    · exact not_mem_join (areWords_previewOpts r) rfl (by decide)
    · exact not_mem_join (areWords_previewOpts r) rfl (by decide)
  intro c hc
  rcases List.mem_append.mp hc with hc | hc
  · rcases List.mem_cons.mp hc with rfl | hc
    · rfl
    · by_contra hblank
      exact hopts (by simpa using hblank) hc
  · rw [List.mem_singleton.mp hc]
    rfl

theorem last_of_not_endsBlank (hend : ¬ r.EndsBlank) :
    ∃ c, r.client.text.getLast? = some c ∧ isBlank c = false := by
  rw [RuleForm.EndsBlank, not_forall] at hend
  obtain ⟨c, hc⟩ := hend
  rw [Classical.not_imp] at hc
  exact ⟨c, hc.1, by simpa using hc.2⟩

theorem unmarked_shown (hr : ∀ w ∈ words isBlank r.client.text, Unmarked w) :
    ∀ w ∈ words isBlank (r.client.text ++ ('(' :: Join (previewOpts r) "," ++ [')'])),
      Unmarked w := by
  have hopts : Unmarked ('(' :: Join (previewOpts r) "," ++ [')']) := ⟨by simp, by simp⟩
  intro w hw
  by_cases hend : r.EndsBlank
  · rw [words_append_clean hend (by simp) (shownOpts_clean r)] at hw
    rcases List.mem_append.mp hw with hw | hw
    · exact hr w hw
    · rw [List.mem_singleton.mp hw]
      exact hopts
  · obtain ⟨c, hc, hblank⟩ := last_of_not_endsBlank hend
    obtain ⟨ws, v, hwords, hglued, -⟩ := words_append_glue hc hblank (shownOpts_clean r)
    rw [hwords] at hr
    rw [hglued] at hw
    rcases List.mem_append.mp hw with hw | hw
    · exact hr w (List.mem_append_left _ hw)
    · rw [List.mem_singleton.mp hw]
      exact (hr v (by simp)).append hopts

theorem NoMarks.afterBare (h : NoMarks form) (hslash : HasPrefix form.path.text "/" = true) :
    ∀ w ∈ words isBlank (Shares.afterBare form.path.text), Unmarked w := by
  obtain ⟨p, hp⟩ := HasPrefix_iff.mp hslash
  intro w hw
  refine h.path w ?_
  rw [← hp] at hw ⊢
  exact words_bare (c := '/') rfl p ▸ List.mem_cons_of_mem _ hw

theorem readLine_previewLine {path : Str} (hslash : HasPrefix path "/" = true)
    (hafter : ∀ w ∈ words isBlank (afterBare path), Unmarked w)
    (hr : ∀ w ∈ words isBlank r.client.text, Unmarked w) :
    readLine (previewLine path r) = (shownEntries path r).map (unescape (bare path), ·) := by
  have hpath : path ≠ [] := by
    rintro rfl
    cases hslash
  unfold previewLine shownEntries
  split
  · rfl
  · rename_i hne
    have hline : shownPath path ++ ' ' :: r.client.text ++ '(' :: Join (previewOpts r) "," ++ [')'] =
        path ++ ' ' :: (r.client.text ++ ('(' :: Join (previewOpts r) "," ++ [')'])) := by
      simp [shownPath, hpath]
    rw [hline, readLine_bare hslash fun w hw => (List.mem_append.mp hw).elim (hafter w)
      (unmarked_shown hr w), List.map_append, previewEntries, if_neg hne]

/-- The lines of rules without a client are left out, and would say nothing. -/
theorem readLines_kept {path : Str} {rules : List RuleForm} (hslash : HasPrefix path "/" = true)
    (hafter : ∀ w ∈ words isBlank (afterBare path), Unmarked w)
    (hrules : ∀ r ∈ rules, ∀ w ∈ words isBlank r.client.text, Unmarked w) :
    ((rules.map (previewLine path)).filter (· ≠ [])).flatMap readLine =
      (rules.flatMap (shownEntries path)).map (unescape (bare path), ·) := by
  have hnil : readLine [] = [] := rfl
  induction rules with
  | nil => rfl
  | cons r rules ih =>
    have hr := readLine_previewLine hslash hafter (hrules r List.mem_cons_self)
    rw [List.map_cons, List.flatMap_cons, List.map_append, ← hr,
      ← ih fun r hr => hrules r (List.mem_cons_of_mem _ hr)]
    by_cases hl : previewLine path r = []
    · rw [List.filter_cons_of_neg (by simp [hl]), hl, hnil, List.nil_append]
    · rw [List.filter_cons_of_pos (by simp [hl]), List.flatMap_cons]

theorem previewed_eq (hslash : HasPrefix form.path.text "/" = true) (hmarks : NoMarks form) :
    previewed form = (form.rules.flatMap (shownEntries form.path.text)).map
      (unescape (bare form.path.text), ·) := by
  have hpath : form.path.text ≠ [] := by
    intro hnil
    rw [hnil] at hslash
    cases hslash
  have hpreview : form.preview = Shares.preview form.rules form.path.text := by
    have hshown : shownPath form.path.text = form.path.text := if_neg hpath
    exact congrArg (Shares.preview form.rules) hshown
  have hnote : readLine noRulesText = [] := rfl
  rw [previewed, hpreview, Shares.preview,
    ← readLines_kept hslash (hmarks.afterBare hslash) hmarks.shown]
  by_cases hnone : (form.rules.map (previewLine form.path.text)).filter (· ≠ []) = []
  · have hsingle : lines noRulesText = [noRulesText] := lines_of_not_mem (by decide)
    rw [hnone]
    simp only [unlines, List.intercalate_nil, if_true, hsingle, List.flatMap_cons, List.flatMap_nil,
      hnote, List.append_nil]
  · have hlines := lines_unlines hnone fun l hl => by
      obtain ⟨r, -, rfl⟩ := List.mem_map.mp (List.mem_of_mem_filter hl)
      exact previewLine_oneLine form r
    have htext : unlines ((form.rules.map (previewLine form.path.text)).filter (· ≠ [])) ≠ [] := by
      intro hempty
      rw [hempty, lines_nil] at hlines
      have hmem : ([] : Str) ∈ (form.rules.map (previewLine form.path.text)).filter (· ≠ []) := by
        rw [← hlines]
        exact List.mem_cons_self
      simpa using (List.mem_filter.mp hmem).2
    simp only [if_neg htext, hlines]

theorem shownEntries_copied (hcopied : ∀ c ∈ form.path.text, Copies U c) :
    shownEntries form.path.text r = previewEntries r := by
  have hafter : afterBare form.path.text = [] :=
    List.dropWhile_eq_nil_iff.mpr fun c hc => by simp [(hcopied c hc).2.2]
  unfold shownEntries previewEntries
  split
  · rfl
  · rw [hafter]
    rfl

/-- A path that is copied is shown as it is written. -/
theorem previewed_copied (hquotes : '"' ∉ form.path.text)
    (hslash : HasPrefix form.path.text "/" = true) (hmarks : NoMarks form)
    (hcopied : ∀ c ∈ form.path.text, Copies U c) :
    previewed form = (form.rules.flatMap previewEntries).map
      (unescape (quoted U form.path.text), ·) := by
  have hentries : shownEntries form.path.text = previewEntries :=
    funext fun r => shownEntries_copied hcopied
  rw [previewed_eq hslash hmarks, (unescape_bare_iff hquotes).mpr hcopied, hentries]

/-! ## What a rule shows -/

theorem read_shown {name : Str} (hname : '(' ∉ name) (r : RuleForm) :
    readClient (name ++ ('(' :: Join (previewOpts r) "," ++ [')'])) = (orStar name, r.shown) := by
  have hclose : ')' ∉ Join (previewOpts r) "," :=
    not_mem_join (areWords_previewOpts r) rfl (by decide)
  have hline : name ++ ('(' :: Join (previewOpts r) "," ++ [')']) =
      name ++ '(' :: Join (previewOpts r) "," ++ [')'] := by simp
  rw [hline, readClient_options hname hclose, read_previewOpts]

theorem read_words {client : Str} (hname : '(' ∉ client) :
    (words isBlank client).map readClient =
      (words isBlank client).map fun w => (w, defaultOpts.effective) := by
  refine List.map_congr_left fun w hw => ?_
  obtain ⟨hne, -, hpart⟩ := mem_words hw
  exact readClient_name (fun h => hname (hpart.subset h)) hne

theorem Accepts.no_paren {r : RuleForm} (h : Accepts r.core) : '(' ∉ r.client.text := by
  intro hmem
  exact h.not_mem '(' (by decide) (mem_trim rfl hmem)

/-- After a blank the options stand alone, for `*`. -/
theorem previewEntries_endsBlank (h : Accepts r.core) (hne : r.client.text ≠ []) (hend : r.EndsBlank) :
    previewEntries r =
      (words isBlank r.client.text).map (fun w => (w, defaultOpts.effective)) ++
        [(("*" : Str), r.shown)] := by
  have hstar : readClient ('(' :: Join (previewOpts r) "," ++ [')']) = (orStar [], r.shown) :=
    read_shown List.not_mem_nil r
  rw [previewEntries, if_neg hne, words_append_clean hend (by simp) (shownOpts_clean r),
    List.map_append, List.map_singleton, read_words h.no_paren, hstar]
  rfl

/-- Otherwise they go with the last word. -/
theorem previewEntries_glued (h : Accepts r.core) (hend : ¬ r.EndsBlank) :
    ∃ ws w, words isBlank r.client.text = ws ++ [w] ∧
      previewEntries r = ws.map (fun v => (v, defaultOpts.effective)) ++ [(w, r.shown)] := by
  obtain ⟨c, hc, hblank⟩ := last_of_not_endsBlank hend
  have hne : r.client.text ≠ [] := by
    intro hnil
    rw [hnil] at hc
    cases hc
  obtain ⟨ws, w, hwords, hglued, -⟩ := words_append_glue hc hblank (shownOpts_clean r)
  have hname : ∀ v ∈ ws ++ [w], v ≠ [] ∧ '(' ∉ v := by
    intro v hv
    rw [← hwords] at hv
    obtain ⟨hvne, -, hpart⟩ := mem_words hv
    exact ⟨hvne, fun hmem => h.no_paren (hpart.subset hmem)⟩
  have hw := hname w (by simp)
  have hws : ws.map readClient = ws.map fun v => (v, defaultOpts.effective) := by
    refine List.map_congr_left fun v hv => ?_
    have hv := hname v (by simp [hv])
    exact readClient_name hv.2 hv.1
  refine ⟨ws, w, hwords, ?_⟩
  rw [previewEntries, if_neg hne, hglued, List.map_append, List.map_singleton, hws,
    read_shown hw.2, orStar, if_neg hw.1]

/-- The words of a client, all of them, are clients of the preview. -/
theorem mem_previewEntries_of_word (h : Accepts r.core) {w : Str}
    (hw : w ∈ words isBlank r.client.text) : ∃ o, (w, o) ∈ previewEntries r := by
  by_cases hend : r.EndsBlank
  · have hne : r.client.text ≠ [] := by
      intro hnil
      rw [hnil, words_nil] at hw
      cases hw
    rw [previewEntries_endsBlank h hne hend]
    exact ⟨_, List.mem_append_left _ (List.mem_map.mpr ⟨w, hw, rfl⟩)⟩
  · obtain ⟨ws, v, hwords, hentries⟩ := previewEntries_glued h hend
    rw [hentries]
    rw [hwords] at hw
    rcases List.mem_append.mp hw with hw | hw
    · exact ⟨_, List.mem_append_left _ (List.mem_map.mpr ⟨w, hw, rfl⟩)⟩
    · rw [List.mem_singleton.mp hw]
      exact ⟨_, List.mem_append_right _ List.mem_cons_self⟩

theorem no_subtree_of_mem (h : Accepts r.core) {e : Str × Effective} (he : e ∈ previewEntries r) :
    e.2.subtreeCheck = false := by
  have hne : r.client.text ≠ [] := by
    intro hnil
    rw [previewEntries, if_pos hnil] at he
    cases he
  have hparts : ∀ {ws : List Str} {w : Str},
      e ∈ ws.map (fun v => (v, defaultOpts.effective)) ++ [(w, r.shown)] →
      e.2.subtreeCheck = false := by
    intro ws w hmem
    rcases List.mem_append.mp hmem with hmem | hmem
    · obtain ⟨v, -, rfl⟩ := List.mem_map.mp hmem
      rfl
    · rw [List.mem_singleton.mp hmem]
      rfl
  by_cases hend : r.EndsBlank
  · rw [previewEntries_endsBlank h hne hend] at he
    exact hparts he
  · obtain ⟨ws, w, -, hentries⟩ := previewEntries_glued h hend
    rw [hentries] at he
    exact hparts he

theorem words_aligned (h : Accepts r.core) (halign : trim isBlank r.client.text = r.core) :
    words isBlank r.client.text = if r.core = [] then [] else [r.core] := by
  rw [← words_trim (fun _ h => h), halign]
  split
  · rename_i hnil
    rw [hnil, words_nil]
  · rename_i hne
    refine words_of_clean hne fun c hc => ?_
    by_contra hblank
    rw [Bool.not_eq_false, isBlank, Bool.or_eq_true, decide_eq_true_eq, decide_eq_true_eq] at hblank
    rcases hblank with rfl | rfl
    · exact h.not_mem ' ' (by decide) hc
    · exact h.not_mem '\t' (by decide) hc

theorem previewEntries_aligned (h : Accepts r.core) (halign : trim isBlank r.client.text = r.core) :
    previewEntries r = r.shownAs := by
  have hwords := words_aligned h halign
  unfold RuleForm.shownAs
  split
  · rename_i hnil
    rw [previewEntries, if_pos hnil]
  · rename_i hne
    split
    · rename_i hcore
      have hblank : ∀ c ∈ r.client.text, isBlank c = true := by
        rw [hcore] at halign
        exact trim_eq_nil_iff.mp halign
      have hend : r.EndsBlank := fun c hc => hblank c (List.mem_of_getLast? hc)
      rw [previewEntries_endsBlank h hne hend, hwords, if_pos hcore]
      rfl
    · rename_i hcore
      rw [if_neg hcore] at hwords
      split
      · rename_i hend
        rw [previewEntries_endsBlank h hne hend, hwords]
        rfl
      · rename_i hend
        obtain ⟨ws, w, hsplit, hentries⟩ := previewEntries_glued h hend
        rw [hwords] at hsplit
        obtain ⟨rfl, hw⟩ : ws = [] ∧ w = r.core := by
          cases ws with
          | nil => exact ⟨rfl, (List.cons.inj hsplit).1.symm⟩
          | cons v ws => simp at hsplit
        rw [hentries, hw]
        rfl

/-! ## Preview and line -/

theorem shown_eq_effective (h : r.adv.noSubtreeCheck = true) : r.shown = r.effective := by
  simp [RuleForm.shown, RuleForm.effective, h]

theorem trim_appliedAs (r : RuleForm) : trim isSpace r.appliedAs.1 = r.appliedAs.1 := by
  unfold RuleForm.appliedAs orStar
  split
  · rfl
  · exact trim_trim _

/-- A refused client is shown all the same. -/
theorem previewEntries_ne_nil_of_refused (h : ¬ Accepts r.core) : previewEntries r ≠ [] := by
  have hne : r.client.text ≠ [] := by
    intro hnil
    have hcore : r.core = [] := by
      rw [RuleForm.core, hnil]
      rfl
    rw [hcore] at h
    exact h fun _ _ => List.not_mem_nil
  rw [previewEntries, if_neg hne]
  intro hnil
  have hall := words_eq_nil_iff.mp (List.map_eq_nil_iff.mp hnil)
  have hparen : isBlank '(' = true := hall '(' (by simp)
  cases hparen

theorem eq_appliedAs {e : Str × Effective} : r.appliedAs = e ↔ r.Gives e.1 e.2 := Prod.ext_iff

theorem mem_shownAs (hsubtree : r.adv.noSubtreeCheck = true) {e : Str × Effective} :
    e ∈ r.shownAs ↔ r.Seems e.1 e.2 := by
  obtain ⟨client, o⟩ := e
  have hgives : r.core ≠ [] → ((client, o) = (r.core, r.effective) ↔ r.Gives client o) := by
    intro hcore
    rw [RuleForm.Gives, orStar, if_neg hcore, Prod.mk.injEq, eq_comm (a := client), eq_comm (a := o)]
  rw [RuleForm.shownAs, shown_eq_effective hsubtree, RuleForm.Seems, RuleForm.Split]
  by_cases hnil : r.client.text = []
  · simp [hnil]
  · by_cases hcore : r.core = []
    · simp only [hnil, hcore, if_true, if_false, List.mem_singleton, Prod.mk.injEq, ne_eq,
        not_true_eq_false, not_false_eq_true, false_and, true_and, or_false, RuleForm.Gives, orStar]
      rw [eq_comm (a := client), eq_comm (a := o)]
    · by_cases hend : r.EndsBlank
      · simp only [hnil, hcore, hend, if_true, if_false, List.mem_cons, List.not_mem_nil, or_false,
          Prod.mk.injEq, ne_eq, not_true_eq_false, not_false_eq_true, and_true, false_and, true_and,
          false_or]
      · simp only [hnil, hcore, hend, if_false, List.mem_singleton, ne_eq, not_false_eq_true,
          and_false, false_and, true_and, or_false]
        exact hgives hcore

/-- What both say, once `ApplyNFS` takes the clients and the text shown for each is its own. -/
theorem mem_applied (hpath : ContainsAny form.path.text "\n\"" = false) (hsome : form.rules ≠ [])
    (haccepts : ∀ r ∈ form.rules, Accepts r.core) (hmarks : ∀ r ∈ form.rules, Unmarked r.core)
    {e : List UInt8 × Str × Effective} :
    e ∈ applied U id form ↔ e.1 = unescape (quoted U form.path.text) ∧
      ∃ r ∈ form.rules, r.Gives e.2.1 e.2.2 := by
  rw [applied_of_accepts U id hpath hsome haccepts hmarks, List.mem_map]
  simp only [List.mem_map, Prod.ext_iff (y := e)]
  constructor
  · rintro ⟨_, ⟨r, hr, rfl⟩, hsame, hgives⟩
    exact ⟨hsame.symm, r, hr, eq_appliedAs.mp hgives⟩
  · rintro ⟨hsame, r, hr, hgives⟩
    exact ⟨_, ⟨r, hr, rfl⟩, hsame.symm, eq_appliedAs.mpr hgives⟩

theorem mem_previewed (hquotes : '"' ∉ form.path.text)
    (hslash : HasPrefix form.path.text "/" = true) (hmarks : NoMarks form)
    (hcopied : ∀ c ∈ form.path.text, Copies U c)
    (haccepts : ∀ r ∈ form.rules, Accepts r.core)
    (hsubtree : ∀ r ∈ form.rules, r.adv.noSubtreeCheck = true)
    (halign : ∀ r ∈ form.rules, trim isBlank r.client.text = r.core)
    {e : List UInt8 × Str × Effective} :
    e ∈ previewed form ↔ e.1 = unescape (quoted U form.path.text) ∧
      ∃ r ∈ form.rules, r.Seems e.2.1 e.2.2 := by
  have hseems : e.2 ∈ form.rules.flatMap previewEntries ↔
      ∃ r ∈ form.rules, r.Seems e.2.1 e.2.2 := by
    rw [List.mem_flatMap]
    refine exists_congr fun r => and_congr_right fun hr => ?_
    rw [previewEntries_aligned (haccepts r hr) (halign r hr), mem_shownAs (hsubtree r hr)]
  rw [previewed_copied hquotes hslash hmarks hcopied, List.mem_map, ← hseems]
  constructor
  · rintro ⟨_, hmem, rfl⟩
    exact ⟨rfl, hmem⟩
  · rintro ⟨hsame, hmem⟩
    exact ⟨_, hmem, Prod.ext hsame.symm rfl⟩

theorem gives_star_of_empty (h : r.client.text = []) : r.Gives "*" r.effective := by
  have hcore : r.core = [] := by
    rw [RuleForm.core, h]
    rfl
  refine ⟨?_, rfl⟩
  rw [hcore]
  rfl

theorem RuleForm.Split.gives (h : r.Split) : r.Gives r.core r.effective :=
  ⟨if_neg h.1, rfl⟩

theorem RuleForm.Split.nonempty (h : r.Split) : r.client.text ≠ [] := by
  intro hnil
  refine h.1 ?_
  rw [RuleForm.core, hnil]
  rfl

/-! ## What follows when both say the same -/

section

variable (hpath : ContainsAny form.path.text "\n\"" = false)
  (hslash : HasPrefix form.path.text "/" = true) (hmarks : NoMarks form)
  (h : ∀ e, e ∈ previewed form ↔ e ∈ applied U id form)
include hpath hslash hmarks h

/-- Without a rule everyone is served, and the preview shows nobody. -/
theorem some_of_same : form.rules ≠ [] := by
  intro hnone
  obtain ⟨e, he⟩ := List.exists_mem_of_ne_nil _ (applied_of_no_rules U id hpath hnone)
  rw [← h e, previewed_eq hslash hmarks, hnone] at he
  cases he

theorem accepted_of_same : ∀ r ∈ form.rules, Accepts r.core := by
  intro r hr
  by_contra hbad
  obtain ⟨e, he⟩ := List.exists_mem_of_ne_nil _ (previewEntries_ne_nil_of_refused hbad)
  have happlied : (unescape (bare form.path.text), e) ∈ applied U id form := by
    rw [← h, previewed_eq hslash hmarks]
    exact List.mem_map.mpr ⟨e, List.mem_flatMap.mpr ⟨r, hr, previewEntries_shown he⟩, rfl⟩
  rw [applied_of_refused U id hpath hr hbad] at happlied
  cases happlied

/-- What both say, then, is what the rules give. -/
theorem mem_applied_of_same {e : List UInt8 × Str × Effective} : e ∈ applied U id form ↔
    e.1 = unescape (quoted U form.path.text) ∧ ∃ r ∈ form.rules, r.Gives e.2.1 e.2.2 :=
  mem_applied hpath (some_of_same hpath hslash hmarks h)
    (accepted_of_same hpath hslash hmarks h) hmarks.applied

theorem appliedAs_of_same {r : RuleForm} (hr : r ∈ form.rules) :
    (unescape (quoted U form.path.text), r.appliedAs) ∈ previewed form :=
  (h _).mpr ((mem_applied_of_same hpath hslash hmarks h).mpr ⟨rfl, r, hr, rfl, rfl⟩)

/-- Whatever is exported tells that the path is shown as it is. -/
theorem copied_of_same : ∀ c ∈ form.path.text, Copies U c := by
  obtain ⟨r, hr⟩ := List.exists_mem_of_ne_nil _ (some_of_same hpath hslash hmarks h)
  have hmem := appliedAs_of_same hpath hslash hmarks h hr
  rw [previewed_eq hslash hmarks] at hmem
  obtain ⟨e, -, hsame⟩ := List.mem_map.mp hmem
  exact (unescape_bare_iff (quote_not_mem hpath)).mp (Prod.mk.inj hsame).1

theorem previewed_of_same : previewed form = (form.rules.flatMap previewEntries).map
    (unescape (quoted U form.path.text), ·) :=
  previewed_copied (quote_not_mem hpath) hslash hmarks (copied_of_same hpath hslash hmarks h)

theorem subtree_of_same : ∀ r ∈ form.rules, r.adv.noSubtreeCheck = true := by
  intro r hr
  have hmem := appliedAs_of_same hpath hslash hmarks h hr
  rw [previewed_of_same hpath hslash hmarks h] at hmem
  obtain ⟨e, he, hsame⟩ := List.mem_map.mp hmem
  obtain ⟨s, hs, he⟩ := List.mem_flatMap.mp he
  have hno : e.2.subtreeCheck = false :=
    no_subtree_of_mem (accepted_of_same hpath hslash hmarks h s hs) he
  rw [(Prod.mk.inj hsame).2] at hno
  simpa [RuleForm.appliedAs, RuleForm.effective] using hno

theorem aligned_of_same : ∀ r ∈ form.rules, trim isBlank r.client.text = r.core := by
  intro r hr
  refine (trim_eq_of_words (fun c => isSpace_of_isBlank) fun w hw => ?_).symm
  obtain ⟨o, ho⟩ := mem_previewEntries_of_word (accepted_of_same hpath hslash hmarks h r hr) hw
  have hmem : (unescape (quoted U form.path.text), w, o) ∈ previewed form := by
    rw [previewed_of_same hpath hslash hmarks h]
    exact List.mem_map.mpr ⟨_, List.mem_flatMap.mpr ⟨r, hr, ho⟩, rfl⟩
  obtain ⟨-, s, -, hs, -⟩ := (mem_applied_of_same hpath hslash hmarks h).mp ((h _).mp hmem)
  have htrim := trim_appliedAs s
  rwa [RuleForm.appliedAs, hs] at htrim

theorem agrees_of_same : Agrees U form := by
  have hcopied := copied_of_same hpath hslash hmarks h
  have haccepted := accepted_of_same hpath hslash hmarks h
  have hsubtree := subtree_of_same hpath hslash hmarks h
  have haligned := aligned_of_same hpath hslash hmarks h
  have hsame : ∀ client o, (∃ r ∈ form.rules, r.Seems client o) ↔
      ∃ r ∈ form.rules, r.Gives client o := by
    intro client o
    have hboth := h (unescape (quoted U form.path.text), client, o)
    rw [mem_previewed (quote_not_mem hpath) hslash hmarks hcopied haccepted hsubtree haligned,
      mem_applied_of_same hpath hslash hmarks h] at hboth
    simpa only [true_and] using hboth
  refine ⟨hcopied, some_of_same hpath hslash hmarks h, haccepted, hmarks.applied, hsubtree,
    haligned, ?_, ?_⟩
  · intro r hr hnil
    exact (hsame _ _).mpr ⟨r, hr, gives_star_of_empty hnil⟩
  · intro r hr hsplit
    refine ⟨(hsame _ _).mp ⟨r, hr, ?_⟩, (hsame _ _).mp ⟨r, hr, ?_⟩, (hsame _ _).mpr ⟨r, hr, ?_⟩⟩
    · exact ⟨hsplit.nonempty, .inr ⟨hsplit, .inl ⟨rfl, rfl⟩⟩⟩
    · exact ⟨hsplit.nonempty, .inr ⟨hsplit, .inr ⟨rfl, rfl⟩⟩⟩
    · exact hsplit.gives

end

/-! ## What follows when the form agrees -/

/-- The words of the form are its path and its trimmed clients. -/
theorem Agrees.noMarks (h : Agrees U form) (hslash : HasPrefix form.path.text "/" = true) :
    NoMarks form := by
  obtain ⟨p, hp⟩ := HasPrefix_iff.mp hslash
  refine ⟨fun w hw => ?_, fun r hr w hw => ?_, h.unmarked⟩
  · have hne : form.path.text ≠ [] := by
      intro hnil
      rw [hnil] at hslash
      cases hslash
    rw [words_of_clean hne fun c hc => (h.copied c hc).2.2, List.mem_singleton] at hw
    rw [hw, ← hp]
    exact ⟨by simp, by simp⟩
  · rw [words_aligned (h.accepted r hr) (h.aligned r hr)] at hw
    split at hw
    · cases hw
    · rw [List.mem_singleton.mp hw]
      exact h.unmarked r hr

theorem same_of_agrees (hpath : ContainsAny form.path.text "\n\"" = false)
    (hslash : HasPrefix form.path.text "/" = true) (h : Agrees U form)
    (e : List UInt8 × Str × Effective) : e ∈ previewed form ↔ e ∈ applied U id form := by
  rw [mem_previewed (quote_not_mem hpath) hslash (h.noMarks hslash) h.copied h.accepted h.subtree
    h.aligned, mem_applied hpath h.some h.accepted h.unmarked]
  refine and_congr_right fun _ => ?_
  constructor
  · intro hseems
    obtain ⟨r, hr, -, hplain | ⟨hsplit, hfirst | hsecond⟩⟩ := hseems
    · exact ⟨r, hr, hplain.2⟩
    · rw [hfirst.1, hfirst.2]
      exact (h.split r hr hsplit).1
    · rw [hsecond.1, hsecond.2]
      exact (h.split r hr hsplit).2.1
  · intro hgives
    obtain ⟨r, hr, hr'⟩ := hgives
    obtain ⟨hclient, hopts⟩ := hr'
    rw [← hclient, ← hopts]
    by_cases hnil : r.client.text = []
    · rw [(gives_star_of_empty hnil).1]
      exact h.empty r hr hnil
    · by_cases hsplit : r.Split
      · rw [hsplit.gives.1]
        exact (h.split r hr hsplit).2.2
      · exact ⟨r, hr, hnil, .inl ⟨hsplit, rfl, rfl⟩⟩

theorem path_of_valid (hvalid : validateShare (mapNFSToAPI form) = .ok ()) :
    ContainsAny form.path.text "\n\"" = false ∧ HasPrefix form.path.text "/" = true := by
  unfold validateShare at hvalid
  split at hvalid
  · cases hvalid
  · split at hvalid
    · cases hvalid
    · split at hvalid
      · cases hvalid
      · rename_i hgood
        rw [Bool.or_eq_true, not_or, Bool.not_eq_true', Bool.not_eq_false] at hgood
        refine ⟨?_, hgood.1⟩
        have hnone := List.any_eq_false.mp (Bool.eq_false_iff.mpr hgood.2)
        refine List.any_eq_false.mpr fun c hc hbad => hnone c hc ?_
        have hsub : ("\n\"" : Str) ⊆ ("\n\r\"\x00" : Str) := by decide
        exact List.contains_iff_mem.mpr (hsub (List.contains_iff_mem.mp hbad))

/-- The preview of a stored form says what its line says when the form agrees; and, unless a word of
it begins a comment or default options, only then. -/
theorem preview_matches_iff (U : PrintTable) (id : Int) (form : NFSForm)
    (hvalid : validateShare (mapNFSToAPI form) = .ok ()) :
    (Agrees U form → ∀ e, e ∈ previewed form ↔ e ∈ applied U id form) ∧
      (NoMarks form → (∀ e, e ∈ previewed form ↔ e ∈ applied U id form) → Agrees U form) := by
  obtain ⟨hpath, hslash⟩ := path_of_valid hvalid
  exact ⟨same_of_agrees hpath hslash, agrees_of_same hpath hslash⟩

/-- The rule that the editor adds, with a client. -/
def addedRule (client : Line) : RuleForm where
  id := "1"
  client := client
  perm := .rw
  advOpen := false
  adv := ⟨true, false, true, false, some ("65534" : Str), some ("65534" : Str), true, true, false⟩

/-- The form that `NFSModal` starts from, with a name and a path. -/
def dataForm (rules : List RuleForm) : NFSForm where
  name := ⟨"data", by decide⟩
  path := ⟨"/srv/data", by decide⟩
  versions := ⟨true, true, false, false⟩
  rules := rules
  status := none
  rest := .none

/-- A host that may write is shown as it is exported. -/
theorem host_shown_as_exported :
    Agrees .asciiOnly (dataForm [addedRule ⟨"10.0.0.7", by decide⟩]) ∧
      ∀ e, e ∈ previewed (dataForm [addedRule ⟨"10.0.0.7", by decide⟩]) ↔
        e ∈ applied .asciiOnly 1 (dataForm [addedRule ⟨"10.0.0.7", by decide⟩]) := by
  have hagrees : Agrees .asciiOnly (dataForm [addedRule ⟨"10.0.0.7", by decide⟩]) := by
    refine ⟨?_, List.cons_ne_nil _ _, ?_, ?_, ?_, ?_, ?_, ?_⟩
    · have hplain : ("/srv/data" : Str).all
          (fun c => PrintTable.asciiOnly.isPrint c && c ≠ '\\' && !isBlank c) = true := rfl
      intro c hc
      simpa [Copies, and_assoc] using List.all_eq_true.mp hplain c hc
    · intro r hr
      rw [List.mem_singleton.mp hr]
      decide
    · intro r hr
      rw [List.mem_singleton.mp hr]
      exact ⟨by decide, by decide⟩
    · intro r hr
      rw [List.mem_singleton.mp hr]
      rfl
    · intro r hr
      rw [List.mem_singleton.mp hr]
      decide
    · intro r hr hnil
      rw [List.mem_singleton.mp hr] at hnil
      cases hnil
    · intro r hr hsplit
      rw [List.mem_singleton.mp hr] at hsplit
      have hblank : isBlank '7' = true := hsplit.2 '7' rfl
      cases hblank
  have hboth := preview_matches_iff .asciiOnly 1
    (dataForm [addedRule ⟨"10.0.0.7", by decide⟩]) rfl
  exact ⟨hagrees, hboth.1 hagrees⟩

/-- Of a path with a blank the preview says the first part, and then a client. -/
example : (previewed { dataForm [addedRule ⟨"10.0.0.7", by decide⟩] with
      path := ⟨"/srv/my docs", by decide⟩ }).map (fun e => (e.1, e.2.1)) =
    [(utf8 "/srv/my", ("docs" : Str)), (utf8 "/srv/my", "10.0.0.7")] := by decide

/-- A rule whose client is left empty is not shown, and exports to everyone. -/
theorem empty_client_exported_unseen :
    ¬ ∀ e, e ∈ previewed (dataForm [addedRule ⟨[], by decide⟩]) ↔
      e ∈ applied .asciiOnly 1 (dataForm [addedRule ⟨[], by decide⟩]) := by
  intro h
  have hexported : (utf8 "/srv/data", ("*" : Str), (addedRule ⟨[], by decide⟩).effective) ∈
      applied .asciiOnly 1 (dataForm [addedRule ⟨[], by decide⟩]) := by decide
  have hseen := (h _).mpr hexported
  have hnone : previewed (dataForm [addedRule ⟨[], by decide⟩]) = [] := by decide
  rw [hnone] at hseen
  cases hseen

end Shares
end Nasd
