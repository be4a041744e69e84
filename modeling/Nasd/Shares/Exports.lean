import Nasd.Shares.ExportPath
import Nasd.Shares.Frontend

/-!
# Nasd.Shares.Exports

A line of `/etc/exports` read as `exports(5)` says: a path, then clients between blanks, each with
its options in parentheses; an empty client stands for `*`, and options that are not given have
their defaults. A word that begins with `#` begins a comment, and one that begins with `-` gives
default options to the clients after it. Options with a value (`anonuid=`, `anongid=`) are set aside,
and so are quotation marks inside a client's name.

* `read_nfsRuleOpts`, `read_previewOpts` — the options of a rule, as written and as previewed.
* `readLine_clients`                     — what a line of clients with their options says.
-/

namespace Nasd
namespace Shares

open Text Go Json

/-! ## Reading -/

inductive Squash where
  | root | none | all
  deriving DecidableEq

structure ExportOpts where
  ro : Bool
  sync : Bool
  subtreeCheck : Bool
  secure : Bool
  rootSquash : Bool
  allSquash : Bool
  crossmnt : Bool

/-- What a client gets; squashing everyone covers squashing root. -/
structure Effective where
  ro : Bool
  sync : Bool
  subtreeCheck : Bool
  secure : Bool
  squash : Squash
  crossmnt : Bool
  deriving DecidableEq

def ExportOpts.effective (o : ExportOpts) : Effective where
  ro := o.ro
  sync := o.sync
  subtreeCheck := o.subtreeCheck
  secure := o.secure
  squash := if o.allSquash then .all else if o.rootSquash then .root else .none
  crossmnt := o.crossmnt

def defaultOpts : ExportOpts := ⟨true, true, false, true, true, false, false⟩

def applyOption (o : ExportOpts) (w : Str) : ExportOpts :=
  if '=' ∈ w then o
  else if w = "ro" then { o with ro := true }
  else if w = "rw" then { o with ro := false }
  else if w = "sync" then { o with sync := true }
  else if w = "async" then { o with sync := false }
  else if w = "subtree_check" then { o with subtreeCheck := true }
  else if w = "no_subtree_check" then { o with subtreeCheck := false }
  else if w = "secure" then { o with secure := true }
  else if w = "insecure" then { o with secure := false }
  else if w = "root_squash" then { o with rootSquash := true }
  else if w = "no_root_squash" then { o with rootSquash := false }
  else if w = "all_squash" then { o with allSquash := true }
  else if w = "no_all_squash" then { o with allSquash := false }
  else if w = "crossmnt" then { o with crossmnt := true }
  else o

def optionsFrom (o : ExportOpts) (t : Str) : ExportOpts := (t.splitOn ',').foldl applyOption o

def readOptions (t : Str) : Effective := (optionsFrom defaultOpts t).effective

def orStar (name : Str) : Str := if name = [] then "*" else name

/-- `client(options)`, or a client alone, after these default options. -/
def clientFrom (o : ExportOpts) (w : Str) : Str × Effective :=
  let name := w.takeWhile (· ≠ '(')
  let opts := ((w.dropWhile (· ≠ '(')).drop 1).takeWhile (· ≠ ')')
  (orStar name, (optionsFrom o opts).effective)

def readClient (w : Str) : Str × Effective := clientFrom defaultOpts w

/-- The clients among the words that follow a path. -/
def readClients (o : ExportOpts) : List Str → List (Str × Effective)
  | [] => []
  | w :: ws =>
    if w.head? = some '#' then []
    else if w.head? = some '-' then readClients (optionsFrom o (w.drop 1)) ws
    else clientFrom o w :: readClients o ws

/-- The path, a client and its options, for each client of a line. -/
def readLine (line : Str) : List (List UInt8 × Str × Effective) :=
  match line.dropWhile isBlank with
  | [] => []
  | '#' :: _ => []
  | c :: rest =>
    (readClients defaultOpts (words isBlank (readPath (c :: rest)).2)).map
      ((readPath (c :: rest)).1, ·)

/-- The word begins neither a comment nor default options. -/
def Unmarked (w : Str) : Prop := w.head? ≠ some '#' ∧ w.head? ≠ some '-'

instance (w : Str) : Decidable (Unmarked w) := inferInstanceAs (Decidable (_ ∧ _))

theorem Unmarked.append {w v : Str} (hw : Unmarked w) (hv : Unmarked v) : Unmarked (w ++ v) := by
  cases w with
  | nil => exact hv
  | cons c w => exact hw

theorem readClients_unmarked {ws : List Str} (h : ∀ w ∈ ws, Unmarked w) :
    readClients defaultOpts ws = ws.map readClient := by
  induction ws with
  | nil => rfl
  | cons w ws ih =>
    have hw := h w List.mem_cons_self
    rw [readClients, if_neg hw.1, if_neg hw.2, ih fun v hv => h v (List.mem_cons_of_mem _ hv)]
    rfl

theorem readLine_quoted (U : PrintTable) {path rest : Str} (hquotes : '"' ∉ path)
    (h : ∀ w ∈ words isBlank rest, Unmarked w) : readLine (Quote U path ++ rest) =
      ((words isBlank rest).map readClient).map (unescape (quoted U path), ·) := by
  have hread := readPath_quoted (U := U) hquotes rest
  have hline : readLine (Quote U path ++ rest) =
      (readClients defaultOpts (words isBlank (readPath (Quote U path ++ rest)).2)).map
        ((readPath (Quote U path ++ rest)).1, ·) := rfl
  rw [hline, hread, readClients_unmarked h]

/-- A path without quotes, as `NFSRulesEditor` shows it. -/
theorem readLine_bare {path rest : Str} (hslash : HasPrefix path "/" = true)
    (h : ∀ w ∈ words isBlank (afterBare path) ++ words isBlank rest, Unmarked w) :
    readLine (path ++ ' ' :: rest) =
      ((words isBlank (afterBare path) ++ words isBlank rest).map readClient).map
        (unescape (bare path), ·) := by
  obtain ⟨p, rfl⟩ := HasPrefix_iff.mp hslash
  obtain ⟨hbare, hafter⟩ := bare_append ("/" ++ p : Str) (c := ' ') rfl rest
  have hline : readLine (("/" ++ p : Str) ++ ' ' :: rest) =
      (readClients defaultOpts (words isBlank (afterBare (("/" ++ p : Str) ++ ' ' :: rest)))).map
        (unescape (bare (("/" ++ p : Str) ++ ' ' :: rest)), ·) := rfl
  rw [hline, hbare, hafter, words_append_sep rfl, readClients_unmarked h]

theorem readClient_options {name opts : Str} (hname : '(' ∉ name) (hopts : ')' ∉ opts) :
    readClient (name ++ '(' :: opts ++ [')']) = (orStar name, readOptions opts) := by
  have hpre : ∀ c ∈ name, decide (c ≠ '(') = true := by
    intro c hc
    rw [decide_eq_true_eq]
    rintro rfl
    exact hname hc
  have hin : ∀ c ∈ opts, decide (c ≠ ')') = true := by
    intro c hc
    rw [decide_eq_true_eq]
    rintro rfl
    exact hopts hc
  have hline : name ++ '(' :: opts ++ [')'] = name ++ ('(' :: (opts ++ [')'])) := by simp
  have hclose : (opts ++ [')']).takeWhile (fun c => decide (c ≠ ')')) = opts := by
    rw [List.takeWhile_append_of_pos hin]
    simp
  rw [readClient, clientFrom, hline, List.takeWhile_append_of_pos hpre, List.dropWhile_append_of_pos hpre]
  simpa [readOptions] using congrArg readOptions hclose

theorem readClient_name {name : Str} (hname : '(' ∉ name) (hne : name ≠ []) :
    readClient name = (name, defaultOpts.effective) := by
  have hpre : ∀ c ∈ name, decide (c ≠ '(') = true := by
    intro c hc
    rw [decide_eq_true_eq]
    rintro rfl
    exact hname hc
  have htake : name.takeWhile (fun c => decide (c ≠ '(')) = name :=
    List.takeWhile_eq_self_iff.mpr hpre
  have hdrop : name.dropWhile (fun c => decide (c ≠ '(')) = [] := List.dropWhile_eq_nil_iff.mpr hpre
  rw [readClient, clientFrom, htake, hdrop]
  simp only [orStar, hne, if_false]
  rfl

/-! ## Options of a rule -/

def RuleForm.effective (r : RuleForm) : Effective where
  ro := r.perm = .ro
  sync := r.adv.sync
  subtreeCheck := !r.adv.noSubtreeCheck
  secure := r.adv.secure
  squash := if r.adv.allSquash then .all else if r.adv.noRootSquash then .none else .root
  crossmnt := r.adv.crossmnt

/-- The options that the preview shows: it never says `subtree_check`. -/
def RuleForm.shown (r : RuleForm) : Effective := { r.effective with subtreeCheck := false }

def isOptionChar (c : Char) : Bool := c.isAlphanum || c = '_' || c = '='

theorem ofChars {w : Str} (h : w.all isOptionChar = true) : ∀ c ∈ w, isOptionChar c = true :=
  List.all_eq_true.mp h

/-- Words that options are made of. -/
def AreWords (ws : List Str) : Prop := ∀ w ∈ ws, ∀ c ∈ w, isOptionChar c = true

theorem AreWords.append {ws vs : List Str} (hw : AreWords ws) (hv : AreWords vs) :
    AreWords (ws ++ vs) := by
  intro w h
  rcases List.mem_append.mp h with h | h
  · exact hw w h
  · exact hv w h

theorem AreWords.cons {w : Str} {ws : List Str} (hw : ∀ c ∈ w, isOptionChar c = true)
    (hws : AreWords ws) : AreWords (w :: ws) := by
  intro v h
  rcases List.mem_cons.mp h with rfl | h
  · exact hw
  · exact hws v h

theorem areWords_ite {b : Bool} {w : Str} (hw : ∀ c ∈ w, isOptionChar c = true) :
    AreWords (if b then [w] else []) := by
  intro v h
  split at h
  · rw [List.mem_singleton.mp h]; exact hw
  · cases h

theorem areWords_idOpts {key : Str} (hkey : ∀ c ∈ key, isOptionChar c = true) (id : Int) :
    AreWords (idOpts key id) := by
  intro w h
  unfold idOpts at h
  split at h
  · rename_i hpos
    rw [List.mem_singleton.mp h]
    intro c hc
    rcases List.mem_append.mp hc with hc | hc
    · exact hkey c hc
    · rcases List.mem_cons.mp hc with rfl | hc
      · rfl
      · have hneg : ¬ id < 0 := by omega
        rw [Itoa, if_neg hneg] at hc
        have hdigit : c.isDigit = true := Nat.isDigit_of_mem_toDigits (by decide) (by decide) hc
        simp [isOptionChar, Char.isAlphanum, hdigit]
  · cases h

theorem areWords_nfsRuleOptList (r : NFSRule) : AreWords (nfsRuleOptList r) := by
  have hconst : ∀ {b : Bool} {w v : Str}, (∀ c ∈ w, isOptionChar c = true) →
      (∀ c ∈ v, isOptionChar c = true) → ∀ c ∈ if b then w else v, isOptionChar c = true := by
    intro b w v hw hv
    cases b
    · exact hv
    · exact hw
  unfold nfsRuleOptList
  refine .cons ?_ (.cons (hconst (ofChars rfl) (ofChars rfl))
    (.cons (hconst (ofChars rfl) (ofChars rfl)) (.cons (hconst (ofChars rfl) (ofChars rfl))
    (.cons ?_ (.append (.append ?_ ?_) ?_)))))
  · split <;> exact ofChars rfl
  · unfold squashOpt
    split
    · exact ofChars rfl
    · split <;> exact ofChars rfl
  · exact areWords_ite (ofChars rfl)
  · exact areWords_idOpts (ofChars rfl) _
  · exact areWords_idOpts (ofChars rfl) _

theorem areWords_previewOpts (r : RuleForm) : AreWords (previewOpts r) := by
  unfold previewOpts
  refine .cons ?_ (.cons ?_ (.append (.append (.append (.append ?_ ?_) ?_) ?_) ?_))
  · cases r.perm <;> exact ofChars rfl
  · split <;> exact ofChars rfl
  · split
    · exact areWords_ite (b := true) (ofChars rfl)
    · exact areWords_ite (ofChars rfl)
  all_goals exact areWords_ite (ofChars rfl)

/-- Characters that neither stand in options nor between them. -/
theorem not_mem_join {ws : List Str} (h : AreWords ws) {c : Char} (hc : isOptionChar c = false)
    (hcomma : c ≠ ',') : c ∉ Join ws "," := by
  intro hmem
  rcases mem_Join hmem with ⟨w, hw, hcw⟩ | hsep
  · rw [h w hw c hcw] at hc
    cases hc
  · exact hcomma (List.mem_singleton.mp hsep)

theorem splitOn_join {ws : List Str} (hne : ws ≠ []) (h : AreWords ws) :
    (Join ws ",").splitOn ',' = ws := by
  refine List.splitOn_intercalate _ (fun w hw hc => ?_) hne
  have := h w hw ',' hc
  cases this

theorem readOptions_join {ws : List Str} (hne : ws ≠ []) (h : AreWords ws) :
    readOptions (Join ws ",") = (ws.foldl applyOption defaultOpts).effective := by
  rw [readOptions, optionsFrom, splitOn_join hne h]

section

variable (o : ExportOpts) (b : Bool)

theorem apply_perm (a : Access) : applyOption o a.text = { o with ro := a = .ro } := by
  cases a <;> rfl

theorem apply_sync :
    applyOption o (if b then "sync" else "async") = { o with sync := b } := by cases b <;> rfl

theorem apply_subtree :
    applyOption o (if b then "no_subtree_check" else "subtree_check") =
      { o with subtreeCheck := !b } := by cases b <;> rfl

theorem apply_secure :
    applyOption o (if b then "secure" else "insecure") = { o with secure := b } := by
  cases b <;> rfl

theorem apply_crossmnt :
    (if b then [("crossmnt" : Str)] else []).foldl applyOption o =
      { o with crossmnt := b || o.crossmnt } := by cases b <;> rfl

theorem apply_idOpts (key : Str) (id : Int) : (idOpts key id).foldl applyOption o = o := by
  unfold idOpts
  split
  · have hvalue : '=' ∈ key ++ '=' :: Itoa id := by simp
    simp only [List.foldl_cons, List.foldl_nil, applyOption, hvalue, if_true]
  · rfl

end

theorem apply_squash (o : ExportOpts) (a : NFSAdv) :
    applyOption o (squashOpt a) =
      if a.allSquash then { o with allSquash := true } else { o with rootSquash := !a.noRootSquash } := by
  unfold squashOpt
  cases a.allSquash <;> cases a.noRootSquash <;> rfl

/-- The options that `ApplyNFS` writes for a rule are those of the form. -/
theorem read_nfsRuleOpts (r : RuleForm) : readOptions (nfsRuleOpts r.rule) = r.effective := by
  have hperm : (if r.rule.perm = "ro" then ("ro" : Str) else "rw") = r.perm.text := by
    unfold RuleForm.rule
    cases r.perm <;> rfl
  have hne : nfsRuleOptList r.rule ≠ [] := List.cons_ne_nil _ _
  rw [nfsRuleOpts, readOptions_join hne (areWords_nfsRuleOptList _),
    nfsRuleOptList, hperm, List.foldl_cons, List.foldl_cons, List.foldl_cons, List.foldl_cons,
    List.foldl_cons, List.foldl_append, List.foldl_append, apply_perm, apply_sync, apply_subtree,
    apply_secure, apply_squash, apply_crossmnt, apply_idOpts, apply_idOpts]
  unfold RuleForm.effective RuleForm.rule AdvForm.options
  cases r.adv.allSquash <;> cases r.adv.noRootSquash <;> simp [defaultOpts, ExportOpts.effective]

section

variable (o : ExportOpts) (b c : Bool)

theorem apply_shownRoot :
    (if b then [("no_root_squash" : Str)] else if c then ["root_squash"] else []).foldl applyOption o =
      { o with rootSquash := !b && (c || o.rootSquash) } := by cases b <;> cases c <;> rfl

theorem apply_shownAll :
    (if b then [("all_squash" : Str)] else []).foldl applyOption o =
      { o with allSquash := b || o.allSquash } := by cases b <;> rfl

theorem apply_shownSubtree :
    (if b then [("no_subtree_check" : Str)] else []).foldl applyOption o =
      { o with subtreeCheck := !b && o.subtreeCheck } := by cases b <;> rfl

theorem apply_shownInsecure :
    (if !b then [("insecure" : Str)] else []).foldl applyOption o =
      { o with secure := b && o.secure } := by cases b <;> rfl

end

/-- The options that the preview shows for a rule are those of the form, with no subtree check. -/
theorem read_previewOpts (r : RuleForm) : readOptions (Join (previewOpts r) ",") = r.shown := by
  have hne : previewOpts r ≠ [] := List.cons_ne_nil _ _
  rw [readOptions_join hne (areWords_previewOpts r), previewOpts, List.foldl_cons, List.foldl_cons,
    List.foldl_append, List.foldl_append, List.foldl_append, List.foldl_append, apply_perm, apply_sync,
    apply_shownRoot, apply_shownAll, apply_shownSubtree, apply_shownInsecure, apply_crossmnt]
  unfold RuleForm.shown RuleForm.effective
  cases r.adv.allSquash <;> cases r.adv.noRootSquash <;> simp [defaultOpts, ExportOpts.effective]

/-! ## The generated line -/

theorem containsAny_false {text chars : Str} :
    ContainsAny text chars = false ↔ ∀ c ∈ chars, c ∉ text := by
  rw [ContainsAny, List.any_eq_false]
  constructor
  · intro h c hc hmem
    exact h c hmem (List.contains_iff_mem.mpr hc)
  · intro h c hmem hc
    exact h c (List.contains_iff_mem.mp hc) hmem

/-- The characters for which `ApplyNFS` refuses a client. -/
def Accepts (client : Str) : Prop :=
  ∀ c ∈ ([' ', '\t', '\r', '\n', '"', '(', ')'] : Str), c ∉ client

instance (client : Str) : Decidable (Accepts client) := inferInstanceAs (Decidable (∀ c ∈ _, _))

theorem accepts_iff {client : Str} :
    Accepts client ↔ ContainsAny client badClientChars = false := containsAny_false.symm

theorem Accepts.not_mem {client : Str} (h : Accepts client) : ∀ c ∈ badClientChars, c ∉ client := h

theorem exportEach_ok (U : PrintTable) {cs : List (Str × Str)} (h : ∀ p ∈ cs, Accepts p.1) :
    exportEach U cs =
      .ok ((cs.map fun p => p.1 ++ '(' :: p.2 ++ [')']).flatMap (' ' :: ·)) := by
  induction cs with
  | nil => rfl
  | cons p cs ih =>
    obtain ⟨client, opts⟩ := p
    have hp : ContainsAny client badClientChars = false := accepts_iff.mp (h _ List.mem_cons_self)
    rw [exportEach, exportClient, if_neg (by simp [hp]), ih fun q hq => h q (List.mem_cons_of_mem _ hq)]
    rfl

theorem exportEach_words (U : PrintTable) {cs : List (Str × List Str)} (h : ∀ p ∈ cs, Accepts p.1) :
    exportEach U (cs.map fun p => (p.1, Join p.2 ",")) =
      .ok ((cs.map fun p => p.1 ++ '(' :: Join p.2 "," ++ [')']).flatMap (' ' :: ·)) := by
  have hall : ∀ p ∈ cs.map (fun p => (p.1, Join p.2 ",")), Accepts p.1 := by
    intro p hp
    obtain ⟨q, hq, rfl⟩ := List.mem_map.mp hp
    exact h q hq
  rw [exportEach_ok U hall, List.map_map]
  rfl

theorem exportEach_refused (U : PrintTable) {cs : List (Str × Str)}
    (h : ∃ p ∈ cs, ¬ Accepts p.1) : ∃ e, exportEach U cs = .error e := by
  induction cs with
  | nil => obtain ⟨p, hp, -⟩ := h; cases hp
  | cons p cs ih =>
    obtain ⟨client, opts⟩ := p
    rw [exportEach, exportClient]
    by_cases hp : Accepts client
    · have hrest : ∃ q ∈ cs, ¬ Accepts q.1 := by
        obtain ⟨q, hq, hbad⟩ := h
        rcases List.mem_cons.mp hq with rfl | hq
        · exact absurd hp hbad
        · exact ⟨q, hq, hbad⟩
      obtain ⟨e, he⟩ := ih hrest
      have hp' : ContainsAny client badClientChars = false := accepts_iff.mp hp
      rw [if_neg (by simp [hp']), he]
      exact ⟨e, rfl⟩
    · have hp' : ContainsAny client badClientChars = true := by simpa [accepts_iff] using hp
      rw [if_pos hp']
      exact ⟨_, rfl⟩

theorem exportEach_ok_iff (U : PrintTable) {cs : List (Str × Str)} {t : Str} :
    exportEach U cs = .ok t ↔ (∀ p ∈ cs, Accepts p.1) ∧
      t = (cs.map fun p => p.1 ++ '(' :: p.2 ++ [')']).flatMap (' ' :: ·) := by
  by_cases hall : ∀ p ∈ cs, Accepts p.1
  · rw [exportEach_ok U hall, Except.ok.injEq, eq_comm]
    exact (and_iff_right hall).symm
  · have hrefused := hall
    push Not at hrefused
    obtain ⟨e, he⟩ := exportEach_refused U hrefused
    rw [he]
    exact iff_of_false (fun h => by cases h) fun h => hall h.1

/-- What a line says that lists these clients with options made of words. -/
theorem readLine_clients (U : PrintTable) {path : Str} (hquotes : '"' ∉ path)
    {cs : List (Str × List Str)} (h : ∀ p ∈ cs, Accepts p.1) (hmarks : ∀ p ∈ cs, Unmarked p.1)
    (hopts : ∀ p ∈ cs, AreWords p.2) :
    readLine (Quote U path ++
      (cs.map fun p => p.1 ++ '(' :: Join p.2 "," ++ [')']).flatMap (' ' :: ·)) =
      cs.map fun p => (unescape (quoted U path), orStar p.1, readOptions (Join p.2 ",")) := by
  have hclean : ∀ w ∈ cs.map (fun p => p.1 ++ '(' :: Join p.2 "," ++ [')']),
      w ≠ [] ∧ ∀ c ∈ w, isBlank c = false := by
    intro w hw
    obtain ⟨p, hp, rfl⟩ := List.mem_map.mp hw
    refine ⟨by simp, fun c hc => ?_⟩
    by_contra hblank
    rw [Bool.not_eq_false] at hblank
    have hnot : c ∉ p.1 ∧ c ∉ Join p.2 "," ∧ c ≠ '(' ∧ c ≠ ')' := by
      simp only [isBlank, Bool.or_eq_true, decide_eq_true_eq] at hblank
      rcases hblank with rfl | rfl
      · exact ⟨(h p hp).not_mem _ (by decide), not_mem_join (hopts p hp) rfl (by decide),
          by decide, by decide⟩
      · exact ⟨(h p hp).not_mem _ (by decide), not_mem_join (hopts p hp) rfl (by decide),
          by decide, by decide⟩
    simp only [List.append_assoc, List.cons_append, List.mem_append, List.mem_cons,
      List.not_mem_nil, or_false] at hc
    rcases hc with hc | hc | hc | hc
    · exact hnot.1 hc
    · exact hnot.2.2.1 hc
    · exact hnot.2.1 hc
    · exact hnot.2.2.2 hc
  have hwords := words_flatMap_cons (c := ' ') rfl hclean
  rw [readLine_quoted U hquotes, hwords, List.map_map, List.map_map]
  · refine List.map_congr_left fun p hp => ?_
    have hread := readClient_options ((h p hp).not_mem _ (by decide))
      (not_mem_join (hopts p hp) rfl (by decide))
    exact congrArg (unescape (quoted U path), ·) hread
  · intro w hw
    rw [hwords] at hw
    obtain ⟨p, hp, rfl⟩ := List.mem_map.mp hw
    rw [List.append_assoc]
    exact (hmarks p hp).append ⟨by simp, by simp⟩

end Shares
end Nasd
