import Mathlib.Data.List.DropRight
import Mathlib.Data.List.Infix

/-!
# Nasd.Lib.Text

Texts as lists of characters, and the two ways configuration files are read: line by line
(`lines`, inverse to `unlines`) and word by word (`words p`, for a set `p` of separators).

* `lines_append_newline`, `words_append_sep` — reading splits at every separator.
* `readLines_terminated`                      — a text written line by line is read back.
* `keepLines`, `keepLines_inj`                — keeping some of a text's lines.
* `words_head_begins`, `mem_words`           — where a word stands in its text.
* `mem_delimit_iff`                          — a set of names kept in one text.
-/

namespace Text

/-- A text, character by character. -/
abbrev Str := List Char

instance : Coe String Str := ⟨String.toList⟩

instance : LawfulBEq Str := inferInstance

/-- By the characters of the text, and not by all there are. -/
instance (priority := high) (t : Str) (P : Char → Prop) [DecidablePred P] :
    Decidable (∀ c ∈ t, P c) := List.decidableBAll P t

variable {p : Char → Bool}

/-! ## Pieces of a split -/

/-- The first piece of a split is the text up to the first separator. -/
theorem splitOnP_head (t : Str) : ∃ ws, t.splitOnP p = t.takeWhile (fun c => !p c) :: ws := by
  induction t with
  | nil => exact ⟨[], rfl⟩
  | cons c t ih =>
    obtain ⟨ws, hws⟩ := ih
    rw [List.splitOnP_cons_eq_if_modifyHead]
    cases hc : p c with
    | true => exact ⟨t.splitOnP p, by simp [hc]⟩
    | false => exact ⟨ws, by simp [hc, hws]⟩

theorem mem_splitOnP {t : Str} : ∀ {w : Str}, w ∈ t.splitOnP p → (∀ c ∈ w, p c = false) ∧ w <:+: t := by
  induction t with
  | nil => intro w h; simp at h; subst h; simp
  | cons c t ih =>
    intro w h
    rw [List.splitOnP_cons_eq_if_modifyHead] at h
    split at h
    · rcases List.mem_cons.mp h with rfl | h
      · simp
      · exact ⟨(ih h).1, (ih h).2.trans (List.suffix_cons c t).isInfix⟩
    · rename_i hc
      obtain ⟨ws, hws⟩ := splitOnP_head (p := p) t
      rw [hws, List.modifyHead_cons] at h
      rcases List.mem_cons.mp h with rfl | h
      · constructor
        · intro d hd
          rcases List.mem_cons.mp hd with rfl | hd
          · simpa using hc
          · simpa using List.mem_takeWhile_imp hd
        · exact ((List.prefix_cons_inj c).mpr (List.takeWhile_prefix _)).isInfix
      · have := ih (w := w) (by rw [hws]; exact List.mem_cons_of_mem _ h)
        exact ⟨this.1, this.2.trans (List.suffix_cons c t).isInfix⟩

/-- No character but the separators is lost in a split. -/
theorem exists_mem_splitOnP {c : Char} (hc : p c = false) {t : Str} (h : c ∈ t) :
    ∃ w ∈ t.splitOnP p, c ∈ w := by
  induction t with
  | nil => cases h
  | cons d t ih =>
    rw [List.splitOnP_cons_eq_if_modifyHead]
    rcases List.mem_cons.mp h with rfl | hmem
    · rw [if_neg (by simp [hc])]
      obtain ⟨ws, hws⟩ := splitOnP_head (p := p) t
      exact ⟨_, by rw [hws, List.modifyHead_cons]; exact List.mem_cons_self, List.mem_cons_self⟩
    · obtain ⟨w, hw, hcw⟩ := ih hmem
      split
      · exact ⟨w, List.mem_cons_of_mem _ hw, hcw⟩
      · obtain ⟨v, vs, hv⟩ := List.exists_cons_of_ne_nil (List.splitOnP_ne_nil p t)
        rw [hv] at hw ⊢
        rw [List.modifyHead_cons]
        rcases List.mem_cons.mp hw with rfl | hw
        · exact ⟨_, List.mem_cons_self, List.mem_cons_of_mem _ hcw⟩
        · exact ⟨w, List.mem_cons_of_mem _ hw, hcw⟩

/-! ## Lines -/

/-- The pieces of a text between newlines. A terminated text has an empty last piece. -/
def lines (t : Str) : List Str := t.splitOn '\n'

def unlines (ls : List Str) : Str := ['\n'].intercalate ls

@[simp] theorem lines_nil : lines [] = [[]] := rfl

@[simp] theorem unlines_lines (t : Str) : unlines (lines t) = t := List.intercalate_splitOn _

theorem lines_unlines {ls : List Str} (hne : ls ≠ []) (h : ∀ l ∈ ls, '\n' ∉ l) :
    lines (unlines ls) = ls := List.splitOn_intercalate _ h hne

theorem isInfix_of_mem_lines {t l : Str} (h : l ∈ lines t) : l <:+: t := by
  rw [lines, List.splitOn_eq_splitOnP] at h
  exact (mem_splitOnP h).2

theorem lines_append_newline (t u : Str) : lines (t ++ '\n' :: u) = lines t ++ lines u :=
  List.splitOn_append_cons_self t u

theorem lines_of_not_mem {t : Str} (h : '\n' ∉ t) : lines t = [t] := List.splitOn_eq_singleton h

/-- A text goes on in its last line. -/
theorem lines_append (t : Str) :
    ∃ ls last, lines t = ls ++ [last] ∧ ∀ u, lines (t ++ u) = ls ++ lines (last ++ u) := by
  induction t with
  | nil => exact ⟨[], [], rfl, fun _ => rfl⟩
  | cons c t ih =>
    obtain ⟨ls, last, hlast, happend⟩ := ih
    have hcons : ∀ v : Str, lines (c :: v) =
        if c = '\n' then [] :: lines v else (lines v).modifyHead (c :: ·) := by
      intro v
      simp only [lines, List.splitOn_eq_splitOnP, List.splitOnP_cons_eq_if_modifyHead, beq_iff_eq]
    by_cases hc : c = '\n'
    · refine ⟨[] :: ls, last, ?_, fun u => ?_⟩
      · rw [hcons, if_pos hc, hlast, List.cons_append]
      · rw [List.cons_append, hcons, if_pos hc, happend, List.cons_append]
    · cases ls with
      | nil =>
        refine ⟨[], c :: last, ?_, fun u => ?_⟩
        · rw [hcons, if_neg hc, hlast]; rfl
        · rw [List.cons_append, hcons, if_neg hc, happend, List.nil_append, List.nil_append,
            List.cons_append, hcons, if_neg hc]
      | cons l ls =>
        refine ⟨(c :: l) :: ls, last, ?_, fun u => ?_⟩
        · rw [hcons, if_neg hc, hlast]; rfl
        · rw [List.cons_append, hcons, if_neg hc, happend]; rfl

/-- A text written line by line. -/
theorem lines_terminated_append {ls : List Str} (h : ∀ l ∈ ls, '\n' ∉ l) (t : Str) :
    lines (ls.flatMap (· ++ ['\n']) ++ t) = ls ++ lines t := by
  induction ls with
  | nil => rfl
  | cons l ls ih =>
    have hsplit : (l :: ls).flatMap (· ++ ['\n']) ++ t =
        l ++ '\n' :: (ls.flatMap (· ++ ['\n']) ++ t) := by simp
    rw [hsplit, lines_append_newline, lines_of_not_mem (h l List.mem_cons_self),
      ih fun m hm => h m (List.mem_cons_of_mem _ hm)]
    rfl

theorem lines_terminated {ls : List Str} (h : ∀ l ∈ ls, '\n' ∉ l) :
    lines (ls.flatMap (· ++ ['\n'])) = ls ++ [[]] := by
  simpa using lines_terminated_append h []

/-- The lines of a text for a program that reads it. Behind the last newline a line begins only where
something follows. -/
def readLines (t : Str) : List Str :=
  if (lines t).getLast? = some [] then (lines t).dropLast else lines t

theorem readLines_terminated {ls : List Str} (h : ∀ l ∈ ls, '\n' ∉ l) :
    readLines (ls.flatMap (· ++ ['\n'])) = ls := by
  rw [readLines, lines_terminated h, List.getLast?_concat, if_pos rfl, List.dropLast_concat]

theorem newline_not_mem_of_mem_lines {t l : Str} (h : l ∈ lines t) : '\n' ∉ l := by
  rw [lines, List.splitOn_eq_splitOnP] at h
  intro hc
  simpa using (mem_splitOnP h).1 _ hc

/-- Writing back some of a text's lines. A text with no line kept is the empty text, whose only
piece is empty. -/
theorem lines_unlines_filter (p : Str → Bool) (t : Str) :
    lines (unlines ((lines t).filter p)) =
      if (lines t).filter p = [] then [[]] else (lines t).filter p := by
  split
  · rename_i h; rw [h]; rfl
  · rename_i h
    exact lines_unlines h fun l hl => newline_not_mem_of_mem_lines (List.mem_of_mem_filter hl)

/-- The text with only those of its lines that meet `p`. -/
def keepLines (p : Str → Bool) (t : Str) : Str := unlines ((lines t).filter p)

@[simp] theorem keepLines_nil (p : Str → Bool) : keepLines p [] = [] := by
  cases h : p [] <;> simp [keepLines, h] <;> rfl

theorem mem_lines_keepLines {p : Str → Bool} {t l : Str} (hl : l ≠ []) :
    l ∈ lines (keepLines p t) ↔ l ∈ lines t ∧ p l = true := by
  rw [keepLines, lines_unlines_filter]
  split
  · rename_i h
    rw [← List.mem_filter, h]
    simp [hl]
  · exact List.mem_filter

theorem keepLines_keepLines {p q : Str → Bool} (hq : q [] = true) (t : Str) :
    keepLines q (keepLines p t) = keepLines (fun l => p l && q l) t := by
  have hfilter : (lines t).filter (fun l => p l && q l) = ((lines t).filter p).filter q := by
    rw [List.filter_filter]
    exact List.filter_congr fun l _ => Bool.and_comm ..
  rw [keepLines, keepLines, lines_unlines_filter, keepLines, hfilter]
  split
  · rename_i h
    rw [h]
    simp [hq, unlines]
  · rfl

/-- Two selections that both keep empty lines leave the same text only if they agree on every
line. -/
theorem keepLines_inj {p q : Str → Bool} (hp : p [] = true) (hq : q [] = true) {t : Str} :
    keepLines p t = keepLines q t ↔ ∀ l ∈ lines t, p l = q l := by
  constructor
  · intro h l hl
    by_cases hnil : l = []
    · rw [hnil, hp, hq]
    · have hmem := mem_lines_keepLines (p := p) (t := t) hnil
      rw [h, mem_lines_keepLines hnil] at hmem
      simp only [hl, true_and] at hmem
      exact Bool.eq_iff_iff.mpr hmem.symm
  · intro h
    rw [keepLines, keepLines, List.filter_congr h]

theorem keepLines_eq_self {p : Str → Bool} (hp : p [] = true) {t : Str} :
    keepLines p t = t ↔ ∀ l ∈ lines t, p l = true := by
  have hall : keepLines (fun _ => true) t = t := by
    rw [keepLines, List.filter_true, unlines_lines]
  rw [← keepLines_inj hp rfl, hall]

/-! ## Words -/

def isBlank (c : Char) : Bool := c = ' ' || c = '\t'

/-- The non-empty pieces of a text between separators. -/
def words (p : Char → Bool) (t : Str) : List Str := (t.splitOnP p).filter (· ≠ [])

@[simp] theorem words_nil : words p [] = [] := rfl

theorem words_append_sep {c : Char} (hc : p c = true) (t u : Str) :
    words p (t ++ c :: u) = words p t ++ words p u := by
  rw [words, List.splitOnP_append_cons t u hc, List.filter_append]; rfl

theorem words_cons_sep {c : Char} (hc : p c = true) (t : Str) : words p (c :: t) = words p t := by
  simpa using words_append_sep hc [] t

theorem words_intercalate {c : Char} (hc : p c = true) :
    ∀ ls : List Str, words p ([c].intercalate ls) = ls.flatMap (words p)
  | [] => rfl
  | [l] => by simp
  | l :: m :: ls => by
    rw [List.intercalate_cons_cons, List.append_assoc, List.singleton_append, words_append_sep hc,
      words_intercalate hc (m :: ls)]
    rfl

theorem words_of_clean {t : Str} (hne : t ≠ []) (h : ∀ c ∈ t, p c = false) : words p t = [t] := by
  rw [words, List.splitOnP_eq_singleton h]; simp [hne]

theorem words_cons {c : Char} {t : Str} (hc : p c = false) :
    ∃ w ws, t.splitOnP p = w :: ws ∧ words p (c :: t) = (c :: w) :: ws.filter (· ≠ []) := by
  obtain ⟨w, ws, hw⟩ := List.exists_cons_of_ne_nil (List.splitOnP_ne_nil p t)
  refine ⟨w, ws, hw, ?_⟩
  rw [words, List.splitOnP_cons_eq_if_modifyHead, if_neg (by simp [hc]), hw, List.modifyHead_cons]
  simp

/-- A word is a non-empty stretch of its text without separators. -/
theorem mem_words {t w : Str} (h : w ∈ words p t) :
    w ≠ [] ∧ (∀ c ∈ w, p c = false) ∧ w <:+: t := by
  obtain ⟨hw, hne⟩ := List.mem_filter.mp h
  exact ⟨by simpa using hne, mem_splitOnP hw⟩

/-- A stretch without separators after a separator is a word of its own. -/
theorem words_append_clean {t u : Str} (ht : ∀ c, t.getLast? = some c → p c = true) (hne : u ≠ [])
    (hu : ∀ c ∈ u, p c = false) : words p (t ++ u) = words p t ++ [u] := by
  cases t using List.reverseRecOn with
  | nil => exact words_of_clean hne hu
  | append_singleton t c =>
    have hc : p c = true := ht c (by simp)
    rw [List.append_assoc, List.singleton_append, words_append_sep hc, words_append_sep hc,
      words_of_clean hne hu, words_nil, List.append_nil]

/-- After anything else it goes on with the last word. -/
theorem words_append_glue {t u : Str} {c : Char} (ht : t.getLast? = some c) (hc : p c = false)
    (hu : ∀ c ∈ u, p c = false) :
    ∃ ws w, words p t = ws ++ [w] ∧ words p (t ++ u) = ws ++ [w ++ u] ∧ w <:+ t := by
  have hsplit : t = t.rdropWhile (fun c => !p c) ++ t.rtakeWhile (fun c => !p c) :=
    List.rdropWhile_append_rtakeWhile.symm
  have hlast : t.rtakeWhile (fun c => !p c) ≠ [] := by
    obtain ⟨t', rfl⟩ := List.getLast?_eq_some_iff.mp ht
    simp [hc]
  have hclean : ∀ d ∈ t.rtakeWhile (fun c => !p c), p d = false := by
    intro d hd
    simpa using List.mem_rtakeWhile_imp hd
  have hend : ∀ d, (t.rdropWhile fun c => !p c).getLast? = some d → p d = true := by
    intro d hd
    obtain ⟨t', ht'⟩ := List.getLast?_eq_some_iff.mp hd
    have hne : (t.rdropWhile fun c => !p c) ≠ [] := by simp [ht']
    have hlast' := List.rdropWhile_last_not (fun c => !p c) t hne
    simpa [ht'] using hlast'
  refine ⟨words p (t.rdropWhile fun c => !p c), t.rtakeWhile (fun c => !p c), ?_, ?_,
    ⟨_, hsplit.symm⟩⟩
  · conv_lhs => rw [hsplit]
    exact words_append_clean hend hlast hclean
  · conv_lhs => rw [hsplit, List.append_assoc]
    refine words_append_clean hend (by simp [hlast]) fun d hd => ?_
    rcases List.mem_append.mp hd with hd | hd
    · exact hclean d hd
    · exact hu d hd

/-- Words written with a separator before each. -/
theorem words_flatMap_cons {c : Char} (hc : p c = true) {ws : List Str}
    (hclean : ∀ w ∈ ws, w ≠ [] ∧ ∀ d ∈ w, p d = false) : words p (ws.flatMap (c :: ·)) = ws := by
  induction ws with
  | nil => rfl
  | cons w ws ih =>
    obtain ⟨hne, hw⟩ := hclean w List.mem_cons_self
    have hrest := ih fun v hv => hclean v (List.mem_cons_of_mem _ hv)
    rw [List.flatMap_cons, List.cons_append, words_cons_sep hc]
    cases ws with
    | nil => simpa using words_of_clean hne hw
    | cons v vs =>
      rw [List.flatMap_cons, List.cons_append, words_append_sep hc, words_of_clean hne hw]
      rw [List.flatMap_cons, List.cons_append, words_cons_sep hc] at hrest
      rw [hrest]
      rfl

theorem words_eq_nil_iff {t : Str} : words p t = [] ↔ ∀ c ∈ t, p c = true := by
  constructor
  · intro h c hc
    by_contra hp
    obtain ⟨w, hw, hcw⟩ := exists_mem_splitOnP (by simpa using hp) hc
    have hmem : w ∈ words p t :=
      List.mem_filter.mpr ⟨hw, by simpa using List.ne_nil_of_mem hcw⟩
    rw [h] at hmem
    cases hmem
  · intro h
    by_contra hne
    obtain ⟨w, ws, hw⟩ := List.exists_cons_of_ne_nil hne
    obtain ⟨hwne, hclean, hpart⟩ := mem_words (hw ▸ List.mem_cons_self : w ∈ words p t)
    obtain ⟨c, hc⟩ := List.exists_mem_of_ne_nil w hwne
    have hsep := h c (hpart.subset hc)
    rw [hclean c hc] at hsep
    cases hsep

/-- The first word begins the text once leading separators are dropped. -/
theorem words_head_begins {t w : Str} {ws : List Str} (h : words p t = w :: ws) :
    w <+: t.dropWhile p := by
  induction t with
  | nil => simp at h
  | cons c t ih =>
    cases hc : p c with
    | true =>
      rw [words_cons_sep hc] at h
      rw [List.dropWhile_cons_of_pos hc]
      exact ih h
    | false =>
      obtain ⟨w', ws', hw', hws⟩ := words_cons (t := t) hc
      obtain ⟨ws'', hw''⟩ := splitOnP_head (p := p) t
      rw [hws] at h
      obtain ⟨rfl, -⟩ := List.cons.inj h
      rw [hw', List.cons.injEq] at hw''
      rw [List.dropWhile_cons_of_neg (by simp [hc]), hw''.1]
      exact (List.prefix_cons_inj c).mpr (List.takeWhile_prefix _)

/-- A text that does not begin with a separator begins with its first word. -/
theorem words_takeWhile {c : Char} (hc : p c = false) (t : Str) : words p (c :: t) =
    (c :: t).takeWhile (!p ·) :: words p ((c :: t).dropWhile (!p ·)) := by
  have hne : (c :: t).takeWhile (!p ·) ≠ [] := by simp [hc]
  have hclean : ∀ d ∈ (c :: t).takeWhile (!p ·), p d = false := by
    intro d hd
    simpa using List.mem_takeWhile_imp hd
  conv_lhs => rw [← List.takeWhile_append_dropWhile (p := (!p ·)) (l := c :: t)]
  cases hrest : (c :: t).dropWhile (!p ·) with
  | nil => rw [List.append_nil, words_of_clean hne hclean, words_nil]
  | cons d rest =>
    have hd : p d = true := by
      have hhead := List.head?_dropWhile_not (!p ·) (c :: t)
      rw [hrest] at hhead
      simpa using hhead
    rw [words_append_sep hd, words_cons_sep hd, words_of_clean hne hclean, List.singleton_append]

theorem words_append_left {t : Str} (ht : ∀ c ∈ t, p c = true) (u : Str) :
    words p (t ++ u) = words p u := by
  induction t with
  | nil => rfl
  | cons c t ih =>
    rw [List.cons_append, words_cons_sep (ht c List.mem_cons_self),
      ih fun d hd => ht d (List.mem_cons_of_mem _ hd)]

/-- A set of names kept in one text, each between two separators. -/
def delimit (c : Char) (names : List Str) : Str := names.flatMap fun n => c :: n ++ [c]

theorem words_delimit {c : Char} (hc : p c = true) {names : List Str}
    (hclean : ∀ n ∈ names, n ≠ [] ∧ ∀ d ∈ n, p d = false) : words p (delimit c names) = names := by
  induction names with
  | nil => rfl
  | cons n names ih =>
    obtain ⟨hne, hn⟩ := hclean n List.mem_cons_self
    have hsplit : delimit c (n :: names) = c :: (n ++ c :: delimit c names) := by
      simp [delimit]
    rw [hsplit, words_cons_sep hc, words_append_sep hc, words_of_clean hne hn,
      ih fun m hm => hclean m (List.mem_cons_of_mem _ hm)]
    rfl

/-- Looking a name up by its text, separators included, finds exactly the names of the set. -/
theorem mem_delimit_iff {c : Char} (hc : p c = true) {names : List Str} {n : Str}
    (hclean : ∀ n ∈ names, n ≠ [] ∧ ∀ d ∈ n, p d = false) (hne : n ≠ [])
    (hn : ∀ d ∈ n, p d = false) :
    c :: n ++ [c] <:+: c :: delimit c names ++ [c] ↔ n ∈ names := by
  constructor
  · rintro ⟨pre, post, heq⟩
    have hwords : words p (c :: delimit c names ++ [c]) = names := by
      rw [List.cons_append, words_cons_sep hc, words_append_sep hc, words_delimit hc hclean, words_nil,
        List.append_nil]
    rw [← heq, List.append_assoc, List.append_assoc, List.cons_append, List.singleton_append,
      words_append_sep hc, words_append_sep hc, words_of_clean hne hn] at hwords
    rw [← hwords]
    simp
  · intro hmem
    obtain ⟨pre, post, rfl⟩ := List.append_of_mem hmem
    refine ⟨c :: delimit c pre, delimit c post ++ [c], ?_⟩
    simp [delimit]

/-! ## Trimming -/

/-- The text without separators at its two ends. -/
def trim (p : Char → Bool) (t : Str) : Str := (t.dropWhile p).rdropWhile p

section

variable {q : Char → Bool}

theorem words_dropWhile (hq : ∀ c, q c = true → p c = true) (t : Str) :
    words p (t.dropWhile q) = words p t := by
  induction t with
  | nil => rfl
  | cons c t ih =>
    cases hc : q c with
    | true => rw [List.dropWhile_cons_of_pos hc, ih, words_cons_sep (hq c hc)]
    | false => rw [List.dropWhile_cons_of_neg (by simp [hc])]

theorem words_rdropWhile (hq : ∀ c, q c = true → p c = true) (t : Str) :
    words p (t.rdropWhile q) = words p t := by
  induction t using List.reverseRecOn with
  | nil => rfl
  | append_singleton t c ih =>
    rw [List.rdropWhile_concat]
    split
    · rename_i hc
      rw [ih, words_append_sep (hq c hc), words_nil, List.append_nil]
    · rfl

/-- The first word between the few separators is also the first between the many when it has none
of them in it. -/
theorem words_head_of_subset (hq : ∀ c, q c = true → p c = true) {t w : Str} {ws : List Str}
    (h : words q t = w :: ws) (hw : ∀ c ∈ w, p c = false) : (words p t).head? = some w := by
  rw [← words_dropWhile (fun _ hc => hc) t] at h
  rw [← words_dropWhile hq t]
  cases hu : t.dropWhile q with
  | nil => rw [hu] at h; cases h
  | cons c u =>
    have hc : q c = false := by
      have hhead := List.head?_dropWhile_not q t
      rw [hu] at hhead
      simpa using hhead
    rw [hu, words_takeWhile hc, List.cons.injEq] at h
    have hne : w ≠ [] := by rw [← h.1]; simp [hc]
    rw [← List.takeWhile_append_dropWhile (p := (!q ·)) (l := c :: u), h.1]
    cases hrest : (c :: u).dropWhile (!q ·) with
    | nil => rw [List.append_nil, words_of_clean hne hw]; rfl
    | cons d rest =>
      have hd : q d = true := by
        have hhead := List.head?_dropWhile_not (!q ·) (c :: u)
        rw [hrest] at hhead
        simpa using hhead
      rw [words_append_sep (hq d hd), words_of_clean hne hw]
      rfl

/-- Trimming separators, or only some of them, does not change the words. -/
theorem words_trim (hq : ∀ c, q c = true → p c = true) (t : Str) :
    words p (trim q t) = words p t := by
  rw [trim, words_rdropWhile hq, words_dropWhile hq]

end

theorem trim_eq_nil_iff {t : Str} : trim p t = [] ↔ ∀ c ∈ t, p c = true := by
  rw [trim, List.rdropWhile_eq_nil_iff]
  constructor
  · intro h c hc
    rw [← List.takeWhile_append_dropWhile (p := p) (l := t)] at hc
    rcases List.mem_append.mp hc with hc | hc
    · exact List.mem_takeWhile_imp hc
    · exact h c hc
  · intro h c hc
    exact h c ((List.dropWhile_sublist _).mem hc)

theorem trim_isInfix (t : Str) : trim p t <:+: t :=
  (List.rdropWhile_prefix _ _).isInfix.trans (List.dropWhile_suffix _).isInfix

theorem trim_trim (t : Str) : trim p (trim p t) = trim p t := by
  have hfront : (trim p t).dropWhile p = trim p t := by
    cases hv : trim p t with
    | nil => rfl
    | cons c v =>
      obtain ⟨post, hpost⟩ := List.rdropWhile_prefix p (t.dropWhile p)
      have hhead : (t.dropWhile p).head? = some c := by
        rw [← hpost, ← trim, hv]
        rfl
      have hc := List.head?_dropWhile_not p t
      rw [hhead] at hc
      exact List.dropWhile_cons_of_neg (by simpa using hc)
  rw [trim, hfront, trim]
  exact List.rdropWhile_idempotent ..

theorem not_sep_head_of_trim_eq {t : Str} {c : Char} (h : trim p (c :: t) = c :: t) :
    p c = false := by
  by_contra hc
  rw [Bool.not_eq_false] at hc
  have hlen : (trim p (c :: t)).length ≤ t.length := by
    rw [trim, List.dropWhile_cons_of_pos hc]
    exact (trim_isInfix t).length_le
  rw [h, List.length_cons] at hlen
  omega

theorem not_sep_last_of_trim_eq {t : Str} {c : Char} (h : trim p t = t)
    (hc : t.getLast? = some c) : p c = false := by
  obtain ⟨t', rfl⟩ := List.getLast?_eq_some_iff.mp hc
  have hdrop : (List.dropWhile p (t' ++ [c])).rdropWhile p = t' ++ [c] := h
  have hne : (List.dropWhile p (t' ++ [c])).rdropWhile p ≠ [] := by simp [hdrop]
  have hlast := List.rdropWhile_last_not p _ hne
  simpa [hdrop] using hlast

/-- A text with no separator at its two ends. -/
theorem trim_eq_self_iff {t : Str} :
    trim p t = t ↔ (∀ c, t.head? = some c → p c = false) ∧ ∀ c, t.getLast? = some c → p c = false := by
  constructor
  · intro h
    refine ⟨fun c hc => ?_, fun c hc => not_sep_last_of_trim_eq h hc⟩
    cases t with
    | nil => cases hc
    | cons d t =>
      cases hc
      exact not_sep_head_of_trim_eq h
  · rintro ⟨hhead, hlast⟩
    have hfront : t.dropWhile p = t := by
      cases t with
      | nil => rfl
      | cons c t => exact List.dropWhile_cons_of_neg (by simp [hhead c rfl])
    rw [trim, hfront]
    cases t using List.reverseRecOn with
    | nil => rfl
    | append_singleton t c =>
      rw [List.rdropWhile_concat, if_neg (by simp [hlast c (by simp)])]

section

variable {q : Char → Bool}

/-- Dropping fewer characters stops at the same place when what stands there is kept. -/
theorem dropWhile_eq_of_stop (hq : ∀ c, q c = true → p c = true) {t : Str}
    (h : ∀ c, (t.dropWhile q).head? = some c → p c = false) : t.dropWhile p = t.dropWhile q := by
  induction t with
  | nil => rfl
  | cons c t ih =>
    cases hc : q c with
    | true =>
      rw [List.dropWhile_cons_of_pos hc] at h ⊢
      rw [List.dropWhile_cons_of_pos (hq c hc), ih h]
    | false =>
      have hne : ¬ q c = true := by simp [hc]
      rw [List.dropWhile_cons_of_neg hne] at h ⊢
      rw [List.dropWhile_cons_of_neg (by simp [h c rfl])]

theorem rdropWhile_eq_of_stop (hq : ∀ c, q c = true → p c = true) {t : Str}
    (h : ∀ c, (t.rdropWhile q).getLast? = some c → p c = false) :
    t.rdropWhile p = t.rdropWhile q := by
  have hrev : t.reverse.dropWhile p = t.reverse.dropWhile q := by
    refine dropWhile_eq_of_stop hq fun c hc => h c ?_
    rw [List.rdropWhile, List.getLast?_reverse]
    exact hc
  rw [List.rdropWhile, List.rdropWhile, hrev]

/-- When every word between the few separators has none of the many at its ends, trimming the few
and trimming the many is the same. -/
theorem trim_eq_of_words (hq : ∀ c, q c = true → p c = true) {t : Str}
    (h : ∀ w ∈ words q t, trim p w = w) : trim p t = trim q t := by
  have hfront : t.dropWhile p = t.dropWhile q := by
    refine dropWhile_eq_of_stop hq fun c hc => ?_
    have hcq : q c = false := by
      have := List.head?_dropWhile_not q t
      rw [hc] at this
      simpa using this
    have hsome : words q t ≠ [] := by
      intro hnil
      have hall := words_eq_nil_iff.mp hnil c
        ((List.dropWhile_sublist q).mem (List.mem_of_head? hc))
      rw [hcq] at hall
      cases hall
    obtain ⟨w, ws, hw⟩ := List.exists_cons_of_ne_nil hsome
    have hmem : w ∈ words q t := hw ▸ List.mem_cons_self
    obtain ⟨d, w', rfl⟩ := List.exists_cons_of_ne_nil (mem_words hmem).1
    obtain ⟨post, hpost⟩ := words_head_begins hw
    rw [← hpost, List.cons_append, List.head?_cons] at hc
    rw [← Option.some.inj hc]
    exact not_sep_head_of_trim_eq (h _ hmem)
  rw [trim, trim, hfront]
  refine rdropWhile_eq_of_stop hq fun c hc => ?_
  have hcq : q c = false := by
    obtain ⟨u, hu⟩ := List.getLast?_eq_some_iff.mp hc
    have hne : (t.dropWhile q).rdropWhile q ≠ [] := by simp [hu]
    have := List.rdropWhile_last_not q _ hne
    simpa [hu] using this
  obtain ⟨ws, w, hw, -, hsuffix⟩ := words_append_glue (u := []) hc hcq (by simp)
  have hmem : w ∈ words q t := by
    rw [← words_dropWhile (fun _ h => h) t, ← words_rdropWhile (fun _ h => h) (t.dropWhile q), hw]
    simp
  obtain ⟨pre, hpre⟩ := hsuffix
  have hlast : w.getLast? = some c := by
    rw [← hpre, List.getLast?_append_of_ne_nil _ (mem_words hmem).1] at hc
    exact hc
  exact not_sep_last_of_trim_eq (h w hmem) hlast

end

theorem mem_trim {c : Char} (hc : p c = false) {t : Str} (h : c ∈ t) : c ∈ trim p t := by
  have hkeep : ∀ {u : Str}, c ∈ u → c ∈ u.dropWhile p := by
    intro u hu
    rw [← List.takeWhile_append_dropWhile (p := p) (l := u)] at hu
    rcases List.mem_append.mp hu with hu | hu
    · have := List.mem_takeWhile_imp hu
      rw [hc] at this
      cases this
    · exact hu
  rw [trim, List.rdropWhile, List.mem_reverse]
  exact hkeep (List.mem_reverse.mpr (hkeep h))

@[simp] theorem trim_cons_sep {c : Char} (hc : p c = true) (t : Str) : trim p (c :: t) = trim p t := by
  rw [trim, List.dropWhile_cons_of_pos hc, trim]

/-- Dropping at the end stops at a character that is no separator. -/
theorem rdropWhile_append_cons {c : Char} (hc : p c = false) (s t : Str) :
    (s ++ c :: t).rdropWhile p = s ++ c :: t.rdropWhile p := by
  induction t using List.reverseRecOn with
  | nil =>
    rw [List.rdropWhile_concat, if_neg (by simp [hc])]
    rfl
  | append_singleton t d ih =>
    have hassoc : s ++ c :: (t ++ [d]) = (s ++ c :: t) ++ [d] := by simp
    rw [hassoc, List.rdropWhile_concat, List.rdropWhile_concat]
    split
    · exact ih
    · exact hassoc.symm

theorem trim_rdropWhile (t : Str) : trim p (t.rdropWhile p) = trim p t := by
  induction t using List.reverseRecOn with
  | nil => rfl
  | append_singleton t c ih =>
    cases hc : p c with
    | true =>
      have hend : trim p (t ++ [c]) = trim p t := by
        rw [trim, trim, List.dropWhile_append]
        split
        · rename_i hnil
          rw [List.isEmpty_iff] at hnil
          simp [hnil, hc]
        · rw [List.rdropWhile_concat, if_pos hc]
      rw [List.rdropWhile_concat, if_pos hc, ih, hend]
    | false => rw [List.rdropWhile_concat, if_neg (by simp [hc])]

/-- A text without separators, at the end of a line. -/
theorem trim_line {c : Char} {t : Str} (hc : p c = true) (ht : ∀ d ∈ t, p d = false) :
    trim p (t ++ [c]) = t := by
  rw [← trim_rdropWhile, List.rdropWhile_concat, if_pos hc, trim_rdropWhile, trim_eq_self_iff]
  exact ⟨fun d hd => ht d (List.mem_of_head? hd), fun d hd => ht d (List.mem_of_getLast? hd)⟩

theorem prefix_rdropWhile {w : Str} (h : ∀ c ∈ w, p c = false) :
    ∀ {t : Str}, w <+: t → w <+: t.rdropWhile p := by
  intro t
  induction t using List.reverseRecOn with
  | nil => intro hw; simpa using hw
  | append_singleton t c ih =>
    intro hw
    rw [List.rdropWhile_concat]
    split
    · rename_i hc
      rcases List.prefix_concat_iff.mp hw with rfl | hw
      · rw [h c (by simp)] at hc; cases hc
      · exact ih hw
    · exact hw

/-- The first word of a text begins the trimmed text. -/
theorem words_head_trim {t w : Str} {ws : List Str} (h : words p t = w :: ws) :
    w <+: trim p t :=
  prefix_rdropWhile (mem_words (h ▸ List.mem_cons_self)).2.1 (words_head_begins h)

end Text
