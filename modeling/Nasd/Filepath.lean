import Nasd.Go

/-!
# Nasd.Filepath

Package `path/filepath` on Unix, as `nasd` uses it. All of it works on the text of a path alone.

* `Clean_absPath`, `Dir_absPath`, `Base_absPath`, `Join_names` — a clean absolute path by its names.
* `exists_absPath` — what `Clean` makes of a rooted path.
* `Dir_shorter`    — going up from a path ends.
-/

namespace Nasd
namespace Filepath

open Text Go

/-! ## Clean -/

/-- One element of a path, on the elements kept so far, the last one first. -/
def pushPart (rooted : Bool) (kept : List Str) (part : Str) : List Str :=
  if part = [] ∨ part = "." then kept
  else if part = ".." then
    match kept with
    | [] => if rooted then [] else [part]
    | top :: rest => if top = ".." then part :: kept else rest
  else part :: kept

@[simp] theorem pushPart_nil (rooted : Bool) (kept : List Str) : pushPart rooted kept [] = kept :=
  if_pos (.inl rfl)

def cleanParts (rooted : Bool) (path : Str) : List Str :=
  ((path.splitOn '/').foldl (pushPart rooted) []).reverse

def Clean (path : Str) : Str :=
  if HasPrefix path "/" then '/' :: Go.Join (cleanParts true path) "/"
  else if cleanParts false path = [] then "."
  else Go.Join (cleanParts false path) "/"

/-- All but the last element. -/
def Dir (path : Str) : Str := Clean (path.rdropWhile (· ≠ '/'))

/-- The last element, trailing slashes dropped. -/
def Base (path : Str) : Str :=
  if path = [] then "."
  else if path.rdropWhile (· = '/') = [] then "/"
  else (path.rdropWhile (· = '/')).rtakeWhile (· ≠ '/')

def Join (elems : List Str) : Str :=
  match elems.dropWhile (· = []) with
  | [] => []
  | es => Clean (Go.Join es "/")

/-! ## Length -/

/-- The length of the elements, each with the slash after it. -/
def weight : List Str → Nat
  | [] => 0
  | p :: ps => p.length + 1 + weight ps

@[simp] theorem weight_nil : weight [] = 0 := rfl
@[simp] theorem weight_cons (p : Str) (ps : List Str) :
    weight (p :: ps) = p.length + 1 + weight ps := rfl

theorem weight_append (ps qs : List Str) : weight (ps ++ qs) = weight ps + weight qs := by
  induction ps with
  | nil => simp
  | cons p ps ih =>
    rw [List.cons_append, weight_cons, weight_cons, ih]
    omega

theorem weight_reverse (ps : List Str) : weight ps.reverse = weight ps := by
  induction ps with
  | nil => rfl
  | cons p ps ih =>
    rw [List.reverse_cons, weight_append, weight_cons, weight_cons, weight_nil, ih]
    omega

theorem length_join (ps : List Str) (hne : ps ≠ []) : (Go.Join ps "/").length + 1 = weight ps := by
  induction ps with
  | nil => exact absurd rfl hne
  | cons p ps ih =>
    cases ps with
    | nil => simp
    | cons q qs =>
      have hq := ih (List.cons_ne_nil _ _)
      rw [Join_cons_cons, weight_cons, ← hq]
      simp
      omega

theorem weight_splitOn (path : Str) : weight (path.splitOn '/') = path.length + 1 := by
  have hjoin : Go.Join (path.splitOn '/') "/" = path := List.intercalate_splitOn _
  rw [← length_join _ (List.splitOn_ne_nil _ _), hjoin]

theorem weight_pushPart (rooted : Bool) (kept : List Str) (part : Str) :
    weight (pushPart rooted kept part) ≤ weight kept + (part.length + 1) := by
  unfold pushPart
  split
  · omega
  · split
    · cases kept with
      | nil => cases rooted <;> simp
      | cons top rest =>
        dsimp only
        split <;> simp only [weight_cons] <;> omega
    · simp only [weight_cons]; omega

theorem weight_foldl (rooted : Bool) (parts : List Str) : ∀ kept,
    weight (parts.foldl (pushPart rooted) kept) ≤ weight kept + weight parts := by
  induction parts with
  | nil => intro kept; simp
  | cons p ps ih =>
    intro kept
    have hp := weight_pushPart rooted kept p
    have hps := ih (pushPart rooted kept p)
    simp only [List.foldl_cons, weight_cons]
    omega

theorem length_Clean {path : Str} (hne : path ≠ []) : (Clean path).length ≤ path.length := by
  have hpos : 0 < path.length := List.length_pos_iff.mpr hne
  unfold Clean
  split
  · rename_i hroot
    obtain ⟨rest, rfl⟩ := HasPrefix_iff.mp hroot
    have hsplit : (("/" : Str) ++ rest).splitOn '/' = [] :: rest.splitOn '/' :=
      List.splitOn_append_cons_self [] rest
    have hparts : weight (cleanParts true (("/" : Str) ++ rest)) ≤ weight (rest.splitOn '/') := by
      have hfold := weight_foldl true (rest.splitOn '/') []
      rw [cleanParts, weight_reverse, hsplit, List.foldl_cons]
      simpa using hfold
    rw [weight_splitOn] at hparts
    by_cases hnil : cleanParts true (("/" : Str) ++ rest) = []
    · rw [hnil]; simp
    · have hlen := length_join _ hnil
      simp only [List.length_cons, List.length_append]
      have hone : ("/" : Str).length = 1 := rfl
      omega
  · split
    · exact hpos
    · rename_i hnil
      have hlen := length_join _ hnil
      have hfold := weight_foldl false (path.splitOn '/') []
      rw [weight_splitOn] at hfold
      rw [cleanParts, weight_reverse] at hlen
      simp only [weight_nil] at hfold
      rw [cleanParts]
      omega

theorem Clean_append_slash {path : Str} (hne : path ≠ []) : Clean (path ++ ['/']) = Clean path := by
  have hsplit : (path ++ ['/']).splitOn '/' = path.splitOn '/' ++ [[]] :=
    List.splitOn_append_cons_self path []
  have hparts : ∀ rooted, cleanParts rooted (path ++ ['/']) = cleanParts rooted path := by
    intro rooted
    rw [cleanParts, hsplit, List.foldl_append, cleanParts]
    rfl
  have hroot : HasPrefix (path ++ ['/']) "/" = HasPrefix path "/" := by
    cases path with
    | nil => exact absurd rfl hne
    | cons c path => rfl
  rw [Clean, hroot, hparts, hparts, Clean]

/-- The part of a path up to its last slash. -/
theorem upToSlash_cases (path : Str) :
    path.rdropWhile (· ≠ '/') = [] ∨ ∃ q, path.rdropWhile (· ≠ '/') = q ++ ['/'] := by
  by_cases hnil : path.rdropWhile (· ≠ '/') = []
  · exact .inl hnil
  · right
    have hlast := List.rdropWhile_last_not (fun c => decide (c ≠ '/')) path hnil
    refine ⟨(path.rdropWhile (· ≠ '/')).dropLast, ?_⟩
    conv_lhs => rw [← List.dropLast_append_getLast hnil]
    simpa using hlast

/-- Going up from a path reaches the root or the working directory. -/
theorem Dir_shorter {path : Str} (hroot : path ≠ "/") :
    Dir path = "." ∨ (Dir path).length < path.length := by
  have hpre : (path.rdropWhile (· ≠ '/')).length ≤ path.length :=
    (List.rdropWhile_prefix _ _).length_le
  unfold Dir
  rcases upToSlash_cases path with hnil | ⟨q, hq⟩
  · left; rw [hnil]; rfl
  · right
    rw [hq, List.length_append, List.length_singleton] at hpre
    rw [hq]
    by_cases hqnil : q = []
    · rw [hqnil, List.nil_append] at hq ⊢
      have hone : (Clean ['/']).length = 1 := rfl
      have hne : path.length ≠ 1 := by
        intro hlen
        obtain ⟨c, rfl⟩ := List.length_eq_one_iff.mp hlen
        have hc : ['/'] <+: [c] := hq ▸ List.rdropWhile_prefix _ _
        exact hroot (List.IsPrefix.eq_of_length hc rfl).symm
      rw [hqnil, List.length_nil] at hpre
      omega
    · rw [Clean_append_slash hqnil]
      have := length_Clean hqnil
      omega

/-! ## Clean absolute paths -/

/-- The name of an entry of a directory. -/
def IsName (n : Str) : Prop := n ≠ [] ∧ '/' ∉ n ∧ n ≠ "." ∧ n ≠ ".."

instance (n : Str) : Decidable (IsName n) := inferInstanceAs (Decidable (_ ∧ _ ∧ _ ∧ _))

/-- The path from the root through these directories. -/
def absPath (names : List Str) : Str := '/' :: Go.Join names "/"

@[simp] theorem absPath_nil : absPath [] = "/" := rfl

theorem absPath_cons (n : Str) (ns : List Str) :
    absPath (n :: ns) = '/' :: n ++ (if ns = [] then [] else absPath ns) := by
  cases ns with
  | nil => simp [absPath]
  | cons m ms => simp [absPath, Join_cons_cons]

theorem absPath_append {ns ms : List Str} (hns : ns ≠ []) (hms : ms ≠ []) :
    absPath (ns ++ ms) = absPath ns ++ absPath ms := by
  induction ns with
  | nil => exact absurd rfl hns
  | cons n ns ih =>
    rw [List.cons_append, absPath_cons, absPath_cons, if_neg (by simp [hms])]
    by_cases hnil : ns = []
    · subst hnil; simp
    · rw [ih hnil, if_neg hnil]; simp

theorem absPath_concat {ns : List Str} (hne : ns ≠ []) (n : Str) :
    absPath (ns ++ [n]) = absPath ns ++ '/' :: n := by
  rw [absPath_append hne (List.cons_ne_nil _ _), absPath, absPath, Join_singleton]

theorem splitOn_absPath {ns : List Str} (hne : ns ≠ []) (h : ∀ n ∈ ns, '/' ∉ n) :
    (absPath ns).splitOn '/' = [] :: ns := by
  have hsplit : (absPath ns).splitOn '/' = [] :: (Go.Join ns "/").splitOn '/' :=
    List.splitOn_append_cons_self [] _
  rw [hsplit]
  exact congrArg _ (List.splitOn_intercalate _ h hne)

theorem pushPart_name {rooted : Bool} {kept : List Str} {n : Str} (h : IsName n) :
    pushPart rooted kept n = n :: kept := by
  obtain ⟨hne, -, hdot, hup⟩ := h
  unfold pushPart
  rw [if_neg (not_or.mpr ⟨hne, hdot⟩), if_neg hup]

theorem foldl_names {rooted : Bool} {ns : List Str} (h : ∀ n ∈ ns, IsName n) : ∀ kept,
    ns.foldl (pushPart rooted) kept = ns.reverse ++ kept := by
  induction ns with
  | nil => intro kept; rfl
  | cons n ns ih =>
    intro kept
    rw [List.foldl_cons, pushPart_name (h n List.mem_cons_self),
      ih fun m hm => h m (List.mem_cons_of_mem _ hm)]
    simp

theorem cleanParts_absPath {ns : List Str} (h : ∀ n ∈ ns, IsName n) :
    cleanParts true (absPath ns) = ns := by
  by_cases hne : ns = []
  · subst hne; rfl
  · rw [cleanParts, splitOn_absPath hne fun n hn => (h n hn).2.1, List.foldl_cons, pushPart_nil,
      foldl_names h]
    simp

theorem Clean_rooted {path : Str} (h : HasPrefix path "/" = true) :
    Clean path = absPath (cleanParts true path) := if_pos h

theorem absPath_rooted (ns : List Str) : HasPrefix (absPath ns) "/" = true := rfl

theorem Clean_absPath {ns : List Str} (h : ∀ n ∈ ns, IsName n) : Clean (absPath ns) = absPath ns := by
  rw [Clean_rooted (absPath_rooted ns), cleanParts_absPath h]

/-- An element can only be a name, or take the last name away. -/
theorem pushPart_names {kept : List Str} {part : Str} (hkept : ∀ n ∈ kept, IsName n)
    (hpart : '/' ∉ part) : ∀ n ∈ pushPart true kept part, IsName n := by
  intro n hn
  unfold pushPart at hn
  split at hn
  · exact hkept n hn
  · rename_i hsome
    split at hn
    · cases kept with
      | nil => cases hn
      | cons top rest =>
        dsimp only at hn
        split at hn
        · rename_i htop
          exact absurd htop (hkept top List.mem_cons_self).2.2.2
        · exact hkept n (List.mem_cons_of_mem _ hn)
    · rename_i hup
      rcases List.mem_cons.mp hn with rfl | hn
      · exact ⟨fun h => hsome (.inl h), hpart, fun h => hsome (.inr h), hup⟩
      · exact hkept n hn

theorem foldl_pushPart_names {parts : List Str} (hparts : ∀ p ∈ parts, '/' ∉ p) : ∀ {kept : List Str},
    (∀ n ∈ kept, IsName n) → ∀ n ∈ parts.foldl (pushPart true) kept, IsName n := by
  induction parts with
  | nil => intro kept hkept; exact hkept
  | cons p ps ih =>
    intro kept hkept
    exact ih (fun q hq => hparts q (List.mem_cons_of_mem _ hq))
      (pushPart_names hkept (hparts p List.mem_cons_self))

theorem slash_not_mem_of_mem_splitOn {path p : Str} (h : p ∈ path.splitOn '/') : '/' ∉ p := by
  rw [List.splitOn_eq_splitOnP] at h
  intro hc
  simpa using (mem_splitOnP h).1 _ hc

theorem cleanParts_names (path : Str) : ∀ n ∈ cleanParts true path, IsName n := by
  intro n hn
  rw [cleanParts, List.mem_reverse] at hn
  exact foldl_pushPart_names (fun p => slash_not_mem_of_mem_splitOn) (by simp) n hn

/-- The elements kept are pieces of the path. -/
theorem mem_foldl_pushPart {rooted : Bool} {parts : List Str} {n : Str} : ∀ {kept : List Str},
    n ∈ parts.foldl (pushPart rooted) kept → n ∈ kept ∨ n ∈ parts := by
  have hpush : ∀ {kept : List Str} {p : Str}, n ∈ pushPart rooted kept p → n ∈ kept ∨ n = p := by
    intro kept p hn
    unfold pushPart at hn
    split at hn
    · exact .inl hn
    · split at hn
      · cases kept with
        | nil =>
          cases rooted with
          | true => cases hn
          | false => exact .inr (List.mem_singleton.mp hn)
        | cons top rest =>
          dsimp only at hn
          split at hn
          · exact (List.mem_cons.mp hn).symm
          · exact .inl (List.mem_cons_of_mem _ hn)
      · exact (List.mem_cons.mp hn).symm
  induction parts with
  | nil => intro kept hn; exact .inl hn
  | cons p ps ih =>
    intro kept hn
    rcases ih hn with hn | hn
    · rcases hpush hn with hn | rfl
      · exact .inl hn
      · exact .inr List.mem_cons_self
    · exact .inr (List.mem_cons_of_mem _ hn)

/-- `Clean` adds no character to a rooted path. -/
theorem mem_of_mem_Clean {path : Str} {c : Char} (h : HasPrefix path "/" = true)
    (hc : c ∈ Clean path) : c ∈ path := by
  have hslash : '/' ∈ path := (HasPrefix_iff.mp h).subset List.mem_cons_self
  rw [Clean_rooted h, absPath] at hc
  rcases List.mem_cons.mp hc with rfl | hc
  · exact hslash
  · rcases mem_Join hc with ⟨n, hn, hcn⟩ | hc
    · rw [cleanParts, List.mem_reverse] at hn
      rcases mem_foldl_pushPart hn with hn | hn
      · cases hn
      · rw [List.splitOn_eq_splitOnP] at hn
        exact (mem_splitOnP hn).2.subset hcn
    · rw [List.mem_singleton.mp hc]
      exact hslash

/-- `Clean` gives the path of some names. -/
theorem exists_absPath {path : Str} (h : HasPrefix path "/" = true) :
    ∃ ns, (∀ n ∈ ns, IsName n) ∧ Clean path = absPath ns :=
  ⟨cleanParts true path, cleanParts_names path, Clean_rooted h⟩

theorem upToSlash_append (q : Str) {n : Str} (h : '/' ∉ n) :
    (q ++ '/' :: n).rdropWhile (· ≠ '/') = q ++ ['/'] := by
  have hsplit : q ++ '/' :: n = (q ++ ['/']) ++ n := by simp
  have hname : ∀ c ∈ n.reverse, decide (c ≠ '/') = true := by
    intro c hc
    rw [decide_eq_true_eq]
    rintro rfl
    exact h (List.mem_reverse.mp hc)
  rw [hsplit, List.rdropWhile, List.reverse_append, List.dropWhile_append_of_pos hname]
  simp

theorem upToSlash_absPath {ns : List Str} {n : Str} (h : '/' ∉ n) :
    (absPath (ns ++ [n])).rdropWhile (· ≠ '/') = absPath ns ++ (if ns = [] then [] else ['/']) := by
  by_cases hne : ns = []
  · subst hne
    have hroot : absPath ([] ++ [n]) = [] ++ '/' :: n := by simp [absPath]
    rw [hroot, upToSlash_append [] h]
    rfl
  · rw [absPath_concat hne, upToSlash_append _ h, if_neg hne]

theorem Dir_absPath {ns : List Str} {n : Str} (h : ∀ m ∈ ns, IsName m) (hn : '/' ∉ n) :
    Dir (absPath (ns ++ [n])) = absPath ns := by
  have hne : absPath ns ≠ [] := List.cons_ne_nil _ _
  rw [Dir, upToSlash_absPath hn]
  split
  · rw [List.append_nil, Clean_absPath h]
  · rw [Clean_append_slash hne, Clean_absPath h]

@[simp] theorem Dir_root : Dir "/" = "/" := rfl

theorem Base_append (q : Str) {n : Str} (h : IsName n) : Base (q ++ '/' :: n) = n := by
  obtain ⟨hne, hslash, -, -⟩ := h
  have hend : (q ++ '/' :: n).rdropWhile (· = '/') = q ++ '/' :: n := by
    rw [List.rdropWhile_eq_self_iff]
    intro hnil
    obtain ⟨c, cs, rfl⟩ := List.exists_cons_of_ne_nil hne
    have hlast : (q ++ '/' :: c :: cs).getLast hnil = (c :: cs).getLast (List.cons_ne_nil _ _) := by
      simp
    rw [hlast, decide_eq_true_eq]
    intro heq
    exact hslash (heq ▸ List.getLast_mem _)
  have hname : ∀ c ∈ n.reverse, decide (c ≠ '/') = true := by
    intro c hc
    rw [decide_eq_true_eq]
    rintro rfl
    exact hslash (List.mem_reverse.mp hc)
  have hnonempty : q ++ '/' :: n ≠ [] := by simp
  rw [Base, if_neg hnonempty, hend, if_neg hnonempty, List.rtakeWhile, List.reverse_append,
    List.reverse_cons, List.append_assoc, List.takeWhile_append_of_pos hname]
  simp

/-- The last element of a path is one element. -/
theorem Base_cases (path : Str) :
    Base path = "/" ∨ Base path = "." ∨ Base path = ".." ∨ IsName (Base path) := by
  by_cases hpath : path = []
  · right; left
    exact if_pos hpath
  · by_cases hend : path.rdropWhile (· = '/') = []
    · left
      rw [Base, if_neg hpath, if_pos hend]
    · right
      have hbase : Base path = (path.rdropWhile (· = '/')).rtakeWhile (· ≠ '/') := by
        rw [Base, if_neg hpath, if_neg hend]
      have hslash : '/' ∉ Base path := by
        intro hmem
        rw [hbase] at hmem
        simpa using List.mem_rtakeWhile_imp hmem
      have hne : Base path ≠ [] := by
        rw [hbase]
        intro hnil
        have hlast := List.rtakeWhile_eq_nil_iff.mp hnil hend
        have hnot := List.rdropWhile_last_not (fun c => decide (c = '/')) path hend
        simp only [decide_eq_true_eq, not_not] at hlast hnot
        exact hnot hlast
      by_cases hdot : Base path = "."
      · exact .inl hdot
      · by_cases hup : Base path = ".."
        · exact .inr (.inl hup)
        · exact .inr (.inr ⟨hne, hslash, hdot, hup⟩)

theorem Base_absPath {ns : List Str} {n : Str} (h : IsName n) : Base (absPath (ns ++ [n])) = n := by
  by_cases hns : ns = []
  · subst hns
    have hroot : absPath ([] ++ [n]) = [] ++ '/' :: n := by simp [absPath]
    rw [hroot, Base_append [] h]
  · rw [absPath_concat hns, Base_append _ h]

/-- The names of a path that goes on after a clean one. -/
theorem cleanParts_append {ns : List Str} (h : ∀ n ∈ ns, IsName n) (q : Str) :
    cleanParts true (absPath ns ++ '/' :: q) =
      ((q.splitOn '/').foldl (pushPart true) ns.reverse).reverse := by
  have hsplit : (absPath ns ++ '/' :: q).splitOn '/' =
      (absPath ns).splitOn '/' ++ q.splitOn '/' := List.splitOn_append_cons_self _ _
  have hfold : ((absPath ns).splitOn '/').foldl (pushPart true) [] = ns.reverse := by
    have hparts := cleanParts_absPath h
    rw [cleanParts, List.reverse_eq_iff] at hparts
    exact hparts
  rw [cleanParts, hsplit, List.foldl_append, hfold]

theorem Join_absPath {ns ms : List Str} (hns : ∀ n ∈ ns, IsName n) (hms : ∀ m ∈ ms, IsName m) :
    Join [absPath ns, absPath ms] = absPath (ns ++ ms) := by
  have hjoin : Join [absPath ns, absPath ms] = Clean (absPath ns ++ '/' :: absPath ms) := by
    have hdrop : [absPath ns, absPath ms].dropWhile (· = []) = [absPath ns, absPath ms] :=
      List.dropWhile_cons_of_neg (by simp [absPath])
    rw [Join, hdrop]
    simp only [Join_cons_cons, Join_singleton]
    rfl
  have hfold : ((absPath ms).splitOn '/').foldl (pushPart true) ns.reverse =
      ms.reverse ++ ns.reverse := by
    by_cases hnil : ms = []
    · subst hnil; rfl
    · rw [splitOn_absPath hnil fun m hm => (hms m hm).2.1, List.foldl_cons, pushPart_nil,
        foldl_names hms]
  rw [hjoin, Clean_rooted rfl, cleanParts_append hns, hfold]
  simp

theorem Join_one (ns : List Str) : Join [absPath ns] = Clean (absPath ns) := by
  have hdrop : [absPath ns].dropWhile (· = []) = [absPath ns] :=
    List.dropWhile_cons_of_neg (by simp [absPath])
  rw [Join, hdrop]
  simp only [Join_singleton]

theorem Join_names {ns ms : List Str} (hns : ∀ n ∈ ns, IsName n) (hms : ∀ m ∈ ms, IsName m)
    (hne : ms ≠ []) : Join (absPath ns :: ms) = absPath (ns ++ ms) := by
  have hjoin : Join (absPath ns :: ms) = Clean (absPath ns ++ '/' :: Go.Join ms "/") := by
    obtain ⟨m, ms, rfl⟩ := List.exists_cons_of_ne_nil hne
    have hdrop : (absPath ns :: m :: ms).dropWhile (· = []) = absPath ns :: m :: ms :=
      List.dropWhile_cons_of_neg (by simp [absPath])
    rw [Join, hdrop]
    simp only [Join_cons_cons]
    rfl
  have hsplit : (Go.Join ms "/").splitOn '/' = ms :=
    List.splitOn_intercalate _ (fun m hm => (hms m hm).2.1) hne
  rw [hjoin, Clean_rooted rfl, cleanParts_append hns, hsplit, foldl_names hms]
  simp

end Filepath
end Nasd
