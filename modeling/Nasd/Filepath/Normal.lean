import Nasd.Filepath

/-!
# Nasd.Filepath.Normal

Where a path leads, component by component: `.` and an empty component stay, `..` goes up and stays
at the top, anything else goes down. `Clean` does the same on the text, for a path from the root as
for a relative one, where a `..` at the top is kept until a root is put before it.

* `cleanParts_rooted`, `cleanParts_unrooted` — the two ways of cleaning differ in the `..` at the
  top alone.
* `normalised_Clean`, `normalised_Join`      — cleaning a path, and a path with a name behind it.
* `exists_last`                              — a path by its last component.
-/

namespace Nasd
namespace Filepath

open Text Go

variable {name : Str} {ns kept parts : List Str}

/-! ## Components -/

/-- One component of a request, in the directory that the ones before it lead to. -/
def descend (kept : List Str) (part : Str) : List Str :=
  if part = [] ∨ part = "." then kept else if part = ".." then kept.dropLast else kept ++ [part]

def normalised (rel : Str) : List Str := (rel.splitOn '/').foldl descend []

theorem pushPart_descend (hkept : ∀ n ∈ kept, IsName n) (part : Str) :
    (pushPart true kept part).reverse = descend kept.reverse part := by
  unfold pushPart descend
  split
  · rfl
  · split
    · cases kept with
      | nil => rfl
      | cons top rest =>
        have htop : top ≠ ".." := (hkept top List.mem_cons_self).2.2.2
        dsimp only
        rw [if_neg htop, List.reverse_cons, List.dropLast_concat]
    · rw [List.reverse_cons]

theorem foldl_descend (hparts : ∀ p ∈ parts, '/' ∉ p) (hkept : ∀ n ∈ kept, IsName n) :
    (parts.foldl (pushPart true) kept).reverse = parts.foldl descend kept.reverse := by
  induction parts generalizing kept with
  | nil => rfl
  | cons p ps ih =>
    rw [List.foldl_cons, List.foldl_cons, ← pushPart_descend hkept]
    exact ih (fun q hq => hparts q (List.mem_cons_of_mem _ hq))
      (pushPart_names hkept (hparts p List.mem_cons_self))

theorem cleanParts_rooted (s : Str) : cleanParts true s = normalised s :=
  foldl_descend (fun _ => slash_not_mem_of_mem_splitOn) (by simp)

theorem normalised_names (s : Str) : ∀ n ∈ normalised s, IsName n :=
  cleanParts_rooted s ▸ cleanParts_names s

theorem normalised_absPath (h : ∀ n ∈ ns, IsName n) : normalised (absPath ns) = ns := by
  rw [← cleanParts_rooted, cleanParts_absPath h]

theorem normalised_append (s t : Str) :
    normalised (s ++ '/' :: t) = (t.splitOn '/').foldl descend (normalised s) := by
  have hsplit : (s ++ '/' :: t).splitOn '/' = s.splitOn '/' ++ t.splitOn '/' :=
    List.splitOn_append_cons_self s t
  rw [normalised, hsplit, List.foldl_append, normalised]

theorem descend_name (h : IsName name) (kept : List Str) : descend kept name = kept ++ [name] := by
  rw [descend, if_neg (not_or.mpr ⟨h.1, h.2.2.1⟩), if_neg h.2.2.2]

theorem splitOn_name (h : IsName name) : name.splitOn '/' = [name] :=
  List.splitOn_eq_singleton h.2.1

/-! ## Relative paths -/

/-- What a relative path comes to: up some directories, and down along names. -/
structure Climbs (kept : List Str) (ns : List Str) (k : Nat) : Prop where
  eq : kept = ns ++ List.replicate k (".." : Str)
  names : ∀ n ∈ ns, IsName n

/-- A step on a relative path is the one on a rooted path, which has no `..` at its top. -/
theorem Climbs.push {k : Nat} (h : Climbs kept ns k) {part : Str} (hpart : '/' ∉ part) :
    ∃ k', Climbs (pushPart false kept part) (pushPart true ns part) k' := by
  obtain ⟨rfl, hns⟩ := h
  have hnames := pushPart_names hns hpart
  unfold pushPart at hnames ⊢
  by_cases hstay : part = [] ∨ part = "."
  · simp only [if_pos hstay] at hnames ⊢
    exact ⟨k, rfl, hns⟩
  · by_cases hup : part = ".."
    · simp only [if_neg hstay, if_pos hup] at hnames ⊢
      cases ns with
      | nil =>
        refine ⟨k + 1, ?_, by simp⟩
        cases k with
        | zero => rw [hup]; rfl
        | succ k => rw [hup]; rfl
      | cons top rest =>
        have htop : top ≠ ".." := (hns top List.mem_cons_self).2.2.2
        simp only [List.cons_append, if_neg htop]
        exact ⟨k, rfl, fun n hn => hns n (List.mem_cons_of_mem _ hn)⟩
    · simp only [if_neg hstay, if_neg hup] at hnames ⊢
      exact ⟨k, rfl, hnames⟩

theorem Climbs.foldl (hparts : ∀ p ∈ parts, '/' ∉ p) : ∀ {kept ns : List Str} {k : Nat},
    Climbs kept ns k →
      ∃ k', Climbs (parts.foldl (pushPart false) kept) (parts.foldl (pushPart true) ns) k' := by
  induction parts with
  | nil => exact fun h => ⟨_, h⟩
  | cons p ps ih =>
    intro kept ns k h
    obtain ⟨k', hpush⟩ := h.push (hparts p List.mem_cons_self)
    exact ih (fun q hq => hparts q (List.mem_cons_of_mem _ hq)) hpush

/-- A relative path is cleaned to the same names, behind as many `..` as it climbs. -/
theorem cleanParts_unrooted (s : Str) :
    ∃ k, cleanParts false s = List.replicate k (".." : Str) ++ normalised s := by
  have hstart : Climbs [] [] 0 := ⟨rfl, by simp⟩
  have hslash : ∀ p ∈ s.splitOn '/', '/' ∉ p := fun _ => slash_not_mem_of_mem_splitOn
  obtain ⟨k, h⟩ := hstart.foldl hslash
  refine ⟨k, ?_⟩
  rw [cleanParts, h.eq, List.reverse_append, List.reverse_replicate, ← cleanParts_rooted,
    cleanParts]

theorem foldl_up (k : Nat) : (List.replicate k (".." : Str)).foldl descend [] = [] := by
  induction k with
  | zero => rfl
  | succ k ih => rw [List.replicate_succ, List.foldl_cons]; exact ih

theorem foldl_down (h : ∀ n ∈ ns, IsName n) : ∀ kept, ns.foldl descend kept = kept ++ ns := by
  induction ns with
  | nil => intro kept; simp
  | cons n ns ih =>
    intro kept
    rw [List.foldl_cons, descend_name (h n List.mem_cons_self),
      ih fun m hm => h m (List.mem_cons_of_mem _ hm), List.append_assoc]
    rfl

/-- Cleaning a path does not change where it leads from the root. -/
theorem normalised_Clean (s : Str) : normalised (Clean s) = normalised s := by
  cases hroot : HasPrefix s "/" with
  | true =>
    rw [Clean_rooted hroot, cleanParts_rooted, normalised_absPath (normalised_names s)]
  | false =>
    obtain ⟨k, hparts⟩ := cleanParts_unrooted s
    rw [Clean, hroot, if_neg Bool.false_ne_true]
    split
    · rename_i hnil
      rw [hparts, List.append_eq_nil_iff] at hnil
      rw [hnil.2]
      rfl
    · rename_i hne
      have hslash : ∀ p ∈ cleanParts false s, '/' ∉ p := by
        intro p hp
        rw [hparts] at hp
        rcases List.mem_append.mp hp with hp | hp
        · rw [List.eq_of_mem_replicate hp]
          decide
        · exact (normalised_names s p hp).2.1
      have hsplit : (Go.Join (cleanParts false s) "/").splitOn '/' = cleanParts false s :=
        List.splitOn_intercalate _ hslash hne
      rw [normalised, hsplit, hparts, List.foldl_append, foldl_up,
        foldl_down (normalised_names s)]
      rfl

/-- A path with more behind it leads on from where it leads. -/
theorem normalised_Join_append {more : Str} (hmore : more ≠ []) (rel : Str) :
    normalised (Join [rel, more]) = (more.splitOn '/').foldl descend (normalised rel) := by
  by_cases hrel : rel = []
  · subst hrel
    have hdrop : [[], more].dropWhile (· = []) = [more] := by
      rw [List.dropWhile_cons_of_pos (by simp), List.dropWhile_cons_of_neg (by simpa using hmore)]
    rw [Join, hdrop]
    simp only [Join_singleton]
    rw [normalised_Clean]
    rfl
  · have hdrop : [rel, more].dropWhile (· = []) = [rel, more] :=
      List.dropWhile_cons_of_neg (by simpa using hrel)
    rw [Join, hdrop]
    simp only [Join_cons_cons, Join_singleton]
    rw [normalised_Clean]
    exact normalised_append rel more

/-- The path of a child leads one name further. -/
theorem normalised_Join (hname : IsName name) (rel : Str) :
    normalised (Join [rel, name]) = normalised rel ++ [name] := by
  rw [normalised_Join_append hname.1, splitOn_name hname]
  exact descend_name hname _

theorem normalised_Join_here (rel : Str) : normalised (Join [rel, "."]) = normalised rel :=
  normalised_Join_append (by decide) rel

theorem normalised_Join_slash (rel : Str) : normalised (Join [rel, "/"]) = normalised rel :=
  normalised_Join_append (by decide) rel

theorem normalised_Join_up (rel : Str) :
    normalised (Join [rel, ".."]) = (normalised rel).dropLast :=
  normalised_Join_append (by decide) rel

/-- The path of a child of a rooted path. -/
theorem Join_rooted {path : Str} (habs : HasPrefix path "/" = true) (hname : IsName name) :
    Join [path, name] = absPath (normalised path ++ [name]) := by
  have hne : path ≠ [] := by
    rintro rfl
    cases habs
  have hdrop : [path, name].dropWhile (· = []) = [path, name] :=
    List.dropWhile_cons_of_neg (by simpa using hne)
  have hrooted : HasPrefix (path ++ '/' :: name) "/" = true := by
    rw [HasPrefix_iff] at habs ⊢
    exact habs.trans (List.prefix_append _ _)
  have hjoin : Join [path, name] = Clean (path ++ '/' :: name) := by
    rw [Join, hdrop]
    simp only [Join_cons_cons, Join_singleton]
    rfl
  rw [hjoin, Clean_rooted hrooted, cleanParts_rooted, normalised_append, splitOn_name hname]
  exact congrArg absPath (descend_name hname _)

/-- A rooted path by its last component. -/
theorem exists_last {path : Str} (habs : HasPrefix path "/" = true) :
    ∃ q last, path = q ++ '/' :: last ∧ '/' ∉ last := by
  have hslash : '/' ∈ path := (HasPrefix_iff.mp habs).subset List.mem_cons_self
  rcases upToSlash_cases path with hnil | ⟨q, hq⟩
  · have hall := List.rdropWhile_eq_nil_iff.mp hnil '/' hslash
    simp at hall
  · refine ⟨q, path.rtakeWhile (· ≠ '/'), ?_, ?_⟩
    · have hparts : path.rdropWhile (· ≠ '/') ++ path.rtakeWhile (· ≠ '/') = path :=
        List.rdropWhile_append_rtakeWhile
      rw [hq, List.append_assoc] at hparts
      exact hparts.symm
    · intro hmem
      simpa using List.mem_rtakeWhile_imp hmem

end Filepath
end Nasd
