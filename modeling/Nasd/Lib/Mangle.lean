import Nasd.Lib.Text

/-!
# Nasd.Lib.Mangle

How a table of one line an entry, with blanks between its fields, keeps a text in one field: space,
tab, line break and backslash are written as a backslash and three octal digits.

* `unmangle_mangle`     — what is written is read back.
* `unmangle_fixed_iff`  — what is written is read as it stands only if nothing was escaped.
-/

namespace Text

def mangleChar (c : Char) : Str :=
  if c = ' ' then "\\040"
  else if c = '\t' then "\\011"
  else if c = '\n' then "\\012"
  else if c = '\\' then "\\134"
  else [c]

def mangle (t : Str) : Str := t.flatMap mangleChar

def unmangle : Str → Str
  | '\\' :: '0' :: '4' :: '0' :: t => ' ' :: unmangle t
  | '\\' :: '0' :: '1' :: '1' :: t => '\t' :: unmangle t
  | '\\' :: '0' :: '1' :: '2' :: t => '\n' :: unmangle t
  | '\\' :: '1' :: '3' :: '4' :: t => '\\' :: unmangle t
  | c :: t => c :: unmangle t
  | [] => []

/-- The characters that are written as they are. -/
def Plain (c : Char) : Prop := c ≠ ' ' ∧ c ≠ '\t' ∧ c ≠ '\n' ∧ c ≠ '\\'

theorem mangle_cons (c : Char) (t : Str) : mangle (c :: t) = mangleChar c ++ mangle t := rfl

theorem mangleChar_plain {c : Char} (hc : Plain c) : mangleChar c = [c] := by
  obtain ⟨h1, h2, h3, h4⟩ := hc
  rw [mangleChar, if_neg h1, if_neg h2, if_neg h3, if_neg h4]

/-- Each of the other characters is written with four, the first of them a backslash. -/
theorem mangleChar_escaped {c : Char} (hc : ¬ Plain c) :
    ∃ e : Str, mangleChar c = '\\' :: e ∧ e.length = 3 ∧ (∀ d ∈ e, d.isDigit = true) ∧
      ∀ t, unmangle (mangleChar c ++ t) = c :: unmangle t := by
  by_cases h1 : c = ' '
  · subst h1
    exact ⟨"040", rfl, rfl, by decide, fun t => rfl⟩
  by_cases h2 : c = '\t'
  · subst h2
    exact ⟨"011", rfl, rfl, by decide, fun t => rfl⟩
  by_cases h3 : c = '\n'
  · subst h3
    exact ⟨"012", rfl, rfl, by decide, fun t => rfl⟩
  by_cases h4 : c = '\\'
  · subst h4
    exact ⟨"134", rfl, rfl, by decide, fun t => rfl⟩
  exact absurd ⟨h1, h2, h3, h4⟩ hc

theorem unmangle_cons {c : Char} (hc : c ≠ '\\') (t : Str) :
    unmangle (c :: t) = c :: unmangle t := by
  rw [unmangle] <;> intros <;> exact absurd (by assumption) hc

theorem unmangle_length_le (t : Str) : (unmangle t).length ≤ t.length := by
  induction t using unmangle.induct with
  | case1 t ih => simp only [unmangle, List.length_cons]; omega
  | case2 t ih => simp only [unmangle, List.length_cons]; omega
  | case3 t ih => simp only [unmangle, List.length_cons]; omega
  | case4 t ih => simp only [unmangle, List.length_cons]; omega
  | case5 c t h1 h2 h3 h4 ih =>
    rw [unmangle]
    · simpa using ih
    all_goals assumption
  | case6 => exact le_refl _

theorem unmangle_mangle (t : Str) : unmangle (mangle t) = t := by
  induction t with
  | nil => rfl
  | cons c t ih =>
    rw [mangle_cons]
    by_cases hc : Plain c
    · rw [mangleChar_plain hc, List.singleton_append, unmangle_cons hc.2.2.2, ih]
    · obtain ⟨-, -, -, -, hread⟩ := mangleChar_escaped hc
      rw [hread, ih]

theorem mangle_plain {t : Str} (ht : ∀ c ∈ t, Plain c) : mangle t = t := by
  induction t with
  | nil => rfl
  | cons c t ih =>
    rw [mangle_cons, mangleChar_plain (ht c List.mem_cons_self),
      ih fun d hd => ht d (List.mem_cons_of_mem _ hd)]
    rfl

theorem unmangle_plain {t : Str} (ht : '\\' ∉ t) : unmangle t = t := by
  induction t with
  | nil => rfl
  | cons c t ih =>
    rw [unmangle_cons (fun hc => ht (hc ▸ List.mem_cons_self)),
      ih fun hmem => ht (List.mem_cons_of_mem _ hmem)]

/-- In one line. -/
theorem mangle_line (t : Str) : '\n' ∉ mangle t := by
  intro hmem
  obtain ⟨c, -, hc⟩ := List.mem_flatMap.mp hmem
  by_cases hplain : Plain c
  · rw [mangleChar_plain hplain] at hc
    exact hplain.2.2.1 (List.mem_singleton.mp hc).symm
  · obtain ⟨e, he, -, hdigits, -⟩ := mangleChar_escaped hplain
    rw [he] at hc
    rcases List.mem_cons.mp hc with hc | hc
    · cases hc
    · cases hdigits _ hc

/-- The beginning of what is written, up to a separator, is read as it stands only if there is no
escape in it. -/
theorem unmangle_fixed_iff {p : Char → Bool} (hslash : p '\\' = false)
    (hdigit : ∀ c, c.isDigit = true → p c = false) (t : Str) :
    unmangle ((mangle t).takeWhile (!p ·)) = (mangle t).takeWhile (!p ·) ↔
      '\\' ∉ (mangle t).takeWhile (!p ·) := by
  refine ⟨?_, unmangle_plain⟩
  induction t with
  | nil => exact fun _ => List.not_mem_nil
  | cons c t ih =>
    rw [mangle_cons]
    by_cases hc : Plain c
    · rw [mangleChar_plain hc, List.singleton_append, List.takeWhile_cons]
      split
      · rw [unmangle_cons hc.2.2.2]
        intro hfixed
        have hrest := ih (List.cons.inj hfixed).2
        exact fun hmem => (List.mem_cons.mp hmem).elim (fun h => hc.2.2.2 h.symm) hrest
      · exact fun _ => List.not_mem_nil
    · obtain ⟨e, he, hlen, hdigits, hread⟩ := mangleChar_escaped hc
      have hall : ∀ d ∈ mangleChar c, (!p d) = true := by
        intro d hd
        rw [he] at hd
        rcases List.mem_cons.mp hd with rfl | hd
        · simp [hslash]
        · simp [hdigit d (hdigits d hd)]
      rw [List.takeWhile_append_of_pos hall, hread]
      intro hfixed
      -- an escape is longer than what it is read as
      have hlength := congrArg List.length hfixed
      have hle := unmangle_length_le ((mangle t).takeWhile (!p ·))
      rw [he, List.length_append, List.length_cons, List.length_cons] at hlength
      omega

end Text
