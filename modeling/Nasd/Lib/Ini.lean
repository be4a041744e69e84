import Nasd.Lib.Text

/-!
# Nasd.Lib.Ini

A text read as an ini file: lines `[section]` and lines `key=value`, in their order. Other lines say
nothing.

* `readLine_header`, `readLine_entry` — the lines that say something.
* `read_line`                         — what is read stands in one line.
-/

namespace Text
namespace Ini

inductive Item where
  | header (name : Str)
  | entry (key value : Str)
  deriving DecidableEq

def readLine (l : Str) : Option Item :=
  if l.head? = some '[' ∧ l.getLast? = some ']' then some (.header (l.drop 1).dropLast)
  else if '=' ∈ l then
    some (.entry (l.takeWhile (· ≠ '=')) ((l.dropWhile (· ≠ '=')).drop 1))
  else none

def read (t : Str) : List Item := (lines t).filterMap readLine

def Item.text : Item → Str
  | .header name => name
  | .entry key value => key ++ value

variable {l t key value name : Str} {i : Item}

theorem readLine_nil : readLine [] = none := rfl

theorem readLine_header : readLine ('[' :: (name ++ [']'])) = some (.header name) := by
  have hlast : ('[' :: (name ++ [']'])).getLast? = some ']' := by
    rw [← List.cons_append, List.getLast?_concat]
  rw [readLine, if_pos ⟨rfl, hlast⟩, List.drop_succ_cons, List.drop_zero, List.dropLast_concat]

/-- The first `=` ends the key. -/
theorem readLine_entry (hhead : key.head? ≠ some '[') (hne : key ≠ []) (hkey : '=' ∉ key) :
    readLine (key ++ '=' :: value) = some (.entry key value) := by
  obtain ⟨c, cs, rfl⟩ := List.exists_cons_of_ne_nil hne
  have hother : ¬ ((c :: cs ++ '=' :: value).head? = some '[' ∧
      (c :: cs ++ '=' :: value).getLast? = some ']') := fun h => hhead h.1
  have hmem : '=' ∈ c :: cs ++ '=' :: value := List.mem_append_right _ List.mem_cons_self
  have hall : ∀ d ∈ c :: cs, decide (d ≠ '=') = true := by
    intro d hd
    rw [decide_eq_true_eq]
    rintro rfl
    exact hkey hd
  rw [readLine, if_neg hother, if_pos hmem, List.takeWhile_append_of_pos hall,
    List.dropWhile_append_of_pos hall]
  simp

theorem readLine_part (hi : readLine l = some i) : ∀ c ∈ i.text, c ∈ l := by
  intro c hc
  unfold readLine at hi
  split at hi
  · cases hi
    exact List.mem_of_mem_drop (List.mem_of_mem_dropLast hc)
  · split at hi
    · cases hi
      rcases List.mem_append.mp hc with hc | hc
      · exact (List.takeWhile_prefix _).subset hc
      · exact (List.dropWhile_suffix _).subset (List.mem_of_mem_drop hc)
    · cases hi

theorem read_line (hi : i ∈ read t) : '\n' ∉ i.text := by
  obtain ⟨l, hl, hread⟩ := List.mem_filterMap.mp hi
  exact fun hc => newline_not_mem_of_mem_lines hl (readLine_part hread _ hc)

end Ini
end Text
