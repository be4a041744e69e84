import Mathlib.Algebra.Group.Int.Defs
import Mathlib.Algebra.Group.Nat.Defs
import Nasd.Lib.Text

/-!
# Nasd.Go

The functions of Go's standard library that `nasd` calls on strings (packages `strings`, `unicode`
and `strconv`), under their Go names. A Go string holds UTF-8 and these functions are given ASCII
separators or whole runes, so a text is its list of characters here.

`strconv.Quote` copies a printable character and escapes any other. Which characters beyond ASCII
are printable is Unicode's table; it is a parameter (`PrintTable`) whose ASCII part is fixed. So is
the table of the lower-case letters (`CaseTable`).
-/

namespace Nasd
namespace Go

open Text

def isSpace (c : Char) : Bool :=
  ['\t', '\n', '\x0b', '\x0c', '\r', ' ', '\u0085', '\u00a0', '\u1680', '\u2028', '\u2029',
    '\u202f', '\u205f', '\u3000'].contains c || (0x2000 ≤ c.toNat && c.toNat ≤ 0x200a)

/-- No graphic ASCII character is a space. -/
theorem isSpace_graphic {c : Char} (hlo : 0x21 ≤ c.toNat) (hhi : c.toNat ≤ 0x7e) :
    isSpace c = false := by
  by_contra hs
  rw [Bool.not_eq_false, isSpace, Bool.or_eq_true, List.contains_iff_mem] at hs
  rcases hs with hs | hs
  · have hall : ['\t', '\n', '\x0b', '\x0c', '\r', ' ', '\u0085', '\u00a0', '\u1680', '\u2028',
        '\u2029', '\u202f', '\u205f', '\u3000'].all
          (fun d => d.toNat < 0x21 || 0x7e < d.toNat) = true := rfl
    have hout := List.all_eq_true.mp hall c hs
    simp only [Bool.or_eq_true, decide_eq_true_eq] at hout
    omega
  · simp only [Bool.and_eq_true, decide_eq_true_eq] at hs
    omega

theorem isSpace_of_isDigit {c : Char} (hc : c.isDigit = true) : isSpace c = false := by
  simp only [Char.isDigit, Bool.and_eq_true, decide_eq_true_eq, ge_iff_le,
    UInt32.le_iff_toNat_le] at hc
  have hlo : 0x30 ≤ c.toNat := hc.1
  have hhi : c.toNat ≤ 0x39 := hc.2
  exact isSpace_graphic (by omega) (by omega)

theorem isSpace_of_isBlank {c : Char} (hc : isBlank c = true) : isSpace c = true := by
  simp only [isBlank, Bool.or_eq_true, decide_eq_true_eq] at hc
  rcases hc with rfl | rfl <;> rfl

def TrimSpace (s : Str) : Str := trim isSpace s

def Fields (s : Str) : List Str := words isSpace s

def TrimRight (s cutset : Str) : Str := s.rdropWhile fun c => cutset.contains c

def HasPrefix (s pre : Str) : Bool := pre.isPrefixOf s

def HasSuffix (s suf : Str) : Bool := suf.isSuffixOf s

def TrimPrefix (s pre : Str) : Str := if HasPrefix s pre then s.drop pre.length else s

def Contains (s sub : Str) : Bool := decide (sub <:+: s)

theorem HasPrefix_iff {s pre : Str} : HasPrefix s pre = true ↔ pre <+: s :=
  List.isPrefixOf_iff_prefix

theorem Contains_iff {s sub : Str} : Contains s sub = true ↔ sub <:+: s := decide_eq_true_iff

def ContainsAny (s chars : Str) : Bool := s.any fun c => chars.contains c

/-- `strings.Cut`, at a character. -/
def cut (sep : Char) (s : Str) : Option (Str × Str) :=
  if sep ∈ s then some (s.takeWhile (· ≠ sep), (s.dropWhile (· ≠ sep)).drop 1) else none

/-- The first separator is the one that ends a text without it. -/
theorem cut_append {sep : Char} {s : Str} (h : sep ∉ s) (t : Str) :
    cut sep (s ++ sep :: t) = some (s, t) := by
  have hall : ∀ c ∈ s, decide (c ≠ sep) = true := by
    intro c hc
    rw [decide_eq_true_eq]
    rintro rfl
    exact h hc
  rw [cut, if_pos (List.mem_append_right _ List.mem_cons_self), List.takeWhile_append_of_pos hall,
    List.dropWhile_append_of_pos hall]
  simp

def Join (ss : List Str) (sep : Str) : Str := sep.intercalate ss

@[simp] theorem Join_nil (sep : Str) : Join [] sep = [] := rfl

@[simp] theorem Join_singleton (s sep : Str) : Join [s] sep = s := List.intercalate_singleton

theorem Join_cons_cons (s t : Str) (ss : List Str) (sep : Str) :
    Join (s :: t :: ss) sep = s ++ (sep ++ Join (t :: ss) sep) := by
  rw [Join, List.intercalate_cons_cons, List.append_assoc]
  rfl

theorem mem_Join {ss : List Str} {sep : Str} {c : Char} (h : c ∈ Join ss sep) :
    (∃ s ∈ ss, c ∈ s) ∨ c ∈ sep := by
  induction ss with
  | nil => cases h
  | cons s ss ih =>
    cases ss with
    | nil =>
      rw [Join_singleton] at h
      exact .inl ⟨s, List.mem_cons_self, h⟩
    | cons t ss =>
      rw [Join_cons_cons, List.mem_append, List.mem_append] at h
      rcases h with h | h | h
      · exact .inl ⟨s, List.mem_cons_self, h⟩
      · exact .inr h
      · rcases ih h with ⟨u, hu, hc⟩ | hc
        · exact .inl ⟨u, List.mem_cons_of_mem _ hu, hc⟩
        · exact .inr hc

theorem mem_Join_of_mem {ss : List Str} {s sep : Str} {c : Char} (hs : s ∈ ss) (hc : c ∈ s) :
    c ∈ Join ss sep := by
  induction ss with
  | nil => cases hs
  | cons t ss ih =>
    cases ss with
    | nil =>
      rw [List.mem_singleton.mp hs] at hc
      rwa [Join_singleton]
    | cons u ss =>
      rw [Join_cons_cons, List.mem_append, List.mem_append]
      rcases List.mem_cons.mp hs with rfl | hs
      · exact .inl hc
      · exact .inr (.inr (ih hs))

def Itoa (n : Int) : Str :=
  if n < 0 then '-' :: Nat.toDigits 10 n.natAbs else Nat.toDigits 10 n.natAbs

/-- `strconv.Atoi`, into 64 bits. -/
def Atoi (s : Str) : Option Int :=
  let neg := s.head? = some '-'
  let digits := if s.head? = some '-' ∨ s.head? = some '+' then s.drop 1 else s
  let v := Nat.ofDigitChars 10 digits 0
  if digits = [] ∨ ¬ digits.all Char.isDigit then none
  else if neg then if v ≤ 2 ^ 63 then some (-(v : Int)) else none
  else if v < 2 ^ 63 then some (v : Int)
  else none

/-- `strconv.ParseUint` in a base up to ten, into so many bits. -/
def ParseUint (s : Str) (base bits : Nat) : Option Nat :=
  let v := Nat.ofDigitChars base s 0
  if s = [] ∨ ¬ s.all (fun c => c.isDigit && decide (c.toNat - 48 < base)) then none
  else if v < 2 ^ bits then some v
  else none

theorem Itoa_digits {n : Nat} {c : Char} (hc : c ∈ Itoa n) : c.isDigit = true := by
  rw [Itoa, if_neg (by omega)] at hc
  exact Nat.isDigit_of_mem_toDigits (by decide) (by decide) hc

/-- A number is on one line. -/
theorem Itoa_line (n : Int) : '\n' ∉ Itoa n := by
  have hdigits : '\n' ∉ Nat.toDigits 10 n.natAbs := fun hc => by
    cases Nat.isDigit_of_mem_toDigits (by decide) (by decide) hc
  unfold Itoa
  split
  · exact fun hc => (List.mem_cons.mp hc).elim (by decide) hdigits
  · exact hdigits

theorem Itoa_ne_nil (n : Nat) : Itoa n ≠ [] := by
  rw [Itoa, if_neg (by omega)]
  exact Nat.toDigits_ne_nil

theorem Itoa_value (n : Nat) : Nat.ofDigitChars 10 (Itoa n) 0 = n := by
  rw [Itoa, if_neg (by omega)]
  exact Nat.ofDigitChars_ten_toDigits

theorem Itoa_unsigned (n : Nat) : (Itoa n).head? ≠ some '-' ∧ (Itoa n).head? ≠ some '+' := by
  constructor <;>
    · intro h
      cases Itoa_digits (List.mem_of_mem_head? h)

theorem Atoi_Itoa {n : Nat} (h : n < 2 ^ 63) : Atoi (Itoa n) = some (n : Int) := by
  obtain ⟨hminus, hplus⟩ := Itoa_unsigned n
  have hall : (Itoa n).all Char.isDigit = true := List.all_eq_true.mpr fun c hc => Itoa_digits hc
  unfold Atoi
  simp only [hminus, hplus, or_self, if_false, Itoa_ne_nil n, hall, not_true, Itoa_value,
    if_pos h]

theorem Atoi_large {n : Nat} (h : 2 ^ 63 ≤ n) : Atoi (Itoa n) = none := by
  obtain ⟨hminus, hplus⟩ := Itoa_unsigned n
  have hall : (Itoa n).all Char.isDigit = true := List.all_eq_true.mpr fun c hc => Itoa_digits hc
  unfold Atoi
  simp only [hminus, hplus, or_self, if_false, Itoa_ne_nil n, hall, not_true, Itoa_value,
    if_neg (Nat.not_lt.mpr h)]

/-- The printable characters of `strconv.IsPrint`. -/
structure PrintTable where
  isPrint : Char → Bool
  ascii : ∀ c : Char, c.toNat < 0x80 → isPrint c = decide (0x20 ≤ c.toNat ∧ c.toNat < 0x7f)

/-- The table that prints ASCII only. -/
def PrintTable.asciiOnly : PrintTable where
  isPrint c := decide (0x20 ≤ c.toNat ∧ c.toNat < 0x7f)
  ascii _ _ := rfl

/-- The table of `unicode.ToLower`. -/
structure CaseTable where
  toLower : Char → Char
  ascii : ∀ c : Char, c.toNat < 0x80 → toLower c = c.toLower

/-- The table that knows the ASCII letters only. -/
def CaseTable.asciiOnly : CaseTable := ⟨Char.toLower, fun _ _ => rfl⟩

def ToLower (K : CaseTable) (s : Str) : Str := s.map K.toLower

/-- The last `width` lower-case hexadecimal digits of `n`. -/
def hex : Nat → Nat → Str
  | 0, _ => []
  | width + 1, n => hex width (n / 16) ++ [Nat.digitChar (n % 16)]

/-- One character of a string quoted by `strconv.Quote`. -/
def quoteChar (U : PrintTable) (c : Char) : Str :=
  if c = '"' ∨ c = '\\' then ['\\', c]
  else if U.isPrint c then [c]
  else if c = '\x07' then ['\\', 'a']
  else if c = '\x08' then ['\\', 'b']
  else if c = '\x0c' then ['\\', 'f']
  else if c = '\n' then ['\\', 'n']
  else if c = '\r' then ['\\', 'r']
  else if c = '\t' then ['\\', 't']
  else if c = '\x0b' then ['\\', 'v']
  else if c.toNat < 0x20 ∨ c.toNat = 0x7f then '\\' :: 'x' :: hex 2 c.toNat
  else if c.toNat < 0x10000 then '\\' :: 'u' :: hex 4 c.toNat
  else '\\' :: 'U' :: hex 8 c.toNat

/-- `strconv.Quote`, the verb `%q`. -/
def Quote (U : PrintTable) (s : Str) : Str := '"' :: s.flatMap (quoteChar U) ++ ['"']

end Go
end Nasd
