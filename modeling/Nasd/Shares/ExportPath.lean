import Nasd.Go

/-!
# Nasd.Shares.ExportPath

The path of a line of `/etc/exports`, as `exports(5)` reads it: in double quotes, or else up to the
first blank; a backslash and three octal digits stand for a byte, every other character for itself.

`ApplyNFS` quotes the path as Go does, with escapes that this grammar does not have. Each of them
leaves a backslash too many behind, and the only way to lose one, an octal escape that nobody wrote,
makes the path shorter: counting backslashes and bytes tells when the path comes back.

* `unescape_quoted_iff` — the paths that come back from their quoted text.
* `unescape_bare_iff`   — the paths that are the same quoted and bare.
-/

namespace Nasd
namespace Shares

open Text Go

variable {U : PrintTable} {c : Char} {p : Str}

/-! ## Reading -/

def utf8 (t : Str) : List UInt8 := t.flatMap String.utf8EncodeChar

def isOctal (c : Char) : Bool := '0' ≤ c && c ≤ '7'

def octalByte (a b c : Char) : UInt8 :=
  .ofNat ((a.toNat - 48) * 64 + (b.toNat - 48) * 8 + (c.toNat - 48))

/-- The bytes of a quoted path. -/
def unescape : Str → List UInt8
  | '\\' :: a :: b :: c :: rest =>
    if isOctal a && isOctal b && isOctal c then octalByte a b c :: unescape rest
    else utf8 ['\\'] ++ unescape (a :: b :: c :: rest)
  | c :: rest => utf8 [c] ++ unescape rest
  | [] => []

/-- As much of a path without quotes as is read of it. -/
def bare (p : Str) : Str := p.takeWhile (!isBlank ·)

def afterBare (p : Str) : Str := p.dropWhile (!isBlank ·)

/-- The path at the beginning of a line, and what follows it. -/
def readPath : Str → List UInt8 × Str
  | '"' :: rest => (unescape (rest.takeWhile (· ≠ '"')), (rest.dropWhile (· ≠ '"')).drop 1)
  | line => (unescape (bare line), afterBare line)

/-! ## Bytes -/

theorem utf8_append (p q : Str) : utf8 (p ++ q) = utf8 p ++ utf8 q := List.flatMap_append

theorem utf8_cons (c : Char) (p : Str) : utf8 (c :: p) = utf8 [c] ++ utf8 p := utf8_append [c] p

/-- The byte of the backslash comes from a backslash only. -/
theorem backslash_mem_utf8 (hc : c ≠ '\\') : (0x5c : UInt8) ∉ utf8 [c] := by
  have hval : c.val.toNat ≠ 0x5c := fun heq => hc (Char.ext (UInt32.toNat_inj.mp heq))
  have hbyte : ∀ n : Nat, n % 256 ≠ 0x5c → (0x5c : UInt8) ≠ .ofNat n := by
    intro n hn heq
    have hnat := congrArg UInt8.toNat heq
    simp at hnat
    omega
  rw [utf8, List.flatMap_singleton, String.utf8EncodeChar]
  split
  · simp only [List.mem_singleton]
    exact hbyte _ (by omega)
  · split
    · simp only [List.mem_cons, List.not_mem_nil, or_false, not_or]
      exact ⟨hbyte _ (by omega), hbyte _ (by omega)⟩
    · split
      · simp only [List.mem_cons, List.not_mem_nil, or_false, not_or]
        exact ⟨hbyte _ (by omega), hbyte _ (by omega), hbyte _ (by omega)⟩
      · simp only [List.mem_cons, List.not_mem_nil, or_false, not_or]
        exact ⟨hbyte _ (by omega), hbyte _ (by omega), hbyte _ (by omega), hbyte _ (by omega)⟩

/-- The backslashes among some bytes. -/
def slashes (bs : List UInt8) : Nat := bs.count 0x5c

theorem slashes_append (bs cs : List UInt8) : slashes (bs ++ cs) = slashes bs + slashes cs :=
  List.count_append

theorem slashes_other (hc : c ≠ '\\') : slashes (utf8 [c]) = 0 :=
  List.count_eq_zero_of_not_mem (backslash_mem_utf8 hc)

theorem slashes_backslash : slashes (utf8 ['\\']) = 1 := rfl

/-! ## Steps of the reader -/

theorem unescape_other (hc : c ≠ '\\') (p : Str) : unescape (c :: p) = utf8 [c] ++ unescape p := by
  rw [unescape]
  rintro a b d rest rfl
  exact absurd rfl hc

theorem unescape_octal {a b d : Char} (ha : isOctal a = true) (hb : isOctal b = true)
    (hd : isOctal d = true) (p : Str) :
    unescape ('\\' :: a :: b :: d :: p) = octalByte a b d :: unescape p := by
  simp [unescape, ha, hb, hd]

/-- The text begins with three octal digits. -/
def Octal (p : Str) : Prop :=
  ∃ a b d rest, p = a :: b :: d :: rest ∧ isOctal a = true ∧ isOctal b = true ∧ isOctal d = true

theorem unescape_backslash (hp : ¬ Octal p) : unescape ('\\' :: p) = utf8 ['\\'] ++ unescape p := by
  match p with
  | [] => rfl
  | [a] => rfl
  | [a, b] => rfl
  | a :: b :: d :: rest =>
    have hnot : ¬ (isOctal a && isOctal b && isOctal d) = true := by
      intro hall
      simp only [Bool.and_eq_true] at hall
      exact hp ⟨a, b, d, rest, rfl, hall.1.1, hall.1.2, hall.2⟩
    rw [unescape, if_neg hnot]

theorem unescape_append_clean {w : Str} (hw : '\\' ∉ w) (p : Str) :
    unescape (w ++ p) = utf8 w ++ unescape p := by
  induction w with
  | nil => rfl
  | cons c w ih =>
    simp only [List.mem_cons, not_or] at hw
    rw [List.cons_append, unescape_other (Ne.symm hw.1), ih hw.2, utf8_cons c w, List.append_assoc]

/-! ## Quoted paths -/

/-- The text between the quotes that `%q` writes. -/
def quoted (U : PrintTable) (p : Str) : Str := p.flatMap (quoteChar U)

theorem hex_digits : ∀ {width n : Nat}, ∀ d ∈ hex width n, d ∈ ("0123456789abcdef" : Str) := by
  intro width
  induction width with
  | zero => intro n d hd; cases hd
  | succ width ih =>
    intro n d hd
    rw [hex, List.mem_append, List.mem_singleton] at hd
    rcases hd with hd | rfl
    · exact ih d hd
    · have hall : ∀ i < 16, Nat.digitChar i ∈ ("0123456789abcdef" : Str) := by decide
      exact hall _ (Nat.mod_lt _ (by decide))

/-- What `%q` writes for a character that it does not copy. -/
structure IsEscape (w : Str) : Prop where
  begins : ∃ x v, w = '\\' :: x :: v ∧ isOctal x = false
  clean : ∀ d ∈ w.drop 1, d ≠ '\\' ∧ d ≠ '"' ∧ d ≠ '\n'

theorem IsEscape.letter {x : Char} (hx : x ∈ ("abfnrtv" : Str)) : IsEscape ['\\', x] := by
  have hall : ("abfnrtv" : Str).all
      (fun x => !isOctal x && x ≠ '\\' && x ≠ '"' && x ≠ '\n') = true := rfl
  have hclean := List.all_eq_true.mp hall x hx
  simp only [Bool.and_eq_true, Bool.not_eq_true', decide_eq_true_eq] at hclean
  refine ⟨⟨x, [], rfl, hclean.1.1.1⟩, fun d hd => ?_⟩
  rw [List.mem_singleton.mp hd]
  exact ⟨hclean.1.1.2, hclean.1.2, hclean.2⟩

theorem IsEscape.number {x : Char} (hx : x ∈ ("xuU" : Str)) (width n : Nat) :
    IsEscape ('\\' :: x :: hex width n) := by
  have hall : ("xuU" : Str).all
      (fun x => !isOctal x && x ≠ '\\' && x ≠ '"' && x ≠ '\n') = true := rfl
  have hdigits : ("0123456789abcdef" : Str).all
      (fun x => x ≠ '\\' && x ≠ '"' && x ≠ '\n') = true := rfl
  have hclean := List.all_eq_true.mp hall x hx
  simp only [Bool.and_eq_true, Bool.not_eq_true', decide_eq_true_eq] at hclean
  refine ⟨⟨x, hex width n, rfl, hclean.1.1.1⟩, fun d hd => ?_⟩
  rcases List.mem_cons.mp hd with rfl | hd
  · exact ⟨hclean.1.1.2, hclean.1.2, hclean.2⟩
  · have hdigit := List.all_eq_true.mp hdigits d (hex_digits d hd)
    simp only [Bool.and_eq_true, decide_eq_true_eq] at hdigit
    exact ⟨hdigit.1.1, hdigit.1.2, hdigit.2⟩

theorem quoteChar_escape (hquote : c ≠ '"') (hslash : c ≠ '\\') (hprint : U.isPrint c = false) :
    IsEscape (quoteChar U c) := by
  unfold quoteChar
  rw [if_neg (not_or.mpr ⟨hquote, hslash⟩), if_neg (by simp [hprint])]
  repeat
    split
    · first
        | exact .letter (by decide)
        | exact .number (by decide) _ _
  exact .number (by decide) _ _

theorem quoteChar_print (hquote : c ≠ '"') (hslash : c ≠ '\\') (hprint : U.isPrint c = true) :
    quoteChar U c = [c] := by
  unfold quoteChar
  rw [if_neg (not_or.mpr ⟨hquote, hslash⟩), if_pos hprint]

theorem quoteChar_backslash : quoteChar U '\\' = ['\\', '\\'] := if_pos (.inr rfl)

theorem isPrint_of_graphic (hlo : 0x20 ≤ c.toNat) (hhi : c.toNat < 0x7f) : U.isPrint c = true := by
  rw [U.ascii c (by omega)]
  exact decide_eq_true ⟨hlo, hhi⟩

theorem isOctal_iff : isOctal c = true ↔ 0x30 ≤ c.toNat ∧ c.toNat ≤ 0x37 := by
  rw [isOctal, Bool.and_eq_true, decide_eq_true_eq, decide_eq_true_eq]
  rfl

theorem quoteChar_octal (hc : isOctal c = true) : quoteChar U c = [c] := by
  obtain ⟨hlo, hhi⟩ := isOctal_iff.mp hc
  refine quoteChar_print ?_ ?_ (isPrint_of_graphic (by omega) (by omega))
  · rintro rfl; exact absurd hlo (by decide)
  · rintro rfl; exact absurd hhi (by decide)

/-- A quoted text begins with an octal digit only when its path does. -/
theorem quoted_octal {rest : Str} (hquotes : '"' ∉ p) (hc : isOctal c = true)
    (hp : quoted U p = c :: rest) : ∃ q, p = c :: q ∧ quoted U q = rest := by
  have hslash : c ≠ '\\' := by rintro rfl; cases hc
  cases p with
  | nil => cases hp
  | cons d q =>
    have hquote : d ≠ '"' := fun heq => hquotes (heq ▸ List.mem_cons_self)
    rw [quoted, List.flatMap_cons] at hp
    by_cases hd : d = '\\'
    · subst hd
      rw [quoteChar_backslash] at hp
      exact absurd (List.cons.inj hp).1.symm hslash
    · cases hprint : U.isPrint d with
      | true =>
        rw [quoteChar_print hquote hd hprint] at hp
        obtain ⟨rfl, hrest⟩ := List.cons.inj hp
        exact ⟨q, rfl, hrest⟩
      | false =>
        obtain ⟨x, v, hw, -⟩ := (quoteChar_escape hquote hd hprint).begins
        rw [hw] at hp
        exact absurd (List.cons.inj hp).1.symm hslash

theorem octal_of_quoted (hquotes : '"' ∉ p) (hp : Octal (quoted U p)) :
    ∃ a b d q, p = a :: b :: d :: q ∧ isOctal a = true ∧ isOctal b = true ∧ isOctal d = true := by
  obtain ⟨a, b, d, rest, hq, ha, hb, hd⟩ := hp
  obtain ⟨p₁, rfl, h₁⟩ := quoted_octal hquotes ha hq
  obtain ⟨p₂, rfl, h₂⟩ := quoted_octal (fun h => hquotes (List.mem_cons_of_mem _ h)) hb h₁
  obtain ⟨p₃, rfl, h₃⟩ := quoted_octal
    (fun h => hquotes (List.mem_cons_of_mem _ (List.mem_cons_of_mem _ h))) hd h₂
  exact ⟨a, b, d, p₃, rfl, ha, hb, hd⟩

theorem quoted_clean (hquotes : '"' ∉ p) : ∀ c ∈ quoted U p, c ≠ '"' ∧ c ≠ '\n' := by
  intro c hc
  obtain ⟨d, hd, hcd⟩ := List.mem_flatMap.mp hc
  have hquote : d ≠ '"' := fun heq => hquotes (heq ▸ hd)
  by_cases hslash : d = '\\'
  · subst hslash
    rw [quoteChar_backslash] at hcd
    simp only [List.mem_cons, List.not_mem_nil, or_false, or_self] at hcd
    rw [hcd]
    decide
  · cases hprint : U.isPrint d with
    | true =>
      rw [quoteChar_print hquote hslash hprint, List.mem_singleton] at hcd
      rw [hcd]
      refine ⟨hquote, ?_⟩
      rintro rfl
      rw [U.ascii '\n' (by decide)] at hprint
      exact absurd hprint (by decide)
    | false =>
      obtain ⟨⟨x, v, hw, -⟩, hclean⟩ := quoteChar_escape hquote hslash hprint
      rw [hw] at hcd hclean
      rcases List.mem_cons.mp hcd with rfl | hcd
      · decide
      · exact (hclean c hcd).2

theorem readPath_quoted (hquotes : '"' ∉ p) (rest : Str) :
    readPath (Quote U p ++ rest) = (unescape (quoted U p), rest) := by
  have hpre : ∀ c ∈ quoted U p, decide (c ≠ '"') = true := fun c hc =>
    decide_eq_true (quoted_clean hquotes c hc).1
  have hline : Quote U p ++ rest = '"' :: (quoted U p ++ '"' :: rest) := by simp [Quote, quoted]
  rw [hline, readPath, List.takeWhile_append_of_pos hpre, List.dropWhile_append_of_pos hpre]
  simp

/-! ## Quoted paths read back, character by character -/

theorem quoted_cons (c : Char) (p : Str) : quoted U (c :: p) = quoteChar U c ++ quoted U p := rfl

theorem unescape_print (hquote : c ≠ '"') (hslash : c ≠ '\\') (hprint : U.isPrint c = true) (p : Str) :
    unescape (quoted U (c :: p)) = utf8 [c] ++ unescape (quoted U p) := by
  rw [quoted_cons, quoteChar_print hquote hslash hprint, List.singleton_append,
    unescape_other hslash]

theorem unescape_escape (hquote : c ≠ '"') (hslash : c ≠ '\\') (hprint : U.isPrint c = false)
    (p : Str) : unescape (quoted U (c :: p)) = utf8 (quoteChar U c) ++ unescape (quoted U p) := by
  obtain ⟨⟨x, v, hw, hx⟩, hclean⟩ := quoteChar_escape hquote hslash hprint
  rw [hw] at hclean
  have hnot : ¬ Octal (x :: v ++ quoted U p) := by
    rintro ⟨a, b, d, rest, heq, ha, -⟩
    rw [← (List.cons.inj heq).1, hx] at ha
    cases ha
  have hw' : '\\' ∉ x :: v := fun hmem => (hclean _ hmem).1 rfl
  rw [quoted_cons, hw, List.cons_append, unescape_backslash hnot, unescape_append_clean hw',
    utf8_cons '\\' (x :: v), List.append_assoc]

theorem not_octal_backslash (q : Str) : ¬ Octal ('\\' :: q) := by
  rintro ⟨a, b, d, rest, heq, ha, -⟩
  rw [← (List.cons.inj heq).1] at ha
  cases ha

theorem unescape_slash (hp : ¬ Octal (quoted U p)) :
    unescape (quoted U ('\\' :: p)) = utf8 ['\\'] ++ (utf8 ['\\'] ++ unescape (quoted U p)) := by
  have hquoted : quoted U ('\\' :: p) = '\\' :: '\\' :: quoted U p := by
    rw [quoted_cons, quoteChar_backslash]
    rfl
  rw [hquoted, unescape_backslash (not_octal_backslash _), unescape_backslash hp]

/-- An octal escape that nobody wrote: the backslash is kept, and three digits become a byte. -/
theorem unescape_slash_octal {a b d : Char} (ha : isOctal a = true) (hb : isOctal b = true)
    (hd : isOctal d = true) (p : Str) : unescape (quoted U ('\\' :: a :: b :: d :: p)) =
      utf8 ['\\'] ++ ([octalByte a b d] ++ unescape (quoted U p)) := by
  have hquoted : quoted U ('\\' :: a :: b :: d :: p) =
      '\\' :: '\\' :: a :: b :: d :: quoted U p := by
    rw [quoted_cons, quoted_cons, quoted_cons, quoted_cons, quoteChar_backslash, quoteChar_octal ha,
      quoteChar_octal hb, quoteChar_octal hd]
    rfl
  rw [hquoted, unescape_backslash (not_octal_backslash _), unescape_octal ha hb hd]
  rfl

/-- By cases on the first character of the path; an octal escape takes three more with it. -/
theorem quoted_induction {motive : Str → Prop} (nil : motive [])
    (print : ∀ c p, c ≠ '"' → c ≠ '\\' → U.isPrint c = true → motive p → motive (c :: p))
    (escape : ∀ c p, c ≠ '"' → c ≠ '\\' → U.isPrint c = false → motive p → motive (c :: p))
    (slash : ∀ p, ¬ Octal (quoted U p) → motive p → motive ('\\' :: p))
    (octal : ∀ a b d p, isOctal a = true → isOctal b = true → isOctal d = true → motive p →
      motive ('\\' :: a :: b :: d :: p)) : ∀ {p : Str}, '"' ∉ p → motive p
  | [], _ => nil
  | c :: p, hquotes => by
    have hquote : c ≠ '"' := fun heq => hquotes (heq ▸ List.mem_cons_self)
    have hrest : '"' ∉ p := fun hmem => hquotes (List.mem_cons_of_mem _ hmem)
    by_cases hslash : c = '\\'
    · subst hslash
      by_cases hoctal : Octal (quoted U p)
      · obtain ⟨a, b, d, q, rfl, ha, hb, hd⟩ := octal_of_quoted hrest hoctal
        have hq : '"' ∉ q := fun hmem => hrest (by simp [hmem])
        exact octal a b d q ha hb hd (quoted_induction nil print escape slash octal hq)
      · exact slash p hoctal (quoted_induction nil print escape slash octal hrest)
    · have ih := quoted_induction nil print escape slash octal hrest
      cases hprint : U.isPrint c with
      | true => exact print c p hquote hslash hprint ih
      | false => exact escape c p hquote hslash hprint ih
termination_by p => p.length

/-! ## Which paths come back -/

/-- Reading a quoted path back loses no backslash; when it gains none either, every character was
copied, and each backslash of the path cost it two bytes. -/
structure Counted (U : PrintTable) (p : Str) : Prop where
  more : slashes (utf8 p) ≤ slashes (unescape (quoted U p))
  tight : slashes (unescape (quoted U p)) = slashes (utf8 p) →
    (unescape (quoted U p)).length + 2 * slashes (utf8 p) ≤ (utf8 p).length ∧
      ∀ c ∈ p, U.isPrint c = true

theorem Counted.nil : Counted U [] := ⟨Nat.le_refl _, fun _ => ⟨Nat.le_refl _, nofun⟩⟩

theorem Counted.of_lt (h : slashes (utf8 p) < slashes (unescape (quoted U p))) : Counted U p :=
  ⟨h.le, fun hsame => absurd hsame h.ne'⟩

theorem Counted.print (h : Counted U p) (hquote : c ≠ '"') (hslash : c ≠ '\\')
    (hprint : U.isPrint c = true) : Counted U (c :: p) := by
  have hread := unescape_print hquote hslash hprint p
  have hmore := h.more
  constructor
  · rw [hread, utf8_cons, slashes_append, slashes_append]
    omega
  · intro hsame
    rw [hread, utf8_cons c p, slashes_append, slashes_append] at hsame
    obtain ⟨hlen, hall⟩ := h.tight (by omega)
    refine ⟨?_, List.forall_mem_cons.mpr ⟨hprint, hall⟩⟩
    rw [hread, utf8_cons c p, slashes_append, slashes_other hslash, List.length_append,
      List.length_append]
    omega

theorem Counted.escape (h : Counted U p) (hquote : c ≠ '"') (hslash : c ≠ '\\')
    (hprint : U.isPrint c = false) : Counted U (c :: p) := by
  refine .of_lt ?_
  obtain ⟨x, v, hw, -⟩ := (quoteChar_escape hquote hslash hprint).begins
  have hmore := h.more
  rw [unescape_escape hquote hslash hprint, hw, utf8_cons c, utf8_cons '\\', slashes_append,
    slashes_append, slashes_append, slashes_other hslash, slashes_backslash]
  omega

theorem Counted.slash (h : Counted U p) (hp : ¬ Octal (quoted U p)) : Counted U ('\\' :: p) := by
  refine .of_lt ?_
  have hmore := h.more
  rw [unescape_slash hp, utf8_cons, slashes_append, slashes_append, slashes_append,
    slashes_backslash]
  omega

theorem utf8_octal (hc : isOctal c = true) : (utf8 [c]).length = 1 ∧ slashes (utf8 [c]) = 0 := by
  obtain ⟨hlo, hhi⟩ := isOctal_iff.mp hc
  have hle : c.val.toNat ≤ 127 := by
    have hval : c.val.toNat = c.toNat := rfl
    omega
  refine ⟨?_, slashes_other ?_⟩
  · rw [utf8, List.flatMap_singleton, String.utf8EncodeChar, if_pos hle]
    rfl
  · rintro rfl; cases hc

theorem Counted.octal {a b d : Char} (h : Counted U p) (ha : isOctal a = true)
    (hb : isOctal b = true) (hd : isOctal d = true) : Counted U ('\\' :: a :: b :: d :: p) := by
  have hread := unescape_slash_octal (U := U) ha hb hd p
  have hbytes : utf8 ('\\' :: a :: b :: d :: p) =
      utf8 ['\\'] ++ (utf8 [a] ++ (utf8 [b] ++ (utf8 [d] ++ utf8 p))) := by
    rw [utf8_cons, utf8_cons a, utf8_cons b, utf8_cons d]
  obtain ⟨hla, hsa⟩ := utf8_octal ha
  obtain ⟨hlb, hsb⟩ := utf8_octal hb
  obtain ⟨hld, hsd⟩ := utf8_octal hd
  have hone : (utf8 ['\\']).length = 1 := rfl
  have hmore := h.more
  constructor
  · simp only [hread, hbytes, slashes_append, hsa, hsb, hsd]
    omega
  · intro hsame
    simp only [hread, hbytes, slashes_append, hsa, hsb, hsd] at hsame
    obtain ⟨hlen, hall⟩ := h.tight (by omega)
    have hdigit : ∀ {e : Char}, isOctal e = true → U.isPrint e = true := by
      intro e he
      obtain ⟨hlo, hhi⟩ := isOctal_iff.mp he
      exact isPrint_of_graphic (by omega) (by omega)
    refine ⟨?_, ?_⟩
    · simp only [hread, hbytes, slashes_append, hsa, hsb, hsd, slashes_backslash, List.length_append,
        List.length_singleton, hla, hlb, hld, hone]
      omega
    · simp only [List.forall_mem_cons]
      exact ⟨isPrint_of_graphic (by decide) (by decide), hdigit ha, hdigit hb, hdigit hd, hall⟩

theorem counted (U : PrintTable) (hquotes : '"' ∉ p) : Counted U p := by
  refine quoted_induction (U := U) .nil ?_ ?_ ?_ ?_ hquotes
  · exact fun c p hquote hslash hprint ih => ih.print hquote hslash hprint
  · exact fun c p hquote hslash hprint ih => ih.escape hquote hslash hprint
  · exact fun p hoctal ih => ih.slash hoctal
  · exact fun a b d p ha hb hd ih => ih.octal ha hb hd

theorem slashes_pos (hp : '\\' ∈ p) : 0 < slashes (utf8 p) := by
  obtain ⟨q, r, rfl⟩ := List.append_of_mem hp
  rw [utf8_append, utf8_cons '\\' r, slashes_append, slashes_append, slashes_backslash]
  omega

/-- A path comes back exactly when it is made of printable characters other than the backslash. -/
theorem unescape_quoted_iff (hquotes : '"' ∉ p) :
    unescape (quoted U p) = utf8 p ↔ ∀ c ∈ p, U.isPrint c = true ∧ c ≠ '\\' := by
  constructor
  · intro hsame c hc
    obtain ⟨hlen, hall⟩ := (counted U hquotes).tight (congrArg slashes hsame)
    refine ⟨hall c hc, ?_⟩
    rintro rfl
    have hpos := slashes_pos hc
    rw [hsame] at hlen
    omega
  · intro hplain
    have hcopy : quoted U p = p := by
      induction p with
      | nil => rfl
      | cons c p ih =>
        simp only [List.mem_cons, not_or] at hquotes
        obtain ⟨hprint, hslash⟩ := hplain c List.mem_cons_self
        rw [quoted_cons, quoteChar_print (Ne.symm hquotes.1) hslash hprint,
          ih hquotes.2 fun d hd => hplain d (List.mem_cons_of_mem _ hd)]
        rfl
    have hclean : '\\' ∉ p := fun hmem => (hplain _ hmem).2 rfl
    have hread := unescape_append_clean hclean []
    rw [List.append_nil] at hread
    rw [hcopy, hread]
    exact List.append_nil _

/-! ## Bare paths -/

/-- `%q` copies the character, and it does not end a bare path. -/
def Copies (U : PrintTable) (c : Char) : Prop :=
  U.isPrint c = true ∧ c ≠ '\\' ∧ isBlank c = false

theorem bare_cons (hc : isBlank c = false) (p : Str) : bare (c :: p) = c :: bare p := by
  rw [bare, List.takeWhile_cons_of_pos (by simp [hc])]
  rfl

theorem bare_blank (hc : isBlank c = true) (p : Str) : bare (c :: p) = [] := by
  rw [bare, List.takeWhile_cons_of_neg (by simp [hc])]

theorem bare_append (p : Str) (hc : isBlank c = true) (rest : Str) :
    bare (p ++ c :: rest) = bare p ∧ afterBare (p ++ c :: rest) = afterBare p ++ c :: rest := by
  induction p with
  | nil => simp [bare, afterBare, hc]
  | cons d p ih =>
    unfold bare afterBare at ih ⊢
    cases hd : isBlank d with
    | true => simp [hd]
    | false => simp [hd, ih]

theorem words_bare (hc : isBlank c = false) (p : Str) :
    words isBlank (c :: p) = bare (c :: p) :: words isBlank (afterBare (c :: p)) :=
  words_takeWhile hc p

theorem octal_bare (hp : Octal (bare p)) : Octal (quoted U p) := by
  obtain ⟨a, b, d, rest, heq, ha, hb, hd⟩ := hp
  obtain ⟨q, rfl⟩ : ∃ q, p = a :: b :: d :: q := by
    obtain ⟨q, hq⟩ := List.takeWhile_prefix (!isBlank ·) (l := p)
    rw [← bare, heq] at hq
    exact ⟨_, hq.symm⟩
  refine ⟨a, b, d, quoted U q, ?_, ha, hb, hd⟩
  rw [quoted_cons, quoted_cons, quoted_cons, quoteChar_octal ha, quoteChar_octal hb,
    quoteChar_octal hd]
  rfl

theorem length_utf8_pos (c : Char) : 0 < (utf8 [c]).length := by
  rw [utf8, List.flatMap_singleton, String.length_utf8EncodeChar]
  exact c.utf8Size_pos

theorem length_le_utf8 (p : Str) : p.length ≤ (utf8 p).length := by
  induction p with
  | nil => exact Nat.le_refl _
  | cons c p ih =>
    have hpos := length_utf8_pos c
    rw [utf8_cons, List.length_append, List.length_cons]
    omega

theorem length_hex (width n : Nat) : (hex width n).length = width := by
  induction width generalizing n with
  | zero => rfl
  | succ width ih => rw [hex, List.length_append, ih, List.length_singleton]

/-- An escape is longer than its character. -/
theorem length_escape (hquote : c ≠ '"') (hslash : c ≠ '\\') (hprint : U.isPrint c = false) :
    (utf8 [c]).length < (quoteChar U c).length := by
  have hsize : (utf8 [c]).length = c.utf8Size := by
    rw [utf8, List.flatMap_singleton, String.length_utf8EncodeChar]
  have hfour := c.utf8Size_le_four
  unfold quoteChar
  rw [if_neg (not_or.mpr ⟨hquote, hslash⟩), if_neg (by simp [hprint])]
  iterate 7
    split
    · rename_i hc
      rw [hc]
      decide
  split
  · rename_i hlow
    have hone : c.utf8Size = 1 := by
      rw [Char.utf8Size_eq_one_iff, UInt32.le_iff_toNat_le]
      have hval : c.val.toNat = c.toNat := rfl
      have hmax : (127 : UInt32).toNat = 127 := rfl
      omega
    rw [List.length_cons, List.length_cons, length_hex]
    omega
  · split
    · rw [List.length_cons, List.length_cons, length_hex]
      omega
    · rw [List.length_cons, List.length_cons, length_hex]
      omega

/-- A quoted path is read with at least the bytes of the bare one; with no more when every character
was copied. -/
structure Shorter (U : PrintTable) (p : Str) : Prop where
  fewer : (unescape (bare p)).length ≤ (unescape (quoted U p)).length
  tight : (unescape (bare p)).length = (unescape (quoted U p)).length → ∀ c ∈ p, Copies U c

theorem Shorter.of_lt (h : (unescape (bare p)).length < (unescape (quoted U p)).length) :
    Shorter U p := ⟨h.le, fun hsame => absurd hsame h.ne⟩

theorem unescape_quoted_pos (hquotes : '"' ∉ p) (hne : p ≠ []) :
    0 < (unescape (quoted U p)).length := by
  refine quoted_induction (U := U) (motive := fun p => p ≠ [] → 0 < (unescape (quoted U p)).length)
    (fun h => absurd rfl h) ?_ ?_ ?_ ?_ hquotes hne
  · intro c p hquote hslash hprint _ _
    have hpos := length_utf8_pos c
    rw [unescape_print hquote hslash hprint, List.length_append]
    omega
  · intro c p hquote hslash hprint _ _
    have hlong := length_escape hquote hslash hprint
    have hbytes := length_le_utf8 (quoteChar U c)
    rw [unescape_escape hquote hslash hprint, List.length_append]
    omega
  · intro p hoctal _ _
    rw [unescape_slash hoctal]
    exact Nat.succ_pos _
  · intro a b d p ha hb hd _ _
    rw [unescape_slash_octal ha hb hd]
    exact Nat.succ_pos _

theorem Shorter.blank (hc : isBlank c = true) (hquotes : '"' ∉ c :: p) : Shorter U (c :: p) := by
  refine .of_lt ?_
  rw [bare_blank hc]
  exact unescape_quoted_pos hquotes (List.cons_ne_nil _ _)

theorem Shorter.print (h : Shorter U p) (hquote : c ≠ '"') (hslash : c ≠ '\\')
    (hprint : U.isPrint c = true) (hc : isBlank c = false) : Shorter U (c :: p) := by
  have hfewer := h.fewer
  constructor
  · rw [bare_cons hc, unescape_other hslash, unescape_print hquote hslash hprint,
      List.length_append, List.length_append]
    omega
  · intro hsame
    rw [bare_cons hc, unescape_other hslash, unescape_print hquote hslash hprint,
      List.length_append, List.length_append] at hsame
    exact List.forall_mem_cons.mpr ⟨⟨hprint, hslash, hc⟩, h.tight (by omega)⟩

theorem Shorter.escape (h : Shorter U p) (hquote : c ≠ '"') (hslash : c ≠ '\\')
    (hprint : U.isPrint c = false) (hc : isBlank c = false) : Shorter U (c :: p) := by
  refine .of_lt ?_
  have hfewer := h.fewer
  have hlong := length_escape hquote hslash hprint
  have hbytes := length_le_utf8 (quoteChar U c)
  rw [bare_cons hc, unescape_other hslash, unescape_escape hquote hslash hprint,
    List.length_append, List.length_append]
  omega

theorem Shorter.slash (h : Shorter U p) (hp : ¬ Octal (quoted U p)) : Shorter U ('\\' :: p) := by
  refine .of_lt ?_
  have hfewer := h.fewer
  have hone : (utf8 ['\\']).length = 1 := rfl
  rw [bare_cons rfl, unescape_backslash fun hoctal => hp (octal_bare hoctal), unescape_slash hp,
    List.length_append, List.length_append, List.length_append, hone]
  omega

theorem isBlank_octal (hc : isOctal c = true) : isBlank c = false := by
  obtain ⟨hlo, -⟩ := isOctal_iff.mp hc
  rw [isBlank, Bool.or_eq_false_iff, decide_eq_false_iff_not, decide_eq_false_iff_not]
  constructor
  · rintro rfl; exact absurd hlo (by decide)
  · rintro rfl; exact absurd hlo (by decide)

theorem Shorter.octal {a b d : Char} (h : Shorter U p) (ha : isOctal a = true)
    (hb : isOctal b = true) (hd : isOctal d = true) : Shorter U ('\\' :: a :: b :: d :: p) := by
  refine .of_lt ?_
  have hfewer := h.fewer
  have hone : (utf8 ['\\']).length = 1 := rfl
  rw [bare_cons rfl, bare_cons (isBlank_octal ha), bare_cons (isBlank_octal hb),
    bare_cons (isBlank_octal hd), unescape_octal ha hb hd, unescape_slash_octal ha hb hd,
    List.length_cons, List.length_append, List.length_append, List.length_singleton, hone]
  omega

/-- The induction is over the whole path, blanks included. -/
theorem shorter (U : PrintTable) (hquotes : '"' ∉ p) : Shorter U p := by
  refine quoted_induction (U := U) (motive := fun p => '"' ∉ p → Shorter U p)
    (fun _ => ⟨Nat.le_refl _, fun _ => nofun⟩) ?_ ?_ ?_ ?_ hquotes hquotes
  · intro c p hquote hslash hprint ih hmem
    have ih := ih fun h => hmem (List.mem_cons_of_mem _ h)
    cases hc : isBlank c with
    | true => exact .blank hc hmem
    | false => exact ih.print hquote hslash hprint hc
  · intro c p hquote hslash hprint ih hmem
    have ih := ih fun h => hmem (List.mem_cons_of_mem _ h)
    cases hc : isBlank c with
    | true => exact .blank hc hmem
    | false => exact ih.escape hquote hslash hprint hc
  · intro p hoctal ih hmem
    exact (ih fun h => hmem (List.mem_cons_of_mem _ h)).slash hoctal
  · intro a b d p ha hb hd ih hmem
    exact (ih fun h => hmem (by simp [h])).octal ha hb hd

theorem bare_of_copies (hp : ∀ c ∈ p, Copies U c) : bare p = p :=
  List.takeWhile_eq_self_iff.mpr fun c hc => by simp [(hp c hc).2.2]

/-- A path is the same with the quotes of `%q` and without any exactly when it is made of printable
characters other than the backslash and the blank. -/
theorem unescape_bare_iff (hquotes : '"' ∉ p) :
    unescape (bare p) = unescape (quoted U p) ↔ ∀ c ∈ p, Copies U c := by
  constructor
  · intro hsame
    exact (shorter U hquotes).tight (congrArg List.length hsame)
  · intro hcopies
    have hclean : '\\' ∉ p := fun hmem => (hcopies _ hmem).2.1 rfl
    have hread := unescape_append_clean hclean []
    rw [List.append_nil] at hread
    rw [bare_of_copies hcopies, hread]
    exact (List.append_nil _).trans
      ((unescape_quoted_iff hquotes).mpr fun c hc => ⟨(hcopies c hc).1, (hcopies c hc).2.1⟩).symm

end Shares
end Nasd
