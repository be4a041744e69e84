import Nasd.Lib.Text

/-!
# Nasd.Lib.Url

Percent-encoding of texts in the path of a URL, for any set `keep` of characters that stand for
themselves.

* `unescape_escape` — what was encoded is read back, whatever the encoder kept.
* `escape_eq_self_iff` — the texts that an encoder leaves alone.
* `unescape_slashed`, `escape_slashed`, `slashed_escape_eq_iff` — paths of encoded segments, read
  back, written by another encoder, and written alike by two.
* `removeDots_slashed` — a path without `.` and `..` is what a browser asks for.
-/

namespace Url

open Text

/-! ## Percent-encoding -/

def hexDigit (n : Nat) : Char := Char.ofNat (if n < 10 then 0x30 + n else 0x37 + n)

def hexValue (c : Char) : Option Nat :=
  if '0' ≤ c ∧ c ≤ '9' then some (c.toNat - 0x30)
  else if 'A' ≤ c ∧ c ≤ 'F' then some (c.toNat - 0x37)
  else if 'a' ≤ c ∧ c ≤ 'f' then some (c.toNat - 0x57)
  else none

def percent (b : UInt8) : Str := ['%', hexDigit (b.toNat / 16), hexDigit (b.toNat % 16)]

def escapeChar (keep : Char → Bool) (c : Char) : Str :=
  if keep c then [c] else (String.utf8EncodeChar c).flatMap percent

def escape (keep : Char → Bool) (s : Str) : Str := s.flatMap (escapeChar keep)

/-- The bytes that a percent-encoded text stands for. -/
def bytes : Str → Option (List UInt8)
  | [] => some []
  | '%' :: a :: b :: t =>
    match hexValue a, hexValue b with
    | some i, some j => (bytes t).map (UInt8.ofNat (16 * i + j) :: ·)
    | _, _ => none
  | '%' :: _ => none
  | c :: t => (bytes t).map (String.utf8EncodeChar c ++ ·)

/-- The text that a percent-encoded text stands for, when its bytes are one. -/
def unescape (s : Str) : Option Str :=
  (bytes s).bind fun bs => bs.toByteArray.utf8Decode?.map Array.toList

variable {keep keep' : Char → Bool} {s t : Str} {c : Char}

theorem hexValue_hexDigit {n : Nat} (h : n < 16) : hexValue (hexDigit n) = some n := by
  have hall : ∀ i : Fin 16, hexValue (hexDigit i) = some i.val := by decide
  exact hall ⟨n, h⟩

theorem bytes_percent (b : UInt8) (t : Str) : bytes (percent b ++ t) = (bytes t).map (b :: ·) := by
  have hlt : b.toNat < 256 := b.toNat_lt
  have hhi : hexValue (hexDigit (b.toNat / 16)) = some (b.toNat / 16) :=
    hexValue_hexDigit (by omega)
  have hlo : hexValue (hexDigit (b.toNat % 16)) = some (b.toNat % 16) :=
    hexValue_hexDigit (by omega)
  have hback : UInt8.ofNat (16 * (b.toNat / 16) + b.toNat % 16) = b := by
    rw [Nat.div_add_mod]
    exact UInt8.ofNat_toNat
  show bytes ('%' :: hexDigit (b.toNat / 16) :: hexDigit (b.toNat % 16) :: t) = _
  simp only [bytes, hhi, hlo, hback]

theorem bytes_flatMap_percent (bs : List UInt8) (t : Str) :
    bytes (bs.flatMap percent ++ t) = (bytes t).map (bs ++ ·) := by
  induction bs with
  | nil => simp
  | cons b bs ih =>
    rw [List.flatMap_cons, List.append_assoc, bytes_percent, ih, Option.map_map]
    rfl

theorem bytes_cons (hc : c ≠ '%') (t : Str) :
    bytes (c :: t) = (bytes t).map (String.utf8EncodeChar c ++ ·) := by
  rw [bytes]
  · exact fun _ _ _ h _ => hc h
  · exact hc

theorem bytes_escape (hp : keep '%' = false) (s t : Str) :
    bytes (escape keep s ++ t) = (bytes t).map (s.flatMap String.utf8EncodeChar ++ ·) := by
  induction s with
  | nil => simp [escape]
  | cons c s ih =>
    have hsplit : escape keep (c :: s) ++ t = escapeChar keep c ++ (escape keep s ++ t) := by
      simp [escape, List.flatMap_cons, List.append_assoc]
    have hchar : bytes (escapeChar keep c ++ (escape keep s ++ t)) =
        (bytes (escape keep s ++ t)).map (String.utf8EncodeChar c ++ ·) := by
      unfold escapeChar
      split
      · rename_i hk
        exact bytes_cons (fun h => by rw [h, hp] at hk; cases hk) _
      · exact bytes_flatMap_percent _ _
    rw [hsplit, hchar, ih, Option.map_map, List.flatMap_cons]
    congr 1
    funext u
    simp

theorem unescape_of_bytes (h : bytes t = some (s.flatMap String.utf8EncodeChar)) :
    unescape t = some s := by
  rw [unescape, h]
  show (s.utf8Encode.utf8Decode?).map Array.toList = some s
  rw [List.utf8Decode?_utf8Encode]
  simp

theorem escape_of_kept (h : ∀ c ∈ s, keep c = true) : escape keep s = s := by
  induction s with
  | nil => rfl
  | cons c s ih =>
    have hc : escapeChar keep c = [c] := if_pos (h c List.mem_cons_self)
    rw [escape, List.flatMap_cons, hc]
    exact congrArg (c :: ·) (ih fun d hd => h d (List.mem_cons_of_mem c hd))

theorem unescape_escape (hp : keep '%' = false) (s : Str) : unescape (escape keep s) = some s := by
  have hbytes : bytes (escape keep s ++ []) = some (s.flatMap String.utf8EncodeChar) := by
    rw [bytes_escape hp s []]
    simp [bytes]
  rw [List.append_nil] at hbytes
  exact unescape_of_bytes hbytes

/-- Only a text itself is written as one that needs no encoding. -/
theorem escape_ne_of_kept (hp : keep '%' = false) (ht : ∀ c ∈ t, keep c = true) (hne : s ≠ t) :
    escape keep s ≠ t := by
  intro heq
  have hs : unescape t = some s := heq ▸ unescape_escape hp s
  have hself : unescape t = some t := by
    have := unescape_escape hp t
    rwa [escape_of_kept ht] at this
  exact hne (Option.some.inj (hs.symm.trans hself))

/-! ## What an encoder changes -/

theorem escape_append (s t : Str) : escape keep (s ++ t) = escape keep s ++ escape keep t :=
  List.flatMap_append

theorem percent_of_escaped (hc : keep c = false) :
    ∃ u, escapeChar keep c = '%' :: u ∧ 2 ≤ u.length := by
  have hne : String.utf8EncodeChar c ≠ [] := by
    intro h
    have hlen := String.length_utf8EncodeChar c
    rw [h] at hlen
    have := c.utf8Size_pos
    simp at hlen
    omega
  obtain ⟨b, bs, hb⟩ := List.exists_cons_of_ne_nil hne
  have hshape : escapeChar keep c =
      '%' :: hexDigit (b.toNat / 16) :: hexDigit (b.toNat % 16) :: bs.flatMap percent := by
    simp [escapeChar, hc, hb, List.flatMap_cons, percent]
  exact ⟨_, hshape, by simp⟩

theorem length_le_escape (s : Str) : s.length ≤ (escape keep s).length := by
  induction s with
  | nil => simp
  | cons c s ih =>
    have hc : 1 ≤ (escapeChar keep c).length := by
      cases hk : keep c with
      | true => simp [escapeChar, hk]
      | false =>
        obtain ⟨u, hu, -⟩ := percent_of_escaped hk
        simp [hu]
    rw [escape, List.flatMap_cons, List.length_append, List.length_cons]
    have : s.length ≤ (s.flatMap (escapeChar keep)).length := ih
    omega

theorem escape_eq_self_iff : escape keep s = s ↔ ∀ c ∈ s, keep c = true := by
  refine ⟨fun h => ?_, escape_of_kept⟩
  induction s with
  | nil => exact fun c hc => nomatch hc
  | cons c s ih =>
    cases hk : keep c with
    | true =>
      have htail : escape keep s = s := by
        rw [escape, List.flatMap_cons, escapeChar, if_pos hk] at h
        exact List.cons_inj_right c |>.mp h
      intro d hd
      rcases List.mem_cons.mp hd with rfl | hd
      · exact hk
      · exact ih htail d hd
    | false =>
      -- an escaped character is longer than itself, and nothing gets shorter
      obtain ⟨u, hu, hlen⟩ := percent_of_escaped hk
      have hle : s.length ≤ (escape keep s).length := length_le_escape s
      have heq : (escapeChar keep c ++ escape keep s).length = (c :: s).length :=
        congrArg List.length h
      rw [hu, List.length_append, List.length_cons, List.length_cons] at heq
      omega

/-- Two encoders write the same text only when they treat each character alike, whatever follows. -/
theorem escape_append_eq_iff (hp : keep '%' = false) (hp' : keep' '%' = false) (t t' : Str) :
    escape keep s ++ t = escape keep' s ++ t' ↔ (∀ c ∈ s, keep c = keep' c) ∧ t = t' := by
  induction s with
  | nil => simp [escape]
  | cons c s ih =>
    have hcons : ∀ (k : Char → Bool) (u : Str),
        escape k (c :: s) ++ u = escapeChar k c ++ (escape k s ++ u) := by
      intro k u
      rw [escape, List.flatMap_cons, List.append_assoc]
      rfl
    have hdiff : ∀ {k l : Char → Bool} {u v : Str}, l '%' = false → k c = false → l c = true →
        escape k (c :: s) ++ u ≠ escape l (c :: s) ++ v := by
      intro k l u v hl hk hlc h
      obtain ⟨w, hw, -⟩ := percent_of_escaped hk
      rw [hcons k, hcons l, hw, escapeChar, if_pos hlc] at h
      injection h with hhead
      rw [← hhead, hl] at hlc
      cases hlc
    have hsame : keep c = keep' c → escapeChar keep c = escapeChar keep' c := by
      intro h
      rw [escapeChar, escapeChar, h]
    rw [List.forall_mem_cons]
    cases hk : keep c with
    | true =>
      cases hk' : keep' c with
      | true =>
        rw [hcons, hcons, hsame (hk.trans hk'.symm), List.append_cancel_left_eq, ih]
        simp
      | false => exact iff_of_false (fun h => hdiff hp hk' hk h.symm) fun h => nomatch h.1.1
    | false =>
      cases hk' : keep' c with
      | true => exact iff_of_false (hdiff hp' hk hk') fun h => nomatch h.1.1
      | false =>
        rw [hcons, hcons, hsame (hk.trans hk'.symm), List.append_cancel_left_eq, ih]
        simp

theorem hexDigit_ne {n : Nat} (hn : n < 16) (hc : ∀ i : Fin 16, hexDigit i ≠ c) : hexDigit n ≠ c :=
  hc ⟨n, hn⟩

/-- A character that is not kept, and that no escape uses, does not occur. -/
theorem not_mem_escape (hk : keep c = false) (hpct : c ≠ '%')
    (hhex : ∀ i : Fin 16, hexDigit i ≠ c) : c ∉ escape keep s := by
  rw [escape, List.mem_flatMap]
  intro ⟨d, hd, hmem⟩
  unfold escapeChar at hmem
  split at hmem
  · rename_i hkeep
    rw [List.mem_singleton] at hmem
    rw [← hmem, hk] at hkeep
    cases hkeep
  · obtain ⟨b, -, hb⟩ := List.mem_flatMap.mp hmem
    have hlt : b.toNat < 256 := b.toNat_lt
    simp only [percent, List.mem_cons, List.not_mem_nil, or_false] at hb
    rcases hb with hb | hb | hb
    · exact hpct hb
    · exact hexDigit_ne (by omega) hhex hb.symm
    · exact hexDigit_ne (by omega) hhex hb.symm

/-! ## Paths by their segments -/

def slashed (segs : List Str) : Str := segs.flatMap ('/' :: ·)

variable {segs : List Str}

theorem slashed_cons (s : Str) (segs : List Str) :
    slashed (s :: segs) = '/' :: (s ++ slashed segs) := List.flatMap_cons

theorem slashed_append (segs segs' : List Str) :
    slashed (segs ++ segs') = slashed segs ++ slashed segs' :=
  List.flatMap_append

theorem splitOn_append_slashed (hs : '/' ∉ s) (h : ∀ u ∈ segs, '/' ∉ u) :
    (s ++ slashed segs).splitOn '/' = s :: segs := by
  induction segs generalizing s with
  | nil =>
    rw [slashed, List.flatMap_nil, List.append_nil]
    exact List.splitOn_eq_singleton hs
  | cons u segs ih =>
    have htail := ih (h u List.mem_cons_self) fun v hv => h v (List.mem_cons_of_mem u hv)
    rw [slashed_cons, List.splitOn_append_cons_self, htail, List.splitOn_eq_singleton hs]
    rfl

theorem splitOn_slashed (hne : segs ≠ []) (h : ∀ u ∈ segs, '/' ∉ u) :
    (slashed segs).splitOn '/' = [] :: segs := by
  obtain ⟨u, rest, rfl⟩ := List.exists_cons_of_ne_nil hne
  have htail : (u ++ slashed rest).splitOn '/' = u :: rest :=
    splitOn_append_slashed (h u List.mem_cons_self) fun v hv => h v (List.mem_cons_of_mem u hv)
  have hsplit := List.splitOn_append_cons_self [] (u ++ slashed rest) (a := '/')
  rw [slashed_cons, ← htail]
  exact hsplit

theorem bytes_slashed (hp : keep '%' = false) (segs : List Str) :
    bytes (slashed (segs.map (escape keep))) =
      some ((slashed segs).flatMap String.utf8EncodeChar) := by
  induction segs with
  | nil => rfl
  | cons s segs ih =>
    have hslash : ('/' : Char) ≠ '%' := by decide
    rw [List.map_cons, slashed_cons, slashed_cons, bytes_cons hslash, bytes_escape hp, ih,
      List.flatMap_cons, List.flatMap_append]
    rfl

theorem unescape_slashed (hp : keep '%' = false) (segs : List Str) :
    unescape (slashed (segs.map (escape keep))) = some (slashed segs) :=
  unescape_of_bytes (bytes_slashed hp segs)

theorem escape_slashed (hs : keep '/' = true) (segs : List Str) :
    escape keep (slashed segs) = slashed (segs.map (escape keep)) := by
  induction segs with
  | nil => rfl
  | cons s segs ih =>
    have hhead : escapeChar keep '/' = ['/'] := if_pos hs
    rw [List.map_cons, slashed_cons, slashed_cons, ← ih, ← escape_append, escape,
      List.flatMap_cons, hhead]
    rfl

theorem slashed_escape_eq_iff (hp : keep '%' = false) (hp' : keep' '%' = false) :
    slashed (segs.map (escape keep)) = slashed (segs.map (escape keep')) ↔
      ∀ s ∈ segs, ∀ c ∈ s, keep c = keep' c := by
  induction segs with
  | nil => simp
  | cons s segs ih =>
    rw [List.map_cons, List.map_cons, slashed_cons, slashed_cons, List.cons_inj_right,
      escape_append_eq_iff hp hp', ih, List.forall_mem_cons]

/-! ## Dot segments -/

/-- The path segments that are left when `.` and `..` are resolved. -/
def dots : List Str → List Str → List Str
  | kept, [] => kept
  | kept, seg :: rest =>
    if seg = ".." then dots (kept.dropLast ++ if rest = [] then [[]] else []) rest
    else if seg = "." then dots (kept ++ if rest = [] then [[]] else []) rest
    else dots (kept ++ [seg]) rest

/-- A path with its dot segments resolved. -/
def removeDots (path : Str) : Str := '/' :: ['/'].intercalate (dots [] (path.splitOn '/').tail)

theorem dots_of_plain {kept segs : List Str} (h : ∀ seg ∈ segs, seg ≠ "." ∧ seg ≠ "..") :
    dots kept segs = kept ++ segs := by
  induction segs generalizing kept with
  | nil => simp [dots]
  | cons seg segs ih =>
    obtain ⟨hone, htwo⟩ := h seg List.mem_cons_self
    rw [dots, if_neg htwo, if_neg hone, ih fun s hs => h s (List.mem_cons_of_mem seg hs)]
    simp

theorem mem_dots {P : Str → Prop} (hnil : P []) {kept segs : List Str} (hkept : ∀ u ∈ kept, P u)
    (hsegs : ∀ u ∈ segs, u ≠ "." → u ≠ ".." → P u) : ∀ u ∈ dots kept segs, P u := by
  induction segs generalizing kept with
  | nil => exact hkept
  | cons seg segs ih =>
    have htail : ∀ u ∈ segs, u ≠ "." → u ≠ ".." → P u :=
      fun u hu => hsegs u (List.mem_cons_of_mem seg hu)
    have hend : ∀ u ∈ (if segs = [] then [[]] else [] : List Str), P u := by
      intro u hu
      split at hu
      · rw [List.mem_singleton.mp hu]
        exact hnil
      · exact nomatch hu
    unfold dots
    split
    · refine ih (fun u hu => ?_) htail
      rcases List.mem_append.mp hu with hu | hu
      · exact hkept u (List.mem_of_mem_dropLast hu)
      · exact hend u hu
    · rename_i htwo
      split
      · refine ih (fun u hu => ?_) htail
        rcases List.mem_append.mp hu with hu | hu
        · exact hkept u hu
        · exact hend u hu
      · rename_i hone
        refine ih (fun u hu => ?_) htail
        rcases List.mem_append.mp hu with hu | hu
        · exact hkept u hu
        · rw [List.mem_singleton.mp hu]
          exact hsegs seg List.mem_cons_self hone htwo

theorem intercalate_slash (s : Str) (segs : List Str) :
    ['/'].intercalate (s :: segs) = s ++ slashed segs := by
  induction segs generalizing s with
  | nil => simp [slashed]
  | cons u segs ih =>
    rw [slashed_cons, ← ih u, List.intercalate_cons_cons, List.append_assoc, List.singleton_append]

/-- Resolving a path of segments leaves one, without the dot segments. -/
theorem removeDots_slashed_mem {P : Str → Prop} (hnil : P []) (hne : segs ≠ [])
    (h : ∀ u ∈ segs, '/' ∉ u) (hsegs : ∀ u ∈ segs, u ≠ "." → u ≠ ".." → P u) :
    ∃ kept, kept ≠ [] ∧ removeDots (slashed segs) = slashed kept ∧ ∀ u ∈ kept, P u := by
  have hleft : ∀ u ∈ dots [] segs, P u := mem_dots hnil (fun u hu => nomatch hu) hsegs
  rw [removeDots, splitOn_slashed hne h, List.tail_cons]
  cases hdots : dots [] segs with
  | nil => exact ⟨[[]], by simp, rfl, fun u hu => List.mem_singleton.mp hu ▸ hnil⟩
  | cons u rest =>
    rw [hdots] at hleft
    refine ⟨u :: rest, List.cons_ne_nil _ _, ?_, hleft⟩
    rw [intercalate_slash, slashed_cons]

theorem removeDots_slashed (hne : segs ≠ []) (h : ∀ u ∈ segs, '/' ∉ u)
    (hdots : ∀ u ∈ segs, u ≠ "." ∧ u ≠ "..") : removeDots (slashed segs) = slashed segs := by
  obtain ⟨u, rest, rfl⟩ := List.exists_cons_of_ne_nil hne
  rw [removeDots, splitOn_slashed hne h, List.tail_cons, dots_of_plain hdots, List.nil_append,
    intercalate_slash, slashed_cons]

end Url
