import Nasd.Lib.Url

/-!
# Nasd.Lib.Query

The query of a URL: pairs of a key and an encoded value, put together and taken apart.

* `escape_escape`, `escape_writeQuery` — two encoders one after the other are one.
* `parseQuery_write` — what was written is read back, whatever the values are.
-/

namespace Url

open Text

abbrev Values := List (Str × Str)

variable {keep keep' : Char → Bool} {k s v : Str} {c : Char} {kvs : Values}

/-! ## Reading -/

def plusToSpace (s : Str) : Str := s.map fun c => if c = '+' then ' ' else c

/-- The value of an encoded text in a query. -/
def queryUnescape (s : Str) : Option Str := unescape (plusToSpace s)

/-- A pair with a semicolon in it, or with a part that cannot be read, is left out. -/
def parsePair (p : Str) : Option (Str × Str) :=
  if p = [] ∨ ';' ∈ p then none
  else match queryUnescape (p.takeWhile (· ≠ '=')) with
    | none => none
    | some k => (queryUnescape ((p.dropWhile (· ≠ '=')).drop 1)).map fun v => (k, v)

def parseQuery (q : Str) : Values := (q.splitOn '&').filterMap parsePair

/-- The first value of a key. -/
def Values.Get (kvs : Values) (key : Str) : Str := (kvs.lookup key).getD []

/-! ## Writing -/

def writePair (keep : Char → Bool) (kv : Str × Str) : Str := kv.1 ++ '=' :: escape keep kv.2

def writeQuery (keep : Char → Bool) (kvs : Values) : Str :=
  ['&'].intercalate (kvs.map (writePair keep))

/-- A key that is not empty and has nothing in it that a query gives a meaning to. -/
def PlainKey (k : Str) : Prop := k ≠ [] ∧ ∀ c ∈ k, c ∉ ['%', '&', '+', ';', '=']

instance (k : Str) : Decidable (PlainKey k) := inferInstanceAs (Decidable (_ ∧ _))

/-- The encoder writes none of the characters that separate values as they are. -/
def Separates (keep : Char → Bool) : Prop := ∀ c ∈ ['%', '&', '+', ';'], keep c = false

theorem writeQuery_singleton : writeQuery keep [(k, v)] = k ++ '=' :: escape keep v := by
  simp [writeQuery, writePair]

theorem writeQuery_cons_cons {kv kv' : Str × Str} : writeQuery keep (kv :: kv' :: kvs) =
    kv.1 ++ '=' :: (escape keep kv.2 ++ '&' :: writeQuery keep (kv' :: kvs)) := by
  simp [writeQuery, writePair, List.intercalate_cons_cons]

theorem mem_writeQuery {P : Char → Prop} (heq : P '=') (hamp : P '&')
    (hkeys : ∀ kv ∈ kvs, ∀ c ∈ kv.1, P c) (hvalues : ∀ kv ∈ kvs, ∀ c ∈ escape keep kv.2, P c) :
    ∀ c ∈ writeQuery keep kvs, P c := by
  induction kvs with
  | nil => exact fun c hc => nomatch hc
  | cons kv rest ih =>
    have htail : ∀ c ∈ writeQuery keep rest, P c :=
      ih (fun kv' hkv' => hkeys kv' (List.mem_cons_of_mem kv hkv'))
        fun kv' hkv' => hvalues kv' (List.mem_cons_of_mem kv hkv')
    have hpair : ∀ c ∈ kv.1 ++ '=' :: escape keep kv.2, P c := by
      intro c hc
      simp only [List.mem_append, List.mem_cons] at hc
      rcases hc with hc | rfl | hc
      · exact hkeys kv List.mem_cons_self c hc
      · exact heq
      · exact hvalues kv List.mem_cons_self c hc
    cases rest with
    | nil => rwa [writeQuery_singleton]
    | cons kv' rest =>
      intro c hc
      rw [writeQuery_cons_cons, ← List.cons_append, ← List.append_assoc, List.mem_append,
        List.mem_cons] at hc
      rcases hc with hc | rfl | hc
      · exact hpair c hc
      · exact hamp
      · exact htail c hc

/-! ## Two encoders -/

theorem escape_percent (hp : keep '%' = true) (hhex : ∀ i : Fin 16, keep (hexDigit i) = true)
    (b : UInt8) : escape keep (percent b) = percent b := by
  have hlt : b.toNat < 256 := b.toNat_lt
  refine escape_of_kept fun c hc => ?_
  simp only [percent, List.mem_cons, List.not_mem_nil, or_false] at hc
  rcases hc with rfl | rfl | rfl
  · exact hp
  · exact hhex ⟨b.toNat / 16, by omega⟩
  · exact hhex ⟨b.toNat % 16, by omega⟩

theorem escape_percents (hp : keep '%' = true) (hhex : ∀ i : Fin 16, keep (hexDigit i) = true)
    (bs : List UInt8) : escape keep (bs.flatMap percent) = bs.flatMap percent := by
  induction bs with
  | nil => rfl
  | cons b bs ih => rw [List.flatMap_cons, escape_append, escape_percent hp hhex, ih]

/-- An encoder that leaves escapes alone adds its own characters to those of the first one. -/
theorem escape_escape (hp : keep' '%' = true) (hhex : ∀ i : Fin 16, keep' (hexDigit i) = true)
    (s : Str) : escape keep' (escape keep s) = escape (fun c => keep c && keep' c) s := by
  induction s with
  | nil => rfl
  | cons c s ih =>
    have hcons : ∀ k : Char → Bool, escape k (c :: s) = escapeChar k c ++ escape k s :=
      fun k => List.flatMap_cons
    have hchar : escape keep' (escapeChar keep c) = escapeChar (fun c => keep c && keep' c) c := by
      cases hk : keep c with
      | true =>
        have hone : escape keep' [c] = escapeChar keep' c := List.flatMap_singleton ..
        simp only [escapeChar, hk, if_true, Bool.true_and] at hone ⊢
        exact hone
      | false =>
        simp only [escapeChar, hk, Bool.false_and, Bool.false_eq_true, if_false]
        exact escape_percents hp hhex _
    rw [hcons, hcons, escape_append, hchar, ih]

theorem escape_writePair (hp : keep' '%' = true) (hhex : ∀ i : Fin 16, keep' (hexDigit i) = true)
    (heq : keep' '=' = true) (hkey : ∀ c ∈ k, keep' c = true) :
    escape keep' (writePair keep (k, v)) = writePair (fun c => keep c && keep' c) (k, v) := by
  have hcons : escape keep' ('=' :: escape keep v) = '=' :: escape keep' (escape keep v) := by
    rw [escape, List.flatMap_cons, escapeChar, if_pos heq]
    rfl
  rw [writePair, writePair, escape_append, escape_of_kept hkey, hcons, escape_escape hp hhex]

/-- An encoder that leaves the keys and the separators alone adds its own characters to those of the
values. -/
theorem escape_writeQuery (hp : keep' '%' = true) (hhex : ∀ i : Fin 16, keep' (hexDigit i) = true)
    (heq : keep' '=' = true) (hamp : keep' '&' = true)
    (hkeys : ∀ kv ∈ kvs, ∀ c ∈ kv.1, keep' c = true) :
    escape keep' (writeQuery keep kvs) = writeQuery (fun c => keep c && keep' c) kvs := by
  unfold writeQuery
  induction kvs with
  | nil => rfl
  | cons kv rest ih =>
    have hhead : escape keep' (writePair keep kv) = writePair (fun c => keep c && keep' c) kv :=
      escape_writePair hp hhex heq (hkeys kv (by simp))
    have htail := ih fun kv' hkv' => hkeys kv' (List.mem_cons_of_mem kv hkv')
    cases rest with
    | nil => simpa using hhead
    | cons kv' rest =>
      have hsep : escape keep' ['&'] = ['&'] := escape_of_kept (by simpa using hamp)
      simp only [List.map_cons] at htail ⊢
      rw [List.intercalate_cons_cons, List.intercalate_cons_cons, escape_append, escape_append,
        htail, hsep]
      exact congrArg (fun u => u ++ ['&'] ++ _) hhead

/-! ## Round trip -/

theorem hexDigit_plain : ∀ i : Fin 16, ∀ c ∈ ['%', '&', '+', ';'], hexDigit i ≠ c := by
  decide

theorem escape_plain (hk : Separates keep) (hc : c ∈ ['&', '+', ';']) : c ∉ escape keep v := by
  have hmem : c ∈ ['%', '&', '+', ';'] := List.mem_cons_of_mem _ hc
  refine not_mem_escape (hk c hmem) ?_ fun i => hexDigit_plain i c hmem
  rintro rfl
  simp at hc

theorem plusToSpace_of_plain (h : '+' ∉ s) : plusToSpace s = s := by
  have hchar : ∀ c ∈ s, (if c = '+' then ' ' else c) = c := by
    intro c hc
    refine if_neg ?_
    rintro rfl
    exact h hc
  rw [plusToSpace, List.map_congr_left hchar, List.map_id']

theorem unescape_plain (h : '%' ∉ s) : unescape s = some s := by
  have hself : escape (fun c => c != '%') s = s := escape_of_kept fun c hc => by
    rw [bne_iff_ne]
    rintro rfl
    exact h hc
  have hread : unescape (escape (fun c => c != '%') s) = some s := unescape_escape rfl s
  rwa [hself] at hread

theorem parsePair_write (hk : Separates keep) (hkey : PlainKey k) :
    parsePair (writePair keep (k, v)) = some (k, v) := by
  obtain ⟨hne, hplain⟩ := hkey
  have hmem : ∀ c, c ∈ k → c ≠ '%' ∧ c ≠ '&' ∧ c ≠ '+' ∧ c ≠ ';' ∧ c ≠ '=' := by
    intro c hc
    simpa using hplain c hc
  have hcut : (k ++ '=' :: escape keep v).takeWhile (· ≠ '=') = k ∧
      (k ++ '=' :: escape keep v).dropWhile (· ≠ '=') = '=' :: escape keep v := by
    constructor
    · rw [List.takeWhile_append_of_pos (fun c hc => by simpa using (hmem c hc).2.2.2.2)]
      simp
    · rw [List.dropWhile_append_of_pos (fun c hc => by simpa using (hmem c hc).2.2.2.2)]
      simp
  have hsemi : ¬ (k ++ '=' :: escape keep v = [] ∨ ';' ∈ k ++ '=' :: escape keep v) := by
    rintro (hnil | hin)
    · simp at hnil
    · simp only [List.mem_append, List.mem_cons] at hin
      rcases hin with hin | hin | hin
      · exact (hmem _ hin).2.2.2.1 rfl
      · simp at hin
      · exact escape_plain hk (by simp) hin
  have hkeyRead : queryUnescape k = some k := by
    rw [queryUnescape, plusToSpace_of_plain fun h => (hmem _ h).2.2.1 rfl]
    exact unescape_plain fun h => (hmem _ h).1 rfl
  have hvalueRead : queryUnescape (escape keep v) = some v := by
    rw [queryUnescape, plusToSpace_of_plain (escape_plain hk (by simp))]
    exact unescape_escape (hk '%' (by simp)) v
  rw [writePair, parsePair, if_neg hsemi]
  simp only [hcut, hkeyRead, List.drop_one, List.tail_cons, hvalueRead, Option.map_some]

theorem not_mem_writePair (hk : Separates keep) (hkey : PlainKey k) :
    '&' ∉ writePair keep (k, v) := by
  intro hin
  simp only [writePair, List.mem_append, List.mem_cons] at hin
  rcases hin with hin | hin | hin
  · have hplain := hkey.2 _ hin
    simp at hplain
  · simp at hin
  · exact escape_plain hk (by simp) hin

/-- What was written is read back, in its order. -/
theorem parseQuery_write (hk : Separates keep) (hkeys : ∀ kv ∈ kvs, PlainKey kv.1)
    (hne : kvs ≠ []) : parseQuery (writeQuery keep kvs) = kvs := by
  have hsplit : (writeQuery keep kvs).splitOn '&' = kvs.map (writePair keep) := by
    refine List.splitOn_intercalate '&' (fun l hl => ?_) (by simpa using hne)
    obtain ⟨kv, hkv, rfl⟩ := List.mem_map.mp hl
    exact not_mem_writePair hk (hkeys kv hkv)
  have hread : ∀ kv ∈ kvs, (parsePair ∘ writePair keep) kv = some kv :=
    fun kv hkv => parsePair_write hk (hkeys kv hkv)
  rw [parseQuery, hsplit, List.filterMap_map, List.filterMap_congr hread, List.filterMap_some]

end Url
