import Nasd.Shares.Accepted
import Nasd.Shares.Regenerate

/-!
# Nasd.Shares.ExportsFile

`/etc/exports` read back with its own grammar: a path in double quotes, in which a backslash and
three octal digits stand for a byte and every other character for itself, then the clients with their
options.

* `serves_clients`         — the clients and their options.
* `exports_read_back_iff`  — the whole file.
-/

namespace Nasd
namespace Shares

open Text Go Sys

variable {σ : Type} {U : PrintTable} {O : OS σ} {s : Share} {ss : List Share} {t : Table}
  {h h' : Host σ} {c : Char} {p : Str}

/-! ## Reading -/

/-- `client(options)` -/
def readToken (w : Str) : Str × Str :=
  (w.takeWhile (· ≠ '('), ((w.dropWhile (· ≠ '(')).drop 1).dropLast)

def readExport (line : Str) : Option (List UInt8 × List (Str × Str)) :=
  match line with
  | '"' :: rest =>
    some (unescape (rest.takeWhile (· ≠ '"')),
      (words isBlank ((rest.dropWhile (· ≠ '"')).drop 1)).map readToken)
  | _ => none

/-- A comment, or an empty line. -/
def isSkipped (line : Str) : Bool := line = [] || line.head? = some '#'

def readExports (text : Str) : List (Option (List UInt8 × List (Str × Str))) :=
  ((lines text).filter fun l => !isSkipped l).map readExport

/-! ## What should be read -/

/-- What a rule says of its client. -/
inductive NFSRule.Asks (r : NFSRule) : Str → Prop
  | ro (h : r.perm = "ro") : Asks r "ro"
  | rw (h : r.perm ≠ "ro") : Asks r "rw"
  | sync (h : r.adv.sync = true) : Asks r "sync"
  | async (h : r.adv.sync = false) : Asks r "async"
  | noSubtreeCheck (h : r.adv.noSubtreeCheck = true) : Asks r "no_subtree_check"
  | subtreeCheck (h : r.adv.noSubtreeCheck = false) : Asks r "subtree_check"
  | secure (h : r.adv.secure = true) : Asks r "secure"
  | insecure (h : r.adv.secure = false) : Asks r "insecure"
  | allSquash (h : r.adv.allSquash = true) : Asks r "all_squash"
  | noRootSquash (h : r.adv.allSquash = false) (h' : r.adv.noRootSquash = true) :
      Asks r "no_root_squash"
  | rootSquash (h : r.adv.allSquash = false) (h' : r.adv.noRootSquash = false) :
      Asks r "root_squash"
  | crossmnt (h : r.adv.crossmnt = true) : Asks r "crossmnt"
  | anonuid (h : 0 < r.adv.anonuid) : Asks r ("anonuid=" ++ Itoa r.adv.anonuid)
  | anongid (h : 0 < r.adv.anongid) : Asks r ("anongid=" ++ Itoa r.adv.anongid)

/-- What is said of a host of a share without rules. -/
def HostAsks (readOnly : Bool) (w : Str) : Prop :=
  (w = if readOnly then ("ro" : Str) else "rw") ∨ w = "sync" ∨ w = "no_subtree_check"

/-- Between the parentheses stands every option that is asked for, once, and no other. -/
def OptionsAre (opts : Str) (asks : Str → Prop) : Prop :=
  (opts.splitOn ',').Nodup ∧ ∀ w, w ∈ opts.splitOn ',' ↔ asks w

/-- Everyone stands for a client without a name. -/
def NFSRule.Serves (r : NFSRule) (token : Str × Str) : Prop :=
  token.1 = orStar (trim isSpace r.client) ∧ OptionsAre token.2 r.Asks

def ServesHost (readOnly : Bool) (host : Str) (token : Str × Str) : Prop :=
  token.1 = host ∧ OptionsAre token.2 (HostAsks readOnly)

/-- The clients of an export in order: those of its rules, or else the allowed hosts, or everyone. -/
def Share.Serves (s : Share) (tokens : List (Str × Str)) : Prop :=
  if s.parseConfig.rules ≠ [] then List.Forall₂ NFSRule.Serves s.parseConfig.rules tokens
  else if s.allowedIPs ≠ [] then List.Forall₂ (ServesHost s.readOnly) s.allowedIPs tokens
  else List.Forall₂ (ServesHost s.readOnly) ["*"] tokens

def Share.IsExport (s : Share) (line : Option (List UInt8 × List (Str × Str))) : Prop :=
  ∃ tokens, line = some (utf8 s.path, tokens) ∧ s.Serves tokens

/-! ## Lines -/

/-- The options of a client are words between commas. -/
theorem clients_options {q : Str × Str} (hq : q ∈ s.clients) :
    ∃ ws, q.2 = Join ws "," ∧ AreWords ws := by
  unfold Share.clients at hq
  split at hq
  · obtain ⟨r, -, rfl⟩ := List.mem_map.mp hq
    exact ⟨nfsRuleOptList r, rfl, areWords_nfsRuleOptList r⟩
  · obtain ⟨host, -, rfl⟩ := List.mem_map.mp hq
    refine ⟨[if s.readOnly then "ro" else "rw", "sync", "no_subtree_check"], ?_,
      .cons ?_ (.cons (ofChars rfl) (.cons (ofChars rfl) nofun))⟩
    · rw [Join_cons_cons]
      rfl
    · cases s.readOnly <;> exact ofChars rfl

theorem mem_idOpts {key w : Str} {id : Int} :
    w ∈ idOpts key id ↔ 0 < id ∧ w = key ++ '=' :: Itoa id := by
  unfold idOpts
  split
  · rename_i hpos
    rw [List.mem_singleton]
    exact (and_iff_right hpos).symm
  · rename_i hneg
    exact ⟨fun h => absurd h List.not_mem_nil, fun h => absurd h.1 hneg⟩

/-- The options that `ApplyNFS` writes for a rule are what the rule says. -/
theorem mem_nfsRuleOptList {r : NFSRule} {w : Str} : w ∈ nfsRuleOptList r ↔ r.Asks w := by
  have hcross : w ∈ (if r.adv.crossmnt = true then [("crossmnt" : Str)] else []) ↔
      r.adv.crossmnt = true ∧ w = "crossmnt" := by
    cases r.adv.crossmnt <;> simp
  simp only [nfsRuleOptList, List.mem_cons, List.mem_append, mem_idOpts, hcross]
  constructor
  · rintro (rfl | rfl | rfl | rfl | rfl | (⟨hc, rfl⟩ | ⟨hid, rfl⟩) | ⟨hid, rfl⟩)
    · split
      · exact .ro ‹_›
      · exact .rw ‹_›
    · split
      · exact .sync ‹_›
      · exact .async (Bool.eq_false_iff.mpr ‹_›)
    · split
      · exact .noSubtreeCheck ‹_›
      · exact .subtreeCheck (Bool.eq_false_iff.mpr ‹_›)
    · split
      · exact .secure ‹_›
      · exact .insecure (Bool.eq_false_iff.mpr ‹_›)
    · unfold squashOpt
      split
      · exact .allSquash ‹_›
      · rename_i hall
        split
        · exact .noRootSquash (Bool.eq_false_iff.mpr hall) ‹_›
        · exact .rootSquash (Bool.eq_false_iff.mpr hall) (Bool.eq_false_iff.mpr ‹_›)
    · exact .crossmnt hc
    · exact .anonuid hid
    · exact .anongid hid
  · intro h
    cases h with
    | ro h => exact .inl (if_pos h).symm
    | rw h => exact .inl (if_neg h).symm
    | sync h => exact .inr (.inl (if_pos h).symm)
    | async h => exact .inr (.inl (if_neg (Bool.eq_false_iff.mp h)).symm)
    | noSubtreeCheck h => exact .inr (.inr (.inl (if_pos h).symm))
    | subtreeCheck h => exact .inr (.inr (.inl (if_neg (Bool.eq_false_iff.mp h)).symm))
    | secure h => exact .inr (.inr (.inr (.inl (if_pos h).symm)))
    | insecure h => exact .inr (.inr (.inr (.inl (if_neg (Bool.eq_false_iff.mp h)).symm)))
    | allSquash h => exact .inr (.inr (.inr (.inr (.inl (if_pos h).symm))))
    | noRootSquash h h' =>
      refine .inr (.inr (.inr (.inr (.inl ?_))))
      rw [squashOpt, h, h']
      rfl
    | rootSquash h h' =>
      refine .inr (.inr (.inr (.inr (.inl ?_))))
      rw [squashOpt, h, h']
      rfl
    | crossmnt h => exact .inr (.inr (.inr (.inr (.inr (.inl (.inl ⟨h, rfl⟩))))))
    | anonuid h => exact .inr (.inr (.inr (.inr (.inr (.inl (.inr ⟨h, rfl⟩))))))
    | anongid h => exact .inr (.inr (.inr (.inr (.inr (.inr ⟨h, rfl⟩)))))

theorem squashOpt_mem (a : NFSAdv) :
    squashOpt a ∈ [("all_squash" : Str), "no_root_squash", "root_squash"] := by
  unfold squashOpt
  cases a.allSquash <;> cases a.noRootSquash <;> decide

theorem nodup_idOpts (key : Str) (id : Int) : (idOpts key id).Nodup := by
  unfold idOpts
  split
  · exact List.nodup_singleton _
  · exact List.nodup_nil

/-- The words without a value, for every choice of them. -/
theorem nodup_flags : ∀ a b c d : Bool, ∀ e ∈ [("all_squash" : Str), "no_root_squash", "root_squash"],
    ∀ f : Bool, ((if a then ("ro" : Str) else "rw") :: (if b then "sync" else "async") ::
      (if c then "no_subtree_check" else "subtree_check") ::
      (if d then "secure" else "insecure") :: e ::
      (if f then [("crossmnt" : Str)] else [])).Nodup ∧
    ∀ w ∈ ((if a then ("ro" : Str) else "rw") :: (if b then "sync" else "async") ::
      (if c then "no_subtree_check" else "subtree_check") ::
      (if d then "secure" else "insecure") :: e ::
      (if f then [("crossmnt" : Str)] else [])), '=' ∉ w := by decide +kernel

/-- No option is given twice: the words with a value are not among those without, and their keys
differ. -/
theorem nodup_nfsRuleOptList (r : NFSRule) : (nfsRuleOptList r).Nodup := by
  obtain ⟨hflags, hplain⟩ := nodup_flags (r.perm = "ro") r.adv.sync r.adv.noSubtreeCheck
    r.adv.secure (squashOpt r.adv) (squashOpt_mem r.adv) r.adv.crossmnt
  simp only [decide_eq_true_eq] at hflags hplain
  have hvalue : ∀ {key w : Str} {id : Int}, w ∈ idOpts key id → '=' ∈ w := by
    intro key w id hw
    rw [(mem_idOpts.mp hw).2]
    exact List.mem_append_right _ List.mem_cons_self
  have huid := List.nodup_append'.mpr ⟨hflags, nodup_idOpts "anonuid" r.adv.anonuid,
    fun w hw hw' => hplain w hw (hvalue hw')⟩
  refine List.nodup_append'.mpr ⟨huid, nodup_idOpts "anongid" r.adv.anongid, fun w hw hw' => ?_⟩
  rcases List.mem_append.mp hw with hw | hw
  · exact hplain w hw (hvalue hw')
  · have hletter := congrArg (·[4]?) ((mem_idOpts.mp hw).2.symm.trans (mem_idOpts.mp hw').2)
    exact absurd hletter (by simp)

theorem optionsAre_join {ws : List Str} {asks : Str → Prop} (hne : ws ≠ []) (hwords : AreWords ws)
    (hnodup : ws.Nodup) (hmem : ∀ w, w ∈ ws ↔ asks w) : OptionsAre (Join ws ",") asks := by
  rw [OptionsAre, splitOn_join hne hwords]
  exact ⟨hnodup, hmem⟩

theorem servesHost_written (readOnly : Bool) (host : Str) :
    ServesHost readOnly host
      (host, (if readOnly then ("ro" : Str) else "rw") ++ ",sync,no_subtree_check") := by
  have hopts : (if readOnly then ("ro" : Str) else "rw") ++ ",sync,no_subtree_check" =
      Join [if readOnly then ("ro" : Str) else "rw", "sync", "no_subtree_check"] "," := by
    rw [Join_cons_cons]
    rfl
  refine ⟨rfl, ?_⟩
  rw [hopts]
  refine optionsAre_join (List.cons_ne_nil _ _) ?_ ?_ fun w => ?_
  · refine .cons ?_ (.cons (ofChars rfl) (.cons (ofChars rfl) nofun))
    cases readOnly <;> exact ofChars rfl
  · cases readOnly <;> decide
  · simp only [List.mem_cons, List.not_mem_nil, or_false, HostAsks]

/-- The clients that `ApplyNFS` writes are those that it should. -/
theorem serves_clients (s : Share) : s.Serves s.clients := by
  unfold Share.Serves Share.clients
  split
  · rw [List.forall₂_map_right_iff, List.forall₂_same]
    exact fun r _ => ⟨rfl, optionsAre_join (List.cons_ne_nil _ _) (areWords_nfsRuleOptList r)
      (nodup_nfsRuleOptList r) fun w => mem_nfsRuleOptList⟩
  · dsimp only
    by_cases hhosts : s.allowedIPs = []
    · rw [if_neg (not_not.mpr hhosts), if_pos hhosts]
      exact .cons (servesHost_written s.readOnly "*") .nil
    · rw [if_pos hhosts, if_neg hhosts, List.forall₂_map_right_iff, List.forall₂_same]
      exact fun host _ => servesHost_written s.readOnly host

theorem clientTokens_clean (hs : s.Exportable) {w : Str} (hw : w ∈ s.clientTokens) :
    w ≠ [] ∧ ∀ c ∈ w, isBlank c = false ∧ c ≠ '\n' := by
  obtain ⟨q, hq, rfl⟩ := List.mem_map.mp hw
  obtain ⟨ws, hopts, hwords⟩ := clients_options hq
  have hclient := (hs.clients q hq).not_mem
  refine ⟨by simp, fun c hc => ?_⟩
  have hsep : ∀ d ∈ [' ', '\t', '\n'], c ≠ d := by
    rintro d hd rfl
    simp only [List.append_assoc, List.cons_append, List.mem_append, List.mem_cons,
      List.not_mem_nil, or_false] at hc
    have hbad : c ∈ badClientChars ∧ isOptionChar c = false ∧ c ≠ ',' ∧ c ≠ '(' ∧ c ≠ ')' := by
      simp only [List.mem_cons, List.not_mem_nil, or_false] at hd
      rcases hd with rfl | rfl | rfl <;> decide
    rcases hc with hc | hc | hc | hc
    · exact hclient c hbad.1 hc
    · exact hbad.2.2.2.1 hc
    · rw [hopts] at hc
      exact not_mem_join hwords hbad.2.1 hbad.2.2.1 hc
    · exact hbad.2.2.2.2 hc
  refine ⟨?_, hsep '\n' (by simp)⟩
  rw [isBlank, Bool.or_eq_false_iff, decide_eq_false_iff_not, decide_eq_false_iff_not]
  exact ⟨hsep ' ' (by simp), hsep '\t' (by simp)⟩

theorem readToken_client {client opts : Str} (hclient : '(' ∉ client) :
    readToken (client ++ '(' :: opts ++ [')']) = (client, opts) := by
  have hpre : ∀ c ∈ client, decide (c ≠ '(') = true := by
    intro c hc
    rw [decide_eq_true_eq]
    rintro rfl
    exact hclient hc
  have hline : client ++ '(' :: opts ++ [')'] = client ++ ('(' :: (opts ++ [')'])) := by simp
  rw [readToken, hline, List.takeWhile_append_of_pos hpre, List.dropWhile_append_of_pos hpre]
  simp

theorem readExport_text (hs : s.Exportable) (hquotes : '"' ∉ s.path) :
    readExport (s.exportText U) = some (unescape (quoted U s.path), s.clients) := by
  have hpre : ∀ c ∈ quoted U s.path, decide (c ≠ '"') = true := fun c hc =>
    decide_eq_true (quoted_clean hquotes c hc).1
  have hline : s.exportText U =
      '"' :: (quoted U s.path ++ '"' :: s.clientTokens.flatMap (' ' :: ·)) := by
    simp [Share.exportText, Quote, quoted]
  have hwords : words isBlank (s.clientTokens.flatMap (' ' :: ·)) = s.clientTokens :=
    words_flatMap_cons rfl fun w hw =>
      ⟨(clientTokens_clean hs hw).1, fun c hc => ((clientTokens_clean hs hw).2 c hc).1⟩
  have htokens : s.clientTokens.map readToken = s.clients := by
    rw [Share.clientTokens, List.map_map]
    conv_rhs => rw [← List.map_id s.clients]
    refine List.map_congr_left fun q hq => ?_
    exact readToken_client ((hs.clients q hq).not_mem _ (by decide))
  rw [hline, readExport, List.takeWhile_append_of_pos hpre, List.dropWhile_append_of_pos hpre]
  simp [hwords, htokens]

theorem exportText_oneLine (hs : s.Exportable) (hquotes : '"' ∉ s.path) : '\n' ∉ s.exportText U := by
  intro hmem
  simp only [Share.exportText, Quote, List.cons_append, List.append_assoc, List.mem_cons,
    List.mem_append, List.not_mem_nil, false_or] at hmem
  rcases hmem with hc | hc | hc | hc
  · cases hc
  · exact (quoted_clean hquotes _ hc).2 rfl
  · cases hc
  · obtain ⟨w, hw, hc⟩ := List.mem_flatMap.mp hc
    rcases List.mem_cons.mp hc with hc | hc
    · cases hc
    · exact ((clientTokens_clean hs hw).2 _ hc).2 rfl

theorem readExports_text (hss : ∀ s ∈ ss, s.Exportable) (hquotes : ∀ s ∈ ss, '"' ∉ s.path) :
    readExports (exportsHeader ++ ss.flatMap fun s => s.exportText U ++ ['\n']) =
      ss.map fun s => some (unescape (quoted U s.path), s.clients) := by
  have htext : (exportsHeader ++ ss.flatMap fun s => s.exportText U ++ ['\n']) =
      ("# Generato da nasd - non modificare a mano" : Str) ++
        '\n' :: (ss.map (Share.exportText U)).flatMap (· ++ ['\n']) := by
    have hheader : exportsHeader =
        ("# Generato da nasd - non modificare a mano" : Str) ++ ['\n'] := by decide
    rw [List.flatMap_map, hheader, List.append_assoc, List.singleton_append]
  have hfirst : lines ("# Generato da nasd - non modificare a mano" : Str) =
      [("# Generato da nasd - non modificare a mano" : Str)] := lines_of_not_mem (by decide)
  have hone : ∀ l ∈ ss.map (Share.exportText U), '\n' ∉ l := by
    intro l hl
    obtain ⟨s, hs, rfl⟩ := List.mem_map.mp hl
    exact exportText_oneLine (hss s hs) (hquotes s hs)
  have hkeep : (ss.map (Share.exportText U)).filter (fun l => !isSkipped l) =
      ss.map (Share.exportText U) := by
    refine List.filter_eq_self.mpr fun l hl => ?_
    obtain ⟨s, -, rfl⟩ := List.mem_map.mp hl
    simp [isSkipped, Share.exportText, Quote]
  rw [readExports, htext, lines_append_newline, hfirst, lines_terminated hone,
    List.filter_append, List.filter_append, hkeep]
  have hcomment : [("# Generato da nasd - non modificare a mano" : Str)].filter
      (fun l => !isSkipped l) = [] := rfl
  have hlast : ([[]] : List Str).filter (fun l => !isSkipped l) = [] := rfl
  rw [hcomment, hlast, List.nil_append, List.append_nil, List.map_map]
  exact List.map_congr_left fun s hs => readExport_text (hss s hs) (hquotes s hs)

/-! ## The whole file -/

/-- The file that a successful `ApplyNFS` writes for accepted shares gives back their paths, and
their clients with their options, exactly when every path is made of printable characters other than
the backslash. -/
theorem exports_read_back_iff (ht : t.Accepted)
    (hok : ApplyNFS U O (loadShares t) h = (.ok (), h')) :
    (∃ text, h'.files exportsPath = some text ∧
      List.Forall₂ Share.IsExport ((loadShares t).filter Share.isExport) (readExports text)) ↔
    ∀ s ∈ (loadShares t).filter Share.isExport, ∀ c ∈ s.path, U.isPrint c = true ∧ c ≠ '\\' := by
  obtain ⟨hexports, hops⟩ := ApplyNFS_ok_iff.mp hok
  have hfile := nfsOps_file hops
  have hquotes : ∀ s ∈ (loadShares t).filter Share.isExport, '"' ∉ s.path := by
    intro s hs
    have hvalid := validateShare_ok (ht.valid (List.mem_of_mem_filter hs))
    exact containsAny_false.mp hvalid.2.2.2 _ (by decide)
  have hread := readExports_text (U := U) hexports hquotes
  have hpath : ∀ s ∈ (loadShares t).filter Share.isExport,
      s.IsExport (some (unescape (quoted U s.path), s.clients)) ↔
        ∀ c ∈ s.path, U.isPrint c = true ∧ c ≠ '\\' := by
    intro s hs
    rw [← unescape_quoted_iff (hquotes s hs)]
    constructor
    · rintro ⟨tokens, hsame, -⟩
      exact (Prod.mk.inj (Option.some.inj hsame)).1
    · intro hsame
      exact ⟨s.clients, by rw [hsame], serves_clients s⟩
  rw [hfile]
  simp only [Option.some.injEq, exists_eq_left', hread]
  rw [List.forall₂_map_right_iff, List.forall₂_same]
  exact forall₂_congr hpath

/-- An export of this folder to everyone. -/
def inFolder (path : Str) : Share := ⟨"a", '/' :: path, NFS, false, [], [], true, none⟩

def inFolderTable (path : Str) (hv : validateShare (inFolder path) = .ok ()) : Table :=
  (Table.empty.insert ⟨inFolder path, hv⟩).after .empty

theorem inFolderTable_accepted (path : Str) (hv : validateShare (inFolder path) = .ok ()) :
    (inFolderTable path hv).Accepted := by
  intro r hr
  rw [List.mem_singleton.mp hr]
  exact ⟨⟨inFolder path, hv⟩, rfl⟩

theorem exports_read_back_folder :
    ∃ text, (ApplyNFS .asciiOnly .faultless (loadShares (inFolderTable "a b" rfl))
        (.start () fun _ => none)).2.files exportsPath = some text ∧
      List.Forall₂ Share.IsExport ((loadShares (inFolderTable "a b" rfl)).filter Share.isExport)
        (readExports text) := by
  have hclients : ∀ s ∈ loadShares (inFolderTable "a b" rfl), s.isExport = true →
      ∀ p ∈ s.clients, Accepts p.1 := by decide
  have hplain : ∀ s ∈ (loadShares (inFolderTable "a b" rfl)).filter Share.isExport,
      s.path.all (fun c => PrintTable.asciiOnly.isPrint c && c ≠ '\\') = true := by decide
  refine (exports_read_back_iff (inFolderTable_accepted "a b" rfl)
    (Prod.ext ((ApplyNFS_accepts_iff OS.faultless_works (inFolderTable_accepted "a b" rfl)).mpr
      hclients) rfl)).mpr fun s hs c hc => ?_
  simpa using List.all_eq_true.mp (hplain s hs) c hc

/-- One backslash in the path, two in what is read back. -/
theorem exports_backslash_doubled :
    validateShare (inFolder "a\\b") = .ok () ∧
    (ApplyNFS .asciiOnly .faultless (loadShares (inFolderTable "a\\b" rfl))
      (.start () fun _ => none)).1 = .ok () ∧
    ((ApplyNFS .asciiOnly .faultless (loadShares (inFolderTable "a\\b" rfl))
      (.start () fun _ => none)).2.files exportsPath).map
        (fun text => (readExports text).map (·.map (·.1))) = some [some (utf8 "/a\\\\b")] ∧
    utf8 "/a\\\\b" ≠ utf8 (inFolder "a\\b").path :=
  ⟨rfl, by decide, by decide, by decide⟩

end Shares
end Nasd
