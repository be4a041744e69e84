import Mathlib.Data.List.Nodup
import Nasd.Raid.MountTable

/-!
# Nasd.Raid.Mounts

The mounted arrays and the entries of `/etc/fstab`, along runs of `CreateFilesystem`, `MountOnly`
and `UnmountFilesystem` on the machine of `Nasd.Raid.MountTable`.

* `exec_effect`            — an operation as a step on the mounts and the text of fstab.
* `effect_matches_iff`     — an operation keeps the two together exactly when it meets its guard.
* `mounts_match_fstab_iff` — along runs.
-/

namespace Nasd
namespace Raid

open Text Go Sys Machine

variable {δ : Type} {K : Kernel δ} {w : World δ} {t md mp fsType : Str}

/-! ## Agreement -/

/-- An array is mounted at a directory exactly when fstab has an entry there for its current UUID,
and no directory has two entries. -/
structure Matches (K : Kernel δ) (w : World δ) (t : Str) : Prop where
  mounted : ∀ {md}, ValidMDDevice md = true → ∀ d,
    (md, d) ∈ w.mounts ↔ (K.source w md, d) ∈ K.entries t
  unique : ((K.entries t).map Prod.snd).Nodup

/-- No line begins with the UUID of a filesystem of an array. -/
def NoArrays (K : Kernel δ) (t : Str) : Prop :=
  ∀ l ∈ lines t, ∀ {md}, ValidMDDevice md = true → ∀ n,
    (Fields l).head? ≠ some ("UUID=" ++ K.uuid md n)

/-- Those that do have the UUID of a filesystem that has been made. -/
def Fresh (K : Kernel δ) (w : World δ) (t : Str) : Prop :=
  ∀ l ∈ lines t, ∀ {md}, ValidMDDevice md = true → ∀ n,
    (Fields l).head? = some ("UUID=" ++ K.uuid md n) → n ≤ w.generation md

/-- The last line, where the file goes on, is blank. -/
def BlankEnd (t : Str) : Prop :=
  ∀ last, (lines t).getLast? = some last → ∀ c ∈ last, isBlank c = true

/-- What holds along a run that keeps to its guards: a file whose last line is not blank is one to
which nothing has been added. -/
structure Inv (K : Kernel δ) (w : World δ) (t : Str) : Prop where
  agree : Matches K w t
  fresh : Fresh K w t
  tail : BlankEnd t ∨ NoArrays K t

/-- A new entry for the mount point is read as one for its directory, the only one there. -/
def Fits (K : Kernel δ) (t mp : Str) : Prop :=
  BlankEnd t ∧ K.dir (K.unmangle (Kernel.field mp)) = K.dir mp ∧
    K.dir mp ∉ (K.entries t).map Prod.snd

theorem source_clean (hv : ValidMDDevice md = true) (n : Nat) :
    ∀ c ∈ ("UUID=" ++ K.uuid md n : Str), isSpace c = false := by
  have hprefix : ("UUID=" : Str).all (fun c => !isSpace c) = true := rfl
  intro c hc
  rcases List.mem_append.mp hc with hc | hc
  · simpa using List.all_eq_true.mp hprefix c hc
  · exact (K.uuid_clean hv n).2 c hc

theorem source_inj {md' : Str} (hv : ValidMDDevice md = true) (hv' : ValidMDDevice md' = true)
    {n n' : Nat} (heq : ("UUID=" ++ K.uuid md n : Str) = "UUID=" ++ K.uuid md' n') :
    md = md' ∧ n = n' :=
  K.uuid_inj hv hv' (List.append_cancel_left heq)

/-- No line with the source, no entry. -/
theorem not_mem_entries {src : Str} (hsrc : ∀ c ∈ src, isSpace c = false)
    (hno : ∀ l ∈ lines t, (Fields l).head? ≠ some src) (d : δ) : (src, d) ∉ K.entries t := by
  intro hmem
  obtain ⟨l, hl, hread⟩ := List.mem_filterMap.mp hmem
  exact hno l hl (Kernel.Fields_of_read hread hsrc)

theorem newline_not_mem_entry (hv : ValidMDDevice md = true) (hmp : validMountPoint mp = true)
    (hfs : fsType.any isSpace = false) : '\n' ∉ K.entry w md mp fsType := by
  have hsrc : '\n' ∉ K.source w md := fun hmem => by
    have hclean := source_clean (K := K) hv _ _ hmem
    cases hclean
  have hpath : '\n' ∉ mp := by
    simp only [validMountPoint, Bool.and_eq_true, Bool.not_eq_true', ContainsAny, List.any_eq_false]
      at hmp
    exact fun hmem => hmp.2 _ hmem (by decide)
  have htype : '\n' ∉ fsType := fun hmem => by
    have hno := List.any_eq_false.mp hfs _ hmem
    exact hno rfl
  have htail : '\n' ∉ ("\tnofail,x-systemd.device-timeout=10s\t0\t0" : Str) := by decide
  rw [Kernel.entry, Kernel.fstabEntry_eq]
  simp only [List.mem_append, List.mem_cons, not_or]
  exact ⟨hsrc, by decide, hpath, by decide, htype, htail⟩

section

variable (hv : ValidMDDevice md = true) (hmp : validMountPoint mp = true)
  (hfs : fsType.any isSpace = false)

include hv hmp hfs

/-- The line of an array after a blank last line. -/
theorem append_blank (hend : BlankEnd t) :
    K.entries ((Edit.append (K.entry w md mp fsType)).apply t) =
      K.entries t ++ [(K.source w md, K.dir (K.unmangle (Kernel.field mp)))] ∧
    BlankEnd ((Edit.append (K.entry w md mp fsType)).apply t) ∧
    ∀ l ∈ lines ((Edit.append (K.entry w md mp fsType)).apply t),
      l ∈ lines t ∨ l = [] ∨ (Fields l).head? = some (K.source w md) := by
  have hslash : HasPrefix mp "/" = true := by
    simp only [validMountPoint, Bool.and_eq_true] at hmp
    exact hmp.1
  obtain ⟨ls, last, hlast, hold, hlines, hnew⟩ :=
    Kernel.entries_append (K := K) (t := t) (newline_not_mem_entry (w := w) hv hmp hfs)
  have hblank : ∀ c ∈ last, isBlank c = true := hend last (by rw [hlast, List.getLast?_concat])
  have hclean : ∀ c ∈ K.source w md, isBlank c = false := by
    intro c hc
    by_contra hb
    have hspace := isSpace_of_isBlank (by simpa using hb)
    rw [source_clean hv _ c hc] at hspace
    cases hspace
  have hread : K.read (last ++ K.entry w md mp fsType) =
      some (K.source w md, K.dir (K.unmangle (Kernel.field mp))) :=
    Kernel.read_appended hblank hclean ⟨'U', _, rfl, by decide⟩ hslash
  rw [hnew, hold, hread, Kernel.read_blank hblank]
  refine ⟨by simp, ?_, ?_⟩
  · intro l hl
    rw [hlines, List.getLast?_append] at hl
    cases hl
    simp
  · intro l hl
    rw [hlines] at hl
    rcases List.mem_append.mp hl with hl | hl
    · exact .inl (hlast ▸ List.mem_append_left _ hl)
    · rcases List.mem_cons.mp hl with rfl | hl
      · exact .inr (.inr (Kernel.Fields_of_read hread (source_clean hv _)))
      · exact .inr (.inl (List.mem_singleton.mp hl))

/-- After a last line with words in it no entry of the array comes to be. -/
theorem append_glued (hend : ¬ BlankEnd t)
    (hno : ∀ l ∈ lines t, (Fields l).head? ≠ some (K.source w md)) (d : δ) :
    (K.source w md, d) ∉ K.entries ((Edit.append (K.entry w md mp fsType)).apply t) := by
  obtain ⟨ls, last, hlast, hold, hlines, hnew⟩ :=
    Kernel.entries_append (K := K) (t := t) (newline_not_mem_entry (w := w) hv hmp hfs)
  have hwords : ¬ ∀ c ∈ last, isBlank c = true := by
    intro hall
    refine hend fun l hl => ?_
    rw [hlast, List.getLast?_concat] at hl
    cases hl
    exact hall
  rw [hnew]
  intro hmem
  rcases List.mem_append.mp hmem with hmem | hmem
  · exact not_mem_entries (source_clean hv _) hno d (hold ▸ List.mem_append_left _ hmem)
  · rw [Option.mem_toList] at hmem
    exact hno last (hlast ▸ by simp) (Kernel.Fields_of_glued hmem (source_clean hv _) hwords)

theorem append_matches_iff (hinv : Inv K w t) :
    Matches K (w.push md (K.dir mp)) ((Edit.append (K.entry w md mp fsType)).apply t) ↔
      Fits K t mp := by
  have hsource : ∀ md', K.source (w.push md (K.dir mp)) md' = K.source w md' := fun _ => rfl
  constructor
  · intro hmatch
    have hnew := (hmatch.mounted hv (K.dir mp)).mp List.mem_cons_self
    by_cases hend : BlankEnd t
    · obtain ⟨hentries, -, -⟩ := append_blank (w := w) hv hmp hfs hend
      have hunique := hmatch.unique
      rw [hentries, List.map_append, List.map_singleton] at hunique
      obtain ⟨-, -, hdisjoint⟩ := List.nodup_append.mp hunique
      have hfresh : K.dir (K.unmangle (Kernel.field mp)) ∉ (K.entries t).map Prod.snd :=
        fun hmem => hdisjoint _ hmem _ (List.mem_singleton_self _) rfl
      suffices hdir : K.dir (K.unmangle (Kernel.field mp)) = K.dir mp from
        ⟨hend, hdir, hdir ▸ hfresh⟩
      -- the new entry is for a mount of the array, and not for an old one
      have hread : (K.source w md, K.dir (K.unmangle (Kernel.field mp))) ∈
          K.entries ((Edit.append (K.entry w md mp fsType)).apply t) := by
        rw [hentries]
        exact List.mem_append_right _ (List.mem_singleton_self _)
      rcases List.mem_cons.mp ((hmatch.mounted hv _).mpr hread) with hthis | hold
      · exact (Prod.mk.inj hthis).2
      · exact absurd (List.mem_map_of_mem ((hinv.agree.mounted hv _).mp hold)) hfresh
    · refine absurd hnew (append_glued hv hmp hfs hend ?_ _)
      exact fun l hl => (hinv.tail.resolve_left hend) l hl hv _
  · rintro ⟨hend, hdir, hfree⟩
    obtain ⟨hentries, -, -⟩ := append_blank (w := w) hv hmp hfs hend
    rw [hdir] at hentries
    refine ⟨fun {md'} hv' d => ?_, ?_⟩
    · rw [hentries, hsource, List.mem_append, List.mem_singleton, Prod.mk.injEq,
        ← hinv.agree.mounted hv' d, World.push, List.mem_cons, Prod.mk.injEq, or_comm]
      refine or_congr_right (and_congr_left' ⟨fun heq => heq ▸ rfl, fun heq => ?_⟩)
      exact (source_inj hv' hv heq).1
    · rw [hentries, List.map_append, List.map_singleton]
      refine List.nodup_append.mpr ⟨hinv.agree.unique, List.nodup_singleton _, ?_⟩
      intro d hd d' hd' heq
      have hmount : d = K.dir mp := heq.trans (List.mem_singleton.mp hd')
      exact hfree (hmount ▸ hd)

theorem append_inv (hinv : Inv K w t) (hfits : Fits K t mp) :
    Inv K (w.push md (K.dir mp)) ((Edit.append (K.entry w md mp fsType)).apply t) := by
  obtain ⟨-, hend, hlines⟩ := append_blank (w := w) hv hmp hfs hfits.1
  refine ⟨(append_matches_iff hv hmp hfs hinv).mpr hfits, ?_, .inl hend⟩
  intro l hl md' hv' n hhead
  rcases hlines l hl with hold | rfl | hnew
  · exact hinv.fresh l hold hv' n hhead
  · cases hhead
  · obtain ⟨rfl, rfl⟩ := source_inj hv hv' (Option.some.inj (hnew.symm.trans hhead))
    exact le_refl _

end

/-- Formatting an array that is not mounted. -/
theorem format_inv (hinv : Inv K w t) (hfree : ∀ d, (md, d) ∉ w.mounts) :
    Inv K (w.format md) t := by
  have hle : ∀ md', w.generation md' ≤ (w.format md).generation md' := by
    intro md'
    by_cases heq : md' = md
    · subst heq
      simp [World.format]
    · simp [World.format, heq]
  have hfresh : Fresh K (w.format md) t := fun l hl md' hv' n hhead =>
    (hinv.fresh l hl hv' n hhead).trans (hle md')
  refine ⟨⟨fun {md'} hv' d => ?_, hinv.agree.unique⟩, hfresh, hinv.tail⟩
  by_cases heq : md' = md
  · subst heq
    refine iff_of_false (hfree d) (not_mem_entries (source_clean hv' _) ?_ d)
    intro l hl hhead
    have hold := hinv.fresh l hl hv' _ hhead
    simp only [World.format, Function.update_self] at hold
    omega
  · have hsame : K.source (w.format md) md' = K.source w md' := by
      simp [Kernel.source, World.format, heq]
    rw [hsame]
    exact hinv.agree.mounted hv' d

/-- An entry that nasd finds is that of the array. -/
theorem Fields_of_found {l : Str} (hv : ValidMDDevice md = true)
    (hfound : TrimSpace l = K.entry w md mp fsType) :
    (Fields l).head? = some (K.source w md) := by
  have hclean : ∀ c ∈ K.source w md, isSpace c = false := source_clean hv _
  have hwords : Fields l = Fields (K.entry w md mp fsType) := by
    rw [← hfound]
    exact (words_trim (fun _ h => h) l).symm
  rw [hwords, Kernel.entry, Kernel.fstabEntry_eq, Fields, words_append_sep (c := '\t') rfl,
    words_of_clean (by simp [Kernel.source]) hclean]
  rfl

theorem create_new (hinv : Inv K w t) (hv : ValidMDDevice md = true) :
    K.entry (w.format md) md mp fsType ∉ (lines t).map TrimSpace := by
  intro hmem
  obtain ⟨l, hl, hfound⟩ := List.mem_map.mp hmem
  have hold := hinv.fresh l hl hv _ (Fields_of_found hv hfound)
  simp only [World.format, Function.update_self] at hold
  omega

theorem create_matches_iff (hinv : Inv K w t) (hv : ValidMDDevice md = true)
    (hmp : validMountPoint mp = true) (hfs : fsType.any isSpace = false) :
    Matches K ((w.format md).push md (K.dir mp))
        ((Edit.append (K.entry (w.format md) md mp fsType)).apply t) ↔
      (∀ d, (md, d) ∉ w.mounts) ∧ Fits K t mp := by
  constructor
  · intro hmatch
    have hno : ∀ l ∈ lines t, (Fields l).head? ≠ some (K.source (w.format md) md) := by
      intro l hl hhead
      have hold := hinv.fresh l hl hv _ hhead
      simp only [World.format, Function.update_self] at hold
      omega
    have hfree : ∀ d, (md, d) ∉ w.mounts := by
      intro d hd
      by_cases hend : BlankEnd t
      · -- the array's one new entry would be at both directories, beside the old entry
        obtain ⟨hentries, -, -⟩ := append_blank (w := w.format md) hv hmp hfs hend
        have hat : ∀ d', (md, d') ∈ ((w.format md).push md (K.dir mp)).mounts →
            d' = K.dir (K.unmangle (Kernel.field mp)) := by
          intro d' hd'
          have hmem := (hmatch.mounted hv d').mp hd'
          rw [hentries] at hmem
          rcases List.mem_append.mp hmem with hmem | hmem
          · exact absurd hmem (not_mem_entries (source_clean hv _) hno d')
          · exact (Prod.mk.inj (List.mem_singleton.mp hmem)).2
        have hunique := hmatch.unique
        rw [hentries, List.map_append, List.map_singleton] at hunique
        refine (List.nodup_append.mp hunique).2.2 d ?_ _ (List.mem_singleton_self _)
          (hat d (List.mem_cons_of_mem _ hd))
        exact List.mem_map_of_mem ((hinv.agree.mounted hv d).mp hd)
      · exact append_glued hv hmp hfs hend hno _
          ((hmatch.mounted hv _).mp List.mem_cons_self)
    exact ⟨hfree, (append_matches_iff hv hmp hfs (format_inv hinv hfree)).mp hmatch⟩
  · rintro ⟨hfree, hfits⟩
    exact (append_matches_iff hv hmp hfs (format_inv hinv hfree)).mpr hfits

/-! ## Operations -/

variable [DecidableEq δ] {h : Host (World δ)}

inductive FsOp where
  | create (md fsType mountPoint : Str)
  | mount (md fsType mountPoint : Str)
  | unmount (mountPoint : Str)
  deriving DecidableEq

def FsOp.exec (K : Kernel δ) (h : Host (World δ)) : FsOp → Host (World δ)
  | .create md fsType mp => (CreateFilesystem K.runner md fsType mp h).2
  | .mount md fsType mp => (MountOnly K.runner md fsType mp h).2
  | .unmount mp => (UnmountFilesystem K.runner mp h).2

/-- An operation that its checks let through. -/
def FsOp.Accepted : FsOp → Prop
  | .create md fsType mp =>
    ValidMDDevice md = true ∧ (validFS fsType).isSome ∧ validMountPoint mp = true
  | .mount md fsType mp =>
    ValidMDDevice md = true ∧ validMountPoint mp = true ∧ fsType.any isSpace = false
  | .unmount mp => validMountPoint mp = true

instance : (op : FsOp) → Decidable op.Accepted
  | .create md fsType mp => inferInstanceAs (Decidable
      (ValidMDDevice md = true ∧ (validFS fsType).isSome ∧ validMountPoint mp = true))
  | .mount md fsType mp => inferInstanceAs (Decidable
      (ValidMDDevice md = true ∧ validMountPoint mp = true ∧ fsType.any isSpace = false))
  | .unmount mp => inferInstanceAs (Decidable (validMountPoint mp = true))

/-- What an operation does to the mounts and to fstab. -/
def FsOp.effect (K : Kernel δ) (w : World δ) (t : Str) : FsOp → World δ × Str
  | .create md fsType mp =>
    let w' := (w.format md).push md (K.dir mp)
    (w', K.add w' md mp fsType t)
  | .mount md fsType mp =>
    let w' := w.push md (K.dir mp)
    (w', K.add w' md mp fsType t)
  | .unmount mp =>
    match w.mounts.find? (K.hits mp) with
    | none => (w, t)
    | some m => ({ w with mounts := w.mounts.erase m }, (Edit.remove mp).apply t)

theorem trim_clean {u : Str} (hne : u ≠ []) (hu : ∀ c ∈ u, isSpace c = false) :
    TrimSpace (u ++ "\n") = u := by
  have hself : TrimSpace u = u := trim_eq_self_iff.mpr
    ⟨fun c hc => hu c (List.mem_of_head? hc), fun c hc => hu c (List.mem_of_getLast? hc)⟩
  obtain ⟨c, cs, rfl⟩ := List.exists_cons_of_ne_nil hne
  have hc : isSpace c = false := hu c List.mem_cons_self
  have hdrop : (c :: cs ++ "\n" : Str).dropWhile isSpace = c :: cs ++ "\n" :=
    List.dropWhile_cons_of_neg (by simp [hc])
  have hdrop' : (c :: cs : Str).dropWhile isSpace = c :: cs :=
    List.dropWhile_cons_of_neg (by simp [hc])
  rw [TrimSpace, trim, hdrop'] at hself
  rw [TrimSpace, trim, hdrop]
  exact (List.rdropWhile_concat_pos (p := isSpace) (c :: cs) '\n' rfl).trans hself

theorem fstabSource_eq (hv : ValidMDDevice md = true) :
    fstabSource K.runner md h = (K.source h.env md, (h.run K.runner (blkid md)).2) := by
  obtain ⟨hne, hclean⟩ := K.uuid_clean hv (h.env.generation md)
  have hrun : (h.run K.runner (blkid md)).1 =
    ⟨K.uuid md (h.env.generation md) ++ "\n", [], none⟩ := rfl
  simp only [fstabSource, hrun, trim_clean hne hclean, hne, ne_eq, not_false_eq_true, if_true]
  rfl

theorem fstabAdd_effect (hv : ValidMDDevice md = true) (hfile : h.files fstab = some t) :
    (fstabAdd K.runner md mp fsType h).env = h.env ∧
      (fstabAdd K.runner md mp fsType h).files fstab = some (K.add h.env md mp fsType t) := by
  have hkept : (h.run K.runner (blkid md)).2.files fstab = some t := hfile
  simp only [fstabAdd, fstabSource_eq hv, hkept]
  by_cases hmem : fstabEntry (K.source h.env md) mp fsType ∈ (lines t).map TrimSpace
  · rw [if_pos hmem, Kernel.add_found hmem]
    exact ⟨rfl, hkept⟩
  · rw [if_neg hmem, Kernel.add_new hmem, Host.writeFile_self]
    exact ⟨rfl, rfl⟩

theorem validFS_clean {mc : Str × Str} (hfs : validFS fsType = some mc) :
    fsType.any isSpace = false := by
  rcases validFS_cases hfs with ⟨rfl, -⟩ | ⟨rfl, -⟩ | ⟨rfl, -⟩ | ⟨rfl, -⟩ <;> rfl

theorem ensureMkfs_eq (cmd fsType : Str) (h : Host (World δ)) :
    ensureMkfs K.runner cmd fsType h = (.ok (), (h.run K.runner (commandV cmd)).2) := rfl

theorem mountNew_eq {mc : Str × Str} (hv : ValidMDDevice md = true) (hfs : validFS fsType = some mc)
    (hmp : validMountPoint mp = true) : ∃ h', mountNew K.runner md fsType mp h = (.ok (), h') ∧
      h'.env = (h.env.format md).push md (K.dir mp) ∧ h'.files = h.files := by
  have hmkfs : K.runner ⟨mc.1, [mc.2, md]⟩ h.env = (done, h.env.format md) :=
    Kernel.runner_mkfs hfs
  simp only [mountNew, hv, Bool.not_true, Bool.false_eq_true, if_false, hfs, hmp, ensureMkfs_eq,
    runEach, mountOps, Host.run, Kernel.runner_commandV, hmkfs, Kernel.runner_mkdir,
    Kernel.runner_mount, validFS_clean hfs, Kernel.mountOn, done]
  exact ⟨_, rfl, rfl, rfl⟩

theorem mountExisting_eq (hv : ValidMDDevice md = true) (hmp : validMountPoint mp = true)
    (hfs : fsType.any isSpace = false) :
    ∃ h', mountExisting K.runner md fsType mp h = (.ok (), h') ∧
      h'.env = h.env.push md (K.dir mp) ∧ h'.files = h.files := by
  simp only [mountExisting, hv, Bool.not_true, Bool.false_eq_true, if_false, hmp, runEach, mountOps,
    Host.run, Kernel.runner_mkdir, Kernel.runner_mount, hfs, Kernel.mountOn, done]
  exact ⟨_, rfl, rfl, rfl⟩

theorem exec_refused {op : FsOp} (hno : ¬ op.Accepted) :
    (op.exec K h).env = h.env ∧ (op.exec K h).files = h.files := by
  cases op with
  | create md fsType mp =>
    cases hv : ValidMDDevice md with
    | false => simp [FsOp.exec, CreateFilesystem, mountNew, hv]
    | true =>
      cases hfs : validFS fsType with
      | none => simp [FsOp.exec, CreateFilesystem, mountNew, hv, hfs]
      | some mc =>
        cases hmp : validMountPoint mp with
        | false => simp [FsOp.exec, CreateFilesystem, mountNew, hv, hfs, hmp]
        | true => exact absurd ⟨hv, by simp [hfs], hmp⟩ hno
  | mount md fsType mp =>
    cases hv : ValidMDDevice md with
    | false => simp [FsOp.exec, MountOnly, mountExisting, hv]
    | true =>
      cases hmp : validMountPoint mp with
      | false => simp [FsOp.exec, MountOnly, mountExisting, hv, hmp]
      | true =>
        cases hfs : fsType.any isSpace with
        | false => exact absurd ⟨hv, hmp, hfs⟩ hno
        | true =>
          simp only [FsOp.exec, MountOnly, mountExisting, hv, hmp, Bool.not_true, Bool.false_eq_true,
            if_false, runEach, mountOps, Host.run, Kernel.runner_mkdir, Kernel.runner_mount, hfs,
            if_true, done, failed]
          exact ⟨trivial, trivial⟩
  | unmount mp =>
    have hmp : validMountPoint mp = false := by simpa [FsOp.Accepted] using hno
    simp [FsOp.exec, UnmountFilesystem, hmp]

theorem exec_effect {op : FsOp} (hok : op.Accepted) (hfile : h.files fstab = some t) :
    (op.exec K h).env = (op.effect K h.env t).1 ∧
      (op.exec K h).files fstab = some (op.effect K h.env t).2 := by
  cases op with
  | create md fsType mp =>
    obtain ⟨hv, hfs, hmp⟩ := hok
    obtain ⟨mc, hfs⟩ := Option.isSome_iff_exists.mp hfs
    obtain ⟨h', hmounted, henv, hfiles⟩ := mountNew_eq (K := K) (h := h) hv hfs hmp
    have hadd : (fstabAdd K.runner md mp fsType h').env = h'.env ∧
        (fstabAdd K.runner md mp fsType h').files fstab = some (K.add h'.env md mp fsType t) :=
      fstabAdd_effect hv (by rw [hfiles]; exact hfile)
    simp only [FsOp.exec, CreateFilesystem, hmounted, FsOp.effect]
    rwa [henv] at hadd
  | mount md fsType mp =>
    obtain ⟨hv, hmp, hfs⟩ := hok
    obtain ⟨h', hmounted, henv, hfiles⟩ := mountExisting_eq (K := K) (h := h) hv hmp hfs
    have hadd : (fstabAdd K.runner md mp fsType h').env = h'.env ∧
        (fstabAdd K.runner md mp fsType h').files fstab = some (K.add h'.env md mp fsType t) :=
      fstabAdd_effect hv (by rw [hfiles]; exact hfile)
    simp only [FsOp.exec, MountOnly, hmounted, FsOp.effect]
    rwa [henv] at hadd
  | unmount mp =>
    have hmp : validMountPoint mp = true := hok
    simp only [FsOp.exec, UnmountFilesystem, hmp, Bool.not_true, Bool.false_eq_true, if_false,
      runEach, Host.run, Kernel.runner_umount, FsOp.effect]
    cases hfind : h.env.mounts.find? (K.hits mp) with
    | none => exact ⟨rfl, hfile⟩
    | some m =>
      simp only [done, fstabRemove_env, fstabRemove_fstab, hfile]
      exact ⟨trivial, rfl⟩

/-! ## Guards -/

/-- An operation that keeps mounts and fstab together.

* A new filesystem is for an array that is not mounted, and its entry fits.
* The entry of a mounted filesystem fits too, or is there already, and then the array is mounted
  there already.
* When something is unmounted, then of the arrays' entries only that of the array taken off has the
  mount point as it is written, and it does when the array is not mounted there a second time. -/
def FsOp.Guard (K : Kernel δ) (w : World δ) (t : Str) : FsOp → Prop
  | .create md _ mp => (∀ d, (md, d) ∉ w.mounts) ∧ Fits K t mp
  | .mount md fsType mp =>
    if K.entry w md mp fsType ∈ (lines t).map TrimSpace then (md, K.dir mp) ∈ w.mounts
    else Fits K t mp
  | .unmount mp =>
    ∀ m, w.mounts.find? (K.hits mp) = some m → ∀ l ∈ lines t, ∀ {md}, ValidMDDevice md = true →
      ∀ d, K.read l = some (K.source w md, d) →
        ((Fields l)[1]? = some mp ↔ (md, d) = m ∧ w.mounts.count m = 1)

theorem mem_erase_iff_count {e m : Str × δ} {ms : List (Str × δ)} (he : e ∈ ms) :
    e ∈ ms.erase m ↔ ¬ (e = m ∧ ms.count m = 1) := by
  by_cases heq : e = m
  · subst heq
    have hpos := List.count_pos_iff.mpr he
    rw [← List.count_pos_iff, List.count_erase_self]
    simp only [true_and]
    omega
  · simp [List.mem_erase_of_ne heq, he, heq]

omit [DecidableEq δ] in
/-- The entries are those that stay and those that go. -/
theorem entries_remove_perm (mp : Str) : (K.entries t).Perm (K.entries ((Edit.remove mp).apply t) ++
    ((lines t).filter fun l => (Fields l)[1]? = some mp).filterMap K.read) := by
  rw [Kernel.entries_remove, ← List.filterMap_append]
  refine List.Perm.filterMap _ (List.Perm.trans ?_ List.perm_append_comm)
  have hperm := List.filter_append_perm (fun l => decide ((Fields l)[1]? = some mp)) (lines t)
  simpa using hperm.symm

/-- Taking off a mount and removing the lines of a mount point. -/
theorem remove_matches_iff {m : Str × δ} (hinv : Inv K w t) :
    Matches K { w with mounts := w.mounts.erase m } ((Edit.remove mp).apply t) ↔
      ∀ l ∈ lines t, ∀ {md}, ValidMDDevice md = true → ∀ d, K.read l = some (K.source w md, d) →
        ((Fields l)[1]? = some mp ↔ (md, d) = m ∧ w.mounts.count m = 1) := by
  have hkeep : ∀ {l}, l ∈ lines t → (Fields l)[1]? ≠ some mp → ∀ {e}, K.read l = some e →
      e ∈ K.entries ((Edit.remove mp).apply t) := by
    intro l hl hne e hread
    rw [Kernel.entries_remove]
    exact List.mem_filterMap.mpr ⟨l, List.mem_filter.mpr ⟨hl, by simpa using hne⟩, hread⟩
  have hunique := ((entries_remove_perm mp).map Prod.snd).nodup_iff.mp hinv.agree.unique
  rw [List.map_append] at hunique
  obtain ⟨hstay, -, hdisjoint⟩ := List.nodup_append.mp hunique
  constructor
  · intro hmatch l hl md hv d hread
    have hmounted : (md, d) ∈ w.mounts :=
      (hinv.agree.mounted hv d).mpr (List.mem_filterMap.mpr ⟨l, hl, hread⟩)
    have hentry : (md, d) ∈ w.mounts.erase m ↔
        (K.source w md, d) ∈ K.entries ((Edit.remove mp).apply t) := hmatch.mounted hv d
    rw [← not_iff_not, ← mem_erase_iff_count hmounted, hentry]
    constructor
    · intro hne
      exact hkeep hl hne hread
    · intro hmem hmp
      refine hdisjoint d (List.mem_map_of_mem hmem) d ?_ rfl
      refine List.mem_map_of_mem (f := Prod.snd) (a := (K.source w md, d)) ?_
      exact List.mem_filterMap.mpr ⟨l, List.mem_filter.mpr ⟨hl, by simpa using hmp⟩, hread⟩
  · intro hguard
    refine ⟨fun {md} hv d => ?_, hstay⟩
    change (md, d) ∈ w.mounts.erase m ↔
      (K.source w md, d) ∈ K.entries ((Edit.remove mp).apply t)
    constructor
    · intro hmem
      have hmounted := List.mem_of_mem_erase hmem
      obtain ⟨l, hl, hread⟩ := List.mem_filterMap.mp ((hinv.agree.mounted hv d).mp hmounted)
      refine hkeep hl (fun hmp => ?_) hread
      exact (mem_erase_iff_count hmounted).mp hmem ((hguard l hl hv d hread).mp hmp)
    · intro hmem
      rw [Kernel.entries_remove] at hmem
      obtain ⟨l, hl, hread⟩ := List.mem_filterMap.mp hmem
      obtain ⟨hl, hne⟩ := List.mem_filter.mp hl
      have hmounted : (md, d) ∈ w.mounts :=
        (hinv.agree.mounted hv d).mpr (List.mem_filterMap.mpr ⟨l, hl, hread⟩)
      refine (mem_erase_iff_count hmounted).mpr fun hlast => ?_
      have hmp := (hguard l hl hv d hread).mpr hlast
      simp [hmp] at hne

theorem remove_inv {m : Str × δ} (hinv : Inv K w t)
    (hmatch : Matches K { w with mounts := w.mounts.erase m } ((Edit.remove mp).apply t)) :
    Inv K { w with mounts := w.mounts.erase m } ((Edit.remove mp).apply t) := by
  have hlines : ∀ l ∈ lines ((Edit.remove mp).apply t), l = [] ∨ l ∈ lines t := by
    intro l hl
    by_cases hnil : l = []
    · exact .inl hnil
    · rw [Edit.apply_remove, mem_lines_keepLines hnil] at hl
      exact .inr hl.1
  refine ⟨hmatch, ?_, ?_⟩
  · intro l hl md hv n hhead
    rcases hlines l hl with rfl | hl
    · cases hhead
    · exact hinv.fresh l hl hv n hhead
  · rcases hinv.tail with hend | hno
    · left
      obtain ⟨ls, last, hlast, -⟩ := lines_append t
      have hblank := hend last (by rw [hlast, List.getLast?_concat])
      have hnone : Fields last = [] :=
        words_eq_nil_iff.mpr fun c hc => isSpace_of_isBlank (hblank c hc)
      intro l hl
      rw [Edit.apply_remove, keepLines, hlast, List.filter_append,
        List.filter_cons_of_pos (by simp [hnone]), List.filter_nil, lines_unlines] at hl
      · rw [List.getLast?_concat] at hl
        cases hl
        exact hblank
      · simp
      · intro l hl
        rcases List.mem_append.mp hl with hl | hl
        · exact newline_not_mem_of_mem_lines (hlast ▸ List.mem_append_left _
            (List.mem_of_mem_filter hl))
        · exact newline_not_mem_of_mem_lines (hlast ▸ List.mem_append_right _ hl)
    · right
      intro l hl md hv n hhead
      rcases hlines l hl with rfl | hl
      · cases hhead
      · exact hno l hl hv n hhead

/-! ## Runs -/

/-- The filesystem is new, and so is its line. -/
theorem create_effect (hinv : Inv K w t) (hv : ValidMDDevice md = true) :
    (FsOp.create md fsType mp).effect K w t = ((w.format md).push md (K.dir mp),
      (Edit.append (K.entry ((w.format md).push md (K.dir mp)) md mp fsType)).apply t) :=
  congrArg _ (Kernel.add_new (create_new hinv hv))

theorem mount_effect_found (hfound : K.entry w md mp fsType ∈ (lines t).map TrimSpace) :
    (FsOp.mount md fsType mp).effect K w t = (w.push md (K.dir mp), t) :=
  congrArg _ (Kernel.add_found hfound)

theorem mount_effect_new (hnew : K.entry w md mp fsType ∉ (lines t).map TrimSpace) :
    (FsOp.mount md fsType mp).effect K w t =
      (w.push md (K.dir mp), (Edit.append (K.entry w md mp fsType)).apply t) :=
  congrArg _ (Kernel.add_new hnew)

theorem effect_matches_iff {op : FsOp} (hok : op.Accepted) (hinv : Inv K w t) :
    Matches K (op.effect K w t).1 (op.effect K w t).2 ↔ op.Guard K w t := by
  cases op with
  | create md fsType mp =>
    obtain ⟨hv, hfs, hmp⟩ := hok
    obtain ⟨mc, hfs⟩ := Option.isSome_iff_exists.mp hfs
    rw [create_effect hinv hv]
    exact create_matches_iff hinv hv hmp (validFS_clean hfs)
  | mount md fsType mp =>
    obtain ⟨hv, hmp, hfs⟩ := hok
    by_cases hfound : K.entry w md mp fsType ∈ (lines t).map TrimSpace
    · rw [mount_effect_found hfound, FsOp.Guard, if_pos hfound]
      constructor
      · intro hmatch
        have hentry := (hmatch.mounted hv (K.dir mp)).mp List.mem_cons_self
        exact (hinv.agree.mounted hv _).mpr hentry
      · intro hmounted
        refine ⟨fun {md'} hv' d => ?_, hinv.agree.unique⟩
        have hsource : K.source (w.push md (K.dir mp)) md' = K.source w md' := rfl
        rw [hsource, ← hinv.agree.mounted hv' d, World.push, List.mem_cons, or_iff_right_iff_imp]
        intro heq
        rw [heq]
        exact hmounted
    · rw [mount_effect_new hfound, FsOp.Guard, if_neg hfound]
      exact append_matches_iff hv hmp hfs hinv
  | unmount mp =>
    simp only [FsOp.effect, FsOp.Guard]
    cases hfind : w.mounts.find? (K.hits mp) with
    | none => simp [hinv.agree]
    | some m =>
      simp only [Option.some.injEq, forall_eq']
      exact remove_matches_iff hinv

theorem effect_inv {op : FsOp} (hok : op.Accepted) (hinv : Inv K w t) (hguard : op.Guard K w t) :
    Inv K (op.effect K w t).1 (op.effect K w t).2 := by
  have hmatch := (effect_matches_iff hok hinv).mpr hguard
  cases op with
  | create md fsType mp =>
    obtain ⟨hv, hfs, hmp⟩ := hok
    obtain ⟨mc, hfs⟩ := Option.isSome_iff_exists.mp hfs
    rw [create_effect hinv hv]
    exact append_inv hv hmp (validFS_clean hfs) (format_inv hinv hguard.1) hguard.2
  | mount md fsType mp =>
    obtain ⟨hv, hmp, hfs⟩ := hok
    by_cases hfound : K.entry w md mp fsType ∈ (lines t).map TrimSpace
    · rw [mount_effect_found hfound] at hmatch ⊢
      exact ⟨hmatch, hinv.fresh, hinv.tail⟩
    · rw [mount_effect_new hfound]
      rw [FsOp.Guard, if_neg hfound] at hguard
      exact append_inv hv hmp hfs hinv hguard
  | unmount mp =>
    simp only [FsOp.effect] at hmatch ⊢
    cases hfind : w.mounts.find? (K.hits mp) with
    | none => exact hinv
    | some m =>
      simp only [hfind] at hmatch
      exact remove_inv hinv hmatch

def Agree (K : Kernel δ) (h : Host (World δ)) : Prop := Matches K h.env (fstabText h)

def FsOp.Keeps (K : Kernel δ) (h : Host (World δ)) (op : FsOp) : Prop :=
  op.Accepted → op.Guard K h.env (fstabText h)

theorem exec_agree {op : FsOp} (hfile : h.files fstab = some t) (hinv : Inv K h.env t) :
    (Agree K (op.exec K h) ↔ op.Keeps K h) ∧
    (op.Keeps K h → ∃ t', (op.exec K h).files fstab = some t' ∧ Inv K (op.exec K h).env t') := by
  have htext : fstabText h = t := by rw [fstabText, hfile]; rfl
  by_cases hok : op.Accepted
  · obtain ⟨henv, hfile'⟩ := exec_effect (K := K) hok hfile
    have htext' : fstabText (op.exec K h) = (op.effect K h.env t).2 := by
      rw [fstabText, hfile']; rfl
    rw [Agree, FsOp.Keeps, htext', htext, henv, effect_matches_iff hok hinv]
    refine ⟨by simp [hok], fun hguard => ⟨_, hfile', ?_⟩⟩
    exact effect_inv hok hinv (hguard hok)
  · obtain ⟨henv, hfiles⟩ := exec_refused (K := K) (h := h) hok
    have hfile' : (op.exec K h).files fstab = some t := by rw [hfiles, hfile]
    have htext' : fstabText (op.exec K h) = t := by rw [fstabText, hfile']; rfl
    rw [Agree, FsOp.Keeps, htext', henv]
    refine ⟨?_, fun _ => ⟨t, hfile', hinv⟩⟩
    exact iff_of_true hinv.agree fun hyes => absurd hyes hok

/-- Starting with nothing mounted and no array in fstab, the mounts and the entries agree all along a
run exactly when no directory has two entries at the start, and every operation keeps to its
guard. -/
theorem mounts_match_fstab_iff (K : Kernel δ) (h : Host (World δ)) (t : Str) (ops : List FsOp)
    (hfile : h.files fstab = some t) (hnone : h.env.mounts = []) (hno : NoArrays K t) :
    Always (FsOp.exec K) (Agree K) h ops ↔
      ((K.entries t).map Prod.snd).Nodup ∧ Guarded (FsOp.exec K) (FsOp.Keeps K) h ops := by
  have htext : fstabText h = t := by rw [fstabText, hfile]; rfl
  have hiff : ((K.entries t).map Prod.snd).Nodup →
      (Always (FsOp.exec K) (Agree K) h ops ↔ Guarded (FsOp.exec K) (FsOp.Keeps K) h ops) := by
    intro hunique
    refine always_iff_guarded
      (I := fun h => ∃ t, h.files fstab = some t ∧ Inv K h.env t) ?_ ?_ ?_ ⟨t, hfile, ?_⟩
    · rintro h' op ⟨t', hfile', hinv⟩ hkeeps
      exact (exec_agree hfile' hinv).2 hkeeps
    · rintro h' ⟨t', hfile', hinv⟩
      rw [Agree, fstabText, hfile']
      exact hinv.agree
    · rintro h' op ⟨t', hfile', hinv⟩ hagree
      exact (exec_agree hfile' hinv).1.mp hagree
    · refine ⟨⟨fun {md} hv d => ?_, hunique⟩, fun l hl md hv n hhead => ?_, .inr hno⟩
      · rw [hnone]
        exact iff_of_false List.not_mem_nil
          (not_mem_entries (source_clean hv _) (fun l hl => hno l hl hv _) d)
      · exact absurd hhead (hno l hl hv n)
  constructor
  · intro halways
    have hfirst : Agree K h := by
      cases ops with
      | nil => exact halways
      | cons op ops => exact halways.1
    rw [Agree, htext] at hfirst
    exact ⟨hfirst.unique, (hiff hfirst.unique).mp halways⟩
  · rintro ⟨hunique, hguarded⟩
    exact (hiff hunique).mpr hguarded

/-! ## Two arrays -/

/-- Paths that name themselves, and UUIDs that count the filesystems of a device. -/
def plainKernel : Kernel Str where
  dir path := path
  unmangle field := field
  uuid md n := md ++ List.replicate n 'x'
  uuid_clean := by
    intro md hv n
    obtain ⟨hne, hclean⟩ := ValidMDDevice_clean hv
    refine ⟨by simp [hne], fun c hc => ?_⟩
    rcases List.mem_append.mp hc with hc | hc
    · exact hclean c hc
    · rw [List.eq_of_mem_replicate hc]
      rfl
  uuid_inj := by
    have hdevice : ∀ {md}, ValidMDDevice md = true → ∀ n : Nat,
        (md ++ List.replicate n 'x').takeWhile (· ≠ 'x') = md := by
      intro md hv n
      have hx : ∀ c ∈ md, decide (c ≠ 'x') = true := by
        intro c hc
        simp only [ValidMDDevice, Bool.and_eq_true, List.all_eq_true, HasPrefix_iff] at hv
        obtain ⟨⟨⟨rest, rfl⟩, -⟩, hdigits⟩ := hv
        rcases List.mem_append.mp hc with hc | hc
        · have hhead : ("/dev/md" : Str).all (fun c => decide (c ≠ 'x')) = true := rfl
          exact List.all_eq_true.mp hhead c hc
        · by_contra hcx
          have hdigit := hdigits c hc
          simp only [ne_eq, decide_not, Bool.not_eq_true', decide_eq_false_iff_not, not_not] at hcx
          rw [hcx] at hdigit
          cases hdigit
      rw [List.takeWhile_append_of_pos hx]
      cases n <;> simp [List.replicate_succ]
    intro md md' hv hv' n n' heq
    have hmd : md = md' := by rw [← hdevice hv n, heq, hdevice hv' n']
    subst hmd
    have hlen := congrArg List.length (List.append_cancel_left heq)
    simpa using hlen

/-- A server with an empty fstab, nothing mounted. -/
def emptyHost : Host (World Str) where
  env := ⟨[], fun _ => 0⟩
  files := Function.update (fun _ => none) fstab (some [])
  log := []

theorem noArrays_nil : NoArrays plainKernel [] := by
  intro l hl md hv n
  rw [lines_nil, List.mem_singleton] at hl
  simp [hl, Fields_nil]

/-- The root filesystem, which is not on an array. -/
def rootLine : Str := "UUID=root\t/\text4\tdefaults\t0\t1"

def rootHost : Host (World Str) where
  env := ⟨[], fun _ => 0⟩
  files := Function.update (fun _ => none) fstab (some (rootLine ++ "\n"))
  log := []

theorem root_no_source {md : Str} (hv : ValidMDDevice md = true) (n : Nat) :
    ("UUID=root" : Str) ≠ "UUID=" ++ plainKernel.uuid md n := by
  intro heq
  have htail : ("root" : Str) = md ++ List.replicate n 'x' :=
    (List.append_right_inj ("UUID=" : Str)).mp heq
  simp only [ValidMDDevice, Bool.and_eq_true, HasPrefix_iff] at hv
  obtain ⟨⟨⟨rest, rfl⟩, -⟩, -⟩ := hv
  exact absurd (congrArg List.head? htail) (by simp)

theorem noArrays_root : NoArrays plainKernel (rootLine ++ "\n") := by
  have hlines : lines (rootLine ++ "\n" : Str) = [rootLine, []] := by decide
  intro l hl md hv n hhead
  rw [hlines, List.mem_cons, List.mem_singleton] at hl
  rcases hl with rfl | rfl
  · have hfirst : (Fields rootLine).head? = some ("UUID=root" : Str) := by decide
    exact root_no_source hv n (Option.some.inj (hfirst.symm.trans hhead))
  · rw [Fields_nil] at hhead
    cases hhead

theorem fits_plain {t mp : Str} (hend : (lines t).getLast? = some []) (hfield : Kernel.field mp = mp)
    (hfree : mp ∉ (plainKernel.entries t).map Prod.snd) : Fits plainKernel t mp := by
  refine ⟨fun last hlast c hc => ?_, hfield, hfree⟩
  rw [hend] at hlast
  cases hlast
  cases hc

theorem create_keeps {h : Host (World Str)} {md fsType mp : Str}
    (hnone : ∀ m ∈ h.env.mounts, m.1 ≠ md) (hend : (lines (fstabText h)).getLast? = some [])
    (hfield : Kernel.field mp = mp)
    (hfree : mp ∉ (plainKernel.entries (fstabText h)).map Prod.snd) :
    FsOp.Keeps plainKernel h (.create md fsType mp) :=
  fun _ => ⟨fun _ hd => hnone _ hd rfl, fits_plain hend hfield hfree⟩

theorem mount_keeps {h : Host (World Str)} {md fsType mp : Str}
    (hnew : plainKernel.entry h.env md mp fsType ∉ (lines (fstabText h)).map TrimSpace)
    (hend : (lines (fstabText h)).getLast? = some []) (hfield : Kernel.field mp = mp)
    (hfree : mp ∉ (plainKernel.entries (fstabText h)).map Prod.snd) :
    FsOp.Keeps plainKernel h (.mount md fsType mp) := by
  intro _
  rw [FsOp.Guard, if_neg hnew]
  exact fits_plain hend hfield hfree

/-- Two arrays are given filesystems; the first one is taken off, and comes back elsewhere. -/
def moving : List FsOp :=
  [.create "/dev/md0" "ext4" "/a", .create "/dev/md1" "xfs" "/b", .unmount "/a",
    .mount "/dev/md0" "ext4" "/c"]

/-- With both arrays mounted, only the line of the first one has the mount point. -/
theorem unmount_keeps : FsOp.Keeps plainKernel
    (run (FsOp.exec plainKernel) rootHost (moving.take 2)) (.unmount "/a") := by
  have hlines : lines (fstabText (run (FsOp.exec plainKernel) rootHost (moving.take 2))) =
      [rootLine, fstabEntry "UUID=/dev/md0x" "/a" "ext4",
        fstabEntry "UUID=/dev/md1x" "/b" "xfs", []] := by decide +kernel
  intro _ m hfind l hl md hv d hread
  have hm : m = (("/dev/md0" : Str), ("/a" : Str)) := by
    have hfound : (run (FsOp.exec plainKernel) rootHost (moving.take 2)).env.mounts.find?
        (plainKernel.hits "/a") = some (("/dev/md0" : Str), ("/a" : Str)) := by decide +kernel
    exact Option.some.inj (hfind.symm.trans hfound)
  have hone : ∀ md' : Str, ValidMDDevice md' = true → ∀ d' : Str,
      plainKernel.read l = some ("UUID=" ++ plainKernel.uuid md' 1, d') → md = md' ∧ d = d' := by
    intro md' hv' d' hread'
    have hsame := Prod.mk.inj (Option.some.inj (hread.symm.trans hread'))
    exact ⟨(source_inj hv hv' hsame.1).1, hsame.2⟩
  rw [hlines] at hl
  rw [hm]
  suffices honly : (Fields l)[1]? = some ("/a" : Str) ↔ (md, d) = (("/dev/md0" : Str), ("/a" : Str)) by
    refine honly.trans (and_iff_left ?_).symm
    decide +kernel
  simp only [List.mem_cons, List.not_mem_nil, or_false] at hl
  rcases hl with rfl | rfl | rfl | rfl
  · have hroot : plainKernel.read rootLine = some (("UUID=root" : Str), ("/" : Str)) := by decide
    have hsame := Prod.mk.inj (Option.some.inj (hread.symm.trans hroot))
    exact absurd hsame.1.symm (root_no_source hv _)
  · obtain ⟨rfl, rfl⟩ := hone "/dev/md0" (by decide) "/a" (by decide)
    exact iff_of_true (by decide) rfl
  · obtain ⟨rfl, rfl⟩ := hone "/dev/md1" (by decide) "/b" (by decide)
    exact iff_of_false (by decide) (by decide)
  · cases hread

theorem mounts_match_moving :
    Always (FsOp.exec plainKernel) (Agree plainKernel) rootHost moving := by
  refine (mounts_match_fstab_iff plainKernel rootHost (rootLine ++ "\n") moving rfl rfl
    noArrays_root).mpr ⟨by decide, ?_, ?_, unmount_keeps, ?_, trivial⟩
  · exact create_keeps (by decide) (by decide) (by decide) (by decide)
  · exact create_keeps (by decide +kernel) (by decide +kernel) (by decide) (by decide +kernel)
  · exact mount_keeps (by decide +kernel) (by decide +kernel) (by decide) (by decide +kernel)

/-- Two filesystems made for one mount point: fstab has two entries for it. -/
theorem create_twice_mismatch :
    emptyHost.files fstab = some [] ∧ emptyHost.env.mounts = [] ∧ NoArrays plainKernel [] ∧
    ¬ Always (FsOp.exec plainKernel) (Agree plainKernel) emptyHost
      [.create "/dev/md0" "ext4" "/a", .create "/dev/md1" "ext4" "/a"] := by
  refine ⟨rfl, rfl, noArrays_nil, ?_⟩
  rintro ⟨-, -, hlast⟩
  exact absurd hlast.unique (by decide)

end Raid
end Nasd
