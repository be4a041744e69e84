import Nasd.Qbt.Confined

/-!
# Nasd.Qbt.Distinct

What `Validate` decides: the directories are compared as they are written, and looked for in the
volumes as they are found to be. The map of the three is gone through in any order, and the errors
are listed as they come.

* `decides_iff`    — when the verdict is about the directories.
* `orderless_iff`  — when the order of the map does not show.
* `Validate_right_iff` — both.
-/

namespace Nasd
namespace Qbt

open Text Go Files

variable {T : FS} {vols : List Volume} {order order' : Order} {d : Folders} {key key' : Key}

/-- Two paths for one directory: they are the same when they are clean and their links resolved. A
link that leads nowhere has no directory to resolve to, and counts as one of its own. -/
def SameDir (T : FS) (path path' : Str) : Prop :=
  canonExisting T (Filepath.Clean path) = canonExisting T (Filepath.Clean path')

/-- The three are given and lie in the volumes, and two of them are different directories. -/
structure WellChosen (T : FS) (vols : List Volume) (d : Folders) : Prop where
  given : ∀ key, d.get key ≠ []
  inside : ∀ key, ∃ w, resolveInVolumes T vols (d.get key) = .ok w
  distinct : ¬ SameDir T d.tempDir d.downloadsDir

/-- One result, but for the order of the map in `free`. -/
structure SameResult (r r' : ValidateResult) : Prop where
  ok : r.ok = r'.ok
  errors : r.errors = r'.errors
  warnings : r.warnings = r'.warnings
  free : ∀ e, e ∈ r.free ↔ e ∈ r'.free

/-- All three are let through, and two spellings of one directory are taken for two. -/
def Misspelt (T : FS) (vols : List Volume) (d : Folders) : Prop :=
  (∀ key, ∃ w, resolveInVolumes T vols (d.get key) = .ok w) ∧ d.tempDir ≠ d.downloadsDir ∧
    SameDir T d.tempDir d.downloadsDir

def Refused (T : FS) (vols : List Volume) (d : Folders) (key : Key) : Prop :=
  ∃ e, checkDir T vols d key = .error e

/-! ## The verdict -/

theorem given_of_inside (hin : ∃ w, resolveInVolumes T vols (d.get key) = .ok w) :
    d.get key ≠ [] := by
  rintro hnil
  obtain ⟨w, hw⟩ := hin
  rw [hnil] at hw
  cases hw

theorem decides_iff : ((Validate T vols order d).ok = true ↔ WellChosen T vols d) ↔
    ¬ Misspelt T vols d := by
  rw [Validate_ok_iff]
  constructor
  · rintro hverdict ⟨hin, hne, hsame⟩
    exact (hverdict.mp ⟨hin, hne⟩).distinct hsame
  · intro hspelt
    constructor
    · rintro ⟨hin, hne⟩
      exact ⟨fun key => given_of_inside (hin key), hin, fun hsame => hspelt ⟨hin, hne, hsame⟩⟩
    · rintro ⟨-, hin, hdistinct⟩
      exact ⟨hin, fun heq => hdistinct (by rw [SameDir, heq])⟩

/-! ## The order of the map -/

/-- The errors of the directories, in the order in which they are examined. -/
def dirErrors (T : FS) (vols : List Volume) (order : Order) (d : Folders) : List Str :=
  order.keys.filterMap fun key => errorOf (checkDir T vols d key)

theorem Validate_errors : (Validate T vols order d).errors = dirErrors T vols order d ++
    if d.tempDir ≠ [] ∧ d.tempDir = d.downloadsDir then
      [("temp_dir and downloads_dir must be different" : Str)] else [] := by
  rw [Validate, dirErrors, List.filterMap_map]
  rfl

theorem mem_dirErrors {e : Str} :
    e ∈ dirErrors T vols order d ↔ ∃ key, checkDir T vols d key = .error e := by
  rw [dirErrors, List.mem_filterMap]
  constructor
  · rintro ⟨key, -, hkey⟩
    cases hcheck : checkDir T vols d key with
    | error e' =>
      rw [hcheck] at hkey
      exact ⟨key, hcheck.trans (congrArg Except.error (Option.some.inj hkey))⟩
    | ok w =>
      rw [hcheck] at hkey
      cases hkey
  · rintro ⟨key, hkey⟩
    exact ⟨key, order.mem key, by rw [hkey]; rfl⟩

theorem dirErrors_perm (T : FS) (vols : List Volume) (d : Folders) (order order' : Order) :
    (dirErrors T vols order d).Perm (dirErrors T vols order' d) :=
  (order.perm.trans order'.perm.symm).filterMap _

theorem mem_free {e : Key × Int} : e ∈ (Validate T vols order d).free ↔
    ∃ w, checkDir T vols d e.1 = .ok w ∧ w.freeBytes = e.2 := by
  rw [Validate, List.mem_filterMap]
  constructor
  · rintro ⟨c, hc, he⟩
    obtain ⟨key, -, rfl⟩ := List.mem_map.mp hc
    cases hcheck : checkDir T vols d key with
    | error err =>
      rw [hcheck] at he
      cases he
    | ok w =>
      rw [hcheck] at he
      cases he
      exact ⟨w, hcheck, rfl⟩
  · rintro ⟨w, hcheck, hfree⟩
    refine ⟨_, List.mem_map_of_mem (order.mem e.1), ?_⟩
    rw [hcheck]
    exact congrArg some (Prod.ext rfl hfree)

/-- With one directory refused at most, every order gives the one list. -/
theorem dirErrors_eq
    (hone : ∀ key key', Refused T vols d key → Refused T vols d key' → key = key') :
    dirErrors T vols order d = dirErrors T vols order' d := by
  have hperm := dirErrors_perm T vols d order order'
  cases hlist : dirErrors T vols order d with
  | nil =>
    rw [hlist] at hperm
    exact hperm.symm.eq_nil.symm
  | cons e es =>
    have hall : ∀ {o : Order}, ∀ e' ∈ dirErrors T vols o d, e' = e := by
      intro o e' he'
      obtain ⟨key, hkey⟩ :=
        mem_dirErrors.mp (hlist ▸ List.mem_cons_self : e ∈ dirErrors T vols order d)
      obtain ⟨key', hkey'⟩ := mem_dirErrors.mp he'
      rw [hone key key' ⟨e, hkey⟩ ⟨e', hkey'⟩, hkey'] at hkey
      exact Except.error.inj hkey
    rw [← hlist, List.eq_replicate_iff.mpr ⟨rfl, hall⟩,
      List.eq_replicate_iff.mpr ⟨hperm.length_eq.symm, hall⟩]

/-- An error begins with the name of its directory. -/
theorem checkDir_names {e : Str} (he : checkDir T vols d key = .error e) :
    key.text ++ [':'] <+: e := by
  unfold checkDir at he
  split at he
  · cases he
    exact ⟨" required", by simp⟩
  · cases hres : resolveInVolumes T vols (d.get key) with
    | ok w =>
      rw [hres] at he
      cases he
    | error text =>
      rw [hres] at he
      cases he
      exact ⟨' ' :: text, by simp⟩

theorem key_of_error {e : Str} (he : checkDir T vols d key = .error e)
    (he' : checkDir T vols d key' = .error e) : key = key' := by
  have hpre := List.prefix_or_prefix_of_prefix (checkDir_names he) (checkDir_names he')
  cases key <;> cases key' <;> first | rfl | exact absurd hpre (by decide)

/-- An order that begins with these two. -/
theorem exists_order (hne : key ≠ key') : ∃ (order : Order) (keys : List Key),
    order.keys = key :: key' :: keys := by
  have hperm : (key :: key' ::
      ([Key.temp_dir, .torfile_dir, .downloads_dir].erase key).erase key').Perm
      [.temp_dir, .torfile_dir, .downloads_dir] := by
    cases key <;> cases key' <;> first | exact absurd rfl hne | decide
  exact ⟨⟨_, hperm⟩, _, rfl⟩

theorem dirErrors_head {e : Str} {keys : List Key} (he : checkDir T vols d key = .error e)
    (hkeys : order.keys = key :: keys) : (dirErrors T vols order d).head? = some e := by
  rw [dirErrors, hkeys, List.filterMap_cons, he]
  rfl

theorem orderless_iff : (∀ order order', SameResult (Validate T vols order d)
    (Validate T vols order' d)) ↔
      ∀ key key', Refused T vols d key → Refused T vols d key' → key = key' := by
  constructor
  · rintro hsame key key' ⟨e, he⟩ ⟨e', he'⟩
    by_contra hne
    obtain ⟨order, keys, hkeys⟩ := exists_order hne
    obtain ⟨order', keys', hkeys'⟩ := exists_order (Ne.symm hne)
    have herrors := (hsame order order').errors
    rw [Validate_errors, Validate_errors] at herrors
    have hhead := congrArg List.head? (List.append_cancel_right herrors)
    rw [dirErrors_head he hkeys, dirErrors_head he' hkeys', Option.some.injEq] at hhead
    exact hne (key_of_error he (hhead ▸ he'))
  · intro hone order order'
    have herrors : (Validate T vols order d).errors = (Validate T vols order' d).errors := by
      rw [Validate_errors, Validate_errors, dirErrors_eq hone]
    exact ⟨congrArg List.isEmpty herrors, herrors, rfl, fun e => mem_free.trans mem_free.symm⟩

/-! ## Both -/

/-- The verdict is right and no order of the map shows, exactly when no two spellings of one
directory are let through and at most one directory is refused. -/
theorem Validate_right_iff (T : FS) (vols : List Volume) (d : Folders) :
    ((∀ order, (Validate T vols order d).ok = true ↔ WellChosen T vols d) ∧
      ∀ order order', SameResult (Validate T vols order d) (Validate T vols order' d)) ↔
    ¬ Misspelt T vols d ∧
      ∀ key key', Refused T vols d key → Refused T vols d key' → key = key' := by
  refine and_congr ?_ orderless_iff
  constructor
  · exact fun hall => decides_iff.mp (hall keysInOrder)
  · exact fun hspelt order => decides_iff.mpr hspelt

/-- One directory with and without a slash at its end. -/
def slashed : Folders where
  tempDir := "/vol/downloads/"
  torfileDir := "/vol/torrents"
  downloadsDir := "/vol/downloads"

/-- The two are taken for different directories. -/
theorem slash_let_through :
    ¬ ((∀ order, (Validate linkedVol ([volume].map Mounted.volume) order slashed).ok = true ↔
        WellChosen linkedVol ([volume].map Mounted.volume) slashed) ∧
      ∀ order order', SameResult (Validate linkedVol ([volume].map Mounted.volume) order slashed)
        (Validate linkedVol ([volume].map Mounted.volume) order' slashed)) := by
  rintro ⟨hverdict, -⟩
  have hok : (Validate linkedVol ([volume].map Mounted.volume) keysInOrder slashed).ok = true := by
    decide +kernel
  refine ((hverdict keysInOrder).mp hok).distinct ?_
  have hclean : Filepath.Clean slashed.tempDir = Filepath.Clean slashed.downloadsDir := by
    decide +kernel
  rw [SameDir, hclean]

end Qbt
end Nasd
