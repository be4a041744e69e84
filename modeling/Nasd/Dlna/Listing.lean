import Nasd.Dlna.ReadBack
import Nasd.Files.Walk

/-!
# Nasd.Dlna.Listing

The media files of the configured directories, `listFiles` of `internal/api/handlers.go`. The
directories are walked one after the other; only their texts are compared, so that a file below two
of them comes up twice.

* `listFiles_eq`     — the first thousand of each category, in the order of the walks.
* `listing_right_iff` — when every file is listed once and none is missing.
-/

namespace Nasd
namespace Dlna

open Text Go Filepath Dirs Files

/-! ## Categories -/

inductive Category where
  | V
  | P
  | A
  deriving DecidableEq

/-- `filepath.Ext`: from the last dot of the last element on. -/
def Ext (path : Str) : Str :=
  if (path.rdropWhile fun c => c ≠ '.' && c ≠ '/').getLast? = some '.' then
    '.' :: path.rtakeWhile fun c => c ≠ '.' && c ≠ '/'
  else []

def videoExts : List Str :=
  [".mp4", ".mkv", ".avi", ".mov", ".wmv", ".flv", ".m4v", ".mpg", ".mpeg", ".webm", ".ts", ".m2ts"]

def pictureExts : List Str :=
  [".jpg", ".jpeg", ".png", ".gif", ".bmp", ".tiff", ".tif", ".webp", ".heic"]

def audioExts : List Str := [".mp3", ".flac", ".wav", ".aac", ".ogg", ".m4a", ".wma", ".opus"]

/-- `none` for any other file. -/
def mediaExt (K : CaseTable) (name : Str) : Option Category :=
  if ToLower K (Ext name) ∈ videoExts then some .V
  else if ToLower K (Ext name) ∈ pictureExts then some .P
  else if ToLower K (Ext name) ∈ audioExts then some .A
  else none

/-! ## Listing -/

structure MediaFile where
  Name : Str
  Path : Str
  Size : Int
  Dir : Str
  deriving DecidableEq

def maxPerType : Nat := 1000

/-- The files of each category, as the map of the handler holds them. -/
abbrev Listing := Category → List MediaFile

/-- The function that is called for each entry of a walk. -/
def visit (D : Disk) (K : CaseTable) (dir : Str) (result : Listing) (v : Str × Loc Name) :
    Listing :=
  if D.tree.isDir v.2 then result
  else match mediaExt K (Base v.1) with
    | none => result
    | some cat =>
      if maxPerType ≤ (result cat).length then result
      else Function.update result cat (result cat ++ [⟨Base v.1, v.1, D.size v.2, dir⟩])

/-- The loop over the directories, without those whose path was seen. -/
def listFrom (D : Disk) (K : CaseTable) : List MediaDir → List Str → Listing → Listing
  | [], _, result => result
  | d :: dirs, seen, result =>
    if d.path ∈ seen then listFrom D K dirs seen result
    else listFrom D K dirs (d.path :: seen) ((Walk D d.path).foldl (visit D K d.path) result)

def listFiles (D : Disk) (K : CaseTable) (dirs : List MediaDir) : Listing :=
  listFrom D K dirs [] fun _ => []

variable {D : Disk} {K : CaseTable} {d : MediaDir} {dirs : List MediaDir} {cat : Category}
  {result : Listing} {m : Loc Name} {t : MediaDirs}

/-! ## The cap -/

theorem take_append_take {α : Type} (N : Nat) (as bs : List α) :
    (as.take N ++ bs).take N = (as ++ bs).take N := by
  by_cases h : N ≤ as.length
  · rw [List.take_append_of_le_length (by rw [List.length_take]; omega), List.take_take,
      Nat.min_self, List.take_append_of_le_length h]
  · rw [List.take_of_length_le (by omega : as.length ≤ N)]

/-- What a visit adds to a category. -/
def entryOf (D : Disk) (K : CaseTable) (dir : Str) (cat : Category) (v : Str × Loc Name) :
    Option MediaFile :=
  if mediaExt K (Base v.1) = some cat then some ⟨Base v.1, v.1, D.size v.2, dir⟩ else none

theorem visit_eq {dir : Str} {v : Str × Loc Name} (hcap : (result cat).length ≤ maxPerType) :
    visit D K dir result v cat = (result cat ++
      if D.tree.isDir v.2 then [] else (entryOf D K dir cat v).toList).take maxPerType := by
  have hfull : (result cat).take maxPerType = result cat := List.take_of_length_le hcap
  unfold visit entryOf
  split
  · rw [List.append_nil, hfull]
  · cases hext : mediaExt K (Base v.1) with
    | none => simp [hfull]
    | some c =>
      by_cases hc : c = cat
      · subst hc
        rw [if_pos rfl]
        dsimp only
        split
        · rename_i hle
          rw [List.take_append_of_le_length hle, hfull]
        · rename_i hlt
          rw [Function.update_self, List.take_of_length_le]
          · rfl
          · rw [List.length_append]
            change _ + 1 ≤ _
            omega
      · rw [if_neg (by simpa using hc)]
        dsimp only
        split
        · simp [hfull]
        · rw [Function.update_of_ne (Ne.symm hc)]
          simp [hfull]

theorem foldl_visit {dir : Str} (vs : List (Str × Loc Name)) : ∀ {result : Listing},
    (result cat).length ≤ maxPerType → vs.foldl (visit D K dir) result cat =
      (result cat ++ (vs.filter fun v => !D.tree.isDir v.2).filterMap
        (entryOf D K dir cat)).take maxPerType := by
  induction vs with
  | nil => exact fun hcap => by simp [List.take_of_length_le hcap]
  | cons v vs ih =>
    intro result hcap
    have hvisit : visit D K dir result v cat = (result cat ++
        if D.tree.isDir v.2 then [] else (entryOf D K dir cat v).toList).take maxPerType :=
      visit_eq hcap
    have hcap' : (visit D K dir result v cat).length ≤ maxPerType := by
      rw [hvisit]
      exact List.length_take_le _ _
    rw [List.foldl_cons, ih hcap', hvisit, take_append_take, List.append_assoc]
    cases hdir : D.tree.isDir v.2 with
    | true => rw [if_pos rfl, List.nil_append, List.filter_cons_of_neg (by simp [hdir])]
    | false =>
      rw [if_neg Bool.false_ne_true, List.filter_cons_of_pos (by simp [hdir]), List.filterMap_cons]
      cases entryOf D K dir cat v <;> rfl

/-- The files of a category below a directory, in the order of the walk. -/
def mediaFiles (D : Disk) (K : CaseTable) (cat : Category) (d : MediaDir) : List MediaFile :=
  (filesOf D d.path).filterMap (entryOf D K d.path cat)

theorem listFrom_eq : ∀ {dirs : List MediaDir} {seen : List Str} {result : Listing},
    (dirs.map MediaDir.path).Nodup → (∀ d ∈ dirs, d.path ∉ seen) →
      (result cat).length ≤ maxPerType → listFrom D K dirs seen result cat =
        (result cat ++ dirs.flatMap (mediaFiles D K cat)).take maxPerType := by
  intro dirs
  induction dirs with
  | nil =>
    intro seen result _ _ hcap
    rw [listFrom, List.flatMap_nil, List.append_nil, List.take_of_length_le hcap]
  | cons d dirs ih =>
    intro seen result hnodup hseen hcap
    rw [List.map_cons, List.nodup_cons] at hnodup
    have hwalk : (Walk D d.path).foldl (visit D K d.path) result cat =
        (result cat ++ mediaFiles D K cat d).take maxPerType := foldl_visit (Walk D d.path) hcap
    have hseen' : ∀ e ∈ dirs, e.path ∉ d.path :: seen := by
      intro e he hmem
      rcases List.mem_cons.mp hmem with heq | hmem
      · exact hnodup.1 (heq ▸ List.mem_map_of_mem he)
      · exact hseen e (List.mem_cons_of_mem _ he) hmem
    have hcap' : ((Walk D d.path).foldl (visit D K d.path) result cat).length ≤ maxPerType := by
      rw [hwalk]
      exact List.length_take_le _ _
    rw [listFrom, if_neg (hseen d List.mem_cons_self), ih hnodup.2 hseen' hcap', hwalk,
      take_append_take, List.append_assoc, List.flatMap_cons]

/-- The first files of a category, directory by directory. -/
theorem listFiles_eq (hnodup : (dirs.map MediaDir.path).Nodup) :
    listFiles D K dirs cat = (dirs.flatMap (mediaFiles D K cat)).take maxPerType := by
  rw [listFiles, listFrom_eq hnodup (fun d _ => List.not_mem_nil) (Nat.zero_le _), List.nil_append]

/-! ## Files by their locations -/

/-- The category of a file. -/
def classOf (K : CaseTable) (m : Loc Name) : Option Category := mediaExt K (nameOf m)

/-- The files of a category below a directory. -/
def mediaBelow (D : Disk) (K : CaseTable) (cat : Category) (d : MediaDir) : List (Loc Name) :=
  ((filesOf D d.path).map Prod.snd).filter fun m => classOf K m = some cat

theorem mem_mediaBelow (habs : HasPrefix d.path "/" = true) :
    m ∈ mediaBelow D K cat d ↔ Found D d.path m ∧ classOf K m = some cat := by
  rw [mediaBelow, List.mem_filter, decide_eq_true_eq, ← mem_Walk_iff habs]
  simp

theorem mediaBelow_nodup (habs : HasPrefix d.path "/" = true) : (mediaBelow D K cat d).Nodup :=
  (Walk_files_nodup habs).filter _

/-- A file that is listed stands for the location that its path leads to. -/
theorem mediaFiles_locations (habs : HasPrefix d.path "/" = true) :
    (mediaFiles D K cat d).map (fun f => Lstat D.tree f.Path) =
      (mediaBelow D K cat d).map some := by
  have hall : ∀ v ∈ filesOf D d.path, Lstat D.tree v.1 = some v.2 ∧ Base v.1 = nameOf v.2 :=
    fun v hv => filesOf_path habs hv
  rw [mediaFiles, mediaBelow]
  revert hall
  induction filesOf D d.path with
  | nil => exact fun _ => rfl
  | cons v vs ih =>
    intro hall
    obtain ⟨hl, hbase⟩ := hall v List.mem_cons_self
    have hrest := ih fun w hw => hall w (List.mem_cons_of_mem _ hw)
    rw [List.filterMap_cons, List.map_cons, entryOf, hbase]
    by_cases hclass : mediaExt K (nameOf v.2) = some cat
    · have hkeep : classOf K v.2 = some cat := hclass
      rw [if_pos hclass, List.map_cons, List.filter_cons_of_pos (by simp [hkeep]), List.map_cons,
        ← hrest, ← hl]
    · have hdrop : classOf K v.2 ≠ some cat := hclass
      rw [if_neg hclass, List.filter_cons_of_neg (by simp [hdrop])]
      exact hrest

theorem listFiles_locations (hnodup : (dirs.map MediaDir.path).Nodup)
    (habs : ∀ d ∈ dirs, HasPrefix d.path "/" = true) :
    (listFiles D K dirs cat).map (fun f => Lstat D.tree f.Path) =
      ((dirs.flatMap (mediaBelow D K cat)).take maxPerType).map some := by
  have hflat : (dirs.flatMap (mediaFiles D K cat)).map (fun f => Lstat D.tree f.Path) =
      (dirs.flatMap (mediaBelow D K cat)).map some := by
    rw [List.map_flatMap, List.map_flatMap]
    exact List.flatMap_congr fun d hd => mediaFiles_locations (habs d hd)
  rw [listFiles_eq hnodup, List.map_take, hflat, List.map_take]

theorem listFiles_class (hnodup : (dirs.map MediaDir.path).Nodup) {f : MediaFile}
    (hf : f ∈ listFiles D K dirs cat) : mediaExt K f.Name = some cat := by
  rw [listFiles_eq hnodup] at hf
  obtain ⟨d, -, hf⟩ := List.mem_flatMap.mp (List.mem_of_mem_take hf)
  obtain ⟨v, -, hv⟩ := List.mem_filterMap.mp hf
  unfold entryOf at hv
  split at hv
  · rename_i hclass
    cases hv
    exact hclass
  · cases hv

/-! ## Every file once -/

/-- A media file of this category in one of the directories. -/
def IsMedia (D : Disk) (K : CaseTable) (dirs : List MediaDir) (cat : Category) (m : Loc Name) :
    Prop :=
  (∃ d ∈ dirs, Found D d.path m) ∧ classOf K m = some cat

/-- Every file is listed at most once, under its category, at most a thousand in each; none is
missing from a category that has fewer. -/
structure Right (D : Disk) (K : CaseTable) (dirs : List MediaDir) : Prop where
  once : ((listFiles D K dirs .V ++ listFiles D K dirs .P ++ listFiles D K dirs .A).map
    fun f => Lstat D.tree f.Path).Nodup
  listed : ∀ cat, ∀ f ∈ listFiles D K dirs cat, mediaExt K f.Name = some cat ∧
    ∃ m, Lstat D.tree f.Path = some m ∧ IsMedia D K dirs cat m
  cap : ∀ cat, (listFiles D K dirs cat).length ≤ maxPerType
  complete : ∀ cat, (∃ ms : List (Loc Name), ms.Nodup ∧ (∀ m, m ∈ ms ↔ IsMedia D K dirs cat m) ∧
      ms.length < maxPerType) →
    ∀ m, IsMedia D K dirs cat m → ∃ f ∈ listFiles D K dirs cat, Lstat D.tree f.Path = some m

/-- A media file below two of the directories comes up for the second time when its category is
full. -/
def OverlapPastCap (D : Disk) (K : CaseTable) (dirs : List MediaDir) : Prop :=
  ∀ cat pre d post, dirs = pre ++ d :: post → ∀ before m after,
    mediaBelow D K cat d = before ++ m :: after → (∃ e ∈ pre, Found D e.path m) →
      maxPerType ≤ (pre.flatMap (mediaBelow D K cat)).length + before.length

section

variable {α β : Type} {N : Nat} {as : List α} {f : β → List α} {bs : List β}

/-- The first `N` are distinct when none of them stands further to the left as well. -/
theorem nodup_take_iff : (as.take N).Nodup ↔
    ∀ pre a post, as = pre ++ a :: post → a ∈ pre → N ≤ pre.length := by
  constructor
  · rintro h pre a post rfl ha
    by_contra hlt
    have hsplit : (pre ++ a :: post).take N = pre ++ a :: post.take (N - pre.length - 1) := by
      rw [List.take_append, List.take_of_length_le (by omega : pre.length ≤ N)]
      have hpos : N - pre.length = (N - pre.length - 1) + 1 := by omega
      conv_lhs => rw [hpos]
      rw [List.take_succ_cons]
    rw [hsplit, List.nodup_append] at h
    exact h.2.2 a ha a List.mem_cons_self rfl
  · intro h
    induction N with
    | zero => exact List.nodup_nil
    | succ N ih =>
      have hN := ih fun pre a post has ha => by
        have hle := h pre a post has ha
        omega
      by_cases hlen : N < as.length
      · rw [List.take_succ_eq_append_getElem hlen]
        refine List.nodup_append.mpr ⟨hN, List.nodup_singleton _, ?_⟩
        intro a ha b hb heq
        rw [List.mem_singleton] at hb
        subst heq hb
        have hsplit : as = as.take N ++ as[N] :: as.drop (N + 1) := by
          rw [List.cons_getElem_drop_succ, List.take_append_drop]
        have hle := h _ _ _ hsplit ha
        rw [List.length_take] at hle
        omega
      · rwa [List.take_of_length_le (by omega), ← List.take_of_length_le (by omega : as.length ≤ N)]

/-- Where an element of a concatenation stands. -/
theorem flatMap_split {pre : List α} {a : α} {post : List α}
    (h : bs.flatMap f = pre ++ a :: post) : ∃ bs₁ b bs₂ before after, bs = bs₁ ++ b :: bs₂ ∧
      f b = before ++ a :: after ∧ pre = bs₁.flatMap f ++ before := by
  induction bs generalizing pre with
  | nil => simp at h
  | cons b bs ih =>
    rw [List.flatMap_cons] at h
    rcases List.append_eq_append_iff.mp h with ⟨more, rfl, hrest⟩ | ⟨more, hb, hrest⟩
    · obtain ⟨bs₁, c, bs₂, before, after, rfl, hc, rfl⟩ := ih hrest
      exact ⟨b :: bs₁, c, bs₂, before, after, rfl, hc, by simp⟩
    · cases more with
      | nil =>
        have hbegin : bs.flatMap f = [] ++ a :: post := hrest.symm
        obtain ⟨bs₁, c, bs₂, before, after, rfl, hc, hpre⟩ := ih hbegin
        refine ⟨b :: bs₁, c, bs₂, before, after, rfl, hc, ?_⟩
        rw [List.flatMap_cons, List.append_assoc, ← hpre, List.append_nil, hb, List.append_nil]
      | cons c more =>
        obtain ⟨rfl, -⟩ := List.cons.inj hrest
        exact ⟨[], b, bs, pre, more, rfl, hb, rfl⟩

theorem nodup_take_flatMap_iff (hf : ∀ b ∈ bs, (f b).Nodup) : ((bs.flatMap f).take N).Nodup ↔
    ∀ bs₁ b bs₂, bs = bs₁ ++ b :: bs₂ → ∀ before a after, f b = before ++ a :: after →
      a ∈ bs₁.flatMap f → N ≤ (bs₁.flatMap f).length + before.length := by
  rw [nodup_take_iff]
  constructor
  · rintro h bs₁ b bs₂ rfl before a after hb ha
    have hle := h (bs₁.flatMap f ++ before) a (after ++ bs₂.flatMap f)
      (by rw [List.flatMap_append, List.flatMap_cons, hb]; simp) (List.mem_append_left _ ha)
    rwa [List.length_append] at hle
  · intro h pre a post hsplit ha
    obtain ⟨bs₁, b, bs₂, before, after, rfl, hb, rfl⟩ := flatMap_split hsplit
    rw [List.length_append]
    refine h bs₁ b bs₂ rfl before a after hb ((List.mem_append.mp ha).resolve_right fun hmem => ?_)
    have hnodup := hf b (by simp)
    rw [hb, List.nodup_append] at hnodup
    exact hnodup.2.2 a hmem a List.mem_cons_self rfl

end

/-! ## The table -/

theorem overlap_iff (habs : ∀ d ∈ dirs, HasPrefix d.path "/" = true) : OverlapPastCap D K dirs ↔
    ∀ cat, ((dirs.flatMap (mediaBelow D K cat)).take maxPerType).Nodup := by
  refine forall_congr' fun cat => ?_
  rw [nodup_take_flatMap_iff fun d hd => mediaBelow_nodup (habs d hd)]
  refine forall_congr' fun pre => forall_congr' fun d => forall_congr' fun post =>
    forall_congr' fun hdirs => forall_congr' fun before => forall_congr' fun m =>
    forall_congr' fun after => forall_congr' fun hbelow => ?_
  subst hdirs
  have hclass : classOf K m = some cat := by
    have hmem : m ∈ mediaBelow D K cat d := hbelow ▸ by simp
    exact ((mem_mediaBelow (habs d (by simp))).mp hmem).2
  have hpre : m ∈ pre.flatMap (mediaBelow D K cat) ↔ ∃ e ∈ pre, Found D e.path m := by
    rw [List.mem_flatMap]
    refine exists_congr fun e => and_congr_right fun he => ?_
    rw [mem_mediaBelow (habs e (List.mem_append_left _ he))]
    exact and_iff_left hclass
  rw [hpre]

theorem isMedia_iff (habs : ∀ d ∈ dirs, HasPrefix d.path "/" = true) :
    IsMedia D K dirs cat m ↔ m ∈ dirs.flatMap (mediaBelow D K cat) := by
  rw [List.mem_flatMap, IsMedia]
  constructor
  · rintro ⟨⟨d, hd, hfound⟩, hclass⟩
    exact ⟨d, hd, (mem_mediaBelow (habs d hd)).mpr ⟨hfound, hclass⟩⟩
  · rintro ⟨d, hd, hmem⟩
    obtain ⟨hfound, hclass⟩ := (mem_mediaBelow (habs d hd)).mp hmem
    exact ⟨⟨d, hd, hfound⟩, hclass⟩

theorem mem_locations (hnodup : (dirs.map MediaDir.path).Nodup)
    (habs : ∀ d ∈ dirs, HasPrefix d.path "/" = true) {o : Option (Loc Name)} :
    (∃ f ∈ listFiles D K dirs cat, Lstat D.tree f.Path = o) ↔
      ∃ m ∈ (dirs.flatMap (mediaBelow D K cat)).take maxPerType, some m = o := by
  rw [← List.mem_map, ← List.mem_map, listFiles_locations hnodup habs]

/-- With the first files of each category distinct the listing is as it should be. -/
theorem right_of_nodup (hnodup : (dirs.map MediaDir.path).Nodup)
    (habs : ∀ d ∈ dirs, HasPrefix d.path "/" = true)
    (hfirst : ∀ cat, ((dirs.flatMap (mediaBelow D K cat)).take maxPerType).Nodup) :
    Right D K dirs := by
  have hlocs : ∀ cat, ((listFiles D K dirs cat).map fun f => Lstat D.tree f.Path).Nodup := by
    intro cat
    rw [listFiles_locations hnodup habs]
    exact (hfirst cat).map (Option.some_injective _)
  have hclass : ∀ {c : Category} {o : Option (Loc Name)},
      o ∈ (listFiles D K dirs c).map (fun f => Lstat D.tree f.Path) →
        ∃ m, o = some m ∧ IsMedia D K dirs c m := by
    intro c o ho
    obtain ⟨m, hm, rfl⟩ := (mem_locations hnodup habs).mp (List.mem_map.mp ho)
    exact ⟨m, rfl, (isMedia_iff habs).mpr (List.mem_of_mem_take hm)⟩
  have hdisjoint : ∀ {c c' : Category}, c ≠ c' →
      ((listFiles D K dirs c).map fun f => Lstat D.tree f.Path).Disjoint
        ((listFiles D K dirs c').map fun f => Lstat D.tree f.Path) := by
    intro c c' hne o ho ho'
    obtain ⟨m, rfl, hm⟩ := hclass ho
    obtain ⟨m', heq, hm'⟩ := hclass ho'
    cases heq
    exact hne (Option.some.inj (hm.2.symm.trans hm'.2))
  refine ⟨?_, fun cat f hf => ?_, fun cat => ?_, fun cat => ?_⟩
  · rw [List.map_append, List.map_append]
    refine List.Nodup.append (List.Nodup.append (hlocs .V) (hlocs .P) (hdisjoint (by decide)))
      (hlocs .A) ?_
    exact List.disjoint_append_left.mpr ⟨hdisjoint (by decide), hdisjoint (by decide)⟩
  · obtain ⟨m, hm, hmedia⟩ := hclass (List.mem_map_of_mem hf)
    exact ⟨listFiles_class hnodup hf, m, hm, hmedia⟩
  · rw [listFiles_eq hnodup]
    exact List.length_take_le _ _
  · rintro ⟨ms, -, hms, hlen⟩ m hm
    refine (mem_locations hnodup habs).mpr ⟨m, ?_, rfl⟩
    have hsub : (dirs.flatMap (mediaBelow D K cat)).take maxPerType ⊆ ms := fun x hx =>
      (hms x).mpr ((isMedia_iff habs).mpr (List.mem_of_mem_take hx))
    -- the category is not full, so nothing was left out
    have hle := (List.subperm_of_subset (hfirst cat) hsub).length_le
    have hall : (dirs.flatMap (mediaBelow D K cat)).length ≤ maxPerType := by
      rw [List.length_take] at hle
      omega
    rw [List.take_of_length_le hall]
    exact (isMedia_iff habs).mp hm

theorem rooted_of_reachable (ht : Reachable t) : ∀ d ∈ loadDirs t, HasPrefix d.path "/" = true := by
  intro d hd
  have hhead := (served_of_reachable ht d (mem_loadDirs.mp hd)).rooted
  rw [HasPrefix_iff]
  cases hpath : d.path with
  | nil => rw [hpath] at hhead; cases hhead
  | cons c p =>
    rw [hpath] at hhead
    obtain rfl : c = '/' := Option.some.inj hhead
    exact ⟨p, rfl⟩

theorem loadDirs_nodup (t : MediaDirs) : ((loadDirs t).map MediaDir.path).Nodup :=
  ((List.perm_insertionSort _ t.rows).map MediaDir.path).nodup_iff.mpr t.paths

theorem listing_right_iff (D : Disk) (K : CaseTable) {t : MediaDirs} (ht : Reachable t) :
    Right D K (loadDirs t) ↔ OverlapPastCap D K (loadDirs t) := by
  have habs := rooted_of_reachable ht
  have hnodup := loadDirs_nodup t
  rw [overlap_iff habs]
  constructor
  · intro h cat
    have hlocs : ((listFiles D K (loadDirs t) cat).map fun f => Lstat D.tree f.Path).Nodup := by
      have hall := h.once
      rw [List.map_append, List.map_append] at hall
      cases cat with
      | V => exact hall.of_append_left.of_append_left
      | P => exact hall.of_append_left.of_append_right
      | A => exact hall.of_append_right
    rw [listFiles_locations hnodup habs] at hlocs
    exact hlocs.of_map
  · exact right_of_nodup hnodup habs

/-! ## A directory in another -/

def media : Name := ⟨"media", by decide⟩
def series : Name := ⟨"series", by decide⟩
def video : Name := ⟨"z.mp4", by decide⟩

/-- A directory with one video, in another that is configured as well. -/
def seriesTree : FS :=
  .ofEntries [([media], .dir), ([media, series], .dir), ([media, series, video], .file)] (by decide)

def seriesDisk : Disk := .ofTree seriesTree [[media], [media, series], [media, series, video]]
  (fun _ => 7) (by decide)
  (fun l hl hnode => by
    obtain ⟨n, hn⟩ := Option.ne_none_iff_exists'.mp hnode
    have hmem := List.mem_map_of_mem (f := Prod.fst) (FileTree.ofEntries_mem hl hn)
    exact hmem)
  (by decide)

def nested : MediaDirs := ⟨[⟨"/media", ""⟩, ⟨"/media/series", ""⟩], by decide⟩

def single : MediaDirs := ⟨[⟨"/media", ""⟩], List.nodup_singleton _⟩

theorem single_reachable : Reachable single :=
  .step .empty (rfl : check (.addDir (some ⟨"/media", ""⟩)) = .ok (.insert ⟨"/media", ""⟩)) rfl

theorem nested_reachable : Reachable nested :=
  .step single_reachable
    (rfl : check (.addDir (some ⟨"/media/series", ""⟩)) = .ok (.insert ⟨"/media/series", ""⟩)) rfl

/-- The video is listed under each of the two. -/
theorem listing_right_nested : Reachable nested ∧
    (listFiles seriesDisk .asciiOnly (loadDirs nested) .V).map MediaFile.Path =
      [("/media/series/z.mp4" : Str), "/media/series/z.mp4"] ∧
    ¬ Right seriesDisk .asciiOnly (loadDirs nested) := by
  have hpaths : (listFiles seriesDisk .asciiOnly (loadDirs nested) .V).map MediaFile.Path =
      [("/media/series/z.mp4" : Str), "/media/series/z.mp4"] := by
    decide +kernel
  refine ⟨nested_reachable, hpaths, fun h => ?_⟩
  have honce := h.once
  rw [List.map_append, List.map_append] at honce
  have hvideos := honce.of_append_left.of_append_left
  have hnodup : ((listFiles seriesDisk .asciiOnly (loadDirs nested) .V).map
      MediaFile.Path).Nodup := by
    rw [← Function.comp_def, ← List.map_map] at hvideos
    exact hvideos.of_map
  rw [hpaths] at hnodup
  exact absurd hnodup (by decide)

/-! ## Two directories apart -/

def music : Name := ⟨"music", by decide⟩
def song : Name := ⟨"a.flac", by decide⟩
def clip : Name := ⟨"clip.mkv", by decide⟩

/-- Its entries are in the order of their names. -/
def apartTree : FS :=
  .ofEntries [([music, song], .file), ([music, clip], .file), ([media], .dir), ([music], .dir),
    ([media, series], .dir), ([media, series, video], .file)] (by decide)

def apartDisk : Disk := .ofTree apartTree
  [[music, song], [music, clip], [media], [music], [media, series], [media, series, video]]
  (fun _ => 7) (by decide)
  (fun l hl hnode => by
    obtain ⟨n, hn⟩ := Option.ne_none_iff_exists'.mp hnode
    have hmem := List.mem_map_of_mem (f := Prod.fst) (FileTree.ofEntries_mem hl hn)
    exact hmem)
  (by decide)

def apart : MediaDirs := ⟨[⟨"/media", ""⟩, ⟨"/music", "A"⟩], by decide⟩

theorem apart_reachable : Reachable apart :=
  .step single_reachable
    (rfl : check (.addDir (some ⟨"/music", "A"⟩)) = .ok (.insert ⟨"/music", "A"⟩)) rfl

/-- Each file is listed once, under its kind and not under that of its directory. -/
theorem listing_right_apart : Reachable apart ∧
    Right apartDisk .asciiOnly (loadDirs apart) ∧
    (listFiles apartDisk .asciiOnly (loadDirs apart) .V).map MediaFile.Path =
      [("/media/series/z.mp4" : Str), "/music/clip.mkv"] ∧
    (listFiles apartDisk .asciiOnly (loadDirs apart) .A).map MediaFile.Path =
      [("/music/a.flac" : Str)] := by
  refine ⟨apart_reachable, (listing_right_iff apartDisk .asciiOnly apart_reachable).mpr ?_,
    by decide +kernel, by decide +kernel⟩
  refine (overlap_iff (rooted_of_reachable apart_reachable)).mpr fun cat => ?_
  cases cat <;> decide +kernel

end Dlna
end Nasd
