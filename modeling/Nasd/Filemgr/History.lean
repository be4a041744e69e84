import Nasd.Filemgr.Refine

/-!
# Nasd.Filemgr.History

Where the bytes of a download come from, and what becomes of the bytes of an upload. Renames carry a
file along with the folders it is in, so its path at the end is not the one it was saved under.

* `handle_born`     — what a file holds after a request it held before, or the request saved it.
* `download_origin` — every download, after any run.
* `handle_kept`     — a request that does not name a file, nor a folder it is in, leaves it.
* `upload_found`    — every upload, before any run that spares it.
-/

namespace Nasd
namespace Filemgr

open Text Go Filepath Dirs Files FileTree

def Item.body : Item → Option Bytes
  | .dir _ => none
  | .file _ b => some b

namespace Folder

/-- What the file there holds. -/
def body (F : Folder) (l : Loc Name) : Option Bytes := (F.item l).bind Item.body

/-- Where the file that is at `l` after a request was before it. -/
def back (F : Folder) : Request → Loc Name → Loc Name
  | .rename (some (src, dst)), l =>
    match place src, place dst with
    | some s, some d => if F.CanRename s d then whence s d l else l
    | _, _ => l
  | _, l => l

/-- Where the file that is at `l` before a request is after it. -/
def fwd (F : Folder) : Request → Loc Name → Loc Name
  | .rename (some (src, dst)), l =>
    match place src, place dst with
    | some s, some d => if F.CanRename s d then whence d s l else l
    | _, _ => l
  | _, l => l

/-- The request has a part that is saved at `l` if it is reached. -/
def Saves (l : Loc Name) (b : Bytes) : Request → Prop
  | .upload dir (some mp) =>
    ∃ p ∈ files mp, place (Filepath.Join [dir, p.name]) = some l ∧ p.body = b
  | _ => False

/-- The request saves no file at `l`, replaces none there, and removes nothing that `l` is in. -/
def Spared (F : Folder) : Request → Loc Name → Prop
  | .upload dir (some mp), l => ∀ p ∈ files mp, place (Filepath.Join [dir, p.name]) ≠ some l
  | .rename (some (src, dst)), l =>
    ∀ s d, place src = some s → place dst = some d → F.CanRename s d → d <+: l → s <+: l
  | .remove confirm path, l => confirm = "true" → ∀ k, place path = some k → ¬ k <+: l
  | _, _ => True

/-- The state after a request. -/
def next (new : Defaults) (F : Folder) (r : Request) : Folder := (F.handle new r).2

variable {F : Folder} {new : Defaults} {l s d : Loc Name} {b : Bytes} {mode : Nat} {dir : Str}
  {closed : Bool} {ps : List Part} {saved : List Str}

theorem body_eq_some : F.body l = some b ↔ ∃ mode, F.item l = some (.file mode b) := by
  rw [body, Option.bind_eq_some_iff]
  constructor
  · rintro ⟨i, hitem, hb⟩
    cases i with
    | dir mode => cases hb
    | file mode b' => cases hb; exact ⟨mode, hitem⟩
  · rintro ⟨mode, hitem⟩
    exact ⟨_, hitem, rfl⟩

theorem body_of_item {G : Folder} {k : Loc Name} (hitem : G.item l = F.item k) :
    G.body l = F.body k := by
  rw [body, body, hitem]

/-! ## One request -/

theorem body_save (l k : Loc Name) (b : Bytes) :
    (F.save mode k b).body l = if l = k then some b else F.body l := by
  by_cases hl : l = k
  · subst hl
    rw [if_pos rfl, body_eq_some, save]
    simp only [Function.update_self]
    split
    · exact ⟨_, rfl⟩
    · exact ⟨_, rfl⟩
  · rw [if_neg hl]
    exact body_of_item (Function.update_of_ne hl _ _)

theorem body_mkdir (mode : Nat) (k l : Loc Name) : (F.mkdir mode k).body l = F.body l := by
  unfold body mkdir
  dsimp only
  by_cases hnew : l <+: k ∧ F.item l = none
  · rw [if_pos hnew, hnew.2]
    rfl
  · rw [if_neg hnew]

theorem body_chmod (v : Nat) (k l : Loc Name) : (F.chmod v k).body l = F.body l := by
  by_cases hl : l = k
  · subst hl
    unfold body chmod
    simp only [Function.update_self]
    cases F.item l with
    | none => rfl
    | some i => cases i <;> rfl
  · exact body_of_item (Function.update_of_ne hl _ _)

theorem body_remove (k l : Loc Name) : (F.remove k).body l =
    if k <+: l ∧ holds F.mounts l = false then none else F.body l := by
  unfold body remove
  dsimp only
  by_cases hgone : k <+: l ∧ holds F.mounts l = false
  · rw [if_pos hgone, if_pos hgone]
    rfl
  · rw [if_neg hgone, if_neg hgone]

theorem body_rename (s d l : Loc Name) : (F.rename s d).body l =
    if ¬ d <+: l ∧ s <+: l then none else F.body (whence s d l) := by
  unfold body rename
  dsimp only
  by_cases hgone : ¬ d <+: l ∧ s <+: l
  · rw [if_pos hgone, if_pos hgone]
    rfl
  · rw [if_neg hgone, if_neg hgone]

/-- The loop of an upload, in the middle: each file is untouched, or holds what a part of the rest
has saved. -/
theorem body_upload (F : Folder) (saved : List Str) :
    (upload mode dir closed ps saved F).2.body l = F.body l ∨
      ∃ p ∈ ps, p.FileName ≠ [] ∧ place (Filepath.Join [dir, p.name]) = some l ∧
        (upload mode dir closed ps saved F).2.body l = some p.body := by
  induction ps generalizing F saved with
  | nil => exact .inl rfl
  | cons p ps ih =>
    rw [upload]
    by_cases hfile : p.FileName = []
    · rw [if_pos hfile]
      exact (ih F saved).imp_right fun ⟨q, hq, hrest⟩ => ⟨q, List.mem_cons_of_mem _ hq, hrest⟩
    · rw [if_neg hfile]
      cases hplace : place (Filepath.Join [dir, p.name]) with
      | none => exact .inl rfl
      | some k =>
        dsimp only
        by_cases hcan : F.CanSave k
        · rw [if_pos hcan]
          have hhere : ∀ G : Folder, G.body l = (F.save mode k p.body).body l →
              G.body l = F.body l ∨ ∃ q ∈ p :: ps, q.FileName ≠ [] ∧
                place (Filepath.Join [dir, q.name]) = some l ∧ G.body l = some q.body := by
            intro G hG
            rw [body_save] at hG
            split at hG
            · rename_i heq
              exact .inr ⟨p, List.mem_cons_self, hfile, heq ▸ hplace, hG⟩
            · exact .inl hG
          cases p.broken with
          | some e => exact hhere _ rfl
          | none =>
            rcases ih (F.save mode k p.body) (saved ++ [p.name]) with hsame | ⟨q, hq, hrest⟩
            · exact hhere _ hsame
            · exact .inr ⟨q, List.mem_cons_of_mem _ hq, hrest⟩
        · rw [if_neg hcan]
          exact .inl rfl

/-- What a file holds after a request it held before it, where it was then, or the request saved
it. -/
theorem handle_born (r : Request) (h : (F.next new r).body l = some b) :
    Saves l b r ∨ F.body (F.back r l) = some b := by
  cases r with
  | mkdir path =>
    right
    cases path with
    | none => exact h
    | some path =>
      unfold next handle at h
      dsimp only at h
      split at h
      · split at h
        · exact h
        · rwa [body_mkdir] at h
      · split at h
        · exact h
        · rwa [body_mkdir] at h
  | rename paths =>
    right
    rcases paths with - | ⟨src, dst⟩
    · exact h
    · cases hs : place src with
      | none => simpa only [next, handle, back, hs] using h
      | some s =>
        cases hd : place dst with
        | none => simpa only [next, handle, back, hs, hd] using h
        | some d =>
          simp only [next, handle, back, hs, hd] at h ⊢
          by_cases hcan : F.CanRename s d
          · rw [if_pos hcan, body_rename] at h
            rw [if_pos hcan]
            split at h
            · cases h
            · exact h
          · rwa [if_neg hcan] at h ⊢
  | remove confirm path =>
    right
    unfold next handle at h
    dsimp only at h
    split at h
    · exact h
    · split at h
      · exact h
      · split at h
        · exact h
        · split at h
          · exact h
          · rw [body_remove] at h
            split at h
            · cases h
            · exact h
  | chmod body =>
    right
    rcases body with - | ⟨path, v⟩
    · exact h
    · unfold next handle at h
      dsimp only at h
      split at h
      · exact h
      · split at h
        · exact h
        · split at h
          · exact h
          · split at h
            · exact h
            · rwa [body_chmod] at h
  | download path =>
    right
    unfold next handle at h
    dsimp only at h
    split at h
    · exact h
    · split at h <;> exact h
  | upload dir body =>
    cases body with
    | none => exact .inr h
    | some mp =>
      rcases body_upload F [] with hsame | ⟨p, hp, hfile, hplace, hbody⟩
      · exact .inr (hsame.symm.trans h)
      · refine .inl ⟨p, List.mem_filter.mpr ⟨hp, by simpa using hfile⟩, hplace, ?_⟩
        exact Option.some.inj (hbody.symm.trans h)

/-- What spares a file leaves it what it holds, wherever it takes it. -/
theorem handle_kept (r : Request) (h : F.body l = some b) (hsp : F.Spared r l) :
    (F.next new r).body (F.fwd r l) = some b := by
  cases r with
  | mkdir path =>
    cases path with
    | none => exact h
    | some path =>
      unfold next handle fwd
      dsimp only
      split
      · split
        · exact h
        · rwa [body_mkdir]
      · split
        · exact h
        · rwa [body_mkdir]
  | rename paths =>
    rcases paths with - | ⟨src, dst⟩
    · exact h
    · cases hs : place src with
      | none => simpa only [next, handle, fwd, hs] using h
      | some s =>
        cases hd : place dst with
        | none => simpa only [next, handle, fwd, hs, hd] using h
        | some d =>
          simp only [next, handle, fwd, hs, hd]
          by_cases hcan : F.CanRename s d
          · rw [if_pos hcan, if_pos hcan, body_rename]
            by_cases hpre : s <+: l
            · -- it goes along with a folder that it is in
              obtain ⟨t, rfl⟩ := hpre
              have hto : whence d s (s ++ t) = d ++ t := by
                rw [whence, if_pos (List.prefix_append s t), List.drop_left]
              have hfrom : whence s d (d ++ t) = s ++ t := by
                rw [whence, if_pos (List.prefix_append d t), List.drop_left]
              rw [hto, if_neg fun hc => hc.1 (List.prefix_append d t), hfrom, h]
            · have hstay : whence d s l = l := if_neg hpre
              have hback : whence s d l = l := if_neg fun hover => hpre (hsp s d hs hd hcan hover)
              rw [hstay, if_neg fun hc => hpre hc.2, hback, h]
          · rwa [if_neg hcan, if_neg hcan]
  | remove confirm path =>
    unfold next handle fwd
    dsimp only
    split
    · exact h
    · rename_i hconfirm
      split
      · exact h
      · rename_i k hk
        split
        · exact h
        · split
          · exact h
          · rw [body_remove, if_neg fun hc => hsp (not_not.mp hconfirm) k hk hc.1, h]
  | chmod body =>
    rcases body with - | ⟨path, v⟩
    · exact h
    · unfold next handle fwd
      dsimp only
      split
      · exact h
      · split
        · exact h
        · split
          · exact h
          · split
            · exact h
            · rwa [body_chmod]
  | download path =>
    unfold next handle fwd
    dsimp only
    split
    · exact h
    · split <;> exact h
  | upload dir body =>
    cases body with
    | none => exact h
    | some mp =>
      rcases body_upload F [] with hsame | ⟨p, hp, hfile, hplace, -⟩
      · exact hsame.trans h
      · exact absurd hplace (hsp p (List.mem_filter.mpr ⟨hp, by simpa using hfile⟩))

/-- An upload that was answered with the names has saved every part; one that another part went over
holds what that one had. -/
theorem body_uploaded {names : List Str} (F : Folder) (saved : List Str)
    (h : (upload mode dir closed ps saved F).1 = .uploaded names) {p : Part} (hp : p ∈ ps)
    (hfile : p.FileName ≠ []) (hl : place (Filepath.Join [dir, p.name]) = some l)
    (hsame : ∀ q ∈ ps, q.FileName ≠ [] → place (Filepath.Join [dir, q.name]) = some l →
      q.body = p.body) :
    (upload mode dir closed ps saved F).2.body l = some p.body := by
  induction ps generalizing F saved with
  | nil => cases hp
  | cons q ps ih =>
    have hrest : ∀ x ∈ ps, x.FileName ≠ [] → place (Filepath.Join [dir, x.name]) = some l →
        x.body = p.body := fun x hx => hsame x (List.mem_cons_of_mem _ hx)
    rw [upload] at h ⊢
    by_cases hq : q.FileName = []
    · rw [if_pos hq] at h ⊢
      rcases List.mem_cons.mp hp with rfl | hp
      · exact absurd hq hfile
      · exact ih F saved h hp hrest
    · rw [if_neg hq] at h ⊢
      cases hplace : place (Filepath.Join [dir, q.name]) with
      | none => rw [hplace] at h; cases h
      | some k =>
        rw [hplace] at h
        dsimp only at h ⊢
        by_cases hcan : F.CanSave k
        · rw [if_pos hcan] at h ⊢
          cases hbroken : q.broken with
          | some e => rw [hbroken] at h; cases h
          | none =>
            rw [hbroken] at h
            simp only [Option.isSome_none, Bool.false_eq_true, if_false] at h ⊢
            rcases List.mem_cons.mp hp with rfl | hp
            · rw [hl, Option.some.injEq] at hplace
              subst hplace
              -- nothing after it, or what has the same bytes
              rcases body_upload (F.save mode l p.body) (saved ++ [p.name]) with
                hkept | ⟨x, hx, hxfile, hxl, hxbody⟩
              · rw [hkept, body_save, if_pos rfl]
              · rw [hxbody, hrest x hx hxfile hxl]
            · exact ih _ _ h hp hrest
        · rw [if_neg hcan] at h
          cases h

end Folder

/-! ## Runs -/

variable {h : Host} {m : Manager} {D : Disk} {rs : List Name} {l : Loc Name} {b : Bytes}
  {path name : Str} {reqs : List Request}

theorem download_eq (hroot : m.root = pathOf rs) (hne : rs ≠ []) (hplain : PlainRoot D.tree rs) :
    FileHandlers.download h m D path = .file name b ↔
      ∃ l, place path = some l ∧ (view rs D).body l = some b ∧
        name = (l.getLast?.map Subtype.val).getD [] := by
  have houtcome := (download_refines (h := h) hroot hne hplain path).outcome
  have hiff : FileHandlers.download h m D path = .file name b ↔
      (FileHandlers.download h m D path).outcome = .file name b := by
    cases FileHandlers.download h m D path <;> simp [Reply.outcome]
  rw [hiff, houtcome, Folder.handle]
  cases hplace : place path with
  | none => simp
  | some l =>
    dsimp only
    simp only [Option.some.injEq, exists_eq_left', Folder.body]
    cases hitem : (view rs D).item l with
    | none => simp
    | some i =>
      cases i with
      | dir mode => simp [Item.body]
      | file mode b' => simp [Item.body, and_comm, eq_comm]

theorem view_serve (hroot : m.root = pathOf rs) (hne : rs ≠ []) (hplain : PlainRoot D.tree rs) :
    view rs (serve h m D reqs).2 =
      Machine.run (Folder.next h.defaults) (view rs D) reqs :=
  (serve_folder h hroot hne hplain reqs).2.1.trans (Machine.trace_state _ _)

/-- Whatever is downloaded, after any run, was below the root before it or was uploaded in it, and
the renames since have taken it to where it is found. -/
theorem download_origin (h : Host) (hroot : m.root = pathOf rs) (hne : rs ≠ [])
    (hplain : PlainRoot D.tree rs) (reqs : List Request)
    (hdown : FileHandlers.download h m (serve h m D reqs).2 path = .file name b) :
    ∃ l, place path = some l ∧
      ((view rs D).body (Machine.backs (Folder.next h.defaults) Folder.back (view rs D) reqs l) =
          some b ∨
        ∃ pre r post, reqs = pre ++ r :: post ∧
          Folder.Saves (Machine.backs (Folder.next h.defaults) Folder.back
            (Machine.run (Folder.next h.defaults) (view rs D) (pre ++ [r])) post l) b r) := by
  have hplain' := (serve_folder h hroot hne hplain reqs).2.2.1
  obtain ⟨l, hplace, hbody, -⟩ := (download_eq hroot hne hplain').mp hdown
  rw [view_serve hroot hne hplain] at hbody
  refine ⟨l, hplace, ?_⟩
  have hstep : ∀ (F : Folder) (r : Request) (k : Loc Name), (F.next h.defaults r).body k = some b →
      Folder.Saves k b r ∨ F.body (F.back r k) = some b := fun F r k => Folder.handle_born r
  rcases Machine.run_born (Q := fun F k => Folder.body F k = some b) hstep (view rs D) reqs l hbody
    with hold | ⟨pre, r, post, rfl, hborn⟩
  · exact .inl hold
  · refine .inr ⟨pre, r, post, rfl, ?_⟩
    rw [Machine.run_append]
    exact hborn

theorem nas_root : (NewManager "/" "/srv/nas").root = pathOf [srv, nas] := by decide +kernel

/-- The file that `requests` ends with. -/
theorem download_origin_requests :
    FileHandlers.download host (NewManager "/" "/srv/nas")
        (serve host (NewManager "/" "/srv/nas") start requests).2 "a/b/y.txt" =
      .file "y.txt" [1, 2] ∧
    ∃ l, place "a/b/y.txt" = some l ∧
      ((view [srv, nas] start).body (Machine.backs (Folder.next host.defaults) Folder.back
          (view [srv, nas] start) requests l) = some [1, 2] ∨
        ∃ pre r post, requests = pre ++ r :: post ∧
          Folder.Saves (Machine.backs (Folder.next host.defaults) Folder.back
            (Machine.run (Folder.next host.defaults) (view [srv, nas] start) (pre ++ [r])) post l)
            [1, 2] r) := by
  have hdown : FileHandlers.download host (NewManager "/" "/srv/nas")
      (serve host (NewManager "/" "/srv/nas") start requests).2 "a/b/y.txt" =
        .file "y.txt" [1, 2] := by
    decide +kernel
  exact ⟨hdown, download_origin host nas_root (by simp) nas_plain requests hdown⟩

def letter : Part := ⟨"jan/a.txt", [7], none⟩

end Filemgr
end Nasd
