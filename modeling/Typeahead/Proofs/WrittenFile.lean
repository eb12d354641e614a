import Typeahead.Files.FileTree

/-!
# A file that was written can be read

Writing puts a file where its path leads, and only there.  The way to that place runs through directories, and
none of them is what was written, so the path still leads there afterwards.
-/

namespace Typeahead

theorem Path.dropSlashes_of_getLast? {path : Text} (h : path.getLast? ≠ some 0x2F) : dropSlashes path = path := by
  unfold dropSlashes
  rw [← List.head?_reverse] at h
  cases hr : path.reverse with
  | nil => rw [List.reverse_eq_nil_iff.mp hr]; rfl
  | cons u front =>
    rw [hr] at h
    have hu : (u == 0x2F) = false := beq_eq_false_iff_ne.mpr fun he => h (congrArg some he)
    simp only [List.dropWhile_cons, hu, Bool.false_eq_true, if_false]
    rw [← hr, List.reverse_reverse]

namespace FileTree

variable {files : FileTree} {place : List Text} {node : FileNode}

theorem node?_put_self (hp : place ≠ []) : (files.put place node).node? place = some node := by
  simp [node?, put, hp]

theorem node?_put_of_ne {other : List Text} (h : other ≠ place) :
    (files.put place node).node? other = files.node? other := by
  have hhead : (place == other) = false := beq_eq_false_iff_ne.mpr h.symm
  have hrest : (files.entries.filter fun e => e.1 != place).find? (fun e => e.1 == other) =
      files.entries.find? fun e => e.1 == other := by
    rw [List.find?_filter]
    congr 1
    funext e
    by_cases he : e.1 = other
    · simp [he, h]
    · simp [he]
  simp only [node?, put, List.find?_cons, hhead, hrest]

/-- A way that leads through directories is not changed by what stands where there was none. -/
theorem follow_put (hnode : files.node? place ≠ some .directory) : ∀ {parts start dest : List Text},
    files.follow start parts = .ok dest → (files.put place node).follow start parts = .ok dest
  | [], _, _, h => h
  | part :: parts, start, dest, h => by
    unfold follow at h ⊢
    by_cases hs : start = place
    · subst hs
      split at h
      · cases h
      · rename_i hdir
        exact absurd hdir hnode
      · cases h
    · rw [node?_put_of_ne hs]
      split at h
      · cases h
      · exact follow_put hnode h
      · cases h

theorem place?_put (hnode : files.node? place ≠ some .directory) {path : Text} {dest : List Text}
    (h : files.place? path = .ok dest) : (files.put place node).place? path = .ok dest := by
  unfold place? at h ⊢
  split at h
  · cases h
  · rename_i hpath
    rw [if_neg hpath]
    exact follow_put hnode h

theorem node?_nil : files.node? [] = some .directory := rfl

theorem exists?_of_read {path : Text} {bytes : Utf8.Bytes}
    (h : files.read path = .ok bytes) : files.exists? path = true := by
  unfold read at h
  unfold exists?
  split at h
  · cases h
  · rename_i place hplace
    split at h
    · rename_i hnode
      rw [hplace]
      simp only [hnode, Option.isSome_some]
    · cases h
    · cases h

/-- What was written is what is read. -/
theorem read_write {files' : FileTree} {path : Text} {bytes : Utf8.Bytes}
    (h : files.write path bytes = .ok files') : files'.read path = .ok bytes := by
  unfold write at h
  split at h
  · cases h
  · rename_i dest hplace
    split at h
    · cases h
    · rename_i hcond
      cases h
      simp only [Bool.or_eq_true, beq_iff_eq, not_or] at hcond
      obtain ⟨hnode, hlast⟩ := hcond
      have hne : dest ≠ [] := by
        rintro rfl
        exact hnode node?_nil
      rw [Path.dropSlashes_of_getLast? hlast] at hplace
      have hplace' : (files.put dest (.file bytes)).place? path = .ok dest := place?_put hnode hplace
      simp only [read, hplace', node?_put_self hne]

end FileTree

end Typeahead
