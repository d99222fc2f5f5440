import PatternRename.Proofs.Files.Repeats
import PatternRename.Proofs.Outcomes

/-!
# The way of a path

On its way a path leads through one place after the other. What is at other places does not matter
for it. So two trees that differ at some places, in files or in directories that one of them lacks,
cannot be told apart by paths that end elsewhere and do not lead out of such a directory again.

## Main definitions

- `Path.Step.places`, `FileTree.way` — the places that a path leads through
- `FileTree.StaysIn` — paths that do not lead out of some places again
- `FileTree.SameOff` — trees that differ at some places only

## Main results

- `FileTree.SameOff.toOption_read_eq` — the same is read from both trees
- `FileTree.SameOff.writeCopy` — trees differ at no more places after a copy
-/

namespace PatternRename

/-! ### Places along steps -/

/-- The places that steps lead to, one after the other, beginning with the first. -/
def Path.Step.places (place : Location) : List Path.Step → List Location
  | [] => [place]
  | s :: rest => place :: places (s.from place) rest

namespace Path.Step

theorem start_mem_places (place : Location) (steps : List Path.Step) :
    place ∈ places place steps := by
  cases steps <;> exact List.mem_cons_self

theorem foldl_mem_places (place : Location) (steps : List Path.Step) :
    steps.foldl Step.from place ∈ places place steps := by
  induction steps generalizing place with
  | nil => exact List.mem_cons_self
  | cons s rest ih => exact List.mem_cons_of_mem place (ih _)

theorem mem_places_append_iff {place spot : Location} {front back : List Path.Step} :
    spot ∈ places place (front ++ back) ↔
      spot ∈ places place front ∨ spot ∈ places (front.foldl Step.from place) back := by
  induction front generalizing place with
  | nil =>
    rw [places, List.mem_singleton]
    refine (or_iff_right_of_imp ?_).symm
    rintro rfl
    exact start_mem_places spot back
  | cons s front ih => rw [List.cons_append, places, places, List.mem_cons, List.mem_cons, ih,
      List.foldl_cons, or_assoc]

theorem eq_of_mem_places_of_stays {stays : List Path.Step} (h : ∀ s ∈ stays, s = .stay)
    {place spot : Location} (hspot : spot ∈ places place stays) : spot = place := by
  induction stays with
  | nil => exact List.mem_singleton.mp hspot
  | cons s rest ih =>
    obtain ⟨rfl, hrest⟩ := List.forall_mem_cons.mp h
    exact (List.mem_cons.mp hspot).elim id (ih hrest)

/-- Steps that stay in place lead to no other place. -/
theorem mem_places_append_of_stays {front stays : List Path.Step} (h : ∀ s ∈ stays, s = .stay)
    {place spot : Location} (hspot : spot ∈ places place (front ++ stays)) :
    spot ∈ places place front := by
  rcases mem_places_append_iff.mp hspot with hfront | hstays
  · exact hfront
  · rw [eq_of_mem_places_of_stays h hstays]
    exact foldl_mem_places place front

end Path.Step

namespace FileTree

/-- The places that a path leads through, whether anything is there or not. -/
def way (tree : FileTree) (p : Path) : List Location :=
  Path.Step.places (tree.origin p) p.namedSteps

theorem way_congr {tree other : FileTree} (h : tree.here = other.here) (p : Path) :
    tree.way p = other.way p := by
  rw [way, way, origin, origin, h]

theorem placeOf_mem_way (tree : FileTree) (p : Path) : tree.placeOf p ∈ tree.way p :=
  Path.Step.foldl_mem_places _ _

/-- A slash at the end leads to no other place. -/
theorem mem_way_of_mem_places {tree : FileTree} {p : Path} {spot : Location}
    (h : spot ∈ Path.Step.places (tree.origin p) p.steps) : spot ∈ tree.way p := by
  refine Path.Step.mem_places_append_of_stays ?_ h
  split
  · exact fun s hs => List.mem_singleton.mp hs
  · exact fun s hs => absurd hs List.not_mem_nil

/-- The way to an entry of a directory is that to the directory and the entry. -/
theorem mem_way_join_iff {tree : FileTree} {p : Path} {name : Name} (h : Name.IsProper name)
    {spot : Location} :
    spot ∈ tree.way (p.join ⟨name⟩) ↔ spot ∈ tree.way p ∨ spot = tree.placeOf p ++ [name] := by
  rw [way, Path.namedSteps_join p h.ne_nil h.no_slash, h.ofPiece_eq, origin,
    Path.isAbsolute_join p h.no_slash, Path.Step.mem_places_append_iff]
  refine or_congr_right' fun hnot => ?_
  rw [Path.Step.places, Path.Step.places, List.mem_cons, List.mem_singleton]
  refine or_iff_right ?_
  rintro rfl
  exact hnot (placeOf_mem_way tree p)

/-- A path that leads through one of some places does not lead out of it again. -/
def StaysIn (made : Location → Prop) (tree : FileTree) (p : Path) : Prop :=
  ∀ spot ∈ tree.way p, made spot → spot <+: tree.placeOf p

instance (made : Location → Prop) [DecidablePred made] (tree : FileTree) (p : Path) :
    Decidable (tree.StaysIn made p) :=
  inferInstanceAs (Decidable (∀ spot ∈ _, _ → _))

theorem staysIn_congr {made : Location → Prop} {tree other : FileTree} (h : tree.here = other.here)
    (p : Path) : tree.StaysIn made p ↔ other.StaysIn made p := by
  rw [StaysIn, StaysIn, way_congr h, placeOf_congr h]

/-- A path to an entry of a directory leads out of no more places than that to the directory. -/
theorem StaysIn.join {made : Location → Prop} {tree : FileTree} {p : Path}
    (h : tree.StaysIn made p) {name : Name} (hname : Name.IsProper name) :
    tree.StaysIn made (p.join ⟨name⟩) := by
  intro spot hspot hmade
  rw [placeOf_join tree p hname]
  rcases (mem_way_join_iff hname).mp hspot with hfront | rfl
  · exact (h spot hfront hmade).trans (List.prefix_append _ _)
  · exact List.prefix_rfl

/-! ### Ways through directories -/

/-- Everything above an entry is a directory. -/
theorem Closed.directory_above {tree : FileTree} (h : tree.Closed) {above place : Location}
    (habove : above <+: place) (hne : above ≠ place) (hthere : (tree.get? place).isSome = true) :
    tree.get? above = some .directory := by
  obtain ⟨back, rfl⟩ := habove
  induction back using List.reverseRecOn with
  | nil => exact absurd (List.append_nil above).symm hne
  | append_singleton back name ih =>
    have hparent := h _ hthere
    rw [← List.append_assoc, List.dropLast_concat] at hparent
    by_cases hback : above = above ++ back
    · rw [hback]
      exact hparent
    · exact ih hback (hparent ▸ rfl)

section Directories

variable {tree other : FileTree}

/-- Steps lead to the same place in another tree that has the directories on the way and an entry at
the end. -/
theorem walk_of_directories {place next : Location} {steps : List Path.Step}
    (hway : ∀ spot ∈ Path.Step.places place steps,
      tree.get? spot = some .directory → other.get? spot = some .directory)
    (hnext : (other.get? next).isSome = true) (hwalk : tree.walk place steps = .ok next) :
    other.walk place steps = .ok next := by
  induction steps generalizing place with
  | nil => exact hwalk
  | cons s rest ih =>
    rw [walk] at hwalk ⊢
    obtain ⟨hplace, hrest⟩ := List.forall_mem_cons.mp hway
    split at hwalk
    · rename_i between hstep
      obtain ⟨hdirectory, rfl, hname⟩ := step_eq_ok_iff.mp hstep
      have hthere : (other.get? (s.from place)).isSome = true := by
        -- from a place between steps the next one starts, so it is a directory
        cases rest with
        | nil => exact Except.ok.inj hwalk ▸ hnext
        | cons s' rest =>
          rw [walk] at hwalk
          split at hwalk
          · rename_i hstep'
            have hbetween := (step_eq_ok_iff.mp hstep').1
            rw [hrest _ (Path.Step.start_mem_places _ _) hbetween]
            rfl
          · simp at hwalk
      have hstep' : other.step place s = .ok (s.from place) := by
        refine step_eq_ok_iff.mpr ⟨hplace hdirectory, rfl, ?_⟩
        rintro name rfl
        exact ⟨(hname name rfl).1, hthere⟩
      rw [hstep']
      exact ih hrest hwalk
    · simp at hwalk

theorem locate_of_directories (hhere : tree.here = other.here) {p : Path} {place : Location}
    (hway : ∀ spot ∈ tree.way p,
      tree.get? spot = some .directory → other.get? spot = some .directory)
    (hplace : (other.get? place).isSome = true) (hlocate : tree.locate p = .ok place) :
    other.locate p = .ok place := by
  rw [locate] at hlocate ⊢
  split at hlocate
  · simp at hlocate
  · split at hlocate
    · simp at hlocate
    · rename_i hempty
      rw [if_neg hempty, origin, ← hhere]
      exact walk_of_directories (fun spot hspot => hway spot (mem_way_of_mem_places hspot)) hplace
        hlocate

end Directories

/-! ### Trees that differ at some places -/

/-- Two trees are the same but for files at some places and directories at others, where one of them
may have nothing: away from `made` they have the same directories, and away from both the same
entries. -/
structure SameOff (files made : Location → Prop) (tree other : FileTree) : Prop where
  here_eq : tree.here = other.here
  directory_iff : ∀ place, ¬ made place →
    (tree.get? place = some .directory ↔ other.get? place = some .directory)
  get?_eq : ∀ place, ¬ files place → ¬ made place → tree.get? place = other.get? place
  no_file : ∀ place, made place → ¬ files place → ∀ content,
    tree.get? place ≠ some (.file content) ∧ other.get? place ≠ some (.file content)
  closed : tree.Closed ∧ other.Closed

namespace SameOff

variable {files made : Location → Prop} {tree other : FileTree}

theorem symm (h : SameOff files made tree other) : SameOff files made other tree :=
  ⟨h.here_eq.symm, fun place hplace => (h.directory_iff place hplace).symm,
    fun place hfile hplace => (h.get?_eq place hfile hplace).symm,
    fun place hplace hfile content => (h.no_file place hplace hfile content).symm, h.closed.symm⟩

theorem placeOf_eq (h : SameOff files made tree other) (p : Path) :
    tree.placeOf p = other.placeOf p :=
  placeOf_congr h.here_eq p

theorem origin_eq (h : SameOff files made tree other) (p : Path) :
    tree.origin p = other.origin p := by
  rw [origin, origin, h.here_eq]

theorem get?_eq_file (h : SameOff files made tree other) {place : Location} (hplace : ¬ files place)
    {content : List UInt8} (hfile : tree.get? place = some (.file content)) :
    other.get? place = some (.file content) := by
  have hmade : ¬ made place := fun hmade => (h.no_file place hmade hplace content).1 hfile
  rw [← h.get?_eq place hplace hmade, hfile]

section Read

variable {p : Path} (hstays : tree.StaysIn made p)

include hstays

/-- A path to an entry of both trees leads to it in both. -/
theorem locate_eq_ok (h : SameOff files made tree other) {place : Location}
    (hmade : made place → tree.get? place ≠ some .directory)
    (hthere : (other.get? place).isSome = true) (hlocate : tree.locate p = .ok place) :
    other.locate p = .ok place := by
  obtain rfl := eq_placeOf_of_locate hlocate
  refine locate_of_directories h.here_eq (fun spot hspot hdirectory => ?_) hthere hlocate
  by_cases hspotMade : made spot
  · refine h.closed.2.directory_above (hstays spot hspot hspotMade) ?_ hthere
    rintro rfl
    exact hmade hspotMade hdirectory
  · exact (h.directory_iff spot hspotMade).mp hdirectory

theorem kind?_eq_directory (h : SameOff files made tree other) (hmade : ¬ made (tree.placeOf p))
    (hkind : tree.kind? p = some .directory) : other.kind? p = some .directory := by
  rw [kind?] at hkind
  split at hkind
  · rename_i place hplace
    rw [← eq_placeOf_of_locate hplace] at hmade
    have hdirectory := (h.directory_iff place hmade).mp (map_kind_eq_directory_iff.mp hkind)
    rw [kind?, h.locate_eq_ok hstays (fun hbad => absurd hbad hmade) (hdirectory ▸ rfl) hplace]
    exact map_kind_eq_directory_iff.mpr hdirectory
  · simp at hkind

variable (hfile : ¬ files (tree.placeOf p))

include hfile

theorem locate_of_file (h : SameOff files made tree other) {place : Location}
    {content : List UInt8} (hcontent : tree.get? place = some (.file content))
    (hlocate : tree.locate p = .ok place) :
    other.locate p = .ok place ∧ other.get? place = some (.file content) := by
  rw [← eq_placeOf_of_locate hlocate] at hfile
  have hother := h.get?_eq_file hfile hcontent
  exact ⟨h.locate_eq_ok hstays (fun _ => by simp [hcontent]) (hother ▸ rfl) hlocate, hother⟩

theorem read_eq_ok (h : SameOff files made tree other) {content : List UInt8}
    (hread : tree.read p = .ok content) : other.read p = .ok content := by
  obtain ⟨place, hlocate, hplace⟩ := read_eq_ok_iff.mp hread
  exact read_eq_ok_iff.mpr ⟨place, h.locate_of_file hstays hfile hplace hlocate⟩

theorem kind?_eq_file (h : SameOff files made tree other)
    (hkind : tree.kind? p = some .file) : other.kind? p = some .file := by
  rw [kind?] at hkind
  split at hkind
  · rename_i place hplace
    obtain ⟨content, hcontent⟩ := map_kind_eq_file_iff.mp hkind
    obtain ⟨hlocate, hother⟩ := h.locate_of_file hstays hfile hcontent hplace
    rw [kind?, hlocate]
    exact map_kind_eq_file_iff.mpr ⟨content, hother⟩
  · simp at hkind

/-- The same is read from both trees, though the fault may be another if nothing can be read. -/
theorem toOption_read_eq (h : SameOff files made tree other) :
    (tree.read p).toOption = (other.read p).toOption := by
  apply toOption_eq_of_ok_iff
  intro content
  refine ⟨h.read_eq_ok hstays hfile, ?_⟩
  rw [staysIn_congr h.here_eq] at hstays
  rw [h.placeOf_eq] at hfile
  exact h.symm.read_eq_ok hstays hfile

end Read

/-! ### Directories that are made in both trees -/

theorem put (h : SameOff files made tree other) {place : Location} (hplace : ¬ made place)
    (entry : Entry) (hclosed : (tree.put place entry).Closed ∧ (other.put place entry).Closed) :
    SameOff files made (tree.put place entry) (other.put place entry) := by
  refine ⟨h.here_eq, fun spot hmade => ?_, fun spot hfile hmade => ?_,
    fun spot hmade hfile content => ?_, hclosed⟩
  · rw [get?_put, get?_put]
    split
    · exact Iff.rfl
    · exact h.directory_iff spot hmade
  · rw [get?_put, get?_put]
    split
    · rfl
    · exact h.get?_eq spot hfile hmade
  · have hne : spot ≠ place := by
      rintro rfl
      exact hplace hmade
    rw [get?_put_of_ne tree hne, get?_put_of_ne other hne]
    exact h.no_file spot hmade hfile content

/-- It makes no difference elsewhere where a directory is made that one tree may lack. -/
theorem put_directory_of_made (h : SameOff files made tree other) {place : Location}
    (hplace : made place) (hclosed : (tree.put place .directory).Closed) :
    SameOff files made (tree.put place .directory) other := by
  have hne : ∀ spot, ¬ made spot → spot ≠ place := by
    rintro spot hmade rfl
    exact hmade hplace
  refine ⟨h.here_eq, fun spot hmade => ?_, fun spot hfile hmade => ?_,
    fun spot hmade hfile content => ⟨?_, (h.no_file spot hmade hfile content).2⟩,
    hclosed, h.closed.2⟩
  · rw [get?_put_of_ne tree (hne spot hmade), h.directory_iff spot hmade]
  · rw [get?_put_of_ne tree (hne spot hmade), h.get?_eq spot hfile hmade]
  · rw [get?_put]
    split
    · simp
    · exact (h.no_file spot hmade hfile content).1

end SameOff

/-- A step to a name leads into a directory or makes it, if there is no file. -/
theorem exists_makeAlong_down {tree : FileTree} (hclosed : tree.Closed) {place : Location}
    {name : Name} (hplace : tree.get? place = some .directory) (hshort : name.length ≤ maxName)
    (hfile : ∀ content, tree.get? (place ++ [name]) ≠ some (.file content)) :
    ∃ later : FileTree,
      (∀ rest, tree.makeAlong place (.down name :: rest) =
        later.makeAlong (place ++ [name]) rest) ∧
      later.get? (place ++ [name]) = some .directory ∧ later.Closed ∧
      (tree.get? (place ++ [name]) = some .directory ∧ later = tree ∨
        tree.get? (place ++ [name]) = none ∧ later = tree.put (place ++ [name]) .directory) := by
  cases hentry : tree.get? (place ++ [name]) with
  | none =>
    have hgrown := grows_put_directory hplace hentry
    refine ⟨_, fun rest => ?_, get?_put_self tree (by simp) .directory, hgrown.closed hclosed,
      Or.inr ⟨rfl, rfl⟩⟩
    rw [makeAlong_of_missing (step_down_of_none hplace hshort hentry), if_pos hplace]
  | some entry =>
    cases entry with
    | file content => exact absurd hentry (hfile content)
    | directory =>
      have hstep := step_down_eq_ok hplace hshort (hentry ▸ rfl)
      exact ⟨tree, makeAlong_of_directory hstep hentry, hentry, hclosed, Or.inl ⟨rfl, rfl⟩⟩

namespace SameOff

variable {files made : Location → Prop} {tree other : FileTree}

/-- If a step leads to no file, there is a directory after it in both trees. -/
theorem exists_down (h : SameOff files made tree other) {place : Location} {name : Name}
    (hplace : tree.get? place = some .directory) (hplace' : other.get? place = some .directory)
    (hshort : name.length ≤ maxName) (hfree : ¬ files (place ++ [name]))
    (hfile : ∀ content, tree.get? (place ++ [name]) ≠ some (.file content)) :
    ∃ later later' : FileTree,
      (∀ rest, tree.makeAlong place (.down name :: rest) =
        later.makeAlong (place ++ [name]) rest) ∧
      (∀ rest, other.makeAlong place (.down name :: rest) =
        later'.makeAlong (place ++ [name]) rest) ∧
      later.get? (place ++ [name]) = some .directory ∧
      later'.get? (place ++ [name]) = some .directory ∧ SameOff files made later later' := by
  have hfile' : ∀ content, other.get? (place ++ [name]) ≠ some (.file content) :=
    fun content hcontent => hfile content (h.symm.get?_eq_file hfree hcontent)
  obtain ⟨later, heq, hnext, hclosed, hlater⟩ :=
    exists_makeAlong_down h.closed.1 hplace hshort hfile
  obtain ⟨later', heq', hnext', hclosed', hlater'⟩ :=
    exists_makeAlong_down h.closed.2 hplace' hshort hfile'
  refine ⟨later, later', heq, heq', hnext, hnext', ?_⟩
  by_cases hmade : made (place ++ [name])
  · -- if one of the trees lacks the directory, it is made there
    have hone : SameOff files made later other := by
      obtain ⟨-, rfl⟩ | ⟨-, rfl⟩ := hlater
      · exact h
      · exact h.put_directory_of_made hmade hclosed
    obtain ⟨-, rfl⟩ | ⟨-, rfl⟩ := hlater'
    · exact hone
    · exact (hone.symm.put_directory_of_made hmade hclosed').symm
  · have hsame := h.get?_eq _ hfree hmade
    obtain ⟨hentry, rfl⟩ | ⟨hentry, rfl⟩ := hlater
    · obtain ⟨-, rfl⟩ | ⟨hnone, -⟩ := hlater'
      · exact h
      · simp [hsame, hnone] at hentry
    · obtain ⟨hdirectory, -⟩ | ⟨-, rfl⟩ := hlater'
      · simp [hsame, hdirectory] at hentry
      · exact h.put hmade .directory ⟨hclosed, hclosed'⟩

/-- Making directories along steps that do not lead through the files succeeds in both trees or in
neither, and leaves no more differences. -/
theorem makeAlong (h : SameOff files made tree other) {place : Location} {steps : List Path.Step}
    (hplace : tree.get? place = some .directory ↔ other.get? place = some .directory)
    (hway : ∀ spot ∈ Path.Step.places place steps, ¬ files spot) :
    ((tree.makeAlong place steps).2 = none ↔ (other.makeAlong place steps).2 = none) ∧
      SameOff files made (tree.makeAlong place steps).1 (other.makeAlong place steps).1 := by
  induction steps generalizing tree other place with
  | nil => exact ⟨Iff.rfl, h⟩
  | cons s rest ih =>
    obtain ⟨-, hrest⟩ := List.forall_mem_cons.mp hway
    by_cases hdirectory : tree.get? place = some .directory
    · have hdirectory' := hplace.mp hdirectory
      have hstep : ∀ t : FileTree, t.get? place = some .directory → (∀ name, s ≠ .down name) →
          t.step place s = .ok (s.from place) := fun t ht hs =>
        step_eq_ok_iff.mpr ⟨ht, rfl, fun name hname => absurd hname (hs name)⟩
      cases s with
      | stay =>
        rw [makeAlong_of_directory (hstep tree hdirectory nofun) hdirectory,
          makeAlong_of_directory (hstep other hdirectory' nofun) hdirectory']
        exact ih h hplace hrest
      | up =>
        have hparent := h.closed.1 place (hdirectory ▸ rfl)
        have hparent' := h.closed.2 place (hdirectory' ▸ rfl)
        rw [makeAlong_of_directory (hstep tree hdirectory nofun) hparent,
          makeAlong_of_directory (hstep other hdirectory' nofun) hparent']
        exact ih h (iff_of_true hparent hparent') hrest
      | down name =>
        have hfree : ¬ files (place ++ [name]) := hrest _ (Path.Step.start_mem_places _ rest)
        by_cases hlong : maxName < name.length
        · rw [makeAlong_of_fault (step_down_of_long hdirectory hlong) (by simp),
            makeAlong_of_fault (step_down_of_long hdirectory' hlong) (by simp)]
          exact ⟨Iff.rfl, h⟩
        have hshort := Nat.not_lt.mp hlong
        by_cases hfile : ∃ content, tree.get? (place ++ [name]) = some (.file content)
        · -- a file is in the way, the same in both trees
          obtain ⟨content, hcontent⟩ := hfile
          have hcontent' := h.get?_eq_file hfree hcontent
          rw [makeAlong_of_ok (step_down_eq_ok hdirectory hshort (hcontent ▸ rfl)),
            makeAlong_of_ok (step_down_eq_ok hdirectory' hshort (hcontent' ▸ rfl)), hcontent,
            hcontent']
          split
          · exact ⟨Iff.rfl, h⟩
          · exact ih h (by rw [hcontent, hcontent']) hrest
        · obtain ⟨later, later', heq, heq', hnext, hnext', hlater⟩ :=
            h.exists_down hdirectory hdirectory' hshort hfree (not_exists.mp hfile)
          rw [heq, heq']
          exact ih hlater (iff_of_true hnext hnext') hrest
    · obtain ⟨fault, heq⟩ := exists_makeAlong_of_ne_directory hdirectory s rest
      obtain ⟨fault', heq'⟩ := exists_makeAlong_of_ne_directory (mt hplace.mpr hdirectory) s rest
      rw [heq, heq']
      exact ⟨iff_of_false (Option.some_ne_none fault) (Option.some_ne_none fault'), h⟩

variable {target : Path}

theorem makeParent (h : SameOff files made tree other)
    (horigin : tree.get? (tree.origin target) = some .directory ↔
      other.get? (tree.origin target) = some .directory)
    (hway : ∀ parent, target.parent? = some parent → ∀ spot ∈ tree.way parent, ¬ files spot) :
    ((tree.makeParent target).2 = none ↔ (other.makeParent target).2 = none) ∧
      SameOff files made (tree.makeParent target).1 (other.makeParent target).1 := by
  rw [FileTree.makeParent, FileTree.makeParent]
  split
  · exact ⟨Iff.rfl, h⟩
  · rename_i parent hparent
    rw [makeDirectories, makeDirectories]
    split
    · exact ⟨Iff.rfl, h⟩
    · rw [← h.origin_eq]
      rw [← origin_parent? tree hparent] at horigin
      exact h.makeAlong horigin fun spot hspot => hway parent hparent spot
        (mem_way_of_mem_places hspot)

end SameOff

/-! ### Copies to both trees -/

/-- A copy keeps clear of some files and directories: its source is none of the files, and its path
leads out of none of the directories; its target is none of the directories, and the way to it leads
through none of the files. -/
structure Clear (files made : Location → Prop) (tree : FileTree) (copy : PlannedCopy) : Prop where
  source : tree.StaysIn made copy.source
  source_file : ¬ files (tree.placeOf copy.source)
  target : ¬ made (tree.placeOf copy.target)
  parent : ∀ parent, copy.target.parent? = some parent → ∀ spot ∈ tree.way parent, ¬ files spot

theorem Clear.congr {files made : Location → Prop} {tree other : FileTree} {copy : PlannedCopy}
    (h : Clear files made tree copy) (hhere : tree.here = other.here) :
    Clear files made other copy := by
  refine ⟨(staysIn_congr hhere _).mp h.source, ?_, ?_, fun parent hparent => ?_⟩
  · rw [← placeOf_congr hhere]
    exact h.source_file
  · rw [← placeOf_congr hhere]
    exact h.target
  · rw [← way_congr hhere]
    exact h.parent parent hparent

namespace SameOff

variable {files made : Location → Prop} {tree other : FileTree} {copy : PlannedCopy}

theorem directory_origin_iff (h : SameOff files made tree other) (hhere : ¬ made tree.here)
    (p : Path) : tree.get? (tree.origin p) = some .directory ↔
      other.get? (tree.origin p) = some .directory := by
  rw [origin]
  split
  · exact Iff.rfl
  · exact h.directory_iff tree.here hhere

theorem copyFile (h : SameOff files made tree other) (hclear : Clear files made tree copy)
    (hplace : (tree.locateForWriting copy.target).toOption =
      (other.locateForWriting copy.target).toOption) :
    SameOff files made (tree.copyFile copy.source copy.target).1
      (other.copyFile copy.source copy.target).1 := by
  have hread := h.toOption_read_eq hclear.source hclear.source_file
  rw [fst_copyFile, fst_copyFile, ← hread, ← hplace, ← h.placeOf_eq]
  split
  · rename_i content place hcontent htarget
    have hone := toOption_eq_some_iff.mp htarget
    have hother := toOption_eq_some_iff.mp (hplace.symm.trans htarget)
    have hnot := hclear.target
    rw [← (of_locateForWriting hone).1] at hnot
    exact h.put hnot _ ⟨(grows_put_file hone _).closed h.closed.1,
      (grows_put_file hother _).closed h.closed.2⟩
  · exact h

/-- Where the parent of a path has been made, files can be written to it as in the other tree. -/
theorem locateForWriting_eq_ok {later later' : FileTree} {target : Path}
    (h : SameOff files made later later') (hclosed : other.Closed)
    (horigin : other.get? (other.origin target) = some .directory)
    (hmake : other.makeParent target = (later', none)) (htarget : ¬ made (later.placeOf target))
    {place : Location} (hplace : later.locateForWriting target = .ok place) :
    later'.locateForWriting target = .ok place := by
  have hat := (of_locateForWriting hplace).1
  obtain ⟨hfault, hslash, parent, name, hlast, hwalk, -, hshort, hfree, rfl⟩ :=
    locateForWriting_eq_ok_iff.mp hplace
  obtain ⟨found, hfound, hdirectory⟩ := walk_of_makeParent hclosed horigin hslash hlast hmake
  obtain rfl : found = parent := by
    rw [eq_foldl_of_walk hfound, eq_foldl_of_walk hwalk, h.origin_eq]
  rw [← hat] at htarget
  exact locateForWriting_eq_ok_iff.mpr ⟨hfault, hslash, found, name, hlast, hfound, hdirectory,
    hshort, mt (h.directory_iff _ htarget).mpr hfree, rfl⟩

/-- Trees differ at no more places after a copy that keeps clear of these. -/
theorem writeCopy (h : SameOff files made tree other) (hhere : ¬ made tree.here)
    (hclear : Clear files made tree copy) :
    SameOff files made (tree.writeCopy copy).1 (other.writeCopy copy).1 := by
  have horigin := h.directory_origin_iff hhere copy.target
  obtain ⟨hnone, hparents⟩ := h.makeParent horigin hclear.parent
  have hsame := (content?_makeParent tree copy.target).2.symm
  by_cases hdirectory : tree.get? (tree.origin copy.target) = some .directory
  · have hdirectory' := horigin.mp hdirectory
    rw [h.origin_eq] at hdirectory'
    rw [FileTree.writeCopy, FileTree.writeCopy]
    cases hmake : tree.makeParent copy.target with | mk later fault
    cases hmake' : other.makeParent copy.target with | mk later' fault'
    rw [hmake] at hsame
    rw [hmake, hmake'] at hnone hparents
    have hlater := hclear.congr hsame
    cases fault with
    | some fault =>
      cases fault' with
      | some fault' => exact hparents
      | none => exact absurd (hnone.mpr rfl) (Option.some_ne_none fault)
    | none =>
      obtain rfl : fault' = none := hnone.mp rfl
      refine copyFile hparents hlater (toOption_eq_of_ok_iff fun place => ⟨?_, ?_⟩)
      · exact hparents.locateForWriting_eq_ok h.closed.2 hdirectory' hmake' hlater.target
      · have htarget := hlater.target
        rw [hparents.placeOf_eq] at htarget
        exact hparents.symm.locateForWriting_eq_ok h.closed.1 hdirectory hmake htarget
  · -- no directory is made and no file written along a path that begins nowhere
    have hdirectory' := mt horigin.mpr hdirectory
    rw [h.origin_eq] at hdirectory'
    rw [(writeCopy_of_origin_ne_directory hdirectory).2,
      (writeCopy_of_origin_ne_directory hdirectory').2]
    exact h

end SameOff

end FileTree

end PatternRename
