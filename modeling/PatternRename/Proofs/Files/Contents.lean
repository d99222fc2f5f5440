import Mathlib.Logic.Function.Basic
import PatternRename.FileTree.Update
import PatternRename.Run.Summary

/-!
# The contents of files

A path names a place, whether anything is there or not, and an operation that succeeds works on
the place that its path names. Making directories changes no file. A copy changes the file at its
target and no other one.

## Main definitions

- `FileTree.placeOf` — the place that a path names
- `FileTree.content?` — the octets of the file at a place
- `FileTree.writeCopy` — a copy with the directory that it needs
- `FileTree.SameBut` — trees that differ in the contents of some files only

## Main results

- `FileTree.content?_writeCopy` — what a copy changes
- `FileTree.SameBut.writeCopy` — copies do not depend on hidden files, unless they copy one
-/

namespace PatternRename

/-! ### The places of paths -/

def Path.Step.from (place : Location) : Path.Step → Location
  | .stay => place
  | .up => place.dropLast
  | .down name => place ++ [name]

namespace FileTree

/-- The place that a path names, whether anything is there or not. -/
def placeOf (tree : FileTree) (p : Path) : Location :=
  p.namedSteps.foldl Path.Step.from (tree.origin p)

/-- A step starts from a directory, and a name is there and is not too long. -/
theorem step_eq_ok_iff {tree : FileTree} {place next : Location} {s : Path.Step} :
    tree.step place s = .ok next ↔
      tree.get? place = some .directory ∧ next = s.from place ∧
        ∀ name, s = .down name →
          name.length ≤ maxName ∧ (tree.get? (place ++ [name])).isSome = true := by
  cases hplace : tree.get? place with
  | none => simp [step, hplace]
  | some entry =>
    cases entry with
    | file content => simp [step, hplace]
    | directory =>
      cases s with
      | stay => simp [step, hplace, Path.Step.from, eq_comm (a := next)]
      | up => simp [step, hplace, Path.Step.from, eq_comm (a := next)]
      | down name =>
        by_cases hlong : maxName < name.length
        · have hnot : ¬ name.length ≤ maxName := Nat.not_le.mpr hlong
          simp [step, hplace, hlong, hnot]
        · have hle : name.length ≤ maxName := Nat.not_lt.mp hlong
          by_cases hthere : (tree.get? (place ++ [name])).isSome = true
          · simp [step, hplace, hlong, hle, hthere, Path.Step.from, eq_comm (a := next)]
          · simp [step, hplace, hlong, hthere]

theorem step_of_file {tree : FileTree} {place : Location} {content : List UInt8}
    (h : tree.get? place = some (.file content)) (s : Path.Step) :
    tree.step place s = .error .notDirectory := by
  simp only [step, h]

theorem step_down_eq_ok {tree : FileTree} {place : Location} {name : Name}
    (hplace : tree.get? place = some .directory) (hshort : name.length ≤ maxName)
    (hthere : (tree.get? (place ++ [name])).isSome = true) :
    tree.step place (.down name) = .ok (place ++ [name]) := by
  refine step_eq_ok_iff.mpr ⟨hplace, rfl, ?_⟩
  intro other hother
  obtain rfl := Path.Step.down.inj hother
  exact ⟨hshort, hthere⟩

theorem step_down_of_long {tree : FileTree} {place : Location} {name : Name}
    (hplace : tree.get? place = some .directory) (hlong : maxName < name.length) :
    tree.step place (.down name) = .error .nameTooLong := by
  simp only [step, hplace, if_pos hlong]

theorem step_down_of_none {tree : FileTree} {place : Location} {name : Name}
    (hplace : tree.get? place = some .directory) (hshort : name.length ≤ maxName)
    (hnone : tree.get? (place ++ [name]) = none) :
    tree.step place (.down name) = .error .missing := by
  simp [step, hplace, Nat.not_lt.mpr hshort, hnone]

theorem eq_foldl_of_walk {tree : FileTree} {place next : Location} {steps : List Path.Step}
    (h : tree.walk place steps = .ok next) : next = steps.foldl Path.Step.from place := by
  induction steps generalizing place with
  | nil => exact (Except.ok.inj h).symm
  | cons s rest ih =>
    rw [walk] at h
    cases hstep : tree.step place s with
    | error fault => simp [hstep] at h
    | ok between =>
      rw [hstep] at h
      rw [List.foldl_cons, ← (step_eq_ok_iff.mp hstep).2.1]
      exact ih h

/-- An entry is found at the place that its path names. -/
theorem eq_placeOf_of_locate {tree : FileTree} {p : Path} {place : Location}
    (h : tree.locate p = .ok place) : place = tree.placeOf p := by
  rw [locate] at h
  split at h
  · simp at h
  · split at h
    · simp at h
    · have hfold := eq_foldl_of_walk h
      rw [Path.steps, List.foldl_append] at hfold
      rw [hfold, placeOf]
      split <;> rfl

/-- A file can be written where the steps but the last lead to a directory and the last one is a
name in it that no directory has. -/
theorem locateForWriting_eq_ok_iff {tree : FileTree} {p : Path} {place : Location} :
    tree.locateForWriting p = .ok place ↔
      pathFault? p = none ∧ p.endsInSlash = false ∧
        ∃ parent name, p.namedSteps.getLast? = some (.down name) ∧
          tree.walk (tree.origin p) p.namedSteps.dropLast = .ok parent ∧
          tree.get? parent = some .directory ∧ name.length ≤ maxName ∧
          tree.get? (parent ++ [name]) ≠ some .directory ∧ place = parent ++ [name] := by
  rw [locateForWriting]
  cases pathFault? p with
  | some fault => simp
  | none =>
    cases p.namedSteps.getLast? with
    | none => simp
    | some s =>
      cases s with
      | stay | up => cases tree.walk (tree.origin p) p.namedSteps <;> simp
      | down name =>
        cases tree.walk (tree.origin p) p.namedSteps.dropLast with
        | error fault => simp
        | ok parent =>
          by_cases hparent : tree.get? parent = some .directory
          · by_cases hslash : p.endsInSlash = true
            · simp [hparent, hslash]
            · by_cases hlong : maxName < name.length
              · have hnot : ¬ name.length ≤ maxName := Nat.not_le.mpr hlong
                simp [hparent, hslash, hlong, hnot]
              · by_cases htaken : tree.get? (parent ++ [name]) = some .directory
                · simp [hparent, hslash, hlong, htaken]
                · simp [hparent, hslash, hlong, htaken, Nat.not_lt.mp hlong, eq_comm (a := place)]
          · simp [hparent]

/-- A file is written at the place that its path names. This is no directory and not the root. -/
theorem of_locateForWriting {tree : FileTree} {p : Path} {place : Location}
    (h : tree.locateForWriting p = .ok place) :
    place = tree.placeOf p ∧ place ≠ [] ∧ tree.get? place ≠ some .directory := by
  obtain ⟨-, -, parent, name, hlast, hwalk, -, -, hfree, rfl⟩ := locateForWriting_eq_ok_iff.mp h
  refine ⟨?_, by simp, hfree⟩
  have hsteps : p.namedSteps = p.namedSteps.dropLast ++ [.down name] := by
    obtain ⟨front, hfront⟩ := List.getLast?_eq_some_iff.mp hlast
    rw [hfront, List.dropLast_concat]
  -- the parent is where the steps before the last one lead
  rw [placeOf, hsteps, List.foldl_append, ← eq_foldl_of_walk hwalk]
  rfl

/-! ### Files and their contents -/

theorem read_eq_ok_iff {tree : FileTree} {p : Path} {content : List UInt8} :
    tree.read p = .ok content ↔
      ∃ place, tree.locate p = .ok place ∧ tree.get? place = some (.file content) := by
  rw [read]
  cases tree.locate p with
  | error fault => simp
  | ok place =>
    cases hplace : tree.get? place with
    | none => simp [hplace]
    | some entry => cases entry <;> simp [hplace]

theorem map_kind_eq_directory_iff {found : Option Entry} :
    found.map Entry.kind = some .directory ↔ found = some .directory := by
  cases found with
  | none => simp
  | some entry => cases entry <;> simp [Entry.kind]

theorem map_kind_eq_file_iff {found : Option Entry} :
    found.map Entry.kind = some .file ↔ ∃ content, found = some (.file content) := by
  cases found with
  | none => simp
  | some entry => cases entry <;> simp [Entry.kind]

def content? (tree : FileTree) (place : Location) : Option (List UInt8) :=
  match tree.get? place with
  | some (.file content) => some content
  | _ => none

theorem content?_eq_some_iff {tree : FileTree} {place : Location} {content : List UInt8} :
    tree.content? place = some content ↔ tree.get? place = some (.file content) := by
  rw [content?]
  cases tree.get? place with
  | none => simp
  | some entry => cases entry <;> simp

/-- What is at a place after an entry is set. At the root nothing can be set. -/
theorem get?_put (tree : FileTree) (place spot : Location) (entry : Entry) :
    (tree.put place entry).get? spot =
      if spot = place ∧ place ≠ [] then some entry else tree.get? spot := by
  split
  · rename_i h
    rw [h.1, get?_put_self tree h.2]
  · rename_i h
    by_cases hspot : spot = place
    · obtain rfl : place = [] := by simpa [hspot] using h
      rw [hspot]
      rfl
    · exact get?_put_of_ne tree hspot entry

theorem content?_put_directory {tree : FileTree} {place : Location}
    (h : tree.get? place = none) : (tree.put place .directory).content? = tree.content? := by
  funext other
  by_cases hother : other = place
  · have hne : place ≠ [] := by
      rintro rfl
      simp [get?] at h
    rw [content?, content?, hother, get?_put_self tree hne, h]
  · rw [content?, content?, get?_put_of_ne tree hother]

theorem content?_put_file (tree : FileTree) {place : Location} (h : place ≠ [])
    (content : List UInt8) :
    (tree.put place (.file content)).content? =
      Function.update tree.content? place (some content) := by
  funext other
  by_cases hother : other = place
  · rw [hother, Function.update_self, content?, get?_put_self tree h]
  · rw [Function.update_of_ne hother, content?, content?, get?_put_of_ne tree hother]

/-- A name that is missing in a directory is not too long. -/
theorem of_step_missing {tree : FileTree} {place : Location} {name : Name}
    (h : tree.step place (.down name) = .error .missing)
    (hplace : tree.get? place = some .directory) :
    name.length ≤ maxName ∧ tree.get? (place ++ [name]) = none := by
  simp only [step, hplace] at h
  split at h
  · simp at h
  · rename_i hshort
    split at h
    · simp at h
    · rename_i hnone
      rw [Option.isSome_iff_ne_none, not_not] at hnone
      exact ⟨Nat.not_lt.mp hshort, hnone⟩

theorem makeAlong_of_ok {tree : FileTree} {place next : Location} {s : Path.Step}
    (h : tree.step place s = .ok next) (rest : List Path.Step) :
    tree.makeAlong place (s :: rest) =
      if rest.isEmpty && (tree.get? next).map Entry.kind = some .file then (tree, some .occupied)
      else tree.makeAlong next rest := by
  rw [makeAlong.eq_def]
  simp only [h]

theorem makeAlong_of_missing {tree : FileTree} {place : Location} {name : Name}
    (h : tree.step place (.down name) = .error .missing) (rest : List Path.Step) :
    tree.makeAlong place (.down name :: rest) =
      if tree.get? place = some .directory then
        (tree.put (place ++ [name]) .directory).makeAlong (place ++ [name]) rest
      else (tree, some .missing) := by
  rw [makeAlong.eq_def]
  simp only [h]

theorem makeAlong_of_fault {tree : FileTree} {place : Location} {s : Path.Step} {fault : Fault}
    (h : tree.step place s = .error fault) (hs : ∀ name, s = .down name → fault ≠ .missing)
    (rest : List Path.Step) : tree.makeAlong place (s :: rest) = (tree, some fault) := by
  rw [makeAlong.eq_def]
  simp only [h]

/-- How the first of some steps goes on: it leads somewhere, it makes a directory, or it fails. -/
theorem step_cases (tree : FileTree) (place : Location) (s : Path.Step) :
    (∃ next, tree.step place s = .ok next) ∨
      (∃ name, s = .down name ∧ tree.step place s = .error .missing) ∨
      ∃ fault, tree.step place s = .error fault ∧ ∀ name, s = .down name → fault ≠ .missing := by
  cases hstep : tree.step place s with
  | ok next => exact Or.inl ⟨next, rfl⟩
  | error fault =>
    by_cases hmissing : ∃ name, s = .down name ∧ fault = .missing
    · obtain ⟨name, rfl, rfl⟩ := hmissing
      exact Or.inr (Or.inl ⟨name, rfl, rfl⟩)
    · exact Or.inr (Or.inr ⟨fault, rfl, fun name hs hfault => hmissing ⟨name, hs, hfault⟩⟩)

/-- Nothing is made from a place that is no directory. -/
theorem exists_makeAlong_of_ne_directory {tree : FileTree} {place : Location}
    (h : tree.get? place ≠ some .directory) (s : Path.Step) (rest : List Path.Step) :
    ∃ fault, tree.makeAlong place (s :: rest) = (tree, some fault) := by
  rcases step_cases tree place s with ⟨next, hstep⟩ | ⟨name, rfl, hstep⟩ | ⟨fault, hstep, hs⟩
  · exact absurd (step_eq_ok_iff.mp hstep).1 h
  · exact ⟨.missing, by rw [makeAlong_of_missing hstep, if_neg h]⟩
  · exact ⟨fault, makeAlong_of_fault hstep hs rest⟩

/-- A step that leads to a directory makes nothing. -/
theorem makeAlong_of_directory {tree : FileTree} {place next : Location} {s : Path.Step}
    (hstep : tree.step place s = .ok next) (hnext : tree.get? next = some .directory)
    (rest : List Path.Step) : tree.makeAlong place (s :: rest) = tree.makeAlong next rest := by
  rw [makeAlong_of_ok hstep, hnext]
  exact if_neg (by simp [Entry.kind])

/-- Directories are made where nothing is, so no file changes. -/
theorem content?_makeAlong (tree : FileTree) (place : Location) (steps : List Path.Step) :
    (tree.makeAlong place steps).1.content? = tree.content? ∧
      (tree.makeAlong place steps).1.here = tree.here := by
  induction steps generalizing tree place with
  | nil => exact ⟨rfl, rfl⟩
  | cons s rest ih =>
    rcases step_cases tree place s with ⟨next, hstep⟩ | ⟨name, rfl, hstep⟩ | ⟨fault, hstep, hs⟩
    · rw [makeAlong_of_ok hstep]
      split
      · exact ⟨rfl, rfl⟩
      · exact ih tree next
    · rw [makeAlong_of_missing hstep]
      split
      · rename_i hplace
        obtain ⟨hcontent, hhere⟩ := ih (tree.put (place ++ [name]) .directory) (place ++ [name])
        rw [hcontent, hhere, content?_put_directory (of_step_missing hstep hplace).2]
        exact ⟨rfl, rfl⟩
      · exact ⟨rfl, rfl⟩
    · rw [makeAlong_of_fault hstep hs]
      exact ⟨rfl, rfl⟩

theorem content?_makeDirectories (tree : FileTree) (p : Path) :
    (tree.makeDirectories p).1.content? = tree.content? ∧
      (tree.makeDirectories p).1.here = tree.here := by
  rw [makeDirectories]
  split
  · exact ⟨rfl, rfl⟩
  · exact content?_makeAlong tree _ _

/-! ### Copies -/

/-- The contents of files after a copy from place to place. The target is emptied before the
source is read, so that a copy of a file onto itself leaves nothing. -/
def copyContent (held : Location → Option (List UInt8)) (source target : Location) :
    Location → Option (List UInt8) :=
  Function.update held target (if target = source then some [] else held source)

theorem content?_copyFile (tree : FileTree) (source target : Path) :
    ((tree.copyFile source target).2 = none →
      (tree.copyFile source target).1.content? =
        copyContent tree.content? (tree.placeOf source) (tree.placeOf target)) ∧
    ((tree.copyFile source target).2 ≠ none → (tree.copyFile source target).1 = tree) ∧
    (tree.copyFile source target).1.here = tree.here := by
  rw [copyFile]
  split
  · exact ⟨by simp, fun _ => rfl, rfl⟩
  · rename_i origin hsource
    split
    · exact ⟨by simp, fun _ => rfl, rfl⟩
    · exact ⟨by simp, fun _ => rfl, rfl⟩
    · rename_i content hcontent
      split
      · exact ⟨by simp, fun _ => rfl, rfl⟩
      · rename_i destination htarget
        -- only here is something written
        obtain ⟨hplace, hne, -⟩ := of_locateForWriting htarget
        refine ⟨?_, fun h => absurd rfl h, rfl⟩
        intro _
        rw [content?_put_file tree hne, ← eq_placeOf_of_locate hsource, ← hplace, copyContent]
        congr 1
        split
        · rfl
        · rw [content?, hcontent]

def makeParent (tree : FileTree) (target : Path) : FileTree × Option Fault :=
  match target.parent? with
  | none => (tree, none)
  | some parent => tree.makeDirectories parent

/-- A copy with the directory that it needs. -/
def writeCopy (tree : FileTree) (copy : PlannedCopy) : FileTree × Option Fault :=
  match tree.makeParent copy.target with
  | (made, some fault) => (made, some fault)
  | (made, none) => made.copyFile copy.source copy.target

theorem content?_makeParent (tree : FileTree) (target : Path) :
    (tree.makeParent target).1.content? = tree.content? ∧
      (tree.makeParent target).1.here = tree.here := by
  rw [makeParent]
  split
  · exact ⟨rfl, rfl⟩
  · exact content?_makeDirectories tree _

theorem placeOf_congr {tree other : FileTree} (h : tree.here = other.here) (p : Path) :
    tree.placeOf p = other.placeOf p := by
  rw [placeOf, placeOf, origin, origin, h]

theorem here_of_makeParent {tree made : FileTree} {target : Path} {fault : Option Fault}
    (h : tree.makeParent target = (made, fault)) : made.here = tree.here := by
  have hkept := (content?_makeParent tree target).2
  rwa [h] at hkept

/-- A copy that succeeds changes the file at its target, and one that fails changes no file. -/
theorem content?_writeCopy (tree : FileTree) (copy : PlannedCopy) :
    (tree.writeCopy copy).1.content? =
      (if (tree.writeCopy copy).2 = none then
        copyContent tree.content? (tree.placeOf copy.source) (tree.placeOf copy.target)
      else tree.content?) ∧
    (tree.writeCopy copy).1.here = tree.here := by
  obtain ⟨hmade, hhere⟩ := content?_makeParent tree copy.target
  rw [writeCopy]
  split
  · rename_i made fault heq
    rw [heq] at hmade hhere
    rw [if_neg (by simp)]
    exact ⟨hmade, hhere⟩
  · rename_i made heq
    rw [heq] at hmade hhere
    -- the directories that were made hold no file yet
    obtain ⟨hdone, hfailed, hkept⟩ := content?_copyFile made copy.source copy.target
    refine ⟨?_, hkept.trans hhere⟩
    split
    · rename_i hnone
      rw [hdone hnone, hmade, placeOf_congr hhere, placeOf_congr hhere]
    · rename_i hsome
      rw [hfailed hsome, hmade]

/-! ### Trees that differ in some contents -/

/-- Two trees have the same entries, but for the contents of some files. -/
structure SameBut (hidden : Location → Prop) (tree other : FileTree) : Prop where
  here_eq : tree.here = other.here
  kind_eq : ∀ place, (tree.get? place).map Entry.kind = (other.get? place).map Entry.kind
  get?_eq : ∀ place, ¬ hidden place → tree.get? place = other.get? place

namespace SameBut

variable {hidden : Location → Prop} {tree other : FileTree}

theorem refl (hidden : Location → Prop) (tree : FileTree) : SameBut hidden tree tree :=
  ⟨rfl, fun _ => rfl, fun _ _ => rfl⟩

theorem trans {third : FileTree} (h : SameBut hidden tree other) (h' : SameBut hidden other third) :
    SameBut hidden tree third :=
  ⟨h.here_eq.trans h'.here_eq, fun place => (h.kind_eq place).trans (h'.kind_eq place),
    fun place hplace => (h.get?_eq place hplace).trans (h'.get?_eq place hplace)⟩

theorem symm (h : SameBut hidden tree other) : SameBut hidden other tree :=
  ⟨h.here_eq.symm, fun place => (h.kind_eq place).symm,
    fun place hplace => (h.get?_eq place hplace).symm⟩

/-- Trees that differ in some contents differ in the contents of more files. -/
theorem mono {others : Location → Prop} (h : SameBut hidden tree other)
    (hle : ∀ place, hidden place → others place) : SameBut others tree other :=
  ⟨h.here_eq, h.kind_eq, fun place hplace => h.get?_eq place (mt (hle place) hplace)⟩

theorem content?_eq (h : SameBut hidden tree other) {place : Location} (hplace : ¬ hidden place) :
    tree.content? place = other.content? place := by
  rw [content?, content?, h.get?_eq place hplace]

theorem placeOf_eq (h : SameBut hidden tree other) (p : Path) :
    tree.placeOf p = other.placeOf p :=
  placeOf_congr h.here_eq p

theorem get?_eq_none_iff (h : SameBut hidden tree other) (place : Location) :
    tree.get? place = none ↔ other.get? place = none := by
  rw [← Option.map_eq_none_iff (f := Entry.kind), h.kind_eq, Option.map_eq_none_iff]

/-- There are files at the same places. -/
theorem isSome_content? (h : SameBut hidden tree other) (place : Location) :
    (tree.content? place).isSome = (other.content? place).isSome := by
  have hkind : ∀ t : FileTree, (t.content? place).isSome =
      ((t.get? place).map Entry.kind == some .file) := by
    intro t
    rw [content?]
    cases t.get? place with
    | none => rfl
    | some entry => cases entry <;> rfl
  rw [hkind tree, hkind other, h.kind_eq]

theorem isSome_get? (h : SameBut hidden tree other) (place : Location) :
    (tree.get? place).isSome = (other.get? place).isSome := by
  rw [← Option.isSome_map (f := Entry.kind), h.kind_eq, Option.isSome_map]

theorem get?_eq_directory_iff (h : SameBut hidden tree other) (place : Location) :
    tree.get? place = some .directory ↔ other.get? place = some .directory := by
  rw [← map_kind_eq_directory_iff, h.kind_eq, map_kind_eq_directory_iff]

/-- At each place is nothing, a directory or a file in both trees. -/
theorem get?_cases (h : SameBut hidden tree other) (place : Location) :
    (tree.get? place = none ∧ other.get? place = none) ∨
      (tree.get? place = some .directory ∧ other.get? place = some .directory) ∨
      ∃ content content', tree.get? place = some (.file content) ∧
        other.get? place = some (.file content') ∧ (¬ hidden place → content = content') := by
  cases ht : tree.get? place with
  | none => exact Or.inl ⟨rfl, (h.get?_eq_none_iff place).mp ht⟩
  | some entry =>
    cases entry with
    | directory => exact Or.inr (Or.inl ⟨rfl, (h.get?_eq_directory_iff place).mp ht⟩)
    | file content =>
      have hkind := h.kind_eq place
      rw [ht, Option.map_some] at hkind
      obtain ⟨content', ho⟩ := map_kind_eq_file_iff.mp hkind.symm
      refine Or.inr (Or.inr ⟨content, content', rfl, ho, fun hplace => ?_⟩)
      have heq := h.get?_eq place hplace
      rw [ht, ho] at heq
      exact Entry.file.inj (Option.some.inj heq)

/-- Steps ask only for what kind of entry is where. -/
theorem step_eq (h : SameBut hidden tree other) (place : Location) (s : Path.Step) :
    tree.step place s = other.step place s := by
  rcases h.get?_cases place with ⟨ht, ho⟩ | ⟨ht, ho⟩ | ⟨content, content', ht, ho, -⟩
  · simp only [step, ht, ho]
  · cases s with
    | stay | up => simp only [step, ht, ho]
    | down name => simp only [step, ht, ho, h.isSome_get?]
  · simp only [step, ht, ho]

theorem walk_eq (h : SameBut hidden tree other) (place : Location) (steps : List Path.Step) :
    tree.walk place steps = other.walk place steps := by
  induction steps generalizing place with
  | nil => rfl
  | cons s rest ih =>
    rw [walk, walk, h.step_eq]
    cases other.step place s with
    | error fault => rfl
    | ok next => exact ih next

theorem origin_eq (h : SameBut hidden tree other) (p : Path) : tree.origin p = other.origin p := by
  rw [origin, origin, h.here_eq]

theorem locate_eq (h : SameBut hidden tree other) (p : Path) : tree.locate p = other.locate p := by
  rw [locate, locate, h.walk_eq, h.origin_eq]

theorem kind?_eq (h : SameBut hidden tree other) (p : Path) : tree.kind? p = other.kind? p := by
  rw [kind?, kind?, h.locate_eq]
  cases other.locate p with
  | error fault => rfl
  | ok place => exact h.kind_eq place

theorem locateForWriting_eq (h : SameBut hidden tree other) (p : Path) :
    tree.locateForWriting p = other.locateForWriting p := by
  rw [locateForWriting, locateForWriting]
  simp only [h.walk_eq, h.origin_eq, ne_eq, h.get?_eq_directory_iff]

/-- Entries of one kind are set at a place. They may differ if the place is hidden. -/
theorem put (h : SameBut hidden tree other) {place : Location} {entry entry' : Entry}
    (hkind : entry.kind = entry'.kind) (hentry : ¬ hidden place → entry = entry') :
    SameBut hidden (tree.put place entry) (other.put place entry') := by
  refine ⟨h.here_eq, fun spot => ?_, fun spot hspot => ?_⟩
  · rw [get?_put, get?_put]
    split
    · rw [Option.map_some, Option.map_some, hkind]
    · exact h.kind_eq spot
  · rw [get?_put, get?_put]
    split
    · rename_i hat
      rw [hentry (hat.1 ▸ hspot)]
    · exact h.get?_eq spot hspot

/-- The same directories are made in two trees, which stay related if they do when one directory is
made in both. -/
theorem makeAlong_of_related {related : FileTree → FileTree → Prop}
    (hsame : ∀ tree other, related tree other → SameBut hidden tree other)
    (hput : ∀ tree other place, related tree other → tree.get? place = none →
      related (tree.put place .directory) (other.put place .directory))
    (h : related tree other) (place : Location) (steps : List Path.Step) :
    (tree.makeAlong place steps).2 = (other.makeAlong place steps).2 ∧
      related (tree.makeAlong place steps).1 (other.makeAlong place steps).1 := by
  induction steps generalizing tree other place with
  | nil => exact ⟨rfl, h⟩
  | cons s rest ih =>
    have hbut := hsame tree other h
    have heq := hbut.step_eq place s
    rcases step_cases tree place s with ⟨next, hstep⟩ | ⟨name, rfl, hstep⟩ | ⟨fault, hstep, hs⟩
    · rw [makeAlong_of_ok hstep, makeAlong_of_ok (heq ▸ hstep), hbut.kind_eq]
      split
      · exact ⟨rfl, h⟩
      · exact ih h next
    · rw [makeAlong_of_missing hstep, makeAlong_of_missing (heq ▸ hstep)]
      by_cases hplace : tree.get? place = some .directory
      · rw [if_pos hplace, if_pos ((hbut.get?_eq_directory_iff place).mp hplace)]
        exact ih (hput tree other _ h (of_step_missing hstep hplace).2) _
      · rw [if_neg hplace, if_neg (mt (hbut.get?_eq_directory_iff place).mpr hplace)]
        exact ⟨rfl, h⟩
    · rw [makeAlong_of_fault hstep hs, makeAlong_of_fault (heq ▸ hstep) hs]
      exact ⟨rfl, h⟩

theorem makeAlong (h : SameBut hidden tree other) (place : Location) (steps : List Path.Step) :
    (tree.makeAlong place steps).2 = (other.makeAlong place steps).2 ∧
      SameBut hidden (tree.makeAlong place steps).1 (other.makeAlong place steps).1 :=
  makeAlong_of_related (fun _ _ => id) (fun _ _ _ h _ => h.put rfl fun _ => rfl) h place steps

theorem makeDirectories (h : SameBut hidden tree other) (p : Path) :
    (tree.makeDirectories p).2 = (other.makeDirectories p).2 ∧
      SameBut hidden (tree.makeDirectories p).1 (other.makeDirectories p).1 := by
  rw [FileTree.makeDirectories, FileTree.makeDirectories]
  split
  · exact ⟨rfl, h⟩
  · rw [h.origin_eq]
    exact h.makeAlong _ _

theorem makeParent (h : SameBut hidden tree other) (target : Path) :
    (tree.makeParent target).2 = (other.makeParent target).2 ∧
      SameBut hidden (tree.makeParent target).1 (other.makeParent target).1 := by
  rw [FileTree.makeParent, FileTree.makeParent]
  split
  · exact ⟨rfl, h⟩
  · exact h.makeDirectories _

/-- What a copy reads and writes is the same, unless it copies a hidden file. -/
theorem copyFile (h : SameBut hidden tree other) {source target : Path}
    (hcopy : hidden (other.placeOf source) → hidden (other.placeOf target)) :
    (tree.copyFile source target).2 = (other.copyFile source target).2 ∧
      SameBut hidden (tree.copyFile source target).1 (other.copyFile source target).1 := by
  rw [FileTree.copyFile, FileTree.copyFile, h.locate_eq]
  split
  · exact ⟨rfl, h⟩
  · rename_i origin horigin
    rw [← eq_placeOf_of_locate horigin] at hcopy
    rw [h.locateForWriting_eq]
    rcases h.get?_cases origin with ⟨ht, ho⟩ | ⟨ht, ho⟩ | ⟨content, content', ht, ho, hsame⟩
    · rw [ht, ho]
      exact ⟨rfl, h⟩
    · rw [ht, ho]
      exact ⟨rfl, h⟩
    · rw [ht, ho]
      dsimp only
      split
      · exact ⟨rfl, h⟩
      · rename_i destination htarget
        refine ⟨rfl, h.put rfl fun hplace => ?_⟩
        rw [(of_locateForWriting htarget).1] at hplace
        rw [hsame (mt hcopy hplace)]

/-- Whether a copy succeeds, and what it changes, does not depend on hidden files, as long as copies
of hidden files are hidden. -/
theorem writeCopy (h : SameBut hidden tree other) {copy : PlannedCopy}
    (hcopy : hidden (other.placeOf copy.source) → hidden (other.placeOf copy.target)) :
    (tree.writeCopy copy).2 = (other.writeCopy copy).2 ∧
      SameBut hidden (tree.writeCopy copy).1 (other.writeCopy copy).1 := by
  obtain ⟨hfault, hmade⟩ := h.makeParent copy.target
  have hhere := (content?_makeParent other copy.target).2
  rw [FileTree.writeCopy, FileTree.writeCopy]
  generalize tree.makeParent copy.target = made at hfault hmade
  generalize other.makeParent copy.target = made' at hfault hmade hhere
  obtain ⟨files, fault⟩ := made
  obtain ⟨files', fault'⟩ := made'
  obtain rfl : fault = fault' := hfault
  cases fault with
  | some fault => exact ⟨rfl, hmade⟩
  | none =>
    apply hmade.copyFile
    rw [placeOf_congr hhere, placeOf_congr hhere]
    exact hcopy

/-- When the same octets are added at the end of a file, nothing more differs. -/
theorem appendAt (h : SameBut hidden tree other) (place : Location) (more : List UInt8) :
    SameBut hidden (tree.appendAt place more) (other.appendAt place more) := by
  rw [FileTree.appendAt, FileTree.appendAt]
  rcases h.get?_cases place with ⟨ht, ho⟩ | ⟨ht, ho⟩ | ⟨content, content', ht, ho, hsame⟩
  · rw [ht, ho]
    exact h
  · rw [ht, ho]
    exact h
  · rw [ht, ho]
    exact h.put rfl fun hplace => by rw [hsame hplace]

end SameBut

/-- New octets in a file change this file only. -/
theorem sameBut_put_file {hidden : Location → Prop} {tree : FileTree} {place : Location}
    {old : List UInt8} (hold : tree.get? place = some (.file old)) (hplace : hidden place)
    (content : List UInt8) : SameBut hidden (tree.put place (.file content)) tree := by
  have hne : place ≠ [] := by
    rintro rfl
    simp [get?] at hold
  refine ⟨rfl, ?_, ?_⟩
  · intro spot
    by_cases heq : spot = place
    · rw [heq, get?_put_self tree hne, hold]
      rfl
    · rw [get?_put_of_ne tree heq]
  · intro spot hspot
    refine get?_put_of_ne tree ?_ _
    rintro rfl
    exact hspot hplace

@[simp]
theorem here_appendAt (tree : FileTree) (place : Location) (more : List UInt8) :
    (tree.appendAt place more).here = tree.here := by
  rw [appendAt]
  split <;> rfl

/-- More octets at the end of a file change this file only. -/
theorem sameBut_appendAt {hidden : Location → Prop} (tree : FileTree) {place : Location}
    (hplace : hidden place) (more : List UInt8) :
    SameBut hidden (tree.appendAt place more) tree := by
  rw [appendAt]
  split
  · rename_i content hcontent
    exact sameBut_put_file hcontent hplace _
  · exact SameBut.refl hidden tree

end FileTree

end PatternRename
