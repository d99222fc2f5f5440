import Mathlib.Data.List.DropRight
import PatternRename.Proofs.Files.Contents

/-!
# Places below a directory

The path of a name below a directory leads to the place of the directory and on by the name. A file
can be written there only if the name is one that an entry can have.

## Main definitions

- `Name.IsProper` — a name that an entry of a directory can have

## Main results

- `FileTree.placeOf_join` — the place of a name below a directory
- `FileTree.locate_of_walk` — where a path leads, step by step
- `FileTree.locate_join` — an entry of a directory is found under its name
- `FileTree.of_locateForWriting_join` — where a file can be written
-/

namespace PatternRename

/-! ### Names -/

/-- A name that an entry of a directory can have: it is one piece of a path and leads down. -/
structure Name.IsProper (name : Name) : Prop where
  ne_nil : name ≠ []
  ne_here : name ≠ Path.hereName
  ne_above : name ≠ Path.aboveName
  no_slash : Path.slash ∉ name

instance (name : Name) : Decidable (Name.IsProper name) :=
  decidable_of_iff (name ≠ [] ∧ name ≠ Path.hereName ∧ name ≠ Path.aboveName ∧ Path.slash ∉ name)
    ⟨fun ⟨hnil, hhere, habove, hslash⟩ => ⟨hnil, hhere, habove, hslash⟩,
      fun h => ⟨h.ne_nil, h.ne_here, h.ne_above, h.no_slash⟩⟩

theorem Name.IsProper.ofPiece_eq {name : Name} (h : Name.IsProper name) :
    Path.Step.ofPiece name = .down name := by
  rw [Path.Step.ofPiece, if_neg h.ne_here, if_neg h.ne_above]

theorem Name.IsProper.not_isIdle {name : Name} (h : Name.IsProper name) :
    Path.isIdle name = false := by
  rw [Path.isIdle, Bool.or_eq_false_iff, List.isEmpty_eq_false_iff, beq_eq_false_iff_ne]
  exact ⟨h.ne_nil, h.ne_here⟩

namespace Path

/-! ### A name below a path -/

variable {name : Name}

theorem not_isAbsolute_of_no_slash (h : slash ∉ name) : (Path.mk name).isAbsolute = false := by
  cases name with
  | nil => rfl
  | cons b rest =>
    rw [isAbsolute, List.head?_cons, beq_eq_false_iff_ne]
    rintro hslash
    exact h (Option.some.inj hslash ▸ List.mem_cons_self)

/-- The pieces of a path below another one are those of both, but for pieces that are empty. -/
theorem filter_pieces_join (p : Path) {q : Path} (h : q.isAbsolute = false) :
    (p.join q).pieces.filter (!·.isEmpty) =
      p.pieces.filter (!·.isEmpty) ++ q.pieces.filter (!·.isEmpty) := by
  rw [join, h, Bool.false_or]
  by_cases hempty : p.octets.isEmpty = true
  · rw [if_pos hempty, pieces, pieces, List.isEmpty_iff.mp hempty]
    rfl
  · rw [if_neg hempty]
    by_cases hslash : p.endsInSlash = true
    · -- the piece behind the last slash is empty
      obtain ⟨front, hfront⟩ := List.getLast?_eq_some_iff.mp (beq_iff_eq.mp hslash)
      rw [if_pos hslash, pieces, pieces, hfront, List.append_assoc, List.singleton_append,
        List.splitOn_append_cons_self, List.splitOn_append_cons_self, List.filter_append,
        List.filter_append]
      exact congrArg (· ++ _) (List.append_nil _).symm
    · rw [if_neg hslash, pieces, List.splitOn_append_cons_self, List.filter_append]
      rfl

theorem namedSteps_join_of_relative (p : Path) {q : Path} (h : q.isAbsolute = false) :
    (p.join q).namedSteps = p.namedSteps ++ q.namedSteps := by
  rw [namedSteps, filter_pieces_join p h, List.map_append]
  rfl

theorem isAbsolute_join_of_relative (p : Path) {q : Path} (h : q.isAbsolute = false) :
    (p.join q).isAbsolute = p.isAbsolute := by
  rw [join, h, Bool.false_or]
  by_cases hempty : p.octets.isEmpty = true
  · rw [if_pos hempty, h, isAbsolute, List.isEmpty_iff.mp hempty]
    rfl
  · have hne : p.octets ≠ [] := by simpa using hempty
    rw [if_neg hempty]
    split <;> rw [isAbsolute, isAbsolute, List.head?_append_of_ne_nil _ hne]

theorem namedSteps_of_no_slash (hne : name ≠ []) (h : slash ∉ name) :
    (Path.mk name).namedSteps = [Step.ofPiece name] := by
  have hname : List.filter (fun piece => !piece.isEmpty) [name] = [name] := by simpa using hne
  rw [namedSteps, pieces, List.splitOn_eq_singleton h, hname]
  rfl

theorem namedSteps_join (p : Path) (hne : name ≠ []) (h : slash ∉ name) :
    (p.join ⟨name⟩).namedSteps = p.namedSteps ++ [Step.ofPiece name] := by
  rw [namedSteps_join_of_relative p (not_isAbsolute_of_no_slash h), namedSteps_of_no_slash hne h]

/-- The last piece of a path below another one is the name. -/
theorem exists_pieces_join (p : Path) (h : slash ∉ name) :
    ∃ front, (p.join ⟨name⟩).pieces = front ++ [name] := by
  rw [join, not_isAbsolute_of_no_slash h, Bool.false_or]
  split
  · exact ⟨[], List.splitOn_eq_singleton h⟩
  · split
    · rename_i hslash
      obtain ⟨front, hfront⟩ := List.getLast?_eq_some_iff.mp (beq_iff_eq.mp hslash)
      refine ⟨front.splitOn slash, ?_⟩
      rw [pieces, hfront, List.append_assoc, List.singleton_append, List.splitOn_append_cons_self,
        List.splitOn_eq_singleton h]
    · refine ⟨p.pieces, ?_⟩
      rw [pieces, List.splitOn_append_cons_self, List.splitOn_eq_singleton h]
      rfl

theorem dropIdle_concat {name : Name} (h : isIdle name = false) (front : List Name) :
    dropIdle (front ++ [name]) = front ++ [name] :=
  List.rdropWhile_concat_neg isIdle front name (by simp [h])

theorem fileName?_join (p : Path) (h : Name.IsProper name) :
    (p.join ⟨name⟩).fileName? = some name := by
  obtain ⟨front, hpieces⟩ := exists_pieces_join p h.no_slash
  rw [fileName?, hpieces, dropIdle_concat h.not_isIdle, List.getLast?_concat]
  exact if_neg h.ne_above

theorem isAbsolute_join (p : Path) (h : slash ∉ name) :
    (p.join ⟨name⟩).isAbsolute = p.isAbsolute :=
  isAbsolute_join_of_relative p (not_isAbsolute_of_no_slash h)

/-- A path below another one ends in a slash only if the name does or is missing. -/
theorem endsInSlash_join (p : Path) (hne : name ≠ []) (h : slash ∉ name) :
    (p.join ⟨name⟩).endsInSlash = false := by
  have hlast : ∀ front : List UInt8, (Path.mk (front ++ name)).endsInSlash = false := by
    intro front
    rw [endsInSlash, List.getLast?_append_of_ne_nil front hne, beq_eq_false_iff_ne]
    intro hslash
    exact h (List.mem_of_getLast? hslash)
  rw [join, not_isAbsolute_of_no_slash h, Bool.false_or]
  split
  · exact hlast []
  · split
    · exact hlast p.octets
    · have hcons : p.octets ++ slash :: name = (p.octets ++ [slash]) ++ name := by simp
      rw [hcons]
      exact hlast _

theorem namedSteps_join_nil (p : Path) :
    (p.join ⟨[]⟩).endsInSlash = true ∨ (p.join ⟨[]⟩).namedSteps = [] := by
  rw [join, not_isAbsolute_of_no_slash List.not_mem_nil, Bool.false_or]
  split
  · exact Or.inr rfl
  · left
    split
    · rename_i hslash
      rw [List.append_nil]
      exact hslash
    · rw [endsInSlash, List.getLast?_concat]
      exact beq_self_eq_true _

end Path

namespace FileTree

variable {name : Name}

/-- The place of a path below another one. -/
theorem placeOf_join_of_relative (tree : FileTree) (p : Path) {q : Path}
    (h : q.isAbsolute = false) :
    tree.placeOf (p.join q) = q.namedSteps.foldl Path.Step.from (tree.placeOf p) := by
  rw [placeOf, Path.namedSteps_join_of_relative p h, List.foldl_append, origin,
    Path.isAbsolute_join_of_relative p h]
  rfl

theorem placeOf_join (tree : FileTree) (p : Path) (h : Name.IsProper name) :
    tree.placeOf (p.join ⟨name⟩) = tree.placeOf p ++ [name] := by
  rw [placeOf_join_of_relative tree p (Path.not_isAbsolute_of_no_slash h.no_slash),
    Path.namedSteps_of_no_slash h.ne_nil h.no_slash, h.ofPiece_eq]
  rfl

theorem walk_append (tree : FileTree) (place : Location) (front back : List Path.Step) :
    tree.walk place (front ++ back) =
      match tree.walk place front with
      | .ok next => tree.walk next back
      | .error fault => .error fault := by
  induction front generalizing place with
  | nil => rfl
  | cons s front ih =>
    rw [List.cons_append, walk, walk]
    cases tree.step place s with
    | error fault => rfl
    | ok next => exact ih next

/-- The named steps of a path lead to where its steps lead. -/
theorem walk_namedSteps_of_walk {tree : FileTree} {p : Path} {place next : Location}
    (h : tree.walk place p.steps = .ok next) : tree.walk place p.namedSteps = .ok next := by
  rw [Path.steps, walk_append] at h
  split at h
  · rename_i between hbetween
    -- a step to the directory itself changes nothing
    have hsame := eq_foldl_of_walk h
    rw [hbetween, hsame]
    split <;> rfl
  · simp at h

/-- The named steps of a path lead to what the path leads to. -/
theorem walk_namedSteps_of_locate {tree : FileTree} {p : Path} {place : Location}
    (h : tree.locate p = .ok place) : tree.walk (tree.origin p) p.namedSteps = .ok place := by
  rw [locate] at h
  split at h
  · simp at h
  · split at h
    · simp at h
    · exact walk_namedSteps_of_walk h

/-- If the steps but the last lead to a directory that has an entry of the last name, the path leads
to that entry. -/
theorem locate_of_walk {tree : FileTree} {p : Path} {front : List Path.Step} {parent : Location}
    (hfault : pathFault? p = none) (hslash : p.endsInSlash = false)
    (hsteps : p.namedSteps = front ++ [.down name])
    (hwalk : tree.walk (tree.origin p) front = .ok parent)
    (hparent : tree.get? parent = some .directory) (hshort : name.length ≤ maxName)
    (hthere : (tree.get? (parent ++ [name])).isSome = true) :
    tree.locate p = .ok (parent ++ [name]) := by
  have hempty : p.octets.isEmpty = false := by
    rw [List.isEmpty_eq_false_iff]
    intro hnil
    -- the empty path has no steps
    rw [Path.namedSteps, Path.pieces, hnil] at hsteps
    simp at hsteps
  have hstep := step_down_eq_ok hparent hshort hthere
  rw [locate, hfault]
  dsimp only
  rw [hempty, if_neg Bool.false_ne_true, Path.steps, hslash, if_neg Bool.false_ne_true,
    List.append_nil, hsteps, walk_append, hwalk]
  dsimp only
  rw [walk, hstep]
  rfl

/-- An entry of a directory is found under its name, unless the path is too long. -/
theorem locate_join {tree : FileTree} {p : Path} {place : Location}
    (h : tree.locate p = .ok place) (hplace : tree.get? place = some .directory)
    (hname : Name.IsProper name) (hshort : name.length ≤ maxName)
    (hfault : pathFault? (p.join ⟨name⟩) = none)
    (hthere : (tree.get? (place ++ [name])).isSome = true) :
    tree.locate (p.join ⟨name⟩) = .ok (place ++ [name]) := by
  have hsteps : (p.join ⟨name⟩).namedSteps = p.namedSteps ++ [.down name] := by
    rw [Path.namedSteps_join p hname.ne_nil hname.no_slash, hname.ofPiece_eq]
  have hwalk : tree.walk (tree.origin (p.join ⟨name⟩)) p.namedSteps = .ok place := by
    rw [origin, Path.isAbsolute_join p hname.no_slash]
    exact walk_namedSteps_of_locate h
  exact locate_of_walk hfault (Path.endsInSlash_join p hname.ne_nil hname.no_slash) hsteps hwalk
    hplace hshort hthere

/-- If a file can be written under a name without slashes, an entry can have the name. -/
theorem of_locateForWriting_join {tree : FileTree} {p : Path} (h : Path.slash ∉ name)
    {place : Location} (hplace : tree.locateForWriting (p.join ⟨name⟩) = .ok place) :
    Name.IsProper name ∧ place = tree.placeOf p ++ [name] := by
  have hproper : Name.IsProper name := by
    obtain ⟨-, hslash, parent, found, hlast, -⟩ := locateForWriting_eq_ok_iff.mp hplace
    by_cases hne : name = []
    · subst hne
      rcases Path.namedSteps_join_nil p with hend | hnone
      · rw [hend] at hslash
        exact absurd hslash (by decide)
      · rw [hnone] at hlast
        simp at hlast
    · rw [Path.namedSteps_join p hne h, List.getLast?_concat, Option.some.injEq,
        Path.Step.ofPiece] at hlast
      refine ⟨hne, ?_, ?_, h⟩
      · rintro rfl
        rw [if_pos rfl] at hlast
        exact Path.Step.noConfusion hlast
      · rintro rfl
        rw [if_neg (by decide), if_pos rfl] at hlast
        exact Path.Step.noConfusion hlast
  rw [← placeOf_join tree p hproper]
  exact ⟨hproper, (of_locateForWriting hplace).1⟩

end FileTree

end PatternRename
