import PatternRename.Proofs.Files.Places

/-!
# The parent of a path

A path is relative or absolute as its parent is. If the path ends in a name, its steps are those of
the parent, steps that stay in place, and the name.

## Main definitions

- `Path.stepsOf` — the steps of some pieces

## Main results

- `Path.isAbsolute_parent?` — a path begins where its parent does
- `Path.exists_parent?` — the parent of a path that ends in a name
-/

namespace PatternRename

namespace Path

/-! ### Pieces of a path -/

/-- A piece of a path has no slash. -/
theorem slash_not_mem_of_mem_pieces {p : Path} {piece : Name} (h : piece ∈ p.pieces) :
    slash ∉ piece := by
  obtain ⟨octets⟩ := p
  rw [pieces] at h
  induction octets generalizing piece with
  | nil =>
    rw [List.splitOn_nil, List.mem_singleton] at h
    exact h ▸ List.not_mem_nil
  | cons b rest ih =>
    rw [List.splitOn_cons_eq_if_modifyHead] at h
    split at h
    · rcases List.mem_cons.mp h with rfl | hrest
      · exact List.not_mem_nil
      · exact ih hrest
    · rename_i hb
      obtain ⟨first, others, heq⟩ := List.exists_cons_of_ne_nil (List.splitOn_ne_nil slash rest)
      rw [heq, List.modifyHead_cons, List.mem_cons] at h
      rw [heq] at ih
      rcases h with rfl | hothers
      · -- the octet is put in front of the first piece of the rest
        rw [List.mem_cons, not_or]
        exact ⟨fun hslash => hb (hslash ▸ beq_self_eq_true _), ih List.mem_cons_self⟩
      · exact ih (List.mem_cons_of_mem first hothers)

/-- A step down goes by a name that an entry can have. -/
theorem isProper_of_mem_namedSteps {p : Path} {name : Name} (h : .down name ∈ p.namedSteps) :
    Name.IsProper name := by
  obtain ⟨piece, hpiece, hdown⟩ := List.mem_map.mp h
  obtain ⟨hmem, hne⟩ := List.mem_filter.mp hpiece
  rw [Step.ofPiece] at hdown
  split at hdown
  · simp at hdown
  · rename_i hhere
    split at hdown
    · simp at hdown
    · rename_i habove
      obtain rfl := Step.down.inj hdown
      exact ⟨by simpa using hne, hhere, habove, slash_not_mem_of_mem_pieces hmem⟩

theorem pieces_ofPieces {names : List Name} (hne : names ≠ []) (h : ∀ name ∈ names, slash ∉ name) :
    (ofPieces names).pieces = names :=
  List.splitOn_intercalate slash h hne

/-- The steps of some pieces in a row. -/
def stepsOf (names : List Name) : List Step :=
  (names.filter (!·.isEmpty)).map Step.ofPiece

theorem stepsOf_append (front back : List Name) :
    stepsOf (front ++ back) = stepsOf front ++ stepsOf back := by
  rw [stepsOf, List.filter_append, List.map_append]
  rfl

theorem stepsOf_of_isIdle {names : List Name} (h : ∀ name ∈ names, isIdle name = true) :
    ∀ s ∈ stepsOf names, s = .stay := by
  intro s hs
  obtain ⟨name, hname, rfl⟩ := List.mem_map.mp hs
  obtain ⟨hmem, hne⟩ := List.mem_filter.mp hname
  have hidle := h name hmem
  rw [isIdle, Bool.or_eq_true, beq_iff_eq] at hidle
  rw [Step.ofPiece, if_pos (hidle.resolve_left (by simpa using hne))]

/-- What is taken off the end of some pieces leads nowhere. -/
theorem exists_dropIdle (names : List Name) :
    ∃ idle, names = dropIdle names ++ idle ∧ ∀ name ∈ idle, isIdle name = true :=
  ⟨names.rtakeWhile isIdle, List.rdropWhile_append_rtakeWhile.symm,
    fun _ => List.mem_rtakeWhile_imp⟩

theorem mem_of_mem_dropIdle {names : List Name} {name : Name} (h : name ∈ dropIdle names) :
    name ∈ names := by
  obtain ⟨idle, heq, -⟩ := exists_dropIdle names
  rw [heq]
  exact List.mem_append_left idle h

/-- The last piece of a path is empty only if there is nothing or a slash at the end. -/
theorem exists_pieces (p : Path) :
    ∃ front last, p.pieces = front ++ [last] ∧ (last = [] → p.octets = [] ∨ p.endsInSlash = true) := by
  by_cases hslash : slash ∈ p.octets
  · obtain ⟨after, before, heq, hafter⟩ :=
      List.eq_append_cons_of_mem (List.mem_reverse.mpr hslash)
    have hoctets : p.octets = before.reverse ++ slash :: after.reverse := by
      rw [← List.reverse_reverse p.octets, heq]
      simp
    refine ⟨before.reverse.splitOn slash, after.reverse, ?_, fun hnil => Or.inr ?_⟩
    · rw [pieces, hoctets, List.splitOn_append_cons_self,
        List.splitOn_eq_singleton (mt List.mem_reverse.mp hafter)]
    · rw [endsInSlash, hoctets, hnil, List.getLast?_concat]
      exact beq_self_eq_true _
  · exact ⟨[], p.octets, List.splitOn_eq_singleton hslash, Or.inl⟩

/-- A path whose last step goes down to a name ends in this name. -/
theorem exists_pieces_of_down {p : Path} {name : Name} (hslash : p.endsInSlash = false)
    (h : p.namedSteps.getLast? = some (.down name)) :
    ∃ front, p.pieces = front ++ [name] ∧ isIdle name = false ∧ stepsOf [name] = [.down name] := by
  obtain ⟨front, last, hpieces, hlast⟩ := p.exists_pieces
  have hne : last ≠ [] := by
    intro hnil
    rcases hlast hnil with hempty | hend
    · -- the empty path has no steps
      rw [namedSteps, pieces, hempty] at h
      simp at h
    · rw [hend] at hslash
      exact absurd hslash (by decide)
  have hstep : stepsOf [last] = [Step.ofPiece last] := by
    simp [stepsOf, hne]
  change (stepsOf p.pieces).getLast? = _ at h
  rw [hpieces, stepsOf_append, hstep, List.getLast?_concat, Option.some.injEq] at h
  have hdown := h
  rw [Step.ofPiece] at hdown
  split at hdown
  · exact Step.noConfusion hdown
  · rename_i hhere
    split at hdown
    · exact Step.noConfusion hdown
    · obtain rfl := Step.down.inj hdown
      exact ⟨front, hpieces, by simp [isIdle, hne, hhere], hstep.trans (congrArg (fun s => [s]) h)⟩

/-- A path is absolute if nothing stands before its first slash. -/
theorem isAbsolute_of_pieces {p : Path} {start : Name} {rest : List Name}
    (h : p.pieces = start :: rest) : p.isAbsolute = (start.isEmpty && !rest.isEmpty) := by
  have hoctets : p.octets = List.intercalate [slash] (start :: rest) := by
    rw [← h, pieces, List.intercalate_splitOn]
  have hstart : slash ∉ start := slash_not_mem_of_mem_pieces (p := p) (by simp [h])
  rw [isAbsolute, hoctets]
  cases rest with
  | nil =>
    rw [List.intercalate_singleton]
    exact (not_isAbsolute_of_no_slash hstart).trans (Bool.and_false _).symm
  | cons next names =>
    rw [List.intercalate_cons_cons]
    cases start with
    | nil => exact beq_self_eq_true _
    | cons b others =>
      have hb : b ≠ slash := fun heq => hstart (heq ▸ List.mem_cons_self)
      simpa using hb

/-! ### Parents -/

theorem parent?_of_dropIdle_eq_nil {p : Path} {start : Name} {rest : List Name}
    (h : p.pieces = start :: rest) (hrest : dropIdle rest = []) :
    p.parent? = if start.isEmpty then none else some ⟨[]⟩ := by
  rw [parent?, h]
  dsimp only
  rw [hrest]

/-- The parent of a path with several pieces has those before the last one, but for pieces at the
end that lead nowhere. -/
theorem exists_parent?_of_dropIdle_ne_nil {p : Path} {start : Name} {rest : List Name}
    (h : p.pieces = start :: rest) (hrest : dropIdle rest ≠ []) :
    ∃ parent, p.parent? = some parent ∧ parent.isAbsolute = start.isEmpty ∧
      parent.namedSteps = stepsOf (start :: dropIdle (dropIdle rest).dropLast) := by
  have hslash : ∀ piece ∈ start :: dropIdle (dropIdle rest).dropLast, slash ∉ piece := by
    intro piece hpiece
    apply slash_not_mem_of_mem_pieces (p := p)
    rw [h]
    rcases List.mem_cons.mp hpiece with rfl | hmem
    · exact List.mem_cons_self
    · have hfront := List.dropLast_subset _ (mem_of_mem_dropIdle hmem)
      exact List.mem_cons_of_mem start (mem_of_mem_dropIdle hfront)
  have hstart := hslash start List.mem_cons_self
  rw [parent?, h]
  dsimp only
  split
  · contradiction
  · cases habove : dropIdle (dropIdle rest).dropLast with
    | nil =>
      cases start with
      | nil => exact ⟨⟨[slash]⟩, rfl, rfl, rfl⟩
      | cons b others =>
        have hpieces : pieces ⟨b :: others⟩ = [b :: others] := List.splitOn_eq_singleton hstart
        exact ⟨⟨b :: others⟩, rfl, not_isAbsolute_of_no_slash hstart, congrArg stepsOf hpieces⟩
    | cons next names =>
      rw [habove] at hslash
      have hpieces := pieces_ofPieces (List.cons_ne_nil _ _) hslash
      refine ⟨_, rfl, ?_, congrArg stepsOf hpieces⟩
      rw [isAbsolute_of_pieces hpieces]
      exact Bool.and_true _

/-- A path begins where its parent does. -/
theorem isAbsolute_parent? {p parent : Path} (h : p.parent? = some parent) :
    parent.isAbsolute = p.isAbsolute := by
  obtain ⟨start, rest, hpieces⟩ :=
    List.exists_cons_of_ne_nil (List.splitOn_ne_nil slash p.octets)
  rw [isAbsolute_of_pieces hpieces]
  by_cases hrest : dropIdle rest = []
  · rw [parent?_of_dropIdle_eq_nil hpieces hrest, Option.ite_none_left_eq_some] at h
    obtain ⟨hstart, heq⟩ := h
    obtain rfl := Option.some.inj heq
    rw [eq_false_of_ne_true hstart]
    rfl
  · obtain ⟨found, hparent, habsolute, -⟩ := exists_parent?_of_dropIdle_ne_nil hpieces hrest
    obtain rfl := Option.some.inj (hparent.symm.trans h)
    have hne : rest.isEmpty = false := by
      rw [List.isEmpty_eq_false_iff]
      rintro rfl
      exact hrest rfl
    rw [habsolute, hne]
    exact (Bool.and_true _).symm

/-- A path that ends in a name has a parent. The steps before the name are those of the parent and
steps that stay in place. -/
theorem exists_parent? {p : Path} {name : Name} (hslash : p.endsInSlash = false)
    (h : p.namedSteps.getLast? = some (.down name)) :
    ∃ parent stays, p.parent? = some parent ∧
      p.namedSteps = parent.namedSteps ++ stays ++ [.down name] ∧ ∀ s ∈ stays, s = .stay := by
  obtain ⟨front, hpieces, hidle, hdown⟩ := exists_pieces_of_down hslash h
  have hsteps : p.namedSteps = stepsOf front ++ [.down name] := by
    rw [← hdown, ← stepsOf_append, ← hpieces]
    rfl
  cases front with
  | nil =>
    -- the name alone
    have hname : name.isEmpty = false := (Bool.or_eq_false_iff.mp hidle).1
    refine ⟨⟨[]⟩, [], ?_, hsteps, fun s hs => absurd hs List.not_mem_nil⟩
    rw [parent?_of_dropIdle_eq_nil hpieces rfl, hname]
    rfl
  | cons start names =>
    rw [List.cons_append] at hpieces
    have hrest := dropIdle_concat hidle names
    obtain ⟨parent, hparent, -, hnamed⟩ :=
      exists_parent?_of_dropIdle_ne_nil hpieces (by simp [hrest])
    obtain ⟨idle, hnames, hstays⟩ := exists_dropIdle names
    refine ⟨parent, stepsOf idle, hparent, ?_, stepsOf_of_isIdle hstays⟩
    rw [hsteps, hnamed, hrest, List.dropLast_concat, ← stepsOf_append, List.cons_append, ← hnames]

end Path

end PatternRename
