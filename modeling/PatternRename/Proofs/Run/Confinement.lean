import PatternRename.Proofs.Run.Outputs

/-!
# Where a run writes

A copy is written where the new name of its file leads from the output directory. A new name that
goes down, without a step above the directory on the way, stays inside, and all new names do so if
the literals of the output pattern have no slashes. Nothing else keeps a copy inside: a name that
climbs out of the directory, or that starts at the root, is followed.

## Main definitions

- `Path.depth?` — how far below its start a path ends
- `Path.StaysBelow` — a path that leads into the directory that it starts from
- `FileTree.Inside` — a place inside a directory
- `FileTree.Changed`, `FileTree.Confined` — files that a run made or changed, inside a directory

## Main results

- `FileTree.inside_of_staysBelow` — a path that stays below a directory leads inside
- `confined_of_process` — when a run writes inside its output directory
- `escapes_through_parent` — a run that does not
-/

namespace PatternRename

/-! ### Paths that stay below their start -/

namespace Path

/-- How far below its start a way is after a step. No step leads above the start. -/
def Step.depth? (depth : Nat) : Step → Option Nat
  | .stay => some depth
  | .up => if depth = 0 then none else some (depth - 1)
  | .down _ => some (depth + 1)

/-- How far below its start a way is after steps, none of which may lead above the start. -/
def depth? (depth : Nat) : List Step → Option Nat
  | [] => some depth
  | s :: rest => (s.depth? depth).bind fun next => depth? next rest

/-- A path that leads into the directory that it starts from. -/
def StaysBelow (p : Path) : Prop :=
  p.isAbsolute = false ∧ 0 < (depth? 0 p.namedSteps).getD 0

instance (p : Path) : Decidable p.StaysBelow :=
  inferInstanceAs (Decidable (_ ∧ _))

theorem Step.exists_from_of_depth? {s : Step} (place : Location) {names : Location} {next : Nat}
    (h : s.depth? names.length = some next) :
    ∃ later, s.from (place ++ names) = place ++ later ∧ later.length = next := by
  cases s with
  | stay => exact ⟨names, rfl, Option.some.inj h⟩
  | down name =>
    refine ⟨names ++ [name], List.append_assoc .., ?_⟩
    rw [List.length_append]
    exact Option.some.inj h
  | up =>
    rw [depth?, Option.ite_none_left_eq_some, Option.some.injEq] at h
    have hne : names ≠ [] := fun hnil => h.1 (congrArg List.length hnil)
    refine ⟨names.dropLast, List.dropLast_append_of_ne_nil hne, ?_⟩
    rw [List.length_dropLast]
    exact h.2

/-- Steps that never lead above their start end so many names below it. -/
theorem exists_foldl_from_of_depth? {steps : List Step} (place names : Location) {depth : Nat}
    (h : depth? names.length steps = some depth) :
    ∃ later, steps.foldl Step.from (place ++ names) = place ++ later ∧ later.length = depth := by
  induction steps generalizing names with
  | nil => exact ⟨names, rfl, Option.some.inj h⟩
  | cons s rest ih =>
    obtain ⟨next, hnext, hrest⟩ := Option.bind_eq_some_iff.mp h
    obtain ⟨later, hlater, rfl⟩ := Step.exists_from_of_depth? place hnext
    rw [List.foldl_cons, hlater]
    exact ih later hrest

/-- A name that an entry can have leads one step down. -/
theorem staysBelow_of_isProper {name : Name} (h : Name.IsProper name) :
    (Path.mk name).StaysBelow := by
  refine ⟨not_isAbsolute_of_no_slash h.no_slash, ?_⟩
  rw [namedSteps_of_no_slash h.ne_nil h.no_slash, h.ofPiece_eq]
  exact Nat.one_pos

end Path

/-! ### Places inside a directory -/

namespace FileTree

/-- A place inside a directory, at any depth. -/
def Inside (tree : FileTree) (directory : Path) (place : Location) : Prop :=
  tree.placeOf directory <+: place ∧ place ≠ tree.placeOf directory

instance (tree : FileTree) (directory : Path) (place : Location) :
    Decidable (tree.Inside directory place) :=
  inferInstanceAs (Decidable (_ ∧ _))

/-- A path that stays below a directory leads to a place inside it. -/
theorem inside_of_staysBelow (tree : FileTree) (directory : Path) {p : Path} (h : p.StaysBelow) :
    tree.Inside directory (tree.placeOf (directory.join p)) := by
  obtain ⟨hrelative, hdepth⟩ := h
  cases hdown : Path.depth? 0 p.namedSteps with
  | none =>
    rw [hdown] at hdepth
    exact absurd hdepth (Nat.lt_irrefl 0)
  | some depth =>
    rw [hdown, Option.getD_some] at hdepth
    obtain ⟨names, hnames, hlength⟩ :=
      Path.exists_foldl_from_of_depth? (tree.placeOf directory) [] hdown
    rw [List.append_nil] at hnames
    rw [Inside, placeOf_join_of_relative tree directory hrelative, hnames]
    refine ⟨List.prefix_append _ _, fun heq => ?_⟩
    have hnone : names = [] := List.append_right_eq_self.mp heq
    rw [hnone] at hlength
    exact absurd hlength (Nat.ne_of_lt hdepth)

/-! ### What a run makes or changes -/

/-- There is a file at a place that was not there before or had other octets. -/
def Changed (before after : FileTree) (place : Location) : Prop :=
  ∃ content, after.content? place = some content ∧ before.content? place ≠ some content

/-- All files that are new or have other octets are inside a directory, but for hidden ones. -/
def Confined (hidden : Location → Prop) (before after : FileTree) (directory : Path) : Prop :=
  ∀ place, ¬ hidden place → before.Changed after place → before.Inside directory place

theorem Changed.content?_ne {before after : FileTree} {place : Location}
    (h : before.Changed after place) : after.content? place ≠ before.content? place := by
  obtain ⟨content, hafter, hbefore⟩ := h
  rw [hafter]
  exact hbefore.symm

/-- There is a file at the target of a copy that was written, whatever is copied later. -/
theorem isSome_content?_of_mem_copied {tree : FileTree} {copies : List PlannedCopy}
    {copy : PlannedCopy} (h : copy ∈ tree.copied copies) :
    ((tree.copyFiles copies).content? (tree.placeOf copy.target)).isSome = true := by
  obtain ⟨before, later, rfl, hnone⟩ := exists_of_mem_copied h
  obtain ⟨content, hcontent⟩ := exists_get?_target_of_writeCopy hnone
  rw [copyFiles_append]
  refine (grows_copyFiles _ later).isSome_content? ?_
  rw [← placeOf_congr (here_copyFiles tree before), content?_eq_some_iff.mpr hcontent]
  rfl

end FileTree

/-! ### Runs -/

/-- Where the files are that a run makes or changes, the log file apart, which must not be listed.
Each is where some new name leads from the output directory, under which a copy was written. So all
of them are inside this directory if these names stay below it, and they do if the literals of the
output pattern have no slashes. A copy that leads to a free place elsewhere makes a file there. -/
theorem confined_of_process {settings : Settings} {state after : RunState} {summary : Summary}
    (h : state.perform (process settings false) = (.ok summary, after)) :
    ∃ task listing report, settings.task = .ok task ∧
      (state.perform (listDirectory task.inputDirectory)).1 = .ok listing ∧
      task.renamer.rename listing.names = .ok report ∧
      ((∀ name ∈ listing.names, ¬ state.LogsTo (state.files.placeOf (task.inputPath name))) →
        (∀ place, ¬ state.LogsTo place → state.files.Changed after.files place →
          ∃ target, state.files.Reaches task report.renamed target ∧
            place = state.files.placeOf (task.outputPath target)) ∧
        ((∀ target, state.files.Reaches task report.renamed target →
            (Path.ofText target).StaysBelow) →
          state.files.Confined state.LogsTo after.files task.outputDirectory) ∧
        (state.files.WellFormed →
          (∀ word, .literal word ∈ task.renamer.output.tokens → '/' ∉ word.toList) →
          state.files.Confined state.LogsTo after.files task.outputDirectory) ∧
        ∀ target, state.files.Reaches task report.renamed target →
          ¬ state.files.Inside task.outputDirectory
            (state.files.placeOf (task.outputPath target)) →
          state.files.content? (state.files.placeOf (task.outputPath target)) = none →
          ¬ state.LogsTo (state.files.placeOf (task.outputPath target)) →
          ¬ state.files.Confined state.LogsTo after.files task.outputDirectory) := by
  obtain ⟨task, listing, report, htask, hlisting, hreport, hplan, hcopies⟩ :=
    exists_report_of_process h
  refine ⟨task, listing, report, htask, hlisting, hreport, fun hlog => ?_⟩
  obtain ⟨-, hfiles⟩ := hcopies hlog
  have hchanged : ∀ place, ¬ state.LogsTo place → state.files.Changed after.files place →
      ∃ target, state.files.Reaches task report.renamed target ∧
        place = state.files.placeOf (task.outputPath target) := by
    intro place hplace hne
    by_contra hnone
    apply hne.content?_ne
    rw [hfiles.content?_eq hplace]
    apply FileTree.content?_copyFiles_of_not_reaches
    intro target hreaches heq
    exact hnone ⟨target, hreaches, heq⟩
  have hbelow : (∀ target, state.files.Reaches task report.renamed target →
        (Path.ofText target).StaysBelow) →
      state.files.Confined state.LogsTo after.files task.outputDirectory := by
    intro hstays place hplace hne
    obtain ⟨target, hreaches, rfl⟩ := hchanged place hplace hne
    exact state.files.inside_of_staysBelow _ (hstays target hreaches)
  refine ⟨hchanged, hbelow, fun hwf hslash => hbelow ?_, ?_⟩
  · rintro target ⟨file, hfile, rfl, hcopied⟩
    -- a file was written under the name, so an entry can have it
    obtain ⟨before, later, -, hnone⟩ := FileTree.exists_of_mem_copied hcopied
    obtain ⟨made, place, content, -, hplace, -⟩ := FileTree.exists_of_writeCopy hnone
    have hname := FileTree.slash_not_mem_target hplan hwf hslash hfile
    exact Path.staysBelow_of_isProper (FileTree.of_locateForWriting_join hname hplace).1
  · rintro target ⟨file, hfile, rfl, hcopied⟩ houtside hfree hplace hconfined
    have hthere := FileTree.isSome_content?_of_mem_copied hcopied
    obtain ⟨content, hcontent⟩ := Option.isSome_iff_exists.mp hthere
    refine houtside (hconfined _ hplace ⟨content, ?_, ?_⟩)
    · rw [hfiles.content?_eq hplace]
      exact hcontent
    · rw [hfree]
      exact (Option.some_ne_none content).symm

/-- Settings that give numbered images new names by some output pattern. -/
def imagesTo (outputPattern : String) : Settings where
  inputDirectory := some (.ofText "in")
  outputDirectory := some (.ofText "out")
  inputPattern := some "{n:d}.tif"
  outputPattern := some outputPattern

def oneImage : RunState where
  files := ⟨[([Text.Utf8.octets "in"], .directory),
    ([Text.Utf8.octets "in", Text.Utf8.octets "1.tif"], .file (Text.Utf8.octets "data"))], []⟩

def detour : Task where
  inputDirectory := .ofText "in"
  outputDirectory := .ofText "out"
  inputPattern := "{n:d}.tif"
  outputPattern := "a/../b/x{n:d}.tif"
  renamer := ⟨⟨[.field ⟨"n", .digit (.fixed 1)⟩, .literal ".tif"]⟩,
    ⟨[.literal "a/../b/x", .field ⟨"n", .digit (.fixed 1)⟩, .literal ".tif"]⟩,
    by decide +kernel, by decide +kernel⟩

/-- A new name that goes up and down again stays below the output directory. -/
theorem confined_of_process_detour :
    ∃ summary after,
      oneImage.perform (process (imagesTo detour.outputPattern) false) = (.ok summary, after) ∧
      oneImage.files.Changed after.files
        [Text.Utf8.octets "out", Text.Utf8.octets "b", Text.Utf8.octets "x1.tif"] ∧
      oneImage.files.Confined oneImage.LogsTo after.files (.ofText "out") := by
  have hrun : (oneImage.perform (process (imagesTo detour.outputPattern) false)).1 =
      .ok ⟨false, { scanned := 1, renamed := 1, copied := 1 }, [], []⟩ := by decide +kernel
  have h := Prod.mk.eta (p := oneImage.perform (process (imagesTo detour.outputPattern) false))
  rw [hrun] at h
  have htask : (imagesTo detour.outputPattern).task = .ok detour := by
    refine Settings.task_eq_ok_iff.mpr ⟨rfl, rfl, rfl, rfl, ?_⟩
    exact Renamer.ofTexts_eq_ok_iff.mpr ⟨by decide +kernel, by decide +kernel⟩
  have hlisting : (oneImage.perform (listDirectory detour.inputDirectory)).1 =
      .ok ⟨[⟨.ofText "in/1.tif", "1.tif"⟩], []⟩ := by decide +kernel
  have hreport : detour.renamer.rename ["1.tif"] = .ok ⟨[⟨"1.tif", "a/../b/x1.tif"⟩], []⟩ := by
    decide +kernel
  obtain ⟨task, listing, report, htask', hlisting', hreport', hfiles⟩ :=
    confined_of_process h.symm
  obtain rfl := Except.ok.inj (htask.symm.trans htask')
  obtain rfl := Except.ok.inj (hlisting.symm.trans hlisting')
  obtain rfl := Except.ok.inj (hreport.symm.trans hreport')
  obtain ⟨-, hbelow, -, -⟩ := hfiles fun name _ =>
    RunState.not_logsTo_of_logging_eq_none rfl _
  refine ⟨_, _, h.symm, ⟨Text.Utf8.octets "data", by decide +kernel, by decide +kernel⟩, ?_⟩
  apply hbelow
  rintro target ⟨file, hfile, rfl, -⟩
  rw [List.mem_singleton.mp hfile]
  decide +kernel

/-- A run whose output pattern leads up from the output directory makes a file outside of it. -/
theorem escapes_through_parent :
    ∃ summary after,
      oneImage.perform (process (imagesTo "../x{n:d}.tif") false) = (.ok summary, after) ∧
      (imagesTo "../x{n:d}.tif").outputDirectory = some (.ofText "out") ∧
      oneImage.files.content? [Text.Utf8.octets "x1.tif"] = none ∧
      after.files.content? [Text.Utf8.octets "x1.tif"] = some (Text.Utf8.octets "data") ∧
      ¬ oneImage.files.Inside (.ofText "out") [Text.Utf8.octets "x1.tif"] ∧
      ¬ oneImage.files.Confined oneImage.LogsTo after.files (.ofText "out") := by
  have hrun : (oneImage.perform (process (imagesTo "../x{n:d}.tif") false)).1 =
      .ok ⟨false, { scanned := 1, renamed := 1, copied := 1 }, [], []⟩ := by decide +kernel
  have h := Prod.mk.eta (p := oneImage.perform (process (imagesTo "../x{n:d}.tif") false))
  rw [hrun] at h
  have hbefore : oneImage.files.content? [Text.Utf8.octets "x1.tif"] = none := by decide +kernel
  have hafter : (oneImage.perform (process (imagesTo "../x{n:d}.tif") false)).2.files.content?
      [Text.Utf8.octets "x1.tif"] = some (Text.Utf8.octets "data") := by decide +kernel
  have houtside : ¬ oneImage.files.Inside (.ofText "out") [Text.Utf8.octets "x1.tif"] := by
    decide +kernel
  refine ⟨_, _, h.symm, rfl, hbefore, hafter, houtside, fun hconfined => houtside ?_⟩
  exact hconfined _ (RunState.not_logsTo_of_logging_eq_none rfl _)
    ⟨_, hafter, hbefore ▸ (Option.some_ne_none _).symm⟩

end PatternRename
