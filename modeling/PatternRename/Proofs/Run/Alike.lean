import PatternRename.Proofs.Renaming.Independence
import PatternRename.Proofs.Run.Inputs
import PatternRename.Proofs.Run.LogFiles
import PatternRename.Proofs.Run.Programs

/-!
# Runs on trees that differ in log files

Before a run reads its settings, what it needs for its log file is there, and counts like any other
file or directory. A run that keeps clear of it does the same whatever it has for its log file: it
ends with the same exit code, has the same task and the same new names, and leaves the same files.

## Main definitions

- `EndAlike` — outcomes with one exit code
- `FileTree.KeepsClear` — a run that does not come across some files and directories

## Main results

- `FileTree.planFor_alike` — two runs have plans that are alike
- `FileTree.sameOff_carryOut` — and leave trees that differ at no more places
-/

namespace PatternRename

/-! ### Outcomes with one exit code -/

/-- Two outcomes are alike if both succeed, with what is related, or both fail with one exit code.
-/
inductive EndAlike {α β : Type} (related : α → β → Prop) :
    Except Failure α → Except Failure β → Prop
  | ok {a : α} {b : β} (h : related a b) : EndAlike related (.ok a) (.ok b)
  | error {failure other : Failure} (h : failure.exitCode = other.exitCode) :
    EndAlike related (.error failure) (.error other)

namespace EndAlike

variable {α β γ δ : Type} {related : α → β → Prop} {outcome : Except Failure α}
  {other : Except Failure β}

theorem refl (outcome : Except Failure α) : EndAlike Eq outcome outcome := by
  cases outcome with
  | error failure => exact .error rfl
  | ok a => exact .ok rfl

theorem bind {later : γ → δ → Prop} {next : α → Except Failure γ} {next' : β → Except Failure δ}
    (h : EndAlike related outcome other)
    (hnext : ∀ a b, outcome = .ok a → other = .ok b → related a b →
      EndAlike later (next a) (next' b)) :
    EndAlike later (outcome >>= next) (other >>= next') := by
  cases h with
  | error h => exact .error h
  | ok h => exact hnext _ _ rfl rfl h

theorem of_map_eq {f : α → γ} {outcome other : Except Failure α}
    (h : outcome.map f = other.map f) : EndAlike (fun a b => f a = f b) outcome other := by
  cases outcome with
  | error failure =>
    rw [eq_comm, map_eq_error_iff.mpr rfl, map_eq_error_iff] at h
    rw [h]
    exact .error rfl
  | ok a =>
    obtain ⟨b, hb, heq⟩ := map_eq_ok_iff.mp h.symm
    rw [hb]
    exact .ok heq.symm

theorem exitCode_eq (h : EndAlike related outcome other) : exitCode outcome = exitCode other := by
  cases h with
  | error h => exact h
  | ok => rfl

end EndAlike

/-! ### Runs that keep clear of log files -/

/-- A task keeps clear of some files and directories: its input directory is none of the directories
and its output directory none of the files, their paths lead out of none of the directories, and of
the files in its input directory those that are among the files are left out. -/
structure Task.KeepsClear (files made : Location → Prop) (tree : FileTree) (task : Task) :
    Prop where
  input : tree.StaysIn made task.inputDirectory
  input_directory : ¬ made (tree.placeOf task.inputDirectory)
  output : tree.StaysIn made task.outputDirectory
  output_file : ¬ files (tree.placeOf task.outputDirectory)
  listed : ∀ listing, tree.listing task.inputDirectory = .ok listing → ∀ name ∈ listing.names,
    files (tree.placeOf (task.inputPath name)) → task.renamer.LeavesOut name

/-- The task that options ask for, whether its directories are there or not. -/
def FileTree.taskAsked [Readers] (tree : FileTree) (home : String) (options : Options) :
    Except Failure Task := do
  let settings ← tree.settingsFor home options
  settings.task

/-- A run keeps clear of some files and directories: the current directory is none of the
directories, the settings file is none of the files and its path leads out of none of the
directories, the task keeps clear of all of them, no new path is that of one of the directories, and
none leads through one of the files. -/
structure FileTree.KeepsClear [Readers] (files made : Location → Prop) (home : String)
    (options : Options) (tree : FileTree) : Prop where
  here : ¬ made tree.here
  settings : ∀ file, options.settingsFile = some file →
    tree.StaysIn made (Readers.expandHome home file) ∧
      ¬ files (tree.placeOf (Readers.expandHome home file))
  task : ∀ task, tree.taskAsked home options = .ok task → task.KeepsClear files made tree
  targets : options.dryRun = false → ∀ plan, tree.planFor home options = .ok plan →
    ∀ copy ∈ plan.copies, ¬ made (tree.placeOf copy.target) ∧
      ∀ parent, copy.target.parent? = some parent → ∀ spot ∈ tree.way parent, ¬ files spot

namespace FileTree

variable {files made makes makes' : Location → Prop} {base one other : FileTree} {home : String}
  {options : Options}

theorem settingsIn_alike [Readers] (hoff : SameOff files made one other) {path : Path}
    (hstays : one.StaysIn made path) (hfile : ¬ files (one.placeOf path)) :
    EndAlike Eq (one.settingsIn home path) (other.settingsIn home path) := by
  have hread := hoff.toOption_read_eq hstays hfile
  rw [settingsIn, settingsIn]
  cases hcontent : one.read path with
  | ok content =>
    rw [hcontent, eq_comm] at hread
    rw [toOption_eq_some_iff.mp hread]
    exact .refl _
  | error fault =>
    cases hcontent' : other.read path with
    | error fault' => exact .error rfl
    | ok content => simp [hcontent, hcontent', Except.toOption] at hread

theorem settingsFor_alike [Readers] (hoff : SameOff files made one other)
    (hclear : one.KeepsClear files made home options) :
    EndAlike Eq (one.settingsFor home options) (other.settingsFor home options) := by
  rw [settingsFor, settingsFor]
  cases hfile : options.settingsFile with
  | none => exact .refl _
  | some file =>
    obtain ⟨hstays, hplace⟩ := hclear.settings file hfile
    refine (settingsIn_alike hoff hstays hplace).bind ?_
    rintro settings _ - - rfl
    exact .refl _

theorem exitCode_of_checkPlaces {task : Task} {input output : Option EntryKind} {failure : Failure}
    (h : task.checkPlaces input output = .error failure) : failure.exitCode = 1 := by
  rw [Task.checkPlaces.eq_def] at h
  split at h
  · exact Except.error.inj h ▸ rfl
  · exact Except.error.inj h ▸ rfl
  · split at h
    · exact Except.error.inj h ▸ rfl
    · simp at h

/-- The same directories are there for a task. -/
theorem checkPlaces_eq_ok (hoff : SameOff files made one other) {task : Task}
    (hclear : task.KeepsClear files made one) :
    task.checkPlaces (one.kind? task.inputDirectory) (one.kind? task.outputDirectory) = .ok () ↔
      task.checkPlaces (other.kind? task.inputDirectory) (other.kind? task.outputDirectory) =
        .ok () := by
  have hinput := hclear.input
  have hdirectory := hclear.input_directory
  have houtput := hclear.output
  have hfile := hclear.output_file
  rw [staysIn_congr hoff.here_eq] at hinput houtput
  rw [hoff.placeOf_eq] at hdirectory hfile
  rw [Task.checkPlaces_eq_ok_iff, Task.checkPlaces_eq_ok_iff]
  refine and_congr ⟨hoff.kind?_eq_directory hclear.input hclear.input_directory,
    hoff.symm.kind?_eq_directory hinput hdirectory⟩ (not_congr ?_)
  exact ⟨hoff.kind?_eq_file hclear.output hclear.output_file,
    hoff.symm.kind?_eq_file houtput hfile⟩

theorem checkPlaces_alike (hoff : SameOff files made one other) {task : Task}
    (hclear : task.KeepsClear files made one) :
    EndAlike Eq
      (task.checkPlaces (one.kind? task.inputDirectory) (one.kind? task.outputDirectory))
      (task.checkPlaces (other.kind? task.inputDirectory) (other.kind? task.outputDirectory)) := by
  have hok := checkPlaces_eq_ok hoff hclear
  cases hone : task.checkPlaces (one.kind? task.inputDirectory)
      (one.kind? task.outputDirectory) with
  | ok =>
    rw [hok.mp hone]
    exact .refl _
  | error failure =>
    cases hother : task.checkPlaces (other.kind? task.inputDirectory)
        (other.kind? task.outputDirectory) with
    | ok => simp [hok.mpr hother] at hone
    | error failure' =>
      refine .error ?_
      rw [exitCode_of_checkPlaces hone, exitCode_of_checkPlaces hother]

/-- Trees differ at no more places after copies that keep clear of these. -/
theorem SameOff.copyFiles (h : SameOff files made one other) (hhere : ¬ made one.here)
    {copies : List PlannedCopy} (hclear : ∀ copy ∈ copies, Clear files made one copy) :
    SameOff files made (one.copyFiles copies) (other.copyFiles copies) := by
  induction copies generalizing one other with
  | nil => exact h
  | cons copy rest ih =>
    obtain ⟨hfirst, hrest⟩ := List.forall_mem_cons.mp hclear
    have hsame := (content?_writeCopy one copy).2
    refine ih (h.writeCopy hhere hfirst) (hsame ▸ hhere) fun copy hcopy => ?_
    exact (hrest copy hcopy).congr hsame.symm

/-- Without a settings file, a run keeps clear of files and directories if its plan does. -/
theorem keepsClear_of_plan [Readers] {tree : FileTree} {settings : Settings} {plan : Plan}
    (hfile : options.settingsFile = none) (hsettings : tree.settingsFor home options = .ok settings)
    (hplan : tree.plan settings = .ok plan) (hhere : ¬ made tree.here)
    (htask : plan.task.KeepsClear files made tree)
    (htargets : ∀ copy ∈ plan.copies, ¬ made (tree.placeOf copy.target) ∧
      ∀ parent, copy.target.parent? = some parent → ∀ spot ∈ tree.way parent, ¬ files spot) :
    tree.KeepsClear files made home options := by
  refine ⟨hhere, fun file hgiven => ?_, fun task hasked => ?_, fun _ plan' hplan' => ?_⟩
  · simp [hfile] at hgiven
  · have hsame := (taskFor_eq_ok_iff.mp (plan_eq_ok_iff.mp hplan).1).1
    rw [taskAsked, hsettings, ok_bind, hsame] at hasked
    exact Except.ok.inj hasked ▸ htask
  · rw [planFor, hsettings, ok_bind, hplan] at hplan'
    exact Except.ok.inj hplan' ▸ htargets

/-! ### What is found in the input directory -/

open Classical in
/-- The names that are listed for a task from the input directory of a tree, if files at some places
do not count. -/
noncomputable def namesWithout (files : Location → Prop) (tree : FileTree) (task : Task) :
    List String :=
  (Listing.ofEntries task.inputDirectory
    (tree.children (tree.placeOf task.inputDirectory))).names.filter
      fun name => decide ¬ files (tree.placeOf (task.inputPath name))

section Found

variable (hone : Prepared files makes base one) {task : Task}
  (hclear : task.KeepsClear files made one) {listing : Listing}
  (hlisting : one.listing task.inputDirectory = .ok listing)

include hone hclear hlisting

/-- Log files in the input directory are left out, so it does not matter that they are there. -/
theorem map_renamed_namesWithout :
    (task.renamer.rename (namesWithout files base task)).map Report.renamed =
      (task.renamer.rename listing.names).map Report.renamed := by
  classical
  have hplaces := placeOf_congr hone.here_eq
  have hleftOut := hclear.listed listing hlisting
  obtain ⟨place, hplace, -, rfl⟩ := of_listing hlisting
  have hnames : namesWithout files base task = _ :=
    (hone.filter_names_eq fun name hname => decide_eq_false (not_not.mpr hname)).symm
  rw [eq_placeOf_of_locate hplace, hplaces] at hleftOut ⊢
  rw [hnames]
  refine Renamer.map_renamed_filter fun name hname hdropped => hleftOut name hname ?_
  rw [hplaces]
  exact not_not.mp (of_decide_eq_false hdropped)

theorem source_mem_namesWithout {report : Report}
    (hreport : task.renamer.rename listing.names = .ok report) {file : RenamedFile}
    (hfile : file ∈ report.renamed) : file.source ∈ namesWithout files base task := by
  have hsame := map_renamed_namesWithout hone hclear hlisting
  rw [hreport] at hsame
  obtain ⟨other, hother, hrenamed⟩ := map_eq_ok_iff.mp hsame
  exact Renamer.source_mem_of_rename hother (hrenamed ▸ hfile)

/-- A file that is renamed is no log file. -/
theorem of_mem_renamed (hbase : base.WellFormed) {report : Report}
    (hreport : task.renamer.rename listing.names = .ok report) {file : RenamedFile}
    (hfile : file ∈ report.renamed) :
    Name.IsProper (Text.Utf8.octets file.source) ∧
      ¬ files (base.placeOf (task.inputPath file.source)) := by
  classical
  have hmem := source_mem_namesWithout hone hclear hlisting hreport hfile
  obtain ⟨hlisted, hfree⟩ := List.mem_filter.mp hmem
  exact ⟨(hbase.of_mem_names_ofEntries hlisted).1, of_decide_eq_true hfree⟩

end Found

/-! ### Two runs -/

variable (hbase : base.WellFormed) (hone : Prepared files makes base one)
  (hother : Prepared files makes' base other)

include hbase hone hother

/-- Plans for the same settings fail alike, or they have the same task and the same new names. -/
theorem plan_alike {settings : Settings}
    (hclear : ∀ task, settings.task = .ok task →
      task.KeepsClear files (MadeInOne one other) one ∧
        task.KeepsClear files (MadeInOne one other) other) :
    EndAlike (fun plan plan' => plan.task = plan'.task ∧ plan.report.renamed = plan'.report.renamed)
      (one.plan settings) (other.plan settings) := by
  have hoff := sameOff_of_prepared hbase.closed hone hother
  rw [plan, plan, taskFor, taskFor, bind_assoc, bind_assoc]
  refine (EndAlike.refl _).bind ?_
  rintro task _ htask - rfl
  obtain ⟨hclearOne, hclearOther⟩ := hclear task htask
  rw [bind_assoc, bind_assoc]
  refine (checkPlaces_alike hoff hclearOne).bind ?_
  rintro _ _ hplaces hplaces' -
  rw [pure_bind, pure_bind]
  have hlisting := listing_of_kind? (Task.checkPlaces_eq_ok_iff.mp hplaces).1
  have hlisting' := listing_of_kind? (Task.checkPlaces_eq_ok_iff.mp hplaces').1
  rw [hlisting, hlisting', ok_bind, ok_bind]
  have hsame := (map_renamed_namesWithout hone hclearOne hlisting).symm.trans
    (map_renamed_namesWithout hother hclearOther hlisting')
  refine (EndAlike.of_map_eq hsame).bind ?_
  intro report report' _ _ hrenamed
  exact .ok ⟨rfl, hrenamed⟩

theorem planFor_alike [Readers] (hclear : one.KeepsClear files (MadeInOne one other) home options)
    (hclear' : other.KeepsClear files (MadeInOne one other) home options) :
    EndAlike (fun plan plan' => plan.task = plan'.task ∧ plan.report.renamed = plan'.report.renamed)
      (one.planFor home options) (other.planFor home options) := by
  rw [planFor, planFor]
  refine (settingsFor_alike (sameOff_of_prepared hbase.closed hone hother) hclear).bind ?_
  rintro settings _ hsettings hsettings' rfl
  refine plan_alike hbase hone hother fun task htask => ⟨hclear.task task ?_, hclear'.task task ?_⟩
  · rw [taskAsked, hsettings, ok_bind, htask]
  · rw [taskAsked, hsettings', ok_bind, htask]

omit hother in
/-- What a run copies are files of its input directory that are no log files. -/
theorem of_mem_copies [Readers] (hclear : one.KeepsClear files made home options)
    {plan : Plan} (hplan : one.planFor home options = .ok plan) {copy : PlannedCopy}
    (hcopy : copy ∈ plan.copies) :
    ∃ name, plan.task.KeepsClear files made one ∧ copy.source = plan.task.inputPath name ∧
      Name.IsProper (Text.Utf8.octets name) ∧ ¬ files (one.placeOf copy.source) := by
  obtain ⟨settings, hsettings, hmade⟩ := bind_eq_ok_iff.mp hplan
  obtain ⟨htask, hlisting, hreport⟩ := plan_eq_ok_iff.mp hmade
  have hasked : one.taskAsked home options = .ok plan.task := by
    rw [taskAsked, hsettings, ok_bind, (taskFor_eq_ok_iff.mp htask).1]
  have hkept := hclear.task plan.task hasked
  obtain ⟨file, hfile, rfl⟩ := List.mem_map.mp hcopy
  obtain ⟨hproper, hfree⟩ := of_mem_renamed hone hkept hlisting hbase hreport hfile
  rw [placeOf_congr hone.here_eq]
  exact ⟨file.source, hkept, rfl, hproper, hfree⟩

omit hother in
/-- The copies of a run keep clear of what logging needs. -/
theorem clear_of_mem_copies [Readers] (hclear : one.KeepsClear files made home options)
    (hreal : options.dryRun = false) {plan : Plan} (hplan : one.planFor home options = .ok plan)
    {copy : PlannedCopy} (hcopy : copy ∈ plan.copies) : Clear files made one copy := by
  obtain ⟨name, hkept, hsource, hproper, hfree⟩ := of_mem_copies hbase hone hclear hplan hcopy
  obtain ⟨htarget, hparent⟩ := hclear.targets hreal plan hplan copy hcopy
  exact ⟨hsource ▸ hkept.input.join hproper, hfree, htarget, hparent⟩

/-- Two runs that keep clear of what logging needs leave the same files away from it. -/
theorem sameOff_carryOut [Readers]
    (hclear : one.KeepsClear files (MadeInOne one other) home options)
    (hclear' : other.KeepsClear files (MadeInOne one other) home options) :
    SameOff files (MadeInOne one other)
      (one.carryOut options.dryRun (one.planFor home options))
      (other.carryOut options.dryRun (other.planFor home options)) := by
  have hoff := sameOff_of_prepared hbase.closed hone hother
  have halike := planFor_alike hbase hone hother hclear hclear'
  have hcopies : options.dryRun = false → ∀ plan, one.planFor home options = .ok plan →
      ∀ copy ∈ plan.copies, Clear files (MadeInOne one other) one copy :=
    fun hreal plan hplan copy => clear_of_mem_copies hbase hone hclear hreal hplan
  generalize one.planFor home options = outcome at halike hcopies
  generalize other.planFor home options = outcome' at halike
  cases halike with
  | error _ => exact hoff
  | @ok plan plan' h =>
    obtain ⟨htask, hrenamed⟩ := h
    rw [carryOut, carryOut]
    split
    · exact hoff
    · rename_i hreal
      rw [Plan.copies, Plan.copies, ← htask, ← hrenamed]
      exact hoff.copyFiles hclear.here (hcopies (eq_false_of_ne_true hreal) plan rfl)

end FileTree

end PatternRename
