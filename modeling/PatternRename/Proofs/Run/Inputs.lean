import Mathlib.Data.Set.Function
import PatternRename.Proofs.Renaming.Collection
import PatternRename.Proofs.Run.Copies

/-!
# What a run does to its input

A run reads the files that it lists and writes copies, and nothing keeps a copy from landing on a
listed file. Whether the listed files keep their octets is decided by the copies that are written,
taken one after the other: a copy onto another file gives it the octets that its source has at
that time, and a copy of a file onto itself leaves it empty.

## Main definitions

- `copyContents` — the contents of files after copies from place to place
- `FileTree.written` — the copies that are written, from place to place
- `FileTree.Spares` — copies after which some files have their octets

## Main results

- `FileTree.forall_ne_of_spares` — files with different octets are spared by copies elsewhere only
- `content?_of_self_last` — a file that is copied onto itself at last is empty after the run
- `inputs_kept_iff_spares` — a run keeps its input exactly if its copies spare it
- `self_copy_empties_input` — a run that loses the octets of a file
-/

namespace PatternRename

/-! ### Contents after copies -/

def copyContents (held : Location → Option (List UInt8)) (copies : List (Location × Location)) :
    Location → Option (List UInt8) :=
  copies.foldl (fun contents copy => FileTree.copyContent contents copy.1 copy.2) held

theorem copyContents_cons (held : Location → Option (List UInt8)) (copy : Location × Location)
    (rest : List (Location × Location)) :
    copyContents held (copy :: rest) =
      copyContents (FileTree.copyContent held copy.1 copy.2) rest := rfl

/-- A file that no copy lands on keeps its octets. -/
theorem copyContents_of_forall_ne {held : Location → Option (List UInt8)}
    {copies : List (Location × Location)} {place : Location}
    (h : ∀ copy ∈ copies, copy.2 ≠ place) : copyContents held copies place = held place := by
  induction copies generalizing held with
  | nil => rfl
  | cons copy rest ih =>
    rw [copyContents_cons, ih fun other hother => h other (List.mem_cons_of_mem copy hother),
      FileTree.copyContent, Function.update_of_ne]
    exact (h copy List.mem_cons_self).symm

/-- The last copy that lands on a file decides its octets. -/
theorem copyContents_of_last {held : Location → Option (List UInt8)}
    {before later : List (Location × Location)} {source target : Location}
    (h : ∀ copy ∈ later, copy.2 ≠ target) :
    copyContents held (before ++ (source, target) :: later) target =
      if target = source then some [] else copyContents held before source := by
  have happend : copyContents held (before ++ (source, target) :: later) =
      copyContents (copyContents held before) ((source, target) :: later) := List.foldl_append
  rw [happend, copyContents_cons, copyContents_of_forall_ne h, FileTree.copyContent,
    Function.update_self]

/-- Octets that none of the sources holds do not come back. -/
theorem copyContents_ne_of_lost {contents : Location → Option (List UInt8)}
    {copies : List (Location × Location)} {places : Set Location} {octets : Option (List UInt8)}
    (hsource : ∀ copy ∈ copies, copy.1 ∈ places) (hoctets : octets ≠ some [])
    (hlost : ∀ place ∈ places, contents place ≠ octets) :
    ∀ place ∈ places, copyContents contents copies place ≠ octets := by
  induction copies generalizing contents with
  | nil => exact hlost
  | cons copy rest ih =>
    rw [copyContents_cons]
    refine ih (fun other hother => hsource other (List.mem_cons_of_mem copy hother)) ?_
    intro place hplace
    rw [FileTree.copyContent]
    by_cases hat : place = copy.2
    · rw [hat, Function.update_self]
      split
      · exact hoctets.symm
      · exact hlost copy.1 (hsource copy List.mem_cons_self)
    · rw [Function.update_of_ne hat]
      exact hlost place hplace

/-- Files with different octets, none of them empty, keep their octets only if no copy of one of
them lands on one of them. -/
theorem not_mem_of_copyContents_eq {held : Location → Option (List UInt8)}
    {copies : List (Location × Location)} {places : Set Location}
    (hsource : ∀ copy ∈ copies, copy.1 ∈ places) (hinj : Set.InjOn held places)
    (hempty : ∀ place ∈ places, held place ≠ some [])
    (h : ∀ place ∈ places, copyContents held copies place = held place) :
    ∀ copy ∈ copies, copy.2 ∉ places := by
  induction copies generalizing held with
  | nil => exact fun copy hcopy => absurd hcopy List.not_mem_nil
  | cons copy rest ih =>
    have hrest : ∀ other ∈ rest, other.1 ∈ places := fun other hother =>
      hsource other (List.mem_cons_of_mem copy hother)
    -- the octets of the first target would be lost
    have hfirst : copy.2 ∉ places := by
      intro htarget
      refine copyContents_ne_of_lost hrest (hempty copy.2 htarget) ?_
        copy.2 htarget (h copy.2 htarget)
      intro place hplace
      change FileTree.copyContent held copy.1 copy.2 place ≠ held copy.2
      rw [FileTree.copyContent]
      by_cases hat : place = copy.2
      · rw [hat, Function.update_self]
        split
        · exact (hempty copy.2 htarget).symm
        · rename_i hself
          intro heq
          exact hself (hinj (hsource copy List.mem_cons_self) htarget heq).symm
      · rw [Function.update_of_ne hat]
        exact fun heq => hat (hinj hplace htarget heq)
    -- so the first copy changes none of these files
    have hkept : ∀ place ∈ places, FileTree.copyContent held copy.1 copy.2 place = held place := by
      intro place hplace
      rw [FileTree.copyContent, Function.update_of_ne]
      rintro rfl
      exact hfirst hplace
    have hlater := ih hrest (hinj.congr fun place hplace => (hkept place hplace).symm)
      (fun place hplace => hkept place hplace ▸ hempty place hplace)
      (fun place hplace => (h place hplace).trans (hkept place hplace).symm)
    exact List.forall_mem_cons.mpr ⟨hfirst, hlater⟩

/-! ### Copies on a tree -/

namespace FileTree

def written (tree : FileTree) : List PlannedCopy → List (Location × Location)
  | [] => []
  | copy :: rest =>
    if (tree.writeCopy copy).2 = none then
      (tree.placeOf copy.source, tree.placeOf copy.target) :: written (tree.writeCopy copy).1 rest
    else written (tree.writeCopy copy).1 rest

/-- Copies change the contents of files as the ones that are written do. -/
theorem content?_copyFiles (tree : FileTree) (copies : List PlannedCopy) :
    (tree.copyFiles copies).content? = copyContents tree.content? (tree.written copies) ∧
      (tree.copyFiles copies).here = tree.here := by
  induction copies generalizing tree with
  | nil => exact ⟨rfl, rfl⟩
  | cons copy rest ih =>
    obtain ⟨hcontent, hhere⟩ := ih (tree.writeCopy copy).1
    obtain ⟨hcopy, hkept⟩ := content?_writeCopy tree copy
    refine ⟨?_, hhere.trans hkept⟩
    change ((tree.writeCopy copy).1.copyFiles rest).content? = _
    rw [hcontent, hcopy, written]
    split
    · rfl
    · rfl

def Spares (tree : FileTree) (paths : List Path) (copies : List PlannedCopy) : Prop :=
  ∀ p ∈ paths, copyContents tree.content? (tree.written copies) (tree.placeOf p) =
    tree.content? (tree.placeOf p)

/-- The places of the copies that are written. -/
theorem written_eq_map_copied (tree : FileTree) (copies : List PlannedCopy) :
    tree.written copies = (tree.copied copies).map fun copy =>
      (tree.placeOf copy.source, tree.placeOf copy.target) := by
  induction copies generalizing tree with
  | nil => rfl
  | cons copy rest ih =>
    have hplaces : ∀ p, (tree.writeCopy copy).1.placeOf p = tree.placeOf p :=
      placeOf_congr (content?_writeCopy tree copy).2
    rw [written, copied, ih]
    simp only [hplaces]
    split
    · rfl
    · rfl

/-- A file that no copy lands on keeps its octets. -/
theorem content?_copyFiles_of_forall_ne {tree : FileTree} {copies : List PlannedCopy}
    {place : Location} (h : ∀ copy ∈ tree.copied copies, tree.placeOf copy.target ≠ place) :
    (tree.copyFiles copies).content? place = tree.content? place := by
  rw [(content?_copyFiles tree copies).1, copyContents_of_forall_ne]
  rw [written_eq_map_copied, List.forall_mem_map]
  exact h

/-- Files that no copy lands on are spared. -/
theorem spares_of_forall_ne {tree : FileTree} {paths : List Path} {copies : List PlannedCopy}
    (h : ∀ copy ∈ tree.written copies, ∀ p ∈ paths, copy.2 ≠ tree.placeOf p) :
    tree.Spares paths copies :=
  fun p hp => copyContents_of_forall_ne fun copy hcopy => h copy hcopy p hp

/-- The files at some paths have different octets, and none of them is empty. -/
def HasDistinct (tree : FileTree) (paths : List Path) : Prop :=
  (∀ p ∈ paths, tree.content? (tree.placeOf p) ≠ some []) ∧
    ∀ p ∈ paths, ∀ q ∈ paths, tree.content? (tree.placeOf p) = tree.content? (tree.placeOf q) →
      tree.placeOf p = tree.placeOf q

/-- Copies of files with different octets spare these files only if no copy that is written lands
on one of them. -/
theorem forall_ne_of_spares {tree : FileTree} {paths : List Path} {copies : List PlannedCopy}
    (hsource : ∀ copy ∈ copies, copy.source ∈ paths) (hdistinct : tree.HasDistinct paths)
    (h : tree.Spares paths copies) :
    ∀ copy ∈ tree.written copies, ∀ p ∈ paths, copy.2 ≠ tree.placeOf p := by
  obtain ⟨hempty, hinj⟩ := hdistinct
  -- every source is one of the files, so what is lost does not come back
  have hkept : ∀ place ∈ {place | ∃ p ∈ paths, place = tree.placeOf p},
      copyContents tree.content? (tree.written copies) place = tree.content? place := by
    rintro _ ⟨p, hp, rfl⟩
    exact h p hp
  have hplaces := not_mem_of_copyContents_eq ?_ ?_ ?_ hkept
  · intro copy hcopy p hp heq
    exact hplaces copy hcopy ⟨p, hp, heq⟩
  · intro copy hcopy
    rw [written_eq_map_copied] at hcopy
    obtain ⟨planned, hplanned, rfl⟩ := List.mem_map.mp hcopy
    exact ⟨planned.source, hsource planned (mem_of_mem_copied hplanned), rfl⟩
  · rintro _ ⟨p, hp, rfl⟩ _ ⟨q, hq, rfl⟩ heq
    exact hinj p hp q hq heq
  · rintro _ ⟨p, hp, rfl⟩
    exact hempty p hp

end FileTree

/-! ### Runs and their input -/

def Task.inputPath (task : Task) (name : String) : Path :=
  task.inputDirectory.join (.ofText name)

theorem mem_inputPaths_of_mem_copies {task : Task} {names : List String} {report : Report}
    (h : task.renamer.rename names = .ok report) {copy : PlannedCopy}
    (hcopy : copy ∈ report.renamed.map task.copyOf) : copy.source ∈ names.map task.inputPath := by
  obtain ⟨file, hfile, rfl⟩ := List.mem_map.mp hcopy
  exact List.mem_map_of_mem (Renamer.source_mem_of_rename h hfile)

/-- A run that succeeds has made new names for the files that it lists, and leaves what their copies
leave, but for the log file, which must not be listed. -/
theorem exists_report_of_process {settings : Settings} {state after : RunState} {summary : Summary}
    (h : state.perform (process settings false) = (.ok summary, after)) :
    ∃ task listing report, settings.task = .ok task ∧
      (state.perform (listDirectory task.inputDirectory)).1 = .ok listing ∧
      task.renamer.rename listing.names = .ok report ∧
      state.files.plan settings = .ok ⟨task, listing, report⟩ ∧
      ((∀ name ∈ listing.names, ¬ state.LogsTo (state.files.placeOf (task.inputPath name))) →
        summary.tally.copied = (state.copied (report.renamed.map task.copyOf)).length ∧
        FileTree.SameBut state.LogsTo after.files
          (state.files.copyFiles (report.renamed.map task.copyOf))) := by
  obtain ⟨plan, hplan, hcopies⟩ := RunState.exists_plan_of_process h
  obtain ⟨htask, hlisting, hreport⟩ := FileTree.plan_eq_ok_iff.mp hplan
  refine ⟨plan.task, plan.listing, plan.report, (FileTree.taskFor_eq_ok_iff.mp htask).1, ?_,
    hreport, hplan, fun hlog => hcopies ?_⟩
  · rw [RunState.outcome_listDirectory, hlisting]
  · -- every source is a listed file
    exact List.forall_mem_map.mpr fun file hfile =>
      hlog file.source (Renamer.source_mem_of_rename hreport hfile)

/-- After a run that succeeds, files have the contents that the written copies give them,
but for the log file, which must not be listed. -/
theorem content?_of_process {settings : Settings} {state after : RunState} {summary : Summary}
    (h : state.perform (process settings false) = (.ok summary, after)) :
    ∃ task listing report, settings.task = .ok task ∧
      (state.perform (listDirectory task.inputDirectory)).1 = .ok listing ∧
      task.renamer.rename listing.names = .ok report ∧
      ((∀ name ∈ listing.names, ¬ state.LogsTo (state.files.placeOf (task.inputPath name))) →
        (∀ p, after.files.placeOf p = state.files.placeOf p) ∧
        ∀ place, ¬ state.LogsTo place → after.files.content? place =
          copyContents state.files.content? (state.files.written (report.renamed.map task.copyOf))
            place) := by
  obtain ⟨task, listing, report, htask, hlisting, hreport, -, hcopies⟩ := exists_report_of_process h
  refine ⟨task, listing, report, htask, hlisting, hreport, fun hlog => ?_⟩
  obtain ⟨-, hfiles⟩ := hcopies hlog
  obtain ⟨hcontent, hhere⟩ := state.files.content?_copyFiles (report.renamed.map task.copyOf)
  refine ⟨?_, ?_⟩
  · intro p
    rw [hfiles.placeOf_eq, FileTree.placeOf_congr hhere]
  · intro place hplace
    rw [hfiles.content?_eq hplace, hcontent]

/-- After a run that succeeds, a file that was copied onto itself at last is empty. -/
theorem content?_of_self_last {settings : Settings} {state after : RunState} {summary : Summary}
    (h : state.perform (process settings false) = (.ok summary, after)) :
    ∃ task listing report, settings.task = .ok task ∧
      (state.perform (listDirectory task.inputDirectory)).1 = .ok listing ∧
      task.renamer.rename listing.names = .ok report ∧
      ((∀ name ∈ listing.names, ¬ state.LogsTo (state.files.placeOf (task.inputPath name))) →
        ∀ before later place, ¬ state.LogsTo place →
          state.files.written (report.renamed.map task.copyOf) = before ++ (place, place) :: later →
          (∀ copy ∈ later, copy.2 ≠ place) → after.files.content? place = some []) := by
  obtain ⟨task, listing, report, htask, hlisting, hreport, hcontent⟩ := content?_of_process h
  refine ⟨task, listing, report, htask, hlisting, hreport, ?_⟩
  intro hlog before later place hplace hwritten hlater
  rw [(hcontent hlog).2 place hplace, hwritten]
  exact (copyContents_of_last hlater).trans (if_pos rfl)

/-- A run that succeeds keeps the octets of every listed file exactly if its copies spare these
files. They do if no copy that is written lands on one of them, and only then if the octets of these
files differ. The log file must not be one of them. -/
theorem inputs_kept_iff_spares {settings : Settings} {state after : RunState} {summary : Summary}
    (h : state.perform (process settings false) = (.ok summary, after)) :
    ∃ task listing report, settings.task = .ok task ∧
      (state.perform (listDirectory task.inputDirectory)).1 = .ok listing ∧
      task.renamer.rename listing.names = .ok report ∧
      ((∀ name ∈ listing.names, ¬ state.LogsTo (state.files.placeOf (task.inputPath name))) →
        ((∀ name ∈ listing.names,
            after.files.content? (after.files.placeOf (task.inputPath name)) =
              state.files.content? (state.files.placeOf (task.inputPath name))) ↔
          state.files.Spares (listing.names.map task.inputPath)
            (report.renamed.map task.copyOf))) ∧
      ((∀ copy ∈ state.files.written (report.renamed.map task.copyOf),
          ∀ p ∈ listing.names.map task.inputPath, copy.2 ≠ state.files.placeOf p) →
        state.files.Spares (listing.names.map task.inputPath) (report.renamed.map task.copyOf)) ∧
      (state.files.HasDistinct (listing.names.map task.inputPath) →
        state.files.Spares (listing.names.map task.inputPath) (report.renamed.map task.copyOf) →
        ∀ copy ∈ state.files.written (report.renamed.map task.copyOf),
          ∀ p ∈ listing.names.map task.inputPath, copy.2 ≠ state.files.placeOf p) := by
  obtain ⟨task, listing, report, htask, hlisting, hreport, hcontent⟩ := content?_of_process h
  refine ⟨task, listing, report, htask, hlisting, hreport, ?_, FileTree.spares_of_forall_ne, ?_⟩
  · intro hlog
    obtain ⟨hplaces, hafter⟩ := hcontent hlog
    rw [FileTree.Spares, List.forall_mem_map]
    refine forall₂_congr ?_
    intro name hname
    rw [hplaces, hafter _ (hlog name hname)]
  · intro hdistinct hspares
    refine FileTree.forall_ne_of_spares ?_ hdistinct hspares
    intro copy hcopy
    exact mem_inputPaths_of_mem_copies hreport hcopy

/-- Settings that write the copies into the input directory. -/
def inPlace : Settings where
  inputDirectory := some (.ofText "in")
  outputDirectory := some (.ofText "in")
  inputPattern := some "{n:c}.tif"
  outputPattern := some "{n:c}.tif"

def oneFile : RunState where
  files := ⟨[([Text.Utf8.octets "in"], .directory),
    ([Text.Utf8.octets "in", Text.Utf8.octets "a.tif"], .file (Text.Utf8.octets "data"))], []⟩

theorem inputs_kept_iff_spares_in_place :
    ∃ summary after, oneFile.perform (process inPlace false) = (.ok summary, after) ∧
      ∃ (task : Task) (listing : Listing) (report : Report), inPlace.task = .ok task ∧
        task.renamer.rename listing.names = .ok report ∧
        ((∀ name ∈ listing.names,
            after.files.content? (after.files.placeOf (task.inputPath name)) =
              oneFile.files.content? (oneFile.files.placeOf (task.inputPath name))) ↔
          oneFile.files.Spares (listing.names.map task.inputPath)
            (report.renamed.map task.copyOf)) := by
  have hrun : (oneFile.perform (process inPlace false)).1 =
      .ok ⟨false, { scanned := 1, renamed := 1, copied := 1 }, [], []⟩ := by decide +kernel
  have h := Prod.mk.eta (p := oneFile.perform (process inPlace false))
  rw [hrun] at h
  obtain ⟨task, listing, report, htask, -, hreport, hkept, -, -⟩ := inputs_kept_iff_spares h.symm
  refine ⟨_, _, h.symm, task, listing, report, htask, hreport, hkept ?_⟩
  exact fun name _ => RunState.not_logsTo_of_logging_eq_none rfl _

/-- A run in place copies a file onto itself, and the file is empty afterwards. -/
theorem self_copy_empties_input :
    ∃ summary after, oneFile.perform (process inPlace false) = (.ok summary, after) ∧
      (oneFile.perform (listDirectory (.ofText "in"))).1 =
        .ok ⟨[⟨.ofText "in/a.tif", "a.tif"⟩], []⟩ ∧
      oneFile.files.read (.ofText "in/a.tif") = .ok (Text.Utf8.octets "data") ∧
      after.files.read (.ofText "in/a.tif") = .ok [] := by
  have hrun : (oneFile.perform (process inPlace false)).1 =
      .ok ⟨false, { scanned := 1, renamed := 1, copied := 1 }, [], []⟩ := by decide +kernel
  have h := Prod.mk.eta (p := oneFile.perform (process inPlace false))
  rw [hrun] at h
  refine ⟨_, _, h.symm, ?_, ?_, ?_⟩
  · decide +kernel
  · decide +kernel
  · decide +kernel

end PatternRename
