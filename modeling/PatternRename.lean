import PatternRename.Text.Decimal
import PatternRename.FileTree.Update
import PatternRename.Renaming.Renamer
import PatternRename.Yaml.Scalar
import PatternRename.Settings.Reader
import PatternRename.Run.Process
import PatternRename.Run.State
import PatternRename.Application
import PatternRename.Main
import PatternRename.Proofs.Matching.Language
import PatternRename.Proofs.Matching.Decomposition
import PatternRename.Proofs.Matching.Backtracking
import PatternRename.Proofs.Renaming.Layout
import PatternRename.Proofs.Files.Contents
import PatternRename.Proofs.Renaming.Collection
import PatternRename.Proofs.Run.Steps
import PatternRename.Proofs.Run.Inputs
import PatternRename.Proofs.Text.Signs
import PatternRename.Proofs.Renaming.WidePadding
import PatternRename.Proofs.Renaming.Reports
import PatternRename.Proofs.Renaming.Independence
import PatternRename.Proofs.Renaming.FixedWidth
import PatternRename.Proofs.Pattern.Placeholders
import PatternRename.Proofs.Pattern.Parsing
import PatternRename.Proofs.Renaming.RoundTrip
import PatternRename.Proofs.Pattern.Fragments
import PatternRename.Proofs.Pattern.Rendering
import PatternRename.Proofs.Pattern.Braces
import PatternRename.Proofs.Pattern.Grammar
import PatternRename.Proofs.Renaming.SamePattern
import PatternRename.Proofs.Run.DryRun
import PatternRename.Proofs.Renaming.Characters
import PatternRename.Proofs.Text.Octets
import PatternRename.Proofs.Files.Places
import PatternRename.Proofs.Files.Growth
import PatternRename.Proofs.Run.Listings
import PatternRename.Proofs.Run.Outputs
import PatternRename.Proofs.Renaming.Rendered
import PatternRename.Proofs.Run.Confinement
import PatternRename.Proofs.Run.Failures
import PatternRename.Proofs.Renaming.OverflowOrder
import PatternRename.Proofs.Renaming.Division
import PatternRename.Proofs.Run.Tallies
import PatternRename.Proofs.Files.Repeats
import PatternRename.Proofs.Run.Repeats
import PatternRename.Proofs.Run.Reruns
import PatternRename.Proofs.Files.Ways
import PatternRename.Proofs.Run.Programs
import PatternRename.Proofs.Run.LogFiles
import PatternRename.Proofs.Run.Alike
import PatternRename.Proofs.Run.Logging
import PatternRename.Proofs.Text.Numerals
import PatternRename.Proofs.Renaming.PaddedNumbers
import PatternRename.Proofs.Renaming.UnpaddedNumbers
import PatternRename.Proofs.Renaming.Entries
import PatternRename.Proofs.Text.DigitOrder
import PatternRename.Proofs.Renaming.FinishedNames
import PatternRename.Proofs.Pattern.Expressions
import PatternRename.Proofs.Matching.Reading
import PatternRename.Proofs.Files.Ancestors
import PatternRename.Proofs.Run.Footprint
import PatternRename.Proofs.Run.CanonicalListings
import PatternRename.Proofs.Run.HiddenFiles
import PatternRename.Proofs.Settings.Texts
import PatternRename.Proofs.Run.OptionSources
