import TreeMigration.CommandLine.Program
import TreeMigration.Proofs.Declaration.Renaming
import TreeMigration.Proofs.FileSystem.Ancestry
import TreeMigration.Proofs.FileSystem.Writing
import TreeMigration.Proofs.Generation.Correctness
import TreeMigration.Proofs.Generation.Interruption
import TreeMigration.Proofs.Path.Joining
import TreeMigration.Proofs.Path.Locations
import TreeMigration.Proofs.FileSystem.Endings
import TreeMigration.Proofs.Generation.Collision
import TreeMigration.Proofs.Declaration.FirstWins
import TreeMigration.Proofs.Editing.Order
import TreeMigration.Proofs.Comparison.Exactness
import TreeMigration.Proofs.Rule.Division
import TreeMigration.Proofs.Rule.Layout
import TreeMigration.Proofs.Rule.Escapes
import TreeMigration.Proofs.Rule.RoundTrip
import TreeMigration.Proofs.Json.Literals
import TreeMigration.Proofs.Json.Parts
import TreeMigration.Proofs.Json.Strings
import TreeMigration.Proofs.Rule.Members
import TreeMigration.Proofs.Substitution.Restoring
import TreeMigration.Proofs.Text.Lines
import TreeMigration.Proofs.Editing.LineStructure
import TreeMigration.Proofs.Editing.Unused
import TreeMigration.Proofs.Generation.Unreadable
import TreeMigration.Proofs.Path.Moves
import TreeMigration.Proofs.Path.Relative
import TreeMigration.Proofs.FileSystem.LinkFree
import TreeMigration.Proofs.FileSystem.Subtree
import TreeMigration.Proofs.SourceList.Growth
import TreeMigration.Proofs.Generation.Separation
import TreeMigration.Proofs.Generation.Repetition
import TreeMigration.Proofs.CommandLine.Rerun
import TreeMigration.Proofs.Substitution.Places
import TreeMigration.Proofs.Identifier.Runs
import TreeMigration.Proofs.Substitution.WholeRuns
import TreeMigration.Proofs.CommandLine.Flags
import TreeMigration.Proofs.CommandLine.ExitStatus
import TreeMigration.Proofs.Path.Continuing
import TreeMigration.Proofs.FileSystem.Descent
import TreeMigration.Proofs.Generation.Placement
import TreeMigration.Proofs.Editing.Undoing
import TreeMigration.Proofs.Editing.Exchange
import TreeMigration.Proofs.Editing.History
import TreeMigration.Proofs.Substitution.Narrowing
import TreeMigration.Proofs.Declaration.Readers
import TreeMigration.Proofs.Declaration.Grammar
import TreeMigration.Proofs.Declaration.Places
import TreeMigration.Proofs.Text.Brackets
import TreeMigration.Proofs.Declaration.Extension
import TreeMigration.Proofs.Declaration.Keyword
import TreeMigration.Proofs.Rule.Acceptance
import TreeMigration.Proofs.Rule.MemberOrder
import TreeMigration.Proofs.SourceList.Directory
import TreeMigration.Proofs.SourceList.Listing
import TreeMigration.Proofs.Generation.FinishedFront
import TreeMigration.Proofs.FileSystem.LineRoundTrip
import TreeMigration.Proofs.Generation.OwnOutput
import TreeMigration.Proofs.Comparison.Reporting
import TreeMigration.Proofs.CommandLine.Arrangement
