import SourceMigration.Proofs.Batch.Mirror
import SourceMigration.Proofs.CommandLine.Predicted
import SourceMigration.Proofs.Editing.Instantiated
import SourceMigration.Proofs.Editing.Survivors
import SourceMigration.Proofs.Parsing.Spaced
import SourceMigration.Proofs.Recipe.Accounted
import SourceMigration.Proofs.Recipe.Complete
import SourceMigration.Proofs.Recipe.Frame
import SourceMigration.Proofs.Recipe.Gated
import SourceMigration.Proofs.Recipe.Idle
import SourceMigration.Proofs.Recipe.Reached
import SourceMigration.Proofs.Recipe.Recomposed
import SourceMigration.Proofs.Recipe.Renamed
import SourceMigration.Proofs.Recipe.Retyped
import SourceMigration.Proofs.Recipe.Separate
import SourceMigration.Proofs.Recipe.Unmixed
import SourceMigration.Proofs.Settings.Loaded
import SourceMigration.Proofs.Trace.Replayed
import SourceMigration.Proofs.Tree.Flattened
import SourceMigration.Proofs.Typing.Climbing
import SourceMigration.Proofs.Typing.Counted
import SourceMigration.Proofs.Typing.Justified
import SourceMigration.Proofs.Typing.Lexical
import SourceMigration.Proofs.Typing.Receivers
import SourceMigration.Proofs.Typing.Reordered
import SourceMigration.Proofs.Typing.Widened
import SourceMigration.Tree.Script
import SourceMigration.Main
import SourceMigration.Workbench
import SourceMigration.Proofs.Recipe.Comments
