import RavenLang.Main
import RavenLang.Grammar.Following
import RavenLang.Shell.Completion
import RavenLang.Shell.Highlight
import RavenLang.Value.Dump
import RavenLang.Proofs.Grammar.Derivation
import RavenLang.Proofs.Grammar.Reads
import RavenLang.Proofs.Grammar.Exact
import RavenLang.Proofs.Grammar.Program
import RavenLang.Proofs.Grammar.Ambiguity
import RavenLang.Proofs.Grammar.Unplaced
import RavenLang.Proofs.Grammar.Printed
import RavenLang.Proofs.Evaluation.Growth
import RavenLang.Proofs.Evaluation.Keeps
import RavenLang.Proofs.Evaluation.Session
import RavenLang.Proofs.Evaluation.Scoping
import RavenLang.Proofs.Evaluation.Operation
import RavenLang.Proofs.Evaluation.Constants
import RavenLang.Proofs.Number.Bits
import RavenLang.Proofs.Number.Whole
import RavenLang.Proofs.Evaluation.Congruence
import RavenLang.Proofs.Evaluation.Depth
import RavenLang.Proofs.Evaluation.Requests
import RavenLang.Proofs.Evaluation.Alike
import RavenLang.Proofs.Evaluation.Twins
import RavenLang.Proofs.Evaluation.Isolation
import RavenLang.Proofs.Text.Slices
import RavenLang.Proofs.Token.Scanned
import RavenLang.Proofs.Token.Spaced
import RavenLang.Proofs.Grammar.Texts
import RavenLang.Proofs.Grammar.Nesting
import RavenLang.Proofs.Grammar.Stuck
import RavenLang.Proofs.Grammar.Rejected
import RavenLang.Proofs.Grammar.Parameters
import RavenLang.Proofs.Grammar.Functions
import RavenLang.Proofs.Grammar.Completion
import RavenLang.Proofs.Grammar.Places
import RavenLang.Proofs.Evaluation.Places
import RavenLang.Proofs.Shell.Brackets
import RavenLang.Proofs.Shell.Input
import RavenLang.Proofs.Grammar.Offence
import RavenLang.Proofs.Grammar.Progress
import RavenLang.Proofs.Token.Stopped
import RavenLang.Proofs.Token.LongestMatch
import RavenLang.Proofs.Token.Lines
import RavenLang.Proofs.Grammar.Final
import RavenLang.Proofs.Grammar.Moved
import RavenLang.Proofs.Grammar.Ends
import RavenLang.Proofs.Grammar.Lines
import RavenLang.Proofs.Evaluation.Unplaced
import RavenLang.Proofs.Evaluation.Layout
import RavenLang.Proofs.Evaluation.Lines
import RavenLang.Proofs.Grammar.Nodes
import RavenLang.Proofs.Grammar.Shapes
import RavenLang.Proofs.Grammar.Legible
import RavenLang.Proofs.Evaluation.Operators
import RavenLang.Proofs.Evaluation.Failures
import RavenLang.Proofs.Evaluation.Blame
import RavenLang.Proofs.Evaluation.Frames
import RavenLang.Proofs.Evaluation.Linked
import RavenLang.Proofs.Evaluation.Links
import RavenLang.Proofs.Evaluation.Reaches
import RavenLang.Proofs.Evaluation.Writes
import RavenLang.Proofs.Report.Points
import RavenLang.Proofs.Report.Labels
import RavenLang.Proofs.Shell.Balance
import RavenLang.Proofs.Shell.Verdicts
import RavenLang.Proofs.Shell.Colours
import RavenLang.Proofs.Shell.Highlight
import RavenLang.Proofs.Shell.Mismatches
import RavenLang.Proofs.Shell.Unfinished
import RavenLang.Proofs.Evaluation.Names
import RavenLang.Proofs.Shell.Completion
import RavenLang.Proofs.Value.Fields
import RavenLang.Proofs.Value.Equality
import RavenLang.Proofs.Evaluation.Values
import RavenLang.Proofs.Value.Ordered
import RavenLang.Proofs.Evaluation.Objects
import RavenLang.Proofs.Evaluation.Calling
import RavenLang.Proofs.Evaluation.Simple
