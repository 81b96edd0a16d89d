import ExprSampler.Headroom
import ExprSampler.Main
import ExprSampler.Proofs.Text.Lines
import ExprSampler.Proofs.Log.Configurations
import ExprSampler.Proofs.Grammar.Derivation
import ExprSampler.Proofs.Grammar.Naming
import ExprSampler.Proofs.Grammar.Rules
import ExprSampler.Proofs.Grammar.Steps
import ExprSampler.Proofs.Grammar.Completeness
import ExprSampler.Proofs.Grammar.Outcome
import ExprSampler.Proofs.Grammar.Agreement
import ExprSampler.Proofs.Grammar.Limits
import ExprSampler.Proofs.Grammar.Texts
import ExprSampler.Proofs.Grammar.ErrorPosition
import ExprSampler.Proofs.Binary64.Patterns
import ExprSampler.Proofs.Binary64.Powers
import ExprSampler.Proofs.Evaluation.Pointwise
import ExprSampler.Proofs.Evaluation.PowersInTrees
import ExprSampler.Proofs.Decimal.Nearest
import ExprSampler.Proofs.Binary64.Unsigned
import ExprSampler.Proofs.Decimal.Reading
import ExprSampler.Proofs.Grammar.Numerals
import ExprSampler.Proofs.Grammar.Shapes
import ExprSampler.Proofs.Grammar.RoundTrip
import ExprSampler.Proofs.Headroom.Histories
import ExprSampler.Proofs.Grammar.Sessions
import ExprSampler.Proofs.Evaluation.Grids
import ExprSampler.Proofs.Json.Refusals
import ExprSampler.Proofs.Binary64.Integers
import ExprSampler.Proofs.Config.Entries
import ExprSampler.Proofs.Config.Failures
import ExprSampler.Proofs.Grammar.Expectations
import ExprSampler.Proofs.Grammar.ErrorDisplay
import ExprSampler.Proofs.Grammar.Requirements
import ExprSampler.Proofs.Grammar.Reports
import ExprSampler.Proofs.Command.LeadingLines
import ExprSampler.Proofs.Command.Histories
import ExprSampler.Proofs.Config.Defaults
import ExprSampler.Proofs.Config.Permutations
import ExprSampler.Proofs.Command.ConfigName
import ExprSampler.Proofs.Command.Acceptance
import ExprSampler.Proofs.Grammar.Parentheses
import ExprSampler.Proofs.Grammar.Renaming
import ExprSampler.Proofs.Binary64.Signs
import ExprSampler.Proofs.Decimal.ExactForm
import ExprSampler.Proofs.Decimal.Characters
import ExprSampler.Proofs.Json.Strings
import ExprSampler.Proofs.Decimal.ExactReading
import ExprSampler.Proofs.Json.Numerals
import ExprSampler.Proofs.Json.RoundTrip
import ExprSampler.Proofs.Output.Documents
import ExprSampler.Proofs.Output.Renderings
import ExprSampler.Proofs.Evaluation.Constants
import ExprSampler.Proofs.Grammar.Variables
import ExprSampler.Proofs.Command.Evaluating
import ExprSampler.Proofs.Headroom.Refusals
import ExprSampler.Proofs.Binary64.Ranks
import ExprSampler.Proofs.Binary64.Rounding
import ExprSampler.Proofs.Binary64.Arithmetic
import ExprSampler.Proofs.Binary64.Special
import ExprSampler.Proofs.Sampling.Ascending
import ExprSampler.Proofs.Sampling.RealPoints
import ExprSampler.Proofs.Output.Outlines
import ExprSampler.Proofs.Output.PlainTexts
import ExprSampler.Proofs.Grammar.Depth
import ExprSampler.Proofs.Headroom.TreeWalks
import ExprSampler.Proofs.Grammar.Unlimited
import ExprSampler.Proofs.Config.OrderedDefaults
