import Curried.Main
import Curried.Proofs.Coupling
import Curried.Proofs.Coupling.Library
import Curried.Proofs.Coupling.Evaluator
import Curried.Proofs.Watch
import Curried.Proofs.Depth
import Curried.Proofs.DepthLimit
import Curried.Proofs.Reports
import Curried.Proofs.Layout.Reading
import Curried.Proofs.Layout
import Curried.Proofs.Grammar
import Curried.Proofs.Grammar.Recognizer
import Curried.Proofs.Grammar.Parser
import Curried.Proofs.Names
import Curried.Proofs.Isolation
import Curried.Proofs.Places.Run
import Curried.Proofs.Dispatch
import Curried.Proofs.Callbacks
import Curried.Proofs.Crashes
import Curried.Proofs.Grammar.Phrases
import Curried.Proofs.Spelling
import Curried.Proofs.Printing
import Curried.Proofs.Grammar.Completion
import Curried.Proofs.Grammar.Locality
import Curried.Proofs.FirstError
import Curried.Proofs.Tiling
import Curried.Proofs.Grammar.Accepted
import Curried.Proofs.Mentions
import Curried.Proofs.Grammar.Closing
import Curried.Proofs.Contexts
import Curried.Proofs.Precedence
import Curried.Proofs.LongestMatch
import Curried.Proofs.Respacing
import Curried.Proofs.Chains
import Curried.Proofs.Currying
import Curried.Proofs.Calls
import Curried.Proofs.Regex.Matches
import Curried.Proofs.Regex.Pieces
import Curried.Proofs.Regex.Groups
import Curried.Proofs.Regex.Templates
import Curried.Proofs.Doubles
import Curried.Proofs.Identity
import Curried.Proofs.Equality
import Curried.Proofs.Scopes
import Curried.Proofs.Warnings
import Curried.Proofs.Input
import Curried.Proofs.Prompt
import Curried.Proofs.Catalogue
import Curried.Proofs.Doubles.Rounding
import Curried.Proofs.Lists.Indices
import Curried.Proofs.Lists.Sorting
import Curried.Proofs.Lists.Ranges
import Curried.Proofs.Lineage
import Curried.Proofs.Decimal.RoundTrip
