import Refutation.Bindings.Basic
import Refutation.Clause.Arrangement
import Refutation.Clause.Basic
import Refutation.Clause.Collection
import Refutation.Command.Options
import Refutation.Command.Response
import Refutation.Entailment
import Refutation.Interpretation
import Refutation.Literal
import Refutation.Main
import Refutation.Naming
import Refutation.Number.Binary64
import Refutation.Number.Shortest
import Refutation.Problem.Basic
import Refutation.Problem.Builder
import Refutation.Report
import Refutation.Resolution
import Refutation.Saturation.Basic
import Refutation.Saturation.Tally
import Refutation.Selection
import Refutation.Source.Document
import Refutation.Source.Grammar
import Refutation.Source.Line
import Refutation.Source.Phrase
import Refutation.Symbols
import Refutation.Term.Basic
import Refutation.Term.Order
import Refutation.Term.Text
import Refutation.Text.Alphabetic
import Refutation.Text.Blank
import Refutation.Text.Digits
import Refutation.Text.Numeric
import Refutation.Text.Range
import Refutation.Text.Uppercase
import Refutation.TimeLimit
import Refutation.Unification.Basic
import Refutation.Unification.Rank
import Refutation.Unification.Step
import Refutation.Proofs.LiteralOrder
import Refutation.Proofs.Unifier
import Refutation.Proofs.CanonicalOrder
import Refutation.Proofs.LeastForm
import Refutation.Proofs.ClauseIdentity
import Refutation.Proofs.Transport
import Refutation.Proofs.Resolvents
import Refutation.Proofs.Passes
import Refutation.Proofs.Soundness
import Refutation.Proofs.StandardizedApart
import Refutation.Proofs.SaturatedSets
import Refutation.Proofs.HornCompleteness
import Refutation.Proofs.Formed
import Refutation.Proofs.Building
import Refutation.Proofs.Progress
import Refutation.Proofs.Derivation
import Refutation.Proofs.Levels
import Refutation.Proofs.Monotonicity
import Refutation.Proofs.Factoring
import Refutation.Proofs.GroundDecision
import Refutation.Proofs.Representation
import Refutation.Proofs.ExhaustiveSearch
import Refutation.Proofs.Yield
import Refutation.Proofs.Effort
import Refutation.Proofs.Profile
import Refutation.Proofs.OrderIndependence
import Refutation.Proofs.Renumbering
import Refutation.Proofs.LineGrammar
import Refutation.Proofs.Reading
import Refutation.Proofs.QueryIsolation
import Refutation.Proofs.Denotation
import Refutation.Proofs.Interning
import Refutation.Proofs.OrderLaws
import Refutation.Proofs.Acceptance
import Refutation.Proofs.Printing
import Refutation.Proofs.RoundTrip
import Refutation.Proofs.Guarded
import Refutation.Proofs.FaultFreedom
import Refutation.Proofs.Dereferencing
import Refutation.Proofs.UnificationDepth
import Refutation.Proofs.Lifting
import Refutation.Proofs.PairFilter
import Refutation.Proofs.SyntaxErrors
import Refutation.Proofs.SearchAccounts
import Refutation.Proofs.RenamingApart
import Refutation.Proofs.RepeatedUnification
import Refutation.Proofs.BuilderCalls
import Refutation.Proofs.Deadlines
import Refutation.Proofs.RecursiveDescent
