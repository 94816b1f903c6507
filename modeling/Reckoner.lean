import Reckoner.CommandLine.Console
import Reckoner.CommandLine.Options
import Reckoner.Handle
import Reckoner.Main
import Reckoner.Parsing.Blueprint
import Reckoner.Proofs.Dependence
import Reckoner.Proofs.Finite
import Reckoner.Proofs.Formula.Answer
import Reckoner.Proofs.History
import Reckoner.Proofs.Kinds.Evaluation
import Reckoner.Proofs.ReadBack.Shown
import Reckoner.Session
import Reckoner.Proofs.Loading
import Reckoner.Proofs.Measure.Table
import Reckoner.Proofs.Substitution
import Reckoner.Proofs.Currency.RateSet
import Reckoner.Proofs.Effect
import Reckoner.Proofs.Kinds.Origin
import Reckoner.Proofs.Measure.Stored
import Reckoner.Proofs.Json.Numerals
import Reckoner.Proofs.Json.Reading
import Reckoner.Proofs.Dates
import Reckoner.Proofs.Currency.Payload
import Reckoner.Proofs.Text.Utf8
import Reckoner.Proofs.Previewing
import Reckoner.Proofs.Currency.Recorded
import Reckoner.Proofs.Decimal.Shortest
import Reckoner.Proofs.Double.Product
import Reckoner.Proofs.Double.Whole
import Reckoner.Proofs.Json.Doubles
import Reckoner.Proofs.Json.Indented
import Reckoner.Proofs.Settings.Saved
import Reckoner.Proofs.Settings.Persisted
import Reckoner.Proofs.Grammar.Depth
import Reckoner.Proofs.Scanning
import Reckoner.Proofs.Spelling.Stretches
import Reckoner.Proofs.Spelling.Comments
import Reckoner.Proofs.Spelling.Names
import Reckoner.Proofs.Variables
import Reckoner.Proofs.Money
import Reckoner.Proofs.Spelling.Literals
import Reckoner.Proofs.Text.Lowercase
import Reckoner.Proofs.Measure.Growth
import Reckoner.Proofs.Tokenizing
import Reckoner.Proofs.ReadBack.Regrouping
import Reckoner.Proofs.Double.Nearest
import Reckoner.Proofs.Decimal.Read
import Reckoner.Proofs.Numerals
import Reckoner.Proofs.Double.Neutral
import Reckoner.Proofs.Double.Quotient
import Reckoner.Proofs.Strictness
import Reckoner.Proofs.Kinds.Quantities
import Reckoner.Proofs.Measure.Temperatures
import Reckoner.Proofs.Measure.Angles
import Reckoner.Proofs.Currency.Validity
import Reckoner.Proofs.Double.Rational
import Reckoner.Proofs.Exact.Numbers
import Reckoner.Proofs.Exact.Conversion
import Reckoner.Proofs.Exact.Sums
import Reckoner.Proofs.Signs
import Reckoner.Proofs.Progress
import Reckoner.Proofs.Grammar.Faults
import Reckoner.Proofs.Spelling.Fences
import Reckoner.Proofs.Spelling.Operators
import Reckoner.Proofs.Spelling.Synonyms
import Reckoner.Proofs.Separating
import Reckoner.Proofs.Synonyms
