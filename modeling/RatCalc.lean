import RatCalc.Fraction.Literal
import RatCalc.Fraction.Decimal
import RatCalc.Operator
import RatCalc.Program
import RatCalc.Expression.Query
import RatCalc.Grammar.Program
import RatCalc.Report
import RatCalc.Associativity.Gate
import RatCalc.Environment
import RatCalc.Evaluation.Cancellation
import RatCalc.Evaluation.Group
import RatCalc.Evaluation.Basic
import RatCalc.Session
import RatCalc.CommandLine.Shell
import RatCalc.Main
import RatCalc.Proofs.Rational
import RatCalc.Proofs.Fraction.Arithmetic
import RatCalc.Proofs.Fraction.Construction
import RatCalc.Proofs.Associativity.NormalForm
import RatCalc.Proofs.Evaluation.Unrolling
import RatCalc.Proofs.Evaluation.Success
import RatCalc.Proofs.Associativity.Meaning
import RatCalc.Proofs.Associativity.Regrouping
import RatCalc.Proofs.Grammar.Derivation
import RatCalc.Proofs.Grammar.Exactness
import RatCalc.Proofs.Printing.Decimal
import RatCalc.Proofs.Printing.Expression
import RatCalc.Proofs.Printing.Program
import RatCalc.Proofs.Session.Laziness
import RatCalc.Proofs.Concurrency.Crew
import RatCalc.Proofs.Concurrency.Protocol
import RatCalc.Proofs.Concurrency.Job
import RatCalc.Proofs.Concurrency.Promise
import RatCalc.Proofs.Concurrency.Evaluation
import RatCalc.Proofs.Concurrency.Sequential
import RatCalc.Proofs.Concurrency.Independence
import RatCalc.Proofs.Evaluation.Alike
import RatCalc.Proofs.Evaluation.WellFormed
import RatCalc.Proofs.Concurrency.Guards
import RatCalc.Proofs.Session.Safety
import RatCalc.Proofs.Associativity.Definedness
import RatCalc.Proofs.Printing.Rounding
import RatCalc.Proofs.Grammar.LineBreak
import RatCalc.Proofs.Evaluation.Tokens
import RatCalc.Proofs.Session.Cancellation
import RatCalc.Proofs.Grammar.Joining
import RatCalc.Proofs.Associativity.Passing
import RatCalc.Proofs.Associativity.InnerNames
import RatCalc.Proofs.Grammar.Keywords
import RatCalc.Proofs.Grammar.FailurePlace
import RatCalc.Proofs.Evaluation.Arithmetic
import RatCalc.Proofs.Associativity.PlainBodies
import RatCalc.Proofs.Value.Views
import RatCalc.Proofs.Fraction.Literal
import RatCalc.Proofs.Evaluation.Lineage
import RatCalc.Proofs.Expression.Questions
import RatCalc.Proofs.Printing.Report
import RatCalc.Proofs.Concurrency.Chunks
import RatCalc.Proofs.Concurrency.Order
import RatCalc.Proofs.Concurrency.Spread
