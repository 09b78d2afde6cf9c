import PredicateSql.Expr.Printer
import PredicateSql.Main
import PredicateSql.Proofs.Sql.Meaning
import PredicateSql.Proofs.Query.Negation
import PredicateSql.Proofs.Query.JoinTree
import PredicateSql.Proofs.Query.Formation
import PredicateSql.Proofs.Query.Kleene
import PredicateSql.Proofs.Query.Predicate
import PredicateSql.Proofs.Sql.Printer
import PredicateSql.Proofs.Query.Parentheses
import PredicateSql.Proofs.Query.Comments
import PredicateSql.Proofs.Query.NormalForm
import PredicateSql.Proofs.Query.Quotation
import PredicateSql.Proofs.Query.NullFree
import PredicateSql.Proofs.Query.Scoping
import PredicateSql.Proofs.Query.Properties
import PredicateSql.Proofs.Query.Casts
import PredicateSql.Proofs.Query.Places
import PredicateSql.Proofs.Lambda.Value
import PredicateSql.Proofs.Query.Rendering
import PredicateSql.Proofs.Query.Counting
import PredicateSql.Proofs.Query.Coverage
import PredicateSql.Proofs.Query.ParsedFilters
import PredicateSql.Proofs.Catalog.Document
import PredicateSql.Proofs.Query.ProvablyNull
import PredicateSql.Proofs.Query.NullTests
import PredicateSql.Proofs.Query.Membership
import PredicateSql.Proofs.Query.Patterns
import PredicateSql.Proofs.Query.Drilling
import PredicateSql.Proofs.Query.Labels
import PredicateSql.Proofs.Query.Findings
import PredicateSql.Proofs.Evaluation.Integers
import PredicateSql.Proofs.Lambda.Succession
import PredicateSql.Proofs.Lambda.Escapes
import PredicateSql.Proofs.Lambda.Literals
import PredicateSql.Proofs.Lambda.Depth
import PredicateSql.Proofs.Lambda.Precedence
import PredicateSql.Proofs.Lambda.ReadBack
import PredicateSql.Proofs.Query.StackedSearch
import PredicateSql.Proofs.CommandLine.Framing
import PredicateSql.Proofs.Query.Keywords
