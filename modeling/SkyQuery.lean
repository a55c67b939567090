import SkyQuery.QuickFix
import SkyQuery.Scope.Resolve
import SkyQuery.Session
import SkyQuery.Source.LineIndex
import SkyQuery.Source.Lines
import SkyQuery.Sql.PgSphere
import SkyQuery.Tree.Replace
import SkyQuery.Proofs.Grammar.Yields
import SkyQuery.Proofs.WellFormed.Calls
import SkyQuery.Proofs.WellFormed.Values
import SkyQuery.Proofs.WellFormed.Conditions
import SkyQuery.Proofs.WellFormed.Queries
import SkyQuery.Proofs.Token.Lexed
import SkyQuery.Proofs.Token.Scan
import SkyQuery.Proofs.Tree.Unplaced
import SkyQuery.Proofs.WellFormed.Texts
import SkyQuery.Proofs.Tree.Words
import SkyQuery.Proofs.RoundTrip.Spelling
import SkyQuery.Proofs.Grammar.Reads
import SkyQuery.Proofs.RoundTrip.Calls
import SkyQuery.Proofs.RoundTrip.Values
import SkyQuery.Proofs.RoundTrip.Conditions
import SkyQuery.Proofs.RoundTrip.Clauses
import SkyQuery.Proofs.RoundTrip.Queries
import SkyQuery.Proofs.RoundTrip.QuerySpelling
import SkyQuery.Proofs.RoundTrip.Texts
import SkyQuery.Proofs.Tree.Parts
import SkyQuery.Proofs.Tree.Walk
import SkyQuery.Proofs.Check.Complete
import SkyQuery.Proofs.Check.Permissive
import SkyQuery.Proofs.Decimal.Spelling
import SkyQuery.Proofs.Region.Words
import SkyQuery.Proofs.Scope.Rules
import SkyQuery.Proofs.Scope.Sites
import SkyQuery.Proofs.Scope.Complete
import SkyQuery.Proofs.Region.Phrases
import SkyQuery.Proofs.Region.Derivations
import SkyQuery.Proofs.Decimal.Nearest
import SkyQuery.Proofs.Decimal.Shortest
import SkyQuery.Proofs.Decimal.Written
import SkyQuery.Proofs.Region.RoundTrip
import SkyQuery.Proofs.Grammar.Rereads
import SkyQuery.Proofs.Rereads.Calls
import SkyQuery.Proofs.Rereads.Values
import SkyQuery.Proofs.Rereads.Parentheses
import SkyQuery.Proofs.Rereads.Conditions
import SkyQuery.Proofs.Rereads.Queries
import SkyQuery.Proofs.Located.Ranges
import SkyQuery.Proofs.Located.Values
import SkyQuery.Proofs.Located.Conditions
import SkyQuery.Proofs.Located.Queries
import SkyQuery.Proofs.Located.Texts
import SkyQuery.Proofs.Session.History
import SkyQuery.Proofs.Feature.Kept
import SkyQuery.Proofs.Feature.History
import SkyQuery.Proofs.Feature.Equality
import SkyQuery.Proofs.Sql.Exact
import SkyQuery.Proofs.Sql.Expressible
import SkyQuery.Proofs.Extends.Steps
import SkyQuery.Proofs.Extends.Values
import SkyQuery.Proofs.Extends.Conditions
import SkyQuery.Proofs.Extends.Queries
import SkyQuery.Proofs.Extends.Texts
import SkyQuery.Proofs.Sql.Polygons
import SkyQuery.Proofs.Sql.Safe
import SkyQuery.Proofs.Check.Parentheses
import SkyQuery.Proofs.Rereads.Shapes
import SkyQuery.Proofs.Rereads.Clauses
import SkyQuery.Proofs.QuickFix.Quotes
import SkyQuery.Proofs.QuickFix.Values
import SkyQuery.Proofs.QuickFix.Queries
import SkyQuery.Proofs.Scope.Ambiguity
import SkyQuery.Proofs.Scope.OrderFree
import SkyQuery.Proofs.Located.Mentions
import SkyQuery.Proofs.Scope.Located
import SkyQuery.Proofs.Scope.Renamed
import SkyQuery.Proofs.Tree.Replace
import SkyQuery.Proofs.Region.Equality
import SkyQuery.Proofs.Region.Fields
import SkyQuery.Proofs.Tree.Roots
import SkyQuery.Proofs.Region.Serialisable
import SkyQuery.Proofs.Tree.Addresses
import SkyQuery.Proofs.Ordered.Rows
import SkyQuery.Proofs.Ordered.Values
import SkyQuery.Proofs.Ordered.Conditions
import SkyQuery.Proofs.Ordered.Queries
import SkyQuery.Proofs.Ordered.Searches
import SkyQuery.Proofs.CoordSys.Policies
import SkyQuery.Proofs.CoordSys.Systems
import SkyQuery.Proofs.Sql.Common
import SkyQuery.Proofs.Sql.Truth
import SkyQuery.Proofs.Refused.Steps
import SkyQuery.Proofs.Refused.Values
import SkyQuery.Proofs.Refused.Conditions
import SkyQuery.Proofs.Refused.Queries
import SkyQuery.Proofs.Refused.Texts
import SkyQuery.Proofs.Feature.Declarations
import SkyQuery.Proofs.QuickFix.Mended
import SkyQuery.Proofs.QuickFix.Idempotent
import SkyQuery.Proofs.QuickFix.Underscores
import SkyQuery.Proofs.Parallel.Steps
import SkyQuery.Proofs.Parallel.Values
import SkyQuery.Proofs.Parallel.Conditions
import SkyQuery.Proofs.Parallel.Queries
import SkyQuery.Proofs.Token.Spaced
import SkyQuery.Proofs.Parallel.Texts
import SkyQuery.Proofs.Region.Pointed
import SkyQuery.Proofs.Token.Patterns
import SkyQuery.Proofs.Token.Partition
import SkyQuery.Proofs.Progress.Steps
import SkyQuery.Proofs.Progress.Values
import SkyQuery.Proofs.Progress.Conditions
import SkyQuery.Proofs.Progress.Queries
import SkyQuery.Proofs.Progress.Productions
import SkyQuery.Proofs.Progress.Texts
import SkyQuery.Proofs.Source.Places
import SkyQuery.Proofs.Source.LineIndex
