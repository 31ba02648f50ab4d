import DocStore.Config
import DocStore.Database.RowSource
import DocStore.Document.Parser
import DocStore.Sql.Cache
import DocStore.Structure.Batch
import DocStore.Sync.Upsert
import DocStore.Writer.Insert
import DocStore.Proofs.Outcome
import DocStore.Proofs.Predicate.Comparisons
import DocStore.Proofs.Predicate.Completion
import DocStore.Proofs.Predicate.Filters
import DocStore.Proofs.Predicate.Meaning
import DocStore.Proofs.Predicate.Misgrouping
import DocStore.Proofs.Database.Cells
import DocStore.Proofs.Database.Effects
import DocStore.Proofs.Query.Agreement
import DocStore.Proofs.Query.Compilation
import DocStore.Proofs.Sync.Changes
import DocStore.Proofs.Sync.Evolution
import DocStore.Proofs.Sync.Leftovers
import DocStore.Proofs.Sync.Reconciliation
import DocStore.Proofs.Writer.Appended
import DocStore.Proofs.Sql.Independence
import DocStore.Proofs.Query.Faults
import DocStore.Proofs.Query.Pages
import DocStore.Proofs.Sql.Eviction
import DocStore.Proofs.Sql.Placeholders
import DocStore.Proofs.Sql.Template
import DocStore.Proofs.Sql.Transparency
import DocStore.Proofs.Schema.Columns
import DocStore.Proofs.Structure.Acceptance
import DocStore.Proofs.Predicate.ElementPredicates
import DocStore.Proofs.Database.Fitting
import DocStore.Proofs.Sync.Retry
import DocStore.Proofs.Sync.Isolation
import DocStore.Proofs.Database.Failing
import DocStore.Proofs.Writer.Interrupted
import DocStore.Proofs.Structure.Identified
import DocStore.Proofs.Sql.Unambiguous
import DocStore.Proofs.Expr.Arithmetic
import DocStore.Proofs.Expr.Ordering
import DocStore.Proofs.Predicate.Captured
import DocStore.Proofs.Predicate.MemberPaths
import DocStore.Proofs.Expr.Scoping
import DocStore.Proofs.Predicate.Matching
import DocStore.Proofs.Predicate.NormalForms
import DocStore.Proofs.Schema.LayoutSharing
import DocStore.Proofs.Sql.AliasSearch
import DocStore.Proofs.Schema.DocumentOrder
