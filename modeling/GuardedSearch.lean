import GuardedSearch.Authorization
import GuardedSearch.Calendar.Date
import GuardedSearch.Calendar.Instant
import GuardedSearch.Calendar.Literal
import GuardedSearch.Calendar.Written
import GuardedSearch.Calls
import GuardedSearch.Config
import GuardedSearch.DocSet
import GuardedSearch.Engine
import GuardedSearch.Error
import GuardedSearch.Gate
import GuardedSearch.Glob
import GuardedSearch.Index
import GuardedSearch.Json.Parser
import GuardedSearch.Json.Record
import GuardedSearch.Json.Token
import GuardedSearch.Json.Value
import GuardedSearch.Literal
import GuardedSearch.NativeQuery
import GuardedSearch.PermitWord
import GuardedSearch.Proofs.Acceptance
import GuardedSearch.Proofs.Accounts
import GuardedSearch.Proofs.Admission
import GuardedSearch.Proofs.Arrivals
import GuardedSearch.Proofs.Batches
import GuardedSearch.Proofs.BuiltSegments
import GuardedSearch.Proofs.CalendarOrder
import GuardedSearch.Proofs.Catalog
import GuardedSearch.Proofs.DeniedContent
import GuardedSearch.Proofs.DepthFirst
import GuardedSearch.Proofs.Descendants
import GuardedSearch.Proofs.Descriptors
import GuardedSearch.Proofs.Dictionary
import GuardedSearch.Proofs.DirectReading
import GuardedSearch.Proofs.Disclosure
import GuardedSearch.Proofs.Enumeration
import GuardedSearch.Proofs.Expressions
import GuardedSearch.Proofs.FilterCells
import GuardedSearch.Proofs.GlobMatching
import GuardedSearch.Proofs.Histories
import GuardedSearch.Proofs.Lifecycles
import GuardedSearch.Proofs.LiteralTerms
import GuardedSearch.Proofs.LosslessForms
import GuardedSearch.Proofs.Meaning
import GuardedSearch.Proofs.NaiveScan
import GuardedSearch.Proofs.Ordinals
import GuardedSearch.Proofs.Outcomes
import GuardedSearch.Proofs.Pages
import GuardedSearch.Proofs.Parents
import GuardedSearch.Proofs.Permits
import GuardedSearch.Proofs.Plans
import GuardedSearch.Proofs.Postings
import GuardedSearch.Proofs.Publications
import GuardedSearch.Proofs.Questions
import GuardedSearch.Proofs.Ranking
import GuardedSearch.Proofs.Recording
import GuardedSearch.Proofs.Rejections
import GuardedSearch.Proofs.Releases
import GuardedSearch.Proofs.Repetitions
import GuardedSearch.Proofs.Resizing
import GuardedSearch.Proofs.Schedule
import GuardedSearch.Proofs.SearchPlans
import GuardedSearch.Proofs.Settling
import GuardedSearch.Proofs.SharedFilters
import GuardedSearch.Proofs.ShownRecords
import GuardedSearch.Proofs.ShownValues
import GuardedSearch.Proofs.Snapshots
import GuardedSearch.Proofs.StoredForms
import GuardedSearch.Proofs.StoredReading
import GuardedSearch.Proofs.Subtrees
import GuardedSearch.Proofs.Successes
import GuardedSearch.Proofs.TermBytes
import GuardedSearch.Proofs.TermOrder
import GuardedSearch.Proofs.TermReading
import GuardedSearch.Proofs.TextOrder
import GuardedSearch.Proofs.TranslatedQueries
import GuardedSearch.Proofs.Traversals
import GuardedSearch.Proofs.UnsharedFilters
import GuardedSearch.Proofs.Widening
import GuardedSearch.Query
import GuardedSearch.Request
import GuardedSearch.ResultSet
import GuardedSearch.Schema
import GuardedSearch.Search
import GuardedSearch.Segment
import GuardedSearch.Serialized.Requests
import GuardedSearch.Serialized.Results
import GuardedSearch.Serialized.Values
import GuardedSearch.Stored
import GuardedSearch.Table
import GuardedSearch.Term
import GuardedSearch.Text.Blank
import GuardedSearch.Text.Digits
import GuardedSearch.Text.Extending
import GuardedSearch.Text.Printable
import GuardedSearch.Text.Quoted
import GuardedSearch.Text.Ranges
import GuardedSearch.Text.Scan
import GuardedSearch.Text.Unassigned
import GuardedSearch.Throttle
import GuardedSearch.Translation
import GuardedSearch.Value
import GuardedSearch.Vocabulary
import GuardedSearch.Word
