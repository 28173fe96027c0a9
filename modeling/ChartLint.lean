import ChartLint.Catalog.Reader
import ChartLint.Catalog.Standard
import ChartLint.Proofs.Scope.Grammar
import ChartLint.Proofs.Section.Outline
import ChartLint.Proofs.Time.Cache
import ChartLint.Proofs.Time.Fixed
import ChartLint.Proofs.Time.RoundTrip
import ChartLint.Proofs.Validation.Dates
import ChartLint.Proofs.Validation.Declarations
import ChartLint.Proofs.Document.Spelling
import ChartLint.Proofs.Block.Accounts
import ChartLint.Proofs.Diagnostic.Exchange
import ChartLint.Proofs.Rule.Exchange
import ChartLint.Proofs.Section.PathExchange
import ChartLint.Proofs.Validation.Entries
import ChartLint.Proofs.Validation.Exchange
import ChartLint.Proofs.Block.MissingEnd
import ChartLint.Proofs.Section.Recovery
import ChartLint.Proofs.Section.Placement
import ChartLint.Proofs.Rule.Companion
import ChartLint.Proofs.Validation.Companions
import ChartLint.Proofs.Line.Indentation
import ChartLint.Proofs.Block.Name
import ChartLint.Proofs.Validation.Names
import ChartLint.Proofs.Validation.Tables
import ChartLint.Proofs.Time.Months
import ChartLint.Proofs.Time.Periods
import ChartLint.Proofs.Time.NearestDay
import ChartLint.Proofs.Time.Interval
import ChartLint.Proofs.Time.LongestToken
import ChartLint.Proofs.Setting.Replacement
import ChartLint.Proofs.Setting.Items
import ChartLint.Proofs.Catalog.Lookup
import ChartLint.Proofs.Catalog.Overrides
import ChartLint.Proofs.Setting.Suggestion
import ChartLint.Proofs.Document.Note
import ChartLint.Proofs.Rule.Layout
import ChartLint.Proofs.Time.CalendarEnds
import ChartLint.Proofs.Diagnostic.Firsts
import ChartLint.Proofs.Firsts
