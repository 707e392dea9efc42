import AuditLog.Archive
import AuditLog.Condition
import AuditLog.Config
import AuditLog.Config.Arguments
import AuditLog.Config.Storage
import AuditLog.Console.Command
import AuditLog.Console.Describe
import AuditLog.Document
import AuditLog.Document.Codec
import AuditLog.Document.Display
import AuditLog.Document.Stored
import AuditLog.Event
import AuditLog.Field
import AuditLog.Filter
import AuditLog.Grouping
import AuditLog.IpAddress
import AuditLog.Json
import AuditLog.Main
import AuditLog.Number.Double
import AuditLog.Number.Notation
import AuditLog.Number.Shortest
import AuditLog.Path
import AuditLog.Pipeline
import AuditLog.Players
import AuditLog.Proofs.AcceptedRecords
import AuditLog.Proofs.AcceptedValues
import AuditLog.Proofs.AddressText
import AuditLog.Proofs.AggregateCounts
import AuditLog.Proofs.Aliases
import AuditLog.Proofs.ArchiveRun
import AuditLog.Proofs.ArgumentConflicts
import AuditLog.Proofs.BatchWrites
import AuditLog.Proofs.Calendar
import AuditLog.Proofs.ConditionMeaning
import AuditLog.Proofs.ConsoleLines
import AuditLog.Proofs.ConsoleSearch
import AuditLog.Proofs.DefaultCalls
import AuditLog.Proofs.DefaultTime
import AuditLog.Proofs.DisplayText
import AuditLog.Proofs.DocumentPaths
import AuditLog.Proofs.DoubleText
import AuditLog.Proofs.ExactDoubles
import AuditLog.Proofs.FlagPlacement
import AuditLog.Proofs.GroupPartition
import AuditLog.Proofs.GroupedDays
import AuditLog.Proofs.IgnoredDefaults
import AuditLog.Proofs.IntegerRounding
import AuditLog.Proofs.JsonText
import AuditLog.Proofs.KeyBytes
import AuditLog.Proofs.LeafPaths
import AuditLog.Proofs.LookupJoin
import AuditLog.Proofs.LowerBound
import AuditLog.Proofs.NamedSearch
import AuditLog.Proofs.Numerals
import AuditLog.Proofs.OneValueRecords
import AuditLog.Proofs.PathLaws
import AuditLog.Proofs.PlayerNames
import AuditLog.Proofs.PlayerSearch
import AuditLog.Proofs.QueryRows
import AuditLog.Proofs.QueueInterleavings
import AuditLog.Proofs.QueuedTimes
import AuditLog.Proofs.QuotedText
import AuditLog.Proofs.RangeTests
import AuditLog.Proofs.RecordCodec
import AuditLog.Proofs.RecordLines
import AuditLog.Proofs.RecordPaths
import AuditLog.Proofs.RegisteredAliases
import AuditLog.Proofs.Rounding
import AuditLog.Proofs.RowOrder
import AuditLog.Proofs.SearchBounds
import AuditLog.Proofs.SearchComposition
import AuditLog.Proofs.SearchHandlers
import AuditLog.Proofs.SelectionToggles
import AuditLog.Proofs.ShortestDecimal
import AuditLog.Proofs.SignedZeros
import AuditLog.Proofs.SpanText
import AuditLog.Proofs.StandIns
import AuditLog.Proofs.StorableRecords
import AuditLog.Proofs.StoreContents
import AuditLog.Proofs.StoreRun
import AuditLog.Proofs.StoredRoundTrip
import AuditLog.Proofs.StoredText
import AuditLog.Proofs.Tables
import AuditLog.Proofs.TakenWords
import AuditLog.Proofs.TextPieces
import AuditLog.Proofs.TimestampText
import AuditLog.Proofs.TranslationFailures
import AuditLog.Proofs.UuidText
import AuditLog.Proofs.ValueOrder
import AuditLog.Proofs.WordEffects
import AuditLog.Query
import AuditLog.Queue
import AuditLog.Record
import AuditLog.Search.Compile
import AuditLog.Search.Error
import AuditLog.Search.Flags
import AuditLog.Search.Handler
import AuditLog.Search.Lookup
import AuditLog.Search.Parameters
import AuditLog.Search.Registry
import AuditLog.Search.Run
import AuditLog.Service
import AuditLog.Session
import AuditLog.Store
import AuditLog.Store.Key
import AuditLog.Table
import AuditLog.Text.Digits
import AuditLog.Text.Quoted
import AuditLog.Text.Split
import AuditLog.Text.Unprintable
import AuditLog.Time.Calendar
import AuditLog.Time.Instant
import AuditLog.Time.Span
import AuditLog.Time.Timestamp
import AuditLog.Toml
import AuditLog.Toml.Layout
import AuditLog.Toml.Moment
import AuditLog.Toml.Number
import AuditLog.Toml.Quoted
import AuditLog.Toml.Reader
import AuditLog.Uuid
