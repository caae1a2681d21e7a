import PluginResolution.Binary64
import PluginResolution.Catalog
import PluginResolution.Catalog.Cache
import PluginResolution.Catalog.Client
import PluginResolution.Catalog.Published
import PluginResolution.Catalog.Schedule
import PluginResolution.Command.Arguments
import PluginResolution.Command.Failure
import PluginResolution.Command.Grammar
import PluginResolution.Command.Help
import PluginResolution.Command.Invocation
import PluginResolution.Command.Listing
import PluginResolution.Command.Program
import PluginResolution.Command.Run
import PluginResolution.Command.Session
import PluginResolution.Command.VariableFile
import PluginResolution.Coordinate
import PluginResolution.DataRoot
import PluginResolution.Database
import PluginResolution.Database.Written
import PluginResolution.Fetch.Access
import PluginResolution.Fetch.Retry
import PluginResolution.Fetch.Source
import PluginResolution.FileTree.Basic
import PluginResolution.FileTree.Path
import PluginResolution.FileTree.Stored
import PluginResolution.HostVersion
import PluginResolution.Json.Basic
import PluginResolution.Json.Printer
import PluginResolution.Json.Reader
import PluginResolution.Json.Record
import PluginResolution.KeyMap
import PluginResolution.Ledger.File
import PluginResolution.Ledger.Record
import PluginResolution.Ledger.Table
import PluginResolution.Main
import PluginResolution.Naming
import PluginResolution.PluginDirectory.Basic
import PluginResolution.PluginDirectory.Error
import PluginResolution.Resolution.Cascade
import PluginResolution.Resolution.Report
import PluginResolution.Resolution.Request
import PluginResolution.Resolution.Tier
import PluginResolution.Settings
import PluginResolution.Storage
import PluginResolution.Text.Blank
import PluginResolution.Text.Column
import PluginResolution.Text.Numeral
import PluginResolution.Text.Utf8
import PluginResolution.Url.Address
import PluginResolution.Url.Basic
import PluginResolution.Url.Domain
import PluginResolution.Url.Percent
import PluginResolution.Url.Punycode
import PluginResolution.Url.Reader
import PluginResolution.Yaml.Cursor
import PluginResolution.Yaml.Node
import PluginResolution.Yaml.Token.Basic
import PluginResolution.Yaml.Token.Lexer
import PluginResolution.Yaml.Token.Property
import PluginResolution.Yaml.Token.Scalar
import PluginResolution.Yaml.Tree
import PluginResolution.Yaml.Value.Basic
import PluginResolution.Yaml.Value.Scalar
import PluginResolution.Proofs.EagerMerge
import PluginResolution.Proofs.ClientSteps
import PluginResolution.Proofs.ClientHistory
import PluginResolution.Proofs.CatalogFreshness
import PluginResolution.Proofs.SingleFlight
import PluginResolution.Proofs.JsonSpelling
import PluginResolution.Proofs.ReadLists
import PluginResolution.Proofs.JsonRecord
import PluginResolution.Proofs.LedgerText
import PluginResolution.Proofs.FilePlacement
import PluginResolution.Proofs.LedgerFile
import PluginResolution.Proofs.LedgerTable
import PluginResolution.Proofs.LedgerBackends
import PluginResolution.Proofs.TierSteps
import PluginResolution.Proofs.DirectoryResolution
import PluginResolution.Proofs.SparedFiles
import PluginResolution.Proofs.SettingsText
import PluginResolution.Proofs.UntouchedFiles
import PluginResolution.Proofs.OpenedRoot
import PluginResolution.Proofs.SessionSteps
import PluginResolution.Proofs.ProgramSteps
import PluginResolution.Proofs.StoredSettings
import PluginResolution.Proofs.ArgumentOrigins
import PluginResolution.Proofs.CatalogOverride
import PluginResolution.Proofs.RecordedCoordinate
import PluginResolution.Proofs.SourceCalls
import PluginResolution.Proofs.ToleratedFailures
import PluginResolution.Proofs.FailedCalls
import PluginResolution.Proofs.BlockOutline
import PluginResolution.Proofs.OutlineTokens
import PluginResolution.Proofs.OutlineMeaning
import PluginResolution.Proofs.DirectoryDocument
import PluginResolution.Proofs.DirectorySpelling
import PluginResolution.Proofs.CascadeReports
import PluginResolution.Proofs.SavedResolution
import PluginResolution.Proofs.ReportedFaults
import PluginResolution.Proofs.ExitCodes
import PluginResolution.Proofs.ReplacedFile
import PluginResolution.Proofs.ConcurrentLedger
import PluginResolution.Proofs.CallOrder
import PluginResolution.Proofs.LedgerUpdates
import PluginResolution.Proofs.DraftPlace
import PluginResolution.Proofs.FaultyChanges
import PluginResolution.Proofs.RetrySchedule
import PluginResolution.Proofs.UpdateText
import PluginResolution.Proofs.ValueTexts
import PluginResolution.Proofs.PluginFields
import PluginResolution.Proofs.DirectoryShape
import PluginResolution.Proofs.BlankVersions
import PluginResolution.Proofs.VersionSpelling
import PluginResolution.Proofs.WrittenRoots
import PluginResolution.Proofs.ReadRoots
import PluginResolution.Proofs.RootVariable
import PluginResolution.Proofs.ChosenRoot
import PluginResolution.Proofs.CacheHistory
import PluginResolution.Proofs.MergedFields
import PluginResolution.Proofs.MergedUpdates
import PluginResolution.Proofs.TrimmedText
