import DartReach.Analysis
import DartReach.CommandLine.Command
import DartReach.CommandLine.Flag
import DartReach.CommandLine.Run
import DartReach.Discovery
import DartReach.Files.FileSystem
import DartReach.Files.Lookup
import DartReach.Files.Node
import DartReach.Files.SystemError
import DartReach.Glob.Compile
import DartReach.Glob.Matcher
import DartReach.Glob.Pattern
import DartReach.Host
import DartReach.Ignore.Rule
import DartReach.Ignore.Token
import DartReach.Ignore.Wildcard
import DartReach.ImportGraph
import DartReach.Log
import DartReach.Main
import DartReach.Number.Binary64
import DartReach.Number.Decimal
import DartReach.Number.Duration
import DartReach.Path
import DartReach.Reachability
import DartReach.Report.Basic
import DartReach.Report.Json
import DartReach.Report.PlainText
import DartReach.Report.Sink
import DartReach.Settings.Basic
import DartReach.Settings.EnvironmentFile
import DartReach.Settings.Layers
import DartReach.Settings.Load
import DartReach.Settings.Pubspec
import DartReach.Settings.Store
import DartReach.Source.Declaration
import DartReach.Source.Reference
import DartReach.Summary
import DartReach.Text.Base64
import DartReach.Text.Bytes
import DartReach.Text.Csv
import DartReach.Text.Printable
import DartReach.Text.Quoted
import DartReach.Text.Utf8
import DartReach.Yaml.Cursor
import DartReach.Yaml.Error
import DartReach.Yaml.Node
import DartReach.Yaml.Node.Grammar
import DartReach.Yaml.Plain
import DartReach.Yaml.Source
import DartReach.Yaml.Timestamp
import DartReach.Yaml.Token
import DartReach.Yaml.Token.Lexer
import DartReach.Yaml.Token.Scalar
import DartReach.Yaml.Token.Tag
import DartReach.Yaml.Value
import DartReach.Yaml.Writer
import DartReach.Proofs.ByteOrder
import DartReach.Proofs.ByteRuns
import DartReach.Proofs.DeclarationSpans
import DartReach.Proofs.DeclarationTexts
import DartReach.Proofs.PathNormalForm
import DartReach.Proofs.PathEvaluation
import DartReach.Proofs.ReferenceMeaning
import DartReach.Proofs.GraphSearch
import DartReach.Proofs.SearchOrder
import DartReach.Proofs.TreeShape
import DartReach.Proofs.DiscoveryWalk
import DartReach.Proofs.DiscoveryExact
import DartReach.Proofs.LibraryGraph
import DartReach.Proofs.RunReachability
import DartReach.Proofs.DeadFiles
import DartReach.Proofs.WiderRuns
import DartReach.Proofs.Relocation
import DartReach.Proofs.RunFailure
import DartReach.Proofs.ReportPaths
import DartReach.Proofs.Utf8Codec
import DartReach.Proofs.JsonGrammar
import DartReach.Proofs.JsonReport
import DartReach.Proofs.TextReport
import DartReach.Proofs.SettingPriority
import DartReach.Proofs.FileWriting
import DartReach.Proofs.YamlScalar
import DartReach.Proofs.YamlTokens
import DartReach.Proofs.YamlDocument
import DartReach.Proofs.SettingsRoundTrip
import DartReach.Proofs.Repetition
import DartReach.Proofs.UnclosedDeclarations
import DartReach.Proofs.RelativePaths
import DartReach.Proofs.WorkingDirectory
import DartReach.Proofs.PackagePlace
import DartReach.Proofs.RedundantSegments
import DartReach.Proofs.StarterFile
import DartReach.Proofs.WalkSteps
import DartReach.Proofs.SearchMoments
