import ArtifactGraph.ApplicationModel
import ArtifactGraph.Assembly
import ArtifactGraph.BuildModel
import ArtifactGraph.BuildModel.File
import ArtifactGraph.Calendar
import ArtifactGraph.Collection
import ArtifactGraph.CommandLine
import ArtifactGraph.Configuration
import ArtifactGraph.Console
import ArtifactGraph.Coordinates
import ArtifactGraph.DeclaredDependency
import ArtifactGraph.DirectDependency
import ArtifactGraph.EffectiveModel
import ArtifactGraph.EffectiveModel.Fault
import ArtifactGraph.EffectiveModel.Lineage
import ArtifactGraph.Event
import ArtifactGraph.Expression
import ArtifactGraph.Extraction
import ArtifactGraph.Failure
import ArtifactGraph.Files
import ArtifactGraph.Files.Path
import ArtifactGraph.Files.Tree
import ArtifactGraph.Flags
import ArtifactGraph.Json
import ArtifactGraph.Json.Printer
import ArtifactGraph.Json.Reader
import ArtifactGraph.Json.Record
import ArtifactGraph.LaunchMode
import ArtifactGraph.Locator
import ArtifactGraph.Log
import ArtifactGraph.Log.Filter
import ArtifactGraph.Main
import ArtifactGraph.NameMap
import ArtifactGraph.Pom
import ArtifactGraph.Program
import ArtifactGraph.Proofs.Assembling
import ArtifactGraph.Proofs.Containment
import ArtifactGraph.Proofs.Cycles
import ArtifactGraph.Proofs.Edges
import ArtifactGraph.Proofs.Expansion
import ArtifactGraph.Proofs.Extracting
import ArtifactGraph.Proofs.Imports
import ArtifactGraph.Proofs.Inheritance
import ArtifactGraph.Proofs.Management
import ArtifactGraph.Proofs.Memory
import ArtifactGraph.Proofs.Missing
import ArtifactGraph.Proofs.Nearest
import ArtifactGraph.Proofs.Nodes
import ArtifactGraph.Proofs.Origins
import ArtifactGraph.Proofs.Records
import ArtifactGraph.Proofs.Runs
import ArtifactGraph.Proofs.Scanning
import ArtifactGraph.Proofs.Sessions
import ArtifactGraph.Proofs.Settling
import ArtifactGraph.Proofs.Shelves
import ArtifactGraph.Proofs.TestScope
import ArtifactGraph.Proofs.Turns
import ArtifactGraph.Reconciliation
import ArtifactGraph.Report
import ArtifactGraph.Report.Json
import ArtifactGraph.Report.Markdown
import ArtifactGraph.Report.Output
import ArtifactGraph.Repository
import ArtifactGraph.Repository.Local
import ArtifactGraph.Repository.Part
import ArtifactGraph.Repository.Remote
import ArtifactGraph.ScopePolicy
import ArtifactGraph.Settings
import ArtifactGraph.Text
import ArtifactGraph.Text.Digits
import ArtifactGraph.Workspace
import ArtifactGraph.Xml
import ArtifactGraph.Xml.Content
import ArtifactGraph.Xml.Fields
import ArtifactGraph.Xml.Namespaces
import ArtifactGraph.Xml.Reader
import ArtifactGraph.Yaml
import ArtifactGraph.Yaml.Place
import ArtifactGraph.Yaml.Reader
import ArtifactGraph.Yaml.Scalar
import ArtifactGraph.Proofs.ImportGraph
import ArtifactGraph.Proofs.Nesting
import ArtifactGraph.Proofs.Memoization
import ArtifactGraph.Proofs.Seeding
import ArtifactGraph.Proofs.DirectFlags
import ArtifactGraph.Proofs.Accounting
import ArtifactGraph.Proofs.Places
import ArtifactGraph.Proofs.Markup
import ArtifactGraph.Proofs.WrittenFields
import ArtifactGraph.Proofs.WrittenPom
import ArtifactGraph.Proofs.Strictness
import ArtifactGraph.Proofs.Rescanning
import ArtifactGraph.Proofs.Passes
import ArtifactGraph.Proofs.OwnCoordinates
import ArtifactGraph.Proofs.Requests
import ArtifactGraph.Proofs.Transparency
import ArtifactGraph.Proofs.NearestFirst
import ArtifactGraph.Proofs.ParentChains
import ArtifactGraph.Proofs.LengthLimit
import ArtifactGraph.Proofs.TableRows
import ArtifactGraph.Proofs.Declaring
import ArtifactGraph.Proofs.Filling
import ArtifactGraph.Proofs.Retries
import ArtifactGraph.Proofs.DistinctUrls
import ArtifactGraph.Proofs.MissingRows
import ArtifactGraph.Proofs.JsonTexts
import ArtifactGraph.Proofs.JsonPrinting
import ArtifactGraph.Proofs.JsonRecords
import ArtifactGraph.ApplicationModel.Indexed
import ArtifactGraph.Proofs.OwnBuilds
import ArtifactGraph.Proofs.FlagLists
import ArtifactGraph.Proofs.CheckedSettings
import ArtifactGraph.Proofs.Indexing
