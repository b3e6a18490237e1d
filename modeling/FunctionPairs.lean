import FunctionPairs.Action
import FunctionPairs.CommandLine.Commands
import FunctionPairs.CommandLine.Options
import FunctionPairs.CommandLine.Request
import FunctionPairs.CommandLine.Run
import FunctionPairs.CommandLine.Session
import FunctionPairs.Config
import FunctionPairs.Dataset.Basic
import FunctionPairs.Dataset.Json
import FunctionPairs.Dataset.Shuffle
import FunctionPairs.Dataset.Storage
import FunctionPairs.Decimal
import FunctionPairs.Decompiled
import FunctionPairs.ExampleStore.Basic
import FunctionPairs.ExampleStore.Catalog
import FunctionPairs.Extraction.Artifact
import FunctionPairs.Extraction.Repo
import FunctionPairs.Extraction.Stats
import FunctionPairs.Failure
import FunctionPairs.FileSystem.Basic
import FunctionPairs.FileSystem.Operations
import FunctionPairs.FileSystem.Walk
import FunctionPairs.Function
import FunctionPairs.Identity
import FunctionPairs.Include
import FunctionPairs.Language
import FunctionPairs.LanguageModel
import FunctionPairs.Log
import FunctionPairs.Main
import FunctionPairs.Path
import FunctionPairs.Places
import FunctionPairs.Proofs.Action
import FunctionPairs.Proofs.BodySplit
import FunctionPairs.Proofs.CommandLine.Extract
import FunctionPairs.Proofs.CommandLine.Split
import FunctionPairs.Proofs.Dataset.Appending
import FunctionPairs.Proofs.Dataset.Editing
import FunctionPairs.Proofs.Dataset.Lookups
import FunctionPairs.Proofs.Dataset.Reading
import FunctionPairs.Proofs.Dataset.Rows
import FunctionPairs.Proofs.Dataset.Sorting
import FunctionPairs.Proofs.Dataset.Spelling
import FunctionPairs.Proofs.Dataset.Storage
import FunctionPairs.Proofs.Decompiled.Lines
import FunctionPairs.Proofs.Decompiled.Sections
import FunctionPairs.Proofs.Decompiled.Writing
import FunctionPairs.Proofs.Extraction.Braces
import FunctionPairs.Proofs.Extraction.Cap
import FunctionPairs.Proofs.Extraction.Contribution
import FunctionPairs.Proofs.Extraction.Feeding
import FunctionPairs.Proofs.Extraction.Finishing
import FunctionPairs.Proofs.Extraction.Interruption
import FunctionPairs.Proofs.Extraction.Languages
import FunctionPairs.Proofs.Extraction.Sequence
import FunctionPairs.Proofs.Extraction.Stores
import FunctionPairs.Proofs.FileSystem.Creation
import FunctionPairs.Proofs.FileSystem.Descent
import FunctionPairs.Proofs.FileSystem.Finding
import FunctionPairs.Proofs.FileSystem.Frontier
import FunctionPairs.Proofs.FileSystem.Joining
import FunctionPairs.Proofs.FileSystem.Listing
import FunctionPairs.Proofs.FileSystem.Lookup
import FunctionPairs.Proofs.FileSystem.Placement
import FunctionPairs.Proofs.FileSystem.Removal
import FunctionPairs.Proofs.FileSystem.Soundness
import FunctionPairs.Proofs.FileSystem.Traversal
import FunctionPairs.Proofs.FileSystem.Walks
import FunctionPairs.Proofs.Identity.Keys
import FunctionPairs.Proofs.Identity.Twins
import FunctionPairs.Proofs.Includes.Beside
import FunctionPairs.Proofs.Includes.DepthFirst
import FunctionPairs.Proofs.Includes.Following
import FunctionPairs.Proofs.Includes.Searching
import FunctionPairs.Proofs.Language
import FunctionPairs.Proofs.Logged
import FunctionPairs.Proofs.Path.Route
import FunctionPairs.Proofs.Places.Extent
import FunctionPairs.Proofs.Places.Output
import FunctionPairs.Proofs.Places.Resolution
import FunctionPairs.Proofs.Store.Braces
import FunctionPairs.Proofs.Store.Catalog
import FunctionPairs.Proofs.Store.Counting
import FunctionPairs.Proofs.Store.History
import FunctionPairs.Proofs.Store.Insertion
import FunctionPairs.Proofs.Store.Pending
import FunctionPairs.Proofs.Syntax.Addresses
import FunctionPairs.Proofs.Syntax.Agreement
import FunctionPairs.Proofs.Syntax.Qualification
import FunctionPairs.Proofs.Syntax.Tiling
import FunctionPairs.Proofs.Syntax.Units
import FunctionPairs.Proofs.Text.Boundary
import FunctionPairs.Proofs.Text.Encoding
import FunctionPairs.Proofs.Text.RoundTrip
import FunctionPairs.Proofs.Transformation.Beginning
import FunctionPairs.Proofs.Transformation.Course
import FunctionPairs.Proofs.Transformation.File
import FunctionPairs.Proofs.Transformation.Filling
import FunctionPairs.Proofs.Transformation.Frame
import FunctionPairs.Proofs.Transformation.Mirror
import FunctionPairs.Proofs.Transformation.Naming
import FunctionPairs.Proofs.Transformation.Order
import FunctionPairs.Proofs.Transformation.Outcome
import FunctionPairs.Proofs.Transformation.Rewriting
import FunctionPairs.Proofs.Transformation.Stopping
import FunctionPairs.Proofs.Transformation.Tasks
import FunctionPairs.Proofs.Transformation.Visits
import FunctionPairs.ScrapeError
import FunctionPairs.Syntax.Analyzer
import FunctionPairs.Syntax.Declarator
import FunctionPairs.Syntax.Forest
import FunctionPairs.Syntax.Items
import FunctionPairs.Syntax.Names
import FunctionPairs.Syntax.Token
import FunctionPairs.Syntax.Tree
import FunctionPairs.Text.Blank
import FunctionPairs.Text.Utf8
import FunctionPairs.Toml.Document
import FunctionPairs.Toml.Reader
import FunctionPairs.Toml.Settings
import FunctionPairs.Transformation.Directory
import FunctionPairs.Transformation.File
import FunctionPairs.Transformation.State
import FunctionPairs.Translator.Basic
import FunctionPairs.Translator.Command
import FunctionPairs.Translator.Endpoint
import FunctionPairs.Translator.Filter
import FunctionPairs.Translator.Script
import FunctionPairs.Proofs.Extraction.Counters
import FunctionPairs.Proofs.CommandLine.Pages
import FunctionPairs.Proofs.Extraction.Failures
import FunctionPairs.Proofs.Identity.Truncation
import FunctionPairs.Proofs.Extraction.Roles
import FunctionPairs.Proofs.FileSystem.Making
import FunctionPairs.Proofs.Transformation.Willing
import FunctionPairs.Proofs.Transformation.Completion
