import VaultConsole.Config.Basic
import VaultConsole.Config.Environment
import VaultConsole.Config.FromJson
import VaultConsole.Config.FromToml
import VaultConsole.Config.Reading
import VaultConsole.Config.Saving
import VaultConsole.Config.Search
import VaultConsole.Config.Setting
import VaultConsole.Console.Command
import VaultConsole.Console.Dialogue
import VaultConsole.Console.Run
import VaultConsole.Console.Start
import VaultConsole.Decimal.Binary64
import VaultConsole.Decimal.Numeral
import VaultConsole.Decimal.Power
import VaultConsole.Decimal.Rounded
import VaultConsole.Decimal.Shortest
import VaultConsole.Decimal.Text
import VaultConsole.Document
import VaultConsole.Document.Lookup
import VaultConsole.Engine
import VaultConsole.Files.Basic
import VaultConsole.Files.Components
import VaultConsole.Files.Fault
import VaultConsole.Files.Path
import VaultConsole.Files.Update
import VaultConsole.Files.Walk
import VaultConsole.FrontMatter
import VaultConsole.Json.Basic
import VaultConsole.Json.Printer
import VaultConsole.Logging.Event
import VaultConsole.Logging.Filter
import VaultConsole.Lua.Action
import VaultConsole.Lua.Arithmetic
import VaultConsole.Lua.Bare
import VaultConsole.Lua.Chunk
import VaultConsole.Lua.Code
import VaultConsole.Lua.Export
import VaultConsole.Lua.Growth
import VaultConsole.Lua.Heap
import VaultConsole.Lua.Lexer
import VaultConsole.Lua.Library.Arguments
import VaultConsole.Lua.Library.Base
import VaultConsole.Lua.Library.Dispatch
import VaultConsole.Lua.Library.Format
import VaultConsole.Lua.Library.Globals
import VaultConsole.Lua.Library.Host
import VaultConsole.Lua.Library.Loading
import VaultConsole.Lua.Library.Mathematics
import VaultConsole.Lua.Library.Pack
import VaultConsole.Lua.Library.Packages
import VaultConsole.Lua.Library.Streams
import VaultConsole.Lua.Library.Strings
import VaultConsole.Lua.Library.System
import VaultConsole.Lua.Library.Tables
import VaultConsole.Lua.Library.Unicode
import VaultConsole.Lua.Machine.Calls
import VaultConsole.Lua.Machine.State
import VaultConsole.Lua.Machine.Step
import VaultConsole.Lua.Metamethod
import VaultConsole.Lua.Number
import VaultConsole.Lua.Parser
import VaultConsole.Lua.Pattern
import VaultConsole.Lua.Platform
import VaultConsole.Lua.Resolve
import VaultConsole.Lua.Scope
import VaultConsole.Lua.Session
import VaultConsole.Lua.Storage
import VaultConsole.Lua.Syntax
import VaultConsole.Lua.Table
import VaultConsole.Lua.Token
import VaultConsole.Lua.Value
import VaultConsole.Main
import VaultConsole.Script.About
import VaultConsole.Script.Capture
import VaultConsole.Script.Error
import VaultConsole.Script.Value
import VaultConsole.Text.Blank
import VaultConsole.Text.Bytes
import VaultConsole.Text.Lines
import VaultConsole.Text.Pieces
import VaultConsole.Text.Quoted
import VaultConsole.Text.Shapeless
import VaultConsole.Text.Slice
import VaultConsole.Text.Utf8
import VaultConsole.Toml.Basic
import VaultConsole.Toml.Document
import VaultConsole.Toml.Quoting
import VaultConsole.Toml.Scalar
import VaultConsole.Toml.Statement
import VaultConsole.Toml.Text
import VaultConsole.Vault.Basic
import VaultConsole.Vault.Directory
import VaultConsole.Vault.Memory
import VaultConsole.Yaml.Basic
import VaultConsole.Yaml.Character
import VaultConsole.Yaml.Cursor
import VaultConsole.Yaml.Fault
import VaultConsole.Yaml.Lexer
import VaultConsole.Yaml.Node
import VaultConsole.Yaml.Reader
import VaultConsole.Yaml.Resolution
import VaultConsole.Yaml.Scalar
import VaultConsole.Yaml.Token
import VaultConsole.Proofs.EngineEvents
import VaultConsole.Proofs.EngineLifecycle
import VaultConsole.Proofs.Variables
import VaultConsole.Proofs.Utf8
import VaultConsole.Proofs.Resolution
import VaultConsole.Proofs.Walk
import VaultConsole.Proofs.Listing
import VaultConsole.Proofs.Machine.Calls
import VaultConsole.Proofs.Machine.Operations
import VaultConsole.Proofs.Machine.Steps
import VaultConsole.Proofs.Results
import VaultConsole.Proofs.Machine.Levels
import VaultConsole.Proofs.Machine.Returns
import VaultConsole.Proofs.Machine.Uncaught
import VaultConsole.Proofs.Code
import VaultConsole.Proofs.Machine.Actions
import VaultConsole.Proofs.Runner.Source
import VaultConsole.Proofs.Runner.Handler
import VaultConsole.Proofs.Runner.Calls
import VaultConsole.Proofs.Runner.Evaluation
import VaultConsole.Proofs.Messages
import VaultConsole.Proofs.Runner.Sessions
import VaultConsole.Proofs.Globals
import VaultConsole.Proofs.Runner.Start
import VaultConsole.Proofs.Failures
import VaultConsole.Proofs.Vault.History
import VaultConsole.Proofs.Reset
import VaultConsole.Proofs.Reconfiguration
import VaultConsole.Proofs.Transcript
import VaultConsole.Proofs.Saving
import VaultConsole.Proofs.Vault.Bridge
import VaultConsole.Proofs.Paths
import VaultConsole.Proofs.Vault.Tree
import VaultConsole.Proofs.Vault.Agreement
import VaultConsole.Proofs.Lexer
import VaultConsole.Proofs.Parsing
import VaultConsole.Proofs.Grammar
import VaultConsole.Proofs.ExpressionFirst
import VaultConsole.Proofs.Opening
import VaultConsole.Proofs.Documents
import VaultConsole.Proofs.FrontMatter
import VaultConsole.Proofs.Export.Objects
import VaultConsole.Proofs.PathParts
import VaultConsole.Proofs.OwnPaths
import VaultConsole.Proofs.Causes
import VaultConsole.Proofs.Renaming
import VaultConsole.Proofs.ChunkNames
import VaultConsole.Proofs.Vault.Waiting
import VaultConsole.Proofs.Suspensions
import VaultConsole.Proofs.Json.Values
import VaultConsole.Proofs.Yaml.Scripts
import VaultConsole.Proofs.Conversions
import VaultConsole.Proofs.Buffer
import VaultConsole.Proofs.Overrides
import VaultConsole.Proofs.Confinement
import VaultConsole.Proofs.Yaml.Bare
import VaultConsole.Proofs.Yaml.Blocks
import VaultConsole.Proofs.Endings
