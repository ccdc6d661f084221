import VolundCode.Lib.Lines
import VolundCode.Lib.Assign
import VolundCode.Lib.Run
import VolundCode.Lib.Decimal
import VolundCode.Lib.Json
import VolundCode.Lib.Ecma
import VolundCode.Gateway.TurnQueue
import VolundCode.Shared.FileLock
import VolundCode.Permission.Rules
import VolundCode.Permission.Manager
import VolundCode.ProviderKit.Message
import VolundCode.Context.SlidingWindow
import VolundCode.Lib.Effect
import VolundCode.Core.Session
import VolundCode.Core.Events
import VolundCode.Core.Runner
import VolundCode.Core.Frame
import VolundCode.Core.Answered
import VolundCode.Core.Replay
import VolundCode.Core.Ledger
import VolundCode.Core.Resume
import VolundCode.Lib.Fault
import VolundCode.Storage.Snapshot
import VolundCode.Storage.SessionStore
import VolundCode.Storage.Backup
import VolundCode.Storage.BackupHistory
import VolundCode.Storage.BackupRestore
import VolundCode.Storage.BackupUndo
import VolundCode.Storage.MemoryRecord
import VolundCode.Storage.MemoryIndex
import VolundCode.Storage.BackupRoot
import VolundCode.Tools.MutateFiles
import VolundCode.Core.Evolution
import VolundCode.Storage.EvolutionStore
import VolundCode.Core.EvolutionEngine
import VolundCode.Core.EvolutionAdmission
import VolundCode.Core.EvolutionStopping
import VolundCode.Core.EvolutionRestart
import VolundCode.Lib.Frontmatter
import VolundCode.Storage.MemoryChecks
import VolundCode.Storage.MarkdownMemory
import VolundCode.Storage.MarkdownPersistence
import VolundCode.Lib.Utf8
import VolundCode.AppRuntime.SessionPolicy
import VolundCode.Router.FallbackRouter
import VolundCode.Subagent.Dispatcher
import VolundCode.Subagent.Accounting
import VolundCode.Subagent.Cancellation
import VolundCode.Permission.Answers
import VolundCode.Config.Schema
import VolundCode.Lib.JsonPath
import VolundCode.Config.Layers
import VolundCode.Tools.Sessions
import VolundCode.Config.Toml
import VolundCode.Config.TomlValues
import VolundCode.Lib.JsonLeaves
import VolundCode.Config.TomlLines
import VolundCode.Config.TomlQuotes
import VolundCode.Config.TomlFiles
import VolundCode.Config.TomlLeaves
import VolundCode.Config.TomlPlain
import VolundCode.Config.TomlEdits
import VolundCode.Gateway.ObserveTurn
import VolundCode.Gateway.TurnHold
import VolundCode.Gateway.RemoteHub
import VolundCode.WebServer.SessionHub
import VolundCode.Gateway.WebSocket
import VolundCode.Gateway.WebSocketMessages
import VolundCode.Gateway.WebSocketBound
import VolundCode.RemoteLink.Lifecycle
import VolundCode.Gateway.Pairing
import VolundCode.Gateway.Uplink
import VolundCode.Gateway.UplinkConvergence
import VolundCode.Client.Envelope
import VolundCode.Client.SessionStream
import VolundCode.Client.Chat
import VolundCode.Client.Agreement
import VolundCode.Client.Redelivery
import VolundCode.AppRuntime.Scheduler
import VolundCode.Cli.Daemon
import VolundCode.Cli.DaemonWindows
import VolundCode.Cli.DaemonLock
import VolundCode.Core.StreamError
import VolundCode.Lib.IsoTime
import VolundCode.Storage.MemoryService
import VolundCode.Storage.MemoryVersions
import VolundCode.Storage.MemoryAttachments
import VolundCode.Storage.MemoryTransfer
import VolundCode.Storage.MemoryAtomicity
import VolundCode.Lib.Framing
import VolundCode.Lib.JsonSpacing
import VolundCode.Lib.TextDecoder
import VolundCode.McpClient.Transports
import VolundCode.Lib.Dynamic
import VolundCode.Provider.Stream
import VolundCode.Provider.Parsers
import VolundCode.Lib.SlidingWindow
import VolundCode.Tools.WebFetch
import VolundCode.Lib.Promises
import VolundCode.NativeBridge.Ipc
import VolundCode.PluginRuntime.BridgeServer
import VolundCode.Lib.Occurrences
import VolundCode.NativeBridge.Search
import VolundCode.AppRuntime.PluginState
import VolundCode.AppRuntime.PluginStateRuns
import VolundCode.Lib.CodeUnits
import VolundCode.Tools.Edit
import VolundCode.Tools.EditFrame
import VolundCode.Lib.CommonSubsequence
import VolundCode.Shared.Diff
import VolundCode.Shared.Sanitize
import VolundCode.Storage.EvolutionRollback
import VolundCode.Core.PromptComposer
import VolundCode.Provider.CallIds
import VolundCode.Core.ToolIds
import VolundCode.Lib.Ownership
import VolundCode.Storage.EvolutionLock
import VolundCode.Storage.LockedStore
import VolundCode.Storage.SnapshotFile
import VolundCode.Storage.MemoryDirectory
import VolundCode.Storage.TaskStore
import VolundCode.Storage.FileWriters
import VolundCode.Storage.TaskCursors
import VolundCode.AppRuntime.SessionRelease
import VolundCode.Core.Untrusted
import VolundCode.Lib.Numeric
import VolundCode.Subagent.BudgetValues
import VolundCode.AppRuntime.ScheduleZones
import VolundCode.Shared.Hunks
import VolundCode.Lib.Sorting
import VolundCode.Storage.IndexHistories
import VolundCode.Lib.Base64
import VolundCode.Lib.Paging
import VolundCode.Storage.MemoryListing
import VolundCode.Lib.PosixPath
import VolundCode.Storage.PromptLoader
import VolundCode.Core.Sticky
import VolundCode.AppRuntime.McpFatigue
import VolundCode.Client.Spinning
import VolundCode.Client.Timeline
import VolundCode.Storage.ImportIds
import VolundCode.AppRuntime.Reflection
import VolundCode.Router.CostAware
import VolundCode.Context.Semantic
import VolundCode.Storage.PinnedPrompt
