import PiqoServer.Library.SortedMap
import PiqoServer.Library.Outcome
import PiqoServer.Library.Program
import PiqoServer.Library.Broadcast
import PiqoServer.Library.LockTable
import PiqoServer.Library.Schedule
import PiqoServer.Library.Custody
import PiqoServer.Library.Paging
import PiqoServer.Library.Tasks
import PiqoServer.Library.Forest
import PiqoServer.Library.Placement
import PiqoServer.Library.Framing
import PiqoServer.Library.Utf8
import PiqoServer.Library.TornText
import PiqoServer.Library.Replacement
import PiqoServer.Core.Text
import PiqoServer.Core.Json
import PiqoServer.Core.Event
import PiqoServer.Core.Encoding
import PiqoServer.Core.Session
import PiqoServer.Core.Replay
import PiqoServer.Core.Messages
import PiqoServer.Core.History
import PiqoServer.Core.Repetition
import PiqoServer.Storage.Database
import PiqoServer.Storage.Columns
import PiqoServer.Storage.Coherence
import PiqoServer.Storage.Operations
import PiqoServer.Storage.Sequential
import PiqoServer.Storage.Forks
import PiqoServer.Storage.View
import PiqoServer.Storage.Interleaving
import PiqoServer.Storage.Batches
import PiqoServer.Storage.CacheCoherence
import PiqoServer.Storage.Statements
import PiqoServer.Storage.Listing
import PiqoServer.Hub.EventHub
import PiqoServer.Hub.Stream
import PiqoServer.Hub.Frames
import PiqoServer.Server.Config
import PiqoServer.Server.Body
import PiqoServer.Server.Transcript
import PiqoServer.Server.ConfigFile
import PiqoServer.Server.ConfigManager
import PiqoServer.Server.RequestBody
import PiqoServer.Server.Operations
import PiqoServer.Server.Actions
import PiqoServer.Server.Compaction
import PiqoServer.Server.Runs
import PiqoServer.Server.ToolResults
import PiqoServer.Server.Approvals
import PiqoServer.Server.Permits
import PiqoServer.Server.Publishing
import PiqoServer.Server.Advertisement
import PiqoServer.Server.Delegation
import PiqoServer.Server.DelegationForest
import PiqoServer.Server.Startup
import PiqoServer.Server.Recovery
import PiqoServer.Server.ContextWindow
import PiqoServer.Server.Summaries
import PiqoServer.Server.Worker
import PiqoServer.Server.Deliveries
import PiqoServer.Server.Turns
import PiqoServer.Server.Responses
import PiqoServer.Server.Execution
import PiqoServer.Server.Iterations
import PiqoServer.Server.Invariants
import PiqoServer.Server.Completion
import PiqoServer.Server.SessionLocks
import PiqoServer.Server.Requests
import PiqoServer.Server.Shutdown
import PiqoServer.Server.Journal
import PiqoServer.Server.Reception
import PiqoServer.Server.Transcription
import PiqoServer.Server.Transport
import PiqoServer.Server.ChatStream
import PiqoServer.Server.ResponsesStream
import PiqoServer.Server.Sse
import PiqoServer.Tools.Workspace
import PiqoServer.Tools.Arguments
import PiqoServer.Tools.Output
import PiqoServer.Tools.Disk
import PiqoServer.Tools.Editing
import PiqoServer.Tools.Occurrences
import PiqoServer.Tools.Reading
import PiqoServer.Mcp.PublicNames
import PiqoServer.Mcp.Manager
import PiqoServer.Mcp.Children
import PiqoServer.Storage.Deletion
import PiqoServer.Library.Overwriting
import PiqoServer.Server.Admission
import PiqoServer.Server.Authentication
import PiqoServer.Server.FrontMatter
import PiqoServer.Server.Providers
import PiqoServer.Server.Leftovers
import PiqoServer.Server.Discovery
import PiqoServer.Library.Licences
import PiqoServer.Server.Work
import PiqoServer.Server.Executions
import PiqoServer.Server.Attempts
import PiqoServer.Library.TextFrames
import PiqoServer.Hub.EventText
import PiqoServer.Cli.Follow
import PiqoServer.Server.TurnLimit
