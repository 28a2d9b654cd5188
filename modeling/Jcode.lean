import Jcode.Dag.Progress
import Jcode.Dag.Audit
import Jcode.Dag.Replay
import Jcode.Dag.Extend
import Jcode.Bridge.RoundTrip
import Jcode.Server.Rejection
import Jcode.Server.Frame
import Jcode.Dag.Reseed
import Jcode.Server.SeedReplay
import Jcode.Live.Scheduler
import Jcode.Live.Agree
import Jcode.Schema.Harness
import Jcode.Schema.Match
import Jcode.Schema.Certify
import Jcode.Schema.Programs
import Jcode.Live.Assign
import Jcode.Support.Runs
import Jcode.Swarm.Task
import Jcode.Swarm.Turn
import Jcode.Swarm.Steps
import Jcode.Swarm.Counters
import Jcode.Swarm.Reclaim
import Jcode.Swarm.Requeue
import Jcode.Swarm.TurnEnd
import Jcode.Mutation.Dedup
import Jcode.Mutation.Flights
import Jcode.Mutation.Answers
import Jcode.Mutation.Window
import Jcode.Swarm.Broadcast
import Jcode.Support.Forest
import Jcode.Swarm.Membership
import Jcode.Swarm.SpawnTree
import Jcode.Swarm.Coordinator
import Jcode.Swarm.Persistence
import Jcode.Swarm.Restore
import Jcode.Memory.Graph
import Jcode.Memory.Index
import Jcode.Compaction.Core
import Jcode.Compaction.Manager
import Jcode.Compaction.Session
import Jcode.Compaction.Steps
import Jcode.Compaction.Coverage
import Jcode.Compaction.ToolPairs
import Jcode.Compaction.Estimate
import Jcode.Support.Lease
import Jcode.Swarm.AutoPick
import Jcode.Swarm.Stacking
import Jcode.Memory.Tags
import Jcode.Chat.Message
import Jcode.History.Types
import Jcode.History.Session
import Jcode.History.Persistence
import Jcode.History.ProviderCache
import Jcode.History.Crash
import Jcode.Provider.OpenAiRequest
import Jcode.Provider.OpenAiRepair
import Jcode.Provider.Anthropic
import Jcode.Provider.AnthropicRepair
import Jcode.Dag.Keeping
import Jcode.Server.CommPlan
import Jcode.Server.LivePlan
import Jcode.Server.Approval
import Jcode.Await.Members
import Jcode.Await.Waiters
import Jcode.Await.Deadline
import Jcode.Await.Results
import Jcode.Interrupts.Kept
import Jcode.Schema.Planner
import Jcode.Schema.Executor
import Jcode.Schema.Behavior
import Jcode.Schema.Diff
import Jcode.Background.Status
import Jcode.Background.Manager
import Jcode.Background.Law
import Jcode.Background.Finished
import Jcode.Background.Announced
import Jcode.Background.Alive
import Jcode.Support.Occur
import Jcode.Agent.Recovery
import Jcode.Agent.Stream
import Jcode.Agent.Attempt
import Jcode.Agent.Agree
import Jcode.Agent.Shown
import Jcode.Agent.Rollback
import Jcode.Compaction.Cutoff
import Jcode.Compaction.Prompt
import Jcode.Chat.Images
import Jcode.Live.Target
import Jcode.Support.Nested
import Jcode.Swarm.Channels
import Jcode.Schema.OnePlayer
import Jcode.Schema.Cart
import Jcode.Live.Cycles
import Jcode.Schema.Toggle
import Jcode.Schema.Elimination
import Jcode.Agent.Retry
import Jcode.Agent.Cap
import Jcode.Agent.Reissue
import Jcode.Support.Text
import Jcode.Tool.ApplyPatch
import Jcode.Tool.HunkEffects
import Jcode.Memory.TopK
import Jcode.Memory.Cascade
import Jcode.Support.Fragments
import Jcode.History.Salvage
import Jcode.Support.Json
import Jcode.Provider.StrictSchema
import Jcode.Provider.NullableSchema
import Jcode.History.MemoryProfile
import Jcode.Tool.PatchFormat
import Jcode.Support.Splice
import Jcode.Tool.ChunkEdits
import Jcode.Tool.Patch
import Jcode.Tool.HunkPlaces
import Jcode.Interrupts.Signal
import Jcode.History.CacheTracker
import Jcode.History.RenderWindow
import Jcode.Memory.Pending
import Jcode.Memory.Suppression
import Jcode.Tool.Edit
import Jcode.Provider.AnthropicCache
import Jcode.Provider.OpenAiStream
import Jcode.Provider.OpenAiDelivery
import Jcode.SessionSearch.Snippet
import Jcode.SessionSearch.TokenIndex
import Jcode.Support.Wire
import Jcode.SessionSearch.IndexFile
import Jcode.SessionSearch.IndexUpdate
import Jcode.Provider.RouteDedupe
import Jcode.SessionSearch.ByteSearch
import Jcode.Agent.Marker
import Jcode.Dag.Naming
import Jcode.Import.Transcript
import Jcode.Import.External
import Jcode.History.Recovery
import Jcode.History.Recovered
import Jcode.Support.Tables
import Jcode.Fuzzy.Matcher
import Jcode.Fuzzy.Cells
import Jcode.Fuzzy.Ranking
import Jcode.Storage.Files
import Jcode.Storage.Replaced
import Jcode.Dag.Known
import Jcode.Live.Stall
import Jcode.Swarm.Stall
import Jcode.Dag.Ownership
import Jcode.History.RecoveredText
import Jcode.Schema.Provider
import Jcode.Schema.Learning
import Jcode.Dag.Attended
import Jcode.Dag.Finish
import Jcode.Live.NewlyReady
import Jcode.Tool.MultiEdit
import Jcode.Provider.OpenAiChunks
import Jcode.Tool.UnifiedDiff
