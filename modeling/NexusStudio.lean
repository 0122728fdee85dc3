import NexusStudio.Lib.Machine
import NexusStudio.Lib.Exclusion
import NexusStudio.Chat.TurnLock
import NexusStudio.Chat.TurnExclusion
import NexusStudio.Chat.CancelSignal
import NexusStudio.Canvas.EpisodeFence
import NexusStudio.Canvas.SessionTurns
import NexusStudio.Canvas.SessionDelete
import NexusStudio.Generation.Task
import NexusStudio.Generation.Writers
import NexusStudio.Generation.Callback
import NexusStudio.Chat.GatePending
import NexusStudio.Lib.Handler
import NexusStudio.Chat.Replay
import NexusStudio.Chat.Requests
import NexusStudio.Chat.GateKept
import NexusStudio.Chat.TurnClose
import NexusStudio.Lib.EventBus
import NexusStudio.Turn.Events
import NexusStudio.Turn.Sse
import NexusStudio.Turn.Engine
import NexusStudio.Turn.EngineSpec
import NexusStudio.Turn.Frames
import NexusStudio.Streaming.Publisher
import NexusStudio.Workshop.GroupTurn
import NexusStudio.Files.FileOps
import NexusStudio.Lib.Unwinding
import NexusStudio.Workshop.Isolation
import NexusStudio.Chat.RequestReplay
import NexusStudio.Canvas.EpisodeDelete
import NexusStudio.Chat.ConversationDelete
import NexusStudio.Chat.ActiveTurn
import NexusStudio.Chat.TerminalFrame
import NexusStudio.Canvas.Node
import NexusStudio.Canvas.TextGeneration
import NexusStudio.Canvas.BindingKept
import NexusStudio.Chat.GateStored
import NexusStudio.Canvas.SessionLock
import NexusStudio.Files.Confinement
import NexusStudio.Canvas.TurnMessages
import NexusStudio.Lib.Sequence
import NexusStudio.Projects.Episodes
import NexusStudio.Lib.Worklist
import NexusStudio.Workshop.Workflow
import NexusStudio.Chat.Vault
import NexusStudio.Chat.UpgradeInvite
import NexusStudio.Turn.ToolCalls
import NexusStudio.Lib.PathTree
import NexusStudio.Skills.Tree
import NexusStudio.Canvas.Downstream
import NexusStudio.Workshop.ScheduleTick
import NexusStudio.Streaming.ReplayLog
import NexusStudio.Streaming.Subscriber
import NexusStudio.Chat.StartClaim
import NexusStudio.Workshop.AuthorizedOperations
import NexusStudio.Workshop.PublishDiffs
import NexusStudio.Workshop.GenerationSubmit
import NexusStudio.Billing.Grant
import NexusStudio.Billing.Webhook
import NexusStudio.Billing.CreditOnce
import NexusStudio.Streaming.FlushRace
import NexusStudio.Workshop.WorkflowDelete
import NexusStudio.Workshop.Refunds
import NexusStudio.Workshop.TaskOrchestrator
import NexusStudio.Workshop.CapabilityUses
import NexusStudio.Workshop.WorkflowRuns
import NexusStudio.Workshop.RunExecution
import NexusStudio.Canvas.Patch
import NexusStudio.Canvas.Projection
import NexusStudio.Canvas.StaleProjection
import NexusStudio.Canvas.SubmitRaises
import NexusStudio.Llm.TagStream
import NexusStudio.Llm.Assembler
import NexusStudio.Llm.StreamedStep
import NexusStudio.Workshop.TmcMessages
import NexusStudio.Workshop.TaobaoOAuth
import NexusStudio.Canvas.PendingOps
import NexusStudio.Lib.Elimination
import NexusStudio.Workshop.WorkflowOrder
import NexusStudio.Workshop.WorkflowListing
import NexusStudio.Workshop.DefinitionJson
import NexusStudio.Workshop.ScheduleTriggers
import NexusStudio.Lib.JsonRead
import NexusStudio.Streaming.SseCodec
import NexusStudio.Lib.Delimiters
import NexusStudio.Llm.TextFragments
import NexusStudio.Lib.Demultiplex
import NexusStudio.Llm.CallFragments
import NexusStudio.Llm.BuildParams
import NexusStudio.Lib.LastWins
import NexusStudio.Workshop.Gmv
import NexusStudio.Lib.Decimal
import NexusStudio.Workshop.ReportImport
import NexusStudio.Workshop.Money
import NexusStudio.Llm.FrameErrors
import NexusStudio.Llm.ReasoningText
import NexusStudio.Canvas.Precheck
import NexusStudio.Canvas.NodeData
import NexusStudio.Lib.FirstCome
import NexusStudio.Workshop.ArtifactPersist
import NexusStudio.Utils.CacheLock
import NexusStudio.Skills.MovePath
import NexusStudio.Files.PublishGuard
import NexusStudio.Lib.Paging
import NexusStudio.Lib.Recency
import NexusStudio.Utils.LruCache
import NexusStudio.Llm.PlainResponse
import NexusStudio.Chat.MessagePages
import NexusStudio.Generation.TaskPages
import NexusStudio.Workshop.AcceptedArtifacts
import NexusStudio.Workshop.BriefOperations
import NexusStudio.Turn.ToolRegistry
import NexusStudio.Generation.StatusQuery
import NexusStudio.Canvas.NodeSubmit
import NexusStudio.Streaming.Attribution
import NexusStudio.Lib.Latest
import NexusStudio.Workshop.RoomTimeline
import NexusStudio.Chat.GateTrim
import NexusStudio.Turn.EngineEvents
import NexusStudio.Turn.ToolResult
import NexusStudio.Turn.Guards
import NexusStudio.Turn.Budget
import NexusStudio.Auth.RefreshTokens
import NexusStudio.Auth.RegisterCodes
import NexusStudio.Chat.Materialize
import NexusStudio.Workshop.TurnTools
import NexusStudio.Workshop.Roster
import NexusStudio.Workshop.ExpertProposals
