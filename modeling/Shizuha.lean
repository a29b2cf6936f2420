import Shizuha.Proofs.Shrinking
import Shizuha.Proofs.ToolPairs
import Shizuha.State.Compaction
import Shizuha.State.SummaryQuality
import Shizuha.Prompt.Context
import Shizuha.Process.Env
import Shizuha.Provider.Models
import Shizuha.Effect
import Shizuha.Agent.Types
import Shizuha.Js.JsonRoundTrip
import Shizuha.Proofs.AnchorSurvival
import Shizuha.Proofs.MessageRoundTrip
import Shizuha.Proofs.StoreCases
import Shizuha.Telemetry.PrefixFingerprint
import Shizuha.Proofs.WirePrefix
import Shizuha.Proofs.Transcript
import Shizuha.Proofs.KillSwitch
import Shizuha.Proofs.TaskLifecycle
import Shizuha.Gateway.DeliveryQueue
import Shizuha.Proofs.TaskOutput
import Shizuha.Proofs.DeliveredOnce
import Shizuha.Proofs.CronRunaway
import Shizuha.Proofs.PatchHunks
import Shizuha.Proofs.CallPairing
import Shizuha.Proofs.StreamSanitizer
import Shizuha.Proofs.Reconciler
import Shizuha.Proofs.RuntimePlan
import Shizuha.Proofs.ProjectionAuthority
import Shizuha.Proofs.ChatConvergence
import Shizuha.Proofs.ReadReceipts
import Shizuha.Proofs.SentOnce
import Shizuha.Proofs.InboundOnce
import Shizuha.Proofs.Lifecycle
import Shizuha.Proofs.LostUpdate
import Shizuha.Proofs.InboxWaiting
import Shizuha.Proofs.InboxOrder
import Shizuha.Proofs.InboxConservation
import Shizuha.Proofs.InboxLedger
import Shizuha.Proofs.InboxHeartbeats
import Shizuha.Daemon.RuntimeRollDeferral
import Shizuha.Daemon.HarnessRollState
import Shizuha.Proofs.HarnessRollState
import Shizuha.Daemon.RuntimeReconcileBackoff
import Shizuha.Proofs.RepairSingleFlight
import Shizuha.Daemon.DaemonLinkClient
import Shizuha.Proofs.LaneFence
import Shizuha.Js.Utf8
import Shizuha.Tools.Bash
import Shizuha.Proofs.BashOutput
import Shizuha.Js.Stream
import Shizuha.Js.JsonSpace
import Shizuha.LocalCore.Protocol
import Shizuha.Proofs.SseFrames
import Shizuha.Vscode.FileDiff
import Shizuha.Proofs.ProposedEdits
import Shizuha.Pulse.LocalStore
import Shizuha.Proofs.DirtyTasks
import Shizuha.Proofs.ItemKeys
import Shizuha.Proofs.RecurringTasks
import Shizuha.Permissions.Engine
import Shizuha.Proofs.NetworkCeiling
import Shizuha.Paging
import Shizuha.Proofs.ConversationLog
import Shizuha.Memory.Index
import Shizuha.Proofs.IndexCrashes
import Shizuha.Proofs.AckedReplies
import Shizuha.Proofs.ShownReplies
import Shizuha.Proofs.ThinkSplit
import Shizuha.State.TurnRecovery
import Shizuha.Agent.ExpensiveTurnGuard
import Shizuha.Proofs.ReplayPacing
import Shizuha.Agent.LoopDetector
import Shizuha.Tools.ApplyPatch
import Shizuha.Proofs.PatchMoves
import Shizuha.Proofs.PatchRoundTrip
import Shizuha.Js.RegexLanguage
import Shizuha.Proofs.CronNext
import Shizuha.Gateway.DeliveryRecovery
import Shizuha.Proofs.DeferredDeliveries
import Shizuha.Gateway.SessionGeneration
import Shizuha.Proofs.SessionFence
import Shizuha.Gateway.MessageAdmission
import Shizuha.Gateway.IsolatedCron
import Shizuha.Proofs.RequeuedRows
import Shizuha.Proofs.OneRowPerMessage
import Shizuha.Proofs.ToolCallSplits
import Shizuha.Proofs.RetryBudget
import Shizuha.Proofs.KeySplitting
import Shizuha.Proofs.MergedExport
import Shizuha.Daemon.AgentState
import Shizuha.Proofs.StoreSeeding
import Shizuha.Proofs.DemotedTask
import Shizuha.Proofs.ProjectionEncoding
import Shizuha.Proofs.ContextGate
import Shizuha.Proofs.CompactionTrigger
import Shizuha.Js.Replacement
import Shizuha.Proofs.WorkflowTransitions
import Shizuha.Proofs.OutputDecoding
import Shizuha.Proofs.ChunkCover
import Shizuha.Proofs.MemoryEntries
import Shizuha.Proofs.TemplateExpansion
import Shizuha.Proofs.HeartbeatStreak
import Shizuha.Proofs.VerifiedLabels
import Shizuha.Proofs.SearchAgreement
import Shizuha.Proofs.SafeSplits
import Shizuha.Proofs.CronIsolation
import Shizuha.Proofs.PlainTextStream
import Shizuha.Proofs.DiffRenderRuns
import Shizuha.Proofs.CredentialRequests
import Shizuha.Proofs.ConnectDelivery
