import PackML.Library.TransitionSystem
import PackML.Library.History
import PackML.Library.Statechart
import PackML.Library.SharedPromise
import PackML.Library.Follower
import PackML.Library.Sweeps
import PackML.Machine.Common
import PackML.Machine.States
import PackML.Machine.Transitions
import PackML.Machine.StatesGenerator
import PackML.Machine.ModeSwitcher
import PackML.Machine.FlatTable
import PackML.Machine.EventProcessing
import PackML.Machine.ModeSafety
import PackML.Execution.Execution
import PackML.Execution.Operations
import PackML.Execution.Completions
import PackML.Execution.Accounting
import PackML.Execution.InstalledMode
import PackML.Execution.KeptCompletions
import PackML.Execution.Escape
import PackML.Execution.CommandCalls
import PackML.Execution.CallVerdicts
import PackML.Execution.TruthfulVerdicts
import PackML.Execution.ModeChangesAtRest
import PackML.Execution.Lifecycle
import PackML.Execution.HangingCalls
import PackML.Execution.CallsReturn
import PackML.Execution.BoundOperations
import PackML.Manager.ClientRounds
import PackML.Manager.WaitAllFutures
import PackML.Manager.ChangeState
import PackML.Manager.Answers
import PackML.Manager.SMNode
import PackML.Manager.PublishedStatus
import PackML.Manager.NodeInterface
import PackML.Manager.StatusCallbacks
import PackML.Manager.ModeRequests
import PackML.Manager.Network
import PackML.Manager.Agreement
import PackML.Manager.Executors
import PackML.Manager.FailedRounds
import PackML.Manager.UnanimousRounds
import PackML.Manager.CommandServices
import PackML.Manager.ThroughTransition
import PackML.Manager.ServicesAgree
import PackML.Execution.EventOrder
import PackML.Execution.CommandedProduction
import PackML.Execution.Quiescence
import PackML.Execution.ResponseBound
import PackML.Library.BinaryRounding
import PackML.Manager.StatusTimes
import PackML.Plugin.PackmlWidget
import PackML.Plugin.OperatorPanel
import PackML.Plugin.Presses
import PackML.Execution.Steering
import PackML.Execution.CycleComparison
import PackML.Manager.ModeServices
import PackML.Execution.RunToCompletion
import PackML.Manager.LostStatuses
import PackML.Manager.OfflineNodes
import PackML.Library.FlagReadings
import PackML.Plc.PackmlPlcListener
import PackML.Plc.AnswersInOrder
import PackML.Plc.SweepCounts
import PackML.Library.Stutter
import PackML.Manager.Announcements
import PackML.Manager.SeenStatuses
import PackML.Manager.StateHistory
import PackML.Manager.NodesFollowTable
import PackML.Manager.ModeHistory
import PackML.Manager.SameOrder
import PackML.Execution.LifecycleAccounts
