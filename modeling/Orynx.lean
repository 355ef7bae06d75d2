import Orynx.Lib.Machine
import Orynx.Lib.Table
import Orynx.Lib.Successors
import Orynx.Lib.Gate
import Orynx.Lib.Verdict
import Orynx.Access.Permission
import Orynx.Access.OwnerControl
import Orynx.Attribution.Classify
import Orynx.Task.Row
import Orynx.Task.Queries
import Orynx.Task.System
import Orynx.Task.Capacity
import Orynx.Task.FailTask
import Orynx.Task.ClaimCall
import Orynx.Task.Dispatch
import Orynx.Task.Promote
import Orynx.Task.EmptyClaim
import Orynx.Attribution.Enqueue
import Orynx.Attribution.Chain
import Orynx.Routing.Enqueue
import Orynx.Routing.Outcome
import Orynx.Task.Plan
import Orynx.Routing.AtLeastOnce
import Orynx.Chat.Settle
import Orynx.Chat.Outcome
import Orynx.Retry.Chain
import Orynx.Lib.Window
import Orynx.Task.RunCap
import Orynx.Scheduler.Execution
import Orynx.Scheduler.Fencing
import Orynx.Scheduler.Runner
import Orynx.Scheduler.Planner
import Orynx.Scheduler.Stranded
import Orynx.Scheduler.Reentry
import Orynx.Scheduler.NewestDue
import Orynx.Issue.Hierarchy
import Orynx.Autopilot.Run
import Orynx.Autopilot.Ended
import Orynx.Autopilot.Ingress
import Orynx.Autopilot.Dispatch
import Orynx.Lib.Exclusive
import Orynx.Autopilot.Effect
import Orynx.Autopilot.Occurrence
import Orynx.Issue.Update
import Orynx.Lib.Closure
import Orynx.Lib.Waiting
import Orynx.Issue.Spine
import Orynx.Issue.Deadlock
import Orynx.Issue.Blocked
import Orynx.GitHub.PullRequest
import Orynx.Lib.Latest
import Orynx.Lib.Parties
import Orynx.GitHub.CheckSuite
import Orynx.Issue.ChildDone
import Orynx.Issue.ServerMoves
import Orynx.Issue.StageWake
import Orynx.GitHub.Identifier
import Orynx.GitHub.AutoClose
import Orynx.Lib.Regex
import Orynx.Lib.Spaces
import Orynx.Issue.DuplicateGuard
import Orynx.Lib.View
import Orynx.Usage.Tables
import Orynx.Usage.Triggers
import Orynx.Usage.Rollup
import Orynx.Pattern
import Orynx.Approval.Classify
import Orynx.Approval.Gate
import Orynx.Approval.Resume
import Orynx.Issue.RunTrigger
import Orynx.Issue.InvokePermission
import Orynx.Issue.TriggerPreview
import Orynx.Lib.Commands
import Orynx.Runtime.Requests
import Orynx.Runtime.RedisStore
import Orynx.Runtime.Calls
import Orynx.Runtime.SettleOnce
import Orynx.Runtime.MemoryStore
import Orynx.Runtime.Alone
import Orynx.Runtime.Matches
import Orynx.Runtime.Together
import Orynx.Runtime.Interchange
import Orynx.Comment.Thread
import Orynx.Comment.Resolve
import Orynx.Lib.Deferred
import Orynx.Realtime.Hub
import Orynx.Realtime.Consumers
import Orynx.Realtime.Fanout
import Orynx.Realtime.Sends
import Orynx.Realtime.DualWrite
import Orynx.Board.Buckets
import Orynx.Board.LoadMore
import Orynx.Lib.Record
import Orynx.Tabs.Url
import Orynx.Tabs.Store
import Orynx.Tabs.Sound
import Orynx.Daemon.WsRpc
import Orynx.Daemon.ClaimOnce
import Orynx.Lark.Chunks
import Orynx.Lark.Assembly
import Orynx.Lark.Frame
import Orynx.Lark.Codec
import Orynx.Lib.Protowire
import Orynx.Lib.Respaced
import Orynx.Lib.Marker
import Orynx.Approval.Rewrites
import Orynx.Daemon.RuntimeConfig
import Orynx.Lib.Inevitable
import Orynx.Channel.Batcher
import Orynx.Channel.Rounds
import Orynx.Channel.Debounce
import Orynx.Lib.QueryClient
import Orynx.Board.DeleteCache
import Orynx.Board.Deleted
import Orynx.Lib.FileTree
import Orynx.Daemon.Sidecars
import Orynx.Daemon.SidecarsUndone
import Orynx.Lib.JsonTree
import Orynx.Redact.Text
import Orynx.Redact.InputMap
import Orynx.Lib.JsInt32
import Orynx.FeatureFlag.Hash
import Orynx.FeatureFlag.StaticProvider
import Orynx.Issue.ChangeFlags
import Orynx.Lib.Groups
import Orynx.Issue.ChildDoneComment
import Orynx.Issue.BatchChildDone
import Orynx.Task.Sweep
import Orynx.Lib.Budget
import Orynx.Comment.Delivery
import Orynx.Lib.Keyset
import Orynx.Routing.Rerun
import Orynx.Comment.Paging
import Orynx.Lib.SlashPath
import Orynx.Daemon.LocalPathLocker
import Orynx.Daemon.LocalSkills
import Orynx.Daemon.LocalSkillsAgree
import Orynx.Lib.TomlLine
import Orynx.Lib.TomlDoc
import Orynx.Lib.TomlEdit
import Orynx.Daemon.CodexConfig
import Orynx.Daemon.CodexLines
import Orynx.Daemon.CodexRead
import Orynx.Daemon.CodexSteps
import Orynx.Daemon.CodexEdits
import Orynx.Lib.Keyed
import Orynx.Lib.PrefixCode
import Orynx.Skill.Bundle
import Orynx.Skill.Archive
import Orynx.Skill.ArchiveRoot
import Orynx.Daemon.CodexManaged
import Orynx.Daemon.CodexExact
import Orynx.Channel.Supervisor
import Orynx.Channel.OneConnection
import Orynx.Channel.Ingest
import Orynx.Channel.IngestOnce
