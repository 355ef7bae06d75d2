import Mathlib.Data.List.Dedup
import Mathlib.Algebra.Ring.Int.Defs
import Orynx.Attribution.Classify
import Orynx.Lib.Table

/-! # `task_usage` and what its buckets are made of

The rows that the hourly rollup joins, the statements that change them, and the four triggers of
`server/migrations/102_task_usage_hourly_pipeline.up.sql` with the keys they put in the queue. Times
are in microseconds, as the database has them.
-/

namespace Orynx.Usage

open Lib

def minute : Int := 60 * 1000000

def hour : Int := 60 * minute

def day : Int := 24 * hour

/-! ## Rows -/

structure TaskUsage where
  taskId : UUID
  provider : String
  model : String
  inputTokens : Int
  outputTokens : Int
  cacheReadTokens : Int
  cacheWriteTokens : Int
  createdAt : Int
  updatedAt : Option Int
deriving DecidableEq, Repr

/-- What a window compares: rows from before the column have no `updated_at`. -/
def TaskUsage.touchedAt (u : TaskUsage) : Int := u.updatedAt.getD u.createdAt

/-- `DO UPDATE` of `UpsertTaskUsage`. -/
def TaskUsage.setTokens (now : Int) (i o r w : Int) (u : TaskUsage) : TaskUsage :=
  { u with
    inputTokens := i
    outputTokens := o
    cacheReadTokens := r
    cacheWriteTokens := w
    updatedAt := some now }

/-- A row of `agent_task_queue`. -/
structure Task where
  id : UUID
  agentId : UUID
  runtimeId : Option UUID
  issueId : Option UUID
deriving DecidableEq, Repr

structure Agent where
  id : UUID
  workspaceId : UUID
deriving DecidableEq, Repr

structure Issue where
  id : UUID
  workspaceId : UUID
  projectId : Option UUID
deriving DecidableEq, Repr

structure UsageKey where
  taskId : UUID
  provider : String
  model : String
deriving DecidableEq, Repr

def usageSchema : Schema TaskUsage UsageKey Unit where
  key u := ⟨u.taskId, u.provider, u.model⟩
  index _ := none

def taskSchema : Schema Task UUID Unit := ⟨Task.id, fun _ => none⟩

def agentSchema : Schema Agent UUID Unit := ⟨Agent.id, fun _ => none⟩

def issueSchema : Schema Issue UUID Unit := ⟨Issue.id, fun _ => none⟩

structure Tables where
  usage : Table usageSchema := .empty
  tasks : Table taskSchema := .empty
  agents : Table agentSchema := .empty
  issues : Table issueSchema := .empty

/-! ## Buckets -/

/-- The key of `task_usage_hourly` and of its queue. -/
structure Key where
  bucketHour : Int
  workspaceId : UUID
  runtimeId : UUID
  agentId : UUID
  projectId : Option UUID
  provider : String
  model : String
deriving DecidableEq, Repr

def taskUsageHourBucket (ts : Int) : Int := ts - ts % hour

def keyAt (workspaceId runtimeId agentId : UUID) (projectId : Option UUID) (u : TaskUsage) :
    Key where
  bucketHour := taskUsageHourBucket u.createdAt
  workspaceId := workspaceId
  runtimeId := runtimeId
  agentId := agentId
  projectId := projectId
  provider := u.provider
  model := u.model

namespace Tables

/-- `LEFT JOIN issue`. -/
def projectOf (T : Tables) (issueId : Option UUID) : Option UUID :=
  (issueId.bind T.issues.get?).bind Issue.projectId

/-- The key of a task's rows, by the join of the window function. -/
def taskKey (T : Tables) (task : Task) (u : TaskUsage) : Option Key :=
  task.runtimeId.bind fun runtimeId =>
    (T.agents.get? task.agentId).map fun agent =>
      keyAt agent.workspaceId runtimeId task.agentId (T.projectOf task.issueId) u

/-- The bucket of a usage row. -/
def bucket (T : Tables) (u : TaskUsage) : Option Key :=
  (T.tasks.get? u.taskId).bind fun task => T.taskKey task u

/-- The usage rows of a bucket. -/
def rowsOf (T : Tables) (k : Key) : List TaskUsage :=
  T.usage.rows.filter fun u => T.bucket u == some k

/-- The usage rows of a task. -/
def usageOf (T : Tables) (taskId : UUID) : List TaskUsage :=
  T.usage.rows.filter fun u => u.taskId == taskId

end Tables

/-- The columns of `task_usage_hourly` behind its key. -/
structure Totals where
  inputTokens : Int
  outputTokens : Int
  cacheReadTokens : Int
  cacheWriteTokens : Int
  taskCount : Nat
  eventCount : Nat
deriving DecidableEq, Repr

/-- A group has at least one row. -/
def totals (rows : List TaskUsage) : Option Totals :=
  if rows.isEmpty then none
  else some
    { inputTokens := (rows.map TaskUsage.inputTokens).sum
      outputTokens := (rows.map TaskUsage.outputTokens).sum
      cacheReadTokens := (rows.map TaskUsage.cacheReadTokens).sum
      cacheWriteTokens := (rows.map TaskUsage.cacheWriteTokens).sum
      taskCount := (rows.map TaskUsage.taskId).dedup.length
      eventCount := rows.length }

/-- `recomputed`, for one key. -/
def Tables.recomputed (T : Tables) (k : Key) : Option Totals := totals (T.rowsOf k)

/-! ## Statements -/

inductive Mutation where
  | upsertTaskUsage (taskId : UUID) (provider model : String)
      (inputTokens outputTokens cacheReadTokens cacheWriteTokens : Int)
  | deleteTaskUsage (taskId : UUID) (provider model : String)
  | updateTask (id : UUID) (runtimeId issueId : Option UUID)
  | deleteTask (id : UUID)
  | updateIssueProject (id : UUID) (projectId : Option UUID)
  | deleteIssue (id : UUID)
  | createTask (task : Task)
  | createIssue (issue : Issue)
  | createAgent (agent : Agent)
deriving DecidableEq, Repr

def updateTaskStmt (id : UUID) (runtimeId issueId : Option UUID) : Update Task where
  sel t := t.id == id
  set t := { t with runtimeId := runtimeId, issueId := issueId }

def updateIssueProjectStmt (id : UUID) (projectId : Option UUID) : Update Issue where
  sel r := r.id == id
  set r := { r with projectId := projectId }

namespace Tables

/-- The foreign keys of a task; those who set them take an issue of the agent's workspace. -/
def links (T : Tables) (task : Task) : Bool :=
  (T.agents.get? task.agentId).any fun agent =>
    task.issueId.all fun id =>
      (T.issues.get? id).any fun issue => issue.workspaceId == agent.workspaceId

/-- A statement at a time; none where a constraint refuses it. -/
def apply (T : Tables) (now : Int) : Mutation → Option Tables
  | .upsertTaskUsage taskId provider model i o r w =>
    let row : TaskUsage := ⟨taskId, provider, model, i, o, r, w, now, some now⟩
    if (T.tasks.get? taskId).isSome then
      some { T with usage := T.usage.upsert row (TaskUsage.setTokens now i o r w) }
    else none
  | .deleteTaskUsage taskId provider model =>
    some { T with usage := T.usage.filter fun u => usageSchema.key u != ⟨taskId, provider, model⟩ }
  | .updateTask id runtimeId issueId =>
    match T.tasks.get? id with
    | none => some T
    | some task =>
      if T.links { task with issueId := issueId } then
        some { T with tasks := T.tasks.exec (updateTaskStmt id runtimeId issueId) }
      else none
  | .deleteTask id =>
    -- the usage rows go with their task
    some { T with
      tasks := T.tasks.filter fun t => t.id != id
      usage := T.usage.filter fun u => u.taskId != id }
  | .updateIssueProject id projectId =>
    some { T with issues := T.issues.exec (updateIssueProjectStmt id projectId) }
  | .deleteIssue id =>
    -- the tasks go with their issue, and the usage rows with these
    some { T with
      issues := T.issues.filter fun r => r.id != id
      tasks := T.tasks.filter fun t => t.issueId != some id
      usage := T.usage.filter fun u =>
        !(T.tasks.get? u.taskId).any fun t => t.issueId == some id }
  | .createTask task =>
    if T.links task then (T.tasks.insert? task).map fun tasks => { T with tasks := tasks } else none
  | .createIssue issue => (T.issues.insert? issue).map fun issues => { T with issues := issues }
  | .createAgent agent => (T.agents.insert? agent).map fun agents => { T with agents := agents }

/-! ## Triggers -/

/-- One side of the trigger on `agent_task_queue`. -/
def taskKeys (T : Tables) (task : Task) : List Key := (T.usageOf task.id).filterMap (T.taskKey task)

/-- One side of the triggers on `issue`, which take the issue's workspace. -/
def issueKeys (T : Tables) (issue : Issue) (projectId : Option UUID) : List Key :=
  (T.tasks.rows.filter fun t => t.issueId == some issue.id).flatMap fun task =>
    match task.runtimeId with
    | none => []
    | some runtimeId =>
      (T.usageOf task.id).map (keyAt issue.workspaceId runtimeId task.agentId projectId)

/-- The keys that the triggers of a statement put in the queue. -/
def triggered (T : Tables) : Mutation → List Key
  | .updateTask id runtimeId issueId =>
    match T.tasks.get? id with
    | none => []
    | some task =>
      if task.runtimeId = runtimeId ∧ task.issueId = issueId then []
      else T.taskKeys task ++
        T.taskKeys { task with runtimeId := runtimeId, issueId := issueId }
  | .deleteTask id => (T.tasks.get? id).elim [] T.taskKeys
  | .updateIssueProject id projectId =>
    match T.issues.get? id with
    | none => []
    | some issue =>
      if issue.projectId = projectId then []
      else T.issueKeys issue issue.projectId ++ T.issueKeys issue projectId
  | .deleteIssue id =>
    match T.issues.get? id with
    | none => []
    | some issue =>
      -- the trigger of the tasks fires behind it, and finds no issue
      let gone := { T with issues := T.issues.filter fun r => r.id != id }
      T.issueKeys issue issue.projectId ++
        (T.tasks.rows.filter fun t => t.issueId == some id).flatMap gone.taskKeys
  | .deleteTaskUsage taskId provider model =>
    ((T.usage.get? ⟨taskId, provider, model⟩).bind T.bucket).toList
  | _ => []

end Tables

end Orynx.Usage
