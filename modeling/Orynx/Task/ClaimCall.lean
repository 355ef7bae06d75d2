import Orynx.Task.Capacity

/-! # A claim call, step by step

`ClaimTasksForRuntimes` promotes due rows, reclaims stale dispatches, lists candidates
and then runs `ClaimTask` for each distinct agent. The candidate query filters by
runtime and by blocked issue; `ClaimAgentTask` re-selects by agent alone.

One call is tracked among everybody else's steps: `CallStep.other` is any step of the
queue taken by another party, `setBlocked` any change of an issue's `is_blocked`.
`ClaimTaskForRuntime` is the call for one runtime and one task.
-/

namespace Orynx.Task

open Lib

/-- The predicate of `ListQueuedClaimCandidatesByRuntimes`. -/
def isClaimCandidate (runtimeIDs : List UUID) (spineOn : Bool) (isBlocked : UUID → Bool)
    (t : AgentTask) : Bool :=
  runtimeIDs.contains t.runtimeID && t.status == .queued &&
    (!spineOn || !t.issueID.any isBlocked)

/-- `candidates` is an answer of `ListQueuedClaimCandidatesByRuntimes`: the selected
rows, by priority and then age. -/
def listQueuedClaimCandidates (q : TaskTable) (runtimeIDs : List UUID) (spineOn : Bool)
    (isBlocked : UUID → Bool) (candidates : List AgentTask) : Bool :=
  decide (candidates.Perm (q.rows.filter (isClaimCandidate runtimeIDs spineOn isBlocked))) &&
    decide (candidates.Pairwise fun t u => claimBefore u t = false)

/-- How a call can end without its result. -/
inductive CallError where
  | promote (e : DbError)
  | claim
deriving DecidableEq, Repr

/-- Where the call stands; `claiming` runs `ClaimTask` for one agent. -/
inductive CallPhase where
  | promote
  | reclaim
  | list
  | loop (rest : List AgentTask)
  | locking (agentID : UUID) (rest : List AgentTask)
  | counting (agentID : UUID) (rest : List AgentTask)
  | claiming (agentID : UUID) (rest : List AgentTask)
  | returned
  | failed (e : CallError)
deriving DecidableEq, Repr

/-- The local state of a call. `admitted`, `blockedThen` and `dispatched` record what
the candidate query returned, which issues were blocked then, and the rows the call
has moved from queued to dispatched. -/
structure Call where
  runtimeIDs : List UUID
  maxTasks : Nat
  spineOn : Bool
  phase : CallPhase := .promote
  tried : List UUID := []
  claimed : List AgentTask := []
  admitted : List AgentTask := []
  blockedThen : UUID → Bool := fun _ => false
  dispatched : List AgentTask := []

/-- `ClaimTasksForRuntimes`. -/
def claimTasksForRuntimes (runtimeIDs : List UUID) (maxTasks : Nat) (spineOn : Bool) : Call :=
  { runtimeIDs, maxTasks, spineOn }

/-- `ClaimTaskForRuntime`. -/
def claimTaskForRuntime (runtimeID : UUID) (spineOn : Bool) : Call :=
  claimTasksForRuntimes [runtimeID] 1 spineOn

structure CallState where
  sys : State
  isBlocked : UUID → Bool
  call : Call

inductive CallStep where
  | other (a : Step)
  | setBlocked (issueID : UUID) (blocked : Bool)
  | promote
  | reclaim (locked picks : List UUID)
  | list (notEmpty : List UUID) (candidates : List AgentTask)
  | nextCandidate
  | lockAgent
  | countRunningTasks
  | claimAgentTask (locked : List UUID) (pick : UUID)
  | noTask (locked : List UUID)
  | claimError
deriving DecidableEq, Repr

/-- The agent whose row the call holds locked. -/
def CallPhase.lockedAgent : CallPhase → Option UUID
  | .counting a _ | .claiming a _ => some a
  | _ => none

/-- A step that only the holder of the agent's lock can take. -/
def Step.holder : Step → Option UUID
  | .countRunningTasks a | .claimAgentTask a _ _ | .releaseAgent a => some a
  | _ => none

/-- Put the call's own step of the queue and its new local state together. -/
def CallState.after (st : CallState) (sys : Option State) (call : Call) : Option CallState :=
  sys.map fun s => { st with sys := s, call := call }

/-- The rows that an update returns. -/
def returning (q : TaskTable) (u : Update AgentTask) : List AgentTask :=
  (q.rows.filter u.sel).map u.set

/-- The batch is full. -/
def Call.full (c : Call) : Bool := c.maxTasks ≤ c.claimed.length

def callNext (cfg : Config) (st : CallState) : CallStep → Option CallState
  | .other a =>
    if a.holder.isSome ∧ a.holder = st.call.phase.lockedAgent then none
    else st.after (next cfg st.sys a) st.call
  | .setBlocked i b => some { st with isBlocked := Function.update st.isBlocked i b }
  | .promote =>
    if st.call.phase = .promote then
      match updateStmt st.sys.queue
          (promoteDueDeferredTasksForRuntimes st.sys.now st.call.runtimeIDs) with
      | .ok q =>
        some { st with sys := { st.sys with queue := q }, call := { st.call with phase := .reclaim } }
      | .error e => some { st with call := { st.call with phase := .failed (.promote e) } }
    else none
  | .reclaim locked picks =>
    if st.call.phase = .reclaim then
      let stmt := UpdateStmt.reclaimStaleDispatchedTasksForRuntimes st.call.runtimeIDs
        st.call.maxTasks locked picks
      let claimed := returning st.sys.queue (stmt.update st.sys.now st.sys.queue)
      st.after (next cfg st.sys (.update stmt))
        { st.call with
          claimed := claimed.take st.call.maxTasks
          phase := if st.call.maxTasks ≤ claimed.length then .returned else .list }
    else none
  | .list notEmpty candidates =>
    -- `notEmpty` are the runtimes the empty-claim cache has no verdict for
    let asked := st.call.runtimeIDs.filter notEmpty.contains
    if st.call.phase = .list ∧
        listQueuedClaimCandidates st.sys.queue asked st.call.spineOn st.isBlocked candidates then
      some { st with
        call := { st.call with
          admitted := candidates, blockedThen := st.isBlocked
          phase := if candidates = [] then .returned else .loop candidates } }
    else none
  | .nextCandidate =>
    match st.call.phase with
    | .loop rest =>
      if st.call.full then some { st with call := { st.call with phase := .returned } }
      else
        match rest with
        | [] => some { st with call := { st.call with phase := .returned } }
        | c :: rest =>
          if st.call.tried.contains c.agentID then
            some { st with call := { st.call with phase := .loop rest } }
          else
            some { st with
              call := { st.call with
                tried := c.agentID :: st.call.tried, phase := .locking c.agentID rest } }
    | _ => none
  | .lockAgent =>
    match st.call.phase with
    | .locking a rest =>
      st.after (next cfg st.sys (.lockAgent a)) { st.call with phase := .counting a rest }
    | _ => none
  | .countRunningTasks =>
    match st.call.phase with
    | .counting a rest =>
      st.after (next cfg st.sys (.countRunningTasks a)) { st.call with phase := .claiming a rest }
    | _ => none
  | .claimAgentTask locked pick =>
    match st.call.phase with
    | .claiming a rest =>
      let task := returning st.sys.queue (claimAgentTask st.sys.now prepareLeaseDuration pick)
      st.after (next cfg st.sys (.claimAgentTask a locked pick))
        { st.call with
          dispatched := st.call.dispatched ++ task
          -- a row of another daemon's runtime is not handed to this one
          claimed := st.call.claimed ++ task.filter fun t => st.call.runtimeIDs.contains t.runtimeID
          phase := .loop rest }
    | _ => none
  | .noTask locked =>
    match st.call.phase with
    | .claiming a rest =>
      match st.sys.agentLock a with
      | .counted running =>
        if cfg.maxConcurrentTasks a ≤ (running : Int) ∨
            admissiblePicks AgentTask.id st.sys.queue.rows (claimEligible st.sys.queue a)
              claimBefore 1 locked [] then
          st.after (next cfg st.sys (.releaseAgent a)) { st.call with phase := .loop rest }
        else none
      | _ => none
    | _ => none
  | .claimError =>
    -- a database failure inside `ClaimTask` rolls it back; a partial batch is returned
    let ended : CallPhase := if st.call.claimed = [] then .failed .claim else .returned
    match st.call.phase with
    | .locking _ _ => some { st with call := { st.call with phase := ended } }
    | .counting a _ | .claiming a _ =>
      st.after (next cfg st.sys (.releaseAgent a)) { st.call with phase := ended }
    | _ => none

/-- One call from any reachable state of the queue, among everybody's steps. -/
def callMachine (cfg : Config) : Machine CallState CallStep where
  Init st := (machine cfg).Reachable st.sys ∧ ∃ runtimeIDs maxTasks spineOn,
    0 < maxTasks ∧ st.call = claimTasksForRuntimes runtimeIDs maxTasks spineOn
  next := callNext cfg

end Orynx.Task
