import Orynx.Approval.Classify
import Orynx.Attribution.Classify
import Orynx.Lib.Machine
import Orynx.Lib.Spaces
import Orynx.Lib.Table

/-! # The approval gate

`server/internal/handler/approval.go` over `issue_approval` and `approval_policy`. A call takes one
statement a step, and between two of them any other call may take its own. Texts that only the log
and the inbox hold, and the issue that an approval moves out of blocked, are left out.

* `Gated`: an approval lets one check pass, of its own command; a policy lets a check pass only if
  the classes of the command all have one; and no approval that stands is passed over;
* `approval_gated`: so it is in runs in which no half covered command is checked, no request joins
  an approved one, and no request is approved that is not the newest;
* `gate_slips`: without these it is not.
-/

namespace Orynx.Approval

open Lib

/-! ## Rows -/

inductive Status where
  | pending
  | approved
  | rejected
  | consumed
deriving DecidableEq, Repr

structure IssueApproval where
  id : UUID
  workspaceId : UUID
  issueId : UUID
  actionKey : String
  command : String
  status : Status := .pending
  requestedByAgent : Option UUID
  decidedByMember : Option UUID := none
  createdAt : Int
deriving DecidableEq, Repr

def approvalSchema : Schema IssueApproval UUID Unit where
  key r := r.id
  index _ := none

abbrev ApprovalTable := Table approvalSchema

structure ApprovalPolicy where
  id : UUID
  workspaceId : UUID
  agentId : Option UUID
  actionClass : ActionClass
  sourceApprovalId : UUID
  createdByMember : UUID
  createdAt : Int
  revokedBy : Option UUID := none
deriving DecidableEq, Repr

def policySchema : Schema ApprovalPolicy UUID Unit where
  key p := p.id
  index _ := none

abbrev PolicyTable := Table policySchema

structure Issue where
  id : UUID
  workspaceId : UUID
deriving DecidableEq, Repr

/-! ## The action key -/

/-- `strings.Join(strings.Fields(command), " ")`. -/
def normalize (command : String) : List Char := Spaces.join ' ' (Spaces.words isSpace command.toList)

/-- The text that is hashed: the id of the issue, a colon and the normalised command. -/
structure ActionText where
  issueId : UUID
  command : List Char
deriving DecidableEq, Repr

section Key

variable (sha256 : ActionText → String)

def computeActionKey (issueId : UUID) (command : String) : String :=
  sha256 ⟨issueId, normalize command⟩

/-- The action that a call is about, by its key. -/
def forAction (issueId : UUID) (command : String) (r : IssueApproval) : Bool :=
  r.issueId == issueId && r.actionKey == computeActionKey sha256 issueId command

end Key

/-- The action that a call is about, by its command. -/
def sameAction (issueId : UUID) (command : String) (r : IssueApproval) : Bool :=
  r.issueId == issueId && normalize r.command == normalize command

/-! ## Queries -/

/-- The answers of `GetLatestApprovalForAction`: any row that none is newer than. -/
def isLatest (q : ApprovalTable) (forAction : IssueApproval → Bool) (pick : Option UUID) : Bool :=
  admissiblePicks (fun r : IssueApproval => r.id) q.rows forAction
    (fun r r' => decide (r'.createdAt < r.createdAt)) 1 [] pick.toList

def getPendingApprovalForAction (q : ApprovalTable) (forAction : IssueApproval → Bool) :
    Option IssueApproval :=
  q.rows.find? fun r => forAction r && r.status == .pending

/-- Where the row is still pending. -/
def decideApproval (q : ApprovalTable) (status : Status) (member approvalId workspaceId : UUID) :
    Option (ApprovalTable × IssueApproval) :=
  let decided (r : IssueApproval) := { r with status := status, decidedByMember := some member }
  ((q.get? approvalId).filter fun r => r.workspaceId == workspaceId && r.status == .pending).map
    fun r => (q.modify approvalId decided, decided r)

/-- Where the row is still approved. -/
def consumeApproval (q : ApprovalTable) (approvalId : UUID) : Option ApprovalTable :=
  ((q.get? approvalId).filter fun r => r.status == .approved).map fun _ =>
    q.modify approvalId fun r => { r with status := .consumed }

def unrevoked (q : PolicyTable) (workspaceId : UUID) : List ApprovalPolicy :=
  q.rows.filter fun p => p.workspaceId == workspaceId && p.revokedBy.isNone

/-- A policy without an agent applies to any. -/
def ApprovalPolicy.applies (p : ApprovalPolicy) (agentId : Option UUID) : Bool :=
  p.agentId.isNone || p.agentId == agentId

/-- Which of them is found only the log tells. -/
def matchPolicy (q : PolicyTable) (workspaceId : UUID) (agentId : Option UUID) (c : ActionClass) :
    Bool :=
  (unrevoked q workspaceId).any fun p => p.actionClass == c && p.applies agentId

def revokePolicy (q : PolicyTable) (member policyId workspaceId : UUID) : PolicyTable :=
  if ((q.get? policyId).any fun p => p.workspaceId == workspaceId && p.revokedBy.isNone) then
    q.modify policyId fun p => { p with revokedBy := some member }
  else q

/-! ## Calls -/

/-- What a check asks. `policies` are those it has read and `standing` the approvals of its command
that stood when it began: these are history. -/
structure Question where
  issue : Issue
  agentId : Option UUID
  command : String
  policies : List ApprovalPolicy
  standing : List UUID
deriving DecidableEq, Repr

/-- A check whose command no policy lets pass. -/
inductive CheckPhase where
  | latest
  | consume (approvalId : UUID)
deriving DecidableEq, Repr

structure Check where
  question : Question
  phase : CheckPhase := .latest
deriving DecidableEq, Repr

inductive Decision where
  | approved
  | pending
  | rejected
  | none
deriving DecidableEq, Repr

/-- An answer, with the approval that it has consumed. -/
structure Answer where
  question : Question
  decision : Decision
  approvalId : Option UUID := none
deriving DecidableEq, Repr

/-- A request that has found none pending. -/
structure Request where
  issue : Issue
  agentId : Option UUID
  command : String
deriving DecidableEq, Repr

/-- A decision that is yet to become a policy. -/
structure Lesson where
  decided : IssueApproval
  actionClass : ActionClass
  member : UUID
deriving DecidableEq, Repr

inductive Actor where
  | member (userId : UUID)
  | agent (agentId : UUID)
deriving DecidableEq, Repr

inductive DecisionRequest where
  | approve (learn : Bool)
  | reject
deriving DecidableEq, Repr

structure State where
  approvals : ApprovalTable
  policies : PolicyTable
  checks : List Check := []
  requests : List Request := []
  lessons : List Lesson := []
  /-- All answers; this is history. -/
  answers : List Answer := []
  /-- All that was approved to be learned; this is history. -/
  learned : List IssueApproval := []

/-- A call begins or takes its next statement. What the database chooses comes with it: the latest
of several rows, ids and times. -/
inductive Act where
  | check (issue : Issue) (agentId : Option UUID) (command : String)
  | latest (i : Nat) (pick : Option UUID)
  | consume (i : Nat)
  | request (issue : Issue) (agentId : Option UUID) (command : String)
  | insert (i : Nat) (id : UUID) (now : Int)
  | decide (actor : Actor) (issue : Issue) (approvalId : UUID) (decision : DecisionRequest)
  | learn (i : Nat) (id : UUID) (now : Int)
  | revoke (actor : Actor) (workspaceId policyId : UUID)
deriving DecidableEq, Repr

namespace State

/-- The approvals of the command that stand. -/
def standing (s : State) (issueId : UUID) (command : String) : List UUID :=
  (s.approvals.rows.filter fun r => sameAction issueId command r && r.status == .approved).map
    IssueApproval.id

/-- The approvals that a check has consumed. -/
def spent (s : State) : List UUID := s.answers.filterMap Answer.approvalId

def answer (s : State) (i : Nat) (c : Check) (decision : Decision) : State :=
  { s with checks := s.checks.eraseIdx i, answers := s.answers ++ [⟨c.question, decision, none⟩] }

end State

/-- `strings.TrimSpace`. -/
def trimSpace (s : String) : String :=
  String.ofList ((s.toList.dropWhile isSpace).reverse.dropWhile isSpace).reverse

section Steps

variable (sha256 : ActionText → String)

/-- `CheckApproval`, with the policies read. -/
def State.check (s : State) (issue : Issue) (agentId : Option UUID) (command : String) : State :=
  let q : Question :=
    { issue, agentId, command
      policies := unrevoked s.policies issue.workspaceId
      standing := s.standing issue.id command }
  match classifyCommand command with
  | (.operational, c) =>
    if matchPolicy s.policies issue.workspaceId agentId c then
      { s with answers := s.answers ++ [⟨q, .approved, none⟩] }
    else { s with checks := s.checks ++ [{ question := q }] }
  | (.security, _) => { s with checks := s.checks ++ [{ question := q }] }

/-- `CheckApproval` falls back to a one-time approval. -/
def State.latest (s : State) (i : Nat) (c : Check) : Option UUID → Option State
  | none => some (s.answer i c .none)
  | some id =>
    (s.approvals.get? id).map fun r =>
      match r.status with
      | .approved => { s with checks := s.checks.set i { c with phase := .consume id } }
      | .consumed => s.answer i c .none
      | .pending => s.answer i c .pending
      | .rejected => s.answer i c .rejected

def State.consume (s : State) (i : Nat) (c : Check) (id : UUID) : State :=
  match consumeApproval s.approvals id with
  | some approvals =>
    { s with
      approvals := approvals
      checks := s.checks.eraseIdx i
      answers := s.answers ++ [⟨c.question, .approved, some id⟩] }
  | none => s.answer i c .pending

/-- `DecideApproval` of a member. -/
def State.decide (s : State) (userId : UUID) (issue : Issue) (approvalId : UUID) :
    DecisionRequest → State
  | .reject =>
    match decideApproval s.approvals .rejected userId approvalId issue.workspaceId with
    | none => s
    | some (approvals, _) => { s with approvals := approvals }
  | .approve learn =>
    match decideApproval s.approvals .approved userId approvalId issue.workspaceId with
    | none => s
    | some (approvals, decided) =>
      if learn then
        match classifyCommand decided.command with
        | (.operational, c) =>
          { s with
            approvals := approvals
            learned := s.learned ++ [decided]
            lessons := s.lessons ++ [⟨decided, c, userId⟩] }
        | (.security, _) => { s with approvals := approvals, learned := s.learned ++ [decided] }
      else { s with approvals := approvals }

def next (s : State) : Act → Option State
  | .check issue agentId command =>
    if trimSpace command = "" then some s
    else some (s.check issue agentId (trimSpace command))
  | .latest i pick =>
    (s.checks[i]?).bind fun c =>
      if c.phase = .latest ∧ isLatest s.approvals
          (forAction sha256 c.question.issue.id c.question.command) pick = true then
        s.latest i c pick
      else none
  | .consume i =>
    (s.checks[i]?).bind fun c =>
      match c.phase with
      | .consume id => some (s.consume i c id)
      | .latest => none
  | .request issue agentId command =>
    if trimSpace command = "" then some s
    else
      match getPendingApprovalForAction s.approvals (forAction sha256 issue.id command) with
      | some _ => some s
      | none => some { s with requests := s.requests ++ [⟨issue, agentId, command⟩] }
  | .insert i id now =>
    (s.requests[i]?).bind fun r =>
      (s.approvals.insert?
        { id := id
          workspaceId := r.issue.workspaceId
          issueId := r.issue.id
          actionKey := computeActionKey sha256 r.issue.id r.command
          command := r.command
          requestedByAgent := r.agentId
          createdAt := now }).map fun approvals =>
        { s with approvals := approvals, requests := s.requests.eraseIdx i }
  | .decide actor issue approvalId decision =>
    match actor with
    | .agent _ => some s
    | .member userId => some (s.decide userId issue approvalId decision)
  | .learn i id now =>
    (s.lessons[i]?).bind fun l =>
      (s.policies.insert?
        { id := id
          workspaceId := l.decided.workspaceId
          agentId := l.decided.requestedByAgent
          actionClass := l.actionClass
          sourceApprovalId := l.decided.id
          createdByMember := l.member
          createdAt := now }).map fun policies =>
        { s with policies := policies, lessons := s.lessons.eraseIdx i }
  | .revoke actor workspaceId policyId =>
    match actor with
    | .agent _ => some s
    | .member userId =>
      some { s with policies := revokePolicy s.policies userId policyId workspaceId }

/-- Nothing has been asked yet. -/
structure State.Initial (s : State) : Prop where
  approvals : s.approvals.rows = []
  policies : s.policies.rows = []
  checks : s.checks = []
  lessons : s.lessons = []
  answers : s.answers = []

def machine : Machine State Act where
  Init := State.Initial
  next := next sha256

end Steps

/-! ## The property -/

/-- A member has approved an action of this agent, or of a member, to be learned as this policy. -/
def State.Learned (s : State) (p : ApprovalPolicy) : Prop :=
  ∃ r ∈ s.learned, r.id = p.sourceApprovalId ∧ r.decidedByMember = some p.createdByMember ∧
    r.requestedByAgent = p.agentId

structure State.Gated (s : State) : Prop where
  once : s.spent.Nodup
  own : ∀ a ∈ s.answers, ∀ id, a.approvalId = some id → ∃ r, s.approvals.get? id = some r ∧
    r.decidedByMember.isSome = true ∧ sameAction a.question.issue.id a.question.command r = true
  covered : ∀ a ∈ s.answers, a.decision = .approved → a.approvalId = none →
    (∀ p ∈ securityPatterns, p.matches a.question.command = false) ∧
      ∀ p ∈ operationalPatterns, p.matches a.question.command = true →
        ∃ q ∈ a.question.policies, q.actionClass = p.actionClass ∧
          q.applies a.question.agentId = true ∧ s.Learned q
  honoured : ∀ a ∈ s.answers, ∀ id ∈ a.question.standing, a.decision = .approved ∨ id ∈ s.spent

/-- Of the classes of an operational command a policy has the first, and none has another. -/
def halfCovered (q : PolicyTable) (workspaceId : UUID) (agentId : Option UUID) (command : String) :
    Bool :=
  match classifyCommand command with
  | (.operational, c) =>
    matchPolicy q workspaceId agentId c && operationalPatterns.any fun p =>
      p.matches command && !matchPolicy q workspaceId agentId p.actionClass
  | (.security, _) => false

section Condition

variable (sha256 : ActionText → String)

/-- No command is half covered; no two commands of an issue have one key; no request joins an
approved one; and what is approved is the newest. -/
def unslipped (s : State) : Act → Bool
  | .check issue agentId command =>
    !halfCovered s.policies issue.workspaceId agentId (trimSpace command)
  | .latest i _ =>
    (s.checks[i]?).all fun c => s.approvals.rows.all fun r =>
      !forAction sha256 c.question.issue.id c.question.command r ||
        sameAction c.question.issue.id c.question.command r
  | .insert i _ _ =>
    (s.requests[i]?).all fun q => s.approvals.rows.all fun r =>
      !(forAction sha256 q.issue.id q.command r && r.status == .approved)
  | .decide (.member _) issue approvalId (.approve _) =>
    (s.approvals.get? approvalId).all fun r =>
      !(r.workspaceId == issue.workspaceId && r.status == .pending) ||
        s.approvals.rows.all fun r' =>
          r'.id == r.id || !(r'.issueId == r.issueId && r'.actionKey == r.actionKey) ||
            Decidable.decide (r'.createdAt < r.createdAt)
  | _ => true

end Condition

/-! ## Statements -/

/-- A member has approved it, and it stands or has been consumed. -/
def IssueApproval.granted (r : IssueApproval) : Bool :=
  (r.status == .approved || r.status == .consumed) && r.decidedByMember.isSome

/-- One row is put in or replaced. -/
def Puts (q q' : ApprovalTable) (x : IssueApproval) : Prop :=
  ∀ k, q'.get? k = if k = x.id then some x else q.get? k

section Statements

variable {q q' : ApprovalTable} {x r : IssueApproval} {id k : UUID}

theorem get?_id (h : q.get? k = some r) : r.id = k := (Table.get?_eq_some.1 h).2

theorem mem_rows (h : q.get? k = some r) : r ∈ q.rows := (Table.get?_eq_some.1 h).1

theorem get?_of_mem (h : r ∈ q.rows) : q.get? r.id = some r := Table.get?_eq_some.2 ⟨h, rfl⟩

theorem Puts.self (h : Puts q q' x) : q'.get? x.id = some x := by rw [h, if_pos rfl]

theorem Puts.get? (h : Puts q q' x) (hr : q'.get? k = some r) :
    r = x ∨ k ≠ x.id ∧ q.get? k = some r := by
  rw [h] at hr
  by_cases hk : k = x.id
  · rw [if_pos hk] at hr
    exact .inl (Option.some.inj hr).symm
  · rw [if_neg hk] at hr
    exact .inr ⟨hk, hr⟩

theorem puts_insert (h : q.insert? x = some q') : Puts q q' x := fun k => Table.get?_insert? h k

theorem puts_modify {f : IssueApproval → IssueApproval} (hf : ∀ r, (f r).id = r.id)
    (hr : q.get? id = some r) : Puts q (q.modify id f) (f r) := by
  intro k
  rw [Table.get?_modify hf fun _ => rfl, hf, get?_id hr]
  by_cases hk : k = id
  · rw [if_pos hk, if_pos hk, hk, hr, Option.map_some]
  · rw [if_neg hk, if_neg hk]

theorem decideApproval_spec {status : Status} {member workspaceId : UUID}
    (h : decideApproval q status member id workspaceId = some (q', x)) :
    ∃ r, q.get? id = some r ∧ r.workspaceId = workspaceId ∧ r.status = .pending ∧
      x = { r with status := status, decidedByMember := some member } ∧ Puts q q' x := by
  rcases Option.map_eq_some_iff.1 h with ⟨r, hr, heq⟩
  rcases Option.filter_eq_some_iff.1 hr with ⟨hget, hp⟩
  rw [Bool.and_eq_true, beq_iff_eq, beq_iff_eq] at hp
  obtain ⟨rfl, rfl⟩ := Prod.mk.inj heq
  exact ⟨r, hget, hp.1, hp.2, rfl, puts_modify (fun _ => rfl) hget⟩

theorem consumeApproval_spec (h : consumeApproval q id = some q') :
    ∃ r, q.get? id = some r ∧ r.status = .approved ∧ Puts q q' { r with status := .consumed } := by
  rcases Option.map_eq_some_iff.1 h with ⟨r, hr, rfl⟩
  rcases Option.filter_eq_some_iff.1 hr with ⟨hget, hp⟩
  exact ⟨r, hget, beq_iff_eq.1 hp, puts_modify (fun _ => rfl) hget⟩

theorem not_approved_of_consumeApproval (h : consumeApproval q id = none)
    (hr : q.get? id = some r) : r.status ≠ .approved := by
  intro hs
  rw [consumeApproval, hr, Option.filter_some, if_pos (beq_iff_eq.2 hs)] at h
  cases h

theorem granted_iff : r.granted = true ↔
    (r.status = .approved ∨ r.status = .consumed) ∧ r.decidedByMember.isSome = true := by
  rw [IssueApproval.granted, Bool.and_eq_true, Bool.or_eq_true, beq_iff_eq, beq_iff_eq]

end Statements

/-! ## Rows -/

section Rows

variable (sha256 : ActionText → String)

/-- One row is of the same action as another. -/
def Rival (r r' : IssueApproval) : Prop := r'.issueId = r.issueId ∧ r'.actionKey = r.actionKey

/-- The keys are right, and an approved row is newer than its rivals. -/
structure Rows (q : ApprovalTable) : Prop where
  key : ∀ r ∈ q.rows, r.actionKey = computeActionKey sha256 r.issueId r.command
  newest : ∀ r ∈ q.rows, r.status = .approved → ∀ r' ∈ q.rows, Rival r r' →
    r' = r ∨ r'.createdAt < r.createdAt
  decided : ∀ r ∈ q.rows, r.status = .approved ∨ r.status = .consumed → r.granted = true

variable {sha256} {q q' : ApprovalTable} {x : IssueApproval}

theorem Puts.mem (h : Puts q q' x) {r : IssueApproval} (hr : r ∈ q'.rows) :
    r = x ∨ r.id ≠ x.id ∧ r ∈ q.rows :=
  (h.get? (get?_of_mem hr)).imp_right fun hold => ⟨hold.1, mem_rows hold.2⟩

theorem Rows.puts (hrows : Rows sha256 q) (h : Puts q q' x)
    (hkey : x.actionKey = computeActionKey sha256 x.issueId x.command)
    (hnewest : x.status = .approved → ∀ r ∈ q.rows, r.id ≠ x.id → Rival x r →
      r.createdAt < x.createdAt)
    (hrivals : ∀ r ∈ q.rows, r.id ≠ x.id → r.status = .approved → Rival r x →
      x.createdAt < r.createdAt)
    (hdecided : x.status = .approved ∨ x.status = .consumed → x.granted = true) :
    Rows sha256 q' where
  key r hr := by
    rcases h.mem hr with rfl | ⟨-, hr⟩
    · exact hkey
    · exact hrows.key r hr
  newest r hr hs r' hr' hrival := by
    rcases h.mem hr with rfl | ⟨hne, hr⟩
    · rcases h.mem hr' with rfl | ⟨hne', hr'⟩
      · exact .inl rfl
      · exact .inr (hnewest hs r' hr' hne' hrival)
    · rcases h.mem hr' with rfl | ⟨-, hr'⟩
      · exact .inr (hrivals r hr hne hs hrival)
      · exact hrows.newest r hr hs r' hr' hrival
  decided r hr hs := by
    rcases h.mem hr with rfl | ⟨-, hr⟩
    · exact hdecided hs
    · exact hrows.decided r hr hs

/-- A row gets another status. -/
theorem Rows.restatus (hrows : Rows sha256 q) {r : IssueApproval} (hr : r ∈ q.rows)
    {status : Status} {member : Option UUID}
    (h : Puts q q' { r with status := status, decidedByMember := member })
    (hnewest : status = .approved → ∀ r' ∈ q.rows, r'.id ≠ r.id → Rival r r' →
      r'.createdAt < r.createdAt)
    (hmember : status = .approved ∨ status = .consumed → member.isSome = true) :
    Rows sha256 q' := by
  refine hrows.puts h (hrows.key r hr) hnewest ?_ fun hs => granted_iff.2 ⟨hs, hmember hs⟩
  intro r' hr' hne hs hrival
  refine (hrows.newest r' hr' hs r hr hrival).resolve_left ?_
  rintro rfl
  exact hne rfl

end Rows

/-! ## The invariant -/

/-- A member has granted the command of the question. -/
def Granted (s : State) (q : Question) (id : UUID) : Prop :=
  ∃ r, s.approvals.get? id = some r ∧ r.granted = true ∧
    sameAction q.issue.id q.command r = true

/-- What no step takes back. -/
structure Later (s s' : State) : Prop where
  granted : ∀ q id, Granted s q id → Granted s' q id
  spent : ∀ id ∈ s.spent, id ∈ s'.spent
  learned : ∀ r ∈ s.learned, r ∈ s'.learned

structure Check.Sound (s : State) (c : Check) : Prop where
  standing : ∀ id ∈ c.question.standing, Granted s c.question id
  consume : ∀ id, c.phase = .consume id → Granted s c.question id ∧
    ∀ id' ∈ c.question.standing, id' = id ∨ id' ∈ s.spent

structure Answer.Sound (s : State) (a : Answer) : Prop where
  own : ∀ id, a.approvalId = some id → Granted s a.question id
  covered : a.decision = .approved → a.approvalId = none →
    (∀ p ∈ securityPatterns, p.matches a.question.command = false) ∧
      ∀ p ∈ operationalPatterns, p.matches a.question.command = true →
        ∃ q ∈ a.question.policies, q.actionClass = p.actionClass ∧
          q.applies a.question.agentId = true ∧ s.Learned q
  honoured : ∀ id ∈ a.question.standing, a.decision = .approved ∨ id ∈ s.spent

def Lesson.Sound (s : State) (l : Lesson) : Prop :=
  l.decided ∈ s.learned ∧ l.decided.decidedByMember = some l.member

structure Inv (sha256 : ActionText → String) (s : State) : Prop where
  rows : Rows sha256 s.approvals
  spent : ∀ id, id ∈ s.spent ↔ ∃ r, s.approvals.get? id = some r ∧ r.status = .consumed
  once : s.spent.Nodup
  checks : ∀ c ∈ s.checks, c.Sound s
  answers : ∀ a ∈ s.answers, a.Sound s
  lessons : ∀ l ∈ s.lessons, l.Sound s
  policies : ∀ p ∈ s.policies.rows, s.Learned p

theorem Inv.gated {sha256 : ActionText → String} {s : State} (hinv : Inv sha256 s) : s.Gated where
  once := hinv.once
  own a ha id hid := by
    rcases (hinv.answers a ha).own id hid with ⟨r, hr, hgranted, hsame⟩
    exact ⟨r, hr, (granted_iff.1 hgranted).2, hsame⟩
  covered a ha := (hinv.answers a ha).covered
  honoured a ha := (hinv.answers a ha).honoured

section Later

variable {s s' : State}

theorem Later.learned_policy (h : Later s s') {p : ApprovalPolicy} (hp : s.Learned p) :
    s'.Learned p := by
  rcases hp with ⟨r, hr, hp⟩
  exact ⟨r, h.learned r hr, hp⟩

theorem Later.check (h : Later s s') {c : Check} (hc : c.Sound s) : c.Sound s' where
  standing id hid := h.granted _ id (hc.standing id hid)
  consume id hid := by
    rcases hc.consume id hid with ⟨hgranted, hothers⟩
    exact ⟨h.granted _ id hgranted, fun id' hid' => (hothers id' hid').imp_right (h.spent id')⟩

theorem Later.answer (h : Later s s') {a : Answer} (ha : a.Sound s) : a.Sound s' where
  own id hid := h.granted _ id (ha.own id hid)
  covered hd hnone := by
    rcases ha.covered hd hnone with ⟨hsecurity, hoperational⟩
    refine ⟨hsecurity, fun p hp hmatch => ?_⟩
    rcases hoperational p hp hmatch with ⟨q, hq, hclass, happlies, hlearned⟩
    exact ⟨q, hq, hclass, happlies, h.learned_policy hlearned⟩
  honoured id hid := (ha.honoured id hid).imp_right (h.spent id)

theorem Later.lesson (h : Later s s') {l : Lesson} (hl : l.Sound s) : l.Sound s' :=
  ⟨h.learned _ hl.1, hl.2⟩

/-- What is new in a step is sound, and all else stays so. -/
theorem Inv.later {sha256 : ActionText → String} (hinv : Inv sha256 s) (h : Later s s')
    (hrows : Rows sha256 s'.approvals)
    (hspent : ∀ id, id ∈ s'.spent ↔ ∃ r, s'.approvals.get? id = some r ∧ r.status = .consumed)
    (honce : s'.spent.Nodup)
    (hchecks : ∀ c ∈ s'.checks, c ∈ s.checks ∨ c.Sound s')
    (hanswers : ∀ a ∈ s'.answers, a ∈ s.answers ∨ a.Sound s')
    (hlessons : ∀ l ∈ s'.lessons, l ∈ s.lessons ∨ l.Sound s')
    (hpolicies : ∀ p ∈ s'.policies.rows, p ∈ s.policies.rows ∨ s'.Learned p) : Inv sha256 s' where
  rows := hrows
  spent := hspent
  once := honce
  checks c hc := (hchecks c hc).elim (fun hold => h.check (hinv.checks c hold)) id
  answers a ha := (hanswers a ha).elim (fun hold => h.answer (hinv.answers a hold)) id
  lessons l hl := (hlessons l hl).elim (fun hold => h.lesson (hinv.lessons l hold)) id
  policies p hp := (hpolicies p hp).elim (fun hold => h.learned_policy (hinv.policies p hold)) id

/-- A row that is granted is only replaced by one that is granted for the same. -/
theorem granted_puts {x : IssueApproval} (h : Puts s.approvals s'.approvals x)
    (hx : ∀ r, s.approvals.get? x.id = some r → r.granted = true →
      x.granted = true ∧ x.issueId = r.issueId ∧ x.command = r.command)
    (q : Question) (id : UUID) (hgranted : Granted s q id) : Granted s' q id := by
  rcases hgranted with ⟨r, hr, hg, hsame⟩
  rw [Granted, h id]
  by_cases hid : id = x.id
  · subst hid
    rcases hx r hr hg with ⟨hxg, hissue, hcommand⟩
    refine ⟨x, if_pos rfl, hxg, ?_⟩
    rwa [sameAction, hissue, hcommand]
  · exact ⟨r, by rw [if_neg hid, hr], hg, hsame⟩

/-- Where the rows stay. -/
theorem Later.of_eq (happrovals : s'.approvals = s.approvals)
    (hspent : ∀ id ∈ s.spent, id ∈ s'.spent) (hlearned : s'.learned = s.learned) : Later s s' where
  granted q id hgranted := by rwa [Granted, happrovals]
  spent := hspent
  learned r hr := by rwa [hlearned]

end Later

/-! ## Steps -/

section Steps

variable {sha256 : ActionText → String} {s s' : State} {i : Nat} {c : Check}

theorem spent_concat (a : Answer) :
    (s.answers ++ [a]).filterMap Answer.approvalId = s.spent ++ a.approvalId.toList := by
  rw [List.filterMap_append, State.spent]
  cases ha : a.approvalId <;> simp [ha]

theorem mem_standing {issueId id : UUID} {command : String} :
    id ∈ s.standing issueId command ↔ ∃ r, s.approvals.get? id = some r ∧
      r.status = .approved ∧ sameAction issueId command r = true := by
  rw [State.standing, List.mem_map]
  constructor
  · rintro ⟨r, hr, rfl⟩
    rcases List.mem_filter.1 hr with ⟨hmem, hp⟩
    rw [Bool.and_eq_true, beq_iff_eq] at hp
    exact ⟨r, get?_of_mem hmem, hp.2, hp.1⟩
  · rintro ⟨r, hr, hs, hsame⟩
    refine ⟨r, List.mem_filter.2 ⟨mem_rows hr, ?_⟩, get?_id hr⟩
    rw [hsame, hs]
    rfl

theorem Inv.granted_standing (hinv : Inv sha256 s) {q : Question} {id : UUID}
    (h : id ∈ s.standing q.issue.id q.command) : Granted s q id := by
  rcases mem_standing.1 h with ⟨r, hr, hs, hsame⟩
  exact ⟨r, hr, hinv.rows.decided r (mem_rows hr) (.inl hs), hsame⟩

theorem matchPolicy_eq_true {q : PolicyTable} {workspaceId : UUID} {agentId : Option UUID}
    {ac : ActionClass} : matchPolicy q workspaceId agentId ac = true ↔
      ∃ p ∈ unrevoked q workspaceId, p.actionClass = ac ∧ p.applies agentId = true := by
  rw [matchPolicy, List.any_eq_true]
  simp only [Bool.and_eq_true, beq_iff_eq]

theorem inv_check (hinv : Inv sha256 s) {issue : Issue} {agentId : Option UUID} {command : String}
    (hfull : halfCovered s.policies issue.workspaceId agentId command = false) :
    Inv sha256 (s.check issue agentId command) := by
  let q : Question :=
    { issue, agentId, command
      policies := unrevoked s.policies issue.workspaceId
      standing := s.standing issue.id command }
  have hask : Inv sha256 { s with checks := s.checks ++ [{ question := q }] } := by
    refine hinv.later (.of_eq rfl (fun _ h => h) rfl) hinv.rows hinv.spent hinv.once ?_
      (fun _ => .inl) (fun _ => .inl) fun _ => .inl
    intro c hc
    refine (List.mem_append.1 hc).imp_right fun hnew => ?_
    obtain rfl := List.mem_singleton.1 hnew
    exact ⟨fun id hid => hinv.granted_standing (q := q) hid, fun id hid => by cases hid⟩
  unfold State.check
  split
  · rename_i ac hclass
    split
    · rename_i hmatch
      -- all classes of the command have a policy, since the first has one
      let s₁ : State := { s with answers := s.answers ++ [⟨q, .approved, none⟩] }
      have hspent : s₁.spent = s.spent :=
        (spent_concat ⟨q, .approved, none⟩).trans (List.append_nil _)
      have hlater : Later s s₁ := .of_eq rfl (fun id hid => hspent.symm ▸ hid) rfl
      refine hinv.later hlater hinv.rows ?_ ?_ (fun _ => .inl) ?_ (fun _ => .inl) fun _ => .inl
      · intro id
        rw [hspent]
        exact hinv.spent id
      · rw [hspent]
        exact hinv.once
      · intro a ha
        refine (List.mem_append.1 ha).imp_right fun hnew => ?_
        obtain rfl := List.mem_singleton.1 hnew
        refine ⟨fun id hid => (by cases hid), fun _ _ => ?_, fun _ _ => .inl rfl⟩
        refine ⟨(classifyCommand_operational hclass).1, fun p hp hpm => ?_⟩
        rw [halfCovered, hclass] at hfull
        simp only [hmatch, Bool.true_and] at hfull
        have hcovered := List.any_eq_false.1 hfull p hp
        rw [hpm, Bool.true_and, Bool.not_eq_true, Bool.not_eq_false'] at hcovered
        rcases matchPolicy_eq_true.1 hcovered with ⟨r, hr, hrc, happlies⟩
        have hlearned := hinv.policies r (List.mem_filter.1 hr).1
        exact ⟨r, hr, hrc, happlies, hlearned⟩
    · exact hask
  · exact hask

/-- A check is answered, and no approval that stood when it began stands still. -/
theorem inv_answer (hinv : Inv sha256 s) {d : Decision} (hd : d ≠ .approved)
    (hstanding : ∀ id ∈ c.question.standing, id ∈ s.spent) : Inv sha256 (s.answer i c d) := by
  have hspent : (s.answer i c d).spent = s.spent :=
    (spent_concat ⟨c.question, d, none⟩).trans (List.append_nil _)
  refine hinv.later (.of_eq rfl (fun id hid => hspent.symm ▸ hid) rfl) hinv.rows ?_ ?_
    (fun c' hc' => .inl (List.mem_of_mem_eraseIdx hc')) ?_ (fun _ => .inl) fun _ => .inl
  · intro id
    rw [hspent]
    exact hinv.spent id
  · rw [hspent]
    exact hinv.once
  · intro a ha
    refine (List.mem_append.1 ha).imp_right fun hnew => ?_
    obtain rfl := List.mem_singleton.1 hnew
    refine ⟨fun id hid => (by cases hid), fun happroved => absurd happroved hd, fun id hid => ?_⟩
    exact .inr (hspent.symm ▸ hstanding id hid)

theorem forAction_of_same (hinv : Inv sha256 s) {r : IssueApproval} (hr : r ∈ s.approvals.rows)
    {issueId : UUID} {command : String} (h : sameAction issueId command r = true) :
    forAction sha256 issueId command r = true := by
  rw [sameAction, Bool.and_eq_true, beq_iff_eq, beq_iff_eq] at h
  rw [forAction, Bool.and_eq_true, beq_iff_eq, beq_iff_eq, hinv.rows.key r hr, computeActionKey,
    computeActionKey, h.1, h.2]
  exact ⟨rfl, rfl⟩

theorem rival_of_forAction {r r' : IssueApproval} {issueId : UUID} {command : String}
    (h : forAction sha256 issueId command r = true)
    (h' : forAction sha256 issueId command r' = true) : Rival r r' := by
  rw [forAction, Bool.and_eq_true, beq_iff_eq, beq_iff_eq] at h h'
  exact ⟨h'.1.trans h.1.symm, h'.2.trans h.2.symm⟩

/-- Of the approvals that stood when the check began, one that stands still is the latest row. -/
theorem latest_of_standing (hinv : Inv sha256 s) (hc : c.Sound s) {pick : Option UUID}
    (hlatest : isLatest s.approvals (forAction sha256 c.question.issue.id c.question.command) pick =
      true) {id : UUID} (hid : id ∈ c.question.standing) :
    id ∈ s.spent ∨ pick = some id ∧ ∃ r, s.approvals.get? id = some r ∧ r.status = .approved := by
  rcases hc.standing id hid with ⟨r, hr, hgranted, hsame⟩
  rcases (granted_iff.1 hgranted).1 with happroved | hconsumed
  · refine .inr ⟨?_, r, hr, happroved⟩
    have hfor := forAction_of_same hinv (mem_rows hr) hsame
    have hpick := admissiblePicks_first hlatest (mem_rows hr) hfor fun r' hr' hfor' =>
      (hinv.rows.newest r (mem_rows hr) happroved r' hr' (rival_of_forAction hfor hfor')).imp_right
        decide_eq_true
    rw [get?_id hr] at hpick
    cases pick with
    | none => cases hpick
    | some k => rw [List.singleton_inj.1 hpick]
  · exact .inl ((hinv.spent id).2 ⟨r, hr, hconsumed⟩)

theorem inv_latest (hinv : Inv sha256 s) {pick : Option UUID} (hi : s.checks[i]? = some c)
    (hlatest : isLatest s.approvals (forAction sha256 c.question.issue.id c.question.command) pick =
      true)
    (hkeys : ∀ r ∈ s.approvals.rows,
      forAction sha256 c.question.issue.id c.question.command r = true →
        sameAction c.question.issue.id c.question.command r = true)
    (h : s.latest i c pick = some s') : Inv sha256 s' := by
  have hc := hinv.checks c (List.mem_of_getElem? hi)
  cases pick with
  | none =>
    obtain rfl := Option.some.inj h
    refine inv_answer hinv (by decide) fun id hid => ?_
    exact (latest_of_standing hinv hc hlatest hid).resolve_right fun hpick => by cases hpick.1
  | some k =>
    rcases Option.map_eq_some_iff.1 h with ⟨r, hr, rfl⟩
    -- the row that was picked is not an approved one, so none stands
    have hnone (hs : r.status ≠ .approved) : ∀ id ∈ c.question.standing, id ∈ s.spent := by
      intro id hid
      refine (latest_of_standing hinv hc hlatest hid).resolve_right ?_
      rintro ⟨hpick, r', hr', hs'⟩
      obtain rfl := Option.some.inj hpick
      obtain rfl := Option.some.inj (hr.symm.trans hr')
      exact hs hs'
    cases hs : r.status with
    | approved =>
      simp only
      refine hinv.later (.of_eq rfl (fun _ h => h) rfl) hinv.rows hinv.spent hinv.once ?_
        (fun _ => .inl) (fun _ => .inl) fun _ => .inl
      intro c' hc'
      refine (List.mem_or_eq_of_mem_set hc').imp_right ?_
      rintro rfl
      refine ⟨hc.standing, fun id hid => ?_⟩
      obtain rfl := CheckPhase.consume.inj hid
      rcases admissiblePicks_mem hlatest (List.mem_singleton.2 rfl) with ⟨r', hr', hk, hfor, -⟩
      obtain rfl : r = r' := Option.some.inj (hr.symm.trans (hk ▸ get?_of_mem hr'))
      refine ⟨⟨r, hr, hinv.rows.decided r hr' (.inl hs), hkeys r hr' hfor⟩, fun id' hid' => ?_⟩
      rcases latest_of_standing hinv hc hlatest hid' with hspent | ⟨hpick, -⟩
      · exact .inr hspent
      · exact .inl (Option.some.inj hpick).symm
    | consumed => exact inv_answer hinv (by decide) (hnone (by simp [hs]))
    | pending => exact inv_answer hinv (by decide) (hnone (by simp [hs]))
    | rejected => exact inv_answer hinv (by decide) (hnone (by simp [hs]))

theorem inv_consume (hinv : Inv sha256 s) {id : UUID} (hi : s.checks[i]? = some c)
    (hphase : c.phase = .consume id) : Inv sha256 (s.consume i c id) := by
  rcases (hinv.checks c (List.mem_of_getElem? hi)).consume id hphase with
    ⟨⟨r, hr, hgranted, hsame⟩, hothers⟩
  unfold State.consume
  split
  · rename_i q' hconsume
    rcases consumeApproval_spec hconsume with ⟨r', hr', hs, hputs⟩
    obtain rfl : r = r' := Option.some.inj (hr.symm.trans hr')
    have hfresh : id ∉ s.spent := by
      intro hspent
      rcases (hinv.spent id).1 hspent with ⟨r', hr', hs'⟩
      obtain rfl : r = r' := Option.some.inj (hr.symm.trans hr')
      cases hs.symm.trans hs'
    have hmember := (granted_iff.1 hgranted).2
    have hid : r.id = id := get?_id hr
    let s₁ : State :=
      { s with
        approvals := q'
        checks := s.checks.eraseIdx i
        answers := s.answers ++ [⟨c.question, .approved, some id⟩] }
    have hspent : s₁.spent = s.spent ++ [id] := spent_concat ⟨c.question, .approved, some id⟩
    have hlater : Later s s₁ := by
      refine ⟨granted_puts hputs ?_, fun k hk => ?_, fun _ h => h⟩
      · intro r' hr' _
        obtain rfl : r = r' := Option.some.inj (hr.symm.trans (get?_id hr ▸ hr'))
        exact ⟨granted_iff.2 ⟨.inr rfl, hmember⟩, rfl, rfl⟩
      · rw [hspent]
        exact List.mem_append_left _ hk
    have hrows : Rows sha256 q' :=
      hinv.rows.restatus (mem_rows hr) hputs (fun h => by cases h) fun _ => hmember
    refine hinv.later hlater hrows ?_ ?_ (fun c' hc' => .inl (List.mem_of_mem_eraseIdx hc')) ?_
      (fun _ => .inl) fun _ => .inl
    · intro k
      rw [hspent, List.mem_append, List.mem_singleton, hinv.spent k]
      constructor
      · rintro (⟨x, hx, hxs⟩ | rfl)
        · refine ⟨x, ?_, hxs⟩
          rw [hputs k, if_neg ?_, hx]
          rintro rfl
          exact hfresh ((hinv.spent _).2 ⟨x, get?_id hr ▸ hx, hxs⟩)
        · refine ⟨{ r with status := .consumed }, ?_, rfl⟩
          rw [hputs k, if_pos (get?_id hr).symm]
      · rintro ⟨x, hx, hxs⟩
        rcases hputs.get? hx with rfl | ⟨-, hx⟩
        · exact .inr ((get?_id hx).symm.trans hid)
        · exact .inl ⟨x, hx, hxs⟩
    · rw [hspent]
      exact List.nodup_append.2 ⟨hinv.once, List.nodup_singleton id, fun k hk k' hk' =>
        fun heq => hfresh (List.mem_singleton.1 hk' ▸ heq ▸ hk)⟩
    · intro a ha
      refine (List.mem_append.1 ha).imp_right fun hnew => ?_
      obtain rfl := List.mem_singleton.1 hnew
      refine ⟨fun k hk => ?_, fun _ hnone => (by cases hnone), fun _ _ => .inl rfl⟩
      obtain rfl := Option.some.inj hk
      exact hlater.granted _ _ ⟨r, hr, hgranted, hsame⟩
  · -- another check has consumed it
    rename_i hconsume
    have hspent : id ∈ s.spent := by
      have hs := (granted_iff.1 hgranted).1.resolve_left
        (not_approved_of_consumeApproval hconsume hr)
      exact (hinv.spent id).2 ⟨r, hr, hs⟩
    refine inv_answer hinv (by decide) fun id' hid' => ?_
    rcases hothers id' hid' with rfl | hid'
    · exact hspent
    · exact hid'

theorem inv_insert (hinv : Inv sha256 s) {x : IssueApproval} {q' : ApprovalTable}
    (hins : s.approvals.insert? x = some q') (hpending : x.status = .pending)
    (hkey : x.actionKey = computeActionKey sha256 x.issueId x.command)
    (hrivals : ∀ r ∈ s.approvals.rows, r.status = .approved → ¬ Rival r x) :
    Inv sha256 { s with approvals := q', requests := s.requests.eraseIdx i } := by
  have hputs := puts_insert hins
  have hnone : s.approvals.get? x.id = none := by
    refine Option.eq_none_iff_forall_ne_some.2 fun r hr => ?_
    have hsome : (s.approvals.insert? x).isSome := by rw [hins]; rfl
    exact (Table.insert?_isSome.1 hsome).1 r (mem_rows hr) (get?_id hr)
  have hlater : Later s { s with approvals := q', requests := s.requests.eraseIdx i } := by
    refine ⟨granted_puts hputs fun r hr _ => ?_, fun _ h => h, fun _ h => h⟩
    cases hnone.symm.trans hr
  have hrows : Rows sha256 q' := by
    refine hinv.rows.puts hputs hkey (fun hs => ?_) (fun r hr _ hs hrival => ?_) fun hs => ?_
    · cases hpending.symm.trans hs
    · exact absurd hrival (hrivals r hr hs)
    · rcases hs with hs | hs
      · cases hpending.symm.trans hs
      · cases hpending.symm.trans hs
  refine hinv.later hlater hrows (fun id => (hinv.spent id).trans ?_) hinv.once (fun _ => .inl)
    (fun _ => .inl) (fun _ => .inl) fun _ => .inl
  constructor
  · rintro ⟨r, hr, hs⟩
    refine ⟨r, ?_, hs⟩
    rw [hputs, if_neg ?_, hr]
    rintro rfl
    cases hnone.symm.trans hr
  · rintro ⟨r, hr, hs⟩
    rcases hputs.get? hr with rfl | ⟨-, hr⟩
    · cases hpending.symm.trans hs
    · exact ⟨r, hr, hs⟩

/-- A pending row is decided. -/
theorem inv_decided (hinv : Inv sha256 s) {r : IssueApproval} {q' : ApprovalTable}
    (hr : r ∈ s.approvals.rows) (hpending : r.status = .pending) {status : Status} {member : UUID}
    (hputs : Puts s.approvals q' { r with status := status, decidedByMember := some member })
    (hstatus : status ≠ .consumed)
    (hnewest : status = .approved → ∀ r' ∈ s.approvals.rows, r'.id ≠ r.id → Rival r r' →
      r'.createdAt < r.createdAt) :
    Later s { s with approvals := q' } ∧ Inv sha256 { s with approvals := q' } := by
  have hget := get?_of_mem hr
  have hlater : Later s { s with approvals := q' } := by
    refine ⟨granted_puts hputs fun r' hr' hgranted => ?_, fun _ h => h, fun _ h => h⟩
    obtain rfl : r = r' := Option.some.inj (hget.symm.trans hr')
    rcases (granted_iff.1 hgranted).1 with hs | hs
    · cases hpending.symm.trans hs
    · cases hpending.symm.trans hs
  have hrows : Rows sha256 q' := hinv.rows.restatus hr hputs hnewest fun _ => rfl
  refine ⟨hlater, hinv.later hlater hrows (fun id => (hinv.spent id).trans ?_) hinv.once
    (fun _ => .inl) (fun _ => .inl) (fun _ => .inl) fun _ => .inl⟩
  constructor
  · rintro ⟨x, hx, hs⟩
    refine ⟨x, ?_, hs⟩
    rw [hputs, if_neg ?_, hx]
    rintro rfl
    obtain rfl : r = x := Option.some.inj (hget.symm.trans hx)
    cases hpending.symm.trans hs
  · rintro ⟨x, hx, hs⟩
    rcases hputs.get? hx with rfl | ⟨-, hx⟩
    · exact absurd hs hstatus
    · exact ⟨x, hx, hs⟩

/-- A lesson is given: what it is about and the lesson itself are noted. -/
theorem inv_lesson (hinv : Inv sha256 s) {d : IssueApproval} {member : UUID}
    (hd : d.decidedByMember = some member) (lessons : List Lesson)
    (hlessons : ∀ l ∈ lessons, l.decided = d ∧ l.member = member) :
    Inv sha256 { s with learned := s.learned ++ [d], lessons := s.lessons ++ lessons } := by
  have hlater : Later s { s with learned := s.learned ++ [d], lessons := s.lessons ++ lessons } :=
    ⟨fun _ _ h => h, fun _ h => h, fun _ h => List.mem_append_left _ h⟩
  refine hinv.later hlater hinv.rows hinv.spent hinv.once (fun _ => .inl) (fun _ => .inl) ?_
    fun _ => .inl
  intro l hl
  refine (List.mem_append.1 hl).imp_right fun hnew => ?_
  rcases hlessons l hnew with ⟨hdecided, hmember⟩
  exact ⟨hdecided ▸ List.mem_append_right _ List.mem_cons_self, by rw [hdecided, hmember, hd]⟩

theorem inv_decide (hinv : Inv sha256 s) {userId approvalId : UUID} {issue : Issue}
    {decision : DecisionRequest}
    (hok : unslipped sha256 s (.decide (.member userId) issue approvalId decision) = true) :
    Inv sha256 (s.decide userId issue approvalId decision) := by
  cases decision with
  | reject =>
    simp only [State.decide]
    split
    · exact hinv
    · rename_i hdecide
      rcases decideApproval_spec hdecide with ⟨r, hr, -, hs, rfl, hputs⟩
      exact (inv_decided hinv (mem_rows hr) hs hputs (by decide) fun h => by cases h).2
  | approve learn =>
    simp only [State.decide]
    split
    · exact hinv
    · rename_i q' d hdecide
      rcases decideApproval_spec hdecide with ⟨r, hr, hw, hs, hdr, hputs⟩
      have hd : d.decidedByMember = some userId := by rw [hdr]
      rw [hdr] at hputs
      have hnewest : ∀ r' ∈ s.approvals.rows, r'.id ≠ r.id → Rival r r' →
          r'.createdAt < r.createdAt := by
        intro r' hr' hne hrival
        simp only [unslipped, hr, Option.all_some, hw, hs, beq_self_eq_true, Bool.and_self,
          Bool.not_true, Bool.false_or, List.all_eq_true] at hok
        have hlt := hok r' hr'
        rw [hrival.1, hrival.2] at hlt
        simpa [hne] using hlt
      have hinv' := (inv_decided hinv (mem_rows hr) hs hputs (by decide) fun _ => hnewest).2
      split
      · split
        · rename_i ac _
          refine inv_lesson hinv' hd [⟨_, ac, userId⟩] fun l hl => ?_
          obtain rfl := List.mem_singleton.1 hl
          exact ⟨rfl, rfl⟩
        · have hlesson := inv_lesson hinv' hd [] fun l hl => by cases hl
          rwa [List.append_nil] at hlesson
      · exact hinv'

theorem inv_learn (hinv : Inv sha256 s) {l : Lesson} (hl : s.lessons[i]? = some l) {id : UUID}
    {now : Int} {q' : PolicyTable}
    (hins : s.policies.insert? ⟨id, l.decided.workspaceId, l.decided.requestedByAgent,
      l.actionClass, l.decided.id, l.member, now, none⟩ = some q') :
    Inv sha256 { s with policies := q', lessons := s.lessons.eraseIdx i } := by
  refine hinv.later (.of_eq rfl (fun _ h => h) rfl) hinv.rows hinv.spent hinv.once (fun _ => .inl)
    (fun _ => .inl) (fun l' hl' => .inl (List.mem_of_mem_eraseIdx hl')) ?_
  intro p hp
  refine ((Table.mem_insert? hins).1 hp).imp_right ?_
  rintro rfl
  rcases hinv.lessons l (List.mem_of_getElem? hl) with ⟨hdecided, hmember⟩
  exact ⟨l.decided, hdecided, rfl, hmember, rfl⟩

theorem learned_revoke {member policyId workspaceId : UUID} {p : ApprovalPolicy}
    (hp : p ∈ (revokePolicy s.policies member policyId workspaceId).rows)
    (h : ∀ p ∈ s.policies.rows, s.Learned p) : s.Learned p := by
  unfold revokePolicy at hp
  split at hp
  · have hf (p : ApprovalPolicy) : policySchema.key { p with revokedBy := some member } =
        policySchema.key p := rfl
    rcases Table.mem_modify hf (fun _ => rfl) hp with ⟨hold, -⟩ | ⟨p', hold, -, rfl⟩
    · exact h p hold
    · exact h p' hold
  · exact h p hp

theorem inv_step (hinv : Inv sha256 s) {a : Act} (hok : unslipped sha256 s a = true)
    (h : next sha256 s a = some s') : Inv sha256 s' := by
  cases a with
  | check issue agentId command =>
    change ite _ _ _ = _ at h
    split at h
    · exact Option.some.inj h ▸ hinv
    · obtain rfl := Option.some.inj h
      rw [unslipped, Bool.not_eq_true'] at hok
      exact inv_check hinv hok
  | latest i pick =>
    rcases Option.bind_eq_some_iff.1 h with ⟨c, hc, hlatest⟩
    split at hlatest
    · rename_i hpick
      refine inv_latest hinv hc hpick.2 (fun r hr hfor => ?_) hlatest
      rw [unslipped, hc, Option.all_some, List.all_eq_true] at hok
      have hkeys := hok r hr
      rwa [hfor, Bool.not_true, Bool.false_or] at hkeys
    · cases hlatest
  | consume i =>
    rcases Option.bind_eq_some_iff.1 h with ⟨c, hc, hconsume⟩
    split at hconsume
    · rename_i id hphase
      obtain rfl := Option.some.inj hconsume
      exact inv_consume hinv hc hphase
    · cases hconsume
  | request issue agentId command =>
    change ite _ _ _ = _ at h
    split at h
    · exact Option.some.inj h ▸ hinv
    · split at h
      · exact Option.some.inj h ▸ hinv
      · obtain rfl := Option.some.inj h
        exact hinv.later (.of_eq rfl (fun _ h => h) rfl) hinv.rows hinv.spent hinv.once
          (fun _ => .inl) (fun _ => .inl) (fun _ => .inl) fun _ => .inl
  | insert i id now =>
    rcases Option.bind_eq_some_iff.1 h with ⟨r, hr, hins⟩
    rcases Option.map_eq_some_iff.1 hins with ⟨q', hq', rfl⟩
    refine inv_insert hinv hq' rfl rfl fun r' hr' hs hrival => ?_
    rw [unslipped, hr, Option.all_some, List.all_eq_true] at hok
    have hrivals := hok r' hr'
    rw [hs, beq_self_eq_true, Bool.and_true, Bool.not_eq_true', forAction, ← hrival.1,
      ← hrival.2, beq_self_eq_true, beq_self_eq_true] at hrivals
    cases hrivals
  | decide actor issue approvalId decision =>
    cases actor with
    | agent _ => exact Option.some.inj h ▸ hinv
    | member userId =>
      obtain rfl := Option.some.inj h
      exact inv_decide hinv hok
  | learn i id now =>
    rcases Option.bind_eq_some_iff.1 h with ⟨l, hl, hins⟩
    rcases Option.map_eq_some_iff.1 hins with ⟨q', hq', rfl⟩
    exact inv_learn hinv hl hq'
  | revoke actor workspaceId policyId =>
    cases actor with
    | agent _ => exact Option.some.inj h ▸ hinv
    | member userId =>
      obtain rfl := Option.some.inj h
      exact hinv.later (.of_eq rfl (fun _ h => h) rfl) hinv.rows hinv.spent hinv.once
        (fun _ => .inl) (fun _ => .inl) (fun _ => .inl)
        fun p hp => .inr (learned_revoke (s := s) hp hinv.policies)

theorem inv_initial (h : s.Initial) : Inv sha256 s := by
  have hspent : s.spent = [] := by rw [State.spent, h.answers, List.filterMap_nil]
  have hnone {k : UUID} {r : IssueApproval} (hr : s.approvals.get? k = some r) : False := by
    have hmem := mem_rows hr
    rw [h.approvals] at hmem
    cases hmem
  refine ⟨⟨?_, ?_, ?_⟩, ?_, ?_, ?_, ?_, ?_, ?_⟩
  · simp [h.approvals]
  · simp [h.approvals]
  · simp [h.approvals]
  · intro id
    rw [hspent]
    exact ⟨fun hid => (by cases hid), fun ⟨r, hr, _⟩ => (hnone hr).elim⟩
  · rw [hspent]
    exact List.nodup_nil
  · simp [h.checks]
  · simp [h.answers]
  · simp [h.lessons]
  · simp [h.policies]

theorem inv_reachable : ∀ s, (machine sha256).ReachableUnder
    (fun s a => unslipped sha256 s a = true) s → Inv sha256 s :=
  Machine.invariant_under (fun _ => inv_initial) fun _ _ _ _ hinv hok hn => inv_step hinv hok hn

end Steps

/-! ## Runs -/

theorem approval_gated (sha256 : ActionText → String) : ∀ s, (machine sha256).ReachableUnder
    (fun s a => unslipped sha256 s a = true) s → s.Gated :=
  fun s hs => (inv_reachable s hs).gated

def unasked : State := { approvals := .empty, policies := .empty }

theorem initial_unasked : unasked.Initial := ⟨rfl, rfl, rfl, rfl, rfl⟩

/-- The text in place of its hash. -/
def keyText (t : ActionText) : String :=
  String.ofList ((toString t.issueId).toList ++ ':' :: t.command)

def issue7 : Issue := ⟨7, 1⟩

/-- A request is approved to be learned, and its command is checked twice. -/
def learnt : List Act :=
  [.request issue7 (some 5) "git push origin main", .insert 0 20 100,
    .decide (.member 3) issue7 20 (.approve true), .check issue7 (some 5) "git  push origin main",
    .latest 0 (some 20), .consume 0, .learn 0 30 110, .check issue7 (some 5) "git push"]

theorem approval_gated_learnt : ∃ s : State,
    s.answers.map (fun a => (a.decision, a.approvalId)) =
      [(.approved, some 20), (.approved, none)] ∧ s.Gated := by
  rcases Machine.reachableUnder_of_run (machine keyText) (unslipped keyText) initial_unasked learnt
    (fun s => s.answers.map (fun a => (a.decision, a.approvalId)) ==
      [(.approved, some 20), (.approved, none)]) (by decide +kernel) with ⟨s, hs, hanswers⟩
  exact ⟨s, beq_iff_eq.1 hanswers, approval_gated keyText s hs⟩

/-- Two requests of one command find none pending, and the older one is approved. -/
def racing : List Act :=
  [.request issue7 (some 5) "git push", .request issue7 (some 5) "git  push", .insert 0 20 100,
    .insert 0 21 101, .decide (.member 3) issue7 20 (.approve false),
    .check issue7 (some 5) "git push", .latest 0 (some 21)]

/-- A request joins an approved one. -/
def joined : List Act :=
  [.request issue7 (some 5) "git push", .insert 0 20 100,
    .decide (.member 3) issue7 20 (.approve false), .request issue7 (some 5) "git push",
    .insert 0 21 101, .check issue7 (some 5) "git push", .latest 0 (some 21)]

/-- A policy for the first class lets a command of two classes pass. -/
def compound : List Act :=
  [.request issue7 (some 5) "gh pr merge 1", .insert 0 20 100,
    .decide (.member 3) issue7 20 (.approve true), .learn 0 30 110,
    .check issue7 (some 5) "gh pr merge 2 && git push origin main"]

/-- An approval stands, and the check is not answered by it. -/
def passedOver (s : State) : Bool :=
  s.answers.any fun a => a.question.standing.any fun id =>
    a.decision != .approved && !s.spent.contains id

/-- A policy answers, and a class has none. -/
def uncovered (s : State) : Bool :=
  s.answers.any fun a => a.decision == .approved && a.approvalId.isNone &&
    operationalPatterns.any fun p => p.matches a.question.command &&
      a.question.policies.all fun q => q.actionClass != p.actionClass

theorem not_gated_of_passedOver {s : State} (h : passedOver s = true) : ¬ s.Gated := by
  intro hgated
  rcases List.any_eq_true.1 h with ⟨a, ha, hstanding⟩
  rcases List.any_eq_true.1 hstanding with ⟨id, hid, hpassed⟩
  rw [Bool.and_eq_true, bne_iff_ne, Bool.not_eq_true'] at hpassed
  rcases hgated.honoured a ha id hid with happroved | hspent
  · exact hpassed.1 happroved
  · cases hpassed.2.symm.trans (List.contains_iff_mem.2 hspent)

theorem not_gated_of_uncovered {s : State} (h : uncovered s = true) : ¬ s.Gated := by
  intro hgated
  rcases List.any_eq_true.1 h with ⟨a, ha, h⟩
  rw [Bool.and_eq_true, Bool.and_eq_true, beq_iff_eq, Option.isNone_iff_eq_none] at h
  rcases List.any_eq_true.1 h.2 with ⟨p, hp, hnone⟩
  rw [Bool.and_eq_true, List.all_eq_true] at hnone
  rcases (hgated.covered a ha h.1.1 h.1.2).2 p hp hnone.1 with ⟨q, hq, hclass, -⟩
  exact bne_iff_ne.1 (hnone.2 q hq) hclass

/-- Each of the three ways to slip leads to a wrong answer. -/
theorem slips : ∀ run ∈ [racing, joined, compound], ∃ s : State,
    (machine keyText).Reachable s ∧ ¬ s.Gated := by
  intro run hrun
  have hslip : ((machine keyText).run unasked run).any
      (fun s => passedOver s || uncovered s) = true := by
    simp only [List.mem_cons, List.not_mem_nil, or_false] at hrun
    rcases hrun with rfl | rfl | rfl <;> decide +kernel
  rcases Machine.reachable_of_run (machine keyText) initial_unasked run _ hslip with ⟨s, -, hs, hp⟩
  rw [Bool.or_eq_true] at hp
  exact ⟨s, hs, hp.elim not_gated_of_passedOver not_gated_of_uncovered⟩

theorem gate_slips : ¬ ∀ s, (machine keyText).Reachable s → s.Gated := by
  intro hclaim
  rcases slips _ List.mem_cons_self with ⟨s, hs, hnot⟩
  exact hnot (hclaim s hs)

end Orynx.Approval
