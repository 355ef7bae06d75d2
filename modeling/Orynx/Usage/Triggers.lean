import Orynx.Usage.Tables

/-! # What the triggers cover

A statement takes rows out of a bucket, puts rows in, or sets them, and the rollup finds out either
by a key in the queue or by the time of a row.

* `Linked`: a usage row has its task, a task its agent and an issue of the agent's workspace;
* `covered`: a statement changes the rows of a bucket only if a trigger names the bucket, or a row
  that is then in it has the time of the statement.
-/

namespace Orynx.Usage.Tables

open Lib

/-! ## Links -/

/-- A usage row has its task, and a task its agent and its issue. -/
structure Linked (T : Tables) : Prop where
  usage : ∀ u ∈ T.usage.rows, (T.tasks.get? u.taskId).isSome
  tasks : ∀ t ∈ T.tasks.rows, T.links t = true

/-- A statement changes the rows of the bucket only if a trigger names it or they have its time. -/
def Covers (T T' : Tables) (now : Int) (keys : List Key) (k : Key) : Prop :=
  k ∈ keys ∨ T'.rowsOf k = T.rowsOf k ∨ ∃ u ∈ T'.rowsOf k, u.touchedAt = now

/-- What a statement does where no constraint refuses it. -/
inductive Effect (T : Tables) (now : Int) : Mutation → Tables → Prop where
  | upsertTaskUsage {taskId : UUID} (provider model : String) (i o r w : Int)
      (htask : (T.tasks.get? taskId).isSome) :
      Effect T now (.upsertTaskUsage taskId provider model i o r w) { T with
        usage := T.usage.upsert ⟨taskId, provider, model, i, o, r, w, now, some now⟩
          (TaskUsage.setTokens now i o r w) }
  | deleteTaskUsage (taskId : UUID) (provider model : String) :
      Effect T now (.deleteTaskUsage taskId provider model) { T with
        usage := T.usage.filter fun u => usageSchema.key u != ⟨taskId, provider, model⟩ }
  | noTask (id : UUID) (runtimeId issueId : Option UUID) :
      Effect T now (.updateTask id runtimeId issueId) T
  | updateTask {id : UUID} {issueId : Option UUID} {task : Task} (runtimeId : Option UUID)
      (htask : T.tasks.get? id = some task)
      (hlinks : T.links { task with issueId := issueId } = true) :
      Effect T now (.updateTask id runtimeId issueId) { T with
        tasks := T.tasks.exec (updateTaskStmt id runtimeId issueId) }
  | deleteTask (id : UUID) :
      Effect T now (.deleteTask id) { T with
        tasks := T.tasks.filter fun t => t.id != id
        usage := T.usage.filter fun u => u.taskId != id }
  | updateIssueProject (id : UUID) (projectId : Option UUID) :
      Effect T now (.updateIssueProject id projectId) { T with
        issues := T.issues.exec (updateIssueProjectStmt id projectId) }
  | deleteIssue (id : UUID) :
      Effect T now (.deleteIssue id) { T with
        issues := T.issues.filter fun r => r.id != id
        tasks := T.tasks.filter fun t => t.issueId != some id
        usage := T.usage.filter fun u =>
          !(T.tasks.get? u.taskId).any fun t => t.issueId == some id }
  | createTask {task : Task} {tasks : Table taskSchema} (hlinks : T.links task = true)
      (hins : T.tasks.insert? task = some tasks) :
      Effect T now (.createTask task) { T with tasks := tasks }
  | createIssue {issue : Issue} {issues : Table issueSchema}
      (hins : T.issues.insert? issue = some issues) :
      Effect T now (.createIssue issue) { T with issues := issues }
  | createAgent {agent : Agent} {agents : Table agentSchema}
      (hins : T.agents.insert? agent = some agents) :
      Effect T now (.createAgent agent) { T with agents := agents }

section Statements

variable {T T' : Tables} {now : Int} {k : Key} {u : TaskUsage} {t : Task} {id : UUID}

theorem mem_rowsOf : u ∈ T.rowsOf k ↔ u ∈ T.usage.rows ∧ T.bucket u = some k := by
  rw [rowsOf, List.mem_filter, beq_iff_eq]

theorem links_iff : T.links t = true ↔ ∃ agent, T.agents.get? t.agentId = some agent ∧
    ∀ id, t.issueId = some id →
      ∃ issue, T.issues.get? id = some issue ∧ issue.workspaceId = agent.workspaceId := by
  rw [links, Option.any_eq_true]
  refine exists_congr fun agent => and_congr_right fun _ => ?_
  rw [Option.all_eq_true]
  refine forall₂_congr fun id _ => ?_
  rw [Option.any_eq_true]
  simp only [beq_iff_eq]

/-- Agents stay, and issues stay in their workspace. -/
theorem links_mono (hagents : ∀ id a, T.agents.get? id = some a → T'.agents.get? id = some a)
    (hissues : ∀ id r, t.issueId = some id → T.issues.get? id = some r →
      ∃ r', T'.issues.get? id = some r' ∧ r'.workspaceId = r.workspaceId)
    (h : T.links t = true) : T'.links t = true := by
  rcases links_iff.1 h with ⟨agent, hagent, hissue⟩
  refine links_iff.2 ⟨agent, hagents _ _ hagent, fun id hid => ?_⟩
  rcases hissue id hid with ⟨r, hr, hworkspace⟩
  rcases hissues id r hid hr with ⟨r', hr', hworkspace'⟩
  exact ⟨r', hr', hworkspace'.trans hworkspace⟩

theorem taskKey_congr (hagent : T'.agents.get? t.agentId = T.agents.get? t.agentId)
    (hproject : T'.projectOf t.issueId = T.projectOf t.issueId) :
    T'.taskKey t u = T.taskKey t u := by
  rw [taskKey, taskKey, hagent, hproject]

theorem bucket_congr (htask : T'.tasks.get? u.taskId = T.tasks.get? u.taskId)
    (hkey : ∀ t, T.tasks.get? u.taskId = some t → T'.taskKey t u = T.taskKey t u) :
    T'.bucket u = T.bucket u := by
  rw [bucket, bucket, htask]
  cases hget : T.tasks.get? u.taskId with
  | none => rfl
  | some t => exact hkey t hget

/-- The rows of the bucket are the same if the kept rows are in it as before. -/
theorem rowsOf_filter {keep : TaskUsage → Bool}
    (husage : T'.usage.rows = T.usage.rows.filter keep)
    (h : ∀ u ∈ T.usage.rows, T'.bucket u = some k ∧ keep u = true ↔ T.bucket u = some k) :
    T'.rowsOf k = T.rowsOf k := by
  rw [rowsOf, rowsOf, husage, List.filter_filter]
  refine List.filter_congr fun u hu => ?_
  rw [Bool.eq_iff_iff, Bool.and_eq_true, beq_iff_eq, beq_iff_eq]
  exact h u hu

theorem rowsOf_congr (husage : T'.usage = T.usage)
    (h : ∀ u ∈ T.usage.rows, T'.bucket u = some k ↔ T.bucket u = some k) :
    T'.rowsOf k = T.rowsOf k := by
  rw [rowsOf, rowsOf, husage]
  refine List.filter_congr fun u hu => ?_
  rw [Bool.eq_iff_iff, beq_iff_eq, beq_iff_eq]
  exact h u hu

theorem mem_taskKeys (hu : u ∈ T.usage.rows) (ht : u.taskId = t.id) (hk : T.taskKey t u = some k) :
    k ∈ T.taskKeys t :=
  List.mem_filterMap.2 ⟨u, List.mem_filter.2 ⟨hu, beq_iff_eq.2 ht⟩, hk⟩

theorem mem_issueKeys {issue : Issue} {runtimeId : UUID} {projectId : Option UUID}
    (hu : u ∈ T.usage.rows) (ht : t ∈ T.tasks.rows) (hissue : t.issueId = some issue.id)
    (hruntime : t.runtimeId = some runtimeId) (htask : u.taskId = t.id) :
    keyAt issue.workspaceId runtimeId t.agentId projectId u ∈ T.issueKeys issue projectId := by
  refine List.mem_flatMap.2 ⟨t, List.mem_filter.2 ⟨ht, beq_iff_eq.2 hissue⟩, ?_⟩
  rw [hruntime]
  exact List.mem_map_of_mem (List.mem_filter.2 ⟨hu, beq_iff_eq.2 htask⟩)

/-- A task under an issue has its buckets in the issue's workspace. -/
theorem taskKey_of_issue (hlinked : T.Linked) {issue : Issue} (ht : t ∈ T.tasks.rows)
    (hissue : T.issues.get? id = some issue) (hid : t.issueId = some id)
    (hk : T.taskKey t u = some k) : ∃ runtimeId, t.runtimeId = some runtimeId ∧
      k = keyAt issue.workspaceId runtimeId t.agentId issue.projectId u := by
  rcases links_iff.1 (hlinked.tasks t ht) with ⟨agent, hagent, hworkspace⟩
  rcases hworkspace id hid with ⟨issue', hissue', hsame⟩
  obtain rfl := Option.some.inj (hissue.symm.trans hissue')
  rw [taskKey, hagent, Option.bind_eq_some_iff] at hk
  rcases hk with ⟨runtimeId, hruntime, hk⟩
  refine ⟨runtimeId, hruntime, ?_⟩
  rw [Option.map_some, Option.some.injEq, projectOf, hid, Option.bind_some, hissue,
    Option.bind_some, ← hsame] at hk
  exact hk.symm

/-! ## What a statement changes -/

theorem tasks_get? (x : UUID) (runtimeId issueId : Option UUID) :
    (T.tasks.exec (updateTaskStmt id runtimeId issueId)).get? x =
      (T.tasks.get? x).map (updateTaskStmt id runtimeId issueId).apply := by
  have hkey (t : Task) : ((updateTaskStmt id runtimeId issueId).apply t).id = t.id := by
    unfold Update.apply
    split
    · rfl
    · rfl
  exact Table.get?_update? hkey (Table.update?_eq_exec hkey fun _ => rfl) x

theorem issues_get? (x : UUID) (projectId : Option UUID) :
    (T.issues.exec (updateIssueProjectStmt id projectId)).get? x =
      (T.issues.get? x).map (updateIssueProjectStmt id projectId).apply := by
  have hkey (r : Issue) : ((updateIssueProjectStmt id projectId).apply r).id = r.id := by
    unfold Update.apply
    split
    · rfl
    · rfl
  exact Table.get?_update? hkey (Table.update?_eq_exec hkey fun _ => rfl) x

/-- An update of one row leaves a row with another id. -/
theorem tasks_get?_other {x : UUID} (h : x ≠ id) (runtimeId issueId : Option UUID) :
    (T.tasks.exec (updateTaskStmt id runtimeId issueId)).get? x = T.tasks.get? x := by
  rw [tasks_get?]
  cases hget : T.tasks.get? x with
  | none => rfl
  | some t =>
    have ht : t.id ≠ id := fun hid => h ((Table.get?_eq_some.1 hget).2.symm.trans hid)
    rw [Option.map_some, Update.apply_of_not_sel (beq_eq_false_iff_ne.2 ht)]

theorem issues_get?_other {x : UUID} (h : x ≠ id) (projectId : Option UUID) :
    (T.issues.exec (updateIssueProjectStmt id projectId)).get? x = T.issues.get? x := by
  rw [issues_get?]
  cases hget : T.issues.get? x with
  | none => rfl
  | some r =>
    have hr : r.id ≠ id := fun hid => h ((Table.get?_eq_some.1 hget).2.symm.trans hid)
    rw [Option.map_some, Update.apply_of_not_sel (beq_eq_false_iff_ne.2 hr)]

section Upsert

variable {row : TaskUsage} {i o r w : Int}

theorem setTokens_key (now : Int) (i o r w : Int) (u : TaskUsage) :
    usageSchema.key (u.setTokens now i o r w) = usageSchema.key u := rfl

/-- The update of the row with the key. -/
def setRow (row : TaskUsage) (now : Int) (i o r w : Int) : Update TaskUsage :=
  ⟨fun u => usageSchema.key u == usageSchema.key row, TaskUsage.setTokens now i o r w⟩

theorem setRow_other (h : usageSchema.key u ≠ usageSchema.key row) :
    (setRow row now i o r w).apply u = u :=
  Update.apply_of_not_sel (beq_eq_false_iff_ne.2 h)

theorem setRow_bucket (u : TaskUsage) :
    T.bucket ((setRow row now i o r w).apply u) = T.bucket u := by
  unfold Update.apply
  split
  · rfl
  · rfl

/-- The insert adds its row, or the update sets the row that is there. -/
theorem upsert_rows (row : TaskUsage) (now : Int) (i o r w : Int) :
    (T.usage.upsert row (TaskUsage.setTokens now i o r w)).rows = T.usage.rows ++ [row] ∨
      (T.usage.upsert row (TaskUsage.setTokens now i o r w)).rows =
        T.usage.rows.map (setRow row now i o r w).apply := by
  rw [Table.upsert]
  cases hins : T.usage.insert? row with
  | some usage =>
    rw [Option.getD_some]
    exact .inl (Table.insert?_rows hins)
  | none =>
    rw [Option.getD_none]
    have hkey (u : TaskUsage) :
        usageSchema.key ((setRow row now i o r w).apply u) = usageSchema.key u := by
      unfold Update.apply
      split
      · exact setTokens_key now i o r w u
      · rfl
    exact .inr (Table.update?_rows (Table.update?_eq_exec hkey fun _ => rfl))

theorem covers_upsert (hnow : row.touchedAt = now) :
    Covers T { T with usage := T.usage.upsert row (TaskUsage.setTokens now i o r w) } now [] k := by
  rcases upsert_rows (T := T) row now i o r w with hrows | hrows
  · by_cases hk : T.bucket row = some k
    · refine .inr (.inr ⟨row, mem_rowsOf.2 ⟨?_, hk⟩, hnow⟩)
      exact hrows ▸ List.mem_append_right _ (List.mem_singleton_self row)
    · refine .inr (.inl ?_)
      have hnone : [row].filter (fun u => T.bucket u == some k) = [] :=
        List.filter_eq_nil_iff.2 fun u hu h => hk (List.mem_singleton.1 hu ▸ beq_iff_eq.1 h)
      rw [rowsOf, hrows, List.filter_append]
      exact (congrArg _ hnone).trans (List.append_nil _)
  · by_cases hk : ∃ u ∈ T.rowsOf k, usageSchema.key u = usageSchema.key row
    · rcases hk with ⟨u, hu, hkey⟩
      rcases mem_rowsOf.1 hu with ⟨hmem, hbucket⟩
      have hset : (setRow row now i o r w).apply u = u.setTokens now i o r w :=
        Update.apply_of_sel (beq_iff_eq.2 hkey)
      refine .inr (.inr ⟨u.setTokens now i o r w, mem_rowsOf.2 ⟨?_, hbucket⟩, rfl⟩)
      exact hrows ▸ List.mem_map.2 ⟨u, hmem, hset⟩
    · refine .inr (.inl ?_)
      -- the row that is set stays in its bucket, and that is another one
      have hcomp : (fun u => T.bucket u == some k) ∘ (setRow row now i o r w).apply =
          fun u => T.bucket u == some k :=
        funext fun u => congrArg (· == some k) (setRow_bucket u)
      have hsame : (T.rowsOf k).map (setRow row now i o r w).apply = T.rowsOf k := by
        refine (List.map_congr_left fun u hu => ?_).trans (List.map_id _)
        exact setRow_other fun hkey => hk ⟨u, hu, hkey⟩
      rw [rowsOf, hrows, List.filter_map]
      exact (congrArg (fun p => (T.usage.rows.filter p).map _) hcomp).trans hsame

end Upsert

theorem covers_deleteTaskUsage (provider model : String) :
    Covers T { T with usage := T.usage.filter fun u => usageSchema.key u != ⟨id, provider, model⟩ }
      now (T.triggered (.deleteTaskUsage id provider model)) k := by
  by_cases hk : k ∈ T.triggered (.deleteTaskUsage id provider model)
  · exact .inl hk
  · refine .inr (.inl (rowsOf_filter rfl fun u hu => ?_))
    refine and_iff_left_of_imp fun hbucket => ?_
    rw [bne_iff_ne]
    intro hkey
    -- the deleted row's bucket has been named
    have hget : T.usage.get? ⟨id, provider, model⟩ = some u := Table.get?_eq_some.2 ⟨hu, hkey⟩
    refine hk ?_
    rw [triggered, hget, Option.bind_some, show T.bucket u = some k from hbucket]
    exact List.mem_singleton_self k

/-- The update of a task names the buckets of its rows before and after. -/
theorem covers_updateTask {task : Task} (htask : T.tasks.get? id = some task)
    (runtimeId issueId : Option UUID) :
    Covers T { T with tasks := T.tasks.exec (updateTaskStmt id runtimeId issueId) } now
      (T.triggered (.updateTask id runtimeId issueId)) k := by
  have hid : task.id = id := (Table.get?_eq_some.1 htask).2
  by_cases hk : k ∈ T.triggered (.updateTask id runtimeId issueId)
  · exact .inl hk
  · refine .inr (.inl (rowsOf_congr rfl fun u hu => ?_))
    rw [bucket, bucket]
    by_cases hu' : u.taskId = id
    · rw [hu', tasks_get?, htask, Option.map_some, Option.bind_some, Option.bind_some,
        Update.apply_of_sel (beq_iff_eq.2 hid)]
      rw [triggered, htask] at hk
      simp only at hk
      split at hk
      · rename_i hsame
        rcases hsame with ⟨rfl, rfl⟩
        rfl
      · rw [List.mem_append, not_or] at hk
        have htask' : u.taskId = task.id := hu'.trans hid.symm
        constructor
        · intro h
          let new : Task := { task with runtimeId := runtimeId, issueId := issueId }
          exact absurd (mem_taskKeys (t := new) hu htask' h) hk.2
        · intro h
          exact absurd (mem_taskKeys hu htask' h) hk.1
    · rw [tasks_get?_other hu']
      rfl

theorem covers_deleteTask (id : UUID) :
    Covers T { T with
      tasks := T.tasks.filter fun t => t.id != id
      usage := T.usage.filter fun u => u.taskId != id } now (T.triggered (.deleteTask id)) k := by
  by_cases hk : k ∈ T.triggered (.deleteTask id)
  · exact .inl hk
  · refine .inr (.inl (rowsOf_filter rfl fun u hu => ?_))
    rw [bucket, bucket, Table.get?_filter, bne_iff_ne]
    cases hget : T.tasks.get? u.taskId with
    | none => simp
    | some t =>
      have hid : t.id = u.taskId := (Table.get?_eq_some.1 hget).2
      by_cases hu' : u.taskId = id
      · rw [triggered, ← hu', hget] at hk
        refine iff_of_false (fun h => h.2 hu') fun h => hk ?_
        exact mem_taskKeys hu hid.symm h
      · have hkeep : (t.id != id) = true := bne_iff_ne.2 fun h => hu' (hid.symm.trans h)
        rw [Option.filter_some, if_pos hkeep]
        exact and_iff_left hu'

theorem projectOf_other {issueId : Option UUID} (h : issueId ≠ some id) (projectId : Option UUID) :
    projectOf { T with issues := T.issues.exec (updateIssueProjectStmt id projectId) } issueId =
      T.projectOf issueId := by
  cases issueId with
  | none => rfl
  | some x =>
    have hx : x ≠ id := fun hx => h (congrArg some hx)
    rw [projectOf, projectOf, Option.bind_some, Option.bind_some, issues_get?_other hx]

theorem linked_updateIssueProject (hlinked : T.Linked) (id : UUID) (projectId : Option UUID) :
    Linked { T with issues := T.issues.exec (updateIssueProjectStmt id projectId) } where
  usage := hlinked.usage
  tasks t ht := by
    refine links_mono (T := T) (fun _ _ h => h) (fun x r _ hr => ?_) (hlinked.tasks t ht)
    refine ⟨(updateIssueProjectStmt id projectId).apply r, ?_, ?_⟩
    · rw [issues_get?, hr]
      rfl
    unfold Update.apply
    split
    · rfl
    · rfl

/-- The move of an issue names the buckets of its tasks' rows before and after. -/
theorem covers_updateIssueProject (hlinked : T.Linked) (id : UUID) (projectId : Option UUID) :
    Covers T { T with issues := T.issues.exec (updateIssueProjectStmt id projectId) } now
      (T.triggered (.updateIssueProject id projectId)) k := by
  by_cases hk : k ∈ T.triggered (.updateIssueProject id projectId)
  · exact .inl hk
  refine .inr (.inl (rowsOf_congr rfl fun u hu => ?_))
  rw [bucket, bucket]
  cases hget : T.tasks.get? u.taskId with
  | none => rfl
  | some t =>
    rcases Table.get?_eq_some.1 hget with ⟨ht, htask⟩
    rw [Option.bind_some, Option.bind_some]
    by_cases hid : t.issueId = some id
    · rcases links_iff.1 (hlinked.tasks t ht) with ⟨_, _, hissues⟩
      rcases hissues id hid with ⟨issue, hissue, -⟩
      have hissueId : issue.id = id := (Table.get?_eq_some.1 hissue).2
      have hmoved : (T.issues.exec (updateIssueProjectStmt id projectId)).get? id =
          some { issue with projectId := projectId } := by
        rw [issues_get?, hissue, Option.map_some, Update.apply_of_sel (beq_iff_eq.2 hissueId)]
        rfl
      rw [triggered, hissue] at hk
      simp only at hk
      split at hk
      · rename_i hsame
        refine Eq.congr_left (taskKey_congr rfl ?_)
        rw [projectOf, projectOf, hid, Option.bind_some, Option.bind_some, hmoved, hissue]
        exact hsame.symm
      · rw [List.mem_append, not_or] at hk
        have hissueId' : t.issueId = some issue.id := hid.trans (congrArg some hissueId.symm)
        constructor
        · intro h
          rcases taskKey_of_issue (linked_updateIssueProject hlinked id projectId) ht hmoved hid h
            with ⟨r, hr, rfl⟩
          exact absurd (mem_issueKeys hu ht hissueId' hr htask.symm) hk.2
        · intro h
          rcases taskKey_of_issue hlinked ht hissue hid h with ⟨r, hr, rfl⟩
          exact absurd (mem_issueKeys hu ht hissueId' hr htask.symm) hk.1
    · exact Eq.congr_left (taskKey_congr rfl (projectOf_other hid projectId))

/-- The deletion of an issue names the buckets of its tasks' rows. -/
theorem covers_deleteIssue (hlinked : T.Linked) (id : UUID) :
    Covers T { T with
      issues := T.issues.filter fun r => r.id != id
      tasks := T.tasks.filter fun t => t.issueId != some id
      usage := T.usage.filter fun u =>
        !(T.tasks.get? u.taskId).any fun t => t.issueId == some id }
      now (T.triggered (.deleteIssue id)) k := by
  by_cases hk : k ∈ T.triggered (.deleteIssue id)
  · exact .inl hk
  refine .inr (.inl (rowsOf_filter rfl fun u hu => ?_))
  rw [bucket, bucket, Table.get?_filter]
  cases hget : T.tasks.get? u.taskId with
  | none => simp
  | some t =>
    rcases Table.get?_eq_some.1 hget with ⟨ht, htask⟩
    rw [Option.any_some, Bool.not_eq_true', beq_eq_false_iff_ne, Option.bind_some]
    by_cases hid : t.issueId = some id
    · refine iff_of_false (fun h => h.2 hid) fun h => hk ?_
      rcases links_iff.1 (hlinked.tasks t ht) with ⟨_, _, hissues⟩
      rcases hissues id hid with ⟨issue, hissue, -⟩
      have hissueId : issue.id = id := (Table.get?_eq_some.1 hissue).2
      rcases taskKey_of_issue hlinked ht hissue hid h with ⟨r, hr, rfl⟩
      rw [triggered, hissue]
      refine List.mem_append_left _ (mem_issueKeys hu ht ?_ hr htask.symm)
      exact hid.trans (congrArg some hissueId.symm)
    · have hproject : (t.issueId.bind (T.issues.filter fun r => r.id != id).get?).bind
          Issue.projectId = T.projectOf t.issueId := by
        rw [projectOf]
        cases hissue : t.issueId with
        | none => rfl
        | some x =>
          have hx : x ≠ id := fun hx => hid (hissue.trans (congrArg some hx))
          rw [Option.bind_some, Option.bind_some, Table.get?_filter]
          cases hrow : T.issues.get? x with
          | none => rfl
          | some r =>
            have hr : r.id = x := (Table.get?_eq_some.1 hrow).2
            rw [Option.filter_some, if_pos (bne_iff_ne.2 fun h => hx (hr.symm.trans h))]
      rw [Option.filter_some, if_pos (bne_iff_ne.2 hid)]
      exact (and_iff_left hid).trans (Eq.congr_left (taskKey_congr rfl hproject))

theorem covers_createTask (hlinked : T.Linked) {task : Task} {tasks : Table taskSchema}
    (h : T.tasks.insert? task = some tasks) :
    Covers T { T with tasks := tasks } now [] k := by
  refine .inr (.inl (rowsOf_congr rfl fun u hu => Eq.congr_left ?_))
  rcases Option.isSome_iff_exists.1 (hlinked.usage u hu) with ⟨t, ht⟩
  exact bucket_congr ((Table.get?_insert?_some h ht).trans ht.symm) fun _ _ => rfl

theorem covers_createIssue (hlinked : T.Linked) {issue : Issue} {issues : Table issueSchema}
    (h : T.issues.insert? issue = some issues) :
    Covers T { T with issues := issues } now [] k := by
  refine .inr (.inl (rowsOf_congr rfl fun u hu => Eq.congr_left (bucket_congr rfl fun t ht => ?_)))
  rcases links_iff.1 (hlinked.tasks t (Table.get?_eq_some.1 ht).1) with ⟨_, _, hissues⟩
  refine taskKey_congr rfl ?_
  rw [projectOf, projectOf]
  cases hid : t.issueId with
  | none => rfl
  | some id =>
    rcases hissues id hid with ⟨r, hr, -⟩
    rw [Option.bind_some, Option.bind_some, hr, Table.get?_insert?_some h hr]

theorem covers_createAgent (hlinked : T.Linked) {agent : Agent} {agents : Table agentSchema}
    (h : T.agents.insert? agent = some agents) :
    Covers T { T with agents := agents } now [] k := by
  refine .inr (.inl (rowsOf_congr rfl fun u hu => Eq.congr_left (bucket_congr rfl fun t ht => ?_)))
  rcases links_iff.1 (hlinked.tasks t (Table.get?_eq_some.1 ht).1) with ⟨a, ha, -⟩
  exact taskKey_congr ((Table.get?_insert?_some h ha).trans ha.symm) rfl

/-! ## What a statement keeps -/

theorem mem_upsert {row : TaskUsage} {i o r w : Int}
    (hu : u ∈ (T.usage.upsert row (TaskUsage.setTokens now i o r w)).rows) :
    u = row ∨ u ∈ T.usage.rows ∨ ∃ v ∈ T.usage.rows, u = v.setTokens now i o r w := by
  rcases upsert_rows (T := T) row now i o r w with hrows | hrows
  · rw [hrows, List.mem_append, List.mem_singleton] at hu
    exact hu.elim (fun h => .inr (.inl h)) .inl
  · rw [hrows, List.mem_map] at hu
    rcases hu with ⟨v, hv, rfl⟩
    unfold Update.apply
    split
    · exact .inr (.inr ⟨v, hv, rfl⟩)
    · exact .inr (.inl hv)

theorem linked_upsert (hlinked : T.Linked) {row : TaskUsage} {i o r w : Int}
    (htask : (T.tasks.get? row.taskId).isSome) :
    Linked { T with usage := T.usage.upsert row (TaskUsage.setTokens now i o r w) } where
  usage u hu := by
    rcases mem_upsert hu with rfl | hu | ⟨v, hv, rfl⟩
    · exact htask
    · exact hlinked.usage u hu
    · exact hlinked.usage v hv
  tasks := hlinked.tasks

theorem linked_updateTask (hlinked : T.Linked) {task : Task} {issueId : Option UUID}
    (htask : T.tasks.get? id = some task) (h : T.links { task with issueId := issueId } = true)
    (runtimeId : Option UUID) :
    Linked { T with tasks := T.tasks.exec (updateTaskStmt id runtimeId issueId) } where
  usage u hu := by
    rw [tasks_get?, Option.isSome_map]
    exact hlinked.usage u hu
  tasks t ht := by
    have hget := (tasks_get? t.id runtimeId issueId).symm.trans (Table.get?_eq_some.2 ⟨ht, rfl⟩)
    rcases Option.map_eq_some_iff.1 hget with ⟨old, hold, rfl⟩
    by_cases hid : old.id = id
    · -- the updated row is the task, and its new values are linked
      obtain rfl : task = old := by
        refine Option.some.inj (htask.symm.trans ?_)
        rw [← hid]
        exact Table.get?_eq_some.2 ⟨(Table.get?_eq_some.1 hold).1, rfl⟩
      rw [Update.apply_of_sel (beq_iff_eq.2 hid)]
      exact h
    · rw [Update.apply_of_not_sel (beq_eq_false_iff_ne.2 hid)]
      exact hlinked.tasks old (Table.get?_eq_some.1 hold).1

theorem linked_deleteTask (hlinked : T.Linked) (id : UUID) :
    Linked { T with
      tasks := T.tasks.filter fun t => t.id != id
      usage := T.usage.filter fun u => u.taskId != id } where
  usage u hu := by
    rcases List.mem_filter.1 hu with ⟨hu, hkeep⟩
    rcases Option.isSome_iff_exists.1 (hlinked.usage u hu) with ⟨t, ht⟩
    have htask : t.id = u.taskId := (Table.get?_eq_some.1 ht).2
    rw [Table.get?_filter, ht, Option.filter_some, htask, if_pos hkeep]
    rfl
  tasks t ht := hlinked.tasks t (List.mem_filter.1 ht).1

theorem linked_deleteIssue (hlinked : T.Linked) (id : UUID) :
    Linked { T with
      issues := T.issues.filter fun r => r.id != id
      tasks := T.tasks.filter fun t => t.issueId != some id
      usage := T.usage.filter fun u =>
        !(T.tasks.get? u.taskId).any fun t => t.issueId == some id } where
  usage u hu := by
    rcases List.mem_filter.1 hu with ⟨hu, hkeep⟩
    rcases Option.isSome_iff_exists.1 (hlinked.usage u hu) with ⟨t, ht⟩
    rw [ht, Option.any_some] at hkeep
    rw [Table.get?_filter, ht, Option.filter_some, bne, if_pos hkeep]
    rfl
  tasks t ht := by
    rcases List.mem_filter.1 ht with ⟨ht, hkeep⟩
    refine links_mono (T := T) (fun _ _ h => h) (fun x r hx hr => ⟨r, ?_, rfl⟩) (hlinked.tasks t ht)
    have hid : r.id ≠ id := by
      intro h
      refine bne_iff_ne.1 hkeep (hx.trans (congrArg some ?_))
      exact (Table.get?_eq_some.1 hr).2.symm.trans h
    rw [Table.get?_filter, hr, Option.filter_some, if_pos (bne_iff_ne.2 hid)]

theorem linked_createTask (hlinked : T.Linked) {task : Task} {tasks : Table taskSchema}
    (hlinks : T.links task = true) (h : T.tasks.insert? task = some tasks) :
    Linked { T with tasks := tasks } where
  usage u hu := by
    rcases Option.isSome_iff_exists.1 (hlinked.usage u hu) with ⟨t, ht⟩
    rw [Table.get?_insert?_some h ht]
    rfl
  tasks t ht := by
    rcases (Table.mem_insert? h).1 ht with ht | rfl
    · exact hlinked.tasks t ht
    · exact hlinks

/-! ## All statements -/

theorem effect_of_apply {m : Mutation} (h : T.apply now m = some T') : Effect T now m T' := by
  cases m with
  | upsertTaskUsage taskId provider model i o r w =>
    obtain ⟨htask, rfl⟩ := by
      simpa only [apply, Option.ite_none_right_eq_some, Option.some.injEq] using h
    exact .upsertTaskUsage provider model i o r w htask
  | deleteTaskUsage taskId provider model =>
    obtain rfl := Option.some.inj h
    exact .deleteTaskUsage taskId provider model
  | updateTask id runtimeId issueId =>
    simp only [apply] at h
    split at h
    · obtain rfl := Option.some.inj h
      exact .noTask id runtimeId issueId
    · rename_i task htask
      rw [Option.ite_none_right_eq_some] at h
      obtain rfl := Option.some.inj h.2
      exact .updateTask runtimeId htask h.1
  | deleteTask id =>
    obtain rfl := Option.some.inj h
    exact .deleteTask id
  | updateIssueProject id projectId =>
    obtain rfl := Option.some.inj h
    exact .updateIssueProject id projectId
  | deleteIssue id =>
    obtain rfl := Option.some.inj h
    exact .deleteIssue id
  | createTask task =>
    rw [apply, Option.ite_none_right_eq_some, Option.map_eq_some_iff] at h
    rcases h with ⟨hlinks, tasks, hins, rfl⟩
    exact .createTask hlinks hins
  | createIssue issue =>
    rcases Option.map_eq_some_iff.1 h with ⟨issues, hins, rfl⟩
    exact .createIssue hins
  | createAgent agent =>
    rcases Option.map_eq_some_iff.1 h with ⟨agents, hins, rfl⟩
    exact .createAgent hins

/-- A statement changes the rows of a bucket only if a trigger names it, or a row has its time. -/
theorem covered {m : Mutation} (hlinked : T.Linked) (h : T.apply now m = some T') (k : Key) :
    Covers T T' now (T.triggered m) k := by
  cases effect_of_apply h with
  | upsertTaskUsage provider model i o r w htask => exact covers_upsert rfl
  | deleteTaskUsage taskId provider model => exact covers_deleteTaskUsage provider model
  | noTask id runtimeId issueId => exact .inr (.inl rfl)
  | updateTask runtimeId htask hlinks => exact covers_updateTask htask runtimeId _
  | deleteTask id => exact covers_deleteTask id
  | updateIssueProject id projectId => exact covers_updateIssueProject hlinked id projectId
  | deleteIssue id => exact covers_deleteIssue hlinked id
  | createTask hlinks hins => exact covers_createTask hlinked hins
  | createIssue hins => exact covers_createIssue hlinked hins
  | createAgent hins => exact covers_createAgent hlinked hins

/-- A row that is new or set has the time of the statement. -/
theorem touched_apply {m : Mutation} (h : T.apply now m = some T') (hu : u ∈ T'.usage.rows) :
    u.touchedAt = now ∨ u ∈ T.usage.rows := by
  cases effect_of_apply h with
  | upsertTaskUsage provider model i o r w htask =>
    rcases mem_upsert hu with rfl | hu | ⟨v, -, rfl⟩
    · exact .inl rfl
    · exact .inr hu
    · exact .inl rfl
  | deleteTaskUsage taskId provider model => exact .inr (List.mem_filter.1 hu).1
  | noTask id runtimeId issueId => exact .inr hu
  | updateTask runtimeId htask hlinks => exact .inr hu
  | deleteTask id => exact .inr (List.mem_filter.1 hu).1
  | updateIssueProject id projectId => exact .inr hu
  | deleteIssue id => exact .inr (List.mem_filter.1 hu).1
  | createTask hlinks hins => exact .inr hu
  | createIssue hins => exact .inr hu
  | createAgent hins => exact .inr hu

theorem linked_apply {m : Mutation} (hlinked : T.Linked) (h : T.apply now m = some T') :
    T'.Linked := by
  cases effect_of_apply h with
  | upsertTaskUsage provider model i o r w htask => exact linked_upsert hlinked htask
  | deleteTaskUsage taskId provider model =>
    exact ⟨fun u hu => hlinked.usage u (List.mem_filter.1 hu).1, hlinked.tasks⟩
  | noTask id runtimeId issueId => exact hlinked
  | updateTask runtimeId htask hlinks => exact linked_updateTask hlinked htask hlinks runtimeId
  | deleteTask id => exact linked_deleteTask hlinked id
  | updateIssueProject id projectId => exact linked_updateIssueProject hlinked id projectId
  | deleteIssue id => exact linked_deleteIssue hlinked id
  | createTask hlinks hins => exact linked_createTask hlinked hlinks hins
  | createIssue hins =>
    refine ⟨hlinked.usage, fun t ht => links_mono (T := T) (fun _ _ h => h) ?_ (hlinked.tasks t ht)⟩
    exact fun x r _ hr => ⟨r, Table.get?_insert?_some hins hr, rfl⟩
  | createAgent hins =>
    refine ⟨hlinked.usage, fun t ht => links_mono (T := T) ?_ ?_ (hlinked.tasks t ht)⟩
    · exact fun _ _ ha => Table.get?_insert?_some hins ha
    · exact fun x r _ hr => ⟨r, hr, rfl⟩

end Statements

end Orynx.Usage.Tables
