import Mathlib.Data.Finset.Card
import Mathlib.Data.Finset.Insert
import Mathlib.Data.Finset.Image
import Mathlib.Data.Finset.Dedup

/-! # Who may invoke an agent, and who may change it

An agent's access is a mode and a set of invocation targets. `UpdateAgent` reads three wire
fields, one of them legacy, and has two paths: the owner's fields are parsed and written, those of
anybody else are compared with what is stored and dropped when they ask for nothing new. The
mode and the targets are written by separate statements.

* `parseTargets_ok`: the loop keeps the set of the targets that were submitted.
* `parsePermissionInput_ok`: what the parser returns is an access to store, or the zero value.
* `write_grant`: the row statement and the rewrite of the targets store that access.
* `permissionInputChangesAgent_eq_false`: what the path of the others lets through.
-/

namespace Orynx.Access

/-- `permission_mode`, with the values the column's check admits. -/
inductive PermissionMode where
  | permissionModePrivate
  | permissionModePublicTo
deriving DecidableEq, Repr

def PermissionMode.text : PermissionMode → String
  | .permissionModePrivate => "private"
  | .permissionModePublicTo => "public_to"

/-- The check constraint of the column. -/
def PermissionMode.check (s : String) : Option PermissionMode :=
  if s = "private" then some .permissionModePrivate
  else if s = "public_to" then some .permissionModePublicTo
  else none

@[simp] theorem PermissionMode.check_text (m : PermissionMode) : check m.text = some m := by
  cases m <;> rfl

theorem PermissionMode.text_injective : Function.Injective PermissionMode.text := by
  intro a b h
  have hcheck := check_text a
  rw [h, check_text] at hcheck
  exact (Option.some.inj hcheck).symm

inductive TargetType where
  | invocationTargetWorkspace
  | invocationTargetMember
  | invocationTargetTeam
deriving DecidableEq, Repr

def TargetType.text : TargetType → String
  | .invocationTargetWorkspace => "workspace"
  | .invocationTargetMember => "member"
  | .invocationTargetTeam => "team"

/-- `util.ParseUUID` and `uuidToString`: the text form of an id is read back as that id, and the
empty text is none. -/
structure Uuids (U : Type) where
  parseUUID : String → Option U
  uuidToString : U → String
  parse_format : ∀ u, parseUUID (uuidToString u) = some u
  parse_empty : parseUUID "" = none

namespace Uuids

variable {U : Type} (ids : Uuids U)

theorem format_ne_empty (u : U) : ids.uuidToString u ≠ "" := by
  intro h
  have hread := ids.parse_format u
  rw [h, ids.parse_empty] at hread
  cases hread

theorem format_injective : Function.Injective ids.uuidToString := by
  intro a b h
  have hread := ids.parse_format a
  rw [h, ids.parse_format] at hread
  exact (Option.some.inj hread).symm

end Uuids

/-- A row of `agent_invocation_target` and a `targetSpec` of the code; a workspace row holds the
id of the agent's own workspace. -/
structure Target {U : Type} (workspaceID : U) where
  targetType : TargetType
  targetID : U
  home : targetType = .invocationTargetWorkspace → targetID = workspaceID
deriving DecidableEq

def Target.workspace {U : Type} (workspaceID : U) : Target workspaceID :=
  ⟨.invocationTargetWorkspace, workspaceID, fun _ => rfl⟩

/-- `resolvedPermission`: the mode is a text, empty in the zero value. -/
structure ResolvedPermission {U : Type} (workspaceID : U) where
  mode : String
  targets : List (Target workspaceID)

/-- What the update reads of the agent besides its permission. -/
structure Agent (U : Type) where
  workspaceID : U
  ownerID : Option U

/-- The permission columns of the agent and its target rows, under their unique index. -/
structure Permission {U : Type} (workspaceID : U) where
  permissionMode : PermissionMode
  visibility : String
  targets : List (Target workspaceID)
  unique : targets.Nodup

/-- An entry of `invocation_targets` on the wire. -/
structure TargetDTO where
  targetType : String
  targetID : Option String

/-- A field of the request's JSON object. -/
inductive Field (α : Type) where
  | absent
  | null
  | malformed
  | value (a : α)

/-- Whether the key is among the raw fields. -/
def Field.present {α : Type} : Field α → Bool
  | .absent => false
  | .null => true
  | .malformed => true
  | .value _ => true

/-- A pointer field after decoding; a value of the wrong JSON type fails the whole body. -/
def Field.decode {α : Type} : Field α → Option (Option α)
  | .absent => some none
  | .null => some none
  | .malformed => none
  | .value a => some (some a)

/-- The permission fields of the body of `UpdateAgent`. -/
structure Body where
  permissionMode : Field String
  invocationTargets : Field (List TargetDTO)
  visibility : Field String

structure UpdateAgentRequest where
  permissionMode : Option String
  invocationTargets : Option (List TargetDTO)
  visibility : Option String

def decodeJSONBodyWithRawFields (body : Body) : Option UpdateAgentRequest := do
  let permissionMode ← body.permissionMode.decode
  let invocationTargets ← body.invocationTargets.decode
  let visibility ← body.visibility.decode
  return ⟨permissionMode, invocationTargets, visibility⟩

inductive Role where
  | owner
  | admin
  | member
deriving DecidableEq, Repr

/-- The caller: its user id and, for a member of the agent's workspace, its role. -/
structure Requester where
  userID : String
  role : Option Role

inductive Response where
  | ok
  | badRequest (message : String)
  | forbidden (message : String)
  | notFound (message : String)
  | internalServerError (message : String)
deriving DecidableEq, Repr

section

variable {U : Type} [DecidableEq U] {ws : U}

/-- The legacy view of a mode and its targets. -/
def deriveLegacyVisibility (permissionMode : String) (targets : List (Target ws)) : String :=
  if permissionMode = "public_to"
      ∧ targets.any (fun t => t.targetType = .invocationTargetWorkspace) = true then
    "workspace"
  else "private"

def ResolvedPermission.legacyVisibility (p : ResolvedPermission ws) : String :=
  deriveLegacyVisibility p.mode p.targets

/-- One round of the loop over the submitted targets: the key it is known by and the target. -/
def parseTarget (ids : Uuids U) (workspaceID : U) (t : TargetDTO) :
    Except String (String × Target workspaceID) :=
  if t.targetType = "workspace" then .ok ("workspace", Target.workspace workspaceID)
  else if t.targetType = "member" then withID .invocationTargetMember (by decide)
  else if t.targetType = "team" then withID .invocationTargetTeam (by decide)
  else .error "invocation target_type must be 'workspace', 'member', or 'team'"
where
  withID (type : TargetType) (h : type ≠ .invocationTargetWorkspace) :
      Except String (String × Target workspaceID) :=
    if t.targetID = none ∨ t.targetID = some "" then
      .error (type.text ++ " invocation target requires target_id")
    else
      match ids.parseUUID (t.targetID.getD "") with
      | none => .error (type.text ++ " invocation target_id is not a valid uuid")
      | some id =>
        .ok (type.text ++ ":" ++ t.targetID.getD "", ⟨type, id, fun h' => absurd h' h⟩)

/-- The loop, with the keys seen so far and the targets kept. -/
def parseTargets (ids : Uuids U) (workspaceID : U) :
    List TargetDTO → List String → List (Target workspaceID) →
      Except String (List (Target workspaceID))
  | [], _, kept => .ok kept
  | t :: rest, seen, kept =>
    match parseTarget ids workspaceID t with
    | .error e => .error e
    | .ok (key, target) =>
      if key ∈ seen then parseTargets ids workspaceID rest seen kept
      else parseTargets ids workspaceID rest (key :: seen) (kept ++ [target])

/-- The mode that `permission_mode` asks for: null and the empty text ask for a private agent. -/
def modeOf (permissionMode : Option String) : String :=
  if permissionMode.getD "" = "" then "private" else permissionMode.getD ""

/-- The targets of a shared agent: no target at all stands for the workspace. -/
def parsePublicTo (ids : Uuids U) (workspaceID : U) (targets : List TargetDTO) :
    Except String (ResolvedPermission workspaceID × Bool) :=
  match parseTargets ids workspaceID targets [] [] with
  | .error e => .error e
  | .ok [] => .ok (⟨"public_to", [Target.workspace workspaceID]⟩, true)
  | .ok (t :: kept) => .ok (⟨"public_to", t :: kept⟩, true)

/-- The permission a request asks for, and whether it asks for one. -/
def parsePermissionInput (ids : Uuids U) (workspaceID : U) (permissionMode : Option String)
    (targets : List TargetDTO) (hasPermissionMode hasTargets : Bool)
    (legacyVisibility : Option String) :
    Except String (ResolvedPermission workspaceID × Bool) :=
  if hasPermissionMode = false ∧ legacyVisibility = none then .ok (⟨"", []⟩, false)
  else if hasPermissionMode = false then
    let visibility := legacyVisibility.getD ""
    if visibility = "workspace" then
      .ok (⟨"public_to", [Target.workspace workspaceID]⟩, true)
    else if visibility = "private" ∨ visibility = "" then .ok (⟨"private", []⟩, true)
    else .error "visibility must be 'private' or 'workspace'"
  else
    if modeOf permissionMode = "private" then
      -- a private agent ignores the submitted targets
      .ok (⟨"private", []⟩, true)
    else if modeOf permissionMode = "public_to" then
      parsePublicTo ids workspaceID (if hasTargets then targets else [])
    else .error "permission_mode must be 'private' or 'public_to'"

/-- The map key of a target in the comparison. -/
def Target.key (ids : Uuids U) (t : Target ws) : String :=
  t.targetType.text ++ ":" ++ ids.uuidToString t.targetID

/-- Whether the permission fields of a request would change what is stored. -/
def permissionInputChangesAgent (ids : Uuids U) (existing : Permission ws)
    (req : UpdateAgentRequest) (hasPermissionMode hasTargets : Bool) : Bool :=
  if hasPermissionMode = false ∧ hasTargets = false then
    match req.visibility with
    | none => false
    | some visibility =>
      let submitted := if visibility = "workspace" then "workspace" else "private"
      submitted != deriveLegacyVisibility existing.permissionMode.text existing.targets
  else
    match parsePermissionInput ids ws req.permissionMode (req.invocationTargets.getD [])
      hasPermissionMode hasTargets req.visibility with
    | .error _ => false
    | .ok (_, false) => false
    | .ok (perm, true) =>
      if perm.mode ≠ existing.permissionMode.text then true
      else
        let wanted := (perm.targets.map (Target.key ids)).toFinset
        let present := (existing.targets.map (Target.key ids)).toFinset
        wanted.card != present.card || decide (¬ wanted ⊆ present)

/-- `CreateAgentInvocationTarget`: an insert that leaves an existing row in place. -/
def createAgentInvocationTarget (rows : List (Target ws)) (t : Target ws) : List (Target ws) :=
  if t ∈ rows then rows else rows ++ [t]

/-- `replaceInvocationTargetsWithQueries`: clear, then insert one by one. -/
def replaceInvocationTargets (targets : List (Target ws)) : List (Target ws) :=
  targets.foldl createAgentInvocationTarget []

theorem foldl_createAgentInvocationTarget (targets rows : List (Target ws)) (h : rows.Nodup) :
    (targets.foldl createAgentInvocationTarget rows).Nodup ∧
      (targets.foldl createAgentInvocationTarget rows).toFinset
        = rows.toFinset ∪ targets.toFinset := by
  induction targets generalizing rows with
  | nil => exact ⟨h, by simp⟩
  | cons t rest ih =>
    have hrows : (createAgentInvocationTarget rows t).Nodup ∧
        (createAgentInvocationTarget rows t).toFinset = insert t rows.toFinset := by
      by_cases ht : t ∈ rows
      · rw [createAgentInvocationTarget, if_pos ht]
        exact ⟨h, (Finset.insert_eq_self.2 (List.mem_toFinset.2 ht)).symm⟩
      · rw [createAgentInvocationTarget, if_neg ht]
        refine ⟨List.nodup_append.2 ⟨h, List.nodup_singleton t, ?_⟩, ?_⟩
        · intro a ha b hb hab
          rw [List.mem_singleton] at hb
          exact ht (hb ▸ hab ▸ ha)
        · ext x
          simp
    rcases ih _ hrows.1 with ⟨hnodup, hset⟩
    refine ⟨hnodup, ?_⟩
    rw [List.foldl_cons, hset, hrows.2, List.toFinset_cons]
    ext x
    simp only [Finset.mem_union, Finset.mem_insert]
    tauto

theorem replaceInvocationTargets_nodup (targets : List (Target ws)) :
    (replaceInvocationTargets targets).Nodup :=
  (foldl_createAgentInvocationTarget targets [] List.nodup_nil).1

/-- What is stored after the rewrite is the set that was handed over. -/
theorem replaceInvocationTargets_toFinset (targets : List (Target ws)) :
    (replaceInvocationTargets targets).toFinset = targets.toFinset := by
  have h := (foldl_createAgentInvocationTarget targets [] List.nodup_nil).2
  rwa [List.toFinset_nil, Finset.empty_union] at h

/-- The row statement and the rewrite of the targets. A mode that the column's check refuses fails
the row statement, before a target is touched. -/
def Permission.write (existing : Permission ws) (perm : ResolvedPermission ws) :
    Response × Permission ws :=
  match PermissionMode.check perm.mode with
  | none => (.internalServerError "failed to update agent", existing)
  | some mode =>
    (.ok,
      { permissionMode := mode
        visibility := perm.legacyVisibility
        targets := replaceInvocationTargets perm.targets
        unique := replaceInvocationTargets_nodup perm.targets })

def Agent.isOwner (ids : Uuids U) (a : Agent U) (r : Requester) : Bool :=
  (a.ownerID.map ids.uuidToString).getD "" == r.userID

/-- Workspace owners and admins may manage any agent, members their own. -/
def canManageAgent (ids : Uuids U) (a : Agent U) (r : Requester) : Except Response Unit :=
  match r.role with
  | none => .error (.notFound "agent not found")
  | some role =>
    if role = .owner ∨ role = .admin ∨ a.isOwner ids r = true then .ok ()
    else .error (.forbidden "only the agent owner can manage this agent")

/-- `UpdateAgent`, as far as the permission fields go. -/
def UpdateAgent (ids : Uuids U) (a : Agent U) (existing : Permission a.workspaceID)
    (r : Requester) (body : Body) : Response × Permission a.workspaceID :=
  match canManageAgent ids a r with
  | .error e => (e, existing)
  | .ok () =>
    match decodeJSONBodyWithRawFields body with
    | none => (.badRequest "invalid request body", existing)
    | some req =>
      let hasPermissionMode := body.permissionMode.present
      let hasTargets := body.invocationTargets.present
      let permissionTouched := hasPermissionMode || hasTargets || req.visibility.isSome
      if permissionTouched = true then
        if a.isOwner ids r = true then
          match parsePermissionInput ids a.workspaceID req.permissionMode
            (req.invocationTargets.getD []) hasPermissionMode hasTargets req.visibility with
          | .error e => (.badRequest e, existing)
          | .ok (perm, _) => existing.write perm
        else if permissionInputChangesAgent ids existing req hasPermissionMode hasTargets then
          (.forbidden
            "only the agent owner can change access (permission_mode / invocation_targets)",
            existing)
        else (.ok, existing)
      else (.ok, existing)

/-! ### What the access is for -/

/-- The owner alone, or the owner and a nonempty set of targets. -/
inductive Grant {U : Type} (ws : U) where
  | ownerOnly
  | shared (targets : Finset (Target ws)) (h : targets.Nonempty)

def Grant.mode : Grant ws → PermissionMode
  | .ownerOnly => .permissionModePrivate
  | .shared _ _ => .permissionModePublicTo

def Grant.targets : Grant ws → Finset (Target ws)
  | .ownerOnly => ∅
  | .shared targets _ => targets

def ResolvedPermission.Asks (p : ResolvedPermission ws) (x : Grant ws) : Prop :=
  p.mode = x.mode.text ∧ p.targets.toFinset = x.targets

def Permission.Stores (p : Permission ws) (x : Grant ws) : Prop :=
  p.permissionMode = x.mode ∧ p.targets.toFinset = x.targets

/-- The row statement and the rewrite of the targets store the access that was asked for. -/
theorem write_grant {existing : Permission ws} {perm : ResolvedPermission ws} {x : Grant ws}
    (h : perm.Asks x) :
    (existing.write perm).1 = .ok ∧ (existing.write perm).2.Stores x := by
  have hcheck : PermissionMode.check perm.mode = some x.mode := by rw [h.1]; simp
  unfold Permission.write
  rw [hcheck]
  refine ⟨rfl, rfl, ?_⟩
  show (replaceInvocationTargets perm.targets).toFinset = x.targets
  rw [replaceInvocationTargets_toFinset, h.2]

/-! ### The parser -/

/-- The target that an entry of the wire stands for. -/
def resolve (ids : Uuids U) (ws : U) (t : TargetDTO) : Option (Target ws) :=
  match parseTarget ids ws t with
  | .ok (_, target) => some target
  | .error _ => none

omit [DecidableEq U] in
theorem resolve_of_ok {ids : Uuids U} {t : TargetDTO} {key : String} {target : Target ws}
    (h : parseTarget ids ws t = .ok (key, target)) : resolve ids ws t = some target := by
  simp only [resolve, h]

omit [DecidableEq U] in
theorem parseTarget_withID {ids : Uuids U} {type : TargetType}
    {hne : type ≠ .invocationTargetWorkspace} {t : TargetDTO} {key : String} {target : Target ws}
    (h : parseTarget.withID ids ws t type hne = .ok (key, target)) :
    target.targetType = type ∧ key = type.text ++ ":" ++ t.targetID.getD "" ∧
      ids.parseUUID (t.targetID.getD "") = some target.targetID := by
  unfold parseTarget.withID at h
  by_cases hempty : t.targetID = none ∨ t.targetID = some ""
  · rw [if_pos hempty] at h
    cases h
  · rw [if_neg hempty] at h
    cases hread : ids.parseUUID (t.targetID.getD "") with
    | none => simp only [hread] at h; cases h
    | some id =>
      simp only [hread] at h
      cases h
      exact ⟨rfl, rfl, rfl⟩

/-- How the two parts of a key are told apart. -/
theorem key_inj {type type' : TargetType} {s s' : String}
    (h : type.text ++ ":" ++ s = type'.text ++ ":" ++ s') : type = type' ∧ s = s' := by
  have hlist := congrArg String.toList h
  cases type <;> cases type' <;>
    simp [TargetType.text, String.toList_append] at hlist <;>
    exact ⟨rfl, String.toList_inj.1 hlist⟩

theorem workspace_ne_key {type : TargetType} {s : String} :
    "workspace" ≠ type.text ++ ":" ++ s := by
  intro h
  have hlist := congrArg String.toList h
  cases type <;> simp [TargetType.text, String.toList_append] at hlist

omit [DecidableEq U] in
/-- The shapes of an entry that is admitted. -/
theorem parseTarget_ok {ids : Uuids U} {t : TargetDTO} {key : String} {target : Target ws}
    (h : parseTarget ids ws t = .ok (key, target)) :
    (key = "workspace" ∧ target = Target.workspace ws) ∨
      (key = target.targetType.text ++ ":" ++ t.targetID.getD "" ∧
        ids.parseUUID (t.targetID.getD "") = some target.targetID) := by
  unfold parseTarget at h
  by_cases hw : t.targetType = "workspace"
  · rw [if_pos hw] at h
    cases h
    exact Or.inl ⟨rfl, rfl⟩
  rw [if_neg hw] at h
  by_cases hm : t.targetType = "member"
  · rw [if_pos hm] at h
    rcases parseTarget_withID h with ⟨htype, hkey, hread⟩
    exact Or.inr ⟨htype ▸ hkey, hread⟩
  rw [if_neg hm] at h
  by_cases ht : t.targetType = "team"
  · rw [if_pos ht] at h
    rcases parseTarget_withID h with ⟨htype, hkey, hread⟩
    exact Or.inr ⟨htype ▸ hkey, hread⟩
  rw [if_neg ht] at h
  cases h

omit [DecidableEq U] in
/-- Two entries with one key stand for one target. -/
theorem parseTarget_key {ids : Uuids U} {t t' : TargetDTO} {key : String}
    {target target' : Target ws} (h : parseTarget ids ws t = .ok (key, target))
    (h' : parseTarget ids ws t' = .ok (key, target')) : target = target' := by
  rcases parseTarget_ok h with ⟨rfl, hw⟩ | ⟨hkey, hread⟩
  · rcases parseTarget_ok h' with ⟨-, hw'⟩ | ⟨hkey', -⟩
    · rw [hw, hw']
    · exact absurd hkey' workspace_ne_key
  · rcases parseTarget_ok h' with ⟨rfl, -⟩ | ⟨hkey', hread'⟩
    · exact absurd hkey workspace_ne_key
    · rcases key_inj (hkey.symm.trans hkey') with ⟨htype, hid⟩
      rw [hid, hread'] at hread
      cases target with
      | mk type id home =>
        cases target' with
        | mk type' id' home' =>
          cases htype
          cases Option.some.inj hread
          rfl

/-- The set of the targets that a list of entries stands for. -/
def submitted (ids : Uuids U) (ws : U) (targets : List TargetDTO) : Finset (Target ws) :=
  (targets.filterMap (resolve ids ws)).toFinset

/-- The loop admits a list when every entry stands for a target, and keeps the set of these. -/
theorem parseTargets_ok {ids : Uuids U} {targets : List TargetDTO} {seen : List String}
    {kept out : List (Target ws)} (h : parseTargets ids ws targets seen kept = .ok out)
    (hseen : ∀ t key target, parseTarget ids ws t = .ok (key, target) → key ∈ seen →
      target ∈ kept) :
    (∀ t ∈ targets, (resolve ids ws t).isSome) ∧
      out.toFinset = kept.toFinset ∪ submitted ids ws targets := by
  induction targets generalizing seen kept with
  | nil =>
    cases h
    exact ⟨by simp, by simp [submitted]⟩
  | cons t rest ih =>
    unfold parseTargets at h
    cases ht : parseTarget ids ws t with
    | error e => simp only [ht] at h; cases h
    | ok pair =>
      rcases pair with ⟨key, target⟩
      have hres := resolve_of_ok ht
      simp only [ht] at h
      have hcons : submitted ids ws (t :: rest) = insert target (submitted ids ws rest) := by
        simp [submitted, hres]
      by_cases hkey : key ∈ seen
      · -- a repeated key: its target is among those kept
        rw [if_pos hkey] at h
        rcases ih h hseen with ⟨hall, hset⟩
        refine ⟨?_, ?_⟩
        · intro t' ht'
          rcases List.mem_cons.1 ht' with rfl | ht'
          · rw [hres]; rfl
          · exact hall t' ht'
        · have hkept : target ∈ kept.toFinset := List.mem_toFinset.2 (hseen t key target ht hkey)
          rw [hset, hcons, Finset.union_insert, Finset.insert_eq_self.2]
          exact Finset.mem_union_left _ hkept
      · rw [if_neg hkey] at h
        have hseen' : ∀ t' key' target', parseTarget ids ws t' = .ok (key', target') →
            key' ∈ key :: seen → target' ∈ kept ++ [target] := by
          intro t' key' target' ht' hmem
          rcases List.mem_cons.1 hmem with rfl | hmem
          · rw [parseTarget_key ht' ht]
            exact List.mem_append_right _ List.mem_cons_self
          · exact List.mem_append_left _ (hseen t' key' target' ht' hmem)
        rcases ih h hseen' with ⟨hall, hset⟩
        refine ⟨?_, ?_⟩
        · intro t' ht'
          rcases List.mem_cons.1 ht' with rfl | ht'
          · rw [hres]; rfl
          · exact hall t' ht'
        · rw [hset, hcons]
          ext x
          simp only [List.toFinset_append, List.toFinset_cons, List.toFinset_nil,
            Finset.mem_union, Finset.mem_insert, Finset.notMem_empty, or_false]
          tauto

omit [DecidableEq U] in
theorem parseTargets_isOk {ids : Uuids U} {targets : List TargetDTO}
    (h : ∀ t ∈ targets, (resolve ids ws t).isSome) (seen : List String) (kept : List (Target ws)) :
    ∃ out, parseTargets ids ws targets seen kept = .ok out := by
  induction targets generalizing seen kept with
  | nil => exact ⟨kept, rfl⟩
  | cons t rest ih =>
    unfold parseTargets
    have hrest := fun t' ht' => h t' (List.mem_cons_of_mem _ ht')
    have ht := h t List.mem_cons_self
    cases hp : parseTarget ids ws t with
    | error e =>
      simp only [resolve, hp] at ht
      cases ht
    | ok pair =>
      rcases pair with ⟨key, target⟩
      show ∃ out, (if key ∈ seen then _ else _) = _
      by_cases hkey : key ∈ seen
      · rw [if_pos hkey]
        exact ih hrest _ _
      · rw [if_neg hkey]
        exact ih hrest _ _

/-- The targets that a shared access asks for: an empty list asks for the workspace. -/
def orWorkspace (targets : Finset (Target ws)) : Finset (Target ws) :=
  if targets = ∅ then {Target.workspace ws} else targets

theorem orWorkspace_nonempty (targets : Finset (Target ws)) : (orWorkspace targets).Nonempty := by
  unfold orWorkspace
  by_cases h : targets = ∅
  · rw [if_pos h]
    exact Finset.singleton_nonempty _
  · rw [if_neg h]
    exact Finset.nonempty_iff_ne_empty.2 h

/-- The access that a request with `permission_mode` asks for. -/
def Requested (ids : Uuids U) (permissionMode : Option String) (targets : List TargetDTO)
    (x : Grant ws) : Prop :=
  x.mode.text = modeOf permissionMode ∧
    (x.mode = .permissionModePrivate → x.targets = ∅) ∧
    (x.mode = .permissionModePublicTo → (∀ t ∈ targets, (resolve ids ws t).isSome) ∧
      x.targets = orWorkspace (submitted ids ws targets))

theorem parsePublicTo_ok {ids : Uuids U} {targets : List TargetDTO}
    (h : ∀ t ∈ targets, (resolve ids ws t).isSome) :
    ∃ perm : ResolvedPermission ws, parsePublicTo ids ws targets = .ok (perm, true) ∧
      perm.mode = "public_to" ∧
      perm.targets.toFinset = orWorkspace (submitted ids ws targets) := by
  rcases parseTargets_isOk h [] [] with ⟨out, hout⟩
  have hset : out.toFinset = submitted ids ws targets := by
    rw [(parseTargets_ok hout (by simp)).2]
    simp
  unfold parsePublicTo
  rw [hout]
  cases out with
  | nil =>
    refine ⟨_, rfl, rfl, ?_⟩
    rw [← hset]
    rfl
  | cons t kept =>
    refine ⟨_, rfl, rfl, ?_⟩
    rw [orWorkspace, if_neg (by rw [← hset]; simp), ← hset]

theorem parsePublicTo_resolves {ids : Uuids U} {targets : List TargetDTO}
    {result : ResolvedPermission ws × Bool} (h : parsePublicTo ids ws targets = .ok result) :
    ∀ t ∈ targets, (resolve ids ws t).isSome := by
  unfold parsePublicTo at h
  cases hout : parseTargets ids ws targets [] [] with
  | error e =>
    rw [hout] at h
    cases h
  | ok out => exact (parseTargets_ok hout (by simp)).1

/-- With `permission_mode` the parser returns the access that was asked for. -/
theorem parsePermissionInput_mode {ids : Uuids U} {permissionMode legacy : Option String}
    {targets : List TargetDTO} {hasTargets asked : Bool} {perm : ResolvedPermission ws}
    (h : parsePermissionInput ids ws permissionMode targets true hasTargets legacy
      = .ok (perm, asked)) :
    asked = true ∧ ∃ x : Grant ws,
      perm.Asks x ∧ Requested ids permissionMode (if hasTargets then targets else []) x := by
  unfold parsePermissionInput at h
  rw [if_neg (by simp), if_neg (by simp)] at h
  by_cases hprivate : modeOf permissionMode = "private"
  · rw [if_pos hprivate] at h
    cases h
    refine ⟨rfl, .ownerOnly, ⟨rfl, rfl⟩, hprivate.symm, fun _ => rfl, ?_⟩
    exact fun h => PermissionMode.noConfusion h
  rw [if_neg hprivate] at h
  by_cases hpublic : modeOf permissionMode = "public_to"
  · rw [if_pos hpublic] at h
    have hall := parsePublicTo_resolves h
    rcases parsePublicTo_ok hall with ⟨perm', hperm', hmode, htargets⟩
    rw [h] at hperm'
    cases hperm'
    refine ⟨rfl, .shared _ (orWorkspace_nonempty _), ⟨hmode, htargets⟩, hpublic.symm, ?_, ?_⟩
    · exact fun h => PermissionMode.noConfusion h
    · exact fun _ => ⟨hall, rfl⟩
  · rw [if_neg hpublic] at h
    cases h

omit [DecidableEq U] in
/-- Without it the legacy visibility is mapped, and nothing is asked for when that is absent too. -/
theorem parsePermissionInput_legacy {ids : Uuids U} {permissionMode legacy : Option String}
    {targets : List TargetDTO} {hasTargets asked : Bool} {perm : ResolvedPermission ws}
    (h : parsePermissionInput ids ws permissionMode targets false hasTargets legacy
      = .ok (perm, asked)) :
    (legacy = none ∧ asked = false ∧ perm = ⟨"", []⟩) ∨
      (asked = true ∧
        ((legacy = some "workspace" ∧ perm = ⟨"public_to", [Target.workspace ws]⟩) ∨
          ((legacy = some "private" ∨ legacy = some "") ∧ perm = ⟨"private", []⟩))) := by
  unfold parsePermissionInput at h
  cases legacy with
  | none =>
    rw [if_pos ⟨rfl, rfl⟩] at h
    cases h
    exact Or.inl ⟨rfl, rfl, rfl⟩
  | some visibility =>
    rw [if_neg (by simp), if_pos rfl] at h
    simp only [Option.getD_some] at h
    by_cases hw : visibility = "workspace"
    · rw [if_pos hw] at h
      cases h
      exact Or.inr ⟨rfl, Or.inl ⟨congrArg some hw, rfl⟩⟩
    rw [if_neg hw] at h
    by_cases hp : visibility = "private" ∨ visibility = ""
    · rw [if_pos hp] at h
      cases h
      exact Or.inr ⟨rfl, Or.inr ⟨hp.imp (congrArg some) (congrArg some), rfl⟩⟩
    · rw [if_neg hp] at h
      cases h

/-! ### The comparison -/

omit [DecidableEq U] in
theorem Target.key_injective (ids : Uuids U) :
    Function.Injective (Target.key ids : Target ws → String) := by
  intro t t' h
  rcases key_inj h with ⟨htype, hid⟩
  cases t with
  | mk type id home =>
    cases t' with
    | mk type' id' home' =>
      cases htype
      cases ids.format_injective hid
      rfl

/-- A parsed request changes nothing when it asks for the mode and the set that are stored. -/
theorem permissionInputChangesAgent_eq_false {ids : Uuids U} {existing : Permission ws}
    {req : UpdateAgentRequest} {hasPermissionMode hasTargets : Bool}
    {perm : ResolvedPermission ws} (htouched : ¬ (hasPermissionMode = false ∧ hasTargets = false))
    (hparse : parsePermissionInput ids ws req.permissionMode (req.invocationTargets.getD [])
      hasPermissionMode hasTargets req.visibility = .ok (perm, true)) :
    permissionInputChangesAgent ids existing req hasPermissionMode hasTargets = false ↔
      perm.mode = existing.permissionMode.text ∧
        perm.targets.toFinset = existing.targets.toFinset := by
  have himage : ∀ l : List (Target ws),
      (l.map (Target.key ids)).toFinset = l.toFinset.image (Target.key ids) := by
    intro l
    ext k
    simp
  unfold permissionInputChangesAgent
  rw [if_neg htouched]
  simp only [hparse]
  by_cases hmode : perm.mode = existing.permissionMode.text
  · rw [if_neg (not_not.2 hmode)]
    have hcompare : ∀ s t : Finset (Target ws),
        ((s.image (Target.key ids)).card != (t.image (Target.key ids)).card
          || decide (¬ s.image (Target.key ids) ⊆ t.image (Target.key ids))) = false ↔ s = t := by
      intro s t
      rw [Bool.or_eq_false_iff, decide_eq_false_iff_not, not_not, bne_eq_false_iff_eq]
      constructor
      · -- a subset of the same size is the whole set
        rintro ⟨hcard, hsub⟩
        exact Finset.image_injective (Target.key_injective ids)
          (Finset.eq_of_subset_of_card_le hsub hcard.ge)
      · rintro rfl
        exact ⟨rfl, Finset.Subset.refl _⟩
    rw [himage, himage, hcompare]
    exact ⟨fun h => ⟨hmode, h⟩, fun h => h.2⟩
  · rw [if_pos hmode]
    exact ⟨fun h => Bool.noConfusion h, fun h => absurd h.1 hmode⟩

end

end Orynx.Access
