import Orynx.Access.Permission

/-! # The access of an agent belongs to its owner

* `UpdateAgent_cases`: a rejected request and one that asks for nothing change nothing; any other
  is the owner's, and stores the access it asks for.
* `Governed`: what an update promises of the access of the agent.
-/

namespace Orynx.Access

section

variable {U : Type} [DecidableEq U]

/-- Nobody but the owner, or at least one target. -/
def Permission.Normal {ws : U} (p : Permission ws) : Prop :=
  p.permissionMode = .permissionModePrivate ∨
    (p.permissionMode = .permissionModePublicTo ∧ p.targets ≠ [])

theorem Permission.Stores.normal {ws : U} {p : Permission ws} {x : Grant ws} (h : p.Stores x) :
    p.Normal := by
  cases x with
  | ownerOnly => exact Or.inl h.1
  | shared targets hne =>
    refine Or.inr ⟨h.1, ?_⟩
    intro hnil
    have hset := h.2
    rw [hnil, List.toFinset_nil] at hset
    exact Finset.nonempty_iff_ne_empty.1 hne hset.symm

/-- The mode and the set of targets: what the claim calls the permission. -/
def Permission.SameAs {ws : U} (p q : Permission ws) : Prop :=
  p.permissionMode = q.permissionMode ∧ p.targets.toFinset = q.targets.toFinset

/-! ### The response of a GET, and a body that echoes it -/

def Target.dto {ws : U} (ids : Uuids U) (t : Target ws) : TargetDTO :=
  ⟨t.targetType.text, some (ids.uuidToString t.targetID)⟩

/-- The full set of permission fields of a response. -/
def Permission.echo {ws : U} (ids : Uuids U) (p : Permission ws) : Body where
  permissionMode := .value p.permissionMode.text
  invocationTargets := .value (p.targets.map (Target.dto ids))
  visibility := .value (deriveLegacyVisibility p.permissionMode.text p.targets)

/-- The one field that an old client knows. -/
def Permission.echoVisibility {ws : U} (p : Permission ws) : Body where
  permissionMode := .absent
  invocationTargets := .absent
  visibility := .value (deriveLegacyVisibility p.permissionMode.text p.targets)

omit [DecidableEq U] in
theorem resolve_dto {ws : U} (ids : Uuids U) (t : Target ws) :
    resolve ids ws (t.dto ids) = some t := by
  cases t with
  | mk type id home =>
    have hempty := ids.format_ne_empty id
    cases type with
    | invocationTargetWorkspace =>
      cases home rfl
      rfl
    | invocationTargetMember =>
      simp [resolve, parseTarget, parseTarget.withID, Target.dto, TargetType.text, hempty,
        ids.parse_format]
    | invocationTargetTeam =>
      simp [resolve, parseTarget, parseTarget.withID, Target.dto, TargetType.text, hempty,
        ids.parse_format]

theorem submitted_dto {ws : U} (ids : Uuids U) (targets : List (Target ws)) :
    submitted ids ws (targets.map (Target.dto ids)) = targets.toFinset := by
  unfold submitted
  rw [List.filterMap_map]
  congr 1
  have hall : ∀ t ∈ targets, (resolve ids ws ∘ Target.dto ids) t = some t :=
    fun t _ => resolve_dto ids t
  induction targets with
  | nil => rfl
  | cons t rest ih =>
    rw [List.filterMap_cons, hall t List.mem_cons_self]
    exact congrArg _ (ih fun t' ht' => hall t' (List.mem_cons_of_mem _ ht'))

/-! ### What an update can do -/

omit [DecidableEq U] in
theorem canManageAgent_ne_ok {ids : Uuids U} {a : Agent U} {r : Requester} {e : Response}
    (h : canManageAgent ids a r = .error e) : e ≠ .ok := by
  unfold canManageAgent at h
  cases hrole : r.role with
  | none =>
    rw [hrole] at h
    cases h
    exact Response.noConfusion
  | some role =>
    simp only [hrole] at h
    by_cases hallowed : role = .owner ∨ role = .admin ∨ a.isOwner ids r = true
    · rw [if_pos hallowed] at h
      cases h
    · rw [if_neg hallowed] at h
      cases h
      exact Response.noConfusion

/-- What the parser returns is an access, or the zero value of a request that asks for none. -/
theorem parsePermissionInput_ok {ids : Uuids U} {ws : U} {permissionMode legacy : Option String}
    {targets : List TargetDTO} {hasPermissionMode hasTargets asked : Bool}
    {perm : ResolvedPermission ws}
    (h : parsePermissionInput ids ws permissionMode targets hasPermissionMode hasTargets legacy
      = .ok (perm, asked)) :
    (hasPermissionMode = false ∧ perm.mode = "") ∨
      (asked = true ∧ ∃ x : Grant ws, perm.Asks x) := by
  cases hasPermissionMode with
  | false =>
    rcases parsePermissionInput_legacy h with
      ⟨-, -, rfl⟩ | ⟨hasked, ⟨-, rfl⟩ | ⟨-, rfl⟩⟩
    · exact Or.inl ⟨rfl, rfl⟩
    · exact Or.inr ⟨hasked, .shared {Target.workspace ws} (Finset.singleton_nonempty _), rfl, rfl⟩
    · exact Or.inr ⟨hasked, .ownerOnly, rfl, rfl⟩
  | true =>
    rcases parsePermissionInput_mode h with ⟨hasked, x, hx, -⟩
    exact Or.inr ⟨hasked, x, hx⟩

/-- A mode that the column refuses fails the row statement. -/
theorem write_zero {ws : U} {p : Permission ws} {perm : ResolvedPermission ws}
    (h : perm.mode = "") : (p.write perm).1 ≠ .ok ∧ (p.write perm).2 = p := by
  have hcheck : PermissionMode.check perm.mode = none := by rw [h]; decide
  unfold Permission.write
  rw [hcheck]
  exact ⟨Response.noConfusion, rfl⟩

theorem UpdateAgent_cases {ids : Uuids U} {a : Agent U} {p p' : Permission a.workspaceID}
    {r : Requester} {body : Body} {resp : Response}
    (h : UpdateAgent ids a p r body = (resp, p')) :
    (resp ≠ .ok ∧ p' = p) ∨
      (resp = .ok ∧ p' = p ∧
        (a.isOwner ids r = false ∨ body.permissionMode.present = false)) ∨
      (resp = .ok ∧ a.isOwner ids r = true ∧ ∃ req perm x,
        decodeJSONBodyWithRawFields body = some req ∧
        parsePermissionInput ids a.workspaceID req.permissionMode
          (req.invocationTargets.getD []) body.permissionMode.present
          body.invocationTargets.present req.visibility = .ok (perm, true) ∧
        perm.Asks x ∧ p'.Stores x) := by
  unfold UpdateAgent at h
  cases hmanage : canManageAgent ids a r with
  | error e =>
    simp only [hmanage] at h
    cases h
    exact Or.inl ⟨canManageAgent_ne_ok hmanage, rfl⟩
  | ok u =>
    simp only [hmanage] at h
    cases hreq : decodeJSONBodyWithRawFields body with
    | none =>
      simp only [hreq] at h
      cases h
      exact Or.inl ⟨Response.noConfusion, rfl⟩
    | some req =>
      simp only [hreq] at h
      by_cases htouched : (body.permissionMode.present || body.invocationTargets.present
          || req.visibility.isSome) = true
      swap
      · -- no permission field at all
        rw [if_neg htouched] at h
        cases h
        simp only [Bool.or_eq_true, not_or, Bool.not_eq_true] at htouched
        exact Or.inr (Or.inl ⟨rfl, rfl, Or.inr htouched.1.1⟩)
      rw [if_pos htouched] at h
      by_cases howner : a.isOwner ids r = true
      · rw [if_pos howner] at h
        cases hparse : parsePermissionInput ids a.workspaceID req.permissionMode
            (req.invocationTargets.getD []) body.permissionMode.present
            body.invocationTargets.present req.visibility with
        | error e =>
          simp only [hparse] at h
          cases h
          exact Or.inl ⟨Response.noConfusion, rfl⟩
        | ok pair =>
          rcases pair with ⟨perm, asked⟩
          simp only [hparse] at h
          rcases parsePermissionInput_ok hparse with ⟨-, hzero⟩ | ⟨rfl, x, hx⟩
          · -- the zero value is written all the same, and the column refuses it
            have hwrite := write_zero (p := p) hzero
            rw [h] at hwrite
            exact Or.inl hwrite
          · have hwrite : (p.write perm).1 = .ok ∧ (p.write perm).2.Stores x := write_grant hx
            rw [h] at hwrite
            exact Or.inr (Or.inr ⟨hwrite.1, howner, req, perm, x, rfl, hparse, hx, hwrite.2⟩)
      · rw [if_neg howner] at h
        rw [Bool.not_eq_true] at howner
        cases hchanges : permissionInputChangesAgent ids p req body.permissionMode.present
            body.invocationTargets.present with
        | true =>
          rw [if_pos hchanges] at h
          cases h
          exact Or.inl ⟨Response.noConfusion, rfl⟩
        | false =>
          rw [if_neg (by rw [hchanges]; exact Bool.noConfusion)] at h
          cases h
          exact Or.inr (Or.inl ⟨rfl, rfl, Or.inl howner⟩)

/-! ### Echoes -/

/-- The access that a full echo asks for: a private agent keeps no target. -/
def Permission.kept {ws : U} (p : Permission ws) : Finset (Target ws) :=
  if p.permissionMode = .permissionModePrivate then ∅ else p.targets.toFinset

theorem Permission.kept_eq {ws : U} {p : Permission ws}
    (h : p.permissionMode = .permissionModePrivate → p.targets = []) :
    p.kept = p.targets.toFinset := by
  unfold Permission.kept
  by_cases hprivate : p.permissionMode = .permissionModePrivate
  · rw [if_pos hprivate, h hprivate, List.toFinset_nil]
  · rw [if_neg hprivate]

theorem parse_echo (ids : Uuids U) {ws : U} {p : Permission ws} (hnormal : p.Normal)
    (visibility : Option String) :
    ∃ perm : ResolvedPermission ws,
      parsePermissionInput ids ws (some p.permissionMode.text)
        (p.targets.map (Target.dto ids)) true true visibility = .ok (perm, true) ∧
      perm.mode = p.permissionMode.text ∧ perm.targets.toFinset = p.kept := by
  unfold parsePermissionInput
  rw [if_neg (by simp), if_neg (by simp)]
  rcases hnormal with hmode | ⟨hmode, htargets⟩
  · refine ⟨⟨"private", []⟩, ?_, ?_, ?_⟩
    · rw [hmode]
      rfl
    · rw [hmode]
      rfl
    · rw [Permission.kept, if_pos hmode, List.toFinset_nil]
  · have hall : ∀ t ∈ p.targets.map (Target.dto ids), (resolve ids ws t).isSome := by
      intro t ht
      rcases List.mem_map.1 ht with ⟨t', -, rfl⟩
      rw [resolve_dto]
      rfl
    rcases parsePublicTo_ok hall with ⟨perm, hperm, hpublic, hset⟩
    refine ⟨perm, ?_, ?_, ?_⟩
    · rw [hmode]
      exact hperm
    · rw [hmode, hpublic]
      rfl
    · have hne : p.targets.toFinset ≠ ∅ := by
        rw [Ne, List.toFinset_eq_empty_iff]
        exact htargets
      rw [hset, submitted_dto, orWorkspace, if_neg hne, Permission.kept, if_neg]
      rw [hmode]
      exact PermissionMode.noConfusion

omit [DecidableEq U] in
theorem deriveLegacyVisibility_eq {ws : U} (mode : String) (targets : List (Target ws)) :
    deriveLegacyVisibility mode targets = "workspace" ∨
      deriveLegacyVisibility mode targets = "private" := by
  unfold deriveLegacyVisibility
  split
  · exact Or.inl rfl
  · exact Or.inr rfl

section

variable {ids : Uuids U} {a : Agent U} {p : Permission a.workspaceID} {r : Requester}
  (hmanage : canManageAgent ids a r = .ok ())

include hmanage

/-- The owner's full echo is accepted and stores what it echoes. -/
theorem UpdateAgent_echo_owner (hnormal : p.Normal) (howner : a.isOwner ids r = true) :
    (UpdateAgent ids a p r (p.echo ids)).1 = .ok ∧
      (UpdateAgent ids a p r (p.echo ids)).2.permissionMode = p.permissionMode ∧
      (UpdateAgent ids a p r (p.echo ids)).2.targets.toFinset = p.kept := by
  rcases parse_echo ids hnormal
    (some (deriveLegacyVisibility p.permissionMode.text p.targets)) with
    ⟨perm, hparse, hmode, hset⟩
  have hupdate : UpdateAgent ids a p r (p.echo ids) = p.write perm := by
    unfold UpdateAgent
    simp only [hmanage, decodeJSONBodyWithRawFields, Permission.echo, Field.decode, Field.present,
      Option.bind_eq_bind, Option.bind_some, Option.pure_def, Option.getD_some, Bool.true_or,
      if_true, howner, hparse]
  have hcheck : PermissionMode.check perm.mode = some p.permissionMode := by rw [hmode]; simp
  rw [hupdate]
  unfold Permission.write
  rw [hcheck]
  refine ⟨rfl, rfl, ?_⟩
  show (replaceInvocationTargets perm.targets).toFinset = p.kept
  rw [replaceInvocationTargets_toFinset, hset]

/-- Anybody else's is dropped. -/
theorem UpdateAgent_echo_other (hnormal : p.Normal)
    (hprivate : p.permissionMode = .permissionModePrivate → p.targets = [])
    (hother : a.isOwner ids r = false) :
    UpdateAgent ids a p r (p.echo ids) = (.ok, p) := by
  rcases parse_echo ids hnormal
    (some (deriveLegacyVisibility p.permissionMode.text p.targets)) with
    ⟨perm, hparse, hmode, hset⟩
  have hchanges : permissionInputChangesAgent ids p
      ⟨some p.permissionMode.text, some (p.targets.map (Target.dto ids)),
        some (deriveLegacyVisibility p.permissionMode.text p.targets)⟩ true true = false := by
    rw [permissionInputChangesAgent_eq_false (by simp) hparse]
    exact ⟨hmode, hset.trans (Permission.kept_eq hprivate)⟩
  unfold UpdateAgent
  simp only [hmanage, decodeJSONBodyWithRawFields, Permission.echo, Field.decode, Field.present,
    Option.bind_eq_bind, Option.bind_some, Option.pure_def, Bool.true_or,
    if_true, hother, hchanges, Bool.false_eq_true, if_false]

/-- The legacy visibility that anybody else echoes is compared with the derived one. -/
theorem UpdateAgent_echoVisibility_other (hother : a.isOwner ids r = false) :
    UpdateAgent ids a p r p.echoVisibility = (.ok, p) := by
  have hchanges : permissionInputChangesAgent ids p
      ⟨none, none, some (deriveLegacyVisibility p.permissionMode.text p.targets)⟩ false false
        = false := by
    unfold permissionInputChangesAgent
    rw [if_pos ⟨rfl, rfl⟩]
    rcases deriveLegacyVisibility_eq p.permissionMode.text p.targets with h | h
    · simp [h]
    · simp [h]
  unfold UpdateAgent
  simp only [hmanage, decodeJSONBodyWithRawFields, Permission.echoVisibility, Field.decode,
    Field.present, Option.bind_eq_bind, Option.bind_some, Option.pure_def,
    Option.isSome_some, Bool.or_true, if_true, hother, hchanges, Bool.false_eq_true, if_false]

/-- The owner's is mapped to a permission, and that is written. -/
theorem UpdateAgent_echoVisibility_owner (howner : a.isOwner ids r = true)
    {perm : ResolvedPermission a.workspaceID} {x : Grant a.workspaceID}
    (hparse : parsePermissionInput ids a.workspaceID none [] false false
      (some (deriveLegacyVisibility p.permissionMode.text p.targets)) = .ok (perm, true))
    (hasks : perm.Asks x) :
    (UpdateAgent ids a p r p.echoVisibility).1 = .ok ∧
      (UpdateAgent ids a p r p.echoVisibility).2.Stores x := by
  have hupdate : UpdateAgent ids a p r p.echoVisibility = p.write perm := by
    unfold UpdateAgent
    simp only [hmanage, decodeJSONBodyWithRawFields, Permission.echoVisibility, Field.decode,
      Field.present, Option.bind_eq_bind, Option.bind_some, Option.pure_def, Option.getD_none,
      Option.isSome_some, Bool.or_true, if_true, howner, hparse]
  rw [hupdate]
  exact write_grant hasks

theorem UpdateAgent_echoVisibility_private (howner : a.isOwner ids r = true)
    (hmode : p.permissionMode = .permissionModePrivate) :
    (UpdateAgent ids a p r p.echoVisibility).1 = .ok ∧
      (UpdateAgent ids a p r p.echoVisibility).2.Stores .ownerOnly := by
  have hderived : deriveLegacyVisibility p.permissionMode.text p.targets = "private" := by
    rw [hmode]
    rfl
  have hasks : (⟨"private", []⟩ : ResolvedPermission a.workspaceID).Asks .ownerOnly := ⟨rfl, rfl⟩
  refine UpdateAgent_echoVisibility_owner hmanage howner ?_ hasks
  rw [hderived]
  rfl

theorem UpdateAgent_echoVisibility_workspace (howner : a.isOwner ids r = true)
    (hstores : p.Stores (.shared {Target.workspace a.workspaceID}
      (Finset.singleton_nonempty _))) :
    (UpdateAgent ids a p r p.echoVisibility).1 = .ok ∧
      (UpdateAgent ids a p r p.echoVisibility).2.Stores
        (.shared {Target.workspace a.workspaceID} (Finset.singleton_nonempty _)) := by
  have hmem : Target.workspace a.workspaceID ∈ p.targets := by
    rw [← List.mem_toFinset, hstores.2]
    exact Finset.mem_singleton_self _
  have hderived : deriveLegacyVisibility p.permissionMode.text p.targets = "workspace" := by
    rw [hstores.1]
    exact if_pos ⟨rfl, List.any_eq_true.2 ⟨_, hmem, rfl⟩⟩
  have hasks : (⟨"public_to", [Target.workspace a.workspaceID]⟩ :
      ResolvedPermission a.workspaceID).Asks
        (.shared {Target.workspace a.workspaceID} (Finset.singleton_nonempty _)) := ⟨rfl, rfl⟩
  refine UpdateAgent_echoVisibility_owner hmanage howner ?_ hasks
  rw [hderived]
  rfl

end

/-! ### The promises of an update -/

/-- The targets that a body lists. -/
def Body.listed (body : Body) : List TargetDTO :=
  (body.invocationTargets.decode.getD none).getD []

/-- The access is well formed and the owner's, whatever is submitted. -/
structure OwnerControlled (ids : Uuids U) (a : Agent U) (p : Permission a.workspaceID)
    (r : Requester) (body : Body) : Prop where
  normal : (UpdateAgent ids a p r body).1 = .ok → (UpdateAgent ids a p r body).2.Normal
  other : a.isOwner ids r = false → (UpdateAgent ids a p r body).2.SameAs p
  echo : body = p.echo ids ∨ body = p.echoVisibility → (UpdateAgent ids a p r body).2.SameAs p
  stores : a.isOwner ids r = true → (UpdateAgent ids a p r body).1 = .ok →
    body.permissionMode.present = true →
    body.permissionMode = .value (UpdateAgent ids a p r body).2.permissionMode.text ∧
      (UpdateAgent ids a p r body).2.targets.toFinset =
        if (UpdateAgent ids a p r body).2.permissionMode = .permissionModePublicTo then
          orWorkspace (submitted ids a.workspaceID body.listed)
        else submitted ids a.workspaceID body.listed
  rejected : (UpdateAgent ids a p r body).1 ≠ .ok → (UpdateAgent ids a p r body).2.SameAs p

/-- What an update keeps to: a private agent stores no target, and the legacy visibility of the
owner is mapped. -/
structure Governed (ids : Uuids U) (a : Agent U) (p : Permission a.workspaceID)
    (r : Requester) (body : Body) : Prop where
  normal : (UpdateAgent ids a p r body).1 = .ok → (UpdateAgent ids a p r body).2.Normal
  other : a.isOwner ids r = false → (UpdateAgent ids a p r body).2 = p
  rejected : (UpdateAgent ids a p r body).1 ≠ .ok → (UpdateAgent ids a p r body).2 = p
  stores : a.isOwner ids r = true → (UpdateAgent ids a p r body).1 = .ok →
    body.permissionMode.present = true →
    ∃ x, (UpdateAgent ids a p r body).2.Stores x ∧
      Requested ids (body.permissionMode.decode.getD none) body.listed x
  echo : body = p.echo ids → (p.permissionMode = .permissionModePrivate → p.targets = []) →
    (UpdateAgent ids a p r body).1 = .ok ∧ (UpdateAgent ids a p r body).2.SameAs p
  echoPrivate : body = p.echo ids → a.isOwner ids r = true →
    p.permissionMode = .permissionModePrivate →
    (UpdateAgent ids a p r body).1 = .ok ∧ (UpdateAgent ids a p r body).2.Stores .ownerOnly
  echoVisibility : body = p.echoVisibility → a.isOwner ids r = false →
    (UpdateAgent ids a p r body).1 = .ok
  echoVisibilityPrivate : body = p.echoVisibility → a.isOwner ids r = true →
    p.permissionMode = .permissionModePrivate →
    (UpdateAgent ids a p r body).1 = .ok ∧ (UpdateAgent ids a p r body).2.Stores .ownerOnly
  echoVisibilityWorkspace : body = p.echoVisibility → a.isOwner ids r = true →
    p.Stores (.shared {Target.workspace a.workspaceID} (Finset.singleton_nonempty _)) →
    (UpdateAgent ids a p r body).1 = .ok ∧ (UpdateAgent ids a p r body).2.SameAs p

theorem Permission.Stores.sameAs {ws : U} {p q : Permission ws} {x : Grant ws}
    (hp : p.Stores x) (hq : q.Stores x) : p.SameAs q :=
  ⟨hp.1.trans hq.1.symm, hp.2.trans hq.2.symm⟩

/-- A request asks for one access only. -/
theorem Permission.Stores.of_asks {ws : U} {p : Permission ws} {perm : ResolvedPermission ws}
    {x x' : Grant ws} (h : p.Stores x) (hx : perm.Asks x) (hx' : perm.Asks x') : p.Stores x' := by
  have hmode : x.mode = x'.mode := PermissionMode.text_injective (hx.1.symm.trans hx'.1)
  exact ⟨h.1.trans hmode, h.2.trans (hx.2.symm.trans hx'.2)⟩

theorem decodeJSONBody_fields {body : Body} {req : UpdateAgentRequest}
    (h : decodeJSONBodyWithRawFields body = some req) :
    body.permissionMode.decode = some req.permissionMode ∧
      body.invocationTargets.decode = some req.invocationTargets := by
  unfold decodeJSONBodyWithRawFields at h
  rcases Option.bind_eq_some_iff.1 h with ⟨permissionMode, hmode, h⟩
  rcases Option.bind_eq_some_iff.1 h with ⟨invocationTargets, htargets, h⟩
  rcases Option.bind_eq_some_iff.1 h with ⟨visibility, -, h⟩
  cases Option.some.inj h
  exact ⟨hmode, htargets⟩

theorem Body.listed_eq {body : Body} {targets : Option (List TargetDTO)}
    (h : body.invocationTargets.decode = some targets) :
    (if body.invocationTargets.present then targets.getD [] else []) = body.listed := by
  unfold Body.listed
  cases hfield : body.invocationTargets with
  | absent => rfl
  | null =>
    rw [hfield] at h
    cases h
    rfl
  | malformed =>
    rw [hfield] at h
    cases h
  | value l =>
    rw [hfield] at h
    cases h
    rfl

/-- The access that an accepted request of the owner with `permission_mode` stores. -/
theorem UpdateAgent_stores {ids : Uuids U} {a : Agent U} {p : Permission a.workspaceID}
    {r : Requester} {body : Body} (howner : a.isOwner ids r = true)
    (hok : (UpdateAgent ids a p r body).1 = .ok) (hmode : body.permissionMode.present = true) :
    ∃ x, (UpdateAgent ids a p r body).2.Stores x ∧
      Requested ids (body.permissionMode.decode.getD none) body.listed x := by
  have hcases := UpdateAgent_cases (@Prod.mk.eta _ _ (UpdateAgent ids a p r body)).symm
  rcases hcases with
    ⟨hrejected, -⟩ | ⟨-, -, hother | habsent⟩ | ⟨-, -, req, perm, x, hreq, hparse, hasks, hx⟩
  · exact absurd hok hrejected
  · rw [howner] at hother
    cases hother
  · rw [hmode] at habsent
    cases habsent
  · rw [hmode] at hparse
    rcases parsePermissionInput_mode hparse with ⟨-, x', hasks', hrequested⟩
    rcases decodeJSONBody_fields hreq with ⟨hdecode, htargets⟩
    rw [Body.listed_eq htargets] at hrequested
    refine ⟨x', hx.of_asks hasks hasks', ?_⟩
    rw [hdecode]
    exact hrequested

/-- Every update by a requester who may manage the agent is governed by its owner. -/
theorem governed (ids : Uuids U) (a : Agent U) (p : Permission a.workspaceID) (r : Requester)
    (body : Body) (hnormal : p.Normal) (hmanage : canManageAgent ids a r = .ok ()) :
    Governed ids a p r body := by
  have hcases := UpdateAgent_cases (@Prod.mk.eta _ _ (UpdateAgent ids a p r body)).symm
  refine
    { normal := ?_, other := ?_, rejected := ?_, stores := UpdateAgent_stores, echo := ?_,
      echoPrivate := ?_, echoVisibility := ?_, echoVisibilityPrivate := ?_,
      echoVisibilityWorkspace := ?_ }
  · intro hok
    rcases hcases with ⟨hrejected, -⟩ | ⟨-, hsame, -⟩ | ⟨-, -, req, perm, x, -, -, -, hx⟩
    · exact absurd hok hrejected
    · rw [hsame]
      exact hnormal
    · exact hx.normal
  · intro hother
    rcases hcases with ⟨-, hsame⟩ | ⟨-, hsame, -⟩ | ⟨-, howner, -⟩
    · exact hsame
    · exact hsame
    · rw [hother] at howner
      cases howner
  · intro hrejected
    rcases hcases with ⟨-, hsame⟩ | ⟨hok, -⟩ | ⟨hok, -⟩
    · exact hsame
    · exact absurd hok hrejected
    · exact absurd hok hrejected
  · rintro rfl hprivate
    cases howner : a.isOwner ids r with
    | true =>
      rcases UpdateAgent_echo_owner hmanage hnormal howner with ⟨hok, hmode, hset⟩
      exact ⟨hok, hmode, hset.trans (Permission.kept_eq hprivate)⟩
    | false =>
      rw [UpdateAgent_echo_other hmanage hnormal hprivate howner]
      exact ⟨rfl, rfl, rfl⟩
  · rintro rfl howner hmode
    rcases UpdateAgent_echo_owner hmanage hnormal howner with ⟨hok, hmode', hset⟩
    refine ⟨hok, hmode'.trans hmode, hset.trans ?_⟩
    exact if_pos hmode
  · rintro rfl hother
    rw [UpdateAgent_echoVisibility_other hmanage hother]
  · rintro rfl howner hmode
    exact UpdateAgent_echoVisibility_private hmanage howner hmode
  · rintro rfl howner hstores
    rcases UpdateAgent_echoVisibility_workspace hmanage howner hstores with ⟨hok, hx⟩
    exact ⟨hok, hx.sameAs hstores⟩

end

/-! ### A private request with targets, and an owner's old client -/

inductive ExampleId where
  | space
  | alice
  | bob
deriving DecidableEq

def ExampleId.text : ExampleId → String
  | .space => "0b6f1f2e-6c3a-4a57-9f0d-3f6c1a2b4c5d"
  | .alice => "1c7a2b3d-7d4b-4b68-8a1e-4a7d2b3c5d6e"
  | .bob => "2d8b3c4e-8e5c-4c79-9b2f-5b8e3c4d6e7f"

def exampleIds : Uuids ExampleId where
  parseUUID s :=
    if s = ExampleId.space.text then some .space
    else if s = ExampleId.alice.text then some .alice
    else if s = ExampleId.bob.text then some .bob
    else none
  uuidToString := ExampleId.text
  parse_format u := by cases u <;> rfl
  parse_empty := rfl

def exampleAgent : Agent ExampleId := ⟨.space, some .alice⟩

/-- Shared with one member. -/
def sharedWithBob : Permission exampleAgent.workspaceID where
  permissionMode := .permissionModePublicTo
  visibility := "private"
  targets := [⟨.invocationTargetMember, .bob, TargetType.noConfusion⟩]
  unique := List.nodup_singleton _

def exampleOwner : Requester := ⟨ExampleId.alice.text, some .member⟩

def privateWithTargets : Body where
  permissionMode := .value "private"
  invocationTargets := .value [⟨"member", some ExampleId.bob.text⟩]
  visibility := .absent

/-- The owner's request is accepted, and the targets it submits are not stored; and an old client
that echoes the derived visibility for the owner turns the shared agent into a private one. -/
theorem not_ownerControlled :
    sharedWithBob.Normal ∧ canManageAgent exampleIds exampleAgent exampleOwner = .ok () ∧
      ¬ OwnerControlled exampleIds exampleAgent sharedWithBob exampleOwner privateWithTargets ∧
      ¬ OwnerControlled exampleIds exampleAgent sharedWithBob exampleOwner
        sharedWithBob.echoVisibility := by
  refine ⟨Or.inr ⟨rfl, List.cons_ne_nil _ _⟩, rfl, ?_, ?_⟩
  · intro h
    have hstored := (h.stores rfl rfl rfl).2
    revert hstored
    decide +kernel
  · intro h
    have hmode := (h.echo (Or.inr rfl)).1
    revert hmode
    decide +kernel

/-- A full echo of the owner's, at a shared agent. -/
theorem governed_sharedWithBob :
    Governed exampleIds exampleAgent sharedWithBob exampleOwner (sharedWithBob.echo exampleIds) :=
  governed exampleIds exampleAgent sharedWithBob exampleOwner (sharedWithBob.echo exampleIds)
    (Or.inr ⟨rfl, List.cons_ne_nil _ _⟩) rfl

end Orynx.Access
