import Orynx.FeatureFlag.Hash

/-! # One rule, evaluated by the server and by the client

`evaluateRule`, `decisionFromRule` and the attribute lookup of `server/pkg/featureflag` and of
`packages/core/feature-flags`. The providers' tables of rules are not part of the model.

Go takes an empty attribute name for an absent one; the client does so with `??`, which keeps
the empty text. The client also finds under a name what every object inherits.

* `Go.evaluateRule_eq`, `Ts.evaluateRule_eq`: each side decides by what it reads from the context;
* `readsAlike_of_plainNames`: under names that are neither empty nor inherited both sides read
  the same;
* `evaluateRule_alike_iff`: the decisions are equal exactly where the readings lead to one.
-/

namespace Orynx.FeatureFlag

inductive Reason
  | static | percent | override | default | error
deriving DecidableEq, Repr

structure Decision where
  key : String
  enabled : Bool
  variant : String
  reason : Reason
  source : String
deriving DecidableEq, Repr

def boolToVariant (b : Bool) : String := if b then "on" else "off"

namespace Go

structure PercentRollout where
  percent : Int
  By : String
deriving DecidableEq, Repr

structure Rule where
  default : Bool
  variant : String
  allow : List String
  allowBy : String
  deny : List String
  denyBy : String
  percent : Option PercentRollout
deriving DecidableEq, Repr

/-- `attributes` is `none` for a nil map. -/
structure EvalContext where
  userID : String
  workspaceID : String
  attributes : Option (String → Option String)

/-- `none` is the answer `"", false`. -/
def EvalContext.Lookup (ec : EvalContext) (name : String) : Option String :=
  if name = "user_id" then
    if ec.userID ≠ "" then some ec.userID else none
  else if name = "workspace_id" then
    if ec.workspaceID ≠ "" then some ec.workspaceID else none
  else match ec.attributes with
    | none => none
    | some attributes =>
      match attributes name with
      | none => none
      | some v => if v = "" then none else some v

def orDefault (v dflt : String) : String := if v = "" then dflt else v

def decisionFromRule (key : String) (rule : Rule) (enabled : Bool) (reason : Reason) : Decision :=
  { key := key
    enabled := enabled
    variant := if enabled ∧ rule.variant ≠ "" then rule.variant else boolToVariant enabled
    reason := reason
    source := "static" }

/-- Whether a list of a rule holds what the context has under a name. -/
def lists (ec : EvalContext) (values : List String) (name : String) : Bool :=
  if 0 < values.length then
    match ec.Lookup name with
    | some v => values.contains v
    | none => false
  else false

def evaluateRule (key : String) (rule : Rule) (ec : EvalContext) : Decision :=
  if lists ec rule.deny (orDefault rule.denyBy "user_id") then
    decisionFromRule key rule false .static
  else if lists ec rule.allow (orDefault rule.allowBy "user_id") then
    decisionFromRule key rule true .static
  else match rule.percent with
    | some rollout =>
      let identifier := (ec.Lookup (orDefault rollout.By "user_id")).getD ""
      if inPercent key identifier rollout.percent then decisionFromRule key rule true .percent
      else decisionFromRule key rule false .percent
    | none => decisionFromRule key rule rule.default .static

end Go

namespace Ts

structure PercentRollout where
  percent : Int
  By : Option String
deriving DecidableEq, Repr

structure Rule where
  default : Option Bool
  variant : Option String
  allow : Option (List String)
  allowBy : Option String
  deny : Option (List String)
  denyBy : Option String
  percent : Option PercentRollout
deriving DecidableEq, Repr

structure EvalContext where
  userId : Option String
  workspaceId : Option String
  attributes : Option (String → Option String)

/-- What stands under a name: a text of the context, or a function that every object inherits
and whose text is `shown`. -/
inductive Value
  | text (s : String)
  | builtin (shown : String)
deriving DecidableEq, Repr

/-- The text that `encode` takes a value for. -/
def Value.shown : Value → String
  | .text s => s
  | .builtin s => s

/-- `includes`, on a list of texts. -/
def includes (values : List String) : Value → Bool
  | .text s => values.contains s
  | .builtin _ => false

def nonEmpty : Option String → Option Value
  | some v => if 0 < v.length then some (.text v) else none
  | none => none

/-- `inherited` gives the text of the functions of `Object.prototype` with a positive `length`,
the only inherited values that pass `nonEmpty`. -/
def lookupAttr (inherited : String → Option String) (ctx : EvalContext) (name : String) :
    Option Value :=
  if name = "user_id" then nonEmpty ctx.userId
  else if name = "workspace_id" then nonEmpty ctx.workspaceId
  else match ctx.attributes with
    | none => none
    | some attributes =>
      match attributes name with
      | some v => nonEmpty (some v)
      | none => (inherited name).map .builtin

def decisionFromRule (key : String) (rule : Rule) (enabled : Bool) (reason : Reason) : Decision :=
  { key := key
    enabled := enabled
    variant :=
      match rule.variant with
      | some variant =>
        if enabled ∧ 0 < variant.length then variant else boolToVariant enabled
      | none => boolToVariant enabled
    reason := reason
    source := "static" }

def lists (inherited : String → Option String) (ctx : EvalContext)
    (values : Option (List String)) (name : String) : Bool :=
  match values with
  | some values =>
    if 0 < values.length then
      match lookupAttr inherited ctx name with
      | some v => includes values v
      | none => false
    else false
  | none => false

def evaluateRule (inherited : String → Option String) (key : String) (rule : Rule)
    (ctx : EvalContext) : Decision :=
  if lists inherited ctx rule.deny (rule.denyBy.getD "user_id") then
    decisionFromRule key rule false .static
  else if lists inherited ctx rule.allow (rule.allowBy.getD "user_id") then
    decisionFromRule key rule true .static
  else match rule.percent with
    | some rollout =>
      let ident := (lookupAttr inherited ctx (rollout.By.getD "user_id")).map Value.shown
      decisionFromRule key rule (inPercent key (ident.getD "") rollout.percent) .percent
    | none => decisionFromRule key rule (rule.default.getD false) .static

end Ts

/-- A rule written for the client, as the server's type holds it: what is absent is zero. -/
def Ts.Rule.toGo (rule : Ts.Rule) : Go.Rule :=
  { default := rule.default.getD false
    variant := rule.variant.getD ""
    allow := rule.allow.getD []
    allowBy := rule.allowBy.getD ""
    deny := rule.deny.getD []
    denyBy := rule.denyBy.getD ""
    percent := rule.percent.map fun r => ⟨r.percent, r.By.getD ""⟩ }

def Ts.EvalContext.toGo (ctx : Ts.EvalContext) : Go.EvalContext :=
  { userID := ctx.userId.getD ""
    workspaceID := ctx.workspaceId.getD ""
    attributes := ctx.attributes }

/-! ## What a rule reads, and what it decides from it -/

/-- What one side reads from the context under the names of a rule. -/
structure Reading where
  denied : Bool
  allowed : Bool
  identifier : String
deriving DecidableEq, Repr

/-- The four stages: deny, allow, percent, default. -/
def verdict (key : String) (default : Bool) (percent : Option Int) (r : Reading) :
    Bool × Reason :=
  if r.denied then (false, .static)
  else if r.allowed then (true, .static)
  else match percent with
    | some percent => (Go.inPercent key r.identifier percent, .percent)
    | none => (default, .static)

/-- Two readings of one rule lead to one verdict. -/
def ReadsAlike (key : String) (default : Bool) (percent : Option Int) (r s : Reading) : Prop :=
  (r.denied ≠ s.denied →
    percent = none ∧ default = false ∧ (r.denied ∨ ¬ r.allowed) ∧ (s.denied ∨ ¬ s.allowed)) ∧
  (¬ r.denied → ¬ s.denied → r.allowed ≠ s.allowed → percent = none ∧ default = true) ∧
  (¬ r.denied → ¬ s.denied → ¬ r.allowed → ¬ s.allowed → ∀ p ∈ percent,
    Go.inPercent key r.identifier p = Go.inPercent key s.identifier p)

theorem verdict_eq_iff (key : String) (default : Bool) (percent : Option Int) (r s : Reading) :
    verdict key default percent r = verdict key default percent s ↔
      ReadsAlike key default percent r s := by
  obtain ⟨rd, ra, ri⟩ := r
  obtain ⟨sd, sa, si⟩ := s
  unfold verdict ReadsAlike
  cases percent <;> cases rd <;> cases sd <;> cases ra <;> cases sa <;> cases default <;> simp

namespace Go

def read (rule : Rule) (ec : EvalContext) : Reading :=
  { denied := lists ec rule.deny (orDefault rule.denyBy "user_id")
    allowed := lists ec rule.allow (orDefault rule.allowBy "user_id")
    identifier :=
      (ec.Lookup (orDefault ((rule.percent.map PercentRollout.By).getD "") "user_id")).getD "" }

def Rule.verdict (key : String) (rule : Rule) (r : Reading) : Bool × Reason :=
  FeatureFlag.verdict key rule.default (rule.percent.map PercentRollout.percent) r

theorem evaluateRule_eq (key : String) (rule : Rule) (ec : EvalContext) :
    evaluateRule key rule ec =
      decisionFromRule key rule (rule.verdict key (read rule ec)).1
        (rule.verdict key (read rule ec)).2 := by
  unfold evaluateRule Rule.verdict FeatureFlag.verdict read
  by_cases hdeny : lists ec rule.deny (orDefault rule.denyBy "user_id")
  · rw [if_pos hdeny, if_pos hdeny]
  rw [if_neg hdeny, if_neg hdeny]
  by_cases hallow : lists ec rule.allow (orDefault rule.allowBy "user_id")
  · rw [if_pos hallow, if_pos hallow]
  rw [if_neg hallow, if_neg hallow]
  cases hpercent : rule.percent with
  | none => rfl
  | some rollout =>
    dsimp only [Option.map_some, Option.getD_some]
    cases inPercent key ((ec.Lookup (orDefault rollout.By "user_id")).getD "") rollout.percent
    · rfl
    · rfl

end Go

namespace Ts

def read (inherited : String → Option String) (rule : Rule) (ctx : EvalContext) : Reading :=
  { denied := lists inherited ctx rule.deny (rule.denyBy.getD "user_id")
    allowed := lists inherited ctx rule.allow (rule.allowBy.getD "user_id")
    identifier :=
      ((lookupAttr inherited ctx
        ((rule.percent.bind PercentRollout.By).getD "user_id")).map Value.shown).getD "" }

def Rule.verdict (key : String) (rule : Rule) (r : Reading) : Bool × Reason :=
  FeatureFlag.verdict key (rule.default.getD false) (rule.percent.map PercentRollout.percent) r

theorem evaluateRule_eq (inherited : String → Option String) (key : String) (rule : Rule)
    (ctx : EvalContext) :
    evaluateRule inherited key rule ctx =
      decisionFromRule key rule (rule.verdict key (read inherited rule ctx)).1
        (rule.verdict key (read inherited rule ctx)).2 := by
  unfold evaluateRule Rule.verdict FeatureFlag.verdict read
  by_cases hdeny : lists inherited ctx rule.deny (rule.denyBy.getD "user_id")
  · rw [if_pos hdeny, if_pos hdeny]
  rw [if_neg hdeny, if_neg hdeny]
  by_cases hallow : lists inherited ctx rule.allow (rule.allowBy.getD "user_id")
  · rw [if_pos hallow, if_pos hallow]
  rw [if_neg hallow, if_neg hallow]
  cases hpercent : rule.percent with
  | none => rfl
  | some rollout =>
    dsimp only [Option.map_some, Option.bind_some]
    rw [inPercent_agree]

end Ts

/-- The server's rule decides by the same stages. -/
theorem toGo_verdict (key : String) (rule : Ts.Rule) (r : Reading) :
    rule.toGo.verdict key r = rule.verdict key r := by
  unfold Go.Rule.verdict Ts.Rule.verdict
  have hpercent : rule.toGo.percent.map Go.PercentRollout.percent =
      rule.percent.map Ts.PercentRollout.percent := by
    simp [Ts.Rule.toGo, Function.comp_def]
  rw [hpercent]
  rfl

theorem decisionFromRule_toGo (key : String) (rule : Ts.Rule) (enabled : Bool)
    (reason : Reason) :
    Go.decisionFromRule key rule.toGo enabled reason =
      Ts.decisionFromRule key rule enabled reason := by
  unfold Go.decisionFromRule Ts.decisionFromRule
  cases hvariant : rule.variant with
  | none => simp [Ts.Rule.toGo, hvariant]
  | some variant =>
    have hlength : 0 < variant.length ↔ variant ≠ "" := by
      rw [Nat.pos_iff_ne_zero, ne_eq, String.length_eq_zero_iff]
    simp [Ts.Rule.toGo, hvariant, hlength]

/-! ## Names that both sides read alike -/

/-- The name of an attribute is not the empty text and not inherited by every object. -/
def Plain (inherited : String → Option String) (name : Option String) : Prop :=
  name ≠ some "" ∧ ∀ n ∈ name, inherited n = none

def PlainNames (inherited : String → Option String) (rule : Ts.Rule) : Prop :=
  Plain inherited rule.denyBy ∧ Plain inherited rule.allowBy ∧
    Plain inherited (rule.percent.bind Ts.PercentRollout.By)

/-- A plain name defaults to the same attribute. -/
theorem orDefault_plain {inherited : String → Option String} {name : Option String}
    (hname : Plain inherited name) :
    Go.orDefault (name.getD "") "user_id" = name.getD "user_id" := by
  cases name with
  | none => rfl
  | some n =>
    have hn : n ≠ "" := fun h => hname.1 (by rw [h])
    exact if_neg hn

theorem nonEmpty_eq (v : Option String) :
    Ts.nonEmpty v = (if v.getD "" ≠ "" then some (v.getD "") else none).map Ts.Value.text := by
  cases v with
  | none => rfl
  | some v =>
    have hlength : 0 < v.length ↔ v ≠ "" := by
      rw [Nat.pos_iff_ne_zero, ne_eq, String.length_eq_zero_iff]
    by_cases hv : v = ""
    · subst hv
      rfl
    · simp [Ts.nonEmpty, hlength, hv]

theorem lookupAttr_plain {inherited : String → Option String} {name : Option String}
    (hname : Plain inherited name) (ctx : Ts.EvalContext) :
    Ts.lookupAttr inherited ctx (name.getD "user_id") =
      (ctx.toGo.Lookup (name.getD "user_id")).map Ts.Value.text := by
  unfold Ts.lookupAttr Go.EvalContext.Lookup
  by_cases huser : name.getD "user_id" = "user_id"
  · rw [if_pos huser, if_pos huser]
    exact nonEmpty_eq ctx.userId
  rw [if_neg huser, if_neg huser]
  by_cases hworkspace : name.getD "user_id" = "workspace_id"
  · rw [if_pos hworkspace, if_pos hworkspace]
    exact nonEmpty_eq ctx.workspaceId
  rw [if_neg hworkspace, if_neg hworkspace]
  have hinherited : inherited (name.getD "user_id") = none := by
    cases name with
    | none => exact absurd rfl huser
    | some n => exact hname.2 n rfl
  cases hattributes : ctx.attributes with
  | none => simp [Ts.EvalContext.toGo, hattributes]
  | some attributes =>
    cases hv : attributes (name.getD "user_id") with
    | none => simp [Ts.EvalContext.toGo, hattributes, hv, hinherited]
    | some v =>
      by_cases hempty : v = ""
      · simp [Ts.EvalContext.toGo, hattributes, hv, hempty, nonEmpty_eq]
      · simp [Ts.EvalContext.toGo, hattributes, hv, hempty, nonEmpty_eq]

theorem lists_plain {inherited : String → Option String} {name : Option String}
    (hname : Plain inherited name) (ctx : Ts.EvalContext) (values : Option (List String)) :
    Go.lists ctx.toGo (values.getD []) (Go.orDefault (name.getD "") "user_id") =
      Ts.lists inherited ctx values (name.getD "user_id") := by
  rw [orDefault_plain hname]
  unfold Go.lists Ts.lists
  cases values with
  | none => rfl
  | some values =>
    dsimp only [Option.getD_some]
    rw [lookupAttr_plain hname]
    cases ctx.toGo.Lookup (name.getD "user_id") with
    | none => rfl
    | some v => rfl

/-- Under plain names both sides read the same from every context. -/
theorem read_toGo {inherited : String → Option String} {rule : Ts.Rule}
    (hnames : PlainNames inherited rule) (ctx : Ts.EvalContext) :
    Go.read rule.toGo ctx.toGo = Ts.read inherited rule ctx := by
  obtain ⟨hdeny, hallow, hpercent⟩ := hnames
  unfold Go.read Ts.read
  have hby : (rule.toGo.percent.map Go.PercentRollout.By).getD "" =
      (rule.percent.bind Ts.PercentRollout.By).getD "" := by
    cases hrollout : rule.percent with
    | none => simp [Ts.Rule.toGo, hrollout]
    | some rollout => simp [Ts.Rule.toGo, hrollout]
  rw [hby, orDefault_plain hpercent, lookupAttr_plain hpercent, Option.map_map]
  have hshown : Ts.Value.shown ∘ Ts.Value.text = id := rfl
  rw [hshown, Option.map_id]
  congr 1
  · exact lists_plain hdeny ctx rule.deny
  · exact lists_plain hallow ctx rule.allow

/-! ## Equal decisions -/

/-- What a caller sees of a decision is the same. -/
def Decision.Alike (d e : Decision) : Prop :=
  d.enabled = e.enabled ∧ d.variant = e.variant ∧ d.reason = e.reason

/-- The two sides' readings of a rule lead to one verdict. -/
def RuleReadsAlike (inherited : String → Option String) (key : String) (rule : Ts.Rule)
    (ctx : Ts.EvalContext) : Prop :=
  ReadsAlike key (rule.default.getD false) (rule.percent.map Ts.PercentRollout.percent)
    (Go.read rule.toGo ctx.toGo) (Ts.read inherited rule ctx)

theorem readsAlike_of_plainNames {inherited : String → Option String} {rule : Ts.Rule}
    (hnames : PlainNames inherited rule) (key : String) (ctx : Ts.EvalContext) :
    RuleReadsAlike inherited key rule ctx := by
  unfold RuleReadsAlike
  rw [read_toGo hnames, ← verdict_eq_iff]

theorem evaluateRule_alike_iff (inherited : String → Option String) (key : String)
    (rule : Ts.Rule) (ctx : Ts.EvalContext) :
    ((Go.evaluateRule key rule.toGo ctx.toGo).Alike (Ts.evaluateRule inherited key rule ctx) ↔
      RuleReadsAlike inherited key rule ctx) ∧
    ∀ key identifier, Go.bucketFor key identifier = Ts.bucketFor key identifier := by
  refine ⟨?_, bucketFor_agree⟩
  unfold RuleReadsAlike
  rw [← verdict_eq_iff, Go.evaluateRule_eq, Ts.evaluateRule_eq, decisionFromRule_toGo,
    toGo_verdict]
  unfold Ts.Rule.verdict
  generalize verdict key _ _ (Go.read rule.toGo ctx.toGo) = v
  generalize verdict key _ _ (Ts.read inherited rule ctx) = w
  constructor
  · rintro ⟨henabled, -, hreason⟩
    exact Prod.ext henabled hreason
  · intro h
    rw [h]
    exact ⟨rfl, rfl, rfl⟩

/-- A deny list under the empty name stops the user on the server only. -/
theorem empty_name_decides_apart :
    ¬ ∀ (key : String) (rule : Ts.Rule) (ctx : Ts.EvalContext),
      (Go.evaluateRule key rule.toGo ctx.toGo).Alike
        (Ts.evaluateRule (fun _ => none) key rule ctx) := by
  intro h
  have hkill := (h "kill" ⟨some true, none, none, none, some ["u1"], some "", none⟩
    ⟨some "u1", none, none⟩).1
  revert hkill
  decide +kernel

end Orynx.FeatureFlag
