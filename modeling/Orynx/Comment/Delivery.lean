import Mathlib.Data.List.Nodup
import Mathlib.Data.List.Perm.Basic
import Mathlib.Order.Basic
import Orynx.Lib.Budget
import Orynx.Lib.Machine

/-! # The comments of a claim

`selectCommentDelivery` of `server/internal/handler/daemon.go` and the sizes that it counts. The
trigger is delivered in any case, the other comments from the oldest on as long as they fit; what
does not fit is planned again for a later run.

* `admitted_eq`: the loop over the other comments takes a prefix of them;
* `selected`: what one selection delivers;
* `comments_delivered`: the rounds deliver every comment once, whatever the triggers.
-/

namespace Orynx.Delivery

open Lib

structure CoalescedCommentData where
  id : String := ""
  threadID : String := ""
  authorType : String := ""
  authorName : String := ""
  content : String := ""
  createdAt : String := ""
deriving DecidableEq, Repr

/-! ## Sizes -/

/-- The bytes of a character in a JSON string: two for those with a short escape, six for the
other controls, for `<`, `>`, `&` and for the two line separators. -/
def jsonCharSize (c : Char) : Nat :=
  if [0x22, 0x5c, 0x08, 0x09, 0x0a, 0x0c, 0x0d].contains c.toNat then 2
  else if c.toNat < 0x20 ∨ [0x3c, 0x3e, 0x26, 0x2028, 0x2029].contains c.toNat then 6
  else c.utf8Size

/-- `len(json.Marshal(value)) - 2`. -/
def escapedJSONStringContentSize (value : String) : Nat := (value.toList.map jsonCharSize).sum

/-- A field with `omitempty`. -/
def omitEmpty (name value : String) : List (String × String) :=
  if value = "" then [] else [(name, value)]

def jsonFields (c : CoalescedCommentData) : List (String × String) :=
  [("id", c.id)] ++ omitEmpty "thread_id" c.threadID ++ omitEmpty "author_type" c.authorType ++
    omitEmpty "author_name" c.authorName ++ [("content", c.content)] ++
    omitEmpty "created_at" c.createdAt

/-- The quoted name, a colon and the quoted value. -/
def jsonFieldSize (f : String × String) : Nat :=
  f.1.length + 2 + 1 + (escapedJSONStringContentSize f.2 + 2)

/-- `len(json.Marshal(comment))`: the fields between braces, with commas. -/
def marshalSize (c : CoalescedCommentData) : Nat :=
  2 + ((jsonFields c).map jsonFieldSize).sum + ((jsonFields c).length - 1)

def legacyCommentBundleHeader : String :=
  "This run covers multiple distinct issue comments. Address every comment below in " ++
    "chronological order; do not treat this bundle as one rewritten comment.\n"

def formatLegacyCommentEntry (c : CoalescedCommentData) : String :=
  "\n--- comment " ++ c.id ++
    (if c.threadID = "" then "" else " [thread " ++ c.threadID ++ "]") ++
    (if c.authorType = "" ∧ c.authorName = "" then ""
      else " [author " ++ c.authorType ++
        (if c.authorName = "" then "" else ": " ++ c.authorName) ++ "]") ++
    (if c.createdAt = "" then "" else " [created " ++ c.createdAt ++ "]") ++
    " ---\n" ++ c.content ++ "\n--- end comment " ++ c.id ++ " ---\n"

def commentDeliveryBaseSize (legacy : Bool) : Nat :=
  if legacy then escapedJSONStringContentSize legacyCommentBundleHeader else 2

def commentDeliveryEntrySize (legacy : Bool) (c : CoalescedCommentData) : Nat :=
  if legacy then escapedJSONStringContentSize (formatLegacyCommentEntry c)
  else marshalSize c + 1

/-- What a delivery is accounted for. -/
def deliverySize (legacy : Bool) (l : List CoalescedCommentData) : Nat :=
  commentDeliveryBaseSize legacy + Budget.total (commentDeliveryEntrySize legacy) l

/-! ## One selection -/

def commentByID (comments : List CoalescedCommentData) (id : String) : CoalescedCommentData :=
  (comments.find? fun c => c.id == id).getD {}

/-- The trigger, or the newest comment where the trigger is gone. -/
def mandatoryID (comments : List CoalescedCommentData) (newest : CoalescedCommentData)
    (triggerID : String) : String :=
  if comments.any fun c => c.id == triggerID then triggerID else newest.id

/-- The ids that the loop over the other comments selects. -/
def admitted (cost : CoalescedCommentData → Nat) (limit : Int) (mandatory : String) :
    Nat → List CoalescedCommentData → List String
  | _, [] => []
  | used, c :: rest =>
    if c.id = mandatory then admitted cost limit mandatory used rest
    else if 0 < limit ∧ limit < (used + cost c : Nat) then []
    else c.id :: admitted cost limit mandatory (used + cost c) rest

def selectCommentDelivery (comments : List CoalescedCommentData) (triggerID : String)
    (legacy : Bool) (limit : Int) : List CoalescedCommentData :=
  match comments.getLast? with
  | none => []
  | some newest =>
    let mandatory := mandatoryID comments newest triggerID
    let used := commentDeliveryBaseSize legacy +
      commentDeliveryEntrySize legacy (commentByID comments mandatory)
    let selected :=
      mandatory :: admitted (commentDeliveryEntrySize legacy) limit mandatory used comments
    comments.filter fun c => selected.contains c.id

/-- The comments beside one. -/
def others (m : CoalescedCommentData) (l : List CoalescedCommentData) :
    List CoalescedCommentData :=
  l.filter fun c => c.id != m.id

/-- The order in which the comments of a claim are sorted; `parse` is `time.Parse`. -/
def less (parse : String → Option Int) (left right : CoalescedCommentData) : Bool :=
  match parse left.createdAt, parse right.createdAt with
  | some l, some r =>
    if l ≠ r then decide (l < r)
    else if left.createdAt ≠ right.createdAt then decide (left.createdAt < right.createdAt)
    else decide (left.id < right.id)
  | _, _ =>
    if left.createdAt ≠ right.createdAt then decide (left.createdAt < right.createdAt)
    else decide (left.id < right.id)

def Chronological (parse : String → Option Int) (l : List CoalescedCommentData) : Prop :=
  l.Pairwise fun a b => less parse b a = false

/-- The trigger if it is there, else the newest. -/
def IsMandatory (parse : String → Option Int) (comments : List CoalescedCommentData)
    (triggerID : String) (m : CoalescedCommentData) : Prop :=
  m ∈ comments ∧ (m.id = triggerID ∨
    (∀ c ∈ comments, c.id ≠ triggerID) ∧ ∀ c ∈ comments, less parse m c = false)

/-- What is asked of a selection. -/
structure Selected (parse : String → Option Int) (comments : List CoalescedCommentData)
    (triggerID : String) (legacy : Bool) (limit : Int) (out : List CoalescedCommentData) :
    Prop where
  sublist : out.Sublist comments
  selects : ∃ m ∈ out, IsMandatory parse comments triggerID m ∧
    others m out <+: others m comments ∧
    ((deliverySize legacy out : Int) ≤ limit ∨ out = [m])

section Selection

variable {parse : String → Option Int} {comments : List CoalescedCommentData}

theorem less_irrefl (parse : String → Option Int) (c : CoalescedCommentData) :
    less parse c c = false := by
  unfold less
  cases parse c.createdAt with
  | none => simp
  | some t => simp

/-- The loop passes over the mandatory comment, and takes what fits of the others. -/
theorem admitted_eq (cost : CoalescedCommentData → Nat) {limit : Int} (hlimit : 0 < limit)
    (m : CoalescedCommentData) (used : Nat) (l : List CoalescedCommentData) :
    admitted cost limit m.id used l =
      (Budget.takeWithin cost (fun n => decide ((n : Int) ≤ limit)) used
        (others m l)).map CoalescedCommentData.id := by
  induction l generalizing used with
  | nil => rfl
  | cons c l ih =>
    unfold admitted others
    by_cases hc : c.id = m.id
    · have hskip : (c.id != m.id) = false := by simpa using hc
      rw [if_pos hc, List.filter_cons, hskip]
      exact ih used
    · have hkeep : (c.id != m.id) = true := by simpa using hc
      rw [if_neg hc, List.filter_cons, hkeep, if_pos rfl]
      unfold Budget.takeWithin
      by_cases hover : limit < (used + cost c : Nat)
      · have hnot : ¬ decide (((used + cost c : Nat) : Int) ≤ limit) = true := by
          simpa using hover
        rw [if_pos ⟨hlimit, hover⟩, if_neg hnot]
        rfl
      · have hfits : decide (((used + cost c : Nat) : Int) ≤ limit) = true := by
          simpa using hover
        rw [if_neg fun h => hover h.2, if_pos hfits, List.map_cons, ih]
        rfl

theorem mem_ids {l : List CoalescedCommentData} {c : CoalescedCommentData} (hc : c ∈ l) :
    c.id ∈ l.map CoalescedCommentData.id :=
  List.mem_map_of_mem hc

theorem eq_of_id (hids : (comments.map CoalescedCommentData.id).Nodup)
    {c d : CoalescedCommentData} (hc : c ∈ comments) (hd : d ∈ comments) (h : c.id = d.id) :
    c = d :=
  List.inj_on_of_nodup_map hids hc hd h

/-- A comment and the others are all. -/
theorem perm_cons_others (hids : (comments.map CoalescedCommentData.id).Nodup)
    {m : CoalescedCommentData} (hm : m ∈ comments) : comments.Perm (m :: others m comments) := by
  have hnodup : comments.Nodup := hids.of_map _
  refine (List.perm_ext_iff_of_nodup hnodup ?_).2 ?_
  · refine List.nodup_cons.2 ⟨?_, hnodup.filter _⟩
    intro hmem
    simpa using (List.mem_filter.1 hmem).2
  · intro c
    rw [List.mem_cons]
    unfold others
    rw [List.mem_filter, bne_iff_ne]
    constructor
    · intro hc
      by_cases hcm : c.id = m.id
      · exact .inl (eq_of_id hids hc hm hcm)
      · exact .inr ⟨hc, hcm⟩
    · rintro (rfl | ⟨hc, -⟩)
      · exact hm
      · exact hc

/-- Of a list with distinct ids, those whose id is in a prefix are the prefix. -/
theorem filter_of_taken {l taken : List CoalescedCommentData}
    (hids : (l.map CoalescedCommentData.id).Nodup) (h : taken <+: l) :
    (l.filter fun c => (taken.map CoalescedCommentData.id).contains c.id) = taken := by
  obtain ⟨rest, rfl⟩ := h
  rw [List.map_append, List.nodup_append] at hids
  rw [List.filter_append]
  have htaken : (taken.filter fun c => (taken.map CoalescedCommentData.id).contains c.id) =
      taken := by
    refine List.filter_eq_self.2 fun c hc => ?_
    rw [List.contains_iff_mem]
    exact mem_ids hc
  have hrest : (rest.filter fun c => (taken.map CoalescedCommentData.id).contains c.id) = [] := by
    refine List.filter_eq_nil_iff.2 fun c hc hin => ?_
    rw [List.contains_iff_mem] at hin
    exact hids.2.2 _ hin _ (mem_ids hc) rfl
  rw [htaken, hrest, List.append_nil]

/-- The mandatory comment, and the prefix of the others that fits beside it. -/
def taken (m : CoalescedCommentData) (legacy : Bool) (limit : Int)
    (comments : List CoalescedCommentData) : List CoalescedCommentData :=
  Budget.takeWithin (commentDeliveryEntrySize legacy) (fun n => decide ((n : Int) ≤ limit))
    (commentDeliveryBaseSize legacy + commentDeliveryEntrySize legacy m) (others m comments)

theorem exists_mandatory (parse : String → Option Int) (hne : comments ≠ [])
    (hsorted : Chronological parse comments) (triggerID : String) :
    ∃ newest m, comments.getLast? = some newest ∧
      mandatoryID comments newest triggerID = m.id ∧ IsMandatory parse comments triggerID m := by
  refine ⟨comments.getLast hne, ?_⟩
  unfold mandatoryID
  by_cases htrigger : (comments.any fun c => c.id == triggerID) = true
  · obtain ⟨m, hm, hid⟩ := List.any_eq_true.1 htrigger
    rw [beq_iff_eq] at hid
    rw [if_pos htrigger]
    exact ⟨m, List.getLast?_eq_some_getLast hne, hid.symm, hm, .inl hid⟩
  · rw [if_neg htrigger]
    refine ⟨comments.getLast hne, List.getLast?_eq_some_getLast hne, rfl,
      List.getLast_mem hne, .inr ⟨?_, ?_⟩⟩
    · intro c hc hid
      exact htrigger (List.any_eq_true.2 ⟨c, hc, by simpa using hid⟩)
    · -- no comment stands after the last one
      intro c hc
      have hsplit := List.dropLast_concat_getLast hne
      unfold Chronological at hsorted
      rw [← hsplit, List.pairwise_append] at hsorted
      rw [← hsplit] at hc
      rcases List.mem_append.1 hc with hc | hc
      · exact hsorted.2.2 c hc _ (List.mem_singleton_self _)
      · rw [List.mem_singleton.1 hc]
        exact less_irrefl parse _

theorem selectCommentDelivery_eq (hids : (comments.map CoalescedCommentData.id).Nodup)
    {newest m : CoalescedCommentData} {triggerID : String} (legacy : Bool) {limit : Int}
    (hlimit : 0 < limit) (hnewest : comments.getLast? = some newest)
    (hm : mandatoryID comments newest triggerID = m.id) (hmem : m ∈ comments) :
    selectCommentDelivery comments triggerID legacy limit =
      comments.filter fun c =>
        (m.id :: (taken m legacy limit comments).map CoalescedCommentData.id).contains c.id := by
  have hby : commentByID comments m.id = m := by
    unfold commentByID
    have hfound : (comments.find? fun c => c.id == m.id).isSome :=
      List.find?_isSome.2 ⟨m, hmem, beq_self_eq_true m.id⟩
    obtain ⟨c, hc⟩ := Option.isSome_iff_exists.1 hfound
    rw [hc, Option.getD_some]
    exact eq_of_id hids (List.mem_of_find?_eq_some hc) hmem (by simpa using List.find?_some hc)
  unfold selectCommentDelivery
  rw [hnewest]
  dsimp only
  rw [hm, hby, admitted_eq _ hlimit]
  rfl

theorem selected (hids : (comments.map CoalescedCommentData.id).Nodup) (hne : comments ≠ [])
    (hsorted : Chronological parse comments) (triggerID : String) (legacy : Bool) {limit : Int}
    (hlimit : 0 < limit) :
    Selected parse comments triggerID legacy limit
      (selectCommentDelivery comments triggerID legacy limit) := by
  obtain ⟨newest, m, hnewest, hm, hmandatory⟩ :=
    exists_mandatory parse hne hsorted triggerID
  rw [selectCommentDelivery_eq hids legacy hlimit hnewest hm hmandatory.1]
  have hprefix : taken m legacy limit comments <+: others m comments :=
    Budget.takeWithin_prefix _ _ _ _
  have hothers : ((others m comments).map CoalescedCommentData.id).Nodup :=
    (List.filter_sublist.map _).nodup hids
  -- beside the mandatory comment the prefix is selected
  have hout : others m (comments.filter fun c =>
      (m.id :: (taken m legacy limit comments).map CoalescedCommentData.id).contains c.id) =
      taken m legacy limit comments := by
    refine Eq.trans ?_ (filter_of_taken hothers hprefix)
    unfold others
    rw [List.filter_filter, List.filter_filter]
    refine List.filter_congr fun c _ => ?_
    by_cases hc : c.id = m.id
    · simp [hc]
    · have hbne : (c.id != m.id) = true := by simpa using hc
      rw [hbne, Bool.true_and, Bool.and_true, List.contains_cons,
        beq_eq_false_iff_ne.2 hc, Bool.false_or]
  have hself : m ∈ comments.filter fun c =>
      (m.id :: (taken m legacy limit comments).map CoalescedCommentData.id).contains c.id := by
    refine List.mem_filter.2 ⟨hmandatory.1, ?_⟩
    rw [List.contains_iff_mem]
    exact List.mem_cons_self
  have houtIds := (List.filter_sublist (l := comments) (p := fun c =>
    (m.id :: (taken m legacy limit comments).map CoalescedCommentData.id).contains c.id)).map
      CoalescedCommentData.id |>.nodup hids
  have hperm := perm_cons_others houtIds hself
  rw [hout] at hperm
  refine ⟨List.filter_sublist, m, hself, hmandatory, ?_, ?_⟩
  · rw [hout]
    exact hprefix
  · rcases Budget.takeWithin_fits (commentDeliveryEntrySize legacy)
      (fun n => decide ((n : Int) ≤ limit))
      (commentDeliveryBaseSize legacy + commentDeliveryEntrySize legacy m)
      (others m comments) with hnil | hfits
    · refine .inr ?_
      have htaken : taken m legacy limit comments = [] := hnil
      rw [htaken] at hperm
      exact List.perm_singleton.1 (htaken ▸ hperm)
    · refine .inl ?_
      rw [decide_eq_true_eq] at hfits
      unfold deliverySize
      rw [Budget.total_perm _ hperm]
      unfold Budget.total at hfits ⊢
      rw [List.map_cons, List.sum_cons, ← Nat.add_assoc]
      exact hfits

/-- A selection and what it leaves are all. -/
theorem perm_rest {out l : List CoalescedCommentData}
    (hids : (l.map CoalescedCommentData.id).Nodup) (hout : out.Sublist l) :
    (out ++ l.filter fun c => !(out.map CoalescedCommentData.id).contains c.id).Perm l := by
  have hl : l.Nodup := hids.of_map _
  refine (List.perm_ext_iff_of_nodup ?_ hl).2 ?_
  · refine List.nodup_append.2 ⟨hout.nodup hl, hl.filter _, ?_⟩
    rintro c hc d hd rfl
    have hnot := (List.mem_filter.1 hd).2
    rw [List.contains_iff_mem.2 (mem_ids hc)] at hnot
    cases hnot
  · intro c
    rw [List.mem_append, List.mem_filter, Bool.not_eq_true', ← Bool.not_eq_true,
      List.contains_iff_mem]
    constructor
    · rintro (hc | ⟨hc, -⟩)
      · exact hout.subset hc
      · exact hc
    · intro hc
      by_cases hin : c.id ∈ out.map CoalescedCommentData.id
      · obtain ⟨d, hd, hid⟩ := List.mem_map.1 hin
        exact .inl (eq_of_id hids (hout.subset hd) hc hid ▸ hd)
      · exact .inr ⟨hc, hin⟩

end Selection

/-! ## The rounds -/

/-- The comments that are still to be delivered, and the deliveries. -/
structure State where
  remaining : List CoalescedCommentData
  delivered : List (List CoalescedCommentData)

/-- A claim of what remains: its trigger, the wire mode and the limit. -/
structure Claim where
  triggerID : String
  legacy : Bool
  limit : Int

/-- A claim delivers a selection, and what it has not delivered is planned again. -/
def next (s : State) (a : Claim) : Option State :=
  if 0 < a.limit ∧ s.remaining.any (fun c => c.id == a.triggerID) then
    let out := selectCommentDelivery s.remaining a.triggerID a.legacy a.limit
    some
      { remaining := s.remaining.filter fun c =>
          !(out.map CoalescedCommentData.id).contains c.id
        delivered := s.delivered ++ [out] }
  else none

def machine (l : List CoalescedCommentData) : Machine State Claim where
  Init s := s = ⟨l, []⟩
  next := next

/-- Claims are made as planned, for so many rounds. -/
def follow (plan : State → Claim) : Nat → State → State
  | 0, s => s
  | n + 1, s =>
    match next s (plan s) with
    | some s' => follow plan n s'
    | none => s

/-- Every comment is delivered or remains, and no round was empty. -/
structure Inv (l : List CoalescedCommentData) (s : State) : Prop where
  remaining : s.remaining.Sublist l
  perm : (s.delivered.flatten ++ s.remaining).Perm l
  rounds : s.delivered.length + s.remaining.length ≤ l.length

section Rounds

variable {parse : String → Option Int} {l : List CoalescedCommentData} {s s' : State}

theorem inv_init : Inv l ⟨l, []⟩ :=
  ⟨List.Sublist.refl l, List.Perm.refl l, by simp⟩

/-- A round delivers something of what remains. -/
theorem next_spec (hsorted : Chronological parse l)
    (hids : (l.map CoalescedCommentData.id).Nodup) (hinv : Inv l s) {a : Claim}
    (h : next s a = some s') :
    ∃ out, out ≠ [] ∧ out.Sublist s.remaining ∧ s'.delivered = s.delivered ++ [out] ∧
      s'.remaining.Sublist s.remaining ∧ (out ++ s'.remaining).Perm s.remaining := by
  unfold next at h
  obtain ⟨⟨hlimit, htrigger⟩, h⟩ := Option.ite_none_right_eq_some.1 h
  obtain rfl := Option.some.inj h
  have hne : s.remaining ≠ [] := by
    intro hnil
    rw [hnil] at htrigger
    cases htrigger
  have hremaining := (hinv.remaining.map CoalescedCommentData.id).nodup hids
  have hsel := selected hremaining hne (hsorted.sublist hinv.remaining) a.triggerID a.legacy hlimit
  obtain ⟨m, hm, -⟩ := hsel.selects
  exact ⟨_, List.ne_nil_of_mem hm, hsel.sublist, rfl, List.filter_sublist,
    perm_rest hremaining hsel.sublist⟩

theorem inv_step (hsorted : Chronological parse l)
    (hids : (l.map CoalescedCommentData.id).Nodup) (hinv : Inv l s) {a : Claim}
    (h : next s a = some s') : Inv l s' ∧ s'.remaining.length < s.remaining.length := by
  obtain ⟨out, hne, hout, hdelivered, hremaining, hperm⟩ := next_spec hsorted hids hinv h
  have hlength := hperm.length_eq
  rw [List.length_append] at hlength
  have hpos : 0 < out.length := List.length_pos_iff.2 hne
  refine ⟨⟨hremaining.trans hinv.remaining, ?_, ?_⟩, by omega⟩
  · rw [hdelivered, List.flatten_append, List.flatten_singleton, List.append_assoc]
    exact (hperm.append_left _).trans hinv.perm
  · have hrounds := hinv.rounds
    rw [hdelivered, List.length_append, List.length_singleton]
    omega

/-- Any comment that remains can trigger a round. -/
theorem next_isSome {c : CoalescedCommentData} (hc : c ∈ s.remaining) (legacy : Bool)
    {limit : Int} (hlimit : 0 < limit) : (next s ⟨c.id, legacy, limit⟩).isSome := by
  unfold next
  rw [if_pos ⟨hlimit, List.any_eq_true.2 ⟨c, hc, beq_self_eq_true c.id⟩⟩]
  rfl

/-- After as many rounds as there are comments none remains. -/
theorem follow_inv (hsorted : Chronological parse l)
    (hids : (l.map CoalescedCommentData.id).Nodup) {plan : State → Claim}
    (hplan : ∀ s, s.remaining ≠ [] →
      0 < (plan s).limit ∧ ∃ c ∈ s.remaining, c.id = (plan s).triggerID)
    (n : Nat) (hinv : Inv l s) (hn : s.remaining.length ≤ n) :
    Inv l (follow plan n s) ∧ (follow plan n s).remaining = [] := by
  induction n generalizing s with
  | zero => exact ⟨hinv, List.length_eq_zero_iff.1 (Nat.le_zero.1 hn)⟩
  | succ n ih =>
    unfold follow
    cases hnext : next s (plan s) with
    | none =>
      refine ⟨hinv, ?_⟩
      by_contra hne
      obtain ⟨hlimit, c, hc, hid⟩ := hplan s hne
      have hsome := next_isSome hc (plan s).legacy hlimit
      rw [hid, hnext] at hsome
      cases hsome
    | some s' =>
      obtain ⟨hinv', hless⟩ := inv_step hsorted hids hinv hnext
      exact ih hinv' (by omega)

end Rounds

/-- A selection holds the trigger and a prefix of the others within the limit. Over rounds with any
triggers every comment is delivered once, in no more rounds than there are comments. -/
theorem comments_delivered (parse : String → Option Int) (l : List CoalescedCommentData)
    (hsorted : Chronological parse l) (hids : (l.map CoalescedCommentData.id).Nodup) :
    (∀ triggerID legacy limit, l ≠ [] → 0 < limit →
      Selected parse l triggerID legacy limit (selectCommentDelivery l triggerID legacy limit)) ∧
    (∀ s, (machine l).Reachable s →
      (s.delivered.flatten ++ s.remaining).Perm l ∧ s.delivered.length ≤ l.length ∧
        ∀ c ∈ s.remaining, ∀ legacy limit, 0 < limit →
          (next s ⟨c.id, legacy, limit⟩).isSome) ∧
    ∀ plan : State → Claim, (∀ s, s.remaining ≠ [] →
        0 < (plan s).limit ∧ ∃ c ∈ s.remaining, c.id = (plan s).triggerID) →
      (follow plan l.length ⟨l, []⟩).remaining = [] ∧
        (follow plan l.length ⟨l, []⟩).delivered.flatten.Perm l := by
  refine ⟨?_, ?_, ?_⟩
  · intro triggerID legacy limit hne hlimit
    exact selected hids hne hsorted triggerID legacy hlimit
  · intro s hs
    have hinv : Inv l s := by
      refine Machine.invariant (fun s hinit => ?_) (fun _ a s' _ hinv h => ?_) s hs
      · rw [show s = ⟨l, []⟩ from hinit]
        exact inv_init
      · exact (inv_step hsorted hids hinv h).1
    have hrounds := hinv.rounds
    exact ⟨hinv.perm, by omega, fun c hc legacy limit hlimit => next_isSome hc legacy hlimit⟩
  · intro plan hplan
    obtain ⟨hinv, hnil⟩ := follow_inv hsorted hids hplan l.length inv_init (Nat.le_refl _)
    refine ⟨hnil, ?_⟩
    have hperm := hinv.perm
    rw [hnil, List.append_nil] at hperm
    exact hperm

/-- Three comments, the second of which is long. -/
def threeComments : List CoalescedCommentData :=
  [{ id := "a", content := "first", createdAt := "1" },
    { id := "b", content := "a second comment that is longer than the limit", createdAt := "2" },
    { id := "c", content := "third", createdAt := "3" }]

theorem comments_delivered_oldest_first :
    (follow (fun s => ⟨(s.remaining.head?.map CoalescedCommentData.id).getD "", false, 80⟩) 3
      ⟨threeComments, []⟩).delivered.flatten.Perm threeComments := by
  refine ((comments_delivered (fun _ => none) threeComments ?_ (by decide)).2.2
    (fun s => ⟨(s.remaining.head?.map CoalescedCommentData.id).getD "", false, 80⟩) ?_).2
  · unfold Chronological
    decide +kernel
  · intro s hne
    obtain ⟨c, rest, hcons⟩ := List.exists_cons_of_ne_nil hne
    refine ⟨show (0 : Int) < 80 by decide, c, ?_, ?_⟩
    · rw [hcons]
      exact List.mem_cons_self
    · rw [hcons]
      rfl

end Orynx.Delivery
