import Orynx.Autopilot.Store
import Orynx.Lib.Exclusive
import Orynx.Lib.Machine
import Orynx.Lib.Parties
import Orynx.Lib.Spaces
import Orynx.Text

/-! # The duplicate guard

`IssueService.Create` of `server/internal/service/issue.go` with `LockAndFindActiveDuplicate` of
`server/internal/issueguard/duplicate.go`. Calls run side by side, one statement a step: each reads
what is committed, and its advisory lock is held until it commits or fails. Other sessions commit
what they like.

The key of the lock has the title as Go normalises it, the search compares it with stored titles
as SQL normalises them, and the two need not take the same characters for white space.

* `normalize_eq_iff`: the two normal forms agree on a title if and only if the white space in it is
  white space to both;
* `Guarded`: of two calls with one key that both created an issue, one saw the other's issue gone;
* `duplicates_refused`: so it is in all runs with such titles, and creating a title twice is refused
  if and only if the title is such a one;
* `no_break_space_twice`: a title with a no-break space is created twice.
-/

namespace Orynx.DuplicateGuard

open Lib
open Autopilot (IssueStatus)

/-! ## Titles -/

/-- The database's `[[:space:]]`, and the small letters that `lower()` and `strings.ToLower` give;
these neither move white space nor make it. -/
structure Locale where
  space : Char → Bool
  lower : Char → Char
  space_blank : space ' ' = true
  lower_space : ∀ c, isSpace c = true ∨ space c = true → lower c = c
  lower_makes : ∀ c, isSpace (lower c) = true ∨ space (lower c) = true → lower c = c

variable (L : Locale)

/-- `strings.ToLower(strings.Join(strings.Fields(title), " "))`. -/
def normalizeTitle (title : String) : List Char :=
  (Spaces.join ' ' (Spaces.words isSpace title.toList)).map L.lower

/-- `lower(btrim(regexp_replace(title, '[[:space:]]+', ' ', 'g')))`. -/
def normalizeStored (title : String) : List Char :=
  (Spaces.trim ' ' (Spaces.collapse L.space ' ' title.toList)).map L.lower

/-- The white space in the title is white space to both. -/
def plain (title : String) : Bool := title.toList.all fun c => isSpace c == L.space c

theorem normalize_eq_iff (title : String) :
    normalizeTitle L title = normalizeStored L title ↔ plain L title = true := by
  have hblank : isSpace ' ' = true := by decide
  rw [normalizeTitle, ← Spaces.trim_collapse hblank, normalizeStored,
    Spaces.collapse_eq_iff hblank L.space_blank L.lower_space L.lower_makes, plain,
    List.all_eq_true]
  exact forall₂_congr fun c _ => beq_iff_eq.symm

/-! ## Rows -/

structure Issue where
  id : UUID
  workspaceId : UUID
  title : String
  status : IssueStatus
  projectId : Option UUID
  parentIssueId : Option UUID
deriving DecidableEq, Repr

def issueSchema : Schema Issue UUID Unit where
  key := Issue.id
  index _ := none

abbrev IssueTable := Table issueSchema

/-- The parts of the text that `lockKey` joins. -/
structure LockKey where
  workspaceId : UUID
  projectId : Option UUID
  parentIssueId : Option UUID
  normalizedTitle : List Char
deriving DecidableEq, Repr

/-- The `WHERE` of `FindActiveDuplicateIssue`. -/
def duplicates (k : LockKey) (r : Issue) : Bool :=
  r.workspaceId == k.workspaceId && !r.status.terminal && r.projectId == k.projectId &&
    r.parentIssueId == k.parentIssueId && normalizeStored L r.title == k.normalizedTitle

def findActiveDuplicateIssue (q : IssueTable) (k : LockKey) : Option Issue :=
  q.rows.find? (duplicates L k)

/-! ## Calls -/

structure CreateParams where
  workspaceId : UUID
  title : String
  status : IssueStatus := .todo
  projectId : Option UUID := none
  parentIssueId : Option UUID := none
  allowDuplicate : Bool := false
deriving DecidableEq, Repr

inductive CreateError where
  | parentIssueNotFound
  | projectNotFound
  | activeDuplicate (issue : Issue)
  | createIssue
deriving DecidableEq, Repr

/-- The next statement of a call, or how it ended. -/
inductive Phase where
  | getParent
  | getProject
  | lock
  | find
  | insert
  | commit (row : Issue)
  | done (id : UUID)
  | failed (e : CreateError)
deriving DecidableEq, Repr

/-- A call with the project it has resolved. `seen` is what the search saw and `earlier` the issues
that calls had created by then: these are history. -/
structure Call where
  params : CreateParams
  projectId : Option UUID := none
  phase : Phase := .getParent
  seen : List Issue := []
  earlier : List UUID := []
deriving DecidableEq, Repr

def Call.key (c : Call) : LockKey where
  workspaceId := c.params.workspaceId
  projectId := c.projectId
  parentIssueId := c.params.parentIssueId
  normalizedTitle := normalizeTitle L c.params.title

/-- Without a title there is no guard. -/
def Call.titled (c : Call) : Bool := !(normalizeTitle L c.params.title).isEmpty

def Call.row (c : Call) (id : UUID) : Issue where
  id := id
  workspaceId := c.params.workspaceId
  title := c.params.title
  status := c.params.status
  projectId := c.projectId
  parentIssueId := c.params.parentIssueId

/-- The projects with their workspaces. -/
abbrev Projects := List (UUID × UUID)

/-- The next statement; a call that waits for its lock has none. `created` are the issues that calls
have created so far. -/
def Call.exec (q : IssueTable) (projects : Projects) (created : List UUID) (free : Bool) (id : UUID)
    (c : Call) : Option (IssueTable × Call) :=
  match c.phase with
  | .getParent =>
    match c.params.parentIssueId with
    | none => some (q, { c with projectId := c.params.projectId, phase := .getProject })
    | some parentId =>
      match (q.get? parentId).filter fun r => r.workspaceId == c.params.workspaceId with
      | none => some (q, { c with phase := .failed .parentIssueNotFound })
      | some parent =>
        some (q, { c with
          projectId := c.params.projectId.or parent.projectId
          phase := .getProject })
  | .getProject =>
    if c.projectId.all fun id => projects.contains (id, c.params.workspaceId) then
      some (q, { c with phase := .lock })
    else some (q, { c with phase := .failed .projectNotFound })
  | .lock =>
    if !c.titled L then some (q, { c with phase := .insert })
    else if free then some (q, { c with phase := .find })
    else none
  | .find =>
    if c.params.allowDuplicate then some (q, { c with phase := .insert })
    else
      match findActiveDuplicateIssue L q (c.key L) with
      | some duplicate => some (q, { c with phase := .failed (.activeDuplicate duplicate) })
      | none => some (q, { c with phase := .insert, seen := q.rows, earlier := created })
  | .insert => some (q, { c with phase := .commit (c.row id) })
  | .commit row =>
    match q.insert? row with
    | some q' => some (q', { c with phase := .done row.id })
    | none => some (q, { c with phase := .failed .createIssue })
  | .done _ => none
  | .failed _ => none

/-- Whether the call is in its transaction with the lock. -/
def Call.holds (c : Call) : Bool :=
  c.titled L &&
    match c.phase with
    | .find | .insert | .commit _ => true
    | _ => false

/-! ## The machine -/

structure State where
  issues : IssueTable
  projects : Projects
  calls : List Call
  created : List UUID

/-- A call begins or takes its next step, or another session commits. -/
inductive Act where
  | create (p : CreateParams)
  | step (i : Nat) (id : UUID)
  | write (issues : IssueTable) (projects : Projects)

/-- The lock is on a hash of the key, and only a call with the same hash keeps it from another. -/
def State.free (hash : LockKey → Int) (s : State) (c : Call) : Bool :=
  s.calls.all fun c' => !(c'.holds L && hash (c'.key L) == hash (c.key L))

def Call.createdIssue (c : Call) : List UUID :=
  match c.phase with
  | .done id => [id]
  | _ => []

def next (hash : LockKey → Int) (s : State) : Act → Option State
  | .create p => some { s with calls := s.calls ++ [{ params := p }] }
  | .step i id =>
    match s.calls[i]? with
    | none => none
    | some c =>
      (c.exec L s.issues s.projects s.created (s.free L hash c) id).map fun (q, c') =>
        { s with
          issues := q
          calls := s.calls.set i c'
          created := s.created ++ c'.createdIssue }
  | .write issues projects => some { s with issues := issues, projects := projects }

def machine (hash : LockKey → Int) : Machine State Act where
  Init s := s.calls = []
  next := next L hash

/-- A call that runs alone, statement after statement. -/
def alone (projects : Projects) (id : UUID) : Nat → IssueTable → Call → IssueTable × Call
  | 0, q, c => (q, c)
  | n + 1, q, c =>
    match c.exec L q projects [] true id with
    | none => (q, c)
    | some (q', c') => alone projects id n q' c'

/-- `Create` on its own. -/
def create (projects : Projects) (q : IssueTable) (p : CreateParams) (id : UUID) :
    IssueTable × Phase :=
  let r := alone L projects id 6 q { params := p }
  (r.1, r.2.phase)

/-! ## The property -/

/-- The issue of the call was done, cancelled, deleted, retitled or moved. -/
def Gone (seen : List Issue) (c : Call) (id : UUID) : Prop :=
  ∀ r ∈ seen, r.id = id → r.status.terminal = true ∨ r.title ≠ c.params.title ∨
    r.workspaceId ≠ c.params.workspaceId ∨ r.projectId ≠ c.projectId ∨
      r.parentIssueId ≠ c.params.parentIssueId

/-- Of two calls with one key that both created an issue under the guard, one came first, and its
issue was gone when the other searched. -/
def State.Guarded (s : State) : Prop :=
  ∀ (i j : Nat) (c c' : Call) (x y : UUID), i ≠ j → s.calls[i]? = some c → s.calls[j]? = some c' →
    c.phase = .done x → c'.phase = .done y → c.titled L = true → c.key L = c'.key L →
      c.params.allowDuplicate = false → c'.params.allowDuplicate = false →
        (x ∈ c'.earlier ∧ Gone c'.seen c x) ∨ (y ∈ c.earlier ∧ Gone c.seen c' y)

/-- The title is plain, if the guard looks for it. -/
def plainTitles : Act → Bool
  | .create p => p.allowDuplicate || (normalizeTitle L p.title).isEmpty || plain L p.title
  | _ => true

/-! ## Steps -/

/-- The call has searched and found nothing. -/
def Call.searched (c : Call) : Bool :=
  c.titled L && !c.params.allowDuplicate &&
    match c.phase with
    | .insert | .commit _ | .done _ => true
    | _ => false

/-- The one call has created its issue before the other searched. -/
def Before (c c' : Call) : Prop := ∃ x, c.phase = .done x ∧ x ∈ c'.earlier

/-- What holds of every call. -/
structure Call.Sound (created : List UUID) (c : Call) : Prop where
  plain : c.titled L = true → c.params.allowDuplicate = false → plain L c.params.title = true
  done : ∀ x, c.phase = .done x → x ∈ created
  clear : c.searched L = true → ∀ r ∈ c.seen, duplicates L (c.key L) r = false

structure Inv (hash : LockKey → Int) (s : State) : Prop where
  exclusive : ∀ h, AtMostOne (fun c => c.holds L && hash (c.key L) == h) s.calls
  sound : ∀ c ∈ s.calls, c.Sound L s.created
  ordered : ∀ (i j : Nat) (c c' : Call), i ≠ j → s.calls[i]? = some c → s.calls[j]? = some c' →
    c.searched L = true → c'.searched L = true → c.key L = c'.key L → Before c c' ∨ Before c' c

/-- A statement of a call, by what it does to the lock and to the search. -/
inductive Ran (q : IssueTable) (created : List UUID) (free : Bool) (c c' : Call) : Prop where
  /-- It goes on outside the lock, or ends without an issue. -/
  | idle (holds : c'.holds L = false) (searched : c'.searched L = false)
  /-- The lock is free and is taken. -/
  | lock (free : free = true) (key : c'.key L = c.key L) (searched : c'.searched L = false)
  /-- The search finds nothing. -/
  | find (key : c'.key L = c.key L) (holds : c.holds L = true)
      (clear : ∀ r ∈ q.rows, duplicates L (c.key L) r = false) (seen : c'.seen = q.rows)
      (earlier : c'.earlier = created)
  /-- It goes on behind the search, or where no search is needed. -/
  | keep (key : c'.key L = c.key L) (holds : c'.holds L = true → c.holds L = true)
      (searched : c'.searched L = true → c.searched L = true) (seen : c'.seen = c.seen)
      (earlier : c'.earlier = c.earlier) (going : ∀ x, c.phase ≠ .done x)

section Steps

variable {L : Locale} {hash : LockKey → Int} {s s' : State} {q q' : IssueTable}
  {projects : Projects} {created : List UUID} {free : Bool} {id : UUID} {c c' : Call}

theorem holds_eq_true : c.holds L = true ↔ c.titled L = true ∧
    (c.phase = .find ∨ c.phase = .insert ∨ ∃ row, c.phase = .commit row) := by
  rw [Call.holds, Bool.and_eq_true]
  refine and_congr_right fun _ => ?_
  cases c.phase <;> simp

theorem searched_eq_true : c.searched L = true ↔
    c.titled L = true ∧ c.params.allowDuplicate = false ∧
      (c.phase = .insert ∨ (∃ row, c.phase = .commit row) ∨ ∃ x, c.phase = .done x) := by
  rw [Call.searched, Bool.and_eq_true, Bool.and_eq_true, Bool.not_eq_true', and_assoc]
  refine and_congr_right fun _ => and_congr_right fun _ => ?_
  cases c.phase <;> simp

theorem not_holds (h : c.titled L = false) : c.holds L = false := by
  rw [Call.holds, h, Bool.false_and]

theorem not_searched (h : c.titled L = false) : c.searched L = false := by
  rw [Call.searched, h, Bool.false_and, Bool.false_and]

theorem exec_params (h : c.exec L q projects created free id = some (q', c')) :
    c'.params = c.params := by
  grind [Call.exec]

/-- A titled call's statement. -/
theorem exec_ran (htitled : c.titled L = true)
    (h : c.exec L q projects created free id = some (q', c')) :
    Ran L q created free c c' := by
  cases hphase : c.phase with
  | getParent =>
    simp only [Call.exec, hphase] at h
    split at h
    · obtain ⟨-, rfl⟩ := Prod.mk.inj (Option.some.inj h)
      exact .idle (Bool.and_false _) (Bool.and_false _)
    · split at h
      · obtain ⟨-, rfl⟩ := Prod.mk.inj (Option.some.inj h)
        exact .idle (Bool.and_false _) (Bool.and_false _)
      · obtain ⟨-, rfl⟩ := Prod.mk.inj (Option.some.inj h)
        exact .idle (Bool.and_false _) (Bool.and_false _)
  | getProject =>
    simp only [Call.exec, hphase] at h
    split at h
    · obtain ⟨-, rfl⟩ := Prod.mk.inj (Option.some.inj h)
      exact .idle (Bool.and_false _) (Bool.and_false _)
    · obtain ⟨-, rfl⟩ := Prod.mk.inj (Option.some.inj h)
      exact .idle (Bool.and_false _) (Bool.and_false _)
  | lock =>
    simp only [Call.exec, hphase, htitled, Bool.not_true, Bool.false_eq_true, if_false,
      Option.ite_none_right_eq_some] at h
    rcases h with ⟨hfree, h⟩
    obtain ⟨-, rfl⟩ := Prod.mk.inj (Option.some.inj h)
    exact .lock hfree rfl (Bool.and_false _)
  | find =>
    have hholds : c.holds L = true := holds_eq_true.2 ⟨htitled, .inl hphase⟩
    simp only [Call.exec, hphase] at h
    split at h
    · rename_i hallow
      obtain ⟨-, rfl⟩ := Prod.mk.inj (Option.some.inj h)
      refine .keep rfl (fun _ => hholds) (fun hs => ?_) rfl rfl (by simp [hphase])
      have hguarded := (searched_eq_true.1 hs).2.1
      rw [hallow] at hguarded
      cases hguarded
    · split at h
      · obtain ⟨-, rfl⟩ := Prod.mk.inj (Option.some.inj h)
        exact .idle (Bool.and_false _) (Bool.and_false _)
      · rename_i hnone
        obtain ⟨-, rfl⟩ := Prod.mk.inj (Option.some.inj h)
        refine .find rfl hholds (fun r hr => ?_) rfl rfl
        exact Bool.eq_false_iff.2 (List.find?_eq_none.1 hnone r hr)
  | insert =>
    have hholds : c.holds L = true := holds_eq_true.2 ⟨htitled, .inr (.inl hphase)⟩
    simp only [Call.exec, hphase] at h
    obtain ⟨-, rfl⟩ := Prod.mk.inj (Option.some.inj h)
    refine .keep rfl (fun _ => hholds) (fun hs => ?_) rfl rfl (by simp [hphase])
    exact searched_eq_true.2 ⟨htitled, (searched_eq_true.1 hs).2.1, .inl hphase⟩
  | commit row =>
    have hholds : c.holds L = true := holds_eq_true.2 ⟨htitled, .inr (.inr ⟨row, hphase⟩)⟩
    simp only [Call.exec, hphase] at h
    split at h
    · obtain ⟨-, rfl⟩ := Prod.mk.inj (Option.some.inj h)
      refine .keep rfl (fun _ => hholds) (fun hs => ?_) rfl rfl (by simp [hphase])
      exact searched_eq_true.2 ⟨htitled, (searched_eq_true.1 hs).2.1, .inr (.inl ⟨row, hphase⟩)⟩
    · obtain ⟨-, rfl⟩ := Prod.mk.inj (Option.some.inj h)
      exact .idle (Bool.and_false _) (Bool.and_false _)
  | done x =>
    simp only [Call.exec, hphase] at h
    cases h
  | failed e =>
    simp only [Call.exec, hphase] at h
    cases h

/-- A call without a title is outside all of it. -/
theorem ran_of_exec (h : c.exec L q projects created free id = some (q', c')) :
    Ran L q created free c c' := by
  by_cases htitled : c.titled L = true
  · exact exec_ran htitled h
  · have htitled' : c'.titled L = false := by
      rw [Call.titled, exec_params h]
      exact Bool.eq_false_iff.2 htitled
    exact .idle (not_holds htitled') (not_searched htitled')

/-- One call at most holds the lock of a key. -/
theorem exclusive_step {i : Nat} (hinv : Inv L hash s) (hi : s.calls[i]? = some c)
    (hran : Ran L q created (s.free L hash c) c c') (h : Int) :
    AtMostOne (fun c => c.holds L && hash (c.key L) == h) (s.calls.set i c') := by
  cases hran with
  | idle holds _ => exact (hinv.exclusive h).set hi fun hc => by simp [holds] at hc
  | lock hfree key _ =>
    by_cases hh : hash (c.key L) = h
    · refine AtMostOne.set_of_none (fun d hd => ?_) i c'
      have hd' := List.all_eq_true.1 hfree d hd
      rw [Bool.not_eq_true'] at hd'
      rw [← hh, hd']
    · exact (hinv.exclusive h).set hi fun hc => by simp [key, hh] at hc
  | find key holds _ _ _ =>
    exact (hinv.exclusive h).set hi fun hc => by
      rw [key, Bool.and_eq_true] at hc
      rw [holds, hc.2, Bool.and_true]
  | keep key holds _ _ _ _ =>
    exact (hinv.exclusive h).set hi fun hc => by
      rw [key, Bool.and_eq_true] at hc
      rw [holds hc.1, hc.2, Bool.and_true]

theorem sound_step (hsound : c.Sound L created) (hparams : c'.params = c.params)
    (hran : Ran L q created free c c') : c'.Sound L (created ++ c'.createdIssue) where
  plain := by
    rw [Call.titled, hparams]
    exact hsound.plain
  done x hx := by
    refine List.mem_append_right _ ?_
    rw [Call.createdIssue, hx]
    exact List.mem_singleton_self x
  clear hs := by
    cases hran with
    | idle _ searched =>
      rw [searched] at hs
      cases hs
    | lock _ _ searched =>
      rw [searched] at hs
      cases hs
    | find key _ clear seen _ =>
      rw [key, seen]
      exact clear
    | keep key _ searched seen _ _ =>
      rw [key, seen]
      exact hsound.clear (searched hs)

/-- Another call that has searched for the same holds the lock until its issue is there. -/
theorem before_step {i j : Nat} {d : Call} (hinv : Inv L hash s) (hi : s.calls[i]? = some c)
    (hran : Ran L q s.created free c c') (hji : j ≠ i) (hj : s.calls[j]? = some d)
    (hs : c'.searched L = true) (hd : d.searched L = true) (hkey : c'.key L = d.key L) :
    Before d c' := by
  cases hran with
  | idle _ searched =>
    rw [searched] at hs
    cases hs
  | lock _ _ searched =>
    rw [searched] at hs
    cases hs
  | find key holds _ _ earlier =>
    rcases searched_eq_true.1 hd with ⟨htitled, -, hphase⟩
    have hreleased : d.holds L = false := by
      rw [Bool.eq_false_iff]
      intro hdh
      refine hji (hinv.exclusive (hash (c.key L)) j i d c hj hi ?_ ?_)
      · simp [hdh, ← hkey, key]
      · simp [holds]
    rcases hphase with hp | ⟨row, hp⟩ | ⟨x, hp⟩
    · rw [holds_eq_true.2 ⟨htitled, .inr (.inl hp)⟩] at hreleased
      cases hreleased
    · rw [holds_eq_true.2 ⟨htitled, .inr (.inr ⟨row, hp⟩)⟩] at hreleased
      cases hreleased
    · exact ⟨x, hp, earlier ▸ (hinv.sound d (List.mem_of_getElem? hj)).done x hp⟩
  | keep key _ searched _ earlier going =>
    rcases hinv.ordered i j c d hji.symm hi hj (searched hs) hd (key.symm.trans hkey) with
      ⟨x, hx, -⟩ | ⟨x, hx, hmem⟩
    · exact absurd hx (going x)
    · exact ⟨x, hx, earlier ▸ hmem⟩

theorem inv_step {i : Nat} (hinv : Inv L hash s) (hi : s.calls[i]? = some c)
    (h : c.exec L s.issues s.projects s.created (s.free L hash c) id = some (q', c')) :
    Inv L hash { s with
      issues := q'
      calls := s.calls.set i c'
      created := s.created ++ c'.createdIssue } := by
  have hran := ran_of_exec h
  have hset : (s.calls.set i c')[i]? = some c' := Parties.getElem?_set hi c'
  refine ⟨exclusive_step hinv hi hran, Parties.forall_set c' ?_ fun d hd => ?_, ?_⟩
  · exact sound_step (hinv.sound c (List.mem_of_getElem? hi)) (exec_params h) hran
  · have hd' := hinv.sound d hd
    exact ⟨hd'.plain, fun x hx => List.mem_append_left _ (hd'.done x hx), hd'.clear⟩
  · intro j k d d' hjk hj hk hd hd' hkey
    by_cases hji : j = i
    · subst hji
      obtain rfl := Option.some.inj (hset.symm.trans hj)
      rw [List.getElem?_set_ne hjk] at hk
      exact .inr (before_step hinv hi hran hjk.symm hk hd hd' hkey)
    · rw [List.getElem?_set_ne (Ne.symm hji)] at hj
      by_cases hki : k = i
      · subst hki
        obtain rfl := Option.some.inj (hset.symm.trans hk)
        exact .inl (before_step hinv hi hran hji hj hd' hd hkey.symm)
      · rw [List.getElem?_set_ne (Ne.symm hki)] at hk
        exact hinv.ordered j k d d' hjk hj hk hd hd' hkey

theorem inv_next (hinv : Inv L hash s) {a : Act} (hplain : plainTitles L a = true)
    (h : next L hash s a = some s') : Inv L hash s' := by
  cases a with
  | create p =>
    obtain rfl := Option.some.inj h
    have hnew (c : Call) (hc : c ∈ s.calls ++ [({ params := p } : Call)]) :
        c ∈ s.calls ∨ c = { params := p } :=
      (List.mem_append.1 hc).imp_right List.mem_singleton.1
    refine ⟨fun hh => (hinv.exclusive hh).append ?_, fun c hc => ?_, ?_⟩
    · rw [show Call.holds L { params := p } = false from Bool.and_false _, Bool.false_and]
    · rcases hnew c hc with hc | rfl
      · exact hinv.sound c hc
      · refine ⟨fun htitled hguarded => ?_, (fun x hx => by cases hx), fun hs => ?_⟩
        · have htitle : (normalizeTitle L p.title).isEmpty = false := by
            rw [Call.titled, Bool.not_eq_true'] at htitled
            exact htitled
          have hguarded' : p.allowDuplicate = false := hguarded
          rw [plainTitles, hguarded', htitle, Bool.false_or] at hplain
          exact hplain
        · cases (Bool.and_false _).symm.trans hs
    · intro i j c c' hij hi hj hc hc' hkey
      have hold (i : Nat) (c : Call) (hi : (s.calls ++ [({ params := p } : Call)])[i]? = some c)
          (hc : c.searched L = true) : s.calls[i]? = some c := by
        refine (Parties.getElem?_concat hi).resolve_right ?_
        rintro rfl
        cases (Bool.and_false _).symm.trans hc
      exact hinv.ordered i j c c' hij (hold i c hi hc) (hold j c' hj hc') hc hc' hkey
  | step i id =>
    simp only [next] at h
    split at h
    · cases h
    · rename_i c hi
      rcases Option.map_eq_some_iff.1 h with ⟨⟨q, c'⟩, hexec, rfl⟩
      exact inv_step hinv hi hexec
  | write issues projects =>
    obtain rfl := Option.some.inj h
    exact ⟨hinv.exclusive, hinv.sound, hinv.ordered⟩

theorem duplicates_of_plain {r : Issue} (hplain : plain L c.params.title = true)
    (hkey : c.key L = c'.key L) (hworkspace : r.workspaceId = c.params.workspaceId)
    (hopen : r.status.terminal = false) (hproject : r.projectId = c.projectId)
    (hparent : r.parentIssueId = c.params.parentIssueId) (htitle : r.title = c.params.title) :
    duplicates L (c'.key L) r = true := by
  have hnormal : normalizeStored L r.title = (c.key L).normalizedTitle := by
    rw [htitle, ← (normalize_eq_iff L c.params.title).2 hplain]
    rfl
  rw [← hkey]
  simp [duplicates, hopen, hnormal, hworkspace, hproject, hparent, Call.key]

/-- What an earlier call has created is gone when a later one finds nothing. -/
theorem gone_of_clear (hplain : plain L c.params.title = true) (hkey : c.key L = c'.key L)
    (hclear : ∀ r ∈ c'.seen, duplicates L (c'.key L) r = false) (x : UUID) : Gone c'.seen c x := by
  intro r hr _
  by_contra hstays
  simp only [not_or, not_not, Bool.not_eq_true] at hstays
  rcases hstays with ⟨hopen, htitle, hworkspace, hproject, hparent⟩
  have hdup := hclear r hr
  rw [duplicates_of_plain hplain hkey hworkspace hopen hproject hparent htitle] at hdup
  cases hdup

theorem guarded_of_inv (hinv : Inv L hash s) : s.Guarded L := by
  intro i j c c' x y hij hi hj hx hy htitled hkey hallow hallow'
  have hsound := hinv.sound c (List.mem_of_getElem? hi)
  have hsound' := hinv.sound c' (List.mem_of_getElem? hj)
  have htitled' : c'.titled L = true := by
    have hnormal : normalizeTitle L c.params.title = normalizeTitle L c'.params.title :=
      congrArg LockKey.normalizedTitle hkey
    rw [Call.titled, ← hnormal]
    exact htitled
  have hs := searched_eq_true.2 ⟨htitled, hallow, .inr (.inr ⟨x, hx⟩)⟩
  have hs' := searched_eq_true.2 ⟨htitled', hallow', .inr (.inr ⟨y, hy⟩)⟩
  rcases hinv.ordered i j c c' hij hi hj hs hs' hkey with ⟨z, hz, hmem⟩ | ⟨z, hz, hmem⟩
  · obtain rfl : x = z := Phase.done.inj (hx.symm.trans hz)
    exact .inl ⟨hmem, gone_of_clear (hsound.plain htitled hallow) hkey (hsound'.clear hs') x⟩
  · obtain rfl : y = z := Phase.done.inj (hy.symm.trans hz)
    have hplain := hsound'.plain htitled' hallow'
    exact .inr ⟨hmem, gone_of_clear hplain hkey.symm (hsound.clear hs) y⟩

end Steps

/-! ## A call on its own -/

section Alone

variable {L : Locale} {q q' : IssueTable} {projects : Projects} {p : CreateParams} {id id' : UUID}

/-- The project of the parent, unless the call has one. -/
def resolveProject (q : IssueTable) (p : CreateParams) : Except CreateError (Option UUID) :=
  match p.parentIssueId with
  | none => .ok p.projectId
  | some parentId =>
    match (q.get? parentId).filter fun r => r.workspaceId == p.workspaceId with
    | none => .error .parentIssueNotFound
    | some parent => .ok (p.projectId.or parent.projectId)

def callAt (p : CreateParams) (project : Option UUID) (phase : Phase) : Call where
  params := p
  projectId := project
  phase := phase

/-- What a guarded call does with its project resolved: it searches and inserts. -/
def guardAndInsert (L : Locale) (projects : Projects) (q : IssueTable) (p : CreateParams)
    (id : UUID) (project : Option UUID) : IssueTable × Phase :=
  if project.all fun id => projects.contains (id, p.workspaceId) then
    match findActiveDuplicateIssue L q ((callAt p project .find).key L) with
    | some duplicate => (q, .failed (.activeDuplicate duplicate))
    | none =>
      match q.insert? ((callAt p project .insert).row id) with
      | some q' => (q', .done id)
      | none => (q, .failed .createIssue)
  else (q, .failed .projectNotFound)

theorem exec_find (q : IssueTable) (projects : Projects) (id : UUID) {c : Call}
    (hphase : c.phase = .find) (hguarded : c.params.allowDuplicate = false) :
    c.exec L q projects [] true id =
      match findActiveDuplicateIssue L q (c.key L) with
      | some duplicate => some (q, { c with phase := .failed (.activeDuplicate duplicate) })
      | none => some (q, { c with phase := .insert, seen := q.rows, earlier := [] }) := by
  simp only [Call.exec, hphase, hguarded, Bool.false_eq_true, if_false]

theorem exec_commit {c : Call} {row : Issue} (hphase : c.phase = .commit row) :
    c.exec L q projects [] true id =
      match q.insert? row with
      | some q' => some (q', { c with phase := .done row.id })
      | none => some (q, { c with phase := .failed .createIssue }) := by
  simp only [Call.exec, hphase]

theorem alone_step {n : Nat} {c c' : Call} (h : c.exec L q projects [] true id = some (q', c')) :
    alone L projects id (n + 1) q c = alone L projects id n q' c' := by
  rw [alone, h]

theorem alone_failed (n : Nat) {c : Call} {e : CreateError} (h : c.phase = .failed e) :
    alone L projects id n q c = (q, c) := by
  cases n with
  | zero => rfl
  | succ n =>
    rw [alone]
    simp only [Call.exec, h]

theorem alone_insert {c : Call} {row : Issue} (hphase : c.phase = .insert) (hrow : c.row id = row)
    {r : IssueTable × Call} (hr : alone L projects id 2 q c = r) :
    (r.1, r.2.phase) =
      match q.insert? row with
      | some q' => (q', .done id)
      | none => (q, .failed .createIssue) := by
  subst hrow
  have hexec : c.exec L q projects [] true id =
      some (q, { c with phase := .commit (c.row id) }) := by
    simp only [Call.exec, hphase]
  rw [alone_step hexec, alone, exec_commit rfl] at hr
  cases hins : q.insert? (c.row id) with
  | some q' =>
    rw [hins] at hr
    rw [← hr]
    rfl
  | none =>
    rw [hins] at hr
    rw [← hr]
    rfl

theorem alone_getProject (htitled : normalizeTitle L p.title ≠ [])
    (hguarded : p.allowDuplicate = false) (project : Option UUID) {r : IssueTable × Call}
    (hr : alone L projects id 5 q (callAt p project .getProject) = r) :
    (r.1, r.2.phase) = guardAndInsert L projects q p id project := by
  have htitled' (phase : Phase) : (callAt p project phase).titled L = true := by
    rw [Call.titled, Bool.not_eq_true', List.isEmpty_eq_false_iff]
    exact htitled
  by_cases hproject : (project.all fun id => projects.contains (id, p.workspaceId)) = true
  · rw [guardAndInsert, if_pos hproject]
    have hget : (callAt p project .getProject).exec L q projects [] true id =
        some (q, callAt p project .lock) := if_pos hproject
    have hlock : (callAt p project .lock).exec L q projects [] true id =
        some (q, callAt p project .find) := by
      have h := htitled' .lock
      simp only [Call.exec, callAt] at h ⊢
      rw [h]
      rfl
    have hphase : (callAt p project .find).phase = .find := rfl
    have hexec := exec_find (L := L) q projects id hphase hguarded
    rw [alone_step hget, alone_step hlock] at hr
    cases hfind : findActiveDuplicateIssue L q ((callAt p project .find).key L) with
    | some duplicate =>
      rw [hfind] at hexec
      rw [alone_step hexec, alone_failed 2 rfl] at hr
      rw [← hr]
    | none =>
      rw [hfind] at hexec
      rw [alone_step hexec] at hr
      refine alone_insert ?_ ?_ hr
      · rfl
      · rfl
  · rw [guardAndInsert, if_neg hproject]
    have hget : (callAt p project .getProject).exec L q projects [] true id =
        some (q, callAt p project (.failed .projectNotFound)) := if_neg hproject
    rw [alone_step hget, alone_failed 4 rfl] at hr
    rw [← hr]
    rfl

theorem create_eq (htitled : normalizeTitle L p.title ≠ []) (hguarded : p.allowDuplicate = false) :
    create L projects q p id =
      match resolveProject q p with
      | .error e => (q, .failed e)
      | .ok project => guardAndInsert L projects q p id project := by
  have hget (project : Option UUID) (h : ({ params := p } : Call).exec L q projects [] true id =
      some (q, callAt p project .getProject)) :
      create L projects q p id = guardAndInsert L projects q p id project := by
    rw [create, alone_step h]
    exact alone_getProject htitled hguarded project rfl
  unfold resolveProject
  cases hparent : p.parentIssueId with
  | none => exact hget p.projectId (by simp only [Call.exec, hparent]; rfl)
  | some parentId =>
    simp only
    cases hrow : (q.get? parentId).filter fun r => r.workspaceId == p.workspaceId with
    | some parent => exact hget _ (by simp only [Call.exec, hparent, hrow]; rfl)
    | none =>
      have hexec : ({ params := p } : Call).exec L q projects [] true id =
          some (q, callAt p none (.failed .parentIssueNotFound)) := by
        simp only [Call.exec, hparent, hrow]
        rfl
      rw [create, alone_step hexec, alone_failed 5 rfl]
      rfl

/-- The parent of a created issue is still there, with its project. -/
theorem resolveProject_insert {row : Issue} {project : Option UUID} (hins : q.insert? row = some q')
    (h : resolveProject q p = .ok project) : resolveProject q' p = .ok project := by
  unfold resolveProject at h ⊢
  cases hparent : p.parentIssueId with
  | none => simpa only [hparent] using h
  | some parentId =>
    simp only [hparent] at h ⊢
    cases hrow : (q.get? parentId).filter fun r => r.workspaceId == p.workspaceId with
    | none =>
      rw [hrow] at h
      cases h
    | some parent =>
      rw [hrow] at h
      rcases Option.filter_eq_some_iff.1 hrow with ⟨hget, hworkspace⟩
      rw [Table.get?_insert?_some hins hget, Option.filter_some, if_pos hworkspace]
      exact h

theorem find_insert {k : LockKey} {row : Issue} (hins : q.insert? row = some q')
    (hnone : findActiveDuplicateIssue L q k = none) :
    findActiveDuplicateIssue L q' k = if duplicates L k row then some row else none := by
  rw [findActiveDuplicateIssue] at hnone ⊢
  rw [Table.insert?_rows hins, List.find?_append, hnone, Option.none_or, List.find?_singleton]

/-- A stored title is found under its own key if and only if it is plain. -/
theorem duplicates_row (hopen : p.status.terminal = false) (project : Option UUID) :
    duplicates L ((callAt p project .find).key L) ((callAt p project .insert).row id) =
      plain L p.title := by
  rw [Bool.eq_iff_iff, ← normalize_eq_iff, eq_comm (a := normalizeTitle L p.title)]
  simp [duplicates, callAt, Call.key, Call.row, hopen]

/-- A title is refused the second time if and only if it is plain. -/
theorem refused_iff (htitled : normalizeTitle L p.title ≠ []) (hguarded : p.allowDuplicate = false)
    (hopen : p.status.terminal = false) (h : create L projects q p id = (q', .done id)) :
    (∃ duplicate, (create L projects q' p id').2 = .failed (.activeDuplicate duplicate)) ↔
      plain L p.title = true := by
  rw [create_eq htitled hguarded] at h ⊢
  cases hres : resolveProject q p with
  | error e =>
    rw [hres] at h
    cases (Prod.mk.inj h).2
  | ok project =>
    rw [hres] at h
    simp only [guardAndInsert] at h
    split at h
    · rename_i hproject
      split at h
      · cases (Prod.mk.inj h).2
      · rename_i hnone
        split at h
        · rename_i q₁ hins
          obtain rfl := (Prod.mk.inj h).1
          rw [resolveProject_insert hins hres]
          simp only [guardAndInsert, if_pos hproject]
          rw [find_insert hins hnone, duplicates_row hopen]
          -- the second search sees the rows of the first and the new one
          cases hplain : plain L p.title with
          | true => simp
          | false =>
            simp only [Bool.false_eq_true, if_false, iff_false, not_exists]
            intro duplicate
            split <;> simp
        · cases (Prod.mk.inj h).2
    · cases (Prod.mk.inj h).2

end Alone

/-- Without titles on whose white space Go and the database differ, the guard keeps one issue of a
key active; a title is stored with the normal form of its key, and refused when it is created
again, if and only if it is no such title. -/
theorem duplicates_refused (L : Locale) (hash : LockKey → Int) :
    (∀ s, (machine L hash).ReachableUnder (fun _ a => plainTitles L a = true) s → s.Guarded L) ∧
      (∀ title, normalizeTitle L title = normalizeStored L title ↔ plain L title = true) ∧
      ∀ (projects : Projects) (q q' : IssueTable) (p : CreateParams) (id id' : UUID),
        normalizeTitle L p.title ≠ [] → p.allowDuplicate = false → p.status.terminal = false →
          create L projects q p id = (q', .done id) →
            ((∃ duplicate,
              (create L projects q' p id').2 = .failed (.activeDuplicate duplicate)) ↔
                plain L p.title = true) := by
  have hinv : ∀ s, (machine L hash).ReachableUnder (fun _ a => plainTitles L a = true) s →
      Inv L hash s := by
    refine Machine.invariant_under ?_ fun s a s' _ hinv hplain h => inv_next hinv hplain h
    intro s (hcalls : s.calls = [])
    refine ⟨fun h i j c d hi => ?_, fun c hc => ?_, fun i j c d _ hi => ?_⟩
    · simp [hcalls] at hi
    · simp [hcalls] at hc
    · simp [hcalls] at hi
  exact ⟨fun s hs => guarded_of_inv (hinv s hs), normalize_eq_iff L,
    fun projects q q' p id id' htitled hguarded hopen h =>
      refused_iff htitled hguarded hopen h⟩

/-- White space as the C library has it: Go's but for U+0085 and the no-break spaces. -/
def isWSpace (c : Char) : Bool :=
  isSpace c && !([0x85, 0xa0, 0x2007, 0x202f].contains c.toNat)

/-- The locale of the database image, on ASCII letters. -/
def libc : Locale where
  space := isWSpace
  lower := Char.toLower
  space_blank := by decide
  lower_space c h := by
    have hspace : isSpace c = true := h.elim id fun h => (Bool.and_eq_true_iff.1 h).1
    rcases isSpace_ascii hspace with hc | hc
    · rcases toLower_eq_or c with h | h
      · exact h
      · omega
    · rcases toLower_eq_or c with h | h
      · exact h
      · omega
  lower_makes c h := by
    have hspace : isSpace c.toLower = true := h.elim id fun h => (Bool.and_eq_true_iff.1 h).1
    rcases toLower_eq_or c with h | h
    · exact h
    · rcases isSpace_ascii hspace with hc | hc
      · omega
      · omega

/-- A call that creates an issue takes six statements. -/
def createIssue (i : Nat) (p : CreateParams) (id : UUID) : List Act :=
  .create p :: List.replicate 6 (.step i id)

def noIssues : State := ⟨.empty, [], [], []⟩

/-- Issue 10 is done before a second one with its title is created. -/
theorem duplicates_refused_login :
    (∃ s : State, s.calls.map Call.phase = [.done 10, .done 11] ∧ s.Guarded libc) ∧
      normalizeTitle libc "Fix  login" = normalizeStored libc "Fix  login" ∧
      ∃ q duplicate, create libc [] .empty { workspaceId := 1, title := "Fix  login" } 10 =
          (q, .done 10) ∧
        (create libc [] q { workspaceId := 1, title := "Fix  login" } 11).2 =
          .failed (.activeDuplicate duplicate) := by
  let p : CreateParams := { workspaceId := 1, title := "Fix  login" }
  let closed : Issue :=
    { id := 10, workspaceId := 1, title := "Fix  login", status := .done, projectId := none
      parentIssueId := none }
  rcases duplicates_refused libc fun _ => 0 with ⟨hguarded, hnormal, hrefused⟩
  refine ⟨?_, (hnormal _).2 (by decide +kernel), ?_⟩
  · rcases Machine.reachableUnder_of_run (machine libc fun _ => 0) (fun _ => plainTitles libc)
      (s := noIssues) rfl
      (createIssue 0 p 10 ++ .write ((Table.ofRows? [closed]).getD .empty) [] ::
        createIssue 1 p 11)
      (fun s => s.calls.map Call.phase == [.done 10, .done 11]) (by decide +kernel) with
      ⟨s, hs, hdone⟩
    exact ⟨s, beq_iff_eq.1 hdone, hguarded s hs⟩
  · have hcreated : create libc [] .empty p 10 = ((create libc [] .empty p 10).1, .done 10) :=
      Prod.ext rfl (by decide +kernel)
    rcases (hrefused [] .empty _ p 10 11 (by decide +kernel) rfl rfl hcreated).2
      (by decide +kernel) with ⟨duplicate, hfailed⟩
    exact ⟨_, duplicate, hcreated, hfailed⟩

/-- The stored title keeps its no-break space, the key has a blank for it, and the second call does
not find the first one's issue. -/
theorem no_break_space_twice :
    ¬ ∀ (L : Locale) (hash : LockKey → Int) (s : State), (machine L hash).Reachable s →
      s.Guarded L := by
  intro hclaim
  let p : CreateParams := { workspaceId := 1, title := "Fix\u00a0login" }
  let first : Call := { params := p, phase := .done 10 }
  let second : Call :=
    { params := p, phase := .done 11, seen := [first.row 10], earlier := [10] }
  rcases Machine.reachable_of_run (machine libc fun _ => 0) (s := noIssues) rfl
    (createIssue 0 p 10 ++ createIssue 1 p 11) (fun s => s.calls == [first, second])
    (by decide +kernel) with ⟨s, -, hs, hcalls⟩
  have hguarded := hclaim libc (fun _ => 0) s hs
  rw [State.Guarded, beq_iff_eq.1 hcalls] at hguarded
  have htitled : first.titled libc = true := by decide +kernel
  rcases hguarded 0 1 first second 10 11 (by decide) rfl rfl rfl rfl htitled rfl rfl rfl with
    ⟨-, hgone⟩ | ⟨hmem, -⟩
  · have h := hgone (first.row 10) (List.mem_singleton_self _) rfl
    revert h
    decide +kernel
  · cases hmem

end Orynx.DuplicateGuard
