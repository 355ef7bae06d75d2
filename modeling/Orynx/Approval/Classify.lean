import Orynx.Pattern
import Orynx.Text

/-! # Action classes

`server/internal/handler/approval_classify.go`: each command that the hook asks about has a tier and
a class.

* `classifyCommand_operational`: a command is operational if no security pattern matches it and some
  operational one does, and its class is that of the first.
-/

namespace Orynx.Approval

open Lib

inductive Tier where
  | operational
  | security
deriving DecidableEq, Repr

inductive ActionClass where
  | boxSecurity
  | dbDestructive
  | forcePush
  | packagePublish
  | infraApply
  | k8sApply
  | credentialChange
  | destructiveDelete
  | spend
  | ghPrMerge
  | gitPush
  | branchDelete
  | dbMigrateUp
  | unclassified
deriving DecidableEq, Repr

structure Pattern where
  re : Regex
  actionClass : ActionClass

def Pattern.matches (p : Pattern) (cmd : String) : Bool := p.re.isMatch cmd.toList

/-! ## Patterns -/

/-- Words in small letters with `\s+` between them. -/
def phrase : List String → Regex
  | [] => .empty
  | [w] => literal w.toList
  | w :: ws => .seq (literal w.toList) (.seq (.many isBlank 1 none) (phrase ws))

/-- The first of these that matches. -/
def oneOf : List Regex → Regex
  | [] => .empty
  | [r] => r
  | r :: rs => .alt r (oneOf rs)

/-- `\b…\b`. -/
def whole (r : Regex) : Regex := .seq .wordBoundary (.seq r .wordBoundary)

/-- `[^\n]*`. -/
def restOfLine : Regex := .many (· != '\n') 0 none

/-- `(--force\b|--force-with-lease\b|\s-f\b)`. -/
def forceFlag : Regex :=
  oneOf [.seq (phrase ["--force"]) .wordBoundary, .seq (phrase ["--force-with-lease"]) .wordBoundary,
    .seq (.set isBlank) (.seq (phrase ["-f"]) .wordBoundary)]

/-- `rm\s+-rf?`. -/
def rmRf : Regex := .seq (phrase ["rm", "-r"]) (.many (foldChar · == 'f') 0 (some 1))

/-- `(drop|truncate)\s+(table|database|schema)`. -/
def dropTable : Regex :=
  .seq (oneOf [phrase ["drop"], phrase ["truncate"]])
    (.seq (.many isBlank 1 none) (oneOf [phrase ["table"], phrase ["database"], phrase ["schema"]]))

def securityPatterns : List Pattern :=
  [⟨whole (phrase ["sudo"]), .boxSecurity⟩,
    ⟨whole dropTable, .dbDestructive⟩,
    ⟨whole (phrase ["alembic", "downgrade"]), .dbDestructive⟩,
    ⟨.seq (whole (phrase ["git", "push"])) (.seq restOfLine forceFlag), .forcePush⟩,
    ⟨whole (oneOf [phrase ["npm", "publish"], phrase ["twine", "upload"],
      phrase ["cargo", "publish"], phrase ["gem", "push"]]), .packagePublish⟩,
    ⟨whole (phrase ["terraform", "apply"]), .infraApply⟩,
    ⟨whole (.seq (phrase ["kubectl"]) (.seq (.many isBlank 1 none)
      (oneOf [phrase ["apply"], phrase ["delete"]]))), .k8sApply⟩,
    ⟨whole (oneOf [phrase ["aws", "configure"], phrase ["gh", "auth"], phrase ["git", "credential"],
      phrase ["ssh-keygen"]]), .credentialChange⟩,
    ⟨.seq (whole rmRf) (.seq restOfLine (oneOf [phrase ["/etc/"], phrase ["/home/"], phrase ["~"],
      phrase ["$home"], phrase [".."]])), .destructiveDelete⟩,
    ⟨whole (oneOf [phrase ["stripe"], phrase ["payment"], phrase ["transfer"], phrase ["payout"],
      phrase ["withdraw"]]), .spend⟩]

def operationalPatterns : List Pattern :=
  [⟨whole (phrase ["gh", "pr", "merge"]), .ghPrMerge⟩,
    ⟨whole (phrase ["git", "push"]), .gitPush⟩,
    ⟨whole (phrase ["git", "branch", "-d"]), .branchDelete⟩,
    ⟨whole (oneOf [phrase ["alembic", "upgrade"], phrase ["migrate", "up"]]), .dbMigrateUp⟩]

/-! ## Classification -/

def classifyCommand (cmd : String) : Tier × ActionClass :=
  match securityPatterns.find? fun p => p.matches cmd with
  | some p => (.security, p.actionClass)
  | none =>
    match operationalPatterns.find? fun p => p.matches cmd with
    | some p => (.operational, p.actionClass)
    | none => (.security, .unclassified)

theorem classifyCommand_operational {cmd : String} {c : ActionClass}
    (h : classifyCommand cmd = (.operational, c)) :
    (∀ p ∈ securityPatterns, p.matches cmd = false) ∧
      ∃ p ∈ operationalPatterns, p.matches cmd = true ∧ p.actionClass = c := by
  unfold classifyCommand at h
  split at h
  · cases (Prod.mk.inj h).1
  · rename_i hsecurity
    split at h
    · rename_i p hp
      have hmatch := List.find?_some hp
      refine ⟨fun p' hp' => ?_, p, List.mem_of_find?_eq_some hp, hmatch, (Prod.mk.inj h).2⟩
      exact Bool.eq_false_iff.2 (List.find?_eq_none.1 hsecurity p' hp')
    · cases (Prod.mk.inj h).1

example : classifyCommand "git push --Force" = (.security, .forcePush) := by decide +kernel

end Orynx.Approval
