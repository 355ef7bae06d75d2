import Mathlib.Algebra.Group.Nat.Defs
import Orynx.Issue.ChildDone
import Orynx.Pattern

/-! # Identifiers in the text of a pull request

`extractIdentifiers`, `extractClosingIdentifiers` and `lookupIssueByIdentifier` of
`server/internal/handler/github.go`.

* `closing_plain`: a closing keyword with its identifier has no other one inside;
* `mem_extractClosingIdentifiers`: so all of them are found.
-/

namespace Orynx.GitHub

open Lib
open ChildDone (Issue IssueTable getIssueByNumber)

/-! ## Expressions -/

/-- `[a-z]` under `(?i)`. -/
def isLetter (c : Char) : Bool := (foldChar c).isLower

/-- `[a-z0-9]` under `(?i)`. -/
def isLetterOrDigit (c : Char) : Bool := isLetter c || c.isDigit

/-- `[:\s]`. -/
def isSeparator (c : Char) : Bool :=
  c == ':' || c == '\t' || c == '\n' || c == Char.ofNat 12 || c == '\r' || c == ' '

/-- `[sd]` under `(?i)`. -/
def isEnding (c : Char) : Bool := foldChar c == 's' || foldChar c == 'd'

/-- `([a-z][a-z0-9]{1,9})-(\d+)\b`. -/
def identifierTail : Regex :=
  .seq (.group (.seq (.set isLetter) (.many isLetterOrDigit 1 (some 9))))
    (.seq (.set (· == '-')) (.seq (.group (.many Char.isDigit 1 none)) .wordBoundary))

def identifierRe : Regex := .seq .wordBoundary identifierTail

/-- `close[sd]?|fix(?:e[sd])?|resolve[sd]?`. -/
def closingKeyword : Regex :=
  .alt (.seq (literal ['c', 'l', 'o', 's', 'e']) (.many isEnding 0 (some 1)))
    (.alt
      (.seq (literal ['f', 'i', 'x'])
        (.alt (.seq (.set fun d => foldChar d == 'e') (.set isEnding)) .empty))
      (.seq (literal ['r', 'e', 's', 'o', 'l', 'v', 'e']) (.many isEnding 0 (some 1))))

def closingIdentifierRe : Regex :=
  .seq .wordBoundary (.seq closingKeyword (.seq (.many isSeparator 1 none) identifierTail))

/-! ## Extraction -/

/-- `PREFIX-NUMBER`, cut at its dash. -/
structure Identifier where
  gotPrefix : List Char
  numStr : List Char
deriving DecidableEq, Repr

/-- `unicode.ToUpper` on what `[a-z0-9]` matches. -/
def toUpper (c : Char) : Char := if c = longS then 'S' else c.toUpper

def Identifier.ofMatch : List (List Char) → Option Identifier
  | [p, n] => some ⟨p.map toUpper, n⟩
  | _ => none

def extract (re : Regex) (parts : List String) : List Identifier :=
  (parts.flatMap fun src => (re.findAll src.toList).filterMap Identifier.ofMatch).eraseDups

def extractIdentifiers (parts : List String) : List Identifier := extract identifierRe parts

def extractClosingIdentifiers (parts : List String) : List Identifier :=
  extract closingIdentifierRe parts

/-! ## Lookup -/

/-- `strconv.Atoi` of a run of digits: an `int` holds it or it is out of range. -/
def atoi (digits : List Char) : Option Nat :=
  let n := digits.foldl (fun n c => 10 * n + (c.toNat - '0'.toNat)) 0
  if n < 2 ^ 63 then some n else none

/-- The conversion to `int32`. -/
def toInt32 (n : Nat) : Int := Int.bmod n (2 ^ 32)

/-- `issuePrefix` is the workspace's; only letters and digits can equal it under folding. -/
def lookupIssueByIdentifier (q : IssueTable) (workspaceId : UUID) (issuePrefix : String)
    (id : Identifier) : Option Issue :=
  if id.gotPrefix.map foldChar = issuePrefix.toList.map foldChar then
    (atoi id.numStr).bind fun n => getIssueByNumber q workspaceId (toInt32 n)
  else none

/-! ## Closing keywords -/

/-- The closing keywords in small letters. -/
def closingKeywords : List (List Char) :=
  ["close", "closes", "closed", "fix", "fixes", "fixed", "resolve", "resolves", "resolved"].map
    String.toList

theorem literal_matches {word : List Char} {prev : Option Char} {w rest : List Char}
    {cs : List (List Char)} (h : (literal word).Matches prev w rest cs) :
    w.map foldChar = word ∧ cs = [] := by
  induction word generalizing prev w cs with
  | nil =>
    rcases h with ⟨rfl, rfl⟩
    exact ⟨rfl, rfl⟩
  | cons c word ih =>
    rcases h with ⟨u, v, cu, cv, rfl, rfl, ⟨d, rfl, hd, rfl⟩, hv⟩
    rcases ih hv with ⟨hword, rfl⟩
    refine ⟨?_, rfl⟩
    rw [List.map_append, hword]
    simpa using hd

theorem ending_matches {prev : Option Char} {w rest : List Char} {cs : List (List Char)}
    (h : (Regex.many isEnding 0 (some 1)).Matches prev w rest cs) :
    (w.map foldChar = [] ∨ w.map foldChar = ['s'] ∨ w.map foldChar = ['d']) ∧ cs = [] := by
  rcases h with ⟨-, hlen, hall, rfl⟩
  refine ⟨?_, rfl⟩
  cases w with
  | nil => exact .inl rfl
  | cons c w =>
    have hnil : w = [] := List.length_eq_zero_iff.1 (Nat.le_zero.1 (Nat.le_of_succ_le_succ
      (hlen 1 rfl)))
    have hc := hall c List.mem_cons_self
    rw [isEnding, Bool.or_eq_true, beq_iff_eq, beq_iff_eq] at hc
    rw [hnil, List.map_singleton]
    exact .inr (hc.imp (congrArg fun d => [d]) (congrArg fun d => [d]))

theorem closingKeyword_matches {prev : Option Char} {w rest : List Char} {cs : List (List Char)}
    (h : closingKeyword.Matches prev w rest cs) :
    w.map foldChar ∈ closingKeywords ∧ cs = [] := by
  rcases h with ⟨u, v, cu, cv, rfl, rfl, hu, hv⟩ | ⟨u, v, cu, cv, rfl, rfl, hu, hv⟩ |
    ⟨u, v, cu, cv, rfl, rfl, hu, hv⟩
  · rcases literal_matches hu with ⟨hword, rfl⟩
    rcases ending_matches hv with ⟨hend, rfl⟩
    refine ⟨?_, rfl⟩
    rw [List.map_append, hword]
    rcases hend with hend | hend | hend <;> rw [hend] <;> decide
  · rcases literal_matches hu with ⟨hword, rfl⟩
    rw [List.map_append, hword]
    rcases hv with ⟨u', v', cu', cv', rfl, rfl, ⟨d, rfl, hd, rfl⟩, ⟨d', rfl, hd', rfl⟩⟩ | ⟨rfl, rfl⟩
    · refine ⟨?_, rfl⟩
      rw [isEnding, Bool.or_eq_true, beq_iff_eq, beq_iff_eq] at hd'
      rw [List.map_append, List.map_singleton, List.map_singleton, beq_iff_eq.1 hd]
      rcases hd' with hd' | hd' <;> rw [hd'] <;> decide
    · exact ⟨by decide, rfl⟩
  · rcases literal_matches hu with ⟨hword, rfl⟩
    rcases ending_matches hv with ⟨hend, rfl⟩
    refine ⟨?_, rfl⟩
    rw [List.map_append, hword]
    rcases hend with hend | hend | hend <;> rw [hend] <;> decide

/-- Only the first letter of a closing keyword can begin one. -/
def beginsKeyword (c : Char) : Bool := foldChar c == 'c' || foldChar c == 'f' || foldChar c == 'r'

theorem closingKeyword_shape {w : List Char} (h : w.map foldChar ∈ closingKeywords) :
    ∃ c t, w = c :: t ∧ beginsKeyword c = true ∧
      ∀ d ∈ t, beginsKeyword d = false ∧ isLetter d = true := by
  have hall : (closingKeywords.all fun l =>
      (l.head?.any fun c => c == 'c' || c == 'f' || c == 'r') &&
        l.tail.all fun d => !(d == 'c' || d == 'f' || d == 'r') && d.isLower) = true := by
    decide +kernel
  have hw := List.all_eq_true.1 hall _ h
  cases w with
  | nil => cases hw
  | cons c t =>
    rw [Bool.and_eq_true, List.map_cons, List.head?_cons, Option.any_some, List.tail_cons,
      List.all_eq_true] at hw
    refine ⟨c, t, rfl, hw.1, fun d hd => ?_⟩
    have hd' := hw.2 (foldChar d) (List.mem_map.2 ⟨d, hd, rfl⟩)
    rw [Bool.and_eq_true, Bool.not_eq_true'] at hd'
    exact hd'

/-! ## Searching for them -/

theorem not_letterOrDigit_of_separator {c : Char} (h : isSeparator c = true) :
    isLetterOrDigit c = false := by
  simp only [isSeparator, Bool.or_eq_true, beq_iff_eq] at h
  rcases h with ((((rfl | rfl) | rfl) | rfl) | rfl) | rfl <;> decide

theorem letter_of_begins {c : Char} (h : beginsKeyword c = true) : isLetter c = true := by
  simp only [beginsKeyword, Bool.or_eq_true, beq_iff_eq] at h
  rcases h with (h | h) | h <;> rw [isLetter, h] <;> decide

theorem not_begins_of_digit {c : Char} (h : c.isDigit = true) : beginsKeyword c = false := by
  have hfold : foldChar c = c := by
    have hs : c ≠ longS := by
      rintro rfl
      exact absurd h (by decide)
    have hk : c ≠ kelvin := by
      rintro rfl
      exact absurd h (by decide)
    have hupper : ¬ (c.val ≥ 'A'.val ∧ c.val ≤ 'Z'.val) := by
      intro hu
      simp only [Char.isDigit, Bool.and_eq_true, decide_eq_true_eq] at h
      exact absurd (UInt32.le_trans hu.1 h.2) (by decide)
    rw [foldChar, if_neg hs, if_neg hk]
    delta Char.toLower
    rw [dif_neg hupper]
  rw [Bool.eq_false_iff]
  intro hb
  simp only [beginsKeyword, hfold, Bool.or_eq_true, beq_iff_eq] at hb
  rcases hb with (rfl | rfl) | rfl <;> exact absurd h (by decide)

/-- An identifier before `rest`. -/
structure TailShape (p n rest : List Char) : Prop where
  prefix_ne : p ≠ []
  prefix_all : ∀ c ∈ p, isLetterOrDigit c = true
  number_ne : n ≠ []
  number_all : ∀ c ∈ n, c.isDigit = true
  ended : rest.head?.all (fun c => !c.isDigit) = true

theorem identifierTail_matches {prev : Option Char} {w rest : List Char} {cs : List (List Char)}
    (h : identifierTail.Matches prev w rest cs) :
    ∃ p n, w = p ++ '-' :: n ∧ cs = [p, n] ∧ TailShape p n rest := by
  rcases h with ⟨p, v, cp, cv, rfl, rfl, ⟨cg, hprefix, rfl⟩, d, v', cd, cv', rfl, rfl,
    ⟨d', rfl, hd, rfl⟩, n, b, cn, cb, rfl, rfl, ⟨cg', ⟨hn, -, hall, rfl⟩, rfl⟩, rfl, hb, rfl⟩
  rcases hprefix with ⟨u, t, cu, ct, rfl, rfl, ⟨c, rfl, hc, rfl⟩, hlo, -, ht, rfl⟩
  obtain rfl : d' = '-' := beq_iff_eq.1 hd
  refine ⟨[c] ++ t, n, by simp, by simp, by simp, ?_, ?_, hall, ?_⟩
  · intro x hx
    rcases List.mem_append.1 hx with hx | hx
    · rw [List.mem_singleton.1 hx, isLetterOrDigit, hc, Bool.true_or]
    · exact ht x hx
  · rintro rfl
    exact absurd hn (by decide)
  · -- the last digit is a word character, so the next one is none
    have hne : n ≠ [] := by
      rintro rfl
      exact absurd hn (by decide)
    have hlast : (Regex.lastOf (Regex.lastOf (Regex.lastOf prev ([c] ++ t)) ['-']) n).any
        Regex.isWord = true := by
      rw [Regex.lastOf, List.getLast?_eq_some_getLast hne, Option.some_or, Option.any_some,
        Regex.isWord, Char.isAlphanum, hall _ (List.getLast_mem hne), Bool.or_true, Bool.true_or]
    rw [Regex.atBoundary, hlast] at hb
    cases hrest : rest.head? with
    | none => rfl
    | some x =>
      rw [hrest, Option.any_some, bne_iff_ne, ne_comm, ne_eq, Bool.not_eq_true] at hb
      rw [Option.all_some, Bool.not_eq_true', Bool.eq_false_iff]
      intro hx
      rw [Regex.isWord, Char.isAlphanum, hx, Bool.or_true, Bool.true_or] at hb
      cases hb

/-- A closing keyword, separators and an identifier before `rest`. -/
structure ClosingShape (k sep p n rest : List Char) : Prop where
  keyword : k.map foldChar ∈ closingKeywords
  sep_ne : sep ≠ []
  sep_all : ∀ c ∈ sep, isSeparator c = true
  tail : TailShape p n rest

theorem closing_matches {prev : Option Char} {w rest : List Char} {cs : List (List Char)}
    (h : closingIdentifierRe.Matches prev w rest cs) :
    ∃ k sep p n, w = k ++ (sep ++ (p ++ '-' :: n)) ∧ cs = [p, n] ∧ ClosingShape k sep p n rest := by
  rcases h with ⟨b, v, cb, cv, rfl, rfl, ⟨rfl, -, rfl⟩, k, v', ck, cv', rfl, rfl, hk, hrest⟩
  rcases hrest with ⟨sep, t, cs', ct, rfl, rfl, ⟨hne, -, hsep, rfl⟩, ht⟩
  rcases closingKeyword_matches hk with ⟨hword, rfl⟩
  rcases identifierTail_matches ht with ⟨p, n, rfl, rfl, hshape⟩
  refine ⟨k, sep, p, n, rfl, rfl, hword, ?_, hsep, hshape⟩
  rintro rfl
  exact absurd hne (by decide)

theorem not_separator_of_letterOrDigit {c : Char} (h : isLetterOrDigit c = true) :
    isSeparator c = false := by
  rw [Bool.eq_false_iff]
  intro hsep
  rw [not_letterOrDigit_of_separator hsep] at h
  cases h

theorem letterOrDigit_of_letter {c : Char} (h : isLetter c = true) : isLetterOrDigit c = true := by
  rw [isLetterOrDigit, h, Bool.true_or]

theorem head_all_append {q : Char → Bool} {u : List Char} (v : List Char) (hne : u ≠ [])
    (h : ∀ c ∈ u, q c = true) : (u ++ v).head?.all q = true := by
  cases u with
  | nil => exact absurd rfl hne
  | cons c u => exact h c List.mem_cons_self

namespace ClosingShape

variable {k sep p n rest k' sep' p' n' rest' : List Char}

theorem letters (h : ClosingShape k sep p n rest) : ∀ c ∈ k, isLetterOrDigit c = true := by
  rcases closingKeyword_shape h.keyword with ⟨c, t, rfl, hc, ht⟩
  intro d hd
  rcases List.mem_cons.1 hd with rfl | hd
  · exact letterOrDigit_of_letter (letter_of_begins hc)
  · exact letterOrDigit_of_letter (ht d hd).2

theorem sep_head (h : ClosingShape k sep p n rest) (x : List Char) :
    (sep ++ x).head?.all (fun c => !isLetterOrDigit c) = true :=
  head_all_append x h.sep_ne fun c hc => by
    rw [not_letterOrDigit_of_separator (h.sep_all c hc), Bool.not_false]

theorem prefix_head (h : ClosingShape k sep p n rest) (x : List Char) :
    (p ++ x).head?.all (fun c => !isSeparator c) = true :=
  head_all_append x h.tail.prefix_ne fun c hc => by
    rw [not_separator_of_letterOrDigit (h.tail.prefix_all c hc), Bool.not_false]

/-- The keyword ends where letters do, the separators where they do, and so on to the digits. -/
theorem unique (h : ClosingShape k sep p n rest) (h' : ClosingShape k' sep' p' n' rest')
    (heq : k ++ (sep ++ (p ++ '-' :: (n ++ rest))) = k' ++ (sep' ++ (p' ++ '-' :: (n' ++ rest')))) :
    p = p' ∧ n = n' := by
  rcases Regex.run_unique h.letters h'.letters (h.sep_head _) (h'.sep_head _) heq with ⟨-, heq⟩
  rcases Regex.run_unique h.sep_all h'.sep_all (h.prefix_head _) (h'.prefix_head _) heq with
    ⟨-, heq⟩
  rcases Regex.run_unique h.tail.prefix_all h'.tail.prefix_all (by simp; decide)
    (by simp; decide) heq with ⟨hp, heq⟩
  rcases Regex.run_unique h.tail.number_all h'.tail.number_all h.tail.ended h'.tail.ended
    (List.cons.inj heq).2 with ⟨hn, -⟩
  exact ⟨hp, hn⟩

end ClosingShape

/-- No closing keyword with its identifier starts inside another one: not among the letters of the
keyword, the separators or the digits, and in the prefix no separator would follow it. -/
theorem closing_apart {k sep p n rest u v : List Char} (h : ClosingShape k sep p n rest)
    (hw : k ++ (sep ++ (p ++ '-' :: n)) = u ++ v) (hu : u ≠ []) (hv : v ≠ [])
    {k' sep' p' n' rest' : List Char} (h' : ClosingShape k' sep' p' n' rest') :
    v ++ rest ≠ k' ++ (sep' ++ (p' ++ '-' :: n')) ++ rest' := by
  intro heq
  rcases closingKeyword_shape h'.keyword with ⟨c', t', hk', hc', -⟩
  have hfirst (x y : List Char) (hx : x ≠ []) (hvx : v = x ++ y)
      (hno : ∀ d ∈ x, beginsKeyword d = false) : False := by
    cases x with
    | nil => exact hx rfl
    | cons d x =>
      rw [hvx, hk'] at heq
      simp only [List.cons_append, List.cons.injEq] at heq
      have hd := hno d List.mem_cons_self
      rw [heq.1, hc'] at hd
      cases hd
  have hprefix (x : List Char) (hx : ∀ c ∈ x, isLetterOrDigit c = true)
      (hvx : v = x ++ '-' :: n) : False := by
    simp only [hvx, List.append_assoc] at heq
    rcases Regex.run_unique hx h'.letters rfl (h'.sep_head _) heq with ⟨-, heq⟩
    cases sep' with
    | nil => exact h'.sep_ne rfl
    | cons e sep' =>
      have he := h'.sep_all e List.mem_cons_self
      rw [← (List.cons.inj heq).1] at he
      exact absurd he (by decide)
  rcases List.append_eq_append_iff.1 hw with ⟨a, -, hav⟩ | ⟨a, hka, hva⟩
  · rcases List.append_eq_append_iff.1 hav with ⟨b, -, hbv⟩ | ⟨b, hsb, hvb⟩
    · rcases List.append_eq_append_iff.1 hbv with ⟨d, -, hdv⟩ | ⟨d, hpd, hvd⟩
      · cases d with
        | nil => exact hprefix [] (fun _ hc => by cases hc) hdv.symm
        | cons e d =>
          refine hfirst v [] hv (List.append_nil v).symm fun c hc => ?_
          have hn := (List.cons.inj hdv).2
          exact not_begins_of_digit (h.tail.number_all c (hn ▸ List.mem_append_right d hc))
      · exact hprefix d (fun c hc => h.tail.prefix_all c (hpd ▸ List.mem_append_right b hc)) hvd
    · by_cases hb : b = []
      · exact hprefix p h.tail.prefix_all (by rw [hvb, hb, List.nil_append])
      · refine hfirst b _ hb hvb fun c hc => Bool.eq_false_iff.2 fun hbegins => ?_
        have hsep := h.sep_all c (hsb ▸ List.mem_append_right a hc)
        have hno := not_letterOrDigit_of_separator hsep
        rw [letterOrDigit_of_letter (letter_of_begins hbegins)] at hno
        cases hno
  · by_cases ha : a = []
    · refine hfirst sep (p ++ '-' :: n) h.sep_ne (by rw [hva, ha, List.nil_append]) fun c hc =>
        Bool.eq_false_iff.2 fun hbegins => ?_
      have hno := not_letterOrDigit_of_separator (h.sep_all c hc)
      rw [letterOrDigit_of_letter (letter_of_begins hbegins)] at hno
      cases hno
    · rcases closingKeyword_shape h.keyword with ⟨c, t, rfl, -, ht⟩
      refine hfirst a _ ha hva fun d hd => ?_
      cases u with
      | nil => exact absurd rfl hu
      | cons e u =>
        have ht' := (List.cons.inj hka).2
        exact (ht d (ht' ▸ List.mem_append_right u hd)).1

theorem closing_plain : closingIdentifierRe.Plain where
  ne_nil h := by
    rcases closing_matches h with ⟨k, sep, p, n, rfl, -, -⟩
    simp
  captures h h' heq := by
    rcases closing_matches h with ⟨k, sep, p, n, rfl, rfl, hshape⟩
    rcases closing_matches h' with ⟨k', sep', p', n', rfl, rfl, hshape'⟩
    simp only [List.append_assoc, List.cons_append] at heq
    rcases hshape.unique hshape' heq with ⟨rfl, rfl⟩
    rfl
  apart h hu hv heq h' := by
    rcases closing_matches h with ⟨k, sep, p, n, hw, -, hshape⟩
    rcases closing_matches h' with ⟨k', sep', p', n', rfl, -, hshape'⟩
    exact closing_apart hshape hw.symm hu hv hshape' heq

/-- Somewhere in the text a closing keyword stands before the identifier. -/
def ClosesIn (text : String) (id : Identifier) : Prop :=
  ∃ cs, closingIdentifierRe.Occurs text.toList cs ∧ Identifier.ofMatch cs = some id

theorem mem_extractClosingIdentifiers {parts : List String} {id : Identifier} :
    id ∈ extractClosingIdentifiers parts ↔ ∃ src ∈ parts, ClosesIn src id := by
  simp only [extractClosingIdentifiers, extract, List.mem_eraseDups, List.mem_flatMap,
    List.mem_filterMap, Regex.mem_findAll closing_plain, ClosesIn]

/-- The keyword has to stand directly before the identifier. -/
example : extractClosingIdentifiers ["Fixes mul-7", "Fix login MUL-8"] =
    [⟨['M', 'U', 'L'], ['7']⟩] := by
  decide

end Orynx.GitHub
