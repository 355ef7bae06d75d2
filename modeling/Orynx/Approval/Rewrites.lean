import Mathlib.Data.List.Find
import Orynx.Approval.Gate
import Orynx.Lib.Respaced

/-! # Rewrites of a command

Commands that differ in their spaces only have one action key, but the classifier reads the spaces.

* `solid_of_rule`: no pattern starts or ends with a space, and what it finds in a command it finds
  in the command with its spaces collapsed;
* `rewrites_iff`: all commands with the key of a command are classified alike if and only if a
  pattern decides that has no space in it, or none does; and they are in any case if their spaces
  are blanks, tabs, form feeds and carriage returns.
-/

namespace Orynx.Approval

open Lib Lib.Regex

/-! ## Characters -/

theorem isWord_of_isSpace (c : Char) (h : isSpace c = true) : isWord c = false := by
  have hascii := isSpace_ascii h
  have hnat : c.val.toNat = c.toNat := rfl
  show (decide (c.val ≥ 'A'.val ∧ c.val ≤ 'Z'.val) ||
    (decide (c.val ≥ 'a'.val) && decide (c.val ≤ 'z'.val)) ||
    (decide (c.val ≥ '0'.val) && decide (c.val ≤ '9'.val)) || c == '_') = false
  simp only [Bool.or_eq_false_iff, Bool.and_eq_false_iff, decide_eq_false_iff_not,
    beq_eq_false_iff_ne, ge_iff_le, UInt32.le_iff_toNat_le, hnat]
  refine ⟨⟨⟨?_, ?_⟩, ?_⟩, ?_⟩
  · show ¬(65 ≤ c.toNat ∧ c.toNat ≤ 90)
    omega
  · show ¬97 ≤ c.toNat ∨ ¬c.toNat ≤ 122
    omega
  · show ¬48 ≤ c.toNat ∨ ¬c.toNat ≤ 57
    omega
  · rintro rfl
    revert h
    decide

/-- A space stands for itself under `(?i)`. -/
theorem foldChar_of_isSpace {c : Char} (h : isSpace c = true) : foldChar c = c := by
  unfold foldChar
  split
  · rename_i hc
    subst hc
    revert h
    decide
  · split
    · rename_i hc
      subst hc
      revert h
      decide
    · rcases toLower_eq_or c with hc | ⟨hlow, hhigh, -⟩
      · exact hc
      · rcases isSpace_ascii h with hc | hc
        · omega
        · omega

theorem isSpace_of_isBlank (c : Char) (h : isBlank c = true) : isSpace c = true := by
  simp only [isBlank, Bool.or_eq_true, beq_iff_eq] at h
  rcases h with (((rfl | rfl) | rfl) | rfl) | rfl
  · rfl
  · rfl
  · rfl
  · rfl
  · rfl

/-- What is no space is spelled with what is none. -/
theorem foldChar_nonspace {c : Char} (hc : isSpace c = false) (d : Char)
    (h : (foldChar d == c) = true) : isSpace d = false := by
  cases hd : isSpace d with
  | false => rfl
  | true =>
    rw [foldChar_of_isSpace hd, beq_iff_eq] at h
    rw [h, hc] at hd
    cases hd

/-! ## Runs of spaces -/

/-- What a run of spaces has to keep for the patterns: that it consists of blanks, that no line ends
in it, or only with its last character, and that it ends with a blank. -/
structure Inline (a b : List Char) : Prop where
  blanks : (∀ c ∈ a, isBlank c = true) → ∀ c ∈ b, isBlank c = true
  line : (∀ c ∈ a, (c != '\n') = true) → ∀ c ∈ b, (c != '\n') = true
  last : ∀ x s, a = x ++ [s] → isBlank s = true → (∀ c ∈ x, (c != '\n') = true) →
    ∃ x' s', b = x' ++ [s'] ∧ isBlank s' = true ∧ ∀ c ∈ x', (c != '\n') = true

/-- One blank keeps everything. -/
theorem inline_blank (a : List Char) : Inline a [' '] where
  blanks _ := by simp [isBlank]
  line _ := by simp
  last x s _ _ _ := ⟨[], ' ', rfl, rfl, by simp⟩

/-- The spaces that the patterns take for blanks within a line. -/
def plainSpace (c : Char) : Bool := isBlank c && c != '\n'

theorem inline_plain {b : List Char} (hne : b ≠ []) (hb : ∀ c ∈ b, plainSpace c = true)
    (a : List Char) : Inline a b where
  blanks _ c hc := (Bool.and_eq_true_iff.1 (hb c hc)).1
  line _ c hc := (Bool.and_eq_true_iff.1 (hb c hc)).2
  last x s _ _ _ := by
    refine ⟨b.dropLast, b.getLast hne, (List.dropLast_append_getLast hne).symm, ?_, fun c hc => ?_⟩
    · exact (Bool.and_eq_true_iff.1 (hb _ (List.getLast_mem hne))).1
    · exact (Bool.and_eq_true_iff.1 (hb c (List.dropLast_subset b hc))).2

/-! ## Patterns -/

section Solid

variable {G : List Char → List Char → Prop}

/-- The letters of a word. -/
def Spelled (w : String) : Prop := w.toList ≠ [] ∧ ∀ c ∈ w.toList, isSpace c = false

instance (w : String) : Decidable (Spelled w) :=
  have : Decidable (∀ c ∈ w.toList, isSpace c = false) := List.decidableBAll _ _
  inferInstanceAs (Decidable (_ ∧ _))

/-- The words of the patterns. -/
def words : List String :=
  ["sudo", "drop", "truncate", "table", "database", "schema", "alembic", "downgrade", "git",
    "push", "--force", "--force-with-lease", "-f", "npm", "publish", "twine", "upload", "cargo",
    "gem", "terraform", "apply", "kubectl", "delete", "aws", "configure", "gh", "auth",
    "credential", "ssh-keygen", "rm", "-r", "/etc/", "/home/", "~", "$home", "..", "stripe",
    "payment", "transfer", "payout", "withdraw", "pr", "merge", "branch", "-d", "upgrade",
    "migrate", "up"]

theorem spelled_of_mem : ∀ w ∈ words, Spelled w := by decide +kernel

theorem solid_literal {cs : List Char} (hne : cs ≠ []) (h : ∀ c ∈ cs, isSpace c = false) :
    Solid isSpace G (literal cs) := by
  induction cs with
  | nil => exact absurd rfl hne
  | cons c cs ih =>
    have hc := foldChar_nonspace (h c List.mem_cons_self)
    cases cs with
    | nil =>
      exact {
        starts := (starts_set hc).seq
        ends := (ends_set hc).empty
        carries := (carries_set hc).seq carries_empty }
    | cons d cs =>
      have hrest := ih (List.cons_ne_nil d cs) fun e he => h e (List.mem_cons_of_mem c he)
      exact {
        starts := (starts_set hc).seq
        ends := hrest.ends.seq
        carries := (carries_set hc).seq hrest.carries }

theorem solid_oneOf {rs : List Regex} (hne : rs ≠ []) (h : ∀ r ∈ rs, Solid isSpace G r) :
    Solid isSpace G (oneOf rs) := by
  induction rs with
  | nil => exact absurd rfl hne
  | cons r rs ih =>
    cases rs with
    | nil => exact h r List.mem_cons_self
    | cons r' rs =>
      exact (h r List.mem_cons_self).alt
        (ih (List.cons_ne_nil r' rs) fun q hq => h q (List.mem_cons_of_mem r hq))

variable (hG : ∀ a b, G a b → Inline a b)

include hG

/-- Two expressions with `\s+` between them. -/
theorem solid_blanks {r r' : Regex} (h : Solid isSpace G r) (h' : Solid isSpace G r') :
    Solid isSpace G (.seq r (.seq (.many isBlank 1 none) r')) :=
  h.blanks isWord_of_isSpace isSpace_of_isBlank (fun a b hab => (hG a b hab).blanks) h'

theorem solid_phrase (ws : List String) (hne : ws ≠ []) (h : ws ⊆ words) :
    Solid isSpace G (phrase ws) := by
  induction ws with
  | nil => exact absurd rfl hne
  | cons w ws ih =>
    have hw := spelled_of_mem w (h List.mem_cons_self)
    cases ws with
    | nil => exact solid_literal hw.1 hw.2
    | cons v vs =>
      exact solid_blanks hG (solid_literal hw.1 hw.2)
        (ih (List.cons_ne_nil v vs) fun x hx => h (List.mem_cons_of_mem w hx))

/-- Words one of which is found, each with `\s+` inside. -/
theorem solid_phrases (wss : List (List String)) (hne : wss ≠ [])
    (h : ∀ ws ∈ wss, ws ≠ [] ∧ ws ⊆ words) :
    Solid isSpace G (oneOf (wss.map phrase)) := by
  refine solid_oneOf (mt List.map_eq_nil_iff.1 hne) fun r hr => ?_
  rcases List.mem_map.1 hr with ⟨ws, hws, rfl⟩
  exact solid_phrase hG ws (h ws hws).1 (h ws hws).2

theorem solid_rmRf : Solid isSpace G rmRf := by
  have hphrase := solid_phrase hG ["rm", "-r"] (by decide) (by simp [words])
  have hf := foldChar_nonspace (c := 'f') (by decide)
  exact {
    starts := hphrase.starts.seq
    ends := hphrase.ends.many hf
    carries := hphrase.carries.seq (carries_optional hf) }

/-- A flag behind `git push`: a blank belongs to one of its forms. -/
theorem carries_forceFlag : Carries isSpace G (.seq restOfLine forceFlag) := by
  have hline : ∀ a b, G a b → (∀ c ∈ a, (c != '\n') = true) → ∀ c ∈ b, (c != '\n') = true :=
    fun a b hab => (hG a b hab).line
  have hword (w : String) (hw : w ∈ words) :
      Solid isSpace G (.seq (phrase [w]) .wordBoundary) :=
    (solid_literal (spelled_of_mem w hw).1 (spelled_of_mem w hw).2).boundary isWord_of_isSpace
  have hforce := hword "--force" (by simp [words])
  have hlease := hword "--force-with-lease" (by simp [words])
  have hshort := hword "-f" (by simp [words])
  exact (hforce.carries.anything isWord_of_isSpace hline hforce.starts).seq_alt
    ((hlease.carries.anything isWord_of_isSpace hline hlease.starts).seq_alt
      (hshort.carries.anything_blank isWord_of_isSpace isSpace_of_isBlank hline
        (fun a b hab => (hG a b hab).last) hshort.starts))

theorem solid_forcePush :
    Solid isSpace G (.seq (whole (phrase ["git", "push"])) (.seq restOfLine forceFlag)) := by
  have hpush := (solid_phrase hG ["git", "push"] (by decide) (by simp [words])).whole
    isWord_of_isSpace
  have hends (w : String) (hw : w ∈ words) : Ends isSpace (.seq (phrase [w]) .wordBoundary) :=
    (solid_literal (G := G) (spelled_of_mem w hw).1 (spelled_of_mem w hw).2).ends.boundary
  exact {
    starts := hpush.starts.seq
    ends := ((hends "--force" (by simp [words])).alt
      ((hends "--force-with-lease" (by simp [words])).alt
        (hends "-f" (by simp [words])).seq)).seq.seq
    carries := hpush.carries.seq (carries_forceFlag hG) }

theorem solid_destructiveDelete : Solid isSpace G (.seq (whole rmRf) (.seq restOfLine
    (oneOf [phrase ["/etc/"], phrase ["/home/"], phrase ["~"], phrase ["$home"],
      phrase [".."]]))) := by
  have hrm := (solid_rmRf hG).whole isWord_of_isSpace
  have hplace := solid_phrases hG [["/etc/"], ["/home/"], ["~"], ["$home"], [".."]]
    (by decide) (by simp [words])
  exact {
    starts := hrm.starts.seq
    ends := hplace.ends.seq.seq
    carries := hrm.carries.seq (hplace.carries.anything isWord_of_isSpace
      (fun a b hab => (hG a b hab).line) hplace.starts) }

/-- No pattern starts or ends with a space, and each is carried over. -/
theorem solid_of_security {p : Pattern} (hp : p ∈ securityPatterns) : Solid isSpace G p.re := by
  simp only [securityPatterns, List.mem_cons, List.not_mem_nil, or_false] at hp
  rcases hp with rfl | rfl | rfl | rfl | rfl | rfl | rfl | rfl | rfl | rfl
  · exact (solid_phrase hG _ (by decide) (by simp [words])).whole isWord_of_isSpace
  · exact (solid_blanks hG (solid_phrases hG [["drop"], ["truncate"]] (by decide)
      (by simp [words])) (solid_phrases hG [["table"], ["database"], ["schema"]]
      (by decide) (by simp [words]))).whole isWord_of_isSpace
  · exact (solid_phrase hG _ (by decide) (by simp [words])).whole isWord_of_isSpace
  · exact solid_forcePush hG
  · exact (solid_phrases hG [["npm", "publish"], ["twine", "upload"],
      ["cargo", "publish"], ["gem", "push"]] (by decide) (by simp [words])).whole
      isWord_of_isSpace
  · exact (solid_phrase hG _ (by decide) (by simp [words])).whole isWord_of_isSpace
  · exact (solid_blanks hG (solid_phrase hG _ (by decide) (by simp [words]))
      (solid_phrases hG [["apply"], ["delete"]] (by decide) (by simp [words]))).whole
      isWord_of_isSpace
  · exact (solid_phrases hG [["aws", "configure"], ["gh", "auth"],
      ["git", "credential"], ["ssh-keygen"]] (by decide) (by simp [words])).whole
      isWord_of_isSpace
  · exact solid_destructiveDelete hG
  · exact (solid_phrases hG [["stripe"], ["payment"], ["transfer"], ["payout"],
      ["withdraw"]] (by decide) (by simp [words])).whole isWord_of_isSpace

theorem solid_of_operational {p : Pattern} (hp : p ∈ operationalPatterns) :
    Solid isSpace G p.re := by
  simp only [operationalPatterns, List.mem_cons, List.not_mem_nil, or_false] at hp
  rcases hp with rfl | rfl | rfl | rfl
  · exact (solid_phrase hG _ (by decide) (by simp [words])).whole isWord_of_isSpace
  · exact (solid_phrase hG _ (by decide) (by simp [words])).whole isWord_of_isSpace
  · exact (solid_phrase hG _ (by decide) (by simp [words])).whole isWord_of_isSpace
  · exact (solid_phrases hG [["alembic", "upgrade"], ["migrate", "up"]] (by decide)
      (by simp [words])).whole isWord_of_isSpace

end Solid

/-! ## The rules in order -/

/-- The patterns with their tiers, in the order in which they are tried. -/
def rules : List (Tier × Pattern) :=
  securityPatterns.map (.security, ·) ++ operationalPatterns.map (.operational, ·)

/-- What the first rule that finds something says. -/
def verdict (cmd : List Char) : Tier × ActionClass :=
  ((rules.find? fun x => x.2.re.isMatch cmd).map fun x => (x.1, x.2.actionClass)).getD
    (.security, .unclassified)

theorem classifyCommand_eq (cmd : String) : classifyCommand cmd = verdict cmd.toList := by
  have htier (t : Tier) (ps : List Pattern) :
      (ps.map (t, ·)).find? (fun x => x.2.re.isMatch cmd.toList) =
        (ps.find? fun p => p.matches cmd).map (t, ·) := by
    rw [List.find?_map]
    rfl
  rw [classifyCommand, verdict, rules, List.find?_append, htier, htier]
  cases securityPatterns.find? fun p => p.matches cmd with
  | some p => rfl
  | none =>
    cases operationalPatterns.find? fun p => p.matches cmd with
    | some p => rfl
    | none => rfl

/-- What a pattern finds without a space: the words of its class, where it has any. -/
def singleWords : ActionClass → Option Regex
  | .boxSecurity => some (whole (phrase ["sudo"]))
  | .credentialChange => some (whole (phrase ["ssh-keygen"]))
  | .spend => some (whole (oneOf [phrase ["stripe"], phrase ["payment"], phrase ["transfer"],
      phrase ["payout"], phrase ["withdraw"]]))
  | _ => none

/-- The first rule that finds something in the normalised command finds a single word, or none finds
anything. -/
def steady (cmd : List Char) : Bool :=
  (rules.find? fun x => x.2.re.isMatch cmd).all fun x =>
    (singleWords x.2.actionClass).any (·.isMatch cmd)

section Rules

variable {x : Tier × Pattern} {G : List Char → List Char → Prop}

theorem solid_of_rule (hG : ∀ a b, G a b → Inline a b) (hx : x ∈ rules) :
    Solid isSpace G x.2.re := by
  rcases List.mem_append.1 hx with hx | hx
  · rcases List.mem_map.1 hx with ⟨p, hp, rfl⟩
    exact solid_of_security hG hp
  · rcases List.mem_map.1 hx with ⟨p, hp, rfl⟩
    exact solid_of_operational hG hp

/-- Single words are carried over whatever becomes of the spaces. -/
theorem solid_singleWords {c : ActionClass} {r : Regex} (h : singleWords c = some r) :
    Solid isSpace G r := by
  have hword (w : String) (hw : w ∈ words) : Solid isSpace G (phrase [w]) :=
    solid_literal (spelled_of_mem w hw).1 (spelled_of_mem w hw).2
  cases c with
  | boxSecurity =>
    obtain rfl := Option.some.inj h
    exact (hword "sudo" (by simp [words])).whole isWord_of_isSpace
  | credentialChange =>
    obtain rfl := Option.some.inj h
    exact (hword "ssh-keygen" (by simp [words])).whole isWord_of_isSpace
  | spend =>
    obtain rfl := Option.some.inj h
    refine (solid_oneOf (List.cons_ne_nil _ _) fun r hr => ?_).whole isWord_of_isSpace
    simp only [List.mem_cons, List.not_mem_nil, or_false] at hr
    rcases hr with rfl | rfl | rfl | rfl | rfl
    · exact hword "stripe" (by simp [words])
    · exact hword "payment" (by simp [words])
    · exact hword "transfer" (by simp [words])
    · exact hword "payout" (by simp [words])
    · exact hword "withdraw" (by simp [words])
  | _ => cases h

/-! ### What needs a blank -/

/-- Every match has a blank in it. -/
def NeedsBlank (r : Regex) : Prop :=
  ∀ ⦃prev w rest cs⦄, r.Matches prev w rest cs → ∃ c ∈ w, isBlank c = true

theorem needsBlank_blanks (r r' : Regex) :
    NeedsBlank (.seq r (.seq (.many isBlank 1 none) r')) := by
  rintro prev w rest cs ⟨u, v, cu, cv, rfl, -, -, y, z, cy, cz, rfl, -, ⟨hlo, -, hall, -⟩, -⟩
  obtain ⟨c, y, rfl⟩ := List.exists_cons_of_ne_nil (List.ne_nil_of_length_pos hlo)
  exact ⟨c, by simp, hall c List.mem_cons_self⟩

theorem NeedsBlank.whole {r : Regex} (h : NeedsBlank r) : NeedsBlank (whole r) := by
  rintro prev w rest cs ⟨u, v, cu, cv, rfl, -, -, y, z, cy, cz, rfl, -, hy, -⟩
  rcases h hy with ⟨c, hc, hblank⟩
  exact ⟨c, by simp [hc], hblank⟩

theorem NeedsBlank.seq {r r' : Regex} (h : NeedsBlank r) : NeedsBlank (.seq r r') := by
  rintro prev w rest cs ⟨u, v, cu, cv, rfl, -, hu, -⟩
  rcases h hu with ⟨c, hc, hblank⟩
  exact ⟨c, List.mem_append_left v hc, hblank⟩

theorem NeedsBlank.alt {r r' : Regex} (h : NeedsBlank r) (h' : NeedsBlank r') :
    NeedsBlank (.alt r r') := by
  rintro prev w rest cs (hr | hr)
  · exact h hr
  · exact h' hr

theorem needsBlank_phrase (w v : String) (ws : List String) : NeedsBlank (phrase (w :: v :: ws)) :=
  needsBlank_blanks _ _

theorem needsBlank_forcePush {r : Regex} :
    NeedsBlank (.seq (whole (phrase ["git", "push"])) r) :=
  (needsBlank_phrase "git" "push" []).whole.seq

theorem needsBlank_destructiveDelete {r : Regex} : NeedsBlank (.seq (whole rmRf) r) :=
  (needsBlank_phrase "rm" "-r" []).seq.whole.seq

/-- In a text without blanks a rule finds single words only. -/
theorem singleWords_of_match (hx : x ∈ rules) {prev : Option Char} {w rest : List Char}
    {cs : List (List Char)} (hw : ∀ c ∈ w, isBlank c = false)
    (h : x.2.re.Matches prev w rest cs) :
    ∃ r, singleWords x.2.actionClass = some r ∧ r.Matches prev w rest cs := by
  have hno {r : Regex} {q : Option Char} {y z : List Char} {ds : List (List Char)}
      (hr : NeedsBlank r) (hy : ∀ c ∈ y, isBlank c = false) : ¬r.Matches q y z ds := by
    intro hm
    rcases hr hm with ⟨c, hc, hblank⟩
    rw [hy c hc] at hblank
    cases hblank
  simp only [rules, securityPatterns, operationalPatterns, List.map_cons, List.map_nil,
    List.cons_append, List.nil_append, List.mem_cons, List.not_mem_nil, or_false] at hx
  rcases hx with rfl | rfl | rfl | rfl | rfl | rfl | rfl | rfl | rfl | rfl | rfl | rfl | rfl | rfl
  · exact ⟨_, rfl, h⟩
  · exact absurd h (hno (needsBlank_blanks _ _).whole hw)
  · exact absurd h (hno (needsBlank_phrase _ _ _).whole hw)
  · exact absurd h (hno needsBlank_forcePush hw)
  · exact absurd h (hno ((needsBlank_phrase _ _ _).alt ((needsBlank_phrase _ _ _).alt
      ((needsBlank_phrase _ _ _).alt (needsBlank_phrase _ _ _)))).whole hw)
  · exact absurd h (hno (needsBlank_phrase _ _ _).whole hw)
  · exact absurd h (hno (needsBlank_blanks _ _).whole hw)
  · -- of the four alternatives three have a blank
    rcases h with ⟨u, v, cu, cv, rfl, rfl, hu, y, z, cy, cz, rfl, rfl, hy, hz⟩
    have hyw : ∀ c ∈ y, isBlank c = false := fun c hc =>
      hw c (List.mem_append_right u (List.mem_append_left z hc))
    rcases hy with hy | hy | hy | hy
    · exact absurd hy (hno (needsBlank_phrase _ _ _) hyw)
    · exact absurd hy (hno (needsBlank_phrase _ _ _) hyw)
    · exact absurd hy (hno (needsBlank_phrase _ _ _) hyw)
    · exact ⟨_, rfl, u, y ++ z, cu, cy ++ cz, rfl, rfl, hu, y, z, cy, cz, rfl, rfl, hy, hz⟩
  · exact absurd h (hno needsBlank_destructiveDelete hw)
  · exact ⟨_, rfl, h⟩
  · exact absurd h (hno (needsBlank_phrase _ _ _).whole hw)
  · exact absurd h (hno (needsBlank_phrase _ _ _).whole hw)
  · exact absurd h (hno (needsBlank_phrase _ _ _).whole hw)
  · exact absurd h (hno ((needsBlank_phrase _ _ _).alt (needsBlank_phrase _ _ _)).whole hw)

/-- What finds a single word finds what its rule looks for. -/
theorem match_of_singleWords (hx : x ∈ rules) {r : Regex}
    (hr : singleWords x.2.actionClass = some r) {cmd : List Char} (h : r.isMatch cmd = true) :
    x.2.re.isMatch cmd = true := by
  rcases isMatch_iff.1 h with ⟨cs, before, w, rest, hcmd, hm⟩
  refine isMatch_iff.2 ⟨cs, before, w, rest, hcmd, ?_⟩
  simp only [rules, securityPatterns, operationalPatterns, List.map_cons, List.map_nil,
    List.cons_append, List.nil_append, List.mem_cons, List.not_mem_nil, or_false] at hx
  rcases hx with rfl | rfl | rfl | rfl | rfl | rfl | rfl | rfl | rfl | rfl | rfl | rfl | rfl | rfl
  · obtain rfl := Option.some.inj hr
    exact hm
  · cases hr
  · cases hr
  · cases hr
  · cases hr
  · cases hr
  · cases hr
  · obtain rfl := Option.some.inj hr
    rcases hm with ⟨u, v, cu, cv, rfl, rfl, hu, y, z, cy, cz, rfl, rfl, hy, hz⟩
    exact ⟨u, y ++ z, cu, cy ++ cz, rfl, rfl, hu, y, z, cy, cz, rfl, rfl,
      .inr (.inr (.inr hy)), hz⟩
  · cases hr
  · obtain rfl := Option.some.inj hr
    exact hm
  · cases hr
  · cases hr
  · cases hr
  · cases hr

end Rules

/-! ## Rewrites -/

/-- No command is of a class that no rule gives. -/
theorem rules_classified : ∀ x ∈ rules, x.2.actionClass ≠ .unclassified := by
  decide

/-- The spaces of the command are those that the patterns take for blanks within a line. -/
def plain (cmd : String) : Bool := cmd.toList.all fun c => !isSpace c || plainSpace c

section Commands

variable {cmd cmd' : String} {r : Regex}

theorem no_spaces : ∀ c ∈ ([] : List Char), isSpace c = true := by simp

/-- A command around its words, and the words with blanks between them. -/
theorem exists_words (cmd : String) : ∃ lead u trail, cmd.toList = lead ++ (u ++ trail) ∧
    (∀ c ∈ lead, isSpace c = true) ∧ (∀ c ∈ trail, isSpace c = true) ∧
      Respaced isSpace (Respaced.Blanked ' ' cmd.toList) u (normalize cmd) := by
  have hblank : isSpace ' ' = true := rfl
  rcases Respaced.exists_core hblank cmd.toList
    with ⟨lead, u, trail, hcmd, hlead, htrail, -, hr⟩
  exact ⟨lead, u, trail, hcmd, hlead, htrail, hr⟩

/-- What is found in a command is found in its normal form. -/
theorem isMatch_normalize (hr : Solid isSpace Inline r) (h : r.isMatch cmd.toList = true) :
    r.isMatch (normalize cmd) = true := by
  rcases exists_words cmd with ⟨lead, u, trail, hcmd, hlead, htrail, huv⟩
  rw [hcmd] at h
  have hinline : Respaced isSpace Inline u (normalize cmd) :=
    huv.mono fun a b _ _ hab => by rw [hab.2]; exact inline_blank a
  have hmatch := hr.isMatch isWord_of_isSpace hlead htrail no_spaces no_spaces hinline h
  rwa [List.nil_append, List.append_nil] at hmatch

/-- What is found in the normal form is found in the command, if its runs of spaces stand to a blank
as the expression needs it. -/
theorem isMatch_of_normalize {G : List Char → List Char → Prop} (hr : Solid isSpace G r)
    (hG : ∀ a, a ≠ [] → (∀ c ∈ a, isSpace c = true) → (∀ c ∈ a, c ∈ cmd.toList) → G [' '] a)
    (h : r.isMatch (normalize cmd) = true) : r.isMatch cmd.toList = true := by
  rcases exists_words cmd with ⟨lead, u, trail, hcmd, hlead, htrail, huv⟩
  have hback : Respaced isSpace G (normalize cmd) u :=
    (huv.mono fun a b ha has hab => by
      rw [hab.2]
      exact hG a ha has hab.1 : Respaced isSpace (fun a b => G b a) u (normalize cmd)).symm
  have hmatch := hr.isMatch isWord_of_isSpace no_spaces no_spaces hlead htrail hback
    (by rwa [List.nil_append, List.append_nil])
  rwa [← hcmd] at hmatch

theorem isMatch_plain (hcmd : plain cmd = true) (hr : Solid isSpace Inline r) :
    r.isMatch cmd.toList = r.isMatch (normalize cmd) := by
  refine Bool.eq_iff_iff.2 ⟨isMatch_normalize hr, isMatch_of_normalize hr fun a ha has hmem => ?_⟩
  refine inline_plain ha (fun c hc => ?_) _
  have hplain := List.all_eq_true.1 hcmd c (hmem c hc)
  rw [has c hc] at hplain
  exact hplain

theorem classifyCommand_plain (hcmd : plain cmd = true) :
    classifyCommand cmd = verdict (normalize cmd) := by
  rw [classifyCommand_eq, verdict, verdict, List.find?_congr fun x hx =>
    isMatch_plain hcmd (solid_of_rule (fun _ _ h => h) hx)]

/-- A rule that finds a single word in the normal form is the first for the command, too. -/
theorem classifyCommand_steady (h : steady (normalize cmd) = true) :
    classifyCommand cmd = verdict (normalize cmd) := by
  have hgrow : ∀ x ∈ rules, x.2.re.isMatch (normalize cmd) = false →
      x.2.re.isMatch cmd.toList = false := by
    intro x hx hno
    by_contra hyes
    rw [Bool.not_eq_false] at hyes
    rw [isMatch_normalize (solid_of_rule (fun _ _ h => h) hx) hyes] at hno
    cases hno
  rw [classifyCommand_eq, verdict, verdict]
  cases hfind : rules.find? fun x => x.2.re.isMatch (normalize cmd) with
  | none =>
    have hnone : rules.find? (fun x => x.2.re.isMatch cmd.toList) = none := by
      refine List.find?_eq_none.2 fun x hx => ?_
      rw [hgrow x hx (Bool.eq_false_iff.2 (List.find?_eq_none.1 hfind x hx))]
      exact Bool.false_ne_true
    rw [hnone]
  | some x =>
    have hx := List.mem_of_find?_eq_some hfind
    rcases List.find?_eq_some_iff_append.1 hfind with ⟨-, before, after, hrules, hbefore⟩
    rw [steady, hfind, Option.all_some] at h
    rcases (Option.any_eq_true _ _).1 h with ⟨r, hr, hmatch⟩
    have hcmd : r.isMatch cmd.toList = true :=
      isMatch_of_normalize (solid_singleWords (G := fun _ _ => True) hr)
        (fun _ _ _ _ => trivial) hmatch
    have hsome : rules.find? (fun x => x.2.re.isMatch cmd.toList) = some x := by
      refine List.find?_eq_some_iff_append.2
        ⟨match_of_singleWords hx hr hcmd, before, after, hrules, fun y hy => ?_⟩
      have hno := hbefore y hy
      rw [Bool.not_eq_true'] at hno ⊢
      refine hgrow y ?_ hno
      rw [hrules]
      exact List.mem_append_left _ hy
    rw [hsome]

/-! ### With no-break spaces -/

/-- The words of a command with no-break spaces between them. -/
def noBreak (cmd : String) : String :=
  String.ofList (Spaces.join (Char.ofNat 0xa0) (Spaces.words isSpace cmd.toList))

theorem normalize_noBreak (cmd : String) : normalize (noBreak cmd) = normalize cmd := by
  rw [normalize, noBreak, String.toList_ofList,
    Spaces.words_join (by decide) (Spaces.words_spec cmd.toList), normalize]

/-- There is no blank in it. -/
theorem noBreak_blank {c : Char} (hc : c ∈ (noBreak cmd).toList) : isBlank c = false := by
  rw [noBreak, String.toList_ofList] at hc
  rcases Spaces.mem_join _ hc with rfl | ⟨w, hw, hcw⟩
  · decide
  · have hspace := (Spaces.words_spec cmd.toList w hw).2 c hcw
    by_contra hblank
    rw [Bool.not_eq_false] at hblank
    rw [isSpace_of_isBlank c hblank] at hspace
    cases hspace

/-- If a rule that needs a blank decides, the command with no-break spaces is classified
otherwise. -/
theorem classifyCommand_noBreak (h : steady (normalize cmd) = false) :
    classifyCommand (noBreak cmd) ≠ verdict (normalize cmd) := by
  intro heq
  rw [classifyCommand_eq, verdict, verdict] at heq
  cases hfind : rules.find? fun x => x.2.re.isMatch (normalize cmd) with
  | none =>
    rw [steady, hfind] at h
    cases h
  | some x =>
    rw [hfind] at heq
    rw [steady, hfind, Option.all_some] at h
    have hx := List.mem_of_find?_eq_some hfind
    cases hfind' : rules.find? fun x => x.2.re.isMatch (noBreak cmd).toList with
    | none =>
      rw [hfind'] at heq
      exact rules_classified x hx (Prod.mk.inj heq).2.symm
    | some y =>
      rw [hfind'] at heq
      have hclass : y.2.actionClass = x.2.actionClass := (Prod.mk.inj heq).2
      have hmatch : y.2.re.isMatch (noBreak cmd).toList = true := by
        have hsome := List.find?_some hfind'
        exact hsome
      rcases isMatch_iff.1 hmatch with ⟨cs, before, w, rest, hcmd, hm⟩
      have hblank : ∀ c ∈ w, isBlank c = false := fun c hc => noBreak_blank (by
        rw [hcmd]
        exact List.mem_append_right _ (List.mem_append_left _ hc))
      rcases singleWords_of_match (List.mem_of_find?_eq_some hfind') hblank hm with ⟨r, hr, hrm⟩
      have hword : r.isMatch (normalize (noBreak cmd)) = true :=
        isMatch_normalize (solid_singleWords hr) (isMatch_iff.2 ⟨cs, before, w, rest, hcmd, hrm⟩)
      rw [normalize_noBreak] at hword
      rw [hclass] at hr
      rw [hr, Option.any_some, hword] at h
      cases h

/-! ### In the normal form -/

/-- The normal form as a command of its own. -/
def blanked (cmd : String) : String := String.ofList (normalize cmd)

theorem normalize_blanked (cmd : String) : normalize (blanked cmd) = normalize cmd := by
  rw [normalize, blanked, String.toList_ofList, normalize,
    Spaces.words_join (by decide) (Spaces.words_spec cmd.toList)]

theorem plain_blanked (cmd : String) : plain (blanked cmd) = true := by
  refine List.all_eq_true.2 fun c hc => ?_
  rw [blanked, String.toList_ofList, normalize] at hc
  rcases Spaces.mem_join _ hc with rfl | ⟨w, hw, hcw⟩
  · decide
  · rw [(Spaces.words_spec cmd.toList w hw).2 c hcw]
    rfl

end Commands

/-! ## The action key -/

theorem key_eq_iff {sha256 : ActionText → String} (hsha : Function.Injective sha256)
    {issueId : UUID} {cmd cmd' : String} :
    computeActionKey sha256 issueId cmd' = computeActionKey sha256 issueId cmd ↔
      normalize cmd' = normalize cmd := by
  rw [computeActionKey, computeActionKey, hsha.eq_iff, ActionText.mk.injEq]
  exact and_iff_right rfl

/-- The commands with the key of a command are all classified as it is if and only if a single word
decides, or nothing; and of two commands with one key and plain spaces each is classified as the
other. -/
theorem rewrites_iff (sha256 : ActionText → String) (hsha : Function.Injective sha256)
    (issueId : UUID) (cmd : String) :
    ((∀ cmd', computeActionKey sha256 issueId cmd' = computeActionKey sha256 issueId cmd →
        classifyCommand cmd' = classifyCommand cmd) ↔ steady (normalize cmd) = true) ∧
      (plain cmd = true → ∀ cmd', plain cmd' = true →
        computeActionKey sha256 issueId cmd' = computeActionKey sha256 issueId cmd →
          classifyCommand cmd' = classifyCommand cmd) := by
  refine ⟨⟨fun hall => ?_, fun hsteady cmd' hkey => ?_⟩, fun hcmd cmd' hcmd' hkey => ?_⟩
  · by_contra hno
    rw [Bool.not_eq_true] at hno
    have hword := hall (blanked cmd) ((key_eq_iff hsha).2 (normalize_blanked cmd))
    rw [classifyCommand_plain (plain_blanked cmd), normalize_blanked] at hword
    have hbreak := hall (noBreak cmd) ((key_eq_iff hsha).2 (normalize_noBreak cmd))
    exact classifyCommand_noBreak hno (hbreak.trans hword.symm)
  · rw [key_eq_iff hsha] at hkey
    rw [classifyCommand_steady hsteady, classifyCommand_steady (hkey ▸ hsteady), hkey]
  · rw [key_eq_iff hsha] at hkey
    rw [classifyCommand_plain hcmd, classifyCommand_plain hcmd', hkey]

/-- The text that is hashed, for a hash: the id, a colon and the command. -/
def textKey (t : ActionText) : String :=
  String.ofList (List.replicate t.issueId '0' ++ ':' :: t.command)

theorem textKey_injective : Function.Injective textKey := by
  intro t t' h
  have hlist : List.replicate t.issueId '0' ++ ':' :: t.command =
      List.replicate t'.issueId '0' ++ ':' :: t'.command := String.ofList_injective h
  have hzero (n : Nat) : ∀ c ∈ List.replicate n '0', (c == '0') = true := by
    intro c hc
    rw [List.eq_of_mem_replicate hc]
    rfl
  rcases run_unique (hzero t.issueId) (hzero t'.issueId) rfl rfl hlist with ⟨hid, hcommand⟩
  have hlen := congrArg List.length hid
  rw [List.length_replicate, List.length_replicate] at hlen
  cases t
  cases t'
  cases hlen
  cases hcommand
  rfl

/-- A command with more spaces is classified as the one with its key. -/
theorem rewrites_sudo :
    classifyCommand "sudo   git push" = classifyCommand "sudo git push" :=
  (rewrites_iff textKey textKey_injective 1 "sudo git push").1.2 (by decide +kernel)
    "sudo   git push" ((key_eq_iff textKey_injective).2 (by decide +kernel))

/-- A force push over two lines has the key of one in a line, and is a push that can be learned. -/
theorem force_push_over_lines :
    computeActionKey textKey 1 "git push origin main \\\n  --force" =
        computeActionKey textKey 1 "git push origin main \\ --force" ∧
      classifyCommand "git push origin main \\ --force" = (.security, .forcePush) ∧
      classifyCommand "git push origin main \\\n  --force" = (.operational, .gitPush) := by
  refine ⟨(key_eq_iff textKey_injective).2 ?_, ?_, ?_⟩
  · decide +kernel
  · decide +kernel
  · decide +kernel

end Orynx.Approval
