import Mathlib.Data.List.DropRight
import Mathlib.Data.List.TakeWhile

/-! # The lines of a TOML document

A line whose value, if it has one, ends on it: blank, a table's header, the header of an array's
next element, or a pair of a dotted key and a value. What stands behind the sign is read by a
function that is given.

* `dropWhile_skip`, `exists_skip_eq`: where a line is read, no other white space stands in front of
  it, and a text trimmed of any white space has the same tokens;
* `isHeader_iff`: a header is a line whose first token is a bracket;
* `readLine_table`, `readLine_element`, `readLine_pair`: a line in which bare keys are found with
  any white space around them is read with just these keys.
-/

namespace Lib.Toml

abbrev Key := List Char

inductive Entry (V : Type) where
  | blank
  | table (path : List Key)
  | element (path : List Key)
  | pair (path : List Key) (v : V)
deriving DecidableEq

def isBlank (c : Char) : Bool := c == ' ' || c == '\t'

def isBare (c : Char) : Bool := c.isAlphanum || c == '_' || c == '-'

def isControl (c : Char) : Bool := (decide (c.toNat < 32) && c != '\t') || c.toNat == 127

def doubleQuote : Char := '\x22'

def singleQuote : Char := '\x27'

def backslash : Char := '\x5c'

/-! ## Keys -/

def hexValue (c : Char) : Option Nat :=
  if '0' ≤ c ∧ c ≤ '9' then some (c.toNat - 48)
  else if 'a' ≤ c ∧ c ≤ 'f' then some (c.toNat - 87)
  else if 'A' ≤ c ∧ c ≤ 'F' then some (c.toNat - 55)
  else none

/-- The character that `n` hexadecimal digits stand for. -/
def scalar (n : Nat) (s : List Char) : Option (Char × List Char) :=
  if s.length < n then none
  else
    ((s.take n).foldlM (fun m c => (hexValue c).map (16 * m + ·)) 0).bind fun m =>
      if m.isValidChar then some (Char.ofNat m, s.drop n) else none

/-- What follows a backslash. -/
def readEscape : List Char → Option (Char × List Char)
  | [] => none
  | c :: s =>
    if c = 'u' then scalar 4 s
    else if c = 'U' then scalar 8 s
    else if c = 'b' then some (Char.ofNat 8, s)
    else if c = 't' then some ('\t', s)
    else if c = 'n' then some ('\n', s)
    else if c = 'f' then some (Char.ofNat 12, s)
    else if c = 'r' then some ('\r', s)
    else if c = doubleQuote ∨ c = backslash then some (c, s)
    else none

/-- The rest of a key in double quotes; each step takes a character. -/
def readBasic : Nat → List Char → Option (Key × List Char)
  | 0, _ => none
  | _ + 1, [] => none
  | n + 1, c :: s =>
    if c = doubleQuote then some ([], s)
    else if c = backslash then
      (readEscape s).bind fun e => (readBasic n e.2).map fun k => (e.1 :: k.1, k.2)
    else if isControl c then none
    else (readBasic n s).map fun k => (c :: k.1, k.2)

/-- The rest of a key in single quotes. -/
def readLiteral : List Char → Option (Key × List Char)
  | [] => none
  | c :: s =>
    if c = singleQuote then some ([], s)
    else if isControl c then none
    else (readLiteral s).map fun k => (c :: k.1, k.2)

def readKey : List Char → Option (Key × List Char)
  | [] => none
  | c :: s =>
    if c = doubleQuote then readBasic s.length s
    else if c = singleQuote then readLiteral s
    else if isBare c then some ((c :: s).takeWhile isBare, (c :: s).dropWhile isBare)
    else none

def skip (s : List Char) : List Char := s.dropWhile isBlank

/-- Keys with dots between them; each step takes a key. -/
def readPath : Nat → List Char → Option (List Key × List Char)
  | 0, _ => none
  | n + 1, s =>
    (readKey (skip s)).bind fun k =>
      if (skip k.2).head? = some '.' then
        (readPath n (skip k.2).tail).map fun p => (k.1 :: p.1, p.2)
      else some ([k.1], skip k.2)

/-! ## Lines -/

/-- Nothing but a comment. -/
def atEnd (s : List Char) : Bool :=
  match skip s with
  | [] => true
  | c :: s => c == '#' && !s.any isControl

/-- The file may end its lines with a carriage return, too. -/
def dropReturn (l : List Char) : List Char :=
  if l.getLast? = some '\r' then l.dropLast else l

variable {V : Type}

def readHeader (mk : List Key → Entry V) (close s : List Char) : Option (Entry V) :=
  (readPath s.length s).bind fun p =>
    if close.isPrefixOf p.2 ∧ atEnd (p.2.drop close.length) then some (mk p.1) else none

def readPair (read : List Char → Option V) (s : List Char) : Option (Entry V) :=
  (readPath s.length s).bind fun p =>
    if p.2.head? = some '=' then (read p.2.tail).map (.pair p.1) else none

def readLine (read : List Char → Option V) (l : List Char) : Option (Entry V) :=
  match skip (dropReturn l) with
  | [] => some .blank
  | c :: s =>
    if c = '#' then if s.any isControl then none else some .blank
    else if c = '[' then
      if s.head? = some '[' then readHeader .element [']', ']'] s.tail
      else readHeader .table [']'] s
    else readPair read (c :: s)

def Entry.isHeader : Entry V → Bool
  | .table _ | .element _ => true
  | .blank | .pair _ _ => false

/-! ## White space -/

def startsKey (c : Char) : Bool := isBare c || c == doubleQuote || c == singleQuote

def isToken (c : Char) : Bool :=
  startsKey c || c == '#' || c == '[' || c == ']' || c == '.' || c == '='

/-- White space of some kind: more than blanks perhaps, but nothing that a line is made of. -/
structure Space (P : Char → Bool) : Prop where
  blank : ∀ c, isBlank c = true → P c = true
  token : ∀ c, P c = true → isToken c = false

theorem isToken_of_bare {c : Char} (h : isBare c = true) : isToken c = true := by
  simp [isToken, startsKey, h]

theorem isToken_of_startsKey {c : Char} (h : startsKey c = true) : isToken c = true := by
  simp [isToken, h]

theorem Space.not_of_token {P : Char → Bool} (hP : Space P) {c : Char} (h : isToken c = true) :
    P c = false := by
  cases hc : P c with
  | false => rfl
  | true => rw [hP.token c hc] at h; cases h

variable {P : Char → Bool} {s : List Char}

theorem dropWhile_eq_skip (hP : Space P) (h : ∀ c r, skip s = c :: r → isToken c = true) :
    s.dropWhile P = skip s := by
  induction s with
  | nil => rfl
  | cons c s ih =>
    by_cases hc : isBlank c = true
    · have hs : skip (c :: s) = skip s := List.dropWhile_cons_of_pos hc
      rw [hs, List.dropWhile_cons_of_pos (hP.blank c hc)]
      exact ih fun d r hr => h d r (hs.trans hr)
    · have hs : skip (c :: s) = c :: s := List.dropWhile_cons_of_neg hc
      rw [hs, List.dropWhile_cons_of_neg]
      rw [hP.not_of_token (h c s hs)]
      exact Bool.false_ne_true

theorem readKey_starts {k : Key × List Char} (h : readKey s = some k) :
    ∃ c r, s = c :: r ∧ startsKey c = true := by
  cases s with
  | nil => cases h
  | cons c s =>
    refine ⟨c, s, rfl, ?_⟩
    by_contra hc
    simp only [startsKey, Bool.or_eq_true, beq_iff_eq, not_or] at hc
    rw [readKey, if_neg hc.1.2, if_neg hc.2, if_neg hc.1.1] at h
    cases h

theorem readPath_starts {n : Nat} {p : List Key × List Char} (h : readPath n s = some p) :
    ∃ c r, skip s = c :: r ∧ startsKey c = true := by
  cases n with
  | zero => cases h
  | succ n =>
    rcases Option.bind_eq_some_iff.1 h with ⟨k, hk, -⟩
    exact readKey_starts hk

theorem readPath_ne_nil {n : Nat} {p : List Key × List Char} (h : readPath n s = some p) :
    p.1 ≠ [] := by
  cases n with
  | zero => cases h
  | succ n =>
    rcases Option.bind_eq_some_iff.1 h with ⟨k, -, h⟩
    split at h
    · rcases Option.map_eq_some_iff.1 h with ⟨q, -, rfl⟩
      exact List.cons_ne_nil _ _
    · obtain rfl := Option.some.inj h
      exact List.cons_ne_nil _ _

variable {read : List Char → Option V} {l : List Char} {e : Entry V}

theorem readLine_starts (h : readLine read l = some e) {c : Char} {r : List Char}
    (hs : skip (dropReturn l) = c :: r) : c = '#' ∨ c = '[' ∨ startsKey c = true := by
  by_cases hhash : c = '#'
  · exact .inl hhash
  by_cases hopen : c = '['
  · exact .inr (.inl hopen)
  refine .inr (.inr ?_)
  simp only [readLine, hs, if_neg hhash, if_neg hopen] at h
  rcases Option.bind_eq_some_iff.1 h with ⟨p, hp, -⟩
  rcases readPath_starts hp with ⟨d, t, ht, hd⟩
  -- what was skipped does not start with a blank
  have hskip : skip (c :: r) = c :: r := by
    rw [← hs]
    exact List.dropWhile_idempotent _ _
  rw [hskip] at ht
  rw [(List.cons.inj ht).1]
  exact hd

theorem isToken_of_readLine (h : readLine read l = some e) {c : Char} {r : List Char}
    (hs : skip (dropReturn l) = c :: r) : isToken c = true := by
  rcases readLine_starts h hs with rfl | rfl | hc
  · rfl
  · rfl
  · exact isToken_of_startsKey hc

theorem dropWhile_skip (hP : Space P) (h : readLine read l = some e) :
    (dropReturn l).dropWhile P = skip (dropReturn l) :=
  dropWhile_eq_skip hP fun _ _ hs => isToken_of_readLine h hs

theorem readHeader_eq {mk : List Key → Entry V} {close : List Char}
    (h : readHeader mk close s = some e) :
    ∃ p, readPath s.length s = some p ∧ close <+: p.2 ∧ e = mk p.1 := by
  rcases Option.bind_eq_some_iff.1 h with ⟨p, hp, h⟩
  rcases Option.ite_none_right_eq_some.1 h with ⟨hclose, h⟩
  exact ⟨p, hp, List.isPrefixOf_iff_prefix.1 hclose.1, (Option.some.inj h).symm⟩

theorem readPair_eq (h : readPair read s = some e) :
    ∃ p v, readPath s.length s = some p ∧ p.2.head? = some '=' ∧ read p.2.tail = some v ∧
      e = .pair p.1 v := by
  rcases Option.bind_eq_some_iff.1 h with ⟨p, hp, h⟩
  rcases Option.ite_none_right_eq_some.1 h with ⟨hsign, h⟩
  rcases Option.map_eq_some_iff.1 h with ⟨v, hv, rfl⟩
  exact ⟨p, v, hp, hsign, hv, rfl⟩

/-- Headers have a key at least. -/
def Entry.Named : Entry V → Prop
  | .table p | .element p => p ≠ []
  | .blank | .pair _ _ => True

theorem named_of_readLine (h : readLine read l = some e) : e.Named := by
  cases hs : skip (dropReturn l) with
  | nil =>
    simp only [readLine, hs] at h
    obtain rfl := Option.some.inj h
    exact trivial
  | cons c s =>
    simp only [readLine, hs] at h
    split at h
    · split at h
      · cases h
      · obtain rfl := Option.some.inj h
        exact trivial
    · split at h
      · split at h <;> rcases readHeader_eq h with ⟨p, hp, -, rfl⟩ <;> exact readPath_ne_nil hp
      · rcases readPair_eq h with ⟨p, v, -, -, -, rfl⟩
        exact trivial

theorem path_ne_nil_of_readLine {p : List Key} {v : V} (h : readLine read l = some (.pair p v)) :
    p ≠ [] := by
  cases hs : skip (dropReturn l) with
  | nil =>
    simp only [readLine, hs] at h
    cases h
  | cons c s =>
    simp only [readLine, hs] at h
    split at h
    · split at h <;> cases h
    · split at h
      · split at h <;> rcases readHeader_eq h with ⟨q, -, -, hq⟩ <;> cases hq
      · rcases readPair_eq h with ⟨q, w, hq, -, -, heq⟩
        cases heq
        exact readPath_ne_nil hq

/-- A header is a line whose first token is a bracket. -/
theorem isHeader_iff (h : readLine read l = some e) :
    e.isHeader = true ↔ (skip (dropReturn l)).head? = some '[' := by
  cases hs : skip (dropReturn l) with
  | nil =>
    simp only [readLine, hs] at h
    obtain rfl := Option.some.inj h
    simp [Entry.isHeader]
  | cons c s =>
    simp only [readLine, hs] at h
    rw [List.head?_cons, Option.some_inj]
    by_cases hhash : c = '#'
    · rw [if_pos hhash] at h
      split at h
      · cases h
      · obtain rfl := Option.some.inj h
        simp [Entry.isHeader, hhash]
    rw [if_neg hhash] at h
    by_cases hopen : c = '['
    · rw [if_pos hopen] at h
      split at h <;> rcases readHeader_eq h with ⟨p, -, -, rfl⟩ <;> simp [Entry.isHeader, hopen]
    · rw [if_neg hopen] at h
      rcases readPair_eq h with ⟨p, v, -, -, -, rfl⟩
      simp [Entry.isHeader, hopen]

/-- A line read without its white space at either end has the same tokens. -/
theorem exists_skip_eq (hP : Space P) (hreturn : P '\r' = true) (h : readLine read l = some e) :
    ∃ t, (∀ c ∈ t, P c = true) ∧
      skip (dropReturn l) = (l.dropWhile P).rdropWhile P ++ t := by
  have htrim : (l.dropWhile P).rdropWhile P = ((dropReturn l).dropWhile P).rdropWhile P := by
    by_cases hl : l.getLast? = some '\r'
    · rw [dropReturn, if_pos hl]
      rcases List.getLast?_eq_some_iff.1 hl with ⟨x, rfl⟩
      rw [List.dropLast_concat, List.dropWhile_append]
      split
      · next hx =>
        rw [List.isEmpty_iff.1 hx, List.dropWhile_cons_of_pos hreturn]
        rfl
      · exact List.rdropWhile_concat_pos P _ _ hreturn
    · rw [dropReturn, if_neg hl]
  rw [htrim, dropWhile_skip hP h]
  exact ⟨(skip (dropReturn l)).rtakeWhile P, fun c hc => List.mem_rtakeWhile_imp hc,
    (List.rdropWhile_append_rtakeWhile ..).symm⟩

/-! ## Bare keys -/

/-- Bare keys with dots between them and white space around them, and what follows. -/
def Spells (P : Char → Bool) : List Key → List Char → List Char → Prop
  | [], _, _ => False
  | [k], s, r =>
    ∃ a b, s = a ++ (k ++ (b ++ r)) ∧ (∀ c ∈ a, P c = true) ∧ ∀ c ∈ b, P c = true
  | k :: k' :: ks, s, r =>
    ∃ a b t, s = a ++ (k ++ (b ++ '.' :: t)) ∧ (∀ c ∈ a, P c = true) ∧ (∀ c ∈ b, P c = true) ∧
      Spells P (k' :: ks) t r

def Bare (k : Key) : Prop := k ≠ [] ∧ ∀ c ∈ k, isBare c = true

theorem readKey_bare {k : Key} (hk : Bare k) {r : List Char}
    (hr : ∀ c ∈ r.head?, isBare c = false) : readKey (k ++ r) = some (k, r) := by
  rcases List.exists_cons_of_ne_nil hk.1 with ⟨c, k, rfl⟩
  have hc : isBare c = true := hk.2 c List.mem_cons_self
  have hrun : ((c :: k) ++ r).takeWhile isBare = c :: k ∧ ((c :: k) ++ r).dropWhile isBare = r := by
    rw [List.takeWhile_append_of_pos hk.2, List.dropWhile_append_of_pos hk.2]
    cases r with
    | nil => simp
    | cons d r => simp [hr d rfl]
  have hquotes : c ≠ doubleQuote ∧ c ≠ singleQuote := by
    constructor <;> rintro rfl <;> cases hc
  rw [List.cons_append] at hrun ⊢
  rw [readKey, if_neg hquotes.1, if_neg hquotes.2, if_pos hc, hrun.1, hrun.2]

/-- Behind a key the white space ends where the next token stands, or the line is not read. -/
theorem skip_spaces (hP : Space P) {b t : List Char} {d : Char} (hb : ∀ c ∈ b, P c = true)
    (hd : isToken d = true) (h : ∀ c ∈ (skip (b ++ d :: t)).head?, isToken c = true) :
    skip (b ++ d :: t) = d :: t := by
  rw [← dropWhile_eq_skip hP fun c r hs => h c (by rw [hs]; rfl), List.dropWhile_append_of_pos hb,
    List.dropWhile_cons_of_neg]
  rw [hP.not_of_token hd]
  exact Bool.false_ne_true

/-- The first key of what is spelled. -/
theorem readKey_spaces (hP : Space P) {a b t : List Char} {k : Key} {d : Char} (hk : Bare k)
    (ha : ∀ c ∈ a, P c = true) (hb : ∀ c ∈ b, P c = true) (hd : isBare d = false)
    {x : Key × List Char} (h : readKey (skip (a ++ (k ++ (b ++ d :: t)))) = some x) :
    x = (k, b ++ d :: t) := by
  rcases List.exists_cons_of_ne_nil hk.1 with ⟨c, k, rfl⟩
  have hc : isToken c = true := isToken_of_bare (hk.2 c List.mem_cons_self)
  rw [List.cons_append, skip_spaces hP ha hc, ← List.cons_append, readKey_bare hk] at h
  · exact (Option.some.inj h).symm
  · -- what follows the key is white space or the next token
    cases b with
    | nil => simpa using hd
    | cons e b =>
      rintro e' ⟨rfl⟩
      have he := hP.token e (hb e List.mem_cons_self)
      rw [isToken, startsKey] at he
      simp only [Bool.or_eq_false_iff] at he
      exact he.1.1.1.1.1.1.1
  · rcases readKey_starts h with ⟨e, r, he, hs⟩
    rintro e' he'
    rw [he] at he'
    obtain rfl := Option.some.inj he'
    exact isToken_of_startsKey hs

theorem readPath_spells (hP : Space P) {ks : List Key} (hks : ∀ k ∈ ks, Bare k) {n : Nat}
    {d : Char} {r : List Char} (hd : d = ']' ∨ d = '=') {p : List Key × List Char}
    (hspells : Spells P ks s (d :: r)) (h : readPath n s = some p)
    (hstop : ∃ c ∈ p.2.head?, isToken c = true) : p = (ks, d :: r) := by
  have htoken : isToken d = true := by rcases hd with rfl | rfl <;> rfl
  have hbare : isBare d = false := by rcases hd with rfl | rfl <;> rfl
  have hdot : d ≠ '.' := by rcases hd with rfl | rfl <;> decide
  induction n generalizing ks s p with
  | zero => cases h
  | succ n ih =>
    rcases Option.bind_eq_some_iff.1 h with ⟨x, hx, h⟩
    cases ks with
    | nil => cases hspells
    | cons k ks =>
      cases ks with
      | nil =>
        rcases hspells with ⟨a, b, rfl, ha, hb⟩
        obtain rfl := readKey_spaces hP (hks k List.mem_cons_self) ha hb hbare hx
        by_cases hnext : (skip (b ++ d :: r)).head? = some '.'
        · have hskip := skip_spaces hP hb htoken (by rw [hnext]; rintro c ⟨rfl⟩; rfl)
          rw [hskip] at hnext
          exact absurd (Option.some.inj hnext) hdot
        · dsimp only at h
          rw [if_neg hnext] at h
          obtain rfl := Option.some.inj h
          rcases hstop with ⟨c, hc, htok⟩
          rw [skip_spaces hP hb htoken]
          intro c' hc'
          rw [Option.mem_unique hc' hc]
          exact htok
      | cons k' ks =>
        rcases hspells with ⟨a, b, t, rfl, ha, hb, hrest⟩
        obtain rfl := readKey_spaces hP (hks k List.mem_cons_self) ha hb rfl hx
        dsimp only at h
        by_cases hnext : (skip (b ++ '.' :: t)).head? = some '.'
        · rw [if_pos hnext, skip_spaces hP hb rfl (by rw [hnext]; rintro c ⟨rfl⟩; rfl)] at h
          rcases Option.map_eq_some_iff.1 h with ⟨q, hq, rfl⟩
          rw [ih (fun k hk => hks k (List.mem_cons_of_mem _ hk)) hrest hq hstop]
        · -- the keys would have ended before the dot
          rw [if_neg hnext] at h
          obtain rfl := Option.some.inj h
          rcases hstop with ⟨c, hc, htok⟩
          have hskip := skip_spaces hP hb (d := '.') (t := t) rfl
            (fun c' hc' => by rw [Option.mem_unique hc' hc]; exact htok)
          rw [hskip] at hnext
          exact absurd rfl hnext

/-! ## Lines that are spelled with bare keys -/

theorem readLine_table (hP : Space P) {ks : List Key} (hks : ∀ k ∈ ks, Bare k)
    (h : readLine read l = some e) {r : List Char} (hs : skip (dropReturn l) = '[' :: s)
    (hspells : Spells P ks s (']' :: r)) (hsingle : s.head? ≠ some '[') : e = .table ks := by
  simp only [readLine, hs, if_neg hsingle] at h
  rw [if_neg (by decide), if_pos trivial] at h
  rcases readHeader_eq h with ⟨p, hp, hclose, rfl⟩
  have hstop : ∃ c ∈ p.2.head?, isToken c = true := by
    rcases hclose with ⟨t, ht⟩
    exact ⟨']', by rw [← ht]; rfl, rfl⟩
  rw [readPath_spells hP hks (.inl rfl) hspells hp hstop]

theorem readLine_element (hP : Space P) {ks : List Key} (hks : ∀ k ∈ ks, Bare k)
    (h : readLine read l = some e) {r : List Char} (hs : skip (dropReturn l) = '[' :: '[' :: s)
    (hspells : Spells P ks s (']' :: r)) : e = .element ks := by
  simp only [readLine, hs, List.head?_cons, List.tail_cons, if_true] at h
  rw [if_neg (by decide)] at h
  rcases readHeader_eq h with ⟨p, hp, hclose, rfl⟩
  have hstop : ∃ c ∈ p.2.head?, isToken c = true := by
    rcases hclose with ⟨t, ht⟩
    exact ⟨']', by rw [← ht]; rfl, rfl⟩
  rw [readPath_spells hP hks (.inl rfl) hspells hp hstop]

theorem readLine_pair (hP : Space P) {ks : List Key} (hks : ∀ k ∈ ks, Bare k)
    (h : readLine read l = some e) {c : Char} {r : List Char} (hs : skip (dropReturn l) = c :: s)
    (hc : startsKey c = true) (hspells : Spells P ks (c :: s) ('=' :: r)) :
    ∃ v, read r = some v ∧ e = .pair ks v := by
  have hmark : c ≠ '#' ∧ c ≠ '[' := by constructor <;> rintro rfl <;> cases hc
  simp only [readLine, hs] at h
  rw [if_neg hmark.1, if_neg hmark.2] at h
  rcases readPair_eq h with ⟨p, v, hp, hsign, hv, rfl⟩
  rw [readPath_spells hP hks (.inr rfl) hspells hp ⟨'=', hsign, rfl⟩] at hv ⊢
  exact ⟨v, hv, rfl⟩

end Lib.Toml
