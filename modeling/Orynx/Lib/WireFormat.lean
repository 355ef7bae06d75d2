import Mathlib.Algebra.Group.Nat.Defs
import Mathlib.Data.List.Basic

/-! # The protobuf wire format

A message is a sequence of fields, a field is a tag and a value, and an integer is written seven
bits to a byte, the low ones first.

* `Reads`: a parser that depends on nothing but the bytes it consumes;
* `Protowire`, `Protowire.Implements`: the operations of a package for the format, and what it takes
  for them to be right;
* `readMessage`: the loop that takes one field after another; `readMessage_total`,
  `readMessage_field`, `readMessage_fields`: it ends within the bytes, and how it goes on after a
  whole field and after a sequence of them.
-/

namespace Lib.Wire

universe u v

abbrev Bytes := List UInt8

inductive WireType where
  | varint | fixed64 | bytes | startGroup | endGroup | fixed32 | reserved6 | reserved7
  deriving DecidableEq, Repr

def WireType.code : WireType → Nat
  | .varint => 0
  | .fixed64 => 1
  | .bytes => 2
  | .startGroup => 3
  | .endGroup => 4
  | .fixed32 => 5
  | .reserved6 => 6
  | .reserved7 => 7

def WireType.ofCode : Nat → WireType
  | 0 => .varint
  | 1 => .fixed64
  | 2 => .bytes
  | 3 => .startGroup
  | 4 => .endGroup
  | 5 => .fixed32
  | 6 => .reserved6
  | _ => .reserved7

theorem WireType.ofCode_code (t : WireType) : WireType.ofCode t.code = t := by
  cases t <;> rfl

theorem WireType.code_lt (t : WireType) : t.code < 8 := by
  cases t <;> decide

inductive ParseError where
  | unexpectedEOF | fieldNumber | overflow | reserved | endGroup | parse
  deriving DecidableEq, Repr

/-! ## The format -/

/-- Base 128, in at most `k + 1` bytes. -/
def varintOf : Nat → Nat → Bytes
  | 0, n => [UInt8.ofNat n]
  | k + 1, n =>
    if n < 128 then [UInt8.ofNat n] else UInt8.ofNat (n % 128 + 128) :: varintOf k (n / 128)

/-- An integer below `2 ^ 64` takes ten bytes at most. -/
def varint (n : Nat) : Bytes := varintOf 9 n

def tag (num : Nat) (typ : WireType) : Bytes := varint (num * 8 + typ.code)

def lengthPrefixed (b : Bytes) : Bytes := varint b.length ++ b

/-- The field numbers that a tag can hold. -/
def ValidNumber (num : Nat) : Prop := 1 ≤ num ∧ num < 2 ^ 29

instance (num : Nat) : Decidable (ValidNumber num) := inferInstanceAs (Decidable (_ ∧ _))

/-- A parser whose result tells by `len` how much it has consumed, and which depends on no other
bytes. -/
def Reads {ε : Type u} {α : Type v} (p : Bytes → Except ε α) (len : α → Nat) : Prop :=
  ∀ b a, p b = .ok a → ∃ x y, b = x ++ y ∧ x.length = len a ∧ ∀ rest, p (x ++ rest) = .ok a

theorem Reads.le {ε : Type u} {α : Type v} {p : Bytes → Except ε α} {len : α → Nat}
    (h : Reads p len) {b : Bytes} {a : α} (ha : p b = .ok a) : len a ≤ b.length := by
  rcases h b a ha with ⟨x, y, rfl, hlen, -⟩
  rw [List.length_append]
  omega

/-- What a package for the format offers. A parser returns how many bytes it has consumed. -/
structure Protowire where
  appendVarint : Bytes → UInt64 → Bytes
  appendTag : Bytes → Nat → WireType → Bytes
  appendBytes : Bytes → Bytes → Bytes
  sizeTag : Nat → Nat
  sizeBytes : Nat → Nat
  consumeTag : Bytes → Except ParseError ((Nat × WireType) × Nat)
  consumeVarint : Bytes → Except ParseError (UInt64 × Nat)
  consumeBytes : Bytes → Except ParseError (Bytes × Nat)
  consumeFieldValue : Nat → WireType → Bytes → Except ParseError Nat

/-- The package writes and reads the format. -/
structure Protowire.Implements (P : Protowire) : Prop where
  appendVarint : ∀ b v, P.appendVarint b v = b ++ varint v.toNat
  appendTag : ∀ b num typ, ValidNumber num → P.appendTag b num typ = b ++ tag num typ
  appendBytes : ∀ b v, v.length < 2 ^ 63 → P.appendBytes b v = b ++ lengthPrefixed v
  sizeTag : ∀ num, ValidNumber num → P.sizeTag num = (tag num .bytes).length
  sizeBytes : ∀ n, n < 2 ^ 63 → P.sizeBytes n = (varint n).length + n
  consumeTag : ∀ num typ rest, ValidNumber num →
    P.consumeTag (tag num typ ++ rest) = .ok ((num, typ), (tag num typ).length)
  consumeVarint : ∀ (v : UInt64) rest,
    P.consumeVarint (varint v.toNat ++ rest) = .ok (v, (varint v.toNat).length)
  consumeBytes : ∀ v rest, v.length < 2 ^ 63 →
    P.consumeBytes (lengthPrefixed v ++ rest) = .ok (v, (lengthPrefixed v).length)
  tag_reads : Reads P.consumeTag Prod.snd
  tag_pos : ∀ b t n, P.consumeTag b = .ok (t, n) → 0 < n
  varint_reads : Reads P.consumeVarint Prod.snd
  bytes_reads : Reads P.consumeBytes Prod.snd
  value_reads : ∀ num typ, Reads (P.consumeFieldValue num typ) id
  value_varint : ∀ num b, P.consumeFieldValue num .varint b = (P.consumeVarint b).map Prod.snd
  value_bytes : ∀ num b, P.consumeFieldValue num .bytes b = (P.consumeBytes b).map Prod.snd

/-! ## Messages -/

/-- What becomes of a loop over the fields of a message: it returns, it slices beyond the end of the
buffer, or it is still running when its steps are used up. -/
inductive Outcome (ε : Type u) (α : Type v) where
  | ok (a : α)
  | error (e : ε)
  | outOfRange
  | running
  deriving DecidableEq

/-- `b[n:]`. -/
def slice (b : Bytes) (n : Nat) : Option Bytes := if n ≤ b.length then some (b.drop n) else none

theorem slice_append {x y : Bytes} {n : Nat} (h : x.length = n) : slice (x ++ y) n = some y := by
  subst h
  unfold slice
  rw [if_pos (by rw [List.length_append]; omega), List.drop_left]

section Messages

variable {ε : Type u} {α : Type v} (P : Protowire) (badTag : ParseError → ε)
  (field : α → Nat → WireType → Bytes → Outcome ε (α × Nat))

/-- `b = b[m:]`, once the value of a field has been consumed. -/
def advance (go : Bytes → α → Outcome ε α) (b : Bytes) : Outcome ε (α × Nat) → Outcome ε α
  | .error e => .error e
  | .outOfRange => .outOfRange
  | .running => .running
  | .ok (a, m) => match slice b m with
    | none => .outOfRange
    | some b => go b a

/-- `for len(b) > 0`: consume a tag, and then the value of the field. -/
def readMessage : Nat → Bytes → α → Outcome ε α
  | 0, b, a => if b = [] then .ok a else .running
  | fuel + 1, b, a =>
    if b = [] then .ok a
    else match P.consumeTag b with
      | .error e => .error (badTag e)
      | .ok ((num, typ), n) =>
        match slice b n with
        | none => .outOfRange
        | some b => advance (readMessage fuel) b (field a num typ b)

/-- The bytes are a tag with this number and type, and a value. -/
structure IsField (b : Bytes) (num : Nat) (typ : WireType) : Prop where
  split : ∃ x y, b = x ++ y ∧ (∀ rest, P.consumeTag (x ++ rest) = .ok ((num, typ), x.length)) ∧
    ∀ rest, P.consumeFieldValue num typ (y ++ rest) = .ok y.length

/-- A sequence of whole fields. -/
inductive Fields : Bytes → Prop where
  | nil : Fields []
  | cons {t b : Bytes} {num : Nat} {typ : WireType} :
      IsField P t num typ → Fields b → Fields (t ++ b)

/-- On a whole value a field fails or goes on behind it, whatever follows. -/
def Whole : Prop :=
  ∀ a num typ y, (∀ rest, P.consumeFieldValue num typ (y ++ rest) = .ok y.length) →
    (∃ e, ∀ rest, field a num typ (y ++ rest) = .error e) ∨
      ∃ a', ∀ rest, field a num typ (y ++ rest) = .ok (a', y.length)

/-- A field fails or returns, and does not go beyond the bytes it is given. -/
def Within : Prop :=
  ∀ a num typ b, (∃ e, field a num typ b = .error e) ∨
    ∃ a' m, field a num typ b = .ok (a', m) ∧ m ≤ b.length

/-- The loop with as many steps as there are bytes. -/
def readAll (b : Bytes) (a : α) : Outcome ε α := readMessage P badTag field b.length b a

variable {P badTag field}

theorem readMessage_nil {fuel : Nat} {a : α} : readMessage P badTag field fuel [] a = .ok a := by
  cases fuel with
  | zero => rfl
  | succ fuel => rfl

/-- What a tag leaves is shorter. -/
theorem slice_tag (hP : P.Implements) {b : Bytes} {t : Nat × WireType} {n : Nat}
    (h : P.consumeTag b = .ok (t, n)) : ∃ b', slice b n = some b' ∧ b'.length < b.length := by
  rcases hP.tag_reads b _ h with ⟨x, y, rfl, hlen, -⟩
  have hpos := hP.tag_pos _ t n h
  refine ⟨y, slice_append hlen, ?_⟩
  rw [List.length_append, hlen]
  exact Nat.lt_add_of_pos_left hpos

theorem slice_of_le {b : Bytes} {n : Nat} (h : n ≤ b.length) :
    ∃ b', slice b n = some b' ∧ b'.length ≤ b.length :=
  ⟨b.drop n, if_pos h, Nat.le_trans (Nat.le_of_eq List.length_drop) (Nat.sub_le _ _)⟩

/-- The loop ends, and never slices beyond the end. -/
theorem readMessage_total (hP : P.Implements) (hw : Within field) :
    ∀ (fuel : Nat) (b : Bytes) (a : α), b.length ≤ fuel →
      (∃ r, readMessage P badTag field fuel b a = .ok r) ∨
        ∃ e, readMessage P badTag field fuel b a = .error e := by
  intro fuel
  induction fuel with
  | zero =>
    intro b a hb
    obtain rfl := List.eq_nil_of_length_eq_zero (Nat.le_zero.1 hb)
    exact .inl ⟨a, rfl⟩
  | succ fuel ih =>
    intro b a hb
    unfold readMessage
    by_cases hnil : b = []
    · rw [if_pos hnil]
      exact .inl ⟨a, rfl⟩
    · rw [if_neg hnil]
      cases htag : P.consumeTag b with
      | error e => exact .inr ⟨_, rfl⟩
      | ok t =>
        rcases t with ⟨⟨num, typ⟩, n⟩
        rcases slice_tag hP htag with ⟨b₁, hb₁, hlt⟩
        dsimp only
        rw [hb₁]
        dsimp only
        rcases hw a num typ b₁ with ⟨e, hfield⟩ | ⟨a', k, hfield, hk⟩
        · rw [hfield]
          exact .inr ⟨e, rfl⟩
        · rcases slice_of_le hk with ⟨b₂, hb₂, hle⟩
          rw [hfield, advance, hb₂]
          exact ih b₂ a' (by omega)

/-- More steps than bytes change nothing. -/
theorem readMessage_fuel (hP : P.Implements) (hw : Within field) :
    ∀ (n m : Nat) (b : Bytes) (a : α), b.length ≤ n → b.length ≤ m →
      readMessage P badTag field n b a = readMessage P badTag field m b a := by
  intro n
  induction n with
  | zero =>
    intro m b a hb _
    obtain rfl := List.eq_nil_of_length_eq_zero (Nat.le_zero.1 hb)
    rw [readMessage_nil, readMessage_nil]
  | succ n ih =>
    intro m b a hn hm
    by_cases hnil : b = []
    · rw [hnil, readMessage_nil, readMessage_nil]
    · cases m with
      | zero => exact absurd (List.eq_nil_of_length_eq_zero (Nat.le_zero.1 hm)) hnil
      | succ m =>
        unfold readMessage
        rw [if_neg hnil, if_neg hnil]
        cases htag : P.consumeTag b with
        | error e => rfl
        | ok t =>
          rcases t with ⟨⟨num, typ⟩, k⟩
          rcases slice_tag hP htag with ⟨b₁, hb₁, hlt⟩
          dsimp only
          rw [hb₁]
          dsimp only
          rcases hw a num typ b₁ with ⟨e, hfield⟩ | ⟨a', l, hfield, hl⟩
          · rw [hfield]
            rfl
          · rcases slice_of_le hl with ⟨b₂, hb₂, hle⟩
            rw [hfield, advance, hb₂, advance, hb₂]
            exact ih m b₂ a' (by omega) (by omega)

section Step

variable {x y rest : Bytes} {num : Nat} {typ : WireType} {a a' : α}

theorem tag_ne_nil (hP : P.Implements)
    (hx : ∀ rest, P.consumeTag (x ++ rest) = .ok ((num, typ), x.length)) : x ≠ [] := by
  rintro rfl
  have hpos := hP.tag_pos _ _ _ (hx [])
  exact absurd hpos (Nat.lt_irrefl 0)

/-- One turn of the loop, when the tag is followed by `y`. -/
theorem readAll_turn (hP : P.Implements)
    (hx : ∀ rest, P.consumeTag (x ++ rest) = .ok ((num, typ), x.length)) :
    readAll P badTag field (x ++ y) a =
      advance (readMessage P badTag field ((x ++ y).length - 1)) y (field a num typ y) := by
  have hne : x ++ y ≠ [] := fun h => tag_ne_nil hP hx (List.append_eq_nil_iff.1 h).1
  obtain ⟨k, hk⟩ : ∃ k, (x ++ y).length = k + 1 :=
    Nat.exists_eq_succ_of_ne_zero fun h => hne (List.eq_nil_of_length_eq_zero h)
  unfold readAll
  rw [hk, readMessage, if_neg hne, hx y]
  dsimp only
  rw [slice_append rfl]
  rfl

/-- After a field whose value is `y` the loop goes on behind it. -/
theorem readAll_field (hP : P.Implements) (hw : Within field)
    (hx : ∀ rest, P.consumeTag (x ++ rest) = .ok ((num, typ), x.length))
    (hy : field a num typ (y ++ rest) = .ok (a', y.length)) :
    readAll P badTag field (x ++ (y ++ rest)) a = readAll P badTag field rest a' := by
  have hpos : 0 < x.length := List.length_pos_iff.2 (tag_ne_nil hP hx)
  rw [readAll_turn hP hx, hy, advance, slice_append rfl]
  refine readMessage_fuel hP hw _ _ _ _ ?_ (Nat.le_refl _)
  rw [List.length_append, List.length_append]
  omega

theorem readAll_error (hP : P.Implements) {e : ε}
    (hx : ∀ rest, P.consumeTag (x ++ rest) = .ok ((num, typ), x.length))
    (hy : field a num typ y = .error e) :
    readAll P badTag field (x ++ y) a = .error e := by
  rw [readAll_turn hP hx, hy, advance]

end Step

/-- A sequence of whole fields fails or is read, whatever follows. -/
theorem readAll_fields (hP : P.Implements) (hw : Within field) (hwhole : Whole P field)
    {b : Bytes} (hb : Fields P b) : ∀ a,
      (∃ e, ∀ rest, readAll P badTag field (b ++ rest) a = .error e) ∨
        ∃ a', ∀ rest, readAll P badTag field (b ++ rest) a = readAll P badTag field rest a' := by
  induction hb with
  | nil => exact fun a => .inr ⟨a, fun rest => rfl⟩
  | cons ht _ ih =>
    intro a
    rcases ht.split with ⟨x, y, rfl, hx, hy⟩
    rcases hwhole a _ _ y hy with ⟨e, he⟩ | ⟨a₁, ha₁⟩
    · refine .inl ⟨e, fun rest => ?_⟩
      rw [List.append_assoc, List.append_assoc]
      exact readAll_error hP hx (he _)
    · have hgo : ∀ rest, readAll P badTag field (x ++ y ++ rest) a =
          readAll P badTag field rest a₁ := by
        intro rest
        rw [List.append_assoc]
        exact readAll_field hP hw hx (ha₁ rest)
      rcases ih a₁ with ⟨e, he⟩ | ⟨a', ha'⟩
      · exact .inl ⟨e, fun rest => by rw [List.append_assoc, hgo, he]⟩
      · exact .inr ⟨a', fun rest => by rw [List.append_assoc, hgo, ha']⟩

/-- A field that is skipped can stand between any two others. -/
theorem readAll_insert (hP : P.Implements) (hw : Within field) (hwhole : Whole P field)
    {b u rest : Bytes} {num : Nat} {typ : WireType} (hb : Fields P b) (hu : IsField P u num typ)
    (hskip : ∀ a b n, P.consumeFieldValue num typ b = .ok n → field a num typ b = .ok (a, n))
    (a : α) :
    readAll P badTag field (b ++ (u ++ rest)) a = readAll P badTag field (b ++ rest) a := by
  rcases hu.split with ⟨x, y, rfl, hx, hy⟩
  have hgo : ∀ a, readAll P badTag field (x ++ y ++ rest) a = readAll P badTag field rest a := by
    intro a
    rw [List.append_assoc]
    exact readAll_field hP hw hx (hskip a _ _ (hy rest))
  have hread : (∃ e, ∀ rest, readAll P badTag field (b ++ rest) a = .error e) ∨
      ∃ a', ∀ rest, readAll P badTag field (b ++ rest) a = readAll P badTag field rest a' :=
    readAll_fields hP hw hwhole hb a
  rcases hread with ⟨e, he⟩ | ⟨a', ha'⟩
  · rw [he, he]
  · rw [ha', ha', hgo]

end Messages

end Lib.Wire
