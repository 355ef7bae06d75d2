import Orynx.Lib.WireFormat

/-! # A package for the protobuf wire format

* `standard`: varints of ten bytes at most, tags, length-prefixed bytes, and values of every wire
  type, groups among them, that can be skipped;
* `standard_implements`: it implements the format.
-/

namespace Lib.Wire

/-! ## Integers -/

/-- At most `k + 1` bytes of a varint; the tenth byte has one bit. -/
def readVarint : Nat → Bytes → Except ParseError (Nat × Nat)
  | _, [] => .error .unexpectedEOF
  | 0, y :: _ => if y.toNat < 2 then .ok (y.toNat, 1) else .error .overflow
  | k + 1, y :: ys =>
    if y.toNat < 128 then .ok (y.toNat, 1)
    else (readVarint k ys).map fun r => (y.toNat - 128 + 128 * r.1, r.2 + 1)

theorem varintOf_lt {k n : Nat} (h : n < 128) : varintOf (k + 1) n = [UInt8.ofNat n] := if_pos h

theorem varintOf_ge {k n : Nat} (h : ¬n < 128) :
    varintOf (k + 1) n = UInt8.ofNat (n % 128 + 128) :: varintOf k (n / 128) := if_neg h

theorem readVarint_varintOf (k : Nat) : ∀ (n : Nat) (rest : Bytes), n < 2 ^ (7 * k + 1) →
    readVarint k (varintOf k n ++ rest) = .ok (n, (varintOf k n).length) := by
  induction k with
  | zero =>
    intro n rest h
    have hbyte : (UInt8.ofNat n).toNat = n := by
      rw [UInt8.toNat_ofNat']
      omega
    show (if (UInt8.ofNat n).toNat < 2 then _ else _) = _
    rw [hbyte, if_pos (by omega)]
    rfl
  | succ k ih =>
    intro n rest h
    by_cases hlt : n < 128
    · have hbyte : (UInt8.ofNat n).toNat = n := by
        rw [UInt8.toNat_ofNat']
        omega
      rw [varintOf_lt hlt, List.singleton_append, readVarint, hbyte, if_pos hlt]
      rfl
    · have hbyte : (UInt8.ofNat (n % 128 + 128)).toNat = n % 128 + 128 := by
        rw [UInt8.toNat_ofNat']
        omega
      have hsplit : 2 ^ (7 * (k + 1) + 1) = 128 * 2 ^ (7 * k + 1) := by
        rw [show 7 * (k + 1) + 1 = 7 * k + 1 + 7 by omega, Nat.pow_add, Nat.mul_comm]
      have hdiv : n / 128 < 2 ^ (7 * k + 1) := by
        rw [hsplit] at h
        exact Nat.div_lt_of_lt_mul h
      rw [varintOf_ge hlt, List.cons_append, readVarint, hbyte, if_neg (by omega), ih _ rest hdiv]
      have hval : n % 128 + 128 - 128 + 128 * (n / 128) = n := by omega
      show Except.ok (n % 128 + 128 - 128 + 128 * (n / 128), _) = _
      rw [hval]
      rfl

theorem readVarint_reads (k : Nat) : Reads (readVarint k) Prod.snd := by
  induction k with
  | zero =>
    intro b a h
    cases b with
    | nil => cases h
    | cons y ys =>
      rw [readVarint] at h
      split at h
      · rename_i hy
        obtain rfl := Except.ok.inj h
        refine ⟨[y], ys, rfl, rfl, fun rest => ?_⟩
        rw [List.singleton_append, readVarint, if_pos hy]
      · cases h
  | succ k ih =>
    intro b a h
    cases b with
    | nil => cases h
    | cons y ys =>
      rw [readVarint] at h
      split at h
      · rename_i hy
        obtain rfl := Except.ok.inj h
        refine ⟨[y], ys, rfl, rfl, fun rest => ?_⟩
        rw [List.singleton_append, readVarint, if_pos hy]
      · rename_i hy
        cases hread : readVarint k ys with
        | error e =>
          rw [hread] at h
          cases h
        | ok r =>
          rw [hread] at h
          obtain rfl := Except.ok.inj h
          rcases ih ys r hread with ⟨x, z, rfl, hlen, hrest⟩
          refine ⟨y :: x, z, rfl, congrArg (· + 1) hlen, fun rest => ?_⟩
          rw [List.cons_append, readVarint, if_neg hy, hrest]
          rfl

theorem readVarint_pos {k : Nat} {b : Bytes} {r : Nat × Nat} (h : readVarint k b = .ok r) :
    0 < r.2 := by
  rcases readVarint_reads k b r h with ⟨x, y, rfl, hlen, hrest⟩
  have hne : x ≠ [] := by
    rintro rfl
    have hnil := hrest []
    cases k with
    | zero => cases hnil
    | succ k => cases hnil
  rw [← hlen]
  exact List.length_pos_iff.2 hne

/-- A parser whose result is turned into another that consumes as much. -/
theorem Reads.map {ε α β : Type} {p : Bytes → Except ε α} {len : α → Nat} (h : Reads p len)
    {f : α → Except ε β} {len' : β → Nat} (hf : ∀ a b, f a = .ok b → len' b = len a) :
    Reads (fun b => (p b).bind f) len' := by
  intro b r hr
  dsimp only at hr
  cases hp : p b with
  | error e =>
    rw [hp] at hr
    cases hr
  | ok a =>
    rw [hp] at hr
    rcases h b a hp with ⟨x, y, rfl, hlen, hrest⟩
    refine ⟨x, y, rfl, hlen.trans (hf a r hr).symm, fun rest => ?_⟩
    dsimp only
    rw [hrest]
    exact hr

/-- A second parser behind the first. -/
theorem Reads.andThen {ε α β γ : Type} {p : Bytes → Except ε α} {len : α → Nat} (h : Reads p len)
    {q : α → Bytes → Except ε β} {len' : β → Nat} (hq : ∀ a, Reads (q a) len')
    {f : α → β → γ} {len'' : γ → Nat} (hf : ∀ a b, len'' (f a b) = len a + len' b) :
    Reads (fun b => (p b).bind fun a => (q a (b.drop (len a))).map (f a)) len'' := by
  intro b r hr
  dsimp only at hr
  cases hp : p b with
  | error e =>
    rw [hp] at hr
    cases hr
  | ok a =>
    rw [hp] at hr
    rcases h b a hp with ⟨x, y, rfl, hlen, hrest⟩
    have hr' : (q a ((x ++ y).drop (len a))).map (f a) = .ok r := hr
    rw [← hlen, List.drop_left] at hr'
    cases hqy : q a y with
    | error e =>
      rw [hqy] at hr'
      cases hr'
    | ok v =>
      rw [hqy] at hr'
      obtain rfl := Except.ok.inj hr'
      rcases hq a y v hqy with ⟨x', z, rfl, hlen', hrest'⟩
      refine ⟨x ++ x', z, (List.append_assoc _ _ _).symm, ?_, fun rest => ?_⟩
      · rw [List.length_append, hlen, hlen', hf]
      · dsimp only
        rw [List.append_assoc, hrest]
        show (q a ((x ++ (x' ++ rest)).drop (len a))).map (f a) = _
        rw [← hlen, List.drop_left, hrest']
        rfl

def consumeVarint (b : Bytes) : Except ParseError (UInt64 × Nat) :=
  (readVarint 9 b).bind fun r => .ok (UInt64.ofNat r.1, r.2)

/-- A field number is at most `2 ^ 31 - 1` and is not zero. -/
def decodeTag (r : Nat × Nat) : Except ParseError ((Nat × WireType) × Nat) :=
  if 2 ^ 31 ≤ r.1 / 8 ∨ r.1 / 8 = 0 then .error .fieldNumber
  else .ok ((r.1 / 8, WireType.ofCode (r.1 % 8)), r.2)

def consumeTag (b : Bytes) : Except ParseError ((Nat × WireType) × Nat) :=
  (readVarint 9 b).bind decodeTag

/-- The first `n` bytes. -/
def takeBytes (n : Nat) (b : Bytes) : Except ParseError Bytes :=
  if n ≤ b.length then .ok (b.take n) else .error .unexpectedEOF

theorem takeBytes_reads (n : Nat) : Reads (takeBytes n) List.length := by
  intro b r h
  unfold takeBytes at h
  split at h
  · rename_i hle
    obtain rfl := Except.ok.inj h
    refine ⟨b.take n, b.drop n, (List.take_append_drop n b).symm, rfl, fun rest => ?_⟩
    have hlen : (b.take n).length = n := List.length_take_of_le hle
    unfold takeBytes
    rw [if_pos (by rw [List.length_append, hlen]; omega),
      List.take_append_of_le_length (Nat.le_of_eq hlen.symm),
      List.take_of_length_le (Nat.le_of_eq hlen)]
  · cases h

def consumeBytes (b : Bytes) : Except ParseError (Bytes × Nat) :=
  (readVarint 9 b).bind fun r =>
    (takeBytes r.1 (b.drop r.2)).map fun v => (v, r.2 + v.length)

theorem consumeVarint_reads : Reads consumeVarint Prod.snd := by
  refine (readVarint_reads 9).map fun r v hv => ?_
  obtain rfl := Except.ok.inj hv
  rfl

theorem decodeTag_snd {r : Nat × Nat} {t : (Nat × WireType) × Nat} (h : decodeTag r = .ok t) :
    t.2 = r.2 := by
  unfold decodeTag at h
  split at h
  · cases h
  · obtain rfl := Except.ok.inj h
    rfl

theorem consumeTag_reads : Reads consumeTag Prod.snd :=
  (readVarint_reads 9).map fun _ _ ht => decodeTag_snd ht

theorem consumeTag_pos {b : Bytes} {t : (Nat × WireType) × Nat} (h : consumeTag b = .ok t) :
    0 < t.2 := by
  unfold consumeTag at h
  cases hread : readVarint 9 b with
  | error e =>
    rw [hread] at h
    cases h
  | ok r =>
    rw [hread] at h
    rw [decodeTag_snd h]
    exact readVarint_pos hread

theorem consumeBytes_reads : Reads consumeBytes Prod.snd :=
  (readVarint_reads 9).andThen (fun r => takeBytes_reads r.1) fun _ _ => rfl

/-! ## Values -/

/-- The value of a field; `group` skips what is inside a group. -/
def skipValue (group : Nat → Nat → Bytes → Except ParseError Nat) (depth num : Nat) :
    WireType → Bytes → Except ParseError Nat
  | .varint, b => (consumeVarint b).map Prod.snd
  | .fixed64, b => (takeBytes 8 b).map List.length
  | .bytes, b => (consumeBytes b).map Prod.snd
  | .startGroup, b => match depth with
    | 0 => .error .parse
    | depth + 1 => group depth num b
  | .endGroup, _ => .error .endGroup
  | .fixed32, b => (takeBytes 4 b).map List.length
  | .reserved6, _ => .error .reserved
  | .reserved7, _ => .error .reserved

/-- The fields of a group up to its end marker. -/
def skipGroup : Nat → Nat → Nat → Bytes → Except ParseError Nat
  | 0, _, _, _ => .error .unexpectedEOF
  | fuel + 1, depth, num, b => (consumeTag b).bind fun t =>
    if t.1.2 = .endGroup then if t.1.1 = num then .ok t.2 else .error .endGroup
    else (skipValue (skipGroup fuel) depth t.1.1 t.1.2 (b.drop t.2)).bind fun m =>
      (skipGroup fuel depth num (b.drop (t.2 + m))).map (t.2 + m + ·)

/-- Groups may be nested ten thousand deep. -/
def consumeFieldValue (num : Nat) (typ : WireType) (b : Bytes) : Except ParseError Nat :=
  skipValue (skipGroup b.length) 10001 num typ b

/-- A skip that takes `k` bytes takes them whatever follows, with as many steps as bytes. -/
def Skips (skip : Nat → Bytes → Except ParseError Nat) (fuel : Nat) : Prop :=
  ∀ b k, skip fuel b = .ok k → ∃ x y, b = x ++ y ∧ x.length = k ∧
    ∀ fuel', k ≤ fuel' → ∀ rest, skip fuel' (x ++ rest) = .ok k

theorem Reads.skips {α : Type} {p : Bytes → Except ParseError α} {len : α → Nat} (h : Reads p len)
    (fuel : Nat) : Skips (fun _ b => (p b).map len) fuel := by
  intro b k hk
  dsimp only at hk
  cases hp : p b with
  | error e =>
    rw [hp] at hk
    cases hk
  | ok a =>
    rw [hp] at hk
    obtain rfl := Except.ok.inj hk
    rcases h b a hp with ⟨x, y, rfl, hlen, hrest⟩
    refine ⟨x, y, rfl, hlen, fun fuel' _ rest => ?_⟩
    dsimp only
    rw [hrest]
    rfl

theorem skipValue_skips {fuel : Nat}
    (hgroup : ∀ depth num, Skips (fun fuel => skipGroup fuel depth num) fuel)
    (depth num : Nat) (typ : WireType) :
    Skips (fun fuel => skipValue (skipGroup fuel) depth num typ) fuel := by
  cases typ with
  | varint => exact consumeVarint_reads.skips fuel
  | fixed64 => exact (takeBytes_reads 8).skips fuel
  | bytes => exact consumeBytes_reads.skips fuel
  | startGroup =>
    cases depth with
    | zero =>
      intro b k hk
      cases hk
    | succ depth => exact hgroup depth num
  | endGroup =>
    intro b k hk
    cases hk
  | fixed32 => exact (takeBytes_reads 4).skips fuel
  | reserved6 =>
    intro b k hk
    cases hk
  | reserved7 =>
    intro b k hk
    cases hk

/-- What a group does behind a tag. -/
theorem skipGroup_tag {x : Bytes} {t : (Nat × WireType) × Nat}
    (hx : ∀ rest, consumeTag (x ++ rest) = .ok t) (hlen : x.length = t.2)
    (fuel depth num : Nat) (z : Bytes) :
    skipGroup (fuel + 1) depth num (x ++ z) =
      if t.1.2 = .endGroup then if t.1.1 = num then .ok t.2 else .error .endGroup
      else (skipValue (skipGroup fuel) depth t.1.1 t.1.2 z).bind fun m =>
        (skipGroup fuel depth num (z.drop m)).map (t.2 + m + ·) := by
  have hdrop : ∀ m, (x ++ z).drop (t.2 + m) = z.drop m := by
    intro m
    rw [← hlen, ← List.drop_drop, List.drop_left]
  have hz : (x ++ z).drop t.2 = z := hdrop 0
  rw [skipGroup, hx]
  show (if t.1.2 = .endGroup then _ else _) = _
  simp only [hz, hdrop]

theorem skipGroup_skips (fuel : Nat) : ∀ depth num,
    Skips (fun fuel => skipGroup fuel depth num) fuel := by
  induction fuel with
  | zero =>
    intro depth num b k hk
    cases hk
  | succ fuel ih =>
    intro depth num b k hk
    dsimp only at hk
    cases htag : consumeTag b with
    | error e =>
      rw [skipGroup, htag] at hk
      cases hk
    | ok t =>
      have hpos := consumeTag_pos htag
      rcases consumeTag_reads b t htag with ⟨x, y, rfl, hlen, hx⟩
      rw [skipGroup_tag hx hlen] at hk
      by_cases hend : t.1.2 = .endGroup
      · rw [if_pos hend] at hk
        split at hk
        · rename_i hnum
          obtain rfl := Except.ok.inj hk
          refine ⟨x, y, rfl, hlen, fun fuel' hfuel rest => ?_⟩
          obtain ⟨f, rfl⟩ := Nat.exists_eq_add_of_lt (Nat.lt_of_lt_of_le hpos hfuel)
          dsimp only
          rw [skipGroup_tag hx hlen, if_pos hend, if_pos hnum]
        · cases hk
      · rw [if_neg hend] at hk
        cases hvalue : skipValue (skipGroup fuel) depth t.1.1 t.1.2 y with
        | error e =>
          rw [hvalue] at hk
          cases hk
        | ok m =>
          rw [hvalue] at hk
          rcases skipValue_skips ih depth t.1.1 t.1.2 y m hvalue with ⟨x₂, y₂, rfl, rfl, hx₂⟩
          have hk' : (skipGroup fuel depth num ((x₂ ++ y₂).drop x₂.length)).map
              (t.2 + x₂.length + ·) = .ok k := hk
          rw [List.drop_left] at hk'
          cases hgroup : skipGroup fuel depth num y₂ with
          | error e =>
            rw [hgroup] at hk'
            cases hk'
          | ok j =>
            rw [hgroup] at hk'
            obtain rfl : t.2 + x₂.length + j = k := Except.ok.inj hk'
            rcases ih depth num y₂ j hgroup with ⟨x₃, y₃, rfl, rfl, hx₃⟩
            refine ⟨x ++ (x₂ ++ x₃), y₃, ?_, ?_, fun fuel' hfuel rest => ?_⟩
            · rw [List.append_assoc, List.append_assoc]
            · rw [List.length_append, List.length_append, hlen, Nat.add_assoc]
            · -- the tag takes a byte, so a step is left for each byte behind it
              obtain ⟨f, rfl⟩ : ∃ f, fuel' = f + 1 := ⟨fuel' - 1, by omega⟩
              dsimp only at hx₂ hx₃ ⊢
              rw [List.append_assoc, List.append_assoc, skipGroup_tag hx hlen, if_neg hend,
                hx₂ f (by omega)]
              show (skipGroup f depth num ((x₂ ++ (x₃ ++ rest)).drop x₂.length)).map _ = _
              rw [List.drop_left, hx₃ f (by omega)]
              rfl

/-! ## The package -/

def standard : Protowire where
  appendVarint b v := b ++ varint v.toNat
  appendTag b num typ := b ++ tag num typ
  appendBytes b v := b ++ lengthPrefixed v
  sizeTag num := (tag num .bytes).length
  sizeBytes n := (varint n).length + n
  consumeTag := consumeTag
  consumeVarint := consumeVarint
  consumeBytes := consumeBytes
  consumeFieldValue := consumeFieldValue

theorem readVarint_varint {n : Nat} (hn : n < 2 ^ 64) (rest : Bytes) :
    readVarint 9 (varint n ++ rest) = .ok (n, (varint n).length) :=
  readVarint_varintOf 9 n rest hn

theorem standard_implements : standard.Implements where
  appendVarint _ _ := rfl
  appendTag _ _ _ _ := rfl
  appendBytes _ _ _ := rfl
  sizeTag _ _ := rfl
  sizeBytes _ _ := rfl
  consumeTag := by
    intro num typ rest hnum
    have hcode := typ.code_lt
    have hdiv : (num * 8 + typ.code) / 8 = num := by omega
    have hmod : (num * 8 + typ.code) % 8 = typ.code := by omega
    have hlt : num < 2 ^ 29 := hnum.2
    show (readVarint 9 (varint (num * 8 + typ.code) ++ rest)).bind decodeTag = _
    rw [readVarint_varint (by omega)]
    show decodeTag (num * 8 + typ.code, (tag num typ).length) = _
    have hpos : ¬(2 ^ 31 ≤ num ∨ num = 0) := by
      have hone := hnum.1
      omega
    rw [decodeTag, hdiv, hmod, if_neg hpos, WireType.ofCode_code]
  consumeVarint := by
    intro v rest
    show (readVarint 9 (varint v.toNat ++ rest)).bind _ = _
    rw [readVarint_varint v.toNat_lt]
    show Except.ok (UInt64.ofNat v.toNat, _) = _
    rw [UInt64.ofNat_toNat]
  consumeBytes := by
    intro v rest hv
    have hlead : lengthPrefixed v ++ rest = varint v.length ++ (v ++ rest) :=
      List.append_assoc _ _ _
    have htake : takeBytes v.length (v ++ rest) = .ok v := by
      rw [takeBytes, if_pos (by rw [List.length_append]; omega), List.take_left]
    show consumeBytes _ = _
    rw [hlead, consumeBytes, readVarint_varint (by omega)]
    show (takeBytes v.length ((varint v.length ++ (v ++ rest)).drop (varint v.length).length)).map
      _ = _
    rw [List.drop_left, htake]
    show Except.ok (v, (varint v.length).length + v.length) = _
    rw [lengthPrefixed, List.length_append]
  tag_reads := consumeTag_reads
  tag_pos _ _ _ h := consumeTag_pos h
  varint_reads := consumeVarint_reads
  bytes_reads := consumeBytes_reads
  value_reads := by
    intro num typ b k hk
    rcases skipValue_skips (skipGroup_skips b.length) 10001 num typ b k hk
      with ⟨x, y, rfl, hlen, hx⟩
    refine ⟨x, y, rfl, hlen, fun rest => hx _ ?_ rest⟩
    rw [← hlen, List.length_append]
    omega
  value_varint _ _ := rfl
  value_bytes _ _ := rfl

end Lib.Wire
