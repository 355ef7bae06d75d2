import Orynx.Lib.Protowire
import Orynx.Lark.Frame

/-! # The frame codec

* `Total`, `Insensitive`, `RoundTrips`: decoding ends with a frame or an error and never slices
  beyond the end, unknown fields may stand between any two fields, and what is encoded is decoded
  again;
* `total`, `insensitive`: they hold on every package that implements the wire format;
* `codec_iff`: a frame is decoded from its own encoding and encoded alike again, unless its payload
  is empty and not nil.
-/

namespace Orynx.Lark

open Lib.Wire hiding Bytes

variable {P : Protowire}

/-! ## The properties -/

/-- Equal up to a payload that is nil in one and empty in the other. -/
structure Frame.Same (f g : Frame) : Prop where
  rest : { f with payload := none } = { g with payload := none }
  payload : f.payload.getD [] = g.payload.getD []

/-- No text of the frame takes more than there can be in memory; a header takes sixteen bytes for
each of its strings besides their texts. -/
structure Frame.Fits (f : Frame) : Prop where
  headers : ∀ h ∈ f.headers, 32 + h.key.length + h.value.length < 2 ^ 63
  payloadEncoding : f.payloadEncoding.length < 2 ^ 63
  payloadType : f.payloadType.length < 2 ^ 63
  payload : ∀ p, f.payload = some p → p.length < 2 ^ 63
  logIDNew : f.logIDNew.length < 2 ^ 63

/-- The encoding is decoded to the same frame, which is encoded to the same bytes. -/
def RoundTrips (P : Protowire) (f : Frame) : Prop :=
  ∃ g, unmarshalFrame P (f.marshal P) = .ok g ∧ g.Same f ∧ g.marshal P = f.marshal P

/-- Decoding ends with a frame or an error. -/
def Total (P : Protowire) : Prop :=
  ∀ b, (∃ f, unmarshalFrame P b = .ok f) ∨ ∃ e, unmarshalFrame P b = .error e

/-- Field 5 with the given contents. -/
def headersBytes (b : Bytes) : Bytes := tag 5 .bytes ++ lengthPrefixed b

/-- An unknown field changes nothing, between the fields of a frame and inside a header. -/
structure Insensitive (P : Protowire) : Prop where
  frame : ∀ {a u b : Bytes} {num : Nat} {typ : WireType}, Fields P a → IsField P u num typ →
    (num < 1 ∨ 9 < num) → a ++ b ≠ [] →
    unmarshalFrame P (a ++ (u ++ b)) = unmarshalFrame P (a ++ b)
  header : ∀ {a b ha u hb : Bytes} {num : Nat} {typ : WireType}, Fields P a → Fields P ha →
    IsField P u num typ → (num < 1 ∨ 2 < num) → (ha ++ (u ++ hb)).length < 2 ^ 63 →
    unmarshalFrame P (a ++ (headersBytes (ha ++ (u ++ hb)) ++ b)) =
      unmarshalFrame P (a ++ (headersBytes (ha ++ hb) ++ b))

/-! ## Fields on a package that implements the format -/

section Fields

variable (hP : P.Implements) {α : Type} {field what : String} {typ : WireType}

/-- A parser that takes all of the bytes does so whatever follows. -/
theorem reads_whole {β : Type} {p : Bytes → Except ParseError β} {len : β → Nat} (h : Reads p len)
    {y : Bytes} {a : β} (hy : p y = .ok a) (hlen : len a = y.length) (rest : Bytes) :
    p (y ++ rest) = .ok a := by
  rcases h y a hy with ⟨x, z, rfl, hx, hrest⟩
  obtain rfl : z = [] := by
    apply List.eq_nil_of_length_eq_zero
    rw [List.length_append] at hlen
    omega
  rw [List.append_nil]
  exact hrest rest

/-- Where the package skips the whole value of a parser, the parser takes it. -/
theorem whole_of_skip {β : Type} {p : Bytes → Except ParseError (β × Nat)}
    (hreads : Reads p Prod.snd) {skip : Bytes → Except ParseError Nat}
    (hskip : ∀ b, skip b = (p b).map Prod.snd) {y : Bytes}
    (hy : ∀ rest, skip (y ++ rest) = .ok y.length) :
    ∃ v, ∀ rest, p (y ++ rest) = .ok (v, y.length) := by
  have hnil := hy []
  rw [List.append_nil, hskip] at hnil
  cases hp : p y with
  | error e =>
    rw [hp] at hnil
    cases hnil
  | ok r =>
    rw [hp] at hnil
    obtain ⟨v, n⟩ := r
    obtain rfl : n = y.length := Except.ok.inj hnil
    exact ⟨v, reads_whole hreads hp rfl⟩

include hP

theorem varintField_within (store : UInt64 → α) (b : Bytes) :
    (∃ e, varintField P field what typ b store = .error e) ∨
      ∃ a m, varintField P field what typ b store = .ok (a, m) ∧ m ≤ b.length := by
  unfold varintField
  split
  · exact .inl ⟨_, rfl⟩
  · cases hv : P.consumeVarint b with
    | error e => exact .inl ⟨_, rfl⟩
    | ok r => exact .inr ⟨_, _, rfl, hP.varint_reads.le hv⟩

theorem bytesField_within (store : Bytes → α) (b : Bytes) :
    (∃ e, bytesField P field what typ b store = .error e) ∨
      ∃ a m, bytesField P field what typ b store = .ok (a, m) ∧ m ≤ b.length := by
  unfold bytesField
  split
  · exact .inl ⟨_, rfl⟩
  · cases hv : P.consumeBytes b with
    | error e => exact .inl ⟨_, rfl⟩
    | ok r => exact .inr ⟨_, _, rfl, hP.bytes_reads.le hv⟩

theorem skipField_within (a : α) (num : Nat) (b : Bytes) :
    (∃ e, skipField P what a num typ b = .error e) ∨
      ∃ a' m, skipField P what a num typ b = .ok (a', m) ∧ m ≤ b.length := by
  unfold skipField
  cases hv : P.consumeFieldValue num typ b with
  | error e => exact .inl ⟨_, rfl⟩
  | ok m => exact .inr ⟨_, _, rfl, (hP.value_reads num typ).le hv⟩

variable {num : Nat} {y : Bytes}
  (hy : ∀ rest, P.consumeFieldValue num typ (y ++ rest) = .ok y.length)

include hy

theorem varintField_whole (store : UInt64 → α) :
    (∃ e, ∀ rest, varintField P field what typ (y ++ rest) store = .error e) ∨
      ∃ a, ∀ rest, varintField P field what typ (y ++ rest) store = .ok (a, y.length) := by
  unfold varintField
  by_cases htyp : typ = .varint
  · subst htyp
    rcases whole_of_skip hP.varint_reads (hP.value_varint num) hy with ⟨v, hv⟩
    refine .inr ⟨store v, fun rest => ?_⟩
    rw [if_neg (not_not.2 rfl), hv]
  · exact .inl ⟨_, fun rest => if_pos htyp⟩

theorem bytesField_whole (store : Bytes → α) :
    (∃ e, ∀ rest, bytesField P field what typ (y ++ rest) store = .error e) ∨
      ∃ a, ∀ rest, bytesField P field what typ (y ++ rest) store = .ok (a, y.length) := by
  unfold bytesField
  by_cases htyp : typ = .bytes
  · subst htyp
    rcases whole_of_skip hP.bytes_reads (hP.value_bytes num) hy with ⟨v, hv⟩
    refine .inr ⟨store v, fun rest => ?_⟩
    rw [if_neg (not_not.2 rfl), hv]
  · exact .inl ⟨_, fun rest => if_pos htyp⟩

omit hP in
theorem skipField_whole (a : α) :
    (∃ e, ∀ rest, skipField P what a num typ (y ++ rest) = .error e) ∨
      ∃ a', ∀ rest, skipField P what a num typ (y ++ rest) = .ok (a', y.length) := by
  refine .inr ⟨a, fun rest => ?_⟩
  rw [skipField, hy]

end Fields

/-! ## Decoding ends -/

section Decoding

variable (hP : P.Implements)

include hP

theorem headerField_within : Within (headerField P) := by
  intro h num typ b
  unfold headerField
  split
  · exact bytesField_within hP _ b
  · exact bytesField_within hP _ b
  · exact skipField_within hP h num b

theorem headerField_whole : Whole P (headerField P) := by
  intro h num typ y hy
  unfold headerField
  split
  · exact bytesField_whole hP hy _
  · exact bytesField_whole hP hy _
  · exact skipField_whole hy h

/-- A header is read or rejected. -/
theorem unmarshalHeader_total (b : Bytes) :
    (∃ h, unmarshalHeader P b = .ok h) ∨ ∃ e, unmarshalHeader P b = .error e :=
  readMessage_total hP (headerField_within hP) b.length b _ (Nat.le_refl _)

theorem headersField_within (f : Frame) (typ : WireType) (b : Bytes) :
    (∃ e, headersField P f typ b = .error e) ∨
      ∃ a m, headersField P f typ b = .ok (a, m) ∧ m ≤ b.length := by
  unfold headersField
  split
  · exact .inl ⟨_, rfl⟩
  · cases hv : P.consumeBytes b with
    | error e => exact .inl ⟨_, rfl⟩
    | ok r =>
      rcases unmarshalHeader_total hP r.1 with ⟨h, hh⟩ | ⟨e, he⟩
      · dsimp only
        rw [hh]
        exact .inr ⟨_, _, rfl, hP.bytes_reads.le hv⟩
      · dsimp only
        rw [he]
        exact .inl ⟨e, rfl⟩

theorem headersField_whole (f : Frame) {num : Nat} {typ : WireType} {y : Bytes}
    (hy : ∀ rest, P.consumeFieldValue num typ (y ++ rest) = .ok y.length) :
    (∃ e, ∀ rest, headersField P f typ (y ++ rest) = .error e) ∨
      ∃ a, ∀ rest, headersField P f typ (y ++ rest) = .ok (a, y.length) := by
  unfold headersField
  by_cases htyp : typ = .bytes
  · subst htyp
    rcases whole_of_skip hP.bytes_reads (hP.value_bytes num) hy with ⟨v, hv⟩
    rcases unmarshalHeader_total hP v with ⟨h, hh⟩ | ⟨e, he⟩
    · refine .inr ⟨{ f with headers := f.headers ++ [h] }, fun rest => ?_⟩
      rw [if_neg (not_not.2 rfl), hv]
      dsimp only
      rw [hh, addHeader]
    · refine .inl ⟨e, fun rest => ?_⟩
      rw [if_neg (not_not.2 rfl), hv]
      dsimp only
      rw [he, addHeader]
  · exact .inl ⟨_, fun rest => if_pos htyp⟩

theorem frameField_within : Within (frameField P) := by
  intro f num typ b
  unfold frameField
  split
  · exact varintField_within hP _ b
  · exact varintField_within hP _ b
  · exact varintField_within hP _ b
  · exact varintField_within hP _ b
  · exact headersField_within hP f typ b
  · exact bytesField_within hP _ b
  · exact bytesField_within hP _ b
  · exact bytesField_within hP _ b
  · exact bytesField_within hP _ b
  · exact skipField_within hP f num b

theorem frameField_whole : Whole P (frameField P) := by
  intro f num typ y hy
  unfold frameField
  split
  · exact varintField_whole hP hy _
  · exact varintField_whole hP hy _
  · exact varintField_whole hP hy _
  · exact varintField_whole hP hy _
  · exact headersField_whole hP f hy
  · exact bytesField_whole hP hy _
  · exact bytesField_whole hP hy _
  · exact bytesField_whole hP hy _
  · exact bytesField_whole hP hy _
  · exact skipField_whole hy f

theorem total : Total P := by
  intro b
  unfold unmarshalFrame
  split
  · exact .inr ⟨_, rfl⟩
  · exact readMessage_total hP (frameField_within hP) b.length b _ (Nat.le_refl _)

/-! ## Unknown fields -/

omit hP in
theorem skipField_ok (what : String) {α : Type} (a : α) {num n : Nat} {typ : WireType} {b : Bytes}
    (h : P.consumeFieldValue num typ b = .ok n) : skipField P what a num typ b = .ok (a, n) := by
  rw [skipField, h]

omit hP in
theorem frameField_unknown {num : Nat} (hnum : num < 1 ∨ 9 < num) (f : Frame) (typ : WireType)
    (b : Bytes) : frameField P f num typ b = skipField P "skip unknown field" f num typ b := by
  unfold frameField
  split
  case h_10 => rfl
  all_goals omega

omit hP in
theorem headerField_unknown {num : Nat} (hnum : num < 1 ∨ 2 < num) (h : FrameHeader)
    (typ : WireType) (b : Bytes) :
    headerField P h num typ b = skipField P "skip header field" h num typ b := by
  unfold headerField
  split
  case h_3 => rfl
  all_goals omega

theorem unmarshalHeader_insert {a u b : Bytes} {num : Nat} {typ : WireType} (ha : Fields P a)
    (hu : IsField P u num typ) (hnum : num < 1 ∨ 2 < num) :
    unmarshalHeader P (a ++ (u ++ b)) = unmarshalHeader P (a ++ b) := by
  refine readAll_insert hP (headerField_within hP) (headerField_whole hP) ha hu ?_ _
  intro h b n hn
  rw [headerField_unknown hnum]
  exact skipField_ok _ h hn

theorem isField_ne_nil {u : Bytes} {num : Nat} {typ : WireType} (hu : IsField P u num typ) :
    u ≠ [] := by
  rcases hu.split with ⟨x, y, rfl, hx, -⟩
  exact fun h => tag_ne_nil hP hx (List.append_eq_nil_iff.1 h).1

theorem unmarshalFrame_insert {a u b : Bytes} {num : Nat} {typ : WireType} (ha : Fields P a)
    (hu : IsField P u num typ) (hnum : num < 1 ∨ 9 < num) (hne : a ++ b ≠ []) :
    unmarshalFrame P (a ++ (u ++ b)) = unmarshalFrame P (a ++ b) := by
  have hne' : a ++ (u ++ b) ≠ [] := by
    intro h
    exact isField_ne_nil hP hu (List.append_eq_nil_iff.1 (List.append_eq_nil_iff.1 h).2).1
  unfold unmarshalFrame
  rw [if_neg hne, if_neg hne']
  refine readAll_insert hP (frameField_within hP) (frameField_whole hP) ha hu ?_ _
  intro f b n hn
  rw [frameField_unknown hnum]
  exact skipField_ok _ f hn

/-- A field of the frame with the number and the value given, on a package for the format. -/
theorem readAll_frameField {num : Nat} {typ : WireType} (hnum : ValidNumber num) {f g : Frame}
    {y rest : Bytes} (hy : frameField P f num typ (y ++ rest) = .ok (g, y.length)) :
    frameLoop P (tag num typ ++ (y ++ rest)) f =
      frameLoop P rest g :=
  readAll_field hP (frameField_within hP) (fun rest => hP.consumeTag num typ rest hnum) hy

theorem frameField_headers {z b : Bytes} (hz : z.length < 2 ^ 63) (f : Frame) :
    frameField P f 5 .bytes (lengthPrefixed z ++ b) =
      addHeader f (lengthPrefixed z).length (unmarshalHeader P z) := by
  show headersField P f .bytes (lengthPrefixed z ++ b) = _
  rw [headersField, if_neg (not_not.2 rfl), hP.consumeBytes z b hz]

theorem readAll_header_error {z b : Bytes} (hz : z.length < 2 ^ 63) {e : String}
    (h : unmarshalHeader P z = .error e) (f : Frame) :
    frameLoop P (headersBytes z ++ b) f = .error e := by
  unfold headersBytes
  rw [List.append_assoc]
  refine readAll_error hP (fun rest => hP.consumeTag 5 .bytes rest (by decide)) ?_
  rw [frameField_headers hP hz, h, addHeader]

theorem readAll_header {z b : Bytes} (hz : z.length < 2 ^ 63) {h : FrameHeader}
    (hh : unmarshalHeader P z = .ok h) (f : Frame) :
    frameLoop P (headersBytes z ++ b) f =
      frameLoop P b
        { f with headers := f.headers ++ [h] } := by
  unfold headersBytes
  rw [List.append_assoc]
  refine readAll_frameField hP (by decide) ?_
  rw [frameField_headers hP hz, hh, addHeader]

/-- Headers that are read alike stand for each other. -/
theorem readAll_headers {x y b : Bytes} (hx : x.length < 2 ^ 63) (hy : y.length < 2 ^ 63)
    (h : unmarshalHeader P x = unmarshalHeader P y) (f : Frame) :
    frameLoop P (headersBytes x ++ b) f =
      frameLoop P (headersBytes y ++ b) f := by
  rcases unmarshalHeader_total hP x with ⟨hdr, hok⟩ | ⟨e, he⟩
  · rw [readAll_header hP hx hok, readAll_header hP hy (h.symm.trans hok)]
  · rw [readAll_header_error hP hx he, readAll_header_error hP hy (h.symm.trans he)]

/-- An unknown field inside a header. -/
theorem unmarshalFrame_insert_header {a b ha u hb : Bytes} {num : Nat} {typ : WireType}
    (hfields : Fields P a) (hha : Fields P ha) (hu : IsField P u num typ)
    (hnum : num < 1 ∨ 2 < num) (hlen : (ha ++ (u ++ hb)).length < 2 ^ 63) :
    unmarshalFrame P (a ++ (headersBytes (ha ++ (u ++ hb)) ++ b)) =
      unmarshalFrame P (a ++ (headersBytes (ha ++ hb) ++ b)) := by
  have hlen' : (ha ++ hb).length < 2 ^ 63 := by
    rw [List.length_append, List.length_append] at hlen
    rw [List.length_append]
    omega
  have hsame := readAll_headers hP (b := b) hlen hlen' (unmarshalHeader_insert hP hha hu hnum)
  have hne : ∀ x, a ++ (headersBytes x ++ b) ≠ [] := by
    intro x h
    have htag : tag 5 .bytes = [] :=
      (List.append_eq_nil_iff.1 (List.append_eq_nil_iff.1 (List.append_eq_nil_iff.1 h).2).1).1
    exact tag_ne_nil hP (fun rest => hP.consumeTag 5 .bytes rest (by decide)) htag
  unfold unmarshalFrame
  rw [if_neg (hne _), if_neg (hne _)]
  have hread : (∃ e, ∀ rest, frameLoop P (a ++ rest) {} =
        .error e) ∨
      ∃ f, ∀ rest, frameLoop P (a ++ rest) {} =
        frameLoop P rest f :=
    readAll_fields hP (frameField_within hP) (frameField_whole hP) hfields {}
  rcases hread with ⟨e, he⟩ | ⟨f, hf⟩
  · rw [he, he]
  · rw [hf, hf, hsame]

theorem insensitive : Insensitive P where
  frame ha hu hnum hne := unmarshalFrame_insert hP ha hu hnum hne
  header ha hha hu hnum hlen := unmarshalFrame_insert_header hP ha hha hu hnum hlen

end Decoding

/-! ## What is written -/

def varintBytes (num : Nat) (v : UInt64) : Bytes := tag num .varint ++ varint v.toNat

def textBytes (num : Nat) (v : Bytes) : Bytes := tag num .bytes ++ lengthPrefixed v

def headerContents (h : FrameHeader) : Bytes := textBytes 1 h.key ++ textBytes 2 h.value

def payloadBytes : Option Bytes → Bytes
  | none => []
  | some p => textBytes 8 p

/-- The encoding of a frame, field by field. -/
def frameBytes (f : Frame) : Bytes :=
  varintBytes 1 f.seqID ++ (varintBytes 2 f.logID ++
    (varintBytes 3 f.service.toUInt32.toUInt64 ++ (varintBytes 4 f.method.toUInt32.toUInt64 ++
      (f.headers.flatMap (fun h => headersBytes (headerContents h)) ++
        (textBytes 6 f.payloadEncoding ++ (textBytes 7 f.payloadType ++
          (payloadBytes f.payload ++ textBytes 9 f.logIDNew)))))))

section Encoding

variable (hP : P.Implements) {buf rest : Bytes} {num : Nat}

theorem varintOf_length_le (k n : Nat) : (varintOf k n).length ≤ k + 1 := by
  induction k generalizing n with
  | zero => exact Nat.le_refl _
  | succ k ih =>
    unfold varintOf
    split
    · simp
    · have hle := ih (n / 128)
      rw [List.length_cons]
      omega

theorem headerContents_length_lt {h : FrameHeader}
    (hh : 32 + h.key.length + h.value.length < 2 ^ 63) : (headerContents h).length < 2 ^ 63 := by
  have hone : (tag 1 .bytes).length = 1 := rfl
  have htwo : (tag 2 .bytes).length = 1 := rfl
  have hkey : (varint h.key.length).length ≤ 10 := varintOf_length_le 9 h.key.length
  have hvalue : (varint h.value.length).length ≤ 10 := varintOf_length_le 9 h.value.length
  simp only [headerContents, textBytes, lengthPrefixed, List.length_append, hone, htwo]
  omega

include hP

theorem marshalVarint_eq (hnum : ValidNumber num) (v : UInt64) :
    marshalVarint P buf num v = buf ++ varintBytes num v := by
  rw [marshalVarint, hP.appendTag buf num _ hnum, hP.appendVarint, List.append_assoc, varintBytes]

theorem marshalBytes_eq (hnum : ValidNumber num) {v : Bytes} (hv : v.length < 2 ^ 63) :
    marshalBytes P buf num v = buf ++ textBytes num v := by
  rw [marshalBytes, hP.appendTag buf num _ hnum, hP.appendBytes _ v hv, List.append_assoc,
    textBytes]

theorem headerSize_eq {h : FrameHeader} (hh : 32 + h.key.length + h.value.length < 2 ^ 63) :
    headerSize P h = (headerContents h).length := by
  rw [headerSize, hP.sizeTag 1 (by decide), hP.sizeTag 2 (by decide), hP.sizeBytes _ (by omega),
    hP.sizeBytes _ (by omega)]
  simp only [headerContents, textBytes, lengthPrefixed, List.length_append]

theorem marshalHeader_eq {h : FrameHeader} (hh : 32 + h.key.length + h.value.length < 2 ^ 63) :
    marshalHeader P buf h = buf ++ headersBytes (headerContents h) := by
  have hlen := headerContents_length_lt hh
  have hsize : (UInt64.ofNat (headerSize P h)).toNat = (headerContents h).length := by
    rw [headerSize_eq hP hh, UInt64.toNat_ofNat']
    exact Nat.mod_eq_of_lt (by omega)
  unfold marshalHeader
  dsimp only
  rw [marshalBytes_eq hP (by decide) (by omega), marshalBytes_eq hP (by decide) (by omega),
    hP.appendVarint, hP.appendTag _ 5 _ (by decide), hsize]
  simp only [headersBytes, headerContents, lengthPrefixed, List.append_assoc]

theorem marshalHeaders_eq {hs : List FrameHeader}
    (hh : ∀ h ∈ hs, 32 + h.key.length + h.value.length < 2 ^ 63) :
    hs.foldl (marshalHeader P) buf =
      buf ++ hs.flatMap (fun h => headersBytes (headerContents h)) := by
  induction hs generalizing buf with
  | nil => exact (List.append_nil buf).symm
  | cons h hs ih =>
    rw [List.foldl_cons, marshalHeader_eq hP (hh h List.mem_cons_self),
      ih fun h' hmem => hh h' (List.mem_cons_of_mem _ hmem), List.flatMap_cons, List.append_assoc]

theorem marshal_eq {f : Frame} (hf : f.Fits) : f.marshal P = frameBytes f := by
  unfold Frame.marshal frameBytes
  dsimp only
  rw [marshalVarint_eq hP (by decide), marshalVarint_eq hP (by decide),
    marshalVarint_eq hP (by decide), marshalVarint_eq hP (by decide),
    marshalHeaders_eq hP hf.headers, marshalBytes_eq hP (by decide) hf.payloadEncoding,
    marshalBytes_eq hP (by decide) hf.payloadType, marshalBytes_eq hP (by decide) hf.logIDNew]
  cases hp : f.payload with
  | none => simp only [payloadBytes, List.append_assoc, List.nil_append]
  | some p =>
    dsimp only
    rw [marshalBytes_eq hP (by decide) (hf.payload p hp)]
    simp only [payloadBytes, List.append_assoc, List.nil_append]

/-! ## What is read of it -/

theorem varintField_ok {α : Type} (field what : String) (v : UInt64) (store : UInt64 → α) :
    varintField P field what .varint (varint v.toNat ++ rest) store =
      .ok (store v, (varint v.toNat).length) := by
  rw [varintField, if_neg (not_not.2 rfl), hP.consumeVarint]

theorem bytesField_ok {α : Type} (field what : String) {v : Bytes} (hv : v.length < 2 ^ 63)
    (store : Bytes → α) :
    bytesField P field what .bytes (lengthPrefixed v ++ rest) store =
      .ok (store v, (lengthPrefixed v).length) := by
  rw [bytesField, if_neg (not_not.2 rfl), hP.consumeBytes v rest hv]

theorem unmarshalHeader_contents {h : FrameHeader}
    (hh : 32 + h.key.length + h.value.length < 2 ^ 63) :
    unmarshalHeader P (headerContents h) = .ok h := by
  have htext : ∀ (num : Nat) (v rest : Bytes) (a b : FrameHeader), ValidNumber num →
      headerField P a num .bytes (lengthPrefixed v ++ rest) = .ok (b, (lengthPrefixed v).length) →
      readAll P (frameError "header tag") (headerField P) (textBytes num v ++ rest) a =
        readAll P (frameError "header tag") (headerField P) rest b := by
    intro num v rest a b hnum hfield
    unfold textBytes
    rw [List.append_assoc]
    exact readAll_field hP (headerField_within hP) (fun r => hP.consumeTag num .bytes r hnum) hfield
  rw [unmarshalHeader, headerContents, ← List.append_nil (textBytes 2 h.value)]
  calc readAll P (frameError "header tag") (headerField P)
        (textBytes 1 h.key ++ (textBytes 2 h.value ++ [])) { key := [], value := [] }
      = readAll P (frameError "header tag") (headerField P) (textBytes 2 h.value ++ [])
          { key := h.key, value := [] } :=
        htext 1 h.key _ _ _ (by decide) (by exact bytesField_ok hP _ _ (by omega) _)
    _ = readAll P (frameError "header tag") (headerField P) [] h :=
        htext 2 h.value _ _ _ (by decide) (by exact bytesField_ok hP _ _ (by omega) _)
    _ = .ok h := rfl

theorem readAll_text {v : Bytes} (hnum : ValidNumber num) {f g : Frame}
    (hy : frameField P f num .bytes (lengthPrefixed v ++ rest) =
      .ok (g, (lengthPrefixed v).length)) :
    frameLoop P (textBytes num v ++ rest) f =
      frameLoop P rest g := by
  unfold textBytes
  rw [List.append_assoc]
  exact readAll_frameField hP hnum hy

theorem readAll_varint {v : UInt64} (hnum : ValidNumber num) {f g : Frame}
    (hy : frameField P f num .varint (varint v.toNat ++ rest) =
      .ok (g, (varint v.toNat).length)) :
    frameLoop P (varintBytes num v ++ rest) f =
      frameLoop P rest g := by
  unfold varintBytes
  rw [List.append_assoc]
  exact readAll_frameField hP hnum hy

theorem readAll_headerList {hs : List FrameHeader}
    (hh : ∀ h ∈ hs, 32 + h.key.length + h.value.length < 2 ^ 63) (f : Frame) :
    frameLoop P
        (hs.flatMap (fun h => headersBytes (headerContents h)) ++ rest) f =
      frameLoop P rest
        { f with headers := f.headers ++ hs } := by
  induction hs generalizing f with
  | nil =>
    rw [List.append_nil]
    rfl
  | cons h hs ih =>
    have hfit := hh h List.mem_cons_self
    rw [List.flatMap_cons, List.append_assoc,
      readAll_header hP (headerContents_length_lt hfit) (unmarshalHeader_contents hP hfit),
      ih fun h' hmem => hh h' (List.mem_cons_of_mem _ hmem), List.append_assoc]
    rfl

/-- What is read of a frame: an empty payload comes back nil. -/
def Frame.decoded (f : Frame) : Frame := { f with payload := f.payload.bind copyBytes }

theorem readAll_payload {p : Option Bytes} (hp : ∀ v, p = some v → v.length < 2 ^ 63) {f : Frame}
    (hf : f.payload = none) :
    frameLoop P (payloadBytes p ++ rest) f =
      frameLoop P rest
        { f with payload := p.bind copyBytes } := by
  cases p with
  | none =>
    have hsame : { f with payload := none } = f := by
      rw [← hf]
    exact congrArg _ hsame.symm
  | some v =>
    exact readAll_text hP (by decide) (by exact bytesField_ok hP _ _ (hp v rfl) _)

omit hP in
theorem int32_roundtrip (x : Int32) : x.toUInt32.toUInt64.toUInt32.toInt32 = x := by
  simp

theorem readAll_frameBytes {f : Frame} (hf : f.Fits) :
    frameLoop P (frameBytes f) {} = .ok f.decoded := by
  have h1 : ∀ g r, frameLoop P
      (varintBytes 1 f.seqID ++ r) g =
      frameLoop P r { g with seqID := f.seqID } :=
    fun g r => readAll_varint hP (by decide) (by exact varintField_ok hP _ _ _ _)
  have h2 : ∀ g r, frameLoop P
      (varintBytes 2 f.logID ++ r) g =
      frameLoop P r { g with logID := f.logID } :=
    fun g r => readAll_varint hP (by decide) (by exact varintField_ok hP _ _ _ _)
  have h3 : ∀ g r, frameLoop P
      (varintBytes 3 f.service.toUInt32.toUInt64 ++ r) g =
      frameLoop P r { g with service := f.service } := by
    intro g r
    have hread : frameLoop P (varintBytes 3 f.service.toUInt32.toUInt64 ++ r) g = frameLoop P r
        { g with service := f.service.toUInt32.toUInt64.toUInt32.toInt32 } :=
      readAll_varint hP (by decide) (by exact varintField_ok hP _ _ _ _)
    rwa [int32_roundtrip] at hread
  have h4 : ∀ g r, frameLoop P
      (varintBytes 4 f.method.toUInt32.toUInt64 ++ r) g =
      frameLoop P r { g with method := f.method } := by
    intro g r
    have hread : frameLoop P (varintBytes 4 f.method.toUInt32.toUInt64 ++ r) g = frameLoop P r
        { g with method := f.method.toUInt32.toUInt64.toUInt32.toInt32 } :=
      readAll_varint hP (by decide) (by exact varintField_ok hP _ _ _ _)
    rwa [int32_roundtrip] at hread
  have h6 : ∀ g r, frameLoop P
      (textBytes 6 f.payloadEncoding ++ r) g =
      frameLoop P r { g with payloadEncoding := f.payloadEncoding } :=
    fun g r => readAll_text hP (by decide) (by exact bytesField_ok hP _ _ hf.payloadEncoding _)
  have h7 : ∀ g r, frameLoop P
      (textBytes 7 f.payloadType ++ r) g =
      frameLoop P r { g with payloadType := f.payloadType } :=
    fun g r => readAll_text hP (by decide) (by exact bytesField_ok hP _ _ hf.payloadType _)
  have h9 : ∀ g, frameLoop P (textBytes 9 f.logIDNew ++ []) g =
      .ok { g with logIDNew := f.logIDNew } :=
    fun g => readAll_text hP (by decide) (by exact bytesField_ok hP _ _ hf.logIDNew _)
  rw [List.append_nil] at h9
  unfold frameBytes
  rw [h1, h2, h3, h4, readAll_headerList hP hf.headers, h6, h7, readAll_payload hP hf.payload, h9]
  · rfl
  · rfl

/-- A frame is decoded from its own encoding. -/
theorem unmarshalFrame_marshal {f : Frame} (hf : f.Fits) :
    unmarshalFrame P (f.marshal P) = .ok f.decoded := by
  have hne : frameBytes f ≠ [] := by
    intro h
    have htag : tag 1 .varint = [] :=
      (List.append_eq_nil_iff.1 (List.append_eq_nil_iff.1 h).1).1
    exact tag_ne_nil hP (fun rest => hP.consumeTag 1 .varint rest (by decide)) htag
  rw [marshal_eq hP hf, unmarshalFrame, if_neg hne]
  exact readAll_frameBytes hP hf

omit hP in
/-- Nothing is lost but the difference between an empty payload and none. -/
theorem decoded_eq {f : Frame} (h : f.payload ≠ some []) : f.decoded = f := by
  unfold Frame.decoded
  cases hp : f.payload with
  | none => rw [Option.bind_none, ← hp]
  | some v =>
    have hv : v ≠ [] := by
      rintro rfl
      exact h hp
    rw [Option.bind_some, copyBytes, if_neg hv, ← hp]

omit hP in
theorem decoded_same (f : Frame) : f.decoded.Same f where
  rest := rfl
  payload := by
    show (f.payload.bind copyBytes).getD [] = f.payload.getD []
    cases f.payload with
    | none => rfl
    | some v => exact copyBytes_getD v

omit hP in
theorem decoded_fits {f : Frame} (hf : f.Fits) : f.decoded.Fits := by
  refine { hf with payload := fun p hp => ?_ }
  rcases Option.bind_eq_some_iff.1 hp with ⟨v, hv, hcopy⟩
  obtain ⟨-, heq⟩ := Option.ite_none_left_eq_some.1 hcopy
  obtain rfl := Option.some.inj heq
  exact hf.payload v hv

omit hP in
/-- An empty payload takes two bytes, and none takes nothing. -/
theorem frameBytes_empty_payload {f : Frame} (h : f.payload = some []) :
    frameBytes f.decoded ≠ frameBytes f := by
  intro heq
  have hlen := congrArg List.length heq
  have htwo : (payloadBytes f.payload).length = 2 := by
    rw [h]
    rfl
  have hnone : (payloadBytes f.decoded.payload).length = 0 := by
    rw [Frame.decoded, h]
    rfl
  simp only [frameBytes, List.length_append, htwo, hnone] at hlen
  simp only [Frame.decoded] at hlen
  omega

/-- The tag of an empty payload is lost. -/
theorem not_roundTrips {f : Frame} (hf : f.Fits) (hempty : f.payload = some []) :
    ¬RoundTrips P f := by
  rintro ⟨g, hg, -, hsame⟩
  have hdecoded : g = f.decoded := by
    rw [unmarshalFrame_marshal hP hf] at hg
    exact (Outcome.ok.inj hg).symm
  rw [hdecoded, marshal_eq hP hf, marshal_eq hP (decoded_fits hf)] at hsame
  exact frameBytes_empty_payload hempty hsame

end Encoding

/-- A frame comes back from its encoding and is encoded alike again, and decoding is total and
insensitive to unknown fields, if and only if the payload is not an empty one. -/
theorem codec_iff (P : Protowire) (hP : P.Implements) (f : Frame) (hf : f.Fits) :
    (RoundTrips P f ∧ Insensitive P ∧ Total P) ↔ f.payload ≠ some [] := by
  constructor
  · rintro ⟨hround, -, -⟩ hempty
    exact not_roundTrips hP hf hempty hround
  · intro h
    refine ⟨⟨f.decoded, unmarshalFrame_marshal hP hf, decoded_same f, ?_⟩, insensitive hP, total hP⟩
    rw [decoded_eq h]

/-- A negative service, a header and a payload. -/
def ackExample : Frame where
  service := -1
  method := 1
  headers := [{ key := [116, 121, 112, 101], value := [] }]
  payload := some [123, 125]

theorem codec_ackExample :
    RoundTrips standard ackExample ∧ Insensitive standard ∧ Total standard :=
  (codec_iff standard standard_implements ackExample {
    headers := by decide
    payloadEncoding := by decide
    payloadType := by decide
    payload := by
      intro p hp
      obtain rfl := Option.some.inj hp
      decide
    logIDNew := by decide }).2 (by decide)

/-- A frame whose payload is empty and not nil. -/
def emptyPayload : Frame := { payload := some [] }

theorem not_roundTrips_emptyPayload : emptyPayload.Fits ∧ ¬RoundTrips standard emptyPayload := by
  have hfits : emptyPayload.Fits := {
    headers := by decide
    payloadEncoding := by decide
    payloadType := by decide
    payload := by
      intro p hp
      obtain rfl := Option.some.inj hp
      decide
    logIDNew := by decide }
  exact ⟨hfits, not_roundTrips standard_implements hfits rfl⟩

end Orynx.Lark
