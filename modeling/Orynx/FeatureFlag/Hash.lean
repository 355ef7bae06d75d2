import Orynx.Lib.JsInt32

/-! # The bucket of a rollout

`bucketFor` and `inPercent`, of `server/pkg/featureflag/hash.go` and of
`packages/core/feature-flags/hash.ts`. The server hashes in `uint32`, the client in the signed
32-bit integers of JavaScript; `bucketFor_agree` says that the buckets are the same.
-/

namespace Orynx.FeatureFlag

open Lib.JsInt32

/-- The bytes of a text in UTF-8, by `[]byte(s)` and by `TextEncoder`. -/
def utf8 (s : String) : List UInt8 := s.toUTF8.data.toList

namespace Go

/-- `Write` of `fnv.New32a`. -/
def write (h : UInt32) (bytes : List UInt8) : UInt32 :=
  bytes.foldl (fun h b => (h ^^^ b.toUInt32) * 16777619) h

def bucketFor (key identifier : String) : Int :=
  let h := write 2166136261 (utf8 key)
  let h := write h [0]
  let h := write h (utf8 identifier)
  Int.ofNat (h.toNat % 100)

def inPercent (key identifier : String) (percent : Int) : Bool :=
  if percent ≤ 0 then false
  else if 100 ≤ percent then true
  else decide (bucketFor key identifier < percent)

end Go

namespace Ts

def hashByte (hash : Int) (b : UInt8) : Int := imul (bitXor hash b.toNat) 0x01000193

/-- One part after a separator, which stands between the parts only. -/
def hashParts : Int → List String → Int
  | hash, [] => hash
  | hash, part :: rest =>
    hashParts ((utf8 part).foldl hashByte (imul (bitXor hash 0) 0x01000193)) rest

def fnv1a : List String → Nat
  | [] => toUint32 0x811c9dc5
  | part :: rest => toUint32 (hashParts ((utf8 part).foldl hashByte 0x811c9dc5) rest)

def bucketFor (key identifier : String) : Int := Int.ofNat (fnv1a [key, identifier] % 100)

def inPercent (key identifier : String) (percent : Int) : Bool :=
  if percent ≤ 0 then false
  else if 100 ≤ percent then true
  else decide (bucketFor key identifier < percent)

end Ts

/-- One number holds the bits of the other. -/
def SameBits (h : UInt32) (x : Int) : Prop := BitVec.ofInt 32 x = h.toBitVec

theorem sameBits_byte {h : UInt32} {x : Int} (hx : SameBits h x) (b : UInt8) :
    SameBits ((h ^^^ b.toUInt32) * 16777619) (Ts.hashByte x b) := by
  unfold SameBits Ts.hashByte
  rw [ofInt_imul, ofInt_bitXor, hx]
  have hb : BitVec.ofInt 32 (b.toNat : Int) = b.toUInt32.toBitVec := by
    rw [BitVec.ofInt_natCast]
    apply BitVec.eq_of_toNat_eq
    simp
  rw [hb]
  rfl

theorem sameBits_write {h : UInt32} {x : Int} (hx : SameBits h x) (bytes : List UInt8) :
    SameBits (Go.write h bytes) (bytes.foldl Ts.hashByte x) := by
  induction bytes generalizing h x with
  | nil => exact hx
  | cons b rest ih => exact ih (sameBits_byte hx b)

/-- The zero byte between the key and the identifier. -/
theorem sameBits_separator {h : UInt32} {x : Int} (hx : SameBits h x) :
    SameBits (Go.write h [0]) (imul (bitXor x 0) 0x01000193) :=
  sameBits_byte hx 0

theorem bucketFor_agree (key identifier : String) :
    Go.bucketFor key identifier = Ts.bucketFor key identifier := by
  have hkey : SameBits (Go.write 2166136261 (utf8 key))
      ((utf8 key).foldl Ts.hashByte 0x811c9dc5) := by
    refine sameBits_write ?_ (utf8 key)
    unfold SameBits
    decide
  have hall := sameBits_write (sameBits_separator hkey) (utf8 identifier)
  unfold SameBits at hall
  unfold Go.bucketFor Ts.bucketFor Ts.fnv1a toUint32
  dsimp only [Ts.hashParts]
  rw [hall]
  rfl

theorem inPercent_agree (key identifier : String) (percent : Int) :
    Go.inPercent key identifier percent = Ts.inPercent key identifier percent := by
  unfold Go.inPercent Ts.inPercent
  rw [bucketFor_agree]

end Orynx.FeatureFlag
