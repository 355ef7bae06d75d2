import Orynx.Lib.WireFormat
import Orynx.Lark.Chunks

/-! # Frames of the Lark long connection

The envelope in which the connector sends and receives, encoded by hand on top of a package for the
protobuf wire format. A Go string is its bytes, so `AppendString` and `ConsumeString` are
`appendBytes` and `consumeBytes`.

* `Frame.marshal`, `unmarshalFrame`: the two directions.
-/

namespace Orynx.Lark

open Lib.Wire hiding Bytes

structure FrameHeader where
  key : Bytes
  value : Bytes
  deriving DecidableEq, Repr

/-- A payload may be nil. -/
structure Frame where
  seqID : UInt64 := 0
  logID : UInt64 := 0
  service : Int32 := 0
  method : Int32 := 0
  headers : List FrameHeader := []
  payloadEncoding : Bytes := []
  payloadType : Bytes := []
  payload : Option Bytes := none
  logIDNew : Bytes := []
  deriving DecidableEq

variable (P : Protowire)

/-! ## Encoding -/

def headerSize (h : FrameHeader) : Nat :=
  P.sizeTag 1 + P.sizeBytes h.key.length + (P.sizeTag 2 + P.sizeBytes h.value.length)

def marshalVarint (buf : Bytes) (num : Nat) (v : UInt64) : Bytes :=
  P.appendVarint (P.appendTag buf num .varint) v

def marshalBytes (buf : Bytes) (num : Nat) (v : Bytes) : Bytes :=
  P.appendBytes (P.appendTag buf num .bytes) v

def marshalHeader (buf : Bytes) (h : FrameHeader) : Bytes :=
  let buf := P.appendVarint (P.appendTag buf 5 .bytes) (UInt64.ofNat (headerSize P h))
  marshalBytes P (marshalBytes P buf 1 h.key) 2 h.value

/-- Every field but the payload is written also when it is zero or empty. -/
def Frame.marshal (f : Frame) : Bytes :=
  let buf := marshalVarint P [] 1 f.seqID
  let buf := marshalVarint P buf 2 f.logID
  let buf := marshalVarint P buf 3 f.service.toUInt32.toUInt64
  let buf := marshalVarint P buf 4 f.method.toUInt32.toUInt64
  let buf := f.headers.foldl (marshalHeader P) buf
  let buf := marshalBytes P buf 6 f.payloadEncoding
  let buf := marshalBytes P buf 7 f.payloadType
  let buf := match f.payload with
    | some payload => marshalBytes P buf 8 payload
    | none => buf
  marshalBytes P buf 9 f.logIDNew

/-! ## Decoding -/

/-- The text of a wire error. -/
def parseErrorText : ParseError → String
  | .unexpectedEOF => "unexpected EOF"
  | .fieldNumber => "invalid field number"
  | .overflow => "variable length integer overflow"
  | .reserved => "cannot parse reserved wire type"
  | .endGroup => "mismatching end group marker"
  | .parse => "parse error"

/-- `fmt.Errorf("ws frame: ...: %w", err)`. -/
def frameError (what : String) (e : ParseError) : String :=
  "ws frame: " ++ what ++ ": " ++ parseErrorText e

def expects (field want : String) (got : WireType) : String :=
  "ws frame: " ++ field ++ " expects " ++ want ++ ", got " ++ toString got.code

section Fields

variable {α : Type}

/-- A field that takes a varint. -/
def varintField (field what : String) (typ : WireType) (b : Bytes) (store : UInt64 → α) :
    Outcome String (α × Nat) :=
  if typ ≠ .varint then .error (expects field "varint" typ)
  else match P.consumeVarint b with
    | .error e => .error (frameError ("consume " ++ what) e)
    | .ok (v, m) => .ok (store v, m)

/-- A field that takes a string or bytes. -/
def bytesField (field what : String) (typ : WireType) (b : Bytes) (store : Bytes → α) :
    Outcome String (α × Nat) :=
  if typ ≠ .bytes then .error (expects field "bytes" typ)
  else match P.consumeBytes b with
    | .error e => .error (frameError what e)
    | .ok (v, m) => .ok (store v, m)

/-- A field that is not known is skipped. -/
def skipField (what : String) (a : α) (num : Nat) (typ : WireType) (b : Bytes) :
    Outcome String (α × Nat) :=
  match P.consumeFieldValue num typ b with
  | .error e => .error (frameError (what ++ " " ++ toString num) e)
  | .ok m => .ok (a, m)

end Fields

def headerField (h : FrameHeader) (num : Nat) (typ : WireType) (b : Bytes) :
    Outcome String (FrameHeader × Nat) :=
  match num with
  | 1 => bytesField P "header.key" "header.key" typ b fun s => { h with key := s }
  | 2 => bytesField P "header.value" "header.value" typ b fun s => { h with value := s }
  | _ => skipField P "skip header field" h num typ b

def unmarshalHeader (b : Bytes) : Outcome String FrameHeader :=
  readAll P (frameError "header tag") (headerField P) b { key := [], value := [] }

/-- `append(f.Headers, h)`, when the header could be read. -/
def addHeader (f : Frame) (m : Nat) : Outcome String FrameHeader → Outcome String (Frame × Nat)
  | .ok h => .ok ({ f with headers := f.headers ++ [h] }, m)
  | .error e => .error e
  | .outOfRange => .outOfRange
  | .running => .running

/-- Field 5: a message inside the frame. -/
def headersField (f : Frame) (typ : WireType) (b : Bytes) : Outcome String (Frame × Nat) :=
  if typ ≠ .bytes then .error (expects "field 5" "bytes" typ)
  else match P.consumeBytes b with
    | .error e => .error (frameError "consume header" e)
    | .ok (hb, m) => addHeader f m (unmarshalHeader P hb)

def frameField (f : Frame) (num : Nat) (typ : WireType) (b : Bytes) :
    Outcome String (Frame × Nat) :=
  match num with
  | 1 => varintField P "field 1" "seq_id" typ b fun v => { f with seqID := v }
  | 2 => varintField P "field 2" "log_id" typ b fun v => { f with logID := v }
  | 3 => varintField P "field 3" "service" typ b fun v => { f with service := v.toUInt32.toInt32 }
  | 4 => varintField P "field 4" "method" typ b fun v => { f with method := v.toUInt32.toInt32 }
  | 5 => headersField P f typ b
  | 6 => bytesField P "field 6" "consume payload_encoding" typ b fun s =>
    { f with payloadEncoding := s }
  | 7 => bytesField P "field 7" "consume payload_type" typ b fun s => { f with payloadType := s }
  | 8 => bytesField P "field 8" "consume payload" typ b fun raw =>
    { f with payload := copyBytes raw }
  | 9 => bytesField P "field 9" "consume log_id_new" typ b fun s => { f with logIDNew := s }
  | _ => skipField P "skip unknown field" f num typ b

/-- The loop of `UnmarshalFrame`. -/
def frameLoop (b : Bytes) (f : Frame) : Outcome String Frame :=
  readAll P (frameError "consume tag") (frameField P) b f

def unmarshalFrame (b : Bytes) : Outcome String Frame :=
  if b = [] then .error "ws frame: empty buffer" else frameLoop P b {}

end Orynx.Lark
