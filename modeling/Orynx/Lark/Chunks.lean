import Mathlib.Data.List.Basic
import Mathlib.Data.Finset.Card
import Mathlib.Data.Finset.Range
import Orynx.Lib.Machine
import Orynx.Lib.Record

/-! # The chunk assembler of the Lark connector

An event that is split over several frames is put together from its chunks. The slots of an entry
are as many as the first frame of the message announces, a slot that is still missing is nil, and a
counter tells when none is.

* `admitChunk`: one frame, with the readings of the clock it makes; `none` where the runtime panics;
* `next`: the assembler with a log of what has been admitted for each message since its entry was
  created, latest first.
-/

namespace Orynx.Lark

open Lib

abbrev Bytes := List UInt8

structure ChunkEntry where
  chunks : List (Option Bytes)
  received : Nat
  deadline : Int
  deriving DecidableEq, Repr

structure ChunkAssembler where
  ttl : Int
  buf : Record ChunkEntry

/-- The SDK default of five seconds, in nanoseconds. -/
def defaultChunkTTL : Int := 5000000000

def newChunkAssembler (ttl : Int) : ChunkAssembler where
  ttl := if ttl ≤ 0 then defaultChunkTTL else ttl
  buf := .empty

/-- A chunk that is handed to the assembler, with what `now` returns when the expired entries are
collected, when an entry is created and when its deadline slides. -/
structure ChunkFrame where
  messageID : String
  sum : Int
  seq : Int
  payload : Bytes
  gcNow : Int
  createNow : Int
  slideNow : Int
  deriving DecidableEq, Repr

/-- The headers are rejected before the buffer is looked at. -/
def ChunkFrame.malformed (c : ChunkFrame) : Bool :=
  c.messageID == "" || c.sum ≤ 0 || c.seq < 0 || c.seq ≥ c.sum

def gcExpired (buf : Record ChunkEntry) (now : Int) : Record ChunkEntry :=
  buf.filterMap fun _ e => if now > e.deadline then none else some e

/-- `append([]byte(nil), payload...)`: nothing appended to nil is nil. -/
def copyBytes (payload : Bytes) : Option Bytes :=
  if payload = [] then none else some payload

theorem copyBytes_getD (payload : Bytes) : (copyBytes payload).getD [] = payload := by
  unfold copyBytes
  split
  · rename_i h
    exact h.symm
  · rfl

theorem copyBytes_eq_none {payload : Bytes} : copyBytes payload = none ↔ payload = [] := by
  simp [copyBytes]

/-- `make([][]byte, sum)`: the runtime panics on a length it cannot allocate. -/
def makeChunks (maxLen sum : Int) : Option (List (Option Bytes)) :=
  if sum ≤ maxLen then some (List.replicate sum.toNat none) else none

/-- The entry of the message, or a new one. -/
def entryFor (maxLen ttl : Int) (buf : Record ChunkEntry) (c : ChunkFrame) : Option ChunkEntry :=
  match buf.get? c.messageID with
  | some entry => some entry
  | none => (makeChunks maxLen c.sum).map fun chunks =>
    { chunks, received := 0, deadline := c.createNow + ttl }

/-- Put the payload into its slot, in which there was `slot`. -/
def ChunkEntry.store (entry : ChunkEntry) (slot : Option Bytes) (c : ChunkFrame) (ttl : Int) :
    ChunkEntry where
  chunks := entry.chunks.set c.seq.toNat (copyBytes c.payload)
  received := if slot = none then entry.received + 1 else entry.received
  deadline := c.slideNow + ttl

/-- The chunks one after another. -/
def ChunkEntry.assembled (entry : ChunkEntry) : Bytes :=
  entry.chunks.flatMap (·.getD [])

/-- `admit`. -/
def admitChunk (maxLen : Int) (a : ChunkAssembler) (c : ChunkFrame) :
    Option (ChunkAssembler × Option Bytes) :=
  if c.malformed then some (a, none)
  else
    let buf := gcExpired a.buf c.gcNow
    (entryFor maxLen a.ttl buf c).bind fun entry =>
      entry.chunks[c.seq.toNat]?.map fun slot =>
        let entry := entry.store slot c a.ttl
        let buf := buf.set c.messageID entry
        if entry.received < entry.chunks.length then ({ a with buf }, none)
        else ({ a with buf := buf.erase c.messageID }, some entry.assembled)

/-! ## Runs -/

/-- What has been admitted for a message since its entry was created, latest first. -/
abbrev Log := List (Nat × Bytes)

structure State where
  assembler : ChunkAssembler
  log : String → Log

/-- The log of a message at the time the expired entries have been collected. -/
def State.logAt (s : State) (id : String) (now : Int) : Log :=
  if ((gcExpired s.assembler.buf now).get? id).isSome then s.log id else []

/-- The log of the message of a frame that is admitted. -/
def State.logWith (s : State) (c : ChunkFrame) : Log :=
  (c.seq.toNat, c.payload) :: s.logAt c.messageID c.gcNow

/-- The logs after a frame: those of the entries that there are. -/
def State.record (s : State) (c : ChunkFrame) (assembler : ChunkAssembler) : State where
  assembler := assembler
  log := if c.malformed then s.log else fun id =>
    if (assembler.buf.get? id).isSome then
      if id = c.messageID then s.logWith c else s.log id
    else []

def next (maxLen : Int) (s : State) (c : ChunkFrame) : Option State :=
  (admitChunk maxLen s.assembler c).map fun p => s.record c p.1

/-- An assembler with the given lifetime of partial state, on a runtime that makes slices of slices
of at most `maxLen` elements. -/
def machine (maxLen ttl : Int) : Machine State ChunkFrame where
  Init s := s = { assembler := newChunkAssembler ttl, log := fun _ => [] }
  next := next maxLen

end Orynx.Lark
