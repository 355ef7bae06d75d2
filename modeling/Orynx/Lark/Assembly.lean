import Orynx.Lark.Chunks

/-! # What the chunk assembler returns

* `Exact`: a call returns, a payload exactly when every index of the entry has been admitted, and it
  is the last bytes of each index in order; a malformed frame changes nothing, and the entries of
  other messages stay until they expire;
* `assembler_exact`: it is so for every call of a run in which no frame names an index that its
  entry does not have, none repeats an index whose last bytes were empty, and none announces more
  chunks than the runtime can allocate;
* `assembler_not_exact`: what happens otherwise.
-/

namespace Orynx.Lark

open Lib

/-! ## The property -/

/-- The entry that a frame meets once the expired ones have been collected. -/
def State.entry? (s : State) (c : ChunkFrame) : Option ChunkEntry :=
  (gcExpired s.assembler.buf c.gcNow).get? c.messageID

/-- The sum of the entry that a frame meets or creates. -/
def State.slots (s : State) (c : ChunkFrame) : Nat :=
  (s.entry? c).elim c.sum.toNat fun entry => entry.chunks.length

/-- Every index has been admitted. -/
def Complete (n : Nat) (log : Log) : Prop := ∀ i < n, (log.lookup i).isSome = true

/-- The last bytes of each index, in order. -/
def payloadOf (n : Nat) (log : Log) : Bytes :=
  (List.range n).flatMap fun i => (log.lookup i).getD []

/-- What a call of `admit` that returns has to return and to leave. -/
structure Exact (s : State) (c : ChunkFrame) (a : ChunkAssembler) (out : Option Bytes) : Prop where
  malformed : c.malformed = true ∨ c.seq < 0 ∨ (s.slots c : Int) ≤ c.seq →
    a = s.assembler ∧ out = none
  payload : c.malformed = false → ∀ bytes, out = some bytes ↔
    Complete (s.slots c) (s.logWith c) ∧ bytes = payloadOf (s.slots c) (s.logWith c)
  others : ∀ id ≠ c.messageID, a.buf.get? id = s.assembler.buf.get? id ∨
    ∃ entry, s.assembler.buf.get? id = some entry ∧ entry.deadline < c.gcNow ∧ a.buf.get? id = none

/-! ## The condition -/

/-- The frame's index is one of its entry's, the bytes that the entry has for it are not empty, and
the slots of a new entry can be allocated. -/
def sound (maxLen : Int) (s : State) (c : ChunkFrame) : Bool :=
  c.malformed || match s.entry? c with
    | some entry => c.seq < entry.chunks.length &&
      (s.log c.messageID).lookup c.seq.toNat != some []
    | none => c.sum ≤ maxLen

/-! ## The invariant -/

/-- The indices that have been admitted. -/
def admitted (n : Nat) (log : Log) : Finset Nat :=
  (Finset.range n).filter fun i => (log.lookup i).isSome = true

/-- The slots hold the last bytes of each index, and the counter counts those admitted. -/
structure Tracks (entry : ChunkEntry) (log : Log) : Prop where
  chunks : entry.chunks = (List.range entry.chunks.length).map fun i =>
    (log.lookup i).bind copyBytes
  received : entry.received = (admitted entry.chunks.length log).card

/-- Every entry tracks its log and is still missing a chunk. -/
def Inv (s : State) : Prop :=
  ∀ id entry, s.assembler.buf.get? id = some entry →
    Tracks entry (s.log id) ∧ entry.received < entry.chunks.length

section Logs

variable {n i : Nat} {log : Log} {payload : Bytes}

theorem lookup_cons_self : List.lookup i ((i, payload) :: log) = some payload :=
  List.lookup_cons_self

theorem lookup_cons_ne {j : Nat} (h : j ≠ i) :
    List.lookup j ((i, payload) :: log) = log.lookup j := by
  have hne : (j == i) = false := beq_false_of_ne h
  rw [List.lookup_cons, hne]

theorem admitted_cons (h : i < n) :
    admitted n ((i, payload) :: log) = insert i (admitted n log) := by
  ext j
  rw [Finset.mem_insert, admitted, admitted, Finset.mem_filter, Finset.mem_filter,
    Finset.mem_range]
  by_cases hj : j = i
  · subst hj
    simp [h]
  · simp [hj, lookup_cons_ne hj]

theorem admitted_card_le (n : Nat) (log : Log) : (admitted n log).card ≤ n := by
  have hle := Finset.card_filter_le (Finset.range n) fun i => (log.lookup i).isSome = true
  rwa [Finset.card_range] at hle

/-- The counter reaches the number of slots when every index has been admitted. -/
theorem complete_iff : Complete n log ↔ (admitted n log).card = n := by
  constructor
  · intro h
    rw [admitted, Finset.filter_true_of_mem fun i hi => h i (Finset.mem_range.1 hi),
      Finset.card_range]
  · intro h i hi
    have hall : admitted n log = Finset.range n := by
      apply Finset.eq_of_subset_of_card_le (Finset.filter_subset _ _)
      rw [Finset.card_range]
      exact h.ge
    have hmem : i ∈ admitted n log := by
      rw [hall]
      exact Finset.mem_range.2 hi
    exact (Finset.mem_filter.1 hmem).2

end Logs

/-! ## One chunk -/

section Store

variable {entry : ChunkEntry} {log : Log} {c : ChunkFrame} {ttl : Int}

theorem Tracks.get (h : Tracks entry log) {i : Nat} (hi : i < entry.chunks.length) :
    entry.chunks[i]? = some ((log.lookup i).bind copyBytes) := by
  rw [h.chunks, List.getElem?_map, List.getElem?_range hi]
  rfl

theorem Tracks.assembled (h : Tracks entry log) :
    entry.assembled = payloadOf entry.chunks.length log := by
  unfold ChunkEntry.assembled payloadOf
  conv => lhs; rw [h.chunks]
  rw [List.flatMap_map]
  congr 1
  funext i
  cases log.lookup i with
  | none => rfl
  | some payload => exact copyBytes_getD payload

/-- A new entry has nothing in it. -/
theorem tracks_new {n : Nat} {deadline : Int} :
    Tracks ⟨List.replicate n none, 0, deadline⟩ [] where
  chunks := by
    apply List.ext_getElem?
    intro i
    simp [List.getElem?_replicate]
  received := by simp [admitted]

/-- A chunk that is stored is counted when its index is new. -/
theorem Tracks.store (h : Tracks entry log) (hseq : c.seq.toNat < entry.chunks.length)
    (hempty : log.lookup c.seq.toNat ≠ some []) :
    Tracks (entry.store ((log.lookup c.seq.toNat).bind copyBytes) c ttl)
      ((c.seq.toNat, c.payload) :: log) := by
  have hlen : (entry.store ((log.lookup c.seq.toNat).bind copyBytes) c ttl).chunks.length =
      entry.chunks.length := List.length_set
  refine ⟨?_, ?_⟩
  · rw [hlen]
    apply List.ext_getElem?
    intro i
    rw [ChunkEntry.store, List.getElem?_set, List.getElem?_map]
    by_cases hi : c.seq.toNat = i
    · subst hi
      rw [if_pos rfl, if_pos hseq, List.getElem?_range hseq, Option.map_some, lookup_cons_self]
      rfl
    · rw [if_neg hi]
      rcases Nat.lt_or_ge i entry.chunks.length with hlt | hge
      · rw [h.get hlt, List.getElem?_range hlt, Option.map_some, lookup_cons_ne (Ne.symm hi)]
      · rw [List.getElem?_eq_none hge, List.getElem?_eq_none (List.length_range.trans_le hge)]
        rfl
  · rw [hlen, admitted_cons hseq]
    cases hget : log.lookup c.seq.toNat with
    | none =>
      -- the index is new: its slot is nil
      have hnew : c.seq.toNat ∉ admitted entry.chunks.length log := by
        simp [admitted, hget]
      rw [Finset.card_insert_of_notMem hnew, ← h.received]
      rfl
    | some payload =>
      -- the index has been admitted with bytes, so its slot is not nil
      have hold : c.seq.toNat ∈ admitted entry.chunks.length log := by
        simp [admitted, hget, hseq]
      have hslot : (some payload).bind copyBytes ≠ none := by
        rw [Option.bind_some, Ne, copyBytes_eq_none]
        rintro rfl
        exact hempty hget
      rw [Finset.insert_eq_of_mem hold, ← h.received]
      exact if_neg hslot

end Store

/-! ## One call -/

section Calls

variable {maxLen : Int} {s : State} {c : ChunkFrame}

theorem get?_gcExpired {buf : Record ChunkEntry} {now : Int} {id : String} {entry : ChunkEntry}
    (h : (gcExpired buf now).get? id = some entry) : buf.get? id = some entry := by
  rw [gcExpired, Record.get?_filterMap] at h
  rcases Option.bind_eq_some_iff.1 h with ⟨e, he, hn⟩
  obtain ⟨-, heq⟩ := Option.ite_none_left_eq_some.1 hn
  obtain rfl := Option.some.inj heq
  exact he

/-- What the collection leaves of an entry. -/
theorem gcExpired_cases (buf : Record ChunkEntry) (now : Int) (id : String) :
    (gcExpired buf now).get? id = buf.get? id ∨
      ∃ entry, buf.get? id = some entry ∧ entry.deadline < now ∧
        (gcExpired buf now).get? id = none := by
  rw [gcExpired, Record.get?_filterMap]
  cases hget : buf.get? id with
  | none => exact .inl rfl
  | some entry =>
    by_cases hnow : now > entry.deadline
    · exact .inr ⟨entry, rfl, hnow, if_pos hnow⟩
    · exact .inl (if_neg hnow)

/-- Where the call finds the slots of its message. -/
theorem entryFor_spec (hinv : Inv s) (hmal : c.malformed = false)
    (hsound : sound maxLen s c = true) :
    ∃ entry, entryFor maxLen s.assembler.ttl (gcExpired s.assembler.buf c.gcNow) c = some entry ∧
      entry.chunks.length = s.slots c ∧ Tracks entry (s.logAt c.messageID c.gcNow) ∧
      c.seq.toNat < entry.chunks.length ∧
      (s.logAt c.messageID c.gcNow).lookup c.seq.toNat ≠ some [] := by
  have hseq : 0 ≤ c.seq ∧ c.seq < c.sum ∧ 0 < c.sum := by
    simp [ChunkFrame.malformed] at hmal
    omega
  rw [sound, hmal, Bool.false_or] at hsound
  unfold entryFor State.slots State.logAt
  unfold State.entry? at hsound ⊢
  cases hget : (gcExpired s.assembler.buf c.gcNow).get? c.messageID with
  | some entry =>
    rw [hget] at hsound
    simp only [Bool.and_eq_true, decide_eq_true_eq, bne_iff_ne] at hsound
    refine ⟨entry, rfl, rfl, (hinv c.messageID entry (get?_gcExpired hget)).1, ?_, hsound.2⟩
    omega
  | none =>
    rw [hget] at hsound
    have hmax : c.sum ≤ maxLen := of_decide_eq_true hsound
    refine ⟨⟨List.replicate c.sum.toNat none, 0, c.createNow + s.assembler.ttl⟩, ?_,
      List.length_replicate, tracks_new, ?_, ?_⟩
    · rw [makeChunks, if_pos hmax]
      rfl
    · rw [List.length_replicate]
      omega
    · exact fun h => Option.some_ne_none _ h.symm

theorem sound_range (hinv : Inv s) (hmal : c.malformed = false) (hsound : sound maxLen s c = true) :
    0 ≤ c.seq ∧ c.seq < s.slots c := by
  rcases entryFor_spec hinv hmal hsound with ⟨entry, -, hslots, -, hseq, -⟩
  simp [ChunkFrame.malformed] at hmal
  omega

/-- A malformed frame changes nothing. -/
theorem admitChunk_malformed (h : c.malformed = true) :
    admitChunk maxLen s.assembler c = some (s.assembler, none) :=
  if_pos h

/-- The entry after the chunk has been stored in it. -/
def stored (entry : ChunkEntry) (s : State) (c : ChunkFrame) : ChunkEntry :=
  entry.store (((s.logAt c.messageID c.gcNow).lookup c.seq.toNat).bind copyBytes) c s.assembler.ttl

/-- A frame that is stored: the entry is kept while a chunk is missing, and returned otherwise. -/
theorem admitChunk_stored (hinv : Inv s) (hmal : c.malformed = false)
    (hsound : sound maxLen s c = true) :
    ∃ entry : ChunkEntry, entry.chunks.length = s.slots c ∧ Tracks entry (s.logWith c) ∧
      ((entry.received < entry.chunks.length ∧ admitChunk maxLen s.assembler c =
          some ({ s.assembler with
            buf := (gcExpired s.assembler.buf c.gcNow).set c.messageID entry }, none)) ∨
        (¬entry.received < entry.chunks.length ∧ admitChunk maxLen s.assembler c =
          some ({ s.assembler with
            buf := ((gcExpired s.assembler.buf c.gcNow).set c.messageID entry).erase c.messageID },
            some entry.assembled))) := by
  rcases entryFor_spec hinv hmal hsound with ⟨entry, hentry, hslots, htracks, hseq, hempty⟩
  refine ⟨stored entry s c, List.length_set.trans hslots, htracks.store hseq hempty, ?_⟩
  have hcall : admitChunk maxLen s.assembler c =
      if (stored entry s c).received < (stored entry s c).chunks.length then
        some ({ s.assembler with
          buf := (gcExpired s.assembler.buf c.gcNow).set c.messageID (stored entry s c) }, none)
      else some ({ s.assembler with
        buf := ((gcExpired s.assembler.buf c.gcNow).set c.messageID (stored entry s c)).erase
          c.messageID }, some (stored entry s c).assembled) := by
    unfold admitChunk
    rw [if_neg (Bool.eq_false_iff.1 hmal)]
    dsimp only
    rw [hentry, Option.bind_some, htracks.get hseq, Option.map_some]
    exact apply_ite some _ _ _
  by_cases hlt : (stored entry s c).received < (stored entry s c).chunks.length
  · exact .inl ⟨hlt, hcall.trans (if_pos hlt)⟩
  · exact .inr ⟨hlt, hcall.trans (if_neg hlt)⟩

/-- The entries of other messages after a frame: what the collection has left of them. -/
theorem others_stored {buf : Record ChunkEntry}
    (h : ∀ id ≠ c.messageID, buf.get? id = (gcExpired s.assembler.buf c.gcNow).get? id) :
    ∀ id ≠ c.messageID, buf.get? id = s.assembler.buf.get? id ∨
      ∃ entry, s.assembler.buf.get? id = some entry ∧ entry.deadline < c.gcNow ∧
        buf.get? id = none := by
  intro id hid
  rw [h id hid]
  exact gcExpired_cases _ _ _

/-- The invariant after a frame that is stored, from what is left for its message. -/
theorem inv_stored (hinv : Inv s) (hmal : c.malformed = false) {buf : Record ChunkEntry}
    (hother : ∀ id ≠ c.messageID, buf.get? id = (gcExpired s.assembler.buf c.gcNow).get? id)
    (hself : ∀ entry, buf.get? c.messageID = some entry →
      Tracks entry (s.logWith c) ∧ entry.received < entry.chunks.length) :
    Inv (s.record c { s.assembler with buf }) := by
  intro id entry hget
  have hlog : (s.record c { s.assembler with buf }).log id =
      if id = c.messageID then s.logWith c else s.log id := by
    have hsome : (buf.get? id).isSome = true := by
      rw [show buf.get? id = some entry from hget]
      rfl
    unfold State.record
    rw [if_neg (Bool.eq_false_iff.1 hmal)]
    exact if_pos hsome
  rw [hlog]
  by_cases hid : id = c.messageID
  · subst hid
    rw [if_pos rfl]
    exact hself entry hget
  · rw [if_neg hid]
    have hold : (gcExpired s.assembler.buf c.gcNow).get? id = some entry :=
      (hother id hid).symm.trans hget
    exact hinv id entry (get?_gcExpired hold)

/-- One call in a state that the invariant holds of. -/
theorem admitChunk_spec (hinv : Inv s) (hsound : sound maxLen s c = true) :
    ∃ a out, admitChunk maxLen s.assembler c = some (a, out) ∧ Exact s c a out ∧
      Inv (s.record c a) := by
  cases hmal : c.malformed with
  | true =>
    refine ⟨_, _, admitChunk_malformed hmal, ⟨fun _ => ⟨rfl, rfl⟩, ?_, fun _ _ => .inl rfl⟩, ?_⟩
    · intro h
      cases hmal.symm.trans h
    · intro id entry hget
      have hlog : (s.record c s.assembler).log = s.log := if_pos hmal
      rw [hlog]
      exact hinv id entry hget
  | false =>
    rcases admitChunk_stored hinv hmal hsound with ⟨entry, hslots, htracks, hcases⟩
    have hrange : ¬(c.malformed = true ∨ c.seq < 0 ∨ (s.slots c : Int) ≤ c.seq) := by
      rw [hmal]
      have hseq := sound_range hinv hmal hsound
      rintro (h | h | h)
      · cases h
      · omega
      · omega
    rcases hcases with ⟨hlt, hcall⟩ | ⟨hge, hcall⟩
    · -- a chunk is still missing
      have hpartial : ¬Complete (s.slots c) (s.logWith c) := by
        rw [complete_iff, ← hslots, ← htracks.received]
        exact hlt.ne
      refine ⟨_, _, hcall, ⟨fun h => absurd h hrange, fun _ bytes => ?_, ?_⟩, ?_⟩
      · exact iff_of_false (Option.some_ne_none bytes).symm fun h => hpartial h.1
      · exact others_stored fun id hid => Record.get?_set_ne hid
      · refine inv_stored hinv hmal (fun id hid => Record.get?_set_ne hid) fun e he => ?_
        obtain rfl : entry = e := Option.some.inj ((Record.get?_set _ _ _).symm.trans he)
        exact ⟨htracks, hlt⟩
    · -- the counter has reached the number of slots
      have hcomplete : Complete (s.slots c) (s.logWith c) := by
        have hle := admitted_card_le entry.chunks.length (s.logWith c)
        rw [← htracks.received] at hle
        rw [complete_iff, ← hslots, ← htracks.received]
        exact le_antisymm hle (not_lt.1 hge)
      have hbuf : ∀ id ≠ c.messageID,
          (((gcExpired s.assembler.buf c.gcNow).set c.messageID entry).erase c.messageID).get? id =
            (gcExpired s.assembler.buf c.gcNow).get? id :=
        fun id hid => (Record.get?_erase_ne hid).trans (Record.get?_set_ne hid)
      refine ⟨_, _, hcall, ⟨fun h => absurd h hrange, fun _ bytes => ?_, others_stored hbuf⟩, ?_⟩
      · rw [htracks.assembled, hslots, Option.some.injEq]
        exact ⟨fun h => ⟨hcomplete, h.symm⟩, fun h => h.2.symm⟩
      · refine inv_stored hinv hmal hbuf fun e he => ?_
        rw [Record.get?_erase] at he
        cases he

end Calls

/-! ## Runs -/

/-- A new assembler has no entry. -/
theorem inv_init {ttl : Int} : Inv { assembler := newChunkAssembler ttl, log := fun _ => [] } := by
  intro id entry h
  cases h

theorem inv_next {maxLen : Int} {s s' : State} {c : ChunkFrame} (hinv : Inv s)
    (hsound : sound maxLen s c = true) (hn : next maxLen s c = some s') : Inv s' := by
  rcases admitChunk_spec hinv hsound with ⟨a, out, hcall, -, hinv'⟩
  rw [next, hcall] at hn
  obtain rfl := Option.some.inj hn
  exact hinv'

/-- Every call of a run of sound frames returns what it has to. -/
theorem assembler_exact (maxLen ttl : Int) :
    ∀ s, (machine maxLen ttl).ReachableUnder (fun s c => sound maxLen s c = true) s →
      ∀ c, sound maxLen s c = true →
        ∃ a out, admitChunk maxLen s.assembler c = some (a, out) ∧ Exact s c a out := by
  intro s hs c hsound
  have hinv : Inv s := by
    refine Machine.invariant_under (fun s hi => ?_) (fun s c s' _ h hc hn => ?_) s hs
    · rw [show s = _ from hi]
      exact inv_init
    · exact inv_next h hc hn
  rcases admitChunk_spec hinv hsound with ⟨a, out, hcall, hexact, -⟩
  exact ⟨a, out, hcall, hexact⟩

/-- A chunk of the message `m`, at time 0. -/
def chunkOf (sum seq : Int) (payload : Bytes) : ChunkFrame :=
  { messageID := "m", sum, seq, payload, gcNow := 0, createNow := 0, slideNow := 0 }

/-- The second chunk of two comes first, twice. -/
theorem assembler_exact_two_chunks :
    ∃ s, ((machine 8 0).ReachableUnder (fun s c => sound 8 s c = true) s ∧
      s.logWith (chunkOf 2 0 [1]) = [(0, [1]), (1, [3]), (1, [2])]) ∧
      ∃ a out, admitChunk 8 s.assembler (chunkOf 2 0 [1]) = some (a, out) ∧
        Exact s (chunkOf 2 0 [1]) a out := by
  rcases Machine.reachableUnder_of_run (machine 8 0) (sound 8)
    (s := { assembler := newChunkAssembler 0, log := fun _ => [] }) rfl
    [chunkOf 2 1 [2], chunkOf 2 1 [3]]
    (fun s => decide (s.logWith (chunkOf 2 0 [1]) = [(0, [1]), (1, [3]), (1, [2])]) &&
      sound 8 s (chunkOf 2 0 [1])) (by decide +kernel) with ⟨s, hs, hp⟩
  rw [Bool.and_eq_true] at hp
  exact ⟨s, ⟨hs, of_decide_eq_true hp.1⟩, assembler_exact 8 0 s hs (chunkOf 2 0 [1]) hp.2⟩

/-- An empty chunk that comes twice is counted twice, and the event is returned without its second
chunk; a frame that announces more chunks than the first did is out of range. -/
theorem assembler_not_exact :
    (∃ s, (machine 8 0).Reachable s ∧ ∃ a out,
      admitChunk 8 s.assembler (chunkOf 2 0 []) = some (a, out) ∧
        ¬Exact s (chunkOf 2 0 []) a out) ∧
    ∃ s, (machine 8 0).Reachable s ∧ admitChunk 8 s.assembler (chunkOf 3 2 [1]) = none := by
  constructor
  · rcases Machine.reachable_of_run (machine 8 0)
      (s := { assembler := newChunkAssembler 0, log := fun _ => [] }) rfl [chunkOf 2 0 []]
      (fun s => (admitChunk 8 s.assembler (chunkOf 2 0 [])).any (fun p => p.2.isSome) &&
        ((s.logWith (chunkOf 2 0 [])).lookup 1).isNone && s.slots (chunkOf 2 0 []) == 2)
      (by decide +kernel) with ⟨s, -, hs, hp⟩
    rw [Bool.and_eq_true, Bool.and_eq_true, beq_iff_eq] at hp
    rcases (Option.any_eq_true _ _).1 hp.1.1 with ⟨⟨a, out⟩, hcall, hout⟩
    rcases Option.isSome_iff_exists.1 hout with ⟨bytes, rfl⟩
    refine ⟨s, hs, a, some bytes, hcall, fun hexact => ?_⟩
    have hall := ((hexact.payload rfl bytes).1 rfl).1 1 (by rw [hp.2]; exact Nat.one_lt_two)
    rw [Option.isNone_iff_eq_none.1 hp.1.2] at hall
    cases hall
  · rcases Machine.reachable_of_run (machine 8 0)
      (s := { assembler := newChunkAssembler 0, log := fun _ => [] }) rfl [chunkOf 2 0 [1]]
      (fun s => (admitChunk 8 s.assembler (chunkOf 3 2 [1])).isNone) (by decide +kernel)
      with ⟨s, -, hs, hp⟩
    exact ⟨s, hs, Option.isNone_iff_eq_none.1 hp⟩

end Orynx.Lark
