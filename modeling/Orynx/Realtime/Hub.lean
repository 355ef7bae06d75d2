import Mathlib.Data.List.AList
import Mathlib.Logic.Function.Basic

/-! # The rooms of the hub

`Hub` of `server/internal/realtime/hub.go`: what its functions do to the clients, their
subscriptions and the rooms while they hold its lock. A pointer to a client is a number; the
order of a map is that of a list.

* `Consistent`: a client is in the rooms that it is subscribed to, and no room is empty;
* `lookup_drop`, `mem_drop_emptied`: what the end of a client does to the rooms;
* `Consistent.subscribe` … `Consistent.evictSlow`: every function keeps the rooms consistent.
-/

namespace Orynx.Realtime

abbrev ClientId := Nat

structure ScopeKey where
  type : String
  id : String
deriving DecidableEq, Repr

/-- A key that no subscription may have. -/
def ScopeKey.incomplete (key : ScopeKey) : Bool := key.type == "" || key.id == ""

structure Hub where
  clients : List ClientId := []
  rooms : AList fun _ : ScopeKey => List ClientId := ∅
  subscriptions : ClientId → List ScopeKey := fun _ => []

namespace Hub

/-! ## Sections -/

/-- `case client := <-h.register`. -/
def register (h : Hub) (c : ClientId) : Hub := { h with clients := h.clients.insert c }

/-- `subscribe`, with whether the room is new; `none` if nothing changes. -/
def subscribe (h : Hub) (c : ClientId) (key : ScopeKey) : Option (Hub × Bool) :=
  if key.incomplete then none
  else if c ∉ h.clients then none
  else if key ∈ h.subscriptions c then none
  else
    let room := h.rooms.lookup key
    some ({ h with
      subscriptions := Function.update h.subscriptions c (key :: h.subscriptions c)
      rooms := h.rooms.insert key ((room.getD []).insert c) }, room.isNone)

/-- `delete(room, client)`. -/
def others (c : ClientId) (room : List ClientId) : List ClientId := room.filter (· != c)

/-- Take a client out of a room, with whether that was the last one. -/
def leaveRoom (h : Hub) (c : ClientId) (key : ScopeKey) : Hub × Bool :=
  match h.rooms.lookup key with
  | none => (h, false)
  | some room =>
    if (others c room).isEmpty then ({ h with rooms := h.rooms.erase key }, true)
    else ({ h with rooms := h.rooms.insert key (others c room) }, false)

/-- `unsubscribe`, with whether the room is emptied; `none` if nothing changes. -/
def unsubscribe (h : Hub) (c : ClientId) (key : ScopeKey) : Option (Hub × Bool) :=
  if key.incomplete then none
  else if c ∉ h.clients then none
  else if key ∉ h.subscriptions c then none
  else
    some (leaveRoom { h with
      subscriptions :=
        Function.update h.subscriptions c ((h.subscriptions c).filter (· != key)) } c key)

def leaveRooms (h : Hub) (c : ClientId) : List ScopeKey → Hub × List ScopeKey
  | [] => (h, [])
  | key :: keys =>
    let left := h.leaveRoom c key
    let rest := leaveRooms left.1 c keys
    (rest.1, if left.2 then key :: rest.2 else rest.2)

/-- What `removeClient` and `evictSlow` do to a client, with the rooms that they empty. -/
def drop (h : Hub) (c : ClientId) : Hub × List ScopeKey :=
  let left := h.leaveRooms c (h.subscriptions c)
  ({ left.1 with
    clients := h.clients.filter (· != c)
    subscriptions := Function.update h.subscriptions c [] }, left.2)

/-- `removeClient`; `none` if the client is gone. -/
def removeClient (h : Hub) (c : ClientId) : Option (Hub × List ScopeKey) :=
  if c ∉ h.clients then none else some (h.drop c)

/-- `evictSlow`, with the clients that it drops and the rooms that they leave empty. -/
def evictSlow (h : Hub) : List ClientId → Hub × List ClientId × List ScopeKey
  | [] => (h, [], [])
  | c :: slow =>
    if c ∉ h.clients then evictSlow h slow
    else
      let dropped := h.drop c
      let rest := evictSlow dropped.1 slow
      (rest.1, c :: rest.2.1, dropped.2 ++ rest.2.2)

/-- `HasLocalSubscribers`. -/
def hasLocalSubscribers (h : Hub) (key : ScopeKey) : Bool := (h.rooms.lookup key).isSome

/-- `LocalScopes`. -/
def localScopes (h : Hub) : List ScopeKey := h.rooms.keys

theorem mem_localScopes {h : Hub} {key : ScopeKey} :
    key ∈ h.localScopes ↔ h.hasLocalSubscribers key = true := by
  rw [localScopes, ← AList.mem_keys, ← AList.lookup_isSome, hasLocalSubscribers]

/-! ## What they do to the rooms -/

section Rooms

variable {h h' : Hub} {c c' : ClientId} {key k : ScopeKey} {keys : List ScopeKey} {first : Bool}
  {emptied : List ScopeKey}

@[simp] theorem mem_others {room : List ClientId} : c' ∈ others c room ↔ c' ∈ room ∧ c' ≠ c := by
  simp [others]

/-- A room without the client; no room is left empty. -/
def without (c : ClientId) : Option (List ClientId) → Option (List ClientId)
  | none => none
  | some room => if (others c room).isEmpty then none else some (others c room)

theorem without_without (c : ClientId) (room : Option (List ClientId)) :
    without c (without c room) = without c room := by
  cases room with
  | none => rfl
  | some room =>
    have htwice : others c (others c room) = others c room := by simp [others]
    by_cases hempty : (others c room).isEmpty = true
    · rw [without, if_pos hempty]
      rfl
    · rw [without, if_neg hempty, without, htwice, if_neg hempty]

/-- A subscription that counts. -/
theorem subscribe_spec (hs : h.subscribe c key = some (h', first)) :
    c ∈ h.clients ∧ key ∉ h.subscriptions c ∧ h'.clients = h.clients ∧
      h'.subscriptions = Function.update h.subscriptions c (key :: h.subscriptions c) ∧
      h'.rooms = h.rooms.insert key (((h.rooms.lookup key).getD []).insert c) ∧
      first = (h.rooms.lookup key).isNone := by
  unfold subscribe at hs
  split at hs
  · simp at hs
  split at hs
  · simp at hs
  split at hs
  · simp at hs
  rename_i _ hc hkey
  simp only [Option.some.injEq, Prod.mk.injEq] at hs
  rcases hs with ⟨rfl, rfl⟩
  exact ⟨by simpa using hc, hkey, rfl, rfl, rfl, rfl⟩

theorem lookup_leaveRoom (h : Hub) (c : ClientId) (key k : ScopeKey) :
    (h.leaveRoom c key).1.rooms.lookup k =
      if k = key then without c (h.rooms.lookup key) else h.rooms.lookup k := by
  unfold leaveRoom
  split
  · rename_i hroom
    by_cases hk : k = key
    · rw [if_pos hk, hk, hroom]
      rfl
    · rw [if_neg hk]
  · rename_i room hroom
    split
    · rename_i hempty
      by_cases hk : k = key
      · rw [if_pos hk, hk, AList.lookup_erase, hroom, without, if_pos hempty]
      · rw [if_neg hk, AList.lookup_erase_ne hk]
    · rename_i hleft
      by_cases hk : k = key
      · rw [if_pos hk, hk, AList.lookup_insert, hroom, without, if_neg hleft]
      · rw [if_neg hk, AList.lookup_insert_ne hk]

theorem leaveRoom_emptied (h : Hub) (c : ClientId) (key : ScopeKey) :
    (h.leaveRoom c key).2 =
      (h.hasLocalSubscribers key && (without c (h.rooms.lookup key)).isNone) := by
  unfold leaveRoom hasLocalSubscribers
  split
  · rename_i hroom
    rw [hroom]
    rfl
  · rename_i room hroom
    rw [hroom]
    split
    · rename_i hempty
      rw [without, if_pos hempty]
      rfl
    · rename_i hleft
      rw [without, if_neg hleft]
      rfl

@[simp] theorem leaveRoom_clients (h : Hub) (c : ClientId) (key : ScopeKey) :
    (h.leaveRoom c key).1.clients = h.clients := by
  unfold leaveRoom
  split
  · rfl
  · split
    · rfl
    · rfl

@[simp] theorem leaveRoom_subscriptions (h : Hub) (c : ClientId) (key : ScopeKey) :
    (h.leaveRoom c key).1.subscriptions = h.subscriptions := by
  unfold leaveRoom
  split
  · rfl
  · split
    · rfl
    · rfl

theorem lookup_leaveRooms (h : Hub) (c : ClientId) (keys : List ScopeKey) (k : ScopeKey) :
    (h.leaveRooms c keys).1.rooms.lookup k =
      if k ∈ keys then without c (h.rooms.lookup k) else h.rooms.lookup k := by
  induction keys generalizing h with
  | nil => rfl
  | cons key keys ih =>
    rw [leaveRooms]
    rw [ih, lookup_leaveRoom]
    by_cases hk : k = key
    · subst hk
      simp [without_without]
    · simp [hk]

/-- The rooms that are emptied were there and are not there any more. -/
theorem mem_leaveRooms_emptied (h : Hub) (c : ClientId) (keys : List ScopeKey) (k : ScopeKey) :
    k ∈ (h.leaveRooms c keys).2 ↔
      h.hasLocalSubscribers k = true ∧ (h.leaveRooms c keys).1.hasLocalSubscribers k = false := by
  induction keys generalizing h with
  | nil => simp [leaveRooms]
  | cons key keys ih =>
    have hrest := ih (h.leaveRoom c key).1
    have hfirst := leaveRoom_emptied h c key
    have hlook := lookup_leaveRoom h c key k
    have hall := lookup_leaveRooms (h.leaveRoom c key).1 c keys k
    have hmem : k ∈ (h.leaveRooms c (key :: keys)).2 ↔
        ((h.leaveRoom c key).2 = true ∧ k = key) ∨
          k ∈ ((h.leaveRoom c key).1.leaveRooms c keys).2 := by
      rw [leaveRooms]
      cases (h.leaveRoom c key).2 <;> simp
    rw [hmem, hrest, leaveRooms]
    simp only [hasLocalSubscribers] at hrest hfirst ⊢
    rw [hall, hlook, hfirst]
    by_cases hk : k = key
    · subst hk
      -- a room that the client has left it leaves as it is
      rw [if_pos rfl, without_without, ite_self]
      cases h.rooms.lookup k <;> cases without c _ <;> simp
    · simp [hk]

theorem lookup_drop (h : Hub) (c : ClientId) (k : ScopeKey) :
    (h.drop c).1.rooms.lookup k =
      if k ∈ h.subscriptions c then without c (h.rooms.lookup k) else h.rooms.lookup k :=
  lookup_leaveRooms h c _ k

theorem drop_subscriptions (h : Hub) (c : ClientId) :
    (h.drop c).1.subscriptions = Function.update h.subscriptions c [] := rfl

theorem mem_drop_clients : c' ∈ (h.drop c).1.clients ↔ c' ∈ h.clients ∧ c' ≠ c := by
  simp [drop]

theorem mem_drop_emptied (h : Hub) (c : ClientId) (k : ScopeKey) :
    k ∈ (h.drop c).2 ↔
      h.hasLocalSubscribers k = true ∧ (h.drop c).1.hasLocalSubscribers k = false :=
  mem_leaveRooms_emptied h c _ k

/-- A room is not opened by the end of a client. -/
theorem drop_opens (h : Hub) (c : ClientId) (k : ScopeKey)
    (hopen : (h.drop c).1.hasLocalSubscribers k = true) : h.hasLocalSubscribers k = true := by
  simp only [hasLocalSubscribers, lookup_drop] at hopen ⊢
  split at hopen
  · cases hroom : h.rooms.lookup k with
    | none => simp [hroom, without] at hopen
    | some room => rfl
  · exact hopen

theorem mem_without {room : Option (List ClientId)} :
    c' ∈ (without c room).getD [] ↔ c' ∈ room.getD [] ∧ c' ≠ c := by
  cases room with
  | none => simp [without]
  | some room =>
    rw [without]
    split
    · rename_i hempty
      rw [List.isEmpty_iff] at hempty
      rw [← mem_others, Option.getD_some, hempty]
      rfl
    · simp

theorem without_ne_nil (c : ClientId) (room : Option (List ClientId)) :
    without c room ≠ some [] := by
  cases room with
  | none => simp [without]
  | some room =>
    rw [without]
    split
    · simp
    · rename_i hleft
      intro hnil
      rw [Option.some.inj hnil] at hleft
      exact hleft rfl

end Rooms

/-! ## Consistency -/

structure Consistent (h : Hub) : Prop where
  member : ∀ c key, c ∈ (h.rooms.lookup key).getD [] ↔ c ∈ h.clients ∧ key ∈ h.subscriptions c
  inhabited : ∀ key, h.rooms.lookup key ≠ some []
  gone : ∀ c, c ∉ h.clients → h.subscriptions c = []

section Consistency

variable {h h' : Hub} {c : ClientId} {key : ScopeKey} {first last : Bool}
  {emptied : List ScopeKey}

theorem consistent_empty : Consistent {} := by
  constructor
  · intro c key
    simp
  · intro key
    simp
  · intro c _
    rfl

/-- A room is there for its subscribers. -/
theorem Consistent.hasLocalSubscribers_iff (hc : h.Consistent) :
    h.hasLocalSubscribers key = true ↔ ∃ c ∈ h.clients, key ∈ h.subscriptions c := by
  constructor
  · intro hroom
    rcases Option.isSome_iff_exists.1 hroom with ⟨room, hlook⟩
    cases room with
    | nil => exact absurd hlook (hc.inhabited key)
    | cons c room =>
      rcases (hc.member c key).1 (by simp [hlook]) with ⟨hmem, hsub⟩
      exact ⟨c, hmem, hsub⟩
  · rintro ⟨c, hmem, hsub⟩
    have hin := (hc.member c key).2 ⟨hmem, hsub⟩
    rw [hasLocalSubscribers]
    cases hlook : h.rooms.lookup key with
    | none => simp [hlook] at hin
    | some room => rfl

theorem Consistent.register (hc : h.Consistent) (c : ClientId) : (h.register c).Consistent := by
  constructor
  · intro c' key
    show c' ∈ (h.rooms.lookup key).getD [] ↔ c' ∈ h.clients.insert c ∧ key ∈ h.subscriptions c'
    rw [hc.member, List.mem_insert_iff]
    constructor
    · rintro ⟨hmem, hsub⟩
      exact ⟨.inr hmem, hsub⟩
    · rintro ⟨-, hsub⟩
      refine ⟨?_, hsub⟩
      -- only clients have subscriptions
      by_contra hgone
      rw [hc.gone c' hgone] at hsub
      simp at hsub
  · exact hc.inhabited
  · intro c' hgone
    refine hc.gone c' fun hmem => hgone ?_
    exact List.mem_insert_iff.2 (.inr hmem)

theorem Consistent.subscribe (hc : h.Consistent) (hs : h.subscribe c key = some (h', first)) :
    h'.Consistent := by
  rcases subscribe_spec hs with ⟨hmem, hnew, hclients, hsubs, hrooms, -⟩
  constructor
  · intro c' k
    rw [hclients, hsubs, hrooms]
    by_cases hk : k = key
    · subst hk
      rw [AList.lookup_insert, Option.getD_some, List.mem_insert_iff, hc.member]
      by_cases hcc : c' = c
      · subst hcc
        simp [hmem]
      · simp [hcc]
    · rw [AList.lookup_insert_ne hk, hc.member]
      by_cases hcc : c' = c
      · subst hcc
        simp [hk]
      · simp [hcc]
  · intro k
    rw [hrooms]
    by_cases hk : k = key
    · subst hk
      rw [AList.lookup_insert]
      intro hnil
      have hin : c ∈ ((h.rooms.lookup k).getD []).insert c := List.mem_insert_self
      rw [Option.some.inj hnil] at hin
      simp at hin
    · rw [AList.lookup_insert_ne hk]
      exact hc.inhabited k
  · intro c' hgone
    rw [hclients] at hgone
    have hcc : c' ≠ c := fun heq => hgone (heq ▸ hmem)
    rw [hsubs, Function.update_of_ne hcc]
    exact hc.gone c' hgone

/-- A subscription that ends. -/
theorem unsubscribe_spec (hs : h.unsubscribe c key = some (h', last)) :
    c ∈ h.clients ∧ h'.clients = h.clients ∧
      h'.subscriptions =
        Function.update h.subscriptions c ((h.subscriptions c).filter (· != key)) ∧
      (∀ k, h'.rooms.lookup k =
        if k = key then without c (h.rooms.lookup key) else h.rooms.lookup k) ∧
      last = (h.hasLocalSubscribers key && (without c (h.rooms.lookup key)).isNone) := by
  unfold unsubscribe at hs
  split at hs
  · simp at hs
  split at hs
  · simp at hs
  split at hs
  · simp at hs
  rename_i _ hmem _
  have hpair := Option.some.inj hs
  rw [show h' = _ from (congrArg Prod.fst hpair).symm,
    show last = _ from (congrArg Prod.snd hpair).symm]
  refine ⟨by simpa using hmem, leaveRoom_clients _ c key, leaveRoom_subscriptions _ c key,
    lookup_leaveRoom _ c key, leaveRoom_emptied _ c key⟩

theorem Consistent.unsubscribe (hc : h.Consistent) (hs : h.unsubscribe c key = some (h', last)) :
    h'.Consistent := by
  rcases unsubscribe_spec hs with ⟨hmem, hclients, hsubs, hrooms, -⟩
  constructor
  · intro c' k
    rw [hclients, hsubs, hrooms]
    by_cases hk : k = key
    · subst hk
      rw [if_pos rfl, mem_without, hc.member]
      by_cases hcc : c' = c
      · subst hcc
        simp
      · simp [hcc]
    · rw [if_neg hk, hc.member]
      by_cases hcc : c' = c
      · subst hcc
        simp [hk]
      · simp [hcc]
  · intro k
    rw [hrooms]
    split
    · exact without_ne_nil c _
    · exact hc.inhabited k
  · intro c' hgone
    rw [hclients] at hgone
    have hcc : c' ≠ c := fun heq => hgone (heq ▸ hmem)
    rw [hsubs, Function.update_of_ne hcc]
    exact hc.gone c' hgone

theorem Consistent.drop (hc : h.Consistent) (c : ClientId) : (h.drop c).1.Consistent := by
  constructor
  · intro c' k
    rw [lookup_drop, mem_drop_clients, drop_subscriptions]
    by_cases hcc : c' = c
    · subst hcc
      -- of a room that it has no subscription of it is no member
      by_cases hk : k ∈ h.subscriptions c'
      · simp [hk, mem_without]
      · have hout : c' ∉ (h.rooms.lookup k).getD [] := fun hin => hk ((hc.member c' k).1 hin).2
        simp [hk, hout]
    · by_cases hk : k ∈ h.subscriptions c
      · rw [if_pos hk, mem_without, hc.member]
        simp [hcc]
      · rw [if_neg hk, hc.member]
        simp [hcc]
  · intro k
    rw [lookup_drop]
    split
    · exact without_ne_nil c _
    · exact hc.inhabited k
  · intro c' hgone
    rw [drop_subscriptions]
    by_cases hcc : c' = c
    · rw [hcc, Function.update_self]
    · rw [Function.update_of_ne hcc]
      exact hc.gone c' fun hmem => hgone (mem_drop_clients.2 ⟨hmem, hcc⟩)

theorem Consistent.removeClient (hc : h.Consistent) (hr : h.removeClient c = some (h', emptied)) :
    h'.Consistent := by
  unfold Hub.removeClient at hr
  split at hr
  · simp at hr
  · obtain rfl : (h.drop c).1 = h' := congrArg Prod.fst (Option.some.inj hr)
    exact hc.drop c

theorem Consistent.evictSlow (hc : h.Consistent) (slow : List ClientId) :
    (h.evictSlow slow).1.Consistent := by
  induction slow generalizing h with
  | nil => exact hc
  | cons c slow ih =>
    rw [Hub.evictSlow]
    split
    · exact ih hc
    · exact ih (hc.drop c)

end Consistency

/-! ## Evictions -/

section Evictions

variable {h : Hub} {c : ClientId}

/-- Those who are evicted were connected, and each is evicted once. -/
theorem evictSlow_spec (h : Hub) (slow : List ClientId) :
    (h.evictSlow slow).2.1.Nodup ∧
      (∀ c, c ∈ (h.evictSlow slow).2.1 ↔ c ∈ slow ∧ c ∈ h.clients) ∧
      ∀ c, c ∈ (h.evictSlow slow).1.clients ↔ c ∈ h.clients ∧ c ∉ slow := by
  induction slow generalizing h with
  | nil => simp [Hub.evictSlow]
  | cons d slow ih =>
    rw [Hub.evictSlow]
    split
    · rename_i hgone
      rcases ih h with ⟨hnodup, hevicted, hleft⟩
      refine ⟨hnodup, fun c => ?_, fun c => ?_⟩
      · rw [hevicted, List.mem_cons]
        constructor
        · exact fun hc => ⟨.inr hc.1, hc.2⟩
        · rintro ⟨rfl | hslow, hc⟩
          · exact absurd hc hgone
          · exact ⟨hslow, hc⟩
      · rw [hleft, List.mem_cons, not_or]
        constructor
        · exact fun hc => ⟨hc.1, fun heq => hgone (heq ▸ hc.1), hc.2⟩
        · exact fun hc => ⟨hc.1, hc.2.2⟩
    · rename_i hmem
      have hmem' : d ∈ h.clients := by simpa using hmem
      rcases ih (h.drop d).1 with ⟨hnodup, hevicted, hleft⟩
      refine ⟨?_, fun c => ?_, fun c => ?_⟩
      · rw [List.nodup_cons]
        refine ⟨fun hd => ?_, hnodup⟩
        exact (mem_drop_clients.1 ((hevicted d).1 hd).2).2 rfl
      · rw [List.mem_cons, hevicted, mem_drop_clients, List.mem_cons]
        constructor
        · rintro (rfl | ⟨hslow, hc, -⟩)
          · exact ⟨.inl rfl, hmem'⟩
          · exact ⟨.inr hslow, hc⟩
        · rintro ⟨rfl | hslow, hc⟩
          · exact .inl rfl
          · by_cases hcd : c = d
            · exact .inl hcd
            · exact .inr ⟨hslow, hc, hcd⟩
      · rw [hleft, mem_drop_clients, List.mem_cons, not_or, and_assoc]

/-- A room is not opened by evictions. -/
theorem evictSlow_opens (h : Hub) (slow : List ClientId) (k : ScopeKey)
    (hopen : (h.evictSlow slow).1.hasLocalSubscribers k = true) :
    h.hasLocalSubscribers k = true := by
  induction slow generalizing h with
  | nil => exact hopen
  | cons d slow ih =>
    rw [Hub.evictSlow] at hopen
    split at hopen
    · exact ih h hopen
    · exact drop_opens h d k (ih _ hopen)

theorem mem_evictSlow_emptied (h : Hub) (slow : List ClientId) (k : ScopeKey) :
    k ∈ (h.evictSlow slow).2.2 ↔
      h.hasLocalSubscribers k = true ∧ (h.evictSlow slow).1.hasLocalSubscribers k = false := by
  induction slow generalizing h with
  | nil => simp [Hub.evictSlow]
  | cons d slow ih =>
    rw [Hub.evictSlow]
    split
    · exact ih h
    · rw [List.mem_append, mem_drop_emptied, ih]
      have hopens := drop_opens h d k
      -- a room that the first has emptied stays empty
      have hstays : ((h.drop d).1.evictSlow slow).1.hasLocalSubscribers k = true →
          (h.drop d).1.hasLocalSubscribers k = true := evictSlow_opens _ slow k
      constructor
      · rintro (⟨hroom, hleft⟩ | ⟨hroom, hleft⟩)
        · refine ⟨hroom, ?_⟩
          by_contra hagain
          rw [hstays (by simpa using hagain)] at hleft
          simp at hleft
        · exact ⟨hopens hroom, hleft⟩
      · rintro ⟨hroom, hleft⟩
        cases hdrop : (h.drop d).1.hasLocalSubscribers k with
        | false => exact .inl ⟨hroom, rfl⟩
        | true => exact .inr ⟨rfl, hleft⟩

end Evictions

end Hub

end Orynx.Realtime
