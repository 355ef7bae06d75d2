import Orynx.Lib.Table

/-! # The latest entry at every key

Entries with a key and a time stamp arrive in any order, and pass through several places before
they come to rest.

* `offer`: an upsert that keeps the row that is there where it is newer;
* `Covers`: what the places hold was received, and they hold something at least as new as
  everything that was received;
* `Covers.latest`: so where all is held in one table, it holds the latest.
-/

namespace Lib.Latest

universe u v w

variable {ρ : Type u} {ι : Type v} {κ : Type w}

/-! ## Guarded upserts -/

section Offer

variable {S : Schema ρ ι κ} [DecidableEq ι] [DecidableEq κ]

/-- `INSERT … ON CONFLICT DO UPDATE … WHERE EXCLUDED.stamp >= stamp`. -/
def offer (stamp : ρ → Int) (t : Table S) (r : ρ) : Table S :=
  t.upsert r fun old => if stamp r ≥ stamp old then r else old

variable (stamp : ρ → Int) (hindex : ∀ x, S.index x = none) (t : Table S) (r : ρ)

include hindex in
theorem get?_offer (k : ι) :
    (offer stamp t r).get? k =
      if k = S.key r then
        some ((t.get? k).elim r fun old => if stamp r ≥ stamp old then r else old)
      else t.get? k := by
  refine Table.get?_upsert hindex t r _ (fun x hx => ?_) k
  split
  · rfl
  · exact hx

include hindex in
theorem mem_offer {x : ρ} (hx : x ∈ (offer stamp t r).rows) : x = r ∨ x ∈ t.rows := by
  have hget := Table.get?_eq_some.2 ⟨hx, rfl⟩
  rw [get?_offer stamp hindex] at hget
  split at hget
  · cases hold : t.get? (S.key x) with
    | none =>
      rw [hold, Option.elim_none, Option.some.injEq] at hget
      exact .inl hget.symm
    | some old =>
      rw [hold, Option.elim_some, Option.some.injEq] at hget
      split at hget
      · exact .inl hget.symm
      · exact .inr (hget ▸ (Table.get?_eq_some.1 hold).1)
  · exact .inr (Table.get?_eq_some.1 hget).1

include hindex in
/-- What is offered, and what was there, is still there or something newer is. -/
theorem offer_keeps {x : ρ} (hx : x = r ∨ x ∈ t.rows) :
    ∃ y ∈ (offer stamp t r).rows, S.key y = S.key x ∧ stamp x ≤ stamp y := by
  have hput : ∀ y, (offer stamp t r).get? (S.key x) = some y → stamp x ≤ stamp y →
      ∃ y ∈ (offer stamp t r).rows, S.key y = S.key x ∧ stamp x ≤ stamp y := by
    intro y hy hle
    exact ⟨y, (Table.get?_eq_some.1 hy).1, (Table.get?_eq_some.1 hy).2, hle⟩
  have hget := get?_offer stamp hindex t r (S.key x)
  rcases hx with rfl | hx
  · cases hold : t.get? (S.key x) with
    | none => exact hput x (by rw [hget, if_pos rfl, hold, Option.elim_none]) (Int.le_refl _)
    | some old =>
      rw [if_pos rfl, hold, Option.elim_some] at hget
      by_cases hle : stamp x ≥ stamp old
      · exact hput x (by rw [hget, if_pos hle]) (Int.le_refl _)
      · exact hput old (by rw [hget, if_neg hle]) (by omega)
  · have hold : t.get? (S.key x) = some x := Table.get?_eq_some.2 ⟨hx, rfl⟩
    by_cases hk : S.key x = S.key r
    · rw [if_pos hk, hold, Option.elim_some] at hget
      by_cases hle : stamp r ≥ stamp x
      · exact hput r (by rw [hget, if_pos hle]) hle
      · exact hput x (by rw [hget, if_neg hle]) (Int.le_refl _)
    · exact hput x (by rw [hget, if_neg hk, hold]) (Int.le_refl _)

end Offer

/-! ## What the places hold -/

variable {key : ρ → ι} {stamp : ρ → Int}

/-- Something at least as new is held at the same key. -/
def Held (key : ρ → ι) (stamp : ρ → Int) (held : ρ → Prop) (e : ρ) : Prop :=
  ∃ h, held h ∧ key h = key e ∧ stamp e ≤ stamp h

theorem Held.of_held {held : ρ → Prop} {e : ρ} (h : held e) : Held key stamp held e :=
  ⟨e, h, rfl, Int.le_refl _⟩

theorem Held.trans {held held' : ρ → Prop} {e : ρ} (h : Held key stamp held e)
    (hkept : ∀ x, held x → Held key stamp held' x) : Held key stamp held' e := by
  rcases h with ⟨x, hx, hxk, hle⟩
  rcases hkept x hx with ⟨y, hy, hyk, hle'⟩
  exact ⟨y, hy, hyk.trans hxk, Int.le_trans hle hle'⟩

structure Covers (key : ρ → ι) (stamp : ρ → Int) (held : ρ → Prop) (received : List ρ) : Prop where
  sound : ∀ h, held h → h ∈ received
  covered : ∀ e ∈ received, Held key stamp held e

namespace Covers

variable {held held' : ρ → Prop} {received : List ρ}

/-- Entries move from place to place, and are dropped where a newer one is held. -/
theorem moved (h : Covers key stamp held received) (hsound : ∀ x, held' x → held x)
    (hkept : ∀ x, held x → Held key stamp held' x) : Covers key stamp held' received where
  sound x hx := h.sound x (hsound x hx)
  covered e he := (h.covered e he).trans hkept

theorem receive (h : Covers key stamp held received) (es : List ρ) :
    Covers key stamp (fun x => x ∈ es ∨ held x) (es ++ received) where
  sound x hx := by
    rcases hx with hx | hx
    · exact List.mem_append_left _ hx
    · exact List.mem_append_right _ (h.sound x hx)
  covered e he := by
    rcases List.mem_append.1 he with he | he
    · exact .of_held (.inl he)
    · exact (h.covered e he).trans fun x hx => .of_held (.inr hx)

/-- Where the table holds all there is at a key, it holds the latest that was received. -/
theorem latest {S : Schema ρ ι κ} {t : Table S} (h : Covers S.key stamp held received) {e : ρ}
    (he : e ∈ received) (hall : ∀ x, held x → S.key x = S.key e → x ∈ t.rows) :
    ∃ r ∈ t.rows, S.key r = S.key e ∧ r ∈ received ∧
      ∀ e' ∈ received, S.key e' = S.key e → stamp e' ≤ stamp r := by
  rcases h.covered e he with ⟨r, hr, hrk, -⟩
  refine ⟨r, hall r hr hrk, hrk, h.sound r hr, fun e' he' hek => ?_⟩
  rcases h.covered e' he' with ⟨r', hr', hrk', hle⟩
  -- one row at the key
  have hrow : r' = r :=
    t.eq_of_key (hall r' hr' (hrk'.trans hek)) (hall r hr hrk) ((hrk'.trans hek).trans hrk.symm)
  exact hrow ▸ hle

end Covers

end Lib.Latest
