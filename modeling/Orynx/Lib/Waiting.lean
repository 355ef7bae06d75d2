import Mathlib.Data.List.Basic
import Mathlib.Data.Set.Finite.List
import Mathlib.Logic.Relation
import Mathlib.Order.WellFounded
import Mathlib.Order.Preorder.Finite

/-! # Waiting down a hierarchy

A graph of two kinds of edges: `up` leads from a node to the one it belongs to, `blocks` from a
node to one it waits for. A node also waits for whatever the nodes above it wait for.

* `live_iff_way`: nobody waits for itself, however indirectly, if no walk leads from a node back
  to it over a `blocks` edge;
* `live_of_agree_iff`: when the edges of one node change, only walks through it have to be
  looked at;
* `exists_ready`: in a finite live graph somebody waits for nobody;
* `blocked_of_agree`, `blocked_without_iff`: when the edges of one node change or go, who is
  blocked is decided at the node and at those next to it.
-/

namespace Lib.Waiting

universe u

open Relation (ReflTransGen TransGen)

/-- The edges of two kinds. -/
@[ext] structure Graph (α : Type u) where
  up : α → α → Prop
  blocks : α → α → Prop

namespace Graph

variable {α : Type u} (G : Graph α)

/-- The node, or one above it, is blocked by the other. -/
def Waits (x y : α) : Prop := ∃ z, ReflTransGen G.up x z ∧ G.blocks z y

def Blocked (x : α) : Prop := ∃ y, G.Waits x y

/-- Nobody waits for itself, directly or transitively. -/
def Live : Prop := ∀ x, ¬ TransGen G.Waits x x

/-- A step of a walk that notes whether it has taken a `blocks` edge. -/
def Way (a b : α × Bool) : Prop :=
  (G.up a.1 b.1 ∧ b.2 = a.2) ∨ (G.blocks a.1 b.1 ∧ b.2 = true)

/-- The edges among the other nodes. -/
def without (x : α) : Graph α where
  up a b := a ≠ x ∧ b ≠ x ∧ G.up a b
  blocks a b := a ≠ x ∧ b ≠ x ∧ G.blocks a b

variable {G} {G' : Graph α} {x y z : α}

/-! ## Walks -/

theorem Waits.of_up (h : ReflTransGen G.up x y) (hw : G.Waits y z) : G.Waits x z := by
  rcases hw with ⟨w, hyw, hwz⟩
  exact ⟨w, h.trans hyw, hwz⟩

theorem transGen_of_up (h : ReflTransGen G.up x y) (hw : TransGen G.Waits y z) :
    TransGen G.Waits x z := by
  rcases TransGen.head'_iff.1 hw with ⟨w, hyw, hwz⟩
  exact TransGen.head' (hyw.of_up h) hwz

theorem way_of_up (h : ReflTransGen G.up x y) (f : Bool) :
    ReflTransGen G.Way (x, f) (y, f) := by
  induction h with
  | refl => exact .refl
  | tail _ hyz ih => exact ih.tail (.inl ⟨hyz, rfl⟩)

theorem way_of_transGen (h : TransGen G.Waits x y) (f : Bool) :
    ReflTransGen G.Way (x, f) (y, true) := by
  have hone : ∀ {a b : α} (f : Bool), G.Waits a b → ReflTransGen G.Way (a, f) (b, true) := by
    rintro a b f ⟨w, haw, hwb⟩
    exact (way_of_up haw f).tail (.inr ⟨hwb, rfl⟩)
  induction h with
  | single h => exact hone f h
  | tail _ h ih => exact ih.trans (hone true h)

/-- A walk goes up only, or up from something that the node waits for. -/
theorem of_way {b : α × Bool} (h : ReflTransGen G.Way (x, false) b) :
    (b.2 = false ∧ ReflTransGen G.up x b.1) ∨
      (b.2 = true ∧ ∃ v, TransGen G.Waits x v ∧ ReflTransGen G.up v b.1) := by
  induction h with
  | refl => exact .inl ⟨rfl, .refl⟩
  | @tail b c _ hbc ih =>
    rcases hbc with ⟨hup, hflag⟩ | ⟨hblocks, hflag⟩
    · rcases ih with ⟨hb, hxb⟩ | ⟨hb, v, hxv, hvb⟩
      · exact .inl ⟨hflag.trans hb, hxb.tail hup⟩
      · exact .inr ⟨hflag.trans hb, v, hxv, hvb.tail hup⟩
    · refine .inr ⟨hflag, c.1, ?_, .refl⟩
      rcases ih with ⟨-, hxb⟩ | ⟨-, v, hxv, hvb⟩
      · exact .single ⟨b.1, hxb, hblocks⟩
      · exact hxv.tail ⟨b.1, hvb, hblocks⟩

theorem live_iff_way : G.Live ↔ ∀ x, ¬ ReflTransGen G.Way (x, false) (x, true) := by
  constructor
  · intro hlive x hway
    rcases of_way hway with ⟨hflag, -⟩ | ⟨-, v, hxv, hvx⟩
    · simp at hflag
    · exact hlive v (transGen_of_up hvx hxv)
  · intro hway x hx
    exact hway x (way_of_transGen hx false)

/-- A walk may be taken with a `blocks` edge behind it. -/
theorem way_or {a b : α × Bool} (h : ReflTransGen G.Way a b) (e : Bool) :
    ReflTransGen G.Way (a.1, a.2 || e) (b.1, b.2 || e) := by
  induction h with
  | refl => exact .refl
  | tail _ hbc ih =>
    refine ih.tail ?_
    rcases hbc with ⟨hup, hflag⟩ | ⟨hblocks, hflag⟩
    · exact .inl ⟨hup, by rw [hflag]⟩
    · exact .inr ⟨hblocks, by rw [hflag]; rfl⟩

/-- The target of a walk is reached whatever the walk has behind it. -/
theorem way_forget {a b : α × Bool} (h : ReflTransGen G.Way a b) :
    ∃ g, ReflTransGen G.Way (a.1, false) (b.1, g) := by
  induction h with
  | refl => exact ⟨false, .refl⟩
  | tail _ hbc ih =>
    rcases ih with ⟨g, hg⟩
    rcases hbc with ⟨hup, -⟩ | ⟨hblocks, -⟩
    · exact ⟨g, hg.tail (.inl ⟨hup, rfl⟩)⟩
    · exact ⟨true, hg.tail (.inr ⟨hblocks, rfl⟩)⟩

theorem way_mono (hup : ∀ a b, G.up a b → G'.up a b) (hblocks : ∀ a b, G.blocks a b → G'.blocks a b)
    {a b : α × Bool} (h : ReflTransGen G.Way a b) : ReflTransGen G'.Way a b := by
  refine ReflTransGen.mono (fun c d hcd => ?_) _ _ h
  rcases hcd with ⟨hcd, hflag⟩ | ⟨hcd, hflag⟩
  · exact .inl ⟨hup _ _ hcd, hflag⟩
  · exact .inr ⟨hblocks _ _ hcd, hflag⟩

/-- Fewer edges leave fewer waits. -/
theorem Live.mono (hlive : G.Live) (hup : ∀ a b, G'.up a b → G.up a b)
    (hblocks : ∀ a b, G'.blocks a b → G.blocks a b) : G'.Live :=
  live_iff_way.2 fun x hway => live_iff_way.1 hlive x (way_mono hup hblocks hway)

theorem way_of_without {a b : α × Bool} (h : ReflTransGen (G.without x).Way a b) :
    ReflTransGen G.Way a b :=
  way_mono (G := G.without x) (fun _ _ h => h.2.2) (fun _ _ h => h.2.2) h

/-! ## Changing the edges of a node -/

/-- A walk from a node stays away from it after the last visit, unless it has come back over a
`blocks` edge. -/
theorem way_from (hup : ¬ G.up x x) (hblocks : ¬ G.blocks x x) {b : α × Bool}
    (h : ReflTransGen G.Way (x, false) b) :
    (∃ o c, G.Way (x, false) o ∧ ReflTransGen (G.without x).Way o c ∧ G.Way c (x, true)) ∨
      b = (x, false) ∨
      (b.1 ≠ x ∧ ∃ o, G.Way (x, false) o ∧ ReflTransGen (G.without x).Way o b) := by
  have hself : ∀ {f g : Bool}, ¬ G.Way (x, f) (x, g) := by
    rintro f g (⟨h, -⟩ | ⟨h, -⟩)
    · exact hup h
    · exact hblocks h
  induction h with
  | refl => exact .inr (.inl rfl)
  | @tail b c _ hbc ih =>
    rcases ih with hloop | rfl | ⟨hb, o, ho, hob⟩
    · exact .inl hloop
    · have hc : c.1 ≠ x := by
        rintro rfl
        exact hself hbc
      exact .inr (.inr ⟨hc, c, hbc, .refl⟩)
    · by_cases hc : c.1 = x
      · cases hflag : c.2 with
        | true =>
          obtain rfl : c = (x, true) := Prod.ext hc hflag
          exact .inl ⟨o, b, ho, hob, hbc⟩
        | false => exact .inr (.inl (Prod.ext hc hflag))
      · refine .inr (.inr ⟨hc, o, ho, hob.tail ?_⟩)
        rcases hbc with ⟨h, hflag⟩ | ⟨h, hflag⟩
        · exact .inl ⟨⟨hb, hc, h⟩, hflag⟩
        · exact .inr ⟨⟨hb, hc, h⟩, hflag⟩

/-- A walk that does not meet the node has its edges among the others. -/
theorem way_avoids {a b : α × Bool} (h : ReflTransGen G.Way a b) :
    (∃ f, ReflTransGen G.Way a (x, f) ∧ ReflTransGen G.Way (x, f) b) ∨
      ReflTransGen (G.without x).Way a b := by
  induction h with
  | refl => exact .inr .refl
  | @tail b c hab hbc ih =>
    rcases ih with ⟨f, hax, hxb⟩ | hab'
    · exact .inl ⟨f, hax, hxb.tail hbc⟩
    · by_cases hb : b.1 = x
      · exact .inl ⟨b.2, by rw [← hb]; exact hab, by rw [← hb]; exact .single hbc⟩
      by_cases hc : c.1 = x
      · exact .inl ⟨c.2, by rw [← hc]; exact hab.tail hbc, by rw [← hc]⟩
      refine .inr (hab'.tail ?_)
      rcases hbc with ⟨h, hflag⟩ | ⟨h, hflag⟩
      · exact .inl ⟨⟨hb, hc, h⟩, hflag⟩
      · exact .inr ⟨⟨hb, hc, h⟩, hflag⟩

/-- No walk of the other nodes leads from the node back to it over a `blocks` edge. -/
def NoLoop (G : Graph α) (x : α) : Prop :=
  ¬ ∃ o c, G.Way (x, false) o ∧ ReflTransGen (G.without x).Way o c ∧ G.Way c (x, true)

/-- With new edges at one node, the graph stays live exactly if they close no loop. -/
theorem live_of_agree_iff (hlive : G.Live) (hagree : G'.without x = G.without x)
    (hup : ¬ G'.up x x) (hblocks : ¬ G'.blocks x x) : G'.Live ↔ G'.NoLoop x := by
  rw [live_iff_way]
  constructor
  · rintro hway ⟨o, c, ho, hoc, hc⟩
    exact hway x (((ReflTransGen.single ho).trans (way_of_without hoc)).tail hc)
  · intro hloop y hy
    -- a walk that does not meet the node is an old one
    rcases way_avoids (x := x) hy with ⟨f, hyx, hxy⟩ | hold
    · have hx : ReflTransGen G'.Way (x, false) (x, true) := by
        cases f with
        | true =>
          rcases way_forget hxy with ⟨g, hg⟩
          exact hg.trans (by simpa using way_or hyx g)
        | false => exact hxy.trans (way_or hyx true)
      rcases way_from hup hblocks hx with h | h | ⟨h, -⟩
      · exact hloop h
      · simp at h
      · exact h rfl
    · rw [hagree] at hold
      exact live_iff_way.1 hlive y (way_of_without hold)

/-- One more `blocks` edge closes a loop if the node that is now waited for leads back. -/
theorem live_add_iff (hlive : G.Live) (hagree : G'.without x = G.without x)
    (hup : ¬ G'.up x x) (hblocks : ¬ G'.blocks x x) (hedge : G'.blocks x y)
    (hout : ∀ o, G'.Way (x, false) o → G.Way (x, false) o ∨ o = (y, true))
    (hin : ∀ c, G'.Way c (x, true) ↔ G.Way c (x, true)) :
    G'.Live ↔ ¬ ∃ c, ReflTransGen (G.without x).Way (y, true) c ∧ G.Way c (x, true) := by
  rw [live_of_agree_iff hlive hagree hup hblocks, NoLoop, hagree]
  refine not_congr ⟨?_, ?_⟩
  · rintro ⟨o, c, ho, hoc, hc⟩
    rcases hout o ho with ho | rfl
    · -- the other ways out were there before
      have hback := ((ReflTransGen.single ho).trans (way_of_without hoc)).tail ((hin c).1 hc)
      exact absurd hback (live_iff_way.1 hlive x)
    · exact ⟨c, hoc, (hin c).1 hc⟩
  · rintro ⟨c, hyc, hc⟩
    exact ⟨(y, true), c, .inr ⟨hedge, rfl⟩, hyc, (hin c).2 hc⟩

/-! ## Progress -/

/-- In a finite live graph somebody waits for nobody. -/
theorem exists_ready (hlive : G.Live) {nodes : List α} (hnodes : ∀ x y, G.Waits x y → y ∈ nodes)
    (hx : x ∈ nodes) : ∃ y ∈ nodes, ¬ G.Blocked y := by
  let after (a b : {y // y ∈ nodes}) : Prop := TransGen G.Waits b a
  have htrans : IsTrans {y // y ∈ nodes} after := ⟨fun a b c hab hbc => hbc.trans hab⟩
  have hirrefl : Std.Irrefl after := ⟨fun a ha => hlive a ha⟩
  have hfinite : Finite {y // y ∈ nodes} := List.finite_toSet nodes
  have hwf : WellFounded after := Finite.wellFounded_of_trans_of_irrefl after
  rcases hwf.has_min Set.univ ⟨⟨x, hx⟩, trivial⟩ with ⟨⟨y, hy⟩, -, hmin⟩
  exact ⟨y, hy, fun ⟨z, hyz⟩ => hmin ⟨z, hnodes y z hyz⟩ trivial (.single hyz)⟩

/-! ## Who is blocked -/

/-- The way up passes the node or is among the others. -/
theorem up_avoids (hy : y ≠ x) (h : ReflTransGen G.up y z) :
    (z ≠ x ∧ ReflTransGen (G.without x).up y z) ∨
      ∃ c, c ≠ x ∧ ReflTransGen (G.without x).up y c ∧ G.up c x ∧ ReflTransGen G.up x z := by
  induction h with
  | refl => exact .inl ⟨hy, .refl⟩
  | @tail b c _ hbc ih =>
    rcases ih with ⟨hb, hyb⟩ | ⟨d, hd, hyd, hdx, hxb⟩
    · by_cases hc : c = x
      · subst hc
        exact .inr ⟨b, hb, hyb, hbc, .refl⟩
      · exact .inl ⟨hc, hyb.tail ⟨hb, hc, hbc⟩⟩
    · exact .inr ⟨d, hd, hyd, hdx, hxb.tail hbc⟩

theorem up_of_without (h : ReflTransGen (G.without x).up y z) : ReflTransGen G.up y z :=
  ReflTransGen.mono (fun _ _ h => h.2.2) _ _ h

theorem Blocked.of_up (h : ReflTransGen G.up x y) : G.Blocked y → G.Blocked x :=
  fun ⟨z, hz⟩ => ⟨z, hz.of_up h⟩

/-- Another node is blocked without this one, by this one, or with it. -/
theorem blocked_iff (hy : y ≠ x) : G.Blocked y ↔ (G.without x).Blocked y ∨
    (∃ z, z ≠ x ∧ ReflTransGen (G.without x).up y z ∧ G.blocks z x) ∨
    ∃ c, c ≠ x ∧ ReflTransGen (G.without x).up y c ∧ G.up c x ∧ G.Blocked x := by
  constructor
  · rintro ⟨b, z, hyz, hzb⟩
    rcases up_avoids hy hyz with ⟨hz, hyz⟩ | ⟨c, hc, hyc, hcx, hxz⟩
    · by_cases hb : b = x
      · subst hb
        exact .inr (.inl ⟨z, hz, hyz, hzb⟩)
      · exact .inl ⟨b, z, hyz, hz, hb, hzb⟩
    · exact .inr (.inr ⟨c, hc, hyc, hcx, b, z, hxz, hzb⟩)
  · rintro (⟨b, z, hyz, -, -, hzb⟩ | ⟨z, -, hyz, hzx⟩ | ⟨c, -, hyc, hcx, hx⟩)
    · exact ⟨b, z, up_of_without hyz, hzb⟩
    · exact ⟨x, z, up_of_without hyz, hzx⟩
    · exact hx.of_up ((up_of_without hyc).tail hcx)

/-- The node itself is blocked by what it waits for, or through the node above it. -/
theorem blocked_self_iff : G.Blocked x ↔ (∃ b, G.blocks x b) ∨
    ∃ p, p ≠ x ∧ G.up x p ∧ ∃ z b, z ≠ x ∧ ReflTransGen (G.without x).up p z ∧ G.blocks z b := by
  constructor
  · rintro ⟨b, z, hxz, hzb⟩
    -- the rest of the way after the last visit
    have hlast : ∀ {z : α}, ReflTransGen G.up x z →
        z = x ∨ ∃ p, p ≠ x ∧ G.up x p ∧ z ≠ x ∧ ReflTransGen (G.without x).up p z := by
      intro z h
      induction h with
      | refl => exact .inl rfl
      | @tail c d _ hcd ih =>
        by_cases hd : d = x
        · exact .inl hd
        rcases ih with rfl | ⟨p, hp, hxp, hc, hpc⟩
        · exact .inr ⟨d, hd, hcd, hd, .refl⟩
        · exact .inr ⟨p, hp, hxp, hd, hpc.tail ⟨hc, hd, hcd⟩⟩
    rcases hlast hxz with rfl | ⟨p, hp, hxp, hz, hpz⟩
    · exact .inl ⟨b, hzb⟩
    · exact .inr ⟨p, hp, hxp, z, b, hz, hpz, hzb⟩
  · rintro (⟨b, hb⟩ | ⟨p, -, hxp, z, b, -, hpz, hzb⟩)
    · exact ⟨b, x, .refl, hb⟩
    · exact ⟨b, z, (up_of_without hpz).head hxp, hzb⟩

/-- If the edges to a node stay, the others are as blocked as they were if it is. -/
theorem blocked_of_agree (hagree : G'.without x = G.without x)
    (hup : ∀ c, c ≠ x → (G'.up c x ↔ G.up c x))
    (hblocks : ∀ z, z ≠ x → (G'.blocks z x ↔ G.blocks z x))
    (hx : G'.Blocked x ↔ G.Blocked x) (y : α) : G'.Blocked y ↔ G.Blocked y := by
  by_cases hy : y = x
  · rw [hy]
    exact hx
  rw [blocked_iff (G := G') hy, blocked_iff (G := G) hy, hagree, hx]
  refine or_congr_right (or_congr ⟨?_, ?_⟩ ⟨?_, ?_⟩)
  · rintro ⟨z, hz, hyz, hzx⟩
    exact ⟨z, hz, hyz, (hblocks z hz).1 hzx⟩
  · rintro ⟨z, hz, hyz, hzx⟩
    exact ⟨z, hz, hyz, (hblocks z hz).2 hzx⟩
  · rintro ⟨c, hc, hyc, hcx, hbx⟩
    exact ⟨c, hc, hyc, (hup c hc).1 hcx, hbx⟩
  · rintro ⟨c, hc, hyc, hcx, hbx⟩
    exact ⟨c, hc, hyc, (hup c hc).2 hcx, hbx⟩

/-- Without a node the others are as blocked as with it, if those that wait for it also wait for
another, and so do those below it when it is blocked. -/
theorem blocked_without_iff :
    (∀ y, y ≠ x → (G.Blocked y ↔ (G.without x).Blocked y)) ↔
      (∀ z, z ≠ x → G.blocks z x → (G.without x).Blocked z) ∧
      (G.Blocked x → ∀ c, c ≠ x → G.up c x → (G.without x).Blocked c) := by
  constructor
  · intro h
    constructor
    · intro z hz hzx
      exact (h z hz).1 ⟨x, z, .refl, hzx⟩
    · intro hx c hc hcx
      exact (h c hc).1 (hx.of_up (.single hcx))
  · rintro ⟨hwaits, hbelow⟩ y hy
    rw [blocked_iff hy]
    constructor
    · rintro (h | ⟨z, hz, hyz, hzx⟩ | ⟨c, hc, hyc, hcx, hx⟩)
      · exact h
      · exact (hwaits z hz hzx).of_up hyz
      · exact (hbelow hx c hc hcx).of_up hyc
    · exact .inl

end Graph

end Lib.Waiting
