import Mathlib.Data.List.Basic

/-! # Counting in a sliding window

Entries of a log carry a time stamp, and `Capped W cap` says that no `W` consecutive
instants hold more than `cap` of them. A guard only ever looks back from the present: it
counts the entries younger than `W`.

* `Capped.snoc`: an entry that is added while the guard's count is below the cap keeps
  every window within it;
* `not_capped_snoc`: one that is added while it is not breaks the last window;
* `countP_take`: a log that is read newest first may be cut short before it is counted.
-/

namespace Lib.Window

universe u

variable {ρ : Type u} (stamp : ρ → Nat) (W : Nat)

/-- The entry lies in the window that opens at `start`. -/
def within (start : Nat) (r : ρ) : Bool := decide (start ≤ stamp r) && decide (stamp r < start + W)

/-- The entry is younger than `W`. -/
def recent (now : Nat) (r : ρ) : Bool := decide (now < stamp r + W)

/-- No window holds more than `cap` entries. -/
def Capped (cap : Int) (log : List ρ) : Prop :=
  ∀ start, (log.countP (within stamp W start) : Int) ≤ cap

variable {stamp W}

theorem recent_of_le {now now' : Nat} (h : now ≤ now') {r : ρ}
    (hr : recent stamp W now' r = true) : recent stamp W now r = true := by
  simp only [recent, decide_eq_true_eq] at hr ⊢
  omega

/-- The guard's count only falls as time passes. -/
theorem countP_recent_le {now now' : Nat} (h : now ≤ now') (log : List ρ) :
    log.countP (recent stamp W now') ≤ log.countP (recent stamp W now) :=
  List.countP_mono_left fun _ _ hr => recent_of_le h hr

theorem Capped.nil {cap : Int} (h : 0 ≤ cap) : Capped stamp W cap ([] : List ρ) := by
  intro start
  rw [List.countP_nil]
  exact h

theorem Capped.snoc {cap : Int} {log : List ρ} (h : Capped stamp W cap log) {r : ρ}
    (hroom : (log.countP (recent stamp W (stamp r)) : Int) < cap) :
    Capped stamp W cap (log ++ [r]) := by
  intro start
  rw [List.countP_append, List.countP_singleton]
  by_cases hin : within stamp W start r = true
  · -- whatever lies in a window with the new entry is recent to it
    have hle : log.countP (within stamp W start) ≤ log.countP (recent stamp W (stamp r)) := by
      refine List.countP_mono_left fun x _ hx => ?_
      simp only [within, recent, Bool.and_eq_true, decide_eq_true_eq] at hin hx ⊢
      omega
    rw [if_pos hin]
    omega
  · have hold := h start
    rw [if_neg hin]
    omega

theorem not_capped_snoc {cap : Int} {log : List ρ} {r : ρ} (hW : 0 < W)
    (hpast : ∀ x ∈ log, stamp x ≤ stamp r)
    (hfull : cap ≤ (log.countP (recent stamp W (stamp r)) : Int)) :
    ¬Capped stamp W cap (log ++ [r]) := by
  intro h
  -- the window that closes with the new entry
  have hlast := h (stamp r + 1 - W)
  have hin : within stamp W (stamp r + 1 - W) r = true := by
    simp only [within, Bool.and_eq_true, decide_eq_true_eq]
    omega
  have hle : log.countP (recent stamp W (stamp r)) ≤
      log.countP (within stamp W (stamp r + 1 - W)) := by
    refine List.countP_mono_left fun x hx hrecent => ?_
    have hx := hpast x hx
    simp only [within, recent, Bool.and_eq_true, decide_eq_true_eq] at hrecent ⊢
    omega
  rw [List.countP_append, List.countP_singleton, if_pos hin] at hlast
  omega

/-- Where the entries that pass `p` come first, a prefix holds as many of them as it can. -/
theorem countP_take {p : ρ → Bool} {log : List ρ}
    (h : log.Pairwise fun r r' => p r' = true → p r = true) (n : Nat) :
    (log.take n).countP p = min n (log.countP p) := by
  induction log generalizing n with
  | nil => simp
  | cons r log ih =>
    cases n with
    | zero => simp
    | succ n =>
      rcases List.pairwise_cons.1 h with ⟨hfirst, hrest⟩
      rw [List.take_succ_cons, List.countP_cons, List.countP_cons, ih hrest]
      by_cases hp : p r = true
      · simp only [if_pos hp]
        omega
      · have hnone : log.countP p = 0 := by
          rw [List.countP_eq_zero]
          exact fun x hx hpx => hp (hfirst x hx hpx)
        simp [hp, hnone]

end Lib.Window
