import Mathlib.Data.Set.Insert
import Mathlib.Logic.Function.Basic
import Orynx.Lib.Machine

/-! # Negative verdicts guarded by a version

A cache may remember that nothing waits under a key. The verdict carries the
version of the key that was sampled before the looking, and is trusted only while
that is still the current one. Whoever adds an item advances the version afterwards;
until then the item is *owed* an advance. Readers may hold a sample, or a key they
found empty, for as long as they like.

* `Move` says what one step can do, up to dropping what a reader holds;
* `Sound` is the invariant that relates every held version to the items that wait;
* `not_trusted`: no item that is owed nothing is hidden by a trusted verdict.
-/

namespace Lib.Verdict

universe u v

/-- Items `ι` wait under keys `κ`. -/
structure State (ι : Type u) (κ : Type v) where
  /-- The items that wait, each with its key. -/
  waiting : Set (ι × κ)
  /-- The items whose advance is still to come. -/
  owed : Set (ι × κ)
  version : κ → Nat
  verdict : κ → Option Nat
  /-- The versions some reader holds and has not looked with yet. -/
  sampled : Set (κ × Nat)
  /-- The versions some reader holds for a key it has since found empty. -/
  empties : Set (κ × Nat)

variable {ι : Type u} {κ : Type v} [DecidableEq κ]

/-- The verdict of a key is trusted when it carries the current version. -/
def State.trusted (s : State ι κ) (k : κ) : Prop := s.verdict k = some (s.version k)

/-- Nothing waits, nothing was said and nobody looks. -/
def State.Init (s : State ι κ) : Prop :=
  s.waiting = ∅ ∧ (∀ k, s.verdict k = none) ∧ s.sampled = ∅ ∧ s.empties = ∅

/-- One step of some party. -/
inductive Move : State ι κ → State ι κ → Prop where
  /-- Items come and go; one that comes is owed an advance. -/
  | change {s : State ι κ} {waiting owed : Set (ι × κ)}
      (settled : waiting \ owed ⊆ s.waiting \ s.owed) :
      Move s { s with waiting := waiting, owed := owed }
  /-- The version of `k` advances, which settles debts under `k` only. -/
  | advance {s : State ι κ} {owed : Set (ι × κ)} (k : κ)
      (others : ∀ p, p.2 ≠ k → p ∈ s.owed → p ∈ owed) :
      Move s { s with version := Function.update s.version k (s.version k + 1), owed := owed }
  /-- A reader samples the version of `k`. -/
  | sample {s : State ι κ} {sampled empties : Set (κ × Nat)} (k : κ)
      (held : sampled ⊆ insert (k, s.version k) s.sampled) (kept : empties ⊆ s.empties) :
      Move s { s with sampled := sampled, empties := empties }
  /-- A reader looks under keys it has sampled. -/
  | look {s : State ι κ} {sampled empties : Set (κ × Nat)} (held : sampled ⊆ s.sampled)
      (found : ∀ p ∈ empties, p ∈ s.empties ∨ (p ∈ s.sampled ∧ ∀ i, (i, p.1) ∉ s.waiting)) :
      Move s { s with sampled := sampled, empties := empties }
  /-- A reader writes the verdict of a key it found empty. -/
  | mark {s : State ι κ} {sampled empties : Set (κ × Nat)} {k : κ} {v : Nat}
      (found : (k, v) ∈ s.empties) (held : sampled ⊆ s.sampled) (kept : empties ⊆ s.empties) :
      Move s { s with
        verdict := Function.update s.verdict k (some v), sampled := sampled, empties := empties }
  /-- A verdict is forgotten. -/
  | expire {s : State ι κ} (k : κ) :
      Move s { s with verdict := Function.update s.verdict k none }

/-- No version anyone holds or wrote is from the future, and under a key where a
settled item waits the current version is neither found empty nor written down. -/
structure Sound (s : State ι κ) : Prop where
  sampled_le : ∀ k v, (k, v) ∈ s.sampled → v ≤ s.version k
  empties_le : ∀ k v, (k, v) ∈ s.empties → v ≤ s.version k
  verdict_le : ∀ k v, s.verdict k = some v → v ≤ s.version k
  not_empty : ∀ i k, (i, k) ∈ s.waiting \ s.owed → (k, s.version k) ∉ s.empties
  not_trusted : ∀ i k, (i, k) ∈ s.waiting \ s.owed → ¬ s.trusted k

omit [DecidableEq κ] in
theorem Sound.of_init {s : State ι κ} (h : s.Init) : Sound s := by
  rcases h with ⟨hwaiting, hverdict, hsampled, hempties⟩
  constructor <;> simp_all

/-- An advance outdates every version held or written for its key. -/
theorem Sound.advance {s : State ι κ} (h : Sound s) {owed : Set (ι × κ)} (k : κ)
    (others : ∀ p, p.2 ≠ k → p ∈ s.owed → p ∈ owed) :
    Sound { s with version := Function.update s.version k (s.version k + 1), owed := owed } := by
  have hle : ∀ k' v, v ≤ s.version k' →
      v ≤ Function.update s.version k (s.version k + 1) k' := by
    intro k' v hv
    by_cases hk : k' = k
    · subst hk
      rw [Function.update_self]
      omega
    · rwa [Function.update_of_ne hk]
  have hsettled : ∀ i k', k' ≠ k → (i, k') ∈ s.waiting \ owed → (i, k') ∈ s.waiting \ s.owed :=
    fun i k' hk hi => ⟨hi.1, fun ho => hi.2 (others (i, k') hk ho)⟩
  refine ⟨fun k' v hv => hle k' v (h.sampled_le k' v hv),
    fun k' v hv => hle k' v (h.empties_le k' v hv),
    fun k' v hv => hle k' v (h.verdict_le k' v hv), ?_, ?_⟩
  · intro i k' hi hmem
    by_cases hk : k' = k
    · subst hk
      have := h.empties_le k' _ hmem
      simp only [Function.update_self] at this
      omega
    · simp only [Function.update_of_ne hk] at hmem
      exact h.not_empty i k' (hsettled i k' hk hi) hmem
  · intro i k' hi htrust
    by_cases hk : k' = k
    · subst hk
      have := h.verdict_le k' _ htrust
      simp only [Function.update_self] at this
      omega
    · simp only [State.trusted, Function.update_of_ne hk] at htrust
      exact h.not_trusted i k' (hsettled i k' hk hi) htrust

/-- A verdict written from a key found empty is not current where an item waits. -/
theorem Sound.mark {s : State ι κ} (h : Sound s) {sampled empties : Set (κ × Nat)} {k : κ}
    {v : Nat} (found : (k, v) ∈ s.empties) (held : sampled ⊆ s.sampled)
    (kept : empties ⊆ s.empties) :
    Sound { s with
      verdict := Function.update s.verdict k (some v), sampled := sampled,
      empties := empties } := by
  refine ⟨fun k' v' hv => h.sampled_le k' v' (held hv),
    fun k' v' hv => h.empties_le k' v' (kept hv), ?_,
    fun i k' hi hmem => h.not_empty i k' hi (kept hmem), ?_⟩
  · intro k' v' hv
    by_cases hk : k' = k
    · subst hk
      obtain rfl : v = v' := by simpa using hv
      exact h.empties_le k' v found
    · exact h.verdict_le k' v' (by simpa [hk] using hv)
  · intro i k' hi htrust
    by_cases hk : k' = k
    · subst hk
      have hv : v = s.version k' := by simpa [State.trusted] using htrust
      exact h.not_empty i k' hi (hv ▸ found)
    · exact h.not_trusted i k' hi (by simpa [State.trusted, hk] using htrust)

theorem Sound.move {s s' : State ι κ} (h : Sound s) (hm : Move s s') : Sound s' := by
  cases hm with
  | change settled =>
    exact ⟨h.sampled_le, h.empties_le, h.verdict_le,
      fun i k hi => h.not_empty i k (settled hi), fun i k hi => h.not_trusted i k (settled hi)⟩
  | advance k others => exact h.advance k others
  | sample k held kept =>
    refine ⟨?_, fun k' v hv => h.empties_le k' v (kept hv), h.verdict_le,
      fun i k' hi hmem => h.not_empty i k' hi (kept hmem), h.not_trusted⟩
    intro k' v hv
    rcases held hv with heq | hmem
    · rcases Prod.mk.inj heq with ⟨rfl, rfl⟩
      exact Nat.le_refl _
    · exact h.sampled_le k' v hmem
  | look held found =>
    refine ⟨fun k v hv => h.sampled_le k v (held hv), ?_, h.verdict_le, ?_, h.not_trusted⟩
    · intro k v hv
      rcases found (k, v) hv with hmem | ⟨hmem, -⟩
      · exact h.empties_le k v hmem
      · exact h.sampled_le k v hmem
    · intro i k hi hmem
      rcases found _ hmem with hold | ⟨-, hnone⟩
      · exact h.not_empty i k hi hold
      · exact hnone i hi.1
  | mark found held kept => exact h.mark found held kept
  | expire k =>
    refine ⟨h.sampled_le, h.empties_le, ?_, h.not_empty, ?_⟩
    · intro k' v hv
      by_cases hk : k' = k
      · simp [hk] at hv
      · exact h.verdict_le k' v (by simpa [hk] using hv)
    · intro i k' hi htrust
      by_cases hk : k' = k
      · simp [State.trusted, hk] at htrust
      · exact h.not_trusted i k' hi (by simpa [State.trusted, hk] using htrust)

variable (ι κ) in
/-- Any number of parties taking moves. -/
noncomputable def machine : Machine (State ι κ) (State ι κ) := .ofRel State.Init Move

theorem sound_of_reachable {s : State ι κ} (hs : (machine ι κ).Reachable s) : Sound s := by
  refine Machine.invariant (I := Sound) (fun s hi => .of_init hi) ?_ s hs
  intro s a s' _ ih hn
  exact ih.move (Machine.ofRel_next.1 hn).1

/-- No trusted verdict hides an item whose advance has come. -/
theorem not_trusted {s : State ι κ} (hs : (machine ι κ).Reachable s) {i : ι} {k : κ}
    (hwaiting : (i, k) ∈ s.waiting) (hsettled : (i, k) ∉ s.owed) : ¬ s.trusted k :=
  (sound_of_reachable hs).not_trusted i k ⟨hwaiting, hsettled⟩

end Lib.Verdict
