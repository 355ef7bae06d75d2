import Mathlib.Data.List.Basic

/-! # Prefix codes

Codes whose words say themselves where they end, so that words written one after the other can be
told apart again.

* `flatMap_injective`: a sequence of words is read in one way only, however many there are;
* `delimited`, `sized`: words that end at a sign they do not have, and words with their length in
  front.
-/

namespace Lib

/-- A code word is not empty, and no code word starts another one. -/
structure PrefixCode {α β : Type*} (code : α → List β) : Prop where
  ne_nil : ∀ a, code a ≠ []
  cancel : ∀ a b r s, code a ++ r = code b ++ s → a = b ∧ r = s

namespace PrefixCode

variable {α β γ : Type*} {code : α → List β}

theorem flatMap_injective (h : PrefixCode code) :
    Function.Injective fun as : List α => as.flatMap code := by
  have hempty : ∀ (a : α) (as : List α), (a :: as).flatMap code ≠ [] := by
    intro a as heq
    rw [List.flatMap_cons, List.append_eq_nil_iff] at heq
    exact h.ne_nil a heq.1
  intro as bs
  induction as generalizing bs with
  | nil =>
    intro heq
    cases bs with
    | nil => rfl
    | cons b bs => exact absurd heq.symm (hempty b bs)
  | cons a as ih =>
    intro heq
    cases bs with
    | nil => exact absurd heq (hempty a as)
    | cons b bs =>
      simp only [List.flatMap_cons] at heq
      rcases h.cancel a b _ _ heq with ⟨rfl, hrest⟩
      rw [ih hrest]

/-- Words of one length. -/
theorem of_length (hinj : Function.Injective code) {n : Nat}
    (hlength : ∀ a, (code a).length = n + 1) : PrefixCode code where
  ne_nil a hnil := by
    have hlen := hlength a
    rw [hnil] at hlen
    cases hlen
  cancel a b r s heq := by
    rcases List.append_inj heq ((hlength a).trans (hlength b).symm) with ⟨hab, hrs⟩
    exact ⟨hinj hab, hrs⟩

theorem append_stop_inj {stop : β} {xs ys r s : List β} (hxs : stop ∉ xs) (hys : stop ∉ ys)
    (h : xs ++ stop :: r = ys ++ stop :: s) : xs = ys ∧ r = s := by
  induction xs generalizing ys with
  | nil =>
    cases ys with
    | nil => exact ⟨rfl, (List.cons.inj h).2⟩
    | cons y ys =>
      rw [List.nil_append, List.cons_append] at h
      exact absurd ((List.cons.inj h).1 ▸ List.mem_cons_self) hys
  | cons x xs ih =>
    cases ys with
    | nil =>
      rw [List.nil_append, List.cons_append] at h
      exact absurd ((List.cons.inj h).1 ▸ List.mem_cons_self) hxs
    | cons y ys =>
      rw [List.cons_append, List.cons_append] at h
      obtain ⟨rfl, htail⟩ := List.cons.inj h
      rw [List.mem_cons, not_or] at hxs hys
      rcases ih hxs.2 hys.2 htail with ⟨rfl, hrs⟩
      exact ⟨rfl, hrs⟩

/-- Words that end at a sign they do not have. -/
theorem delimited (hinj : Function.Injective code) {stop : β} (hstop : ∀ a, stop ∉ code a) :
    PrefixCode fun a => code a ++ [stop] where
  ne_nil a := List.append_ne_nil_of_right_ne_nil _ (List.cons_ne_nil _ _)
  cancel a b r s heq := by
    rw [List.append_assoc, List.append_assoc] at heq
    rcases append_stop_inj (hstop a) (hstop b) heq with ⟨hab, hrs⟩
    exact ⟨hinj hab, hrs⟩

/-- Any words, each with its length in front and a fixed end. -/
theorem sized {size : Nat → List β} (hsize : PrefixCode size) (stop : List β) :
    PrefixCode fun word : List β => size word.length ++ (word ++ stop) where
  ne_nil word := List.append_ne_nil_of_left_ne_nil (hsize.ne_nil _) _
  cancel word word' r s heq := by
    simp only [List.append_assoc] at heq
    rcases hsize.cancel _ _ _ _ heq with ⟨hlength, heq⟩
    -- the lengths agree, and so do the ends of the words
    rcases List.append_inj heq hlength with ⟨hword, hrest⟩
    exact ⟨hword, List.append_cancel_left hrest⟩

end PrefixCode

end Lib
