import Mathlib.Data.List.Sort
import Mathlib.Data.List.DropRight

/-! # Paging back through rows by key

A query orders its rows by a key and returns the newest ones below a cursor, and the key of the
oldest row of a page is the cursor of the next page. A reader follows the cursors until there is
none.

* `below_head`: what is below the oldest row of a page is what the page left out;
* `Serves`: what a page shows, and when it may end the reading;
* `Serves.follow`: the pages together show every row.
-/

namespace Lib.Keyset

universe u v w

variable {α : Type u} {β : Type w} {κ : Type v}

/-! ## Queries -/

section Query

variable [LinearOrder κ] (key : α → κ)

/-- `ORDER BY key`. -/
def ascending (l : List α) : List α := l.insertionSort fun a b => key a ≤ key b

/-- `ORDER BY key DESC`. -/
def descending (l : List α) : List α := l.insertionSort fun a b => key b ≤ key a

/-- `WHERE key < cursor`, where there is a cursor. -/
def below (cursor : Option κ) (l : List α) : List α :=
  l.filter fun a => cursor.all fun k => decide (key a < k)

/-- `ORDER BY key DESC LIMIT n`. -/
def newest (n : Nat) (l : List α) : List α := (descending key l).take n

variable {l l' : List α}

theorem ascending_perm : (ascending key l).Perm l := List.perm_insertionSort _ _

@[simp] theorem mem_ascending {a : α} : a ∈ ascending key l ↔ a ∈ l :=
  (ascending_perm key).mem_iff

variable {key}

/-- No two rows have one key. -/
def Keyed (key : α → κ) (l : List α) : Prop := (l.map key).Nodup

/-- The keys rise. -/
def Rising (key : α → κ) (l : List α) : Prop := l.Pairwise fun a b => key a < key b

omit [LinearOrder κ] in
theorem Keyed.sublist (h : Keyed key l) (hl : l'.Sublist l) : Keyed key l' :=
  (hl.map key).nodup h

omit [LinearOrder κ] in
theorem Keyed.perm (h : Keyed key l) (hl : l'.Perm l) : Keyed key l' :=
  (hl.map key).nodup_iff.2 h

theorem Keyed.ascending_rising (h : Keyed key l) : Rising key (ascending key l) := by
  have hsorted : (ascending key l).Pairwise fun a b => key a ≤ key b :=
    List.pairwise_insertionSort _ _
  have hkeys : (ascending key l).Pairwise fun a b => key a ≠ key b :=
    List.pairwise_map.1 (h.perm (ascending_perm key))
  exact hsorted.imp₂ (fun _ _ hle hne => lt_of_le_of_ne hle hne) hkeys

theorem Rising.eq_of_perm (h : Rising key l) (h' : Rising key l') (hperm : l.Perm l') : l = l' :=
  hperm.eq_of_pairwise (fun _ _ _ _ hab hba => absurd hba hab.asymm) h h'

theorem Rising.nodup (h : Rising key l) : l.Nodup :=
  h.imp fun hlt heq => absurd (heq ▸ hlt) (lt_irrefl _)

/-- Rows that rise are in order as they are. -/
theorem Keyed.eq_ascending (h : Keyed key l) (hl' : Rising key l') (hperm : l'.Perm l) :
    l' = ascending key l :=
  hl'.eq_of_perm h.ascending_rising (hperm.trans (ascending_perm key).symm)

theorem Keyed.descending_eq (h : Keyed key l) : descending key l = (ascending key l).reverse := by
  have hperm : (descending key l).Perm l := List.perm_insertionSort _ _
  have hsorted : (descending key l).Pairwise fun a b => key b ≤ key a :=
    List.pairwise_insertionSort _ _
  have hkeys : (descending key l).Pairwise fun a b => key a ≠ key b :=
    List.pairwise_map.1 (h.perm hperm)
  have hrising : Rising key (descending key l).reverse :=
    List.pairwise_reverse.2
      (hsorted.imp₂ (fun _ _ hle hne => lt_of_le_of_ne hle (Ne.symm hne)) hkeys)
  rw [← h.eq_ascending hrising ((List.reverse_perm _).trans hperm), List.reverse_reverse]

/-- The newest rows, put in order, are the end of all rows in order. -/
theorem Keyed.ascending_newest (h : Keyed key l) (n : Nat) :
    ascending key (newest key n l) = (ascending key l).rtake n := by
  have hnewest : newest key n l = ((ascending key l).rtake n).reverse := by
    rw [newest, h.descending_eq, List.rtake_eq_reverse_take_reverse, List.reverse_reverse]
  have hrising : Rising key ((ascending key l).rtake n) :=
    h.ascending_rising.sublist (List.drop_sublist _ _)
  have hperm : ((ascending key l).rtake n).Perm (newest key n l) := by
    rw [hnewest]
    exact (List.reverse_perm _).symm
  have hkeyed : Keyed key (newest key n l) :=
    (h.perm (ascending_perm key)).sublist (List.drop_sublist _ _) |>.perm hperm.symm
  exact (hkeyed.eq_ascending hrising hperm).symm

/-- A part of the rows is in order where all of them are. -/
theorem ascending_filter {p : α → Bool} (h : Keyed key (l.filter p)) :
    ascending key (l.filter p) = (ascending key l).filter p := by
  have hperm : ((ascending key l).filter p).Perm (l.filter p) := (ascending_perm key).filter p
  have hsorted : ((ascending key l).filter p).Pairwise fun a b => key a ≤ key b :=
    (List.pairwise_insertionSort (fun a b => key a ≤ key b) l).filter p
  have hkeys : ((ascending key l).filter p).Pairwise fun a b => key a ≠ key b :=
    List.pairwise_map.1 (h.perm hperm)
  exact (h.eq_ascending (hsorted.imp₂ (fun _ _ hle hne => lt_of_le_of_ne hle hne) hkeys)
    hperm).symm

end Query

/-! ## Pages -/

section Page

variable [LinearOrder κ] {key : α → κ} {l : List α} {n : Nat}

theorem below_none (key : α → κ) (l : List α) : below key none l = l := by
  simp [below]

theorem rdrop_append_rtake (l : List α) (n : Nat) : l.rdrop n ++ l.rtake n = l :=
  List.take_append_drop _ _

/-- A query for the newest below a cursor reads the end of what is below it. -/
theorem ascending_newest_below (h : Keyed key l) (n : Nat) (cursor : Option κ) :
    ascending key (newest key n (below key cursor l)) =
      (below key cursor (ascending key l)).rtake n := by
  have hbelow : Keyed key (below key cursor l) := h.sublist List.filter_sublist
  rw [hbelow.ascending_newest, below, ascending_filter hbelow]
  rfl

/-- A probe for one row more finds one exactly where something is left out. -/
theorem length_probe (l : List α) (n : Nat) : n < (l.rtake (n + 1)).length ↔ n < l.length := by
  rw [List.rtake, List.length_drop]
  omega

theorem drop_probe (h : n < l.length) : (l.rtake (n + 1)).drop 1 = l.rtake n := by
  rw [List.rtake, List.drop_drop, List.rtake]
  congr 1
  omega

theorem rtake_of_length_le (h : l.length ≤ n) : l.rtake n = l := by
  rw [List.rtake, Nat.sub_eq_zero_of_le h, List.drop_zero]

theorem rdrop_of_length_le (h : l.length ≤ n) : l.rdrop n = [] := by
  rw [List.rdrop, Nat.sub_eq_zero_of_le h, List.take_zero]

theorem rtake_eq_nil (hn : 0 < n) (h : l.rtake n = []) : l = [] := by
  have hlen := congrArg List.length h
  rw [List.rtake, List.length_drop, List.length_nil] at hlen
  exact List.length_eq_zero_iff.1 (by omega)

/-- What a page leaves out is older than what it shows. -/
theorem Rising.rdrop_lt (h : Rising key l) {a b : α} {rest : List α}
    (hpage : l.rtake n = a :: rest) (hb : b ∈ l.rdrop n) : key b < key a := by
  have hrising : Rising key (l.rdrop n ++ a :: rest) := by
    rwa [← hpage, rdrop_append_rtake]
  exact (List.pairwise_append.1 hrising).2.2 b hb a List.mem_cons_self

/-- The key of the oldest row of a page splits off what the page left out. -/
theorem below_head (h : Rising key l) {cursor : Option κ} {a : α} {rest : List α}
    (hpage : (below key cursor l).rtake n = a :: rest) :
    below key (some (key a)) l = (below key cursor l).rdrop n := by
  have hbelow : Rising key (below key cursor l) := h.filter _
  have hsplit : (below key cursor l).rdrop n ++ a :: rest = below key cursor l := by
    rw [← hpage, rdrop_append_rtake]
  have hpage' : Rising key (a :: rest) := hpage ▸ hbelow.sublist (List.drop_sublist _ _)
  -- a row below the head is below the cursor
  have hcursor : ∀ b, key b < key a → (cursor.all fun k => decide (key b < k)) = true := by
    intro b hb
    have ha : a ∈ below key cursor l := by
      rw [← hsplit]
      simp
    cases cursor with
    | none => rfl
    | some k =>
      have hak : key a < k := by simpa [below] using (List.mem_filter.1 ha).2
      simpa using hb.trans hak
  have htwice : below key (some (key a)) l = below key (some (key a)) (below key cursor l) := by
    rw [below, below, below, List.filter_filter]
    refine List.filter_congr fun b _ => ?_
    by_cases hb : key b < key a
    · simp [hb, hcursor b hb]
    · simp [hb]
  rw [htwice, ← hsplit, below, List.filter_append, hsplit]
  have hkept : ((below key cursor l).rdrop n).filter (fun b => decide (key b < key a)) =
      (below key cursor l).rdrop n :=
    List.filter_eq_self.2 fun b hb => decide_eq_true (hbelow.rdrop_lt hpage hb)
  have hgone : (a :: rest).filter (fun b => decide (key b < key a)) = [] := by
    refine List.filter_eq_nil_iff.2 fun b hb => ?_
    rcases List.mem_cons.1 hb with rfl | hb
    · simp
    · simpa using ((List.pairwise_cons.1 hpage').1 b hb).le
  simpa [hkept] using hgone

end Page

/-! ## Following the cursors -/

/-- One answer: what it shows, and the cursor of the next page. -/
structure Page (β : Type w) (κ : Type v) where
  rows : List β
  next : Option κ
deriving DecidableEq, Repr

/-- The pages up to the one without a cursor, or nothing if an answer fails or the reader gives
up before. -/
def follow (fetch : Option κ → Option (Page β κ)) : Nat → Option κ → Option (List (List β))
  | 0, _ => none
  | fuel + 1, cursor =>
    (fetch cursor).bind fun page =>
      match page.next with
      | none => some [page.rows]
      | some k => (follow fetch fuel (some k)).map (page.rows :: ·)

/-- Showing only a part of every page changes nothing else. -/
theorem follow_map {γ : Type w} (f : List β → List γ) (fetch : Option κ → Option (Page β κ))
    (fuel : Nat) (cursor : Option κ) :
    follow (fun c => (fetch c).map fun p => ⟨f p.rows, p.next⟩) fuel cursor =
      (follow fetch fuel cursor).map (List.map f) := by
  induction fuel generalizing cursor with
  | zero => rfl
  | succ fuel ih =>
    rw [follow, follow]
    cases hfetch : fetch cursor with
    | none => rfl
    | some page =>
      simp only [Option.map_some, Option.bind_some]
      cases page.next with
      | none => rfl
      | some k => simp only [ih, Option.map_map, Function.comp_def, List.map_cons]

section Serves

variable [LinearOrder κ] {key : α → κ} {l : List α} {n : Nat} {out : α → List β}
  {fetch : Option κ → Option (Page β κ)}

/-- The answers are the pages of `n` of the rows `l`, of which each row shows `out`: a cursor is
the key of the oldest row of its page, and without one all that is left out shows nothing. -/
structure Serves (key : α → κ) (l : List α) (n : Nat) (out : α → List β)
    (fetch : Option κ → Option (Page β κ)) : Prop where
  answers : ∀ cursor, ∃ next,
    fetch cursor = some ⟨((below key cursor l).rtake n).flatMap out, next⟩ ∧
      (∀ k, next = some k → ∃ a rest, (below key cursor l).rtake n = a :: rest ∧ key a = k) ∧
        (next = none → ∀ a ∈ (below key cursor l).rdrop n, out a = [])

/-- Read from the newest page to the last, the pages show every row, in order. -/
theorem Serves.follow (h : Serves key l n out fetch) (hl : Rising key l) {fuel : Nat}
    {cursor : Option κ} (hfuel : (below key cursor l).length < fuel) :
    ∃ pages, Keyset.follow fetch fuel cursor = some pages ∧
      pages.reverse.flatten = (below key cursor l).flatMap out := by
  induction fuel generalizing cursor with
  | zero => exact absurd hfuel (Nat.not_lt_zero _)
  | succ fuel ih =>
    rcases h.answers cursor with ⟨next, hfetch, hnext, hlast⟩
    have hsplit := rdrop_append_rtake (below key cursor l) n
    cases next with
    | none =>
      refine ⟨[((below key cursor l).rtake n).flatMap out], ?_, ?_⟩
      · simp [Keyset.follow, hfetch]
      · rw [List.reverse_singleton, List.flatten_singleton]
        conv_rhs => rw [← hsplit, List.flatMap_append, List.flatMap_eq_nil_iff.2 (hlast rfl),
          List.nil_append]
    | some k =>
      rcases hnext k rfl with ⟨a, rest, hpage, rfl⟩
      have hbelow := below_head hl hpage
      -- the page is not empty, so that less is left
      have hshorter : (below key (some (key a)) l).length < fuel := by
        have hlen := congrArg List.length hsplit
        rw [List.length_append, hpage, List.length_cons] at hlen
        rw [hbelow]
        omega
      rcases ih hshorter with ⟨pages, hpages, hflat⟩
      refine ⟨((below key cursor l).rtake n).flatMap out :: pages, ?_, ?_⟩
      · simp [Keyset.follow, hfetch, hpages]
      · rw [List.reverse_cons, List.flatten_append, hflat, List.flatten_singleton, hbelow,
          ← List.flatMap_append, hsplit]

/-- A page without a cursor shows all there is to see below its own. -/
theorem Serves.last (h : Serves key l n out fetch) {cursor : Option κ} {page : Page β κ}
    (hpage : fetch cursor = some page) (hnext : page.next = none) :
    page.rows = (below key cursor l).flatMap out := by
  rcases h.answers cursor with ⟨next, hfetch, -, hlast⟩
  obtain rfl := Option.some.inj (hpage.symm.trans hfetch)
  conv_rhs => rw [← rdrop_append_rtake (below key cursor l) n, List.flatMap_append,
    List.flatMap_eq_nil_iff.2 (hlast hnext), List.nil_append]

end Serves

end Lib.Keyset
