import Mathlib.Data.List.Basic

/-! # Slash-separated paths

The lexical cleaning of a path: empty names and dots go, and a double dot takes the name before it
away.

* `clean_join`: names without dots or slashes come out as they went in;
* `joinPath_join`: and name a place below the directory that they are joined to.
-/

namespace Lib.SlashPath

abbrev Name := List Char

/-- A path of the file system, as the names from its root on. -/
abbrev Path := List Name

def dot : Name := ['.']

def dotdot : Name := ['.', '.']

def split (s : List Char) : List Name := s.splitOn '/'

def join (names : List Name) : List Char := ['/'].intercalate names

/-- Append a name to a path that is kept back to front. -/
def step (rooted : Bool) (back : List Name) (n : Name) : List Name :=
  if n = [] ∨ n = dot then back
  else if n = dotdot then
    match back with
    | [] => if rooted then [] else [dotdot]
    | last :: above => if last = dotdot then dotdot :: back else above
  else n :: back

/-- Lexical cleaning. -/
def clean (s : List Char) : List Char :=
  let rooted := s.head? == some '/'
  let names := ((split s).foldl (step rooted) []).reverse
  if rooted then '/' :: join names
  else if names = [] then dot
  else join names

/-- The path that a relative one leads to from a directory. -/
def joinPath (dir : Path) (s : List Char) : Path :=
  ((split s).foldl (step true) dir.reverse).reverse

/-- A name that cleaning leaves alone. -/
structure Plain (n : Name) : Prop where
  ne_nil : n ≠ []
  ne_dot : n ≠ dot
  ne_dotdot : n ≠ dotdot
  noSlash : '/' ∉ n

variable {names : List Name}

theorem split_join (h : ∀ n ∈ names, Plain n) (hne : names ≠ []) : split (join names) = names :=
  List.splitOn_intercalate '/' (fun n hn => (h n hn).noSlash) hne

theorem foldl_step (rooted : Bool) (back : List Name) (h : ∀ n ∈ names, Plain n) :
    names.foldl (step rooted) back = names.reverse ++ back := by
  induction names generalizing back with
  | nil => rfl
  | cons n names ih =>
    have hn := h n List.mem_cons_self
    have hstep : step rooted back n = n :: back := by
      unfold step
      rw [if_neg, if_neg hn.ne_dotdot]
      rintro (hnil | hdot)
      · exact hn.ne_nil hnil
      · exact hn.ne_dot hdot
    rw [List.foldl_cons, hstep, ih _ fun m hm => h m (List.mem_cons_of_mem _ hm),
      List.reverse_cons, List.append_assoc, List.singleton_append]

theorem head?_join (h : ∀ n ∈ names, Plain n) : (join names).head? ≠ some '/' := by
  cases names with
  | nil => simp [join]
  | cons n names =>
    have hn := h n List.mem_cons_self
    cases n with
    | nil => exact absurd rfl hn.ne_nil
    | cons c n =>
      intro hslash
      have hhead : (join ((c :: n) :: names)).head? = some c := by
        cases names <;> simp [join, List.intercalate]
      rw [hhead, Option.some.injEq] at hslash
      exact hn.noSlash (hslash ▸ List.mem_cons_self)

theorem clean_join (h : ∀ n ∈ names, Plain n) (hne : names ≠ []) :
    clean (join names) = join names := by
  have hrooted : ((join names).head? == some '/') = false := beq_eq_false_iff_ne.2 (head?_join h)
  rw [clean, hrooted, split_join h hne, foldl_step false [] h]
  simp [hne]

theorem joinPath_join (dir : Path) (h : ∀ n ∈ names, Plain n) (hne : names ≠ []) :
    joinPath dir (join names) = dir ++ names := by
  rw [joinPath, split_join h hne, foldl_step true _ h, List.reverse_append, List.reverse_reverse,
    List.reverse_reverse]

/-! ## Names of a cleaned path -/

theorem join_split (s : List Char) : join (split s) = s := List.intercalate_splitOn '/'

theorem split_ne_nil (s : List Char) : split s ≠ [] := List.splitOn_ne_nil '/' s

theorem split_append (s t : List Char) : split (s ++ '/' :: t) = split s ++ split t :=
  List.splitOn_append_cons_self s t

theorem join_append {names' : List Name} (hne : names ≠ []) (hne' : names' ≠ []) :
    join (names ++ names') = join names ++ '/' :: join names' := by
  rcases List.exists_cons_of_ne_nil hne' with ⟨n', names', rfl⟩
  induction names with
  | nil => exact absurd rfl hne
  | cons n names ih =>
    cases names with
    | nil => simp [join, List.intercalate]
    | cons m names =>
      have hcons : ∀ t, join (n :: m :: names ++ t) = n ++ '/' :: join (m :: names ++ t) :=
        fun t => by simp [join, List.intercalate]
      have hone := hcons []
      rw [List.append_nil, List.append_nil] at hone
      rw [hcons, ih (List.cons_ne_nil _ _), hone]
      simp

theorem noSlash_of_mem_split {s : List Char} {n : Name} (hn : n ∈ split s) : '/' ∉ n := by
  induction s generalizing n with
  | nil =>
    obtain rfl := List.mem_singleton.1 hn
    exact List.not_mem_nil
  | cons c s ih =>
    rw [split, List.splitOn_cons_eq_if_modifyHead] at hn
    by_cases hc : c = '/'
    · rw [if_pos (by simpa using hc), List.mem_cons] at hn
      rcases hn with rfl | hn
      · exact List.not_mem_nil
      · exact ih hn
    · rw [if_neg (by simpa using hc)] at hn
      cases hs : split s with
      | nil => exact absurd hs (split_ne_nil s)
      | cons m names =>
        rw [← split, hs, List.modifyHead_cons, List.mem_cons] at hn
        rcases hn with rfl | hn
        · rw [List.mem_cons, not_or]
          exact ⟨Ne.symm hc, ih (by rw [hs]; exact List.mem_cons_self)⟩
        · exact ih (by rw [hs]; exact List.mem_cons_of_mem m hn)

/-- What a relative path comes out of the cleaning as. -/
def Tidy (names : List Name) : Prop :=
  ∃ up down, names = List.replicate up dotdot ++ down ∧ ∀ n ∈ down, Plain n

theorem tidy_step {back : List Name} (hback : Tidy back.reverse) {n : Name} (hn : '/' ∉ n) :
    Tidy (step false back n).reverse := by
  rcases hback with ⟨up, down, hback, hdown⟩
  unfold step
  by_cases hskip : n = [] ∨ n = dot
  · rw [if_pos hskip]
    exact ⟨up, down, hback, hdown⟩
  rw [if_neg hskip]
  rw [not_or] at hskip
  by_cases hup : n = dotdot
  · rw [if_pos hup]
    cases back with
    | nil => exact ⟨1, [], rfl, by simp⟩
    | cons last above =>
      rw [List.reverse_cons] at hback
      by_cases hlast : last = dotdot
      · -- nothing below the double dots
        dsimp only
        rw [if_pos hlast]
        rcases List.eq_nil_or_concat down with rfl | ⟨down, m, rfl⟩
        · refine ⟨up + 1, [], ?_, by simp⟩
          rw [List.reverse_cons, List.reverse_cons, hback, List.append_nil, List.append_nil,
            List.replicate_succ']
        · rw [List.concat_eq_append, ← List.append_assoc] at hback
          obtain ⟨-, hm⟩ := List.append_inj' hback rfl
          have hplain := hdown m (by simp)
          exact absurd ((List.cons.inj hm).1.symm.trans hlast) hplain.ne_dotdot
      · dsimp only
        rw [if_neg hlast]
        rcases List.eq_nil_or_concat down with rfl | ⟨down, m, rfl⟩
        · rw [List.append_nil] at hback
          have hmem : last ∈ List.replicate up dotdot := by rw [← hback]; simp
          exact absurd (List.eq_of_mem_replicate hmem) hlast
        · rw [List.concat_eq_append, ← List.append_assoc] at hback
          obtain ⟨habove, -⟩ := List.append_inj' hback rfl
          exact ⟨up, down, habove, fun k hk => hdown k (by simp [hk])⟩
  · rw [if_neg hup]
    refine ⟨up, down ++ [n], by rw [List.reverse_cons, hback, List.append_assoc], ?_⟩
    intro m hm
    rcases List.mem_append.1 hm with hm | hm
    · exact hdown m hm
    · rw [List.mem_singleton.1 hm]
      exact ⟨hskip.1, hskip.2, hup, hn⟩

theorem tidy_foldl {names back : List Name} (hback : Tidy back.reverse)
    (hnames : ∀ n ∈ names, '/' ∉ n) : Tidy (names.foldl (step false) back).reverse := by
  induction names generalizing back with
  | nil => exact hback
  | cons n names ih =>
    exact ih (tidy_step hback (hnames n List.mem_cons_self)) fun m hm =>
      hnames m (List.mem_cons_of_mem n hm)

theorem head?_clean {s : List Char} (h : (clean s).head? ≠ some '/') : s.head? ≠ some '/' := by
  intro hs
  refine h ?_
  rw [clean, hs]
  rfl

/-- A cleaned path that is relative is the dot or has names of this kind. -/
theorem clean_relative {s : List Char} (h : (clean s).head? ≠ some '/') :
    clean s = dot ∨ ∃ names, Tidy names ∧ names ≠ [] ∧ clean s = join names := by
  have hrooted : (s.head? == some '/') = false := beq_eq_false_iff_ne.2 (head?_clean h)
  have htidy : Tidy ((split s).foldl (step false) []).reverse :=
    tidy_foldl ⟨0, [], rfl, by simp⟩ fun n hn => noSlash_of_mem_split hn
  rw [clean, hrooted]
  by_cases hnil : ((split s).foldl (step false) []).reverse = []
  · left
    simp [hnil]
  · right
    exact ⟨_, htidy, hnil, by simp [hnil]⟩

theorem foldl_step_dotdot (up : Nat) (back : List Name) (hback : ∀ n ∈ back, n = dotdot) :
    (List.replicate up dotdot).foldl (step false) back = List.replicate up dotdot ++ back := by
  induction up generalizing back with
  | zero => rfl
  | succ up ih =>
    have hstep : step false back dotdot = dotdot :: back := by
      cases back with
      | nil => rfl
      | cons last above =>
        obtain rfl := hback last List.mem_cons_self
        rfl
    rw [List.replicate_succ, List.foldl_cons, hstep, ih _ (by simpa using hback),
      ← List.replicate_succ, List.replicate_succ', List.append_assoc, List.singleton_append]

/-- Cleaning does not take leading double dots away. -/
theorem clean_join_dotdot {up : Nat} {down : List Name} (hdown : ∀ n ∈ down, Plain n) :
    dotdot <+: clean (join (List.replicate (up + 1) dotdot ++ down)) := by
  have hstarts : ∀ names : List Name, dotdot <+: join (dotdot :: names) := by
    intro names
    cases names with
    | nil => exact ⟨[], by simp [join, List.intercalate]⟩
    | cons n names =>
      have hcons : join ([dotdot] ++ n :: names) = _ :=
        join_append (List.cons_ne_nil _ _) (List.cons_ne_nil _ _)
      rw [List.singleton_append] at hcons
      have hone : join [dotdot] = dotdot := by simp [join, List.intercalate]
      rw [hcons, hone]
      exact List.prefix_append _ _
  have hhead : (join (List.replicate (up + 1) dotdot ++ down)).head? = some '.' := by
    rcases hstarts (List.replicate up dotdot ++ down) with ⟨t, ht⟩
    rw [List.replicate_succ, List.cons_append, ← ht]
    rfl
  have hsplit : split (join (List.replicate (up + 1) dotdot ++ down)) =
      List.replicate (up + 1) dotdot ++ down := by
    refine List.splitOn_intercalate '/' (fun n hn => ?_) (by simp [List.replicate_succ])
    rcases List.mem_append.1 hn with hn | hn
    · rw [List.eq_of_mem_replicate hn]
      decide
    · exact (hdown n hn).noSlash
  have hrooted : (some '.' == some '/') = false := rfl
  rw [clean, hhead, hrooted, hsplit, List.foldl_append, foldl_step_dotdot _ _ (by simp),
    foldl_step false _ hdown]
  simp only [List.append_nil, List.reverse_append, List.reverse_replicate, List.reverse_reverse]
  rw [if_neg (by decide), if_neg (by simp [List.replicate_succ]), List.replicate_succ]
  exact hstarts _

/-- A relative path that does not lead up is the dot or has plain names. -/
theorem clean_plain {s : List Char} (hhead : (clean s).head? ≠ some '/')
    (hup : ¬dotdot <+: clean (clean s)) :
    clean s = dot ∨ ∃ names, (∀ n ∈ names, Plain n) ∧ names ≠ [] ∧ clean s = join names := by
  rcases clean_relative hhead with hdot | ⟨names, ⟨up, down, rfl, hdown⟩, hne, hclean⟩
  · exact .inl hdot
  · cases up with
    | zero => exact .inr ⟨down, hdown, hne, hclean⟩
    | succ up =>
      rw [hclean] at hup
      exact absurd (clean_join_dotdot hdown) hup

theorem clean_join_slash (h : ∀ n ∈ names, Plain n) (hne : names ≠ []) :
    clean (join names ++ ['/']) = join names := by
  have hrooted : ((join names ++ ['/']).head? == some '/') = false := by
    rw [beq_eq_false_iff_ne, List.head?_append]
    intro hhead
    rcases hjoin : (join names).head? with _ | c
    · -- plain names are not empty
      rw [List.head?_eq_none_iff] at hjoin
      have hsplit := split_join h hne
      rw [hjoin] at hsplit
      exact (h [] (by rw [← hsplit]; decide)).ne_nil rfl
    · rw [hjoin] at hhead
      exact head?_join h (hjoin.trans hhead)
  have hsplit : split (join names ++ ['/']) = names ++ [[]] := by
    rw [split_append, split_join h hne]
    rfl
  rw [clean, hrooted, hsplit, List.foldl_append, foldl_step false [] h]
  simp [step, hne]

/-! ## Paths below a directory -/

/-- A path starts with a directory and a slash just if its names start with the directory's, and
there are more. -/
theorem below_iff {dir : List Name} (hdir : dir ≠ []) (hslash : ∀ n ∈ dir, '/' ∉ n)
    {s : List Char} :
    join dir ++ ['/'] <+: s ↔ ∃ rest, rest ≠ [] ∧ split s = dir ++ rest := by
  constructor
  · rintro ⟨t, rfl⟩
    refine ⟨split t, split_ne_nil t, ?_⟩
    rw [List.append_assoc, List.singleton_append, split_append]
    exact congrArg (· ++ split t) (List.splitOn_intercalate '/' hslash hdir)
  · rintro ⟨rest, hrest, hsplit⟩
    refine ⟨join rest, ?_⟩
    rw [← join_split s, hsplit, join_append hdir hrest, List.append_assoc]
    rfl

theorem drop_below {dir rest : List Name} (hdir : dir ≠ []) (hrest : rest ≠ []) {s : List Char}
    (hsplit : split s = dir ++ rest) : s.drop (join dir ++ ['/']).length = join rest := by
  have hparts : s = join dir ++ ['/'] ++ join rest := by
    rw [← join_split s, hsplit, join_append hdir hrest, List.append_assoc]
    rfl
  rw [hparts, List.drop_left]

end Lib.SlashPath
