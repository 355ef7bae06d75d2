import Mathlib.Data.List.DropRight
import Orynx.Lib.Marker

/-! # The managed block of the runtime config

`server/internal/daemon/execenv/runtime_config.go`: the daemon writes its brief into a file that may
be the user's own, between two markers, and takes it out again when the task is over.

* `writeRuntimeConfigFile`, `locateMarkerBlock`, `CleanupRuntimeConfig`: the file is its bytes, or
  none where it does not exist;
* `foldl_writeRuntimeConfigFile`: after any injections the file is the user's text, the separator
  if it existed, the last block, and what the earlier briefs have left behind;
* `reversible_iff`: that is nothing, and every edit of the user survives the cleanup, unless a brief
  has the end marker in it, or the text that the user puts in front of the block of a file that was
  absent ends like the separator.
-/

namespace Orynx.Daemon

open Lib

abbrev Bytes := List UInt8

/-- The bytes of a Go string. -/
def bytes (s : String) : Bytes := s.toUTF8.data.toList

def newline : UInt8 := 10

def runtimeMarkerBegin : Bytes :=
  bytes "<!-- BEGIN MULTICA-RUNTIME (auto-managed; do not edit) -->"

def runtimeMarkerEnd : Bytes := bytes "<!-- END MULTICA-RUNTIME -->"

def runtimeManagedSeparator : Bytes := bytes "\n\n"

/-- `strings.TrimRight(brief, "\n")`. -/
def trimRight (brief : Bytes) : Bytes := brief.rdropWhile (· == newline)

def block (brief : Bytes) : Bytes :=
  runtimeMarkerBegin ++ newline :: trimRight brief ++ newline :: runtimeMarkerEnd ++ [newline]

def locateMarkerBlock (content : Bytes) : Option (Nat × Nat) := do
  let start ← Marker.index runtimeMarkerBegin content
  let afterBegin := start + runtimeMarkerBegin.length
  match Marker.index runtimeMarkerEnd (content.drop afterBegin) with
  -- no end marker: the block goes to the end of the file
  | none => some (start, content.length)
  | some endRel =>
    let stop := afterBegin + endRel + runtimeMarkerEnd.length
    some (start, if content[stop]? = some newline then stop + 1 else stop)

def writeRuntimeConfigFile (existing : Option Bytes) (brief : Bytes) : Option Bytes :=
  match existing with
  | none => some (block brief)
  | some existing =>
    match locateMarkerBlock existing with
    | some (start, stop) => some (existing.take start ++ block brief ++ existing.drop stop)
    | none => some (existing ++ runtimeManagedSeparator ++ block brief)

def CleanupRuntimeConfig (existing : Option Bytes) : Option Bytes :=
  match existing with
  | none => none
  | some existing =>
    match locateMarkerBlock existing with
    | none => some existing
    | some (start, stop) =>
      let pre := existing.take start
      let post := existing.drop stop
      let hadManagedSeparator := runtimeManagedSeparator.isSuffixOf pre
      let pre :=
        if hadManagedSeparator then pre.take (pre.length - runtimeManagedSeparator.length) else pre
      let remainder := pre ++ post
      if !hadManagedSeparator && remainder.isEmpty then none else some remainder

/-! ## The markers -/

/-- `<` comes only at the head of a marker, and no marker has a newline. -/
theorem begin_spelled :
    newline ∉ runtimeMarkerBegin ∧ 60 ∉ runtimeMarkerBegin.tail ∧ runtimeMarkerBegin ≠ [] := by
  decide +kernel

theorem end_spelled :
    newline ∉ runtimeMarkerEnd ∧ 60 ∉ runtimeMarkerEnd.tail ∧ 2 < runtimeMarkerEnd.length := by
  decide +kernel

theorem end_ne_nil : runtimeMarkerEnd ≠ [] :=
  List.ne_nil_of_length_pos (Nat.zero_lt_of_lt end_spelled.2.2)

theorem separator_eq : runtimeManagedSeparator = [newline, newline] := rfl

theorem index_begin {pre : Bytes} (hpre : Marker.contains runtimeMarkerBegin pre = false)
    (rest : Bytes) :
    Marker.index runtimeMarkerBegin (pre ++ (runtimeMarkerBegin ++ rest)) = some pre.length :=
  Marker.index_append begin_spelled.2.1 (Marker.contains_eq_false_iff.1 hpre) rest

theorem index_end {pre : Bytes} (hpre : Marker.contains runtimeMarkerEnd pre = false)
    (rest : Bytes) :
    Marker.index runtimeMarkerEnd (pre ++ (runtimeMarkerEnd ++ rest)) = some pre.length :=
  Marker.index_append end_spelled.2.1 (Marker.contains_eq_false_iff.1 hpre) rest

/-- Newlines around a text do not make up an end marker. -/
theorem contains_end_trimRight (brief : Bytes) :
    Marker.contains runtimeMarkerEnd (newline :: trimRight brief ++ [newline]) =
      Marker.contains runtimeMarkerEnd brief := by
  have hsplit {x y : Bytes} : runtimeMarkerEnd <:+: x ++ newline :: y ↔
      runtimeMarkerEnd <:+: x ∨ runtimeMarkerEnd <:+: y :=
    Marker.infix_around_iff end_spelled.1 end_ne_nil
  have hnil : ¬runtimeMarkerEnd <:+: [] := fun h => end_ne_nil (List.infix_nil.1 h)
  have htrim : runtimeMarkerEnd <:+: trimRight brief ↔ runtimeMarkerEnd <:+: brief := by
    induction brief using List.reverseRecOn with
    | nil => rfl
    | append_singleton brief c ih =>
      rw [trimRight, List.rdropWhile_concat]
      by_cases hc : c = newline
      · subst hc
        rw [if_pos (by simp), hsplit, or_iff_left hnil]
        exact ih
      · rw [if_neg (by simpa using hc)]
  rw [Bool.eq_iff_iff, Marker.contains_iff, Marker.contains_iff, hsplit, or_iff_left hnil,
    ← List.nil_append (newline :: _), hsplit, or_iff_right hnil, htrim]

/-! ## The block that is found -/

/-- The block after its begin marker. -/
def afterBegin (brief : Bytes) : Bytes :=
  newline :: trimRight brief ++ [newline] ++ (runtimeMarkerEnd ++ [newline])

theorem block_eq (brief : Bytes) : block brief = runtimeMarkerBegin ++ afterBegin brief := by
  simp [block, afterBegin]

/-- How much of the text after a begin marker belongs to the block. -/
def closing (rest : Bytes) : Nat :=
  match Marker.index runtimeMarkerEnd rest with
  | none => rest.length
  | some i =>
    if rest[i + runtimeMarkerEnd.length]? = some newline then i + runtimeMarkerEnd.length + 1
    else i + runtimeMarkerEnd.length

theorem locateMarkerBlock_eq_none {content : Bytes}
    (h : Marker.contains runtimeMarkerBegin content = false) :
    locateMarkerBlock content = none := by
  rw [locateMarkerBlock, Marker.index_eq_none_iff.2 (Marker.contains_eq_false_iff.1 h)]
  rfl

theorem locateMarkerBlock_append {pre : Bytes}
    (hpre : Marker.contains runtimeMarkerBegin pre = false) (rest : Bytes) :
    locateMarkerBlock (pre ++ (runtimeMarkerBegin ++ rest)) =
      some (pre.length, pre.length + runtimeMarkerBegin.length + closing rest) := by
  have hdrop : (pre ++ (runtimeMarkerBegin ++ rest)).drop
      (pre.length + runtimeMarkerBegin.length) = rest := by
    rw [← List.append_assoc, ← List.length_append, List.drop_left]
  rw [locateMarkerBlock, index_begin hpre]
  show (match Marker.index runtimeMarkerEnd (List.drop _ _) with | none => _ | some endRel => _) = _
  rw [hdrop, closing]
  cases Marker.index runtimeMarkerEnd rest with
  | none => simp [Nat.add_assoc]
  | some i =>
    have hget : (pre ++ (runtimeMarkerBegin ++ rest))[
        pre.length + runtimeMarkerBegin.length + i + runtimeMarkerEnd.length]? =
        rest[i + runtimeMarkerEnd.length]? := by
      conv_rhs => rw [← hdrop, List.getElem?_drop]
      rw [Nat.add_assoc _ i]
    simp only [hget]
    split <;> simp only [Nat.add_assoc]

/-- What of a block is not taken for it, because its brief has an end marker. -/
def residue (brief : Bytes) : Bytes := (afterBegin brief).drop (closing (afterBegin brief))

/-- The end marker of a block closes it at the latest. -/
theorem index_afterBegin (brief : Bytes) :
    ∃ i, i + runtimeMarkerEnd.length < (afterBegin brief).length ∧
      ∀ rest, Marker.index runtimeMarkerEnd (afterBegin brief ++ rest) = some i := by
  let body := newline :: trimRight brief ++ [newline] ++ runtimeMarkerEnd
  have hin : runtimeMarkerEnd <:+: body := (List.suffix_append _ _).isInfix
  obtain ⟨i, hi⟩ := Option.ne_none_iff_exists'.1
    (mt Marker.index_eq_none_iff.1 (not_not.2 hin))
  refine ⟨i, ?_, fun rest => ?_⟩
  · have := Marker.index_le hi
    rw [afterBegin, ← List.append_assoc, List.length_append]
    exact Nat.lt_succ_of_le this
  · rw [afterBegin, ← List.append_assoc, List.append_assoc body,
      Marker.index_append_of_infix hin, hi]

theorem closing_afterBegin (brief rest : Bytes) :
    closing (afterBegin brief ++ rest) = closing (afterBegin brief) ∧
      closing (afterBegin brief) ≤ (afterBegin brief).length := by
  obtain ⟨i, hi, hindex⟩ := index_afterBegin brief
  have hself := hindex []
  rw [List.append_nil] at hself
  rw [closing, closing, hindex, hself]
  simp only [List.getElem?_append_left hi]
  refine ⟨trivial, ?_⟩
  split <;> omega

theorem drop_block (brief rest : Bytes) :
    (afterBegin brief ++ rest).drop (closing (afterBegin brief ++ rest)) =
      residue brief ++ rest := by
  obtain ⟨heq, hle⟩ := closing_afterBegin brief rest
  rw [heq, List.drop_append_of_le_length hle, residue]

/-- A brief without an end marker leaves nothing behind, another at least the end of its block. -/
theorem residue_cases (brief : Bytes) :
    Marker.contains runtimeMarkerEnd brief = false ∧ residue brief = [] ∨
      Marker.contains runtimeMarkerEnd brief = true ∧ 2 < (residue brief).length := by
  have hin := contains_end_trimRight brief
  have hlen : (afterBegin brief).length =
      (newline :: trimRight brief ++ [newline]).length + (runtimeMarkerEnd.length + 1) := by
    rw [afterBegin, List.length_append, @List.length_append _ _ [newline]]
    rfl
  cases hb : Marker.contains runtimeMarkerEnd brief with
  | false =>
    rw [hb] at hin
    refine .inl ⟨rfl, List.drop_eq_nil_of_le ?_⟩
    rw [closing, afterBegin, index_end hin, ← afterBegin]
    simp only
    rw [if_pos, hlen]
    · omega
    · rw [afterBegin, List.getElem?_append_right (Nat.le_add_right _ _), Nat.add_sub_cancel_left,
        List.getElem?_append_right (le_refl _), Nat.sub_self]
      rfl
  | true =>
    rw [hb] at hin
    refine .inr ⟨rfl, ?_⟩
    -- the marker in the brief is found before the one that closes the block
    obtain ⟨i, hi⟩ := Option.isSome_iff_exists.1 hin
    have hle := Marker.index_le hi
    have hend := end_spelled.2.2
    have hclosing : closing (afterBegin brief) ≤ i + runtimeMarkerEnd.length + 1 := by
      rw [closing, afterBegin, Marker.index_append_of_infix (Marker.contains_iff.1 hin), hi]
      simp only
      split <;> omega
    rw [residue, List.length_drop]
    omega

theorem locateMarkerBlock_block {pre brief : Bytes}
    (hpre : Marker.contains runtimeMarkerBegin pre = false)
    (hbrief : Marker.contains runtimeMarkerEnd brief = false) :
    locateMarkerBlock (pre ++ block brief) =
      some (pre.length, (pre ++ block brief).length) := by
  have hclosing : closing (afterBegin brief) = (afterBegin brief).length := by
    rcases residue_cases brief with ⟨-, hnil⟩ | ⟨hb, -⟩
    · exact le_antisymm (closing_afterBegin brief []).2 (List.drop_eq_nil_iff.1 hnil)
    · rw [hbrief] at hb
      cases hb
  rw [block_eq, locateMarkerBlock_append hpre, hclosing]
  simp [Nat.add_assoc]

/-! ## What the injections leave -/

/-- What the blocks of these briefs have left behind the latest one. -/
def leftovers (briefs : List Bytes) : Bytes := briefs.reverse.flatMap residue

theorem leftovers_cases (briefs : List Bytes) :
    (∀ brief ∈ briefs, Marker.contains runtimeMarkerEnd brief = false) ∧ leftovers briefs = [] ∨
      ¬(∀ brief ∈ briefs, Marker.contains runtimeMarkerEnd brief = false) ∧
        2 < (leftovers briefs).length := by
  induction briefs with
  | nil => exact .inl ⟨List.forall_mem_nil _, rfl⟩
  | cons brief briefs ih =>
    have hcons : leftovers (brief :: briefs) = leftovers briefs ++ residue brief := by
      simp [leftovers]
    rw [hcons, List.forall_mem_cons]
    rcases residue_cases brief with ⟨hb, hr⟩ | ⟨hb, hr⟩
    · simpa [hb, hr] using ih
    · refine .inr ⟨by simp [hb], ?_⟩
      rw [List.length_append]
      omega

theorem writeRuntimeConfigFile_block {pre : Bytes}
    (hpre : Marker.contains runtimeMarkerBegin pre = false) (old rest brief : Bytes) :
    writeRuntimeConfigFile (some (pre ++ block old ++ rest)) brief =
      some (pre ++ block brief ++ (residue old ++ rest)) := by
  have hfile : pre ++ block old ++ rest =
      pre ++ (runtimeMarkerBegin ++ (afterBegin old ++ rest)) := by
    simp [block_eq]
  rw [writeRuntimeConfigFile, hfile, locateMarkerBlock_append hpre]
  simp only
  rw [List.take_left, ← List.drop_drop, ← List.drop_drop, List.drop_left, List.drop_left,
    drop_block]

/-- The separator that goes with a block: none in a file that was absent. -/
def separator (orig : Option Bytes) : Bytes :=
  if orig.isNone then [] else runtimeManagedSeparator

theorem separator_some (content : Bytes) : separator (some content) = runtimeManagedSeparator := rfl

theorem separator_none : separator none = [] := rfl

/-- No begin marker comes up where a separator follows. -/
theorem contains_begin_separator {text : Bytes}
    (h : Marker.contains runtimeMarkerBegin text = false) (orig : Option Bytes) :
    Marker.contains runtimeMarkerBegin (text ++ separator orig) = false := by
  cases orig with
  | none => simpa [separator] using h
  | some content =>
    have hne := begin_spelled.2.2
    have hnil : ¬runtimeMarkerBegin <:+: [] := fun h => hne (List.infix_nil.1 h)
    rw [Marker.contains_eq_false_iff] at h ⊢
    rw [separator_some, separator_eq, Marker.infix_around_iff begin_spelled.1 hne,
      ← List.nil_append [newline], Marker.infix_around_iff begin_spelled.1 hne]
    simp [h, hnil]

variable {orig : Option Bytes}

theorem foldl_writeRuntimeConfigFile
    (horig : Marker.contains runtimeMarkerBegin (orig.getD []) = false) (briefs : List Bytes)
    (last : Bytes) :
    (briefs ++ [last]).foldl writeRuntimeConfigFile orig =
      some (orig.getD [] ++ separator orig ++ block last ++ leftovers briefs) := by
  induction briefs using List.reverseRecOn generalizing last with
  | nil =>
    cases orig with
    | none => simp [writeRuntimeConfigFile, leftovers, separator]
    | some content =>
      have hnone : locateMarkerBlock content = none := locateMarkerBlock_eq_none horig
      rw [List.nil_append, List.foldl_cons, List.foldl_nil, writeRuntimeConfigFile, hnone]
      simp [separator, leftovers]
  | append_singleton briefs brief ih =>
    rw [List.foldl_append, ih brief, List.foldl_cons, List.foldl_nil,
      writeRuntimeConfigFile_block (contains_begin_separator horig orig)]
    simp [leftovers]

/-! ## Cleanup -/

/-- What is left of a file whose block has been taken out between two texts. -/
def restored (pre post : Bytes) : Option Bytes :=
  if runtimeManagedSeparator <:+ pre then some (pre.take (pre.length - 2) ++ post)
  else if pre ++ post = [] then none else some (pre ++ post)

theorem CleanupRuntimeConfig_block {pre : Bytes}
    (hpre : Marker.contains runtimeMarkerBegin pre = false) (brief rest : Bytes) :
    CleanupRuntimeConfig (some (pre ++ block brief ++ rest)) =
      restored pre (residue brief ++ rest) := by
  have hfile : pre ++ block brief ++ rest =
      pre ++ (runtimeMarkerBegin ++ (afterBegin brief ++ rest)) := by
    simp [block_eq]
  rw [CleanupRuntimeConfig, hfile, locateMarkerBlock_append hpre]
  simp only
  rw [List.take_left, ← List.drop_drop, ← List.drop_drop, List.drop_left, List.drop_left,
    drop_block, restored]
  have hlen : runtimeManagedSeparator.length = 2 := rfl
  by_cases hsep : runtimeManagedSeparator <:+ pre
  · have hyes : runtimeManagedSeparator.isSuffixOf pre = true :=
      List.isSuffixOf_iff_suffix.2 hsep
    simp only [hyes, hsep, hlen, Bool.not_true, Bool.false_and, if_true, if_false,
      Bool.false_eq_true]
  · have hno : runtimeManagedSeparator.isSuffixOf pre = false := by
      rw [← Bool.not_eq_true, List.isSuffixOf_iff_suffix]
      exact hsep
    simp only [hno, hsep, Bool.not_false, Bool.true_and, if_false, Bool.false_eq_true,
      List.isEmpty_iff]

/-- The block is found again however often it has been written anew. -/
theorem CleanupRuntimeConfig_foldl {pre : Bytes}
    (hpre : Marker.contains runtimeMarkerBegin pre = false) (brief : Bytes) (more : List Bytes)
    (rest : Bytes) :
    CleanupRuntimeConfig (more.foldl writeRuntimeConfigFile (some (pre ++ block brief ++ rest))) =
      restored pre (leftovers (brief :: more) ++ rest) := by
  induction more generalizing brief rest with
  | nil =>
    rw [List.foldl_nil, CleanupRuntimeConfig_block hpre]
    simp [leftovers]
  | cons next more ih =>
    rw [List.foldl_cons, writeRuntimeConfigFile_block hpre, ih]
    simp [leftovers]

/-- The file the user has when the block is out of it: a file that was absent does not stay behind
without a text. -/
def userFile (orig : Option Bytes) (text : Bytes) : Option Bytes :=
  if orig = none ∧ text = [] then none else some text

theorem restored_some (content front post : Bytes) :
    restored (front ++ separator (some content)) post = some (front ++ post) := by
  rw [restored, separator_some, if_pos (List.suffix_append _ _), List.length_append]
  have hlen : runtimeManagedSeparator.length = 2 := rfl
  rw [hlen, Nat.add_sub_cancel, List.take_left]

theorem restored_none {front : Bytes} (h : ¬runtimeManagedSeparator <:+ front) (post : Bytes) :
    restored (front ++ separator none) post = userFile none (front ++ post) := by
  rw [separator_none, List.append_nil, restored, if_neg h, userFile]
  simp only [true_and]

/-! ## Reversibility -/

/-- The user's text is changed to `front` before the block and `post` behind it after the briefs
`briefs ++ [last]`, and the briefs `more` come later. -/
structure Reversible (orig : Option Bytes) (briefs : List Bytes) (last front post : Bytes)
    (more : List Bytes) : Prop where
  oneBlock : (briefs ++ [last]).foldl writeRuntimeConfigFile orig =
    some (orig.getD [] ++ separator orig ++ block last)
  located : ∀ file ∈ (briefs ++ [last]).foldl writeRuntimeConfigFile orig,
    locateMarkerBlock file = some ((orig.getD [] ++ separator orig).length, file.length)
  restores : CleanupRuntimeConfig ((briefs ++ [last]).foldl writeRuntimeConfigFile orig) = orig
  survives : CleanupRuntimeConfig (more.foldl writeRuntimeConfigFile
    (some (front ++ separator orig ++ block last ++ post))) = userFile orig (front ++ post)

theorem userFile_getD (orig : Option Bytes) : userFile orig (orig.getD [] ++ []) = orig := by
  cases orig with
  | none => rfl
  | some content => simp [userFile]

theorem restored_eq_userFile {front : Bytes}
    (h : ¬(orig = none ∧ runtimeManagedSeparator <:+ front)) (post : Bytes) :
    restored (front ++ separator orig) post = userFile orig (front ++ post) := by
  cases orig with
  | none => exact restored_none (fun hs => h ⟨rfl, hs⟩) post
  | some content =>
    rw [restored_some, userFile, if_neg]
    rintro ⟨h, -⟩
    cases h

theorem length_userFile {text : Bytes} {file : Bytes} (h : userFile orig text = some file) :
    file.length = text.length := by
  rw [userFile] at h
  split at h
  · cases h
  · rw [Option.some.inj h]

/-- Cleanup keeps an edit just when no block has left anything behind and no text of the user is
taken for the separator. -/
theorem restored_eq_userFile_iff {briefs : List Bytes} {front post : Bytes} :
    restored (front ++ separator orig) (leftovers briefs ++ post) = userFile orig (front ++ post) ↔
      (∀ brief ∈ briefs, Marker.contains runtimeMarkerEnd brief = false) ∧
        ¬(orig = none ∧ runtimeManagedSeparator <:+ front) := by
  constructor
  · intro h
    have hleft := leftovers_cases briefs
    by_cases hsep : orig = none ∧ runtimeManagedSeparator <:+ front
    · obtain ⟨rfl, hsep⟩ := hsep
      have hlen := hsep.length_le
      have h2 : runtimeManagedSeparator.length = 2 := rfl
      rw [separator_none, List.append_nil, restored, if_pos hsep] at h
      have := length_userFile h.symm
      simp only [List.length_append, List.length_take] at this
      have hlost : (leftovers briefs).length = 2 := by omega
      rcases hleft with ⟨-, hl⟩ | ⟨-, hl⟩
      · rw [hl] at hlost
        cases hlost
      · omega
    · refine ⟨?_, hsep⟩
      rcases hleft with ⟨hb, -⟩ | ⟨-, hl⟩
      · exact hb
      -- what the blocks have left behind would make the text longer
      · rw [restored_eq_userFile hsep, userFile, userFile, if_neg] at h
        · split at h
          · cases h
          · have := congrArg List.length (Option.some.inj h)
            simp only [List.length_append] at this
            omega
        · rintro ⟨-, hnil⟩
          have := congrArg List.length hnil
          simp only [List.length_append, List.length_nil] at this
          omega
  · rintro ⟨hb, hsep⟩
    rcases leftovers_cases briefs with ⟨-, hl⟩ | ⟨hno, -⟩
    · rw [hl, List.nil_append, restored_eq_userFile hsep]
    · exact absurd hb hno

theorem reversible_iff (orig : Option Bytes) (briefs : List Bytes) (last front post : Bytes)
    (more : List Bytes) (horig : Marker.contains runtimeMarkerBegin (orig.getD []) = false)
    (hfront : Marker.contains runtimeMarkerBegin front = false) :
    Reversible orig briefs last front post more ↔
      (∀ brief ∈ briefs ++ last :: more, Marker.contains runtimeMarkerEnd brief = false) ∧
        ¬(orig = none ∧ runtimeManagedSeparator <:+ front) := by
  have hpre := contains_begin_separator horig orig
  have hfile := foldl_writeRuntimeConfigFile horig briefs last
  have hedit := CleanupRuntimeConfig_foldl (contains_begin_separator hfront orig) last more post
  constructor
  · intro h
    have hbriefs := h.oneBlock
    rw [hfile] at hbriefs
    have hnil : leftovers briefs = [] := by simpa using hbriefs
    have hsurvives := h.survives
    rw [hedit, restored_eq_userFile_iff] at hsurvives
    refine ⟨?_, hsurvives.2⟩
    rw [List.forall_mem_append]
    refine ⟨?_, hsurvives.1⟩
    rcases leftovers_cases briefs with ⟨hb, -⟩ | ⟨-, hl⟩
    · exact hb
    · rw [hnil] at hl
      cases hl
  · rintro ⟨hb, hsep⟩
    obtain ⟨hbriefs, hlater⟩ := List.forall_mem_append.1 hb
    have hlast := (List.forall_mem_cons.1 hlater).1
    have hnil : leftovers briefs = [] := by
      rcases leftovers_cases briefs with ⟨-, hl⟩ | ⟨hno, -⟩
      · exact hl
      · exact absurd hbriefs hno
    rw [hnil, List.append_nil] at hfile
    refine ⟨hfile, ?_, ?_, ?_⟩
    · intro file hmem
      rw [hfile] at hmem
      obtain rfl := Option.some.inj hmem
      exact locateMarkerBlock_block hpre hlast
    · have hclean := CleanupRuntimeConfig_foldl hpre last [] []
      have hown : ¬(orig = none ∧ runtimeManagedSeparator <:+ orig.getD []) := by
        rintro ⟨rfl, h⟩
        exact absurd h (by decide)
      rw [List.append_nil, List.foldl_nil, restored_eq_userFile_iff.2
        ⟨fun brief hbrief => List.mem_singleton.1 hbrief ▸ hlast, hown⟩, userFile_getD] at hclean
      rw [hfile, hclean]
    · rw [hedit, restored_eq_userFile_iff]
      exact ⟨hlater, hsep⟩

/-- A repository's own file, injected twice and edited between the injections. -/
theorem reversible_edited :
    Reversible (some (bytes "# Notes\n")) [bytes "first\n\n"] (bytes "second") (bytes "# Mine\n\n")
      (bytes "tail") [bytes "<!-- BEGIN MULTICA-RUNTIME"] :=
  (reversible_iff _ _ _ _ _ _ (by decide +kernel) (by decide +kernel)).2
    ⟨by decide +kernel, fun h => absurd h.1 (Option.some_ne_none _)⟩

/-- A brief that quotes the end marker: cleanup leaves what comes after it in the user's file. -/
theorem not_reversible : ¬∀ (orig : Option Bytes) (briefs : List Bytes)
    (last front post : Bytes) (more : List Bytes),
    Marker.contains runtimeMarkerBegin (orig.getD []) = false →
    Marker.contains runtimeMarkerBegin front = false →
    Reversible orig briefs last front post more := by
  intro h
  have hquote := (h (some (bytes "# Notes\n")) []
    (bytes "keep <!-- END MULTICA-RUNTIME --> in the file") (bytes "# Notes\n") [] []
    (by decide +kernel) (by decide +kernel)).restores
  exact absurd hquote (by decide +kernel)

end Orynx.Daemon
