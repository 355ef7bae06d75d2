import Orynx.Daemon.CodexConfig

/-! # How a line of the configuration is read

The edits look at a line's characters, TOML at its keys.

* `isHeader_iff_isHeaderLine`: of the lines that TOML reads, the edits know the headers;
* `entry_of_tableHeader`, `entry_of_key`, `entry_of_dottedKey`: what an expression finds has the
  keys that it spells;
* `entry_of_skillsConfig`, `entry_of_workspaceWrite`: so have the headers that are compared.
-/

namespace Orynx.CodexConfig

open Lib.Toml
open Lib (Regex)
open LocalSkills (trimSpace)
open Redact (word inOrder exactly)

/-! ## White space -/

theorem toNat_of_isToken {c : Char} (h : isToken c = true) : 34 ≤ c.toNat ∧ c.toNat ≤ 122 := by
  simp only [isToken, startsKey, isBare, Bool.or_eq_true, beq_iff_eq] at h
  rcases h with ((((((((h | rfl) | rfl) | rfl) | rfl) | rfl) | rfl) | rfl) | rfl) | rfl
  · have hranges : (decide (c.val ≥ 'A'.val ∧ c.val ≤ 'Z'.val) ||
        (decide (c.val ≥ 'a'.val) && decide (c.val ≤ 'z'.val)) ||
        (decide (c.val ≥ '0'.val) && decide (c.val ≤ '9'.val))) = true := h
    simp only [Bool.or_eq_true, Bool.and_eq_true, decide_eq_true_eq, ge_iff_le,
      UInt32.le_iff_toNat_le] at hranges
    have hval : c.toNat = c.val.toNat := rfl
    have hZ : 'Z'.val.toNat = 90 := rfl
    have hz : 'z'.val.toNat = 122 := rfl
    have hnine : '9'.val.toNat = 57 := rfl
    have hA : 'A'.val.toNat = 65 := rfl
    have ha : 'a'.val.toNat = 97 := rfl
    have hzero : '0'.val.toNat = 48 := rfl
    omega
  all_goals decide

theorem space_isSpace : Space isSpace where
  blank c hc := by
    simp only [Lib.Toml.isBlank, Bool.or_eq_true, beq_iff_eq] at hc
    rcases hc with rfl | rfl <;> rfl
  token c hc := by
    rw [Bool.eq_false_iff]
    intro ht
    have := toNat_of_isToken ht
    have := isSpace_ascii hc
    omega

theorem isSpace_of_isBlank {c : Char} (hc : isBlank c = true) : isSpace c = true := by
  simp only [isBlank, Bool.or_eq_true, beq_iff_eq] at hc
  rcases hc with (((rfl | rfl) | rfl) | rfl) | rfl <;> decide

theorem space_isBlank : Space isBlank where
  blank c hc := by
    simp only [Lib.Toml.isBlank, Bool.or_eq_true, beq_iff_eq] at hc
    rcases hc with rfl | rfl <;> rfl
  token c hc := space_isSpace.token c (isSpace_of_isBlank hc)

/-! ## Expressions -/

theorem matches_exactly {cs : List Char} {prev : Option Char} {w rest : List Char}
    {groups : List (List Char)} (h : (exactly cs).Matches prev w rest groups) : w = cs := by
  induction cs generalizing prev w groups with
  | nil => exact h.1
  | cons c cs ih =>
    rcases h with ⟨u, v, cu, cv, rfl, -, ⟨d, rfl, hd, -⟩, hv⟩
    rw [ih hv, beq_iff_eq.1 hd]
    rfl

theorem matches_spaces {prev : Option Char} {w rest : List Char} {groups : List (List Char)}
    (h : spaces.Matches prev w rest groups) : ∀ c ∈ w, isBlank c = true := h.2.2.1

theorem exists_of_matchesStart {r : Regex} {s : Line} (h : matchesStart r s = true) :
    ∃ w rest groups, s = w ++ rest ∧ r.Matches none w rest groups := by
  rw [matchesStart, Bool.not_eq_true', List.isEmpty_eq_false_iff] at h
  rcases List.exists_mem_of_ne_nil _ h with ⟨⟨w, groups⟩, hw⟩
  rcases Regex.mem_results.1 hw with ⟨rest, hs, hm⟩
  exact ⟨w, rest, groups, hs, hm⟩

theorem exists_of_matchesWhole {r : Regex} {s : Line} (h : matchesWhole r s = true) :
    ∃ groups, r.Matches none s [] groups := by
  rw [matchesWhole, List.any_eq_true] at h
  rcases h with ⟨⟨w, groups⟩, hw, heq⟩
  obtain rfl : w = s := by simpa using heq
  rcases Regex.mem_results.1 hw with ⟨rest, hs, hm⟩
  obtain rfl : rest = [] := by simpa using hs
  exact ⟨groups, hm⟩

/-- What the expression of a header finds. -/
theorem spells_of_tableHeader {name : String} {l : Line}
    (h : matchesWhole (tableHeaderRe name) l = true) :
    ∃ a b c r, l = a ++ '[' :: (b ++ (name.toList ++ (c ++ ']' :: r))) ∧
      (∀ d ∈ a, isBlank d = true) ∧ (∀ d ∈ b, isBlank d = true) ∧ ∀ d ∈ c, isBlank d = true := by
  rcases exists_of_matchesWhole h with ⟨groups, hm⟩
  rcases hm with ⟨a, v, _, _, rfl, -, ha, o, v, _, _, rfl, -, ho, b, v, _, _, rfl, -, hb,
    k, v, _, _, rfl, -, hk, c, v, _, _, rfl, -, hc, x, r, _, _, rfl, -, hx, -⟩
  obtain rfl := matches_exactly ho
  obtain rfl := matches_exactly hk
  obtain rfl := matches_exactly hx
  exact ⟨a, b, c, r, by simp, matches_spaces ha, matches_spaces hb, matches_spaces hc⟩

/-- What the expression of a key finds. -/
theorem spells_of_key {name : String} {s : Line} (h : matchesStart (keyRe name) s = true) :
    ∃ r, Spells isBlank [name.toList] s ('=' :: r) := by
  rcases exists_of_matchesStart h with ⟨w, r, _, rfl, hm⟩
  rcases hm with ⟨a, v, _, _, rfl, -, ha, k, v, _, _, rfl, -, hk, b, x, _, _, rfl, -, hb, hx⟩
  obtain rfl := matches_exactly hk
  obtain rfl := matches_exactly hx
  exact ⟨r, a, b, by simp, matches_spaces ha, matches_spaces hb⟩

theorem spells_of_dottedKey {table name : String} {s : Line}
    (h : matchesStart (dottedKeyRe table name) s = true) :
    ∃ r, Spells isBlank [table.toList, name.toList] s ('=' :: r) := by
  rcases exists_of_matchesStart h with ⟨w, r, _, rfl, hm⟩
  rcases hm with ⟨a, v, _, _, rfl, -, ha, k, v, _, _, rfl, -, hk, b, v, _, _, rfl, -, hb,
    x, v, _, _, rfl, -, hx, a', v, _, _, rfl, -, ha', k', v, _, _, rfl, -, hk',
    b', x', _, _, rfl, -, hb', hx'⟩
  obtain rfl := matches_exactly hk
  obtain rfl := matches_exactly hx
  obtain rfl := matches_exactly hk'
  obtain rfl := matches_exactly hx'
  exact ⟨r, a, b, a' ++ (name.toList ++ (b' ++ '=' :: r)), by simp, matches_spaces ha,
    matches_spaces hb, a', b', rfl, matches_spaces ha', matches_spaces hb'⟩

/-! ## Trimmed lines -/

theorem rdropWhile_cons {P : Char → Bool} {c : Char} {s : List Char} (hc : P c = false) :
    (c :: s).rdropWhile P = c :: s.rdropWhile P := by
  induction s using List.reverseRecOn with
  | nil => simp [List.rdropWhile_singleton, hc]
  | append_singleton s d ih =>
    rw [← List.cons_append]
    by_cases hd : P d = true
    · rw [List.rdropWhile_concat_pos _ _ _ hd, List.rdropWhile_concat_pos _ _ _ hd, ih]
    · rw [List.rdropWhile_concat_neg _ _ _ hd, List.rdropWhile_concat_neg _ _ _ hd]
      rfl

theorem isHeaderLine_of_tableHeader {name : String} {l : Line}
    (h : matchesWhole (tableHeaderRe name) l = true) : isHeaderLine l = true := by
  rcases spells_of_tableHeader h with ⟨a, b, c, r, rfl, ha, -, -⟩
  rw [isHeaderLine, trimSpace,
    List.dropWhile_append_of_pos fun d hd => isSpace_of_isBlank (ha d hd),
    List.dropWhile_cons_of_neg (by decide), rdropWhile_cons (by decide)]
  rfl

variable {V : Type} {read : List Char → Option V} {l : Line} {e : Entry V}

theorem exists_skip (h : readLine read l = some e) :
    ∃ t, (∀ c ∈ t, isSpace c = true) ∧ skip (dropReturn l) = trimSpace l ++ t :=
  exists_skip_eq space_isSpace rfl h

/-- The edits and TOML agree on what a header is. -/
theorem isHeader_iff_isHeaderLine (h : readLine read l = some e) :
    e.isHeader = true ↔ isHeaderLine l = true := by
  rw [isHeader_iff h, isHeaderLine, beq_iff_eq]
  rcases exists_skip h with ⟨t, ht, hskip⟩
  cases htrim : trimSpace l with
  | nil =>
    rw [htrim, List.nil_append] at hskip
    -- a white space that TOML does not know is not read
    cases t with
    | nil => rw [hskip]
    | cons c t =>
      have htoken := isToken_of_readLine h hskip
      rw [space_isSpace.token c (ht c List.mem_cons_self)] at htoken
      cases htoken
  | cons c s => rw [hskip, htrim, List.cons_append, List.head?_cons, List.head?_cons]

theorem spells_append {P : Char → Bool} {ks : List Key} {s r t : List Char}
    (h : Spells P ks s r) : Spells P ks (s ++ t) (r ++ t) := by
  induction ks generalizing s with
  | nil => cases h
  | cons k ks ih =>
    cases ks with
    | nil =>
      rcases h with ⟨a, b, rfl, ha, hb⟩
      exact ⟨a, b, by simp, ha, hb⟩
    | cons k' ks =>
      rcases h with ⟨a, b, u, rfl, ha, hb, hrest⟩
      exact ⟨a, b, u ++ t, by simp, ha, hb, ih hrest⟩

/-- What is spelled starts with white space or with a key. -/
theorem head_of_spells {P : Char → Bool} {ks : List Key} (hks : ∀ k ∈ ks, Bare k)
    {s r : List Char} (h : Spells P ks s r) :
    ∃ c t, s = c :: t ∧ (P c = true ∨ isBare c = true) := by
  have hfirst : ∃ k ∈ ks, ∃ a u, s = a ++ (k ++ u) ∧ ∀ c ∈ a, P c = true := by
    cases ks with
    | nil => cases h
    | cons k ks =>
      cases ks with
      | nil =>
        rcases h with ⟨a, b, hs, ha, -⟩
        exact ⟨k, List.mem_cons_self, a, _, hs, ha⟩
      | cons k' ks =>
        rcases h with ⟨a, b, u, hs, ha, -⟩
        exact ⟨k, List.mem_cons_self, a, _, hs, ha⟩
  rcases hfirst with ⟨k, hk, a, u, rfl, ha⟩
  cases a with
  | nil =>
    rcases List.exists_cons_of_ne_nil (hks k hk).1 with ⟨c, k, rfl⟩
    exact ⟨c, k ++ u, rfl, .inr ((hks _ hk).2 c List.mem_cons_self)⟩
  | cons c a => exact ⟨c, a ++ (k ++ u), rfl, .inl (ha c List.mem_cons_self)⟩

/-- No key is found in a comment. -/
theorem not_spells_comment {ks : List Key} (hks : ∀ k ∈ ks, Bare k) {s r : List Char} :
    ¬Spells isBlank ks ('#' :: s) r := by
  intro h
  rcases head_of_spells hks h with ⟨c, t, heq, hkind⟩
  obtain ⟨rfl, -⟩ := List.cons.inj heq
  rcases hkind with hkind | hkind <;> revert hkind <;> decide

theorem not_matchesStart_key {name : String} (hname : Bare name.toList) (s : Line) :
    matchesStart (keyRe name) ('#' :: s) = false := by
  rw [Bool.eq_false_iff]
  intro h
  rcases spells_of_key h with ⟨r, hr⟩
  exact not_spells_comment (by simpa using hname) hr

theorem not_matchesStart_dottedKey {table name : String} (htable : Bare table.toList)
    (hname : Bare name.toList) (s : Line) :
    matchesStart (dottedKeyRe table name) ('#' :: s) = false := by
  rw [Bool.eq_false_iff]
  intro h
  rcases spells_of_dottedKey h with ⟨r, hr⟩
  exact not_spells_comment (by simpa using ⟨htable, hname⟩) hr

theorem trimSpace_cons {c : Char} {s : Line} (hc : isSpace c = false) :
    trimSpace (c :: s) = c :: s.rdropWhile isSpace := by
  rw [trimSpace, List.dropWhile_cons_of_neg (by simp [hc]), rdropWhile_cons hc]

theorem dropReturn_append {s t : List Char} (ht : t ≠ []) :
    dropReturn (s ++ t) = s ++ dropReturn t := by
  rcases List.eq_nil_or_concat t with rfl | ⟨t, c, rfl⟩
  · exact absurd rfl ht
  · rw [List.concat_eq_append, ← List.append_assoc, dropReturn, dropReturn]
    by_cases hc : c = '\r'
    · simp [hc]
    · simp [hc]

theorem entry_of_tableHeader {name : String} (hname : Bare name.toList)
    (hl : matchesWhole (tableHeaderRe name) l = true) (h : readLine read l = some e) :
    e = .table [name.toList] := by
  rcases spells_of_tableHeader hl with ⟨a, b, c, r, rfl, ha, hb, hc⟩
  -- the carriage return, if there is one, stands behind the bracket
  have hreturn : ∃ r', dropReturn (a ++ '[' :: (b ++ (name.toList ++ (c ++ ']' :: r)))) =
      a ++ '[' :: (b ++ (name.toList ++ (c ++ ']' :: r'))) := by
    have hcons : dropReturn (']' :: r) = ']' :: dropReturn r ∨ dropReturn (']' :: r) = [']'] := by
      cases r with
      | nil => exact .inr rfl
      | cons d r => exact .inl (dropReturn_append (s := [']']) (List.cons_ne_nil d r))
    have hmove : a ++ '[' :: (b ++ (name.toList ++ (c ++ ']' :: r))) =
        (a ++ '[' :: (b ++ (name.toList ++ c))) ++ ']' :: r := by simp
    rw [hmove, dropReturn_append (List.cons_ne_nil _ _)]
    rcases hcons with hcons | hcons
    · exact ⟨dropReturn r, by rw [hcons]; simp⟩
    · exact ⟨[], by rw [hcons]; simp⟩
  rcases hreturn with ⟨r', hreturn⟩
  have hskip := dropWhile_skip space_isBlank h
  rw [hreturn, List.dropWhile_append_of_pos ha, List.dropWhile_cons_of_neg (by decide),
    ← hreturn] at hskip
  refine readLine_table space_isBlank ?_ h hskip.symm ⟨b, c, rfl, hb, hc⟩ ?_
  · intro k hk
    rw [List.mem_singleton.1 hk]
    exact hname
  · -- no second bracket follows
    have hspells : Spells isBlank [name.toList] (b ++ (name.toList ++ (c ++ ']' :: r')))
        (']' :: r') := ⟨b, c, rfl, hb, hc⟩
    rcases head_of_spells (by simpa using hname) hspells with ⟨d, t, hd, hkind⟩
    rw [hd, List.head?_cons]
    rintro ⟨rfl⟩
    rcases hkind with hkind | hkind <;> revert hkind <;> decide

/-- A key that is spelled at the start of the trimmed line. -/
theorem entry_of_spells {ks : List Key} (hks : ∀ k ∈ ks, Bare k) {r : List Char}
    (hl : Spells isBlank ks (trimSpace l) ('=' :: r)) (h : readLine read l = some e) :
    ∃ v, e = .pair ks v := by
  rcases exists_skip h with ⟨t, -, hskip⟩
  have hspells := spells_append (t := t) hl
  rw [← hskip] at hspells
  rcases head_of_spells hks hspells with ⟨c, s, hs, hkind⟩
  have hc : isBare c = true := by
    refine hkind.resolve_left fun hblank => ?_
    have htoken := isToken_of_readLine h hs
    rw [space_isBlank.token c hblank] at htoken
    cases htoken
  rw [hs] at hspells
  rcases readLine_pair space_isBlank hks h hs (by simp [startsKey, hc]) hspells with ⟨v, -, rfl⟩
  exact ⟨v, rfl⟩

theorem entry_of_key {name : String} (hname : Bare name.toList)
    (hl : matchesStart (keyRe name) (trimSpace l) = true) (h : readLine read l = some e) :
    ∃ v, e = .pair [name.toList] v := by
  rcases spells_of_key hl with ⟨r, hr⟩
  exact entry_of_spells (by simpa using hname) hr h

theorem entry_of_dottedKey {table name : String} (htable : Bare table.toList)
    (hname : Bare name.toList) (hl : matchesStart (dottedKeyRe table name) (trimSpace l) = true)
    (h : readLine read l = some e) : ∃ v, e = .pair [table.toList, name.toList] v := by
  rcases spells_of_dottedKey hl with ⟨r, hr⟩
  exact entry_of_spells (by simpa using ⟨htable, hname⟩) hr h

instance (k : Key) : Decidable (Bare k) :=
  have : Decidable (∀ c ∈ k, isBare c = true) := List.decidableBAll _ _
  inferInstanceAs (Decidable (_ ∧ _))

theorem entry_of_skillsConfig (hl : trimSpace l = skillsConfigHeader)
    (h : readLine read l = some e) : e = .element ["skills".toList, "config".toList] := by
  rcases exists_skip h with ⟨t, -, hskip⟩
  have hparts : trimSpace l ++ t =
      '[' :: '[' :: ("skills".toList ++ '.' :: ("config".toList ++ ']' :: ']' :: t)) := by
    rw [hl]
    rfl
  refine readLine_element space_isBlank ?_ h (hskip.trans hparts)
    ⟨[], [], _, rfl, by simp, by simp, [], [], rfl, by simp, by simp⟩
  simp only [List.forall_mem_cons, List.not_mem_nil, false_imp_iff, implies_true, and_true]
  exact ⟨by decide, by decide⟩

/-- A header that is compared with the trimmed line. -/
theorem entry_of_trimmed {name : String} (hname : Bare name.toList)
    (hl : trimSpace l = '[' :: (name.toList ++ [']'])) (h : readLine read l = some e) :
    e = .table [name.toList] := by
  rcases exists_skip h with ⟨t, -, hskip⟩
  have hparts : trimSpace l ++ t = '[' :: (name.toList ++ ']' :: t) := by
    rw [hl]
    simp
  have hsingle : (name.toList ++ ']' :: t).head? ≠ some '[' := by
    rcases List.exists_cons_of_ne_nil hname.1 with ⟨c, k, hk⟩
    have hc : isBare c = true := hname.2 c (by rw [hk]; exact List.mem_cons_self)
    rw [hk, List.cons_append, List.head?_cons]
    rintro ⟨rfl⟩
    cases hc
  have hspells : Spells isBlank [name.toList] (name.toList ++ ']' :: t) (']' :: t) :=
    ⟨[], [], rfl, by simp, by simp⟩
  refine readLine_table space_isBlank ?_ h (hskip.trans hparts) hspells hsingle
  intro k hk
  rw [List.mem_singleton.1 hk]
  exact hname

theorem entry_of_workspaceWrite (hl : trimSpace l = workspaceWriteHeader)
    (h : readLine read l = some e) : e = .table ["sandbox_workspace_write".toList] :=
  entry_of_trimmed (by decide) hl h

/-- A line that starts with the key has a key that starts with it. -/
theorem entry_of_sandboxMode (hl : sandboxModeKey <+: trimSpace l)
    (h : readLine read l = some e) : ∃ k p v, e = .pair (k :: p) v ∧ sandboxModeKey <+: k := by
  rcases exists_skip h with ⟨t, -, hskip⟩
  rcases hl with ⟨u, hu⟩
  rw [← hu, List.append_assoc] at hskip
  have hfirst : sandboxModeKey ++ (u ++ t) = 's' :: ("andbox_mode".toList ++ (u ++ t)) := rfl
  rw [hfirst] at hskip
  simp only [readLine, hskip] at h
  rw [if_neg (by decide), if_neg (by decide)] at h
  rcases readPair_eq h with ⟨p, v, hp, -, -, rfl⟩
  rw [← hfirst] at hp
  have hskip' : skip (sandboxModeKey ++ (u ++ t)) = sandboxModeKey ++ (u ++ t) := by
    rw [hfirst]
    exact List.dropWhile_cons_of_neg (by decide)
  have hkey : ∀ k, readKey (sandboxModeKey ++ (u ++ t)) = some k → sandboxModeKey <+: k.1 := by
    intro k hk
    rw [hfirst, readKey, if_neg (by decide), if_neg (by decide), if_pos (by decide),
      ← hfirst] at hk
    obtain rfl := Option.some.inj hk
    have hbare : Bare sandboxModeKey := by decide
    exact ⟨_, (List.takeWhile_append_of_pos hbare.2).symm⟩
  cases hn : (sandboxModeKey ++ (u ++ t)).length with
  | zero => rw [hn] at hp; cases hp
  | succ n =>
    rw [hn] at hp
    rcases Option.bind_eq_some_iff.1 hp with ⟨k, hk, hp⟩
    rw [hskip'] at hk
    split at hp
    · rcases Option.map_eq_some_iff.1 hp with ⟨q, -, rfl⟩
      exact ⟨k.1, q.1, v, rfl, hkey k hk⟩
    · obtain rfl := Option.some.inj hp
      exact ⟨k.1, [], v, rfl, hkey k hk⟩

end Orynx.CodexConfig
