import Narration.Markup.LineForm
import Narration.Proofs.Text.Runs

/-!
# How the forms of a line begin

Each form is recognised by its first character: a line that begins otherwise does not have it. A list item begins with a
marker.

* `IsMarker` : one of three marks, or a number of one to nine digits with a point or a parenthesis;
* `marker?_append` : when a marker begins a list item;
* `exists_isMarker` : whatever begins a list item begins with a marker;
* `IsMarker.not_isBlank` : a marker holds no blank.
-/

namespace Narration.Markup.LineForm

variable {t : Text} {c : Char}

theorem head?_of_after? {c : Char} {p rest : Text} (h : Text.after? (c :: p) t = some rest) :
    t.head? = some c := by
  cases t with
  | nil => cases h
  | cons d t =>
    unfold Text.after? at h
    split at h
    · next hcd => rw [hcd, List.head?_cons]
    · cases h

theorem head?_of_fence? {r : Char × Nat} (h : fence? t = some r) :
    t.head? = some '\x60' ∨ t.head? = some '~' := by
  obtain ⟨c, hc, h⟩ := Option.bind_eq_some_iff.1 h
  rw [hc, Option.some_inj, Option.some_inj]
  dsimp only at h
  split at h
  · next hmark => exact hmark.1
  · cases h

theorem fence?_eq_none (h : t.head? ≠ some '\x60') (h' : t.head? ≠ some '~') : fence? t = none := by
  cases hf : fence? t with
  | none => rfl
  | some r =>
    rcases head?_of_fence? hf with hhead | hhead
    · exact absurd hhead h
    · exact absurd hhead h'

theorem head?_of_isComment (h : isComment t) : t.head? = some '<' := by
  obtain ⟨rest, hrest⟩ := Option.isSome_iff_exists.1 h
  exact head?_of_after? hrest

theorem head?_of_opensTag (h : opensTag t) : t.head? = some '<' := by
  unfold opensTag at h
  split at h <;> first | rfl | cases h

/-- A line that may start with a tag is no comment. -/
theorem isComment_of_opensTag (h : opensTag t) : isComment t = false := by
  unfold opensTag at h
  split at h
  · rfl
  · next c u _ =>
    rw [isComment, Text.beginsWith, Text.after?, if_pos rfl, Text.after?, if_neg, Option.isSome_none]
    rintro rfl
    cases h
  · cases h

theorem head?_of_heading? {r : Nat × Nat × Nat} (h : heading? t = some r) : t.head? = some '#' := by
  unfold heading? at h
  dsimp only at h
  split at h
  · cases h
  · next hdepth =>
    cases t with
    | nil => simp at hdepth
    | cons c t =>
      by_cases hc : c = '#'
      · rw [hc, List.head?_cons]
      · simp [hc] at hdepth

/-- A heading of a depth from one to six, with a title that begins and ends with other characters than number signs
and blanks. -/
theorem heading?_eq_some {depth : Nat} (h1 : 1 ≤ depth) (h6 : depth ≤ 6) (hne : t ≠ [])
    (hhead : ∀ c ∈ t.head?, Text.isSpaceOrTab c = false) (hlast : ∀ c ∈ t.getLast?, c ≠ '#') :
    heading? (List.replicate depth '#' ++ ' ' :: t) = some (depth, depth + 1, t.length) := by
  have hmarks : ((List.replicate depth '#' ++ ' ' :: t).takeWhile (· = '#')).length = depth := by
    rw [Text.takeWhile_run (fun a ha => by simp [List.eq_of_mem_replicate ha]) (by decide), List.length_replicate]
  have hrest : (List.replicate depth '#' ++ ' ' :: t).drop depth = ' ' :: t := List.drop_left' (List.length_replicate)
  have hgap : ((' ' :: t).takeWhile Text.isSpaceOrTab).length = 1 := by
    obtain ⟨c, u, rfl⟩ := List.exists_cons_of_ne_nil hne
    rw [List.takeWhile_cons_of_pos (by decide), List.takeWhile_cons_of_neg (by simp [hhead c rfl])]
    rfl
  have hclosing : withoutClosing t = t := by
    have hbare : Text.dropEndWhile (· = '#') (t ++ []) = t :=
      Text.dropEndWhile_run nofun fun c hc => by simpa using hlast c hc
    rw [List.append_nil] at hbare
    rw [withoutClosing, hbare]
    simp only [Nat.lt_irrefl, decide_false, Bool.false_and, Bool.false_eq_true, if_false]
  have hdepth : ¬(depth = 0 ∨ 6 < depth) := by omega
  rw [heading?]
  simp only [hmarks, hrest, hgap, if_neg hdepth, List.isEmpty_cons, Bool.false_eq_true, if_false, Nat.one_ne_zero,
    List.drop_one, List.tail_cons, hclosing]

theorem head?_of_isModules (h : isModules t) : t.head? = some 'i' ∨ t.head? = some 'e' := by
  unfold isModules at h
  split at h
  · next himport => exact .inl (head?_of_after? himport)
  · next hexport => exact .inr (head?_of_after? hexport)
  · cases h

theorem head?_of_isDefinition (h : isDefinition t) : t.head? = some '[' := by
  unfold isDefinition at h
  split at h
  · rfl
  · cases h

/-- A thematic break has three marks that are no digits. -/
theorem of_isRule (h : isRule t) :
    3 ≤ t.length ∧ (t.head? = some '*' ∨ t.head? = some '-' ∨ t.head? = some '_') := by
  unfold isRule at h
  split at h
  · next c hc =>
    simp only [Bool.and_eq_true, Bool.or_eq_true, beq_iff_eq, decide_eq_true_eq] at h
    obtain ⟨⟨hmark, hcount⟩, -⟩ := h
    refine ⟨Nat.le_trans hcount List.count_le_length, ?_⟩
    rw [hc]
    rcases hmark with (rfl | rfl) | rfl <;> simp
  · cases h

theorem isTableRuleCell_cons (hspace : Text.isSpaceOrTab c = false) (hcolon : c ≠ ':') (hhyphen : c ≠ '-') (t : Text) :
    isTableRuleCell (c :: t) = false := by
  have hdrop : (c :: t).dropWhile Text.isSpaceOrTab = c :: t := List.dropWhile_cons_of_neg (by simp [hspace])
  have hall (u : Text) : (!(c :: u).isEmpty && (c :: u).all (· = '-')) = false := by simp [hhyphen]
  have hhead (u : Text) : (if (c :: u).head? = some ':' then (c :: u).tail else c :: u) = c :: u :=
    if_neg (by simpa using hcolon)
  simp only [isTableRuleCell, hdrop, Text.dropEndWhile_cons hspace, hhead]
  cases Text.dropEndWhile Text.isSpaceOrTab t with
  | nil =>
    rw [List.getLast?_singleton, if_neg (by simpa using hcolon)]
    exact hall []
  | cons d u =>
    split
    · exact hall _
    · exact hall _

/-- A line that begins with other marks than those of a table is no rule. -/
theorem isTableRule_cons (hspace : Text.isSpaceOrTab c = false) (hbar : c ≠ '|') (hcolon : c ≠ ':') (hhyphen : c ≠ '-') (t : Text) :
    isTableRule (c :: t) = false := by
  obtain ⟨piece, rest, hsplit⟩ := Text.exists_splitOn_cons hbar t
  have hcell := isTableRuleCell_cons hspace hcolon hhyphen piece
  rw [isTableRule, hsplit, List.head?_cons]
  cases rest with
  | nil => simp [hcell]
  | cons k ks =>
    simp only [Option.any_some, List.isEmpty_cons, Bool.and_false, Bool.false_eq_true, if_false]
    split <;> simp [hcell]

end Narration.Markup.LineForm

/-! ## List markers -/

namespace Narration.Markup.LineForm
open Text

/-- A list marker without what follows it. -/
inductive IsMarker : Text → Prop
  | mark (c : Char) (h : c = '*' ∨ c = '+' ∨ c = '-') : IsMarker [c]
  | number (digits : Text) (c : Char) (one_le : 1 ≤ digits.length) (le_nine : digits.length ≤ 9)
      (isDigit : ∀ d ∈ digits, Text.isDigit d) (h : c = '.' ∨ c = ')') : IsMarker (digits ++ [c])

/-- The spaces and tabs at the front. -/
abbrev gap (t : Text) : Nat := (t.takeWhile isSpaceOrTab).length

/-! ## Digits and blanks -/

theorem zeros_not_isBlank : ∀ z ∈ zeros, ∀ k < 10, ¬(
    (9 ≤ z + k ∧ z + k ≤ 13) ∨ (0x1C ≤ z + k ∧ z + k ≤ 0x20) ∨ z + k = 0x85 ∨ z + k = 0xA0 ∨
    z + k = 0x1680 ∨ (0x2000 ≤ z + k ∧ z + k ≤ 0x200A) ∨ z + k = 0x2028 ∨ z + k = 0x2029 ∨
    z + k = 0x202F ∨ z + k = 0x205F ∨ z + k = 0x3000) := by decide +kernel

theorem exists_zero_of_isDigit {c : Char} (h : isDigit c) :
    ∃ z ∈ zeros, ∃ k < 10, c.toNat = z + k := by
  unfold isDigit digitValue? at h
  split at h
  · split at h
    · rename_i hc
      have h1 : 48 ≤ c.toNat := UInt32.le_iff_toNat_le.1 hc.1
      have h2 : c.toNat ≤ 57 := UInt32.le_iff_toNat_le.1 hc.2
      exact ⟨0x30, by decide, c.toNat - 0x30, by omega, by omega⟩
    · simp at h
  · rw [Option.isSome_map, List.find?_isSome] at h
    obtain ⟨z, hz, hc⟩ := h
    simp only [Bool.and_eq_true, decide_eq_true_eq] at hc
    exact ⟨z, hz, c.toNat - z, by omega, by omega⟩

theorem not_isBlank_of_isDigit {c : Char} (h : isDigit c) : isBlank c = false := by
  obtain ⟨z, hz, k, hk, hc⟩ := exists_zero_of_isDigit h
  have := zeros_not_isBlank z hz k hk
  rw [← hc] at this
  simp only [isBlank, Bool.or_eq_false_iff, Bool.and_eq_false_iff, decide_eq_false_iff_not, beq_eq_false_iff_ne]
  omega

theorem IsMarker.not_isBlank {m : Text} (h : IsMarker m) : ∀ c ∈ m, isBlank c = false := by
  cases h with
  | mark c h => rcases h with rfl | rfl | rfl <;> decide
  | number digits c _ _ hd h =>
    intro d hm
    rcases List.mem_append.1 hm with hm | hm
    · exact not_isBlank_of_isDigit (hd d hm)
    · rw [List.mem_singleton.1 hm]
      rcases h with rfl | rfl <;> decide

theorem isDigit_ne {c d : Char} (hc : isDigit c) (hd : isDigit d = false) : c ≠ d := by
  rintro rfl
  simp [hc] at hd

theorem IsMarker.exists_cons {m : Text} (h : IsMarker m) :
    ∃ c t, m = c :: t ∧ (isDigit c ∨ c = '*' ∨ c = '+' ∨ c = '-') := by
  cases h with
  | mark c h => exact ⟨c, [], rfl, .inr h⟩
  | number digits c hone _ hd _ =>
    obtain ⟨d, ds, rfl⟩ := List.exists_cons_of_length_pos hone
    exact ⟨d, ds ++ [c], rfl, .inl (hd d (by simp))⟩

/-- A marker begins with a digit or with a mark of a bullet list. -/
theorem IsMarker.head?_ne {m : Text} {c : Char} (h : IsMarker m)
    (hc : isDigit c = false ∧ c ≠ '*' ∧ c ≠ '+' ∧ c ≠ '-') : m.head? ≠ some c := by
  obtain ⟨d, t, rfl, hd⟩ := h.exists_cons
  rw [List.head?_cons, ne_eq, Option.some_inj]
  rintro rfl
  simp [hc] at hd

theorem IsMarker.notMem {m : Text} {x : Char} (h : IsMarker m)
    (hx : isDigit x = false ∧ x ∉ ['*', '+', '-', '.', ')']) : x ∉ m := by
  obtain ⟨hdigit, hx⟩ := hx
  simp only [List.mem_cons, List.not_mem_nil, or_false, not_or] at hx
  cases h with
  | mark c h =>
    rw [List.mem_singleton]
    rintro rfl
    simp [hx] at h
  | number digits c _ _ hd h =>
    rw [List.mem_append, List.mem_singleton, not_or]
    refine ⟨fun hm => by simp [hd x hm] at hdigit, ?_⟩
    rintro rfl
    simp [hx] at h

theorem IsMarker.isRule_eq_false {m : Text} (h : IsMarker m) : isRule m = false := by
  by_contra hr
  obtain ⟨hlength, hhead⟩ := of_isRule (Bool.not_eq_false _ ▸ hr)
  cases h with
  | mark c h => simp at hlength
  | number digits c hone _ hd _ =>
    obtain ⟨d, ds, rfl⟩ := List.exists_cons_of_length_pos hone
    have hdigit := hd d (by simp)
    simp only [List.cons_append, List.head?_cons, Option.some_inj] at hhead
    rcases hhead with h | h | h <;> exact isDigit_ne hdigit (by decide) h

/-! ## Markers at the front of a text -/

/-- A marker begins an item when nothing follows it, or a space or tab. -/
theorem marker?_append {m : Text} (h : IsMarker m) (rest : Text) :
    marker? (m ++ rest) =
      if gap rest = 0 ∧ ¬rest.isEmpty then none else some (m, m.length + gap rest) := by
  cases h with
  | mark c h =>
    simp only [marker?, List.cons_append, List.nil_append, List.head?_cons, Option.bind_eq_bind,
      Option.bind_some, if_pos h, List.drop_succ_cons, List.drop_zero, List.take_succ_cons, List.take_zero]
    rfl
  | number digits c hone hnine hd h =>
    obtain ⟨d, ds, rfl⟩ := List.exists_cons_of_length_pos hone
    have hdigit : isDigit d := hd d (by simp)
    have hmark : ¬(d = '*' ∨ d = '+' ∨ d = '-') := by
      simp [isDigit_ne hdigit (d := '*') (by decide), isDigit_ne hdigit (d := '+') (by decide),
        isDigit_ne hdigit (d := '-') (by decide)]
    have hrun : (d :: (ds ++ c :: rest)).takeWhile isDigit = d :: ds :=
      takeWhile_run (u := d :: ds) hd (by rcases h with rfl | rfl <;> decide)
    have hmark' : some c = some '.' ∨ some c = some ')' := by simpa using h
    have hdrop : (d :: (ds ++ c :: rest)).drop (d :: ds).length = c :: rest := @List.drop_left _ (d :: ds) _
    have hdrop' : (d :: (ds ++ c :: rest)).drop ((d :: ds).length + 1) = rest := by
      rw [← List.drop_drop, hdrop, List.drop_one, List.tail_cons]
    have htake : (d :: (ds ++ c :: rest)).take ((d :: ds).length + 1) = d :: ds ++ [c] := by
      simp [List.take_append, List.take_of_length_le (Nat.le_succ ds.length)]
    rw [List.append_assoc, List.cons_append, List.singleton_append, marker?]
    simp only [List.head?_cons, Option.bind_eq_bind, Option.bind_some, if_neg hmark, hrun, hdrop,
      if_pos (And.intro hone (And.intro hnine hmark')), hdrop', htake]
    simp [gap]

theorem IsMarker.marker?_isSome {m : Text} (h : IsMarker m) : (marker? m).isSome := by
  have hm := marker?_append h []
  rw [List.append_nil] at hm
  simp [hm]

/-- Whatever begins an item begins with a marker. -/
theorem exists_isMarker {t : Text} (h : (marker? t).isSome) : ∃ m rest, t = m ++ rest ∧ IsMarker m := by
  cases t with
  | nil => simp [marker?] at h
  | cons c t =>
    by_cases hc : c = '*' ∨ c = '+' ∨ c = '-'
    · exact ⟨[c], t, rfl, .mark c hc⟩
    · obtain ⟨digits, rest, ht, hd, hrest⟩ := exists_run isDigit (c :: t)
      have hrun : (c :: t).takeWhile isDigit = digits := by
        rcases hrest with rfl | ⟨d, rest, rfl, hd'⟩
        · rw [ht, List.append_nil, takeWhile_all hd]
        · rw [ht, takeWhile_run hd hd']
      have hnum : 1 ≤ digits.length ∧ digits.length ≤ 9 ∧
          (rest.head? = some '.' ∨ rest.head? = some ')') := by
        by_contra hnot
        have hdrop : (c :: t).drop digits.length = rest := by rw [ht, List.drop_left]
        simp only [marker?, List.head?_cons, Option.bind_eq_bind, Option.bind_some, if_neg hc, hrun,
          hdrop, if_neg hnot, Option.bind_none, Option.isSome_none] at h
        exact absurd h (by decide)
      obtain ⟨hone, hnine, hmark⟩ := hnum
      cases rest with
      | nil => simp at hmark
      | cons d rest =>
        refine ⟨digits ++ [d], rest, by rw [ht, List.append_assoc, List.singleton_append], ?_⟩
        exact .number digits d hone hnine hd (by simpa using hmark)

end Narration.Markup.LineForm
