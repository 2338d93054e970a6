import Mathlib.Data.List.TakeDrop
import Mathlib.Data.List.TakeWhile
import Narration.Text.Blank
import Narration.Text.Word

/-!
# Runs at the front of a text

* `takeWhile_run`, `dropWhile_run` : a run of one class ends at the first character outside it;
* `exists_run` : every text is a run and what is left, which begins outside the class;
* `firstLine_of_mem`, `takeWhile_lastLine` : the first line, with and without a line feed after it;
* `EndsLine`, `EndsLine.firstLine_append` : what decides on the first line of a text;
* `splitOn_append`, `splitOn_of_notMem` : the pieces between separators;
* `cut?_append`, `eq_of_cut?` : a text cut at the first occurrence of a character;
* `exists_trim`, `trimEnd_append`, `indent_append` : a text between the blanks at its ends.
-/

namespace Narration.Text

variable {p : Char → Bool} {u v : Text} {c : Char}

theorem takeWhile_run (hu : ∀ a ∈ u, p a) (hc : p c = false) : (u ++ c :: v).takeWhile p = u := by
  rw [List.takeWhile_append_of_pos hu, List.takeWhile_cons_of_neg (by simp [hc]), List.append_nil]

theorem dropWhile_run (hu : ∀ a ∈ u, p a) (hc : p c = false) :
    (u ++ c :: v).dropWhile p = c :: v := by
  rw [List.dropWhile_append_of_pos hu, List.dropWhile_cons_of_neg (by simp [hc])]

theorem takeWhile_all (hu : ∀ a ∈ u, p a) : u.takeWhile p = u := List.takeWhile_eq_self_iff.2 hu

theorem dropWhile_all (hu : ∀ a ∈ u, p a) : u.dropWhile p = [] := List.dropWhile_eq_nil_iff.2 hu

/-- A text is a run of a class, and either nothing more or something outside the class. -/
theorem exists_run (p : Char → Bool) (t : Text) :
    ∃ u v, t = u ++ v ∧ (∀ a ∈ u, p a) ∧ (v = [] ∨ ∃ c v', v = c :: v' ∧ p c = false) := by
  refine ⟨t.takeWhile p, t.dropWhile p, List.takeWhile_append_dropWhile.symm,
    fun a ha => List.mem_takeWhile_imp ha, ?_⟩
  cases h : t.dropWhile p with
  | nil => exact .inl rfl
  | cons c v' =>
    have := List.head_dropWhile_not (p := p) (l := t) (by simp [h])
    exact .inr ⟨c, v', rfl, by simpa [h] using this⟩

theorem firstLine_of_mem (h : '\n' ∈ u) : ∃ v w, u = v ++ '\n' :: w ∧ '\n' ∉ v := by
  obtain ⟨v, w, hu, hv⟩ := List.eq_append_cons_of_mem h
  exact ⟨v, w, hu, hv⟩

theorem ne_newline_of_notMem (h : '\n' ∉ u) : ∀ a ∈ u, decide (a ≠ '\n') = true := by
  intro a ha
  simpa using fun h' : a = '\n' => h (h' ▸ ha)

theorem takeWhile_line (h : '\n' ∉ u) : (u ++ '\n' :: v).takeWhile (· ≠ '\n') = u :=
  takeWhile_run (ne_newline_of_notMem h) (by simp)

theorem takeWhile_lastLine (h : '\n' ∉ u) : u.takeWhile (· ≠ '\n') = u :=
  takeWhile_all (ne_newline_of_notMem h)

/-- The characters before the first line feed. -/
abbrev firstLine (t : Text) : Text := t.takeWhile (· ≠ '\n')

/-- Text that begins with a line feed, or none, does not go on with the line before it. -/
def EndsLine (t : Text) : Prop := t = [] ∨ ∃ v, t = '\n' :: v

theorem newline_notMem_firstLine (t : Text) : '\n' ∉ firstLine t := by
  intro h
  simpa using List.mem_takeWhile_imp h

/-- What follows the first line begins with its line feed, if it is not the last. -/
theorem exists_afterFirstLine (t : Text) : ∃ v, t = firstLine t ++ v ∧ EndsLine v := by
  obtain ⟨u, v, rfl, hu, rfl | ⟨c, v, rfl, hc⟩⟩ := exists_run (· ≠ '\n') t
  · exact ⟨[], by rw [List.append_nil, firstLine, takeWhile_all hu, List.append_nil], .inl rfl⟩
  · refine ⟨c :: v, by rw [firstLine, takeWhile_run hu hc], .inr ⟨v, ?_⟩⟩
    rw [show c = '\n' by simpa using hc]

theorem EndsLine.firstLine_append (h : EndsLine v) (u : Text) : firstLine (u ++ v) = firstLine u := by
  rcases h with rfl | ⟨w, rfl⟩
  · rw [List.append_nil]
  · by_cases hu : '\n' ∈ u
    · obtain ⟨a, b, rfl, ha⟩ := firstLine_of_mem hu
      rw [List.append_assoc, List.cons_append, firstLine, firstLine, takeWhile_line ha, takeWhile_line ha]
    · rw [firstLine, firstLine, takeWhile_line hu, takeWhile_lastLine hu]

/-- The first line of a text that has a line feed does not depend on what follows. -/
theorem firstLine_append_of_mem (h : '\n' ∈ u) (v : Text) : firstLine (u ++ v) = firstLine u := by
  obtain ⟨a, b, rfl, ha⟩ := firstLine_of_mem h
  rw [List.append_assoc, List.cons_append, firstLine, firstLine, takeWhile_line ha, takeWhile_line ha]

theorem firstLine_append_of_notMem (h : '\n' ∉ u) (v : Text) : firstLine (u ++ v) = u ++ firstLine v :=
  List.takeWhile_append_of_pos (ne_newline_of_notMem h)

theorem EndsLine.takeWhile_append (hv : EndsLine v) (hp : p '\n' = false) (u : Text) :
    (u ++ v).takeWhile p = u.takeWhile p := by
  rcases hv with rfl | ⟨w, rfl⟩
  · rw [List.append_nil]
  · obtain ⟨a, b, rfl, ha, rfl | ⟨c, b, rfl, hc⟩⟩ := exists_run p u
    · rw [List.append_nil, takeWhile_run ha hp, takeWhile_all ha]
    · rw [List.append_assoc, List.cons_append, takeWhile_run ha hc, takeWhile_run ha hc]

theorem EndsLine.dropWhile_append (hv : EndsLine v) (hp : p '\n' = false) (u : Text) :
    (u ++ v).dropWhile p = u.dropWhile p ++ v := by
  rcases hv with rfl | ⟨w, rfl⟩
  · rw [List.append_nil, List.append_nil]
  · obtain ⟨a, b, rfl, ha, rfl | ⟨c, b, rfl, hc⟩⟩ := exists_run p u
    · rw [List.append_nil, dropWhile_run ha hp, dropWhile_all ha, List.nil_append]
    · rw [List.append_assoc, List.cons_append, dropWhile_run ha hc, dropWhile_run ha hc, List.cons_append]

theorem EndsLine.head?_append (hv : EndsLine v) (hc : c ≠ '\n') (u : Text) : (u ++ v).head? = some c ↔ u.head? = some c := by
  cases u with
  | nil =>
    rcases hv with rfl | ⟨w, rfl⟩
    · rfl
    · simp [hc.symm]
  | cons d u => rfl

/-! ## Blanks at the ends -/

/-- Where the letters stand. -/
theorem toNat_of_isAlpha (h : c.isAlpha) : 65 ≤ c.toNat ∧ c.toNat ≤ 90 ∨ 97 ≤ c.toNat ∧ c.toNat ≤ 122 := by
  rcases Bool.or_eq_true_iff.1 h with h | h
  · obtain ⟨hA, hZ⟩ := of_decide_eq_true h
    exact .inl ⟨UInt32.le_iff_toNat_le.1 hA, UInt32.le_iff_toNat_le.1 hZ⟩
  · obtain ⟨ha, hz⟩ := Bool.and_eq_true_iff.1 h
    exact .inr ⟨UInt32.le_iff_toNat_le.1 (of_decide_eq_true ha), UInt32.le_iff_toNat_le.1 (of_decide_eq_true hz)⟩

theorem toNat_of_isAlphanum (h : c.isAlphanum) : 48 ≤ c.toNat ∧ c.toNat ≤ 57 ∨ 65 ≤ c.toNat ∧ c.toNat ≤ 90 ∨ 97 ≤ c.toNat ∧ c.toNat ≤ 122 := by
  rcases Bool.or_eq_true_iff.1 h with h | h
  · exact .inr (toNat_of_isAlpha h)
  · obtain ⟨h0, h9⟩ := Bool.and_eq_true_iff.1 h
    exact .inl ⟨UInt32.le_iff_toNat_le.1 (of_decide_eq_true h0), UInt32.le_iff_toNat_le.1 (of_decide_eq_true h9)⟩

theorem isBlank_of_isAlphanum (h : c.isAlphanum) : isBlank c = false := by
  have hplace := toNat_of_isAlphanum h
  simp only [isBlank, Bool.or_eq_false_iff, Bool.and_eq_false_iff, decide_eq_false_iff_not, beq_eq_false_iff_ne]
  omega

theorem isBlank_of_isAlpha (h : c.isAlpha) : isBlank c = false := isBlank_of_isAlphanum (by rw [Char.isAlphanum, h, Bool.true_or])

theorem isWord_of_isAlphanum (h : c.isAlphanum || c == '_') : isWord c := by
  have hlt : c.toNat < 128 := by
    rw [Bool.or_eq_true] at h
    rcases h with h | h
    · have hplace := toNat_of_isAlphanum h
      omega
    · rw [beq_iff_eq.1 h]
      decide
  have hval : c.val < 128 := hlt
  rwa [isWord, if_pos hval]

theorem drop_indent (t : Text) : t.drop (indent t) = trimStart t := by
  have h : t = t.takeWhile isBlank ++ t.dropWhile isBlank := List.takeWhile_append_dropWhile.symm
  calc t.drop (indent t) = (t.takeWhile isBlank ++ t.dropWhile isBlank).drop (indent t) := by rw [← h]
    _ = trimStart t := List.drop_left

theorem indent_eq_zero {t : Text} (h : trimStart t = t) : indent t = 0 := by
  have hdrop := congrArg List.length ((drop_indent t).trans h)
  have hle : indent t ≤ t.length := (List.takeWhile_sublist _).length_le
  rw [List.length_drop] at hdrop
  omega

theorem indent_trimStart (t : Text) : indent (trimStart t) = 0 := by
  unfold indent trimStart
  cases h : t.dropWhile isBlank with
  | nil => rfl
  | cons c u =>
    have := List.head_dropWhile_not (p := isBlank) (l := t) (by simp [h])
    rw [List.takeWhile_cons_of_neg (by simpa [h] using this), List.length_nil]

/-- The blanks at the front of a text end before a character that is none. -/
theorem indent_append_of_not_allBlank (h : allBlank u = false) (v : Text) : indent (u ++ v) = indent u := by
  obtain ⟨a, b, rfl, ha, hb⟩ := exists_run isBlank u
  rcases hb with rfl | ⟨c, b, rfl, hc⟩
  · rw [List.append_nil, allBlank, List.all_eq_true.2 ha] at h
    cases h
  · rw [List.append_assoc, List.cons_append, indent, indent, takeWhile_run ha hc, takeWhile_run ha hc]

theorem trimStart_append_of_not_allBlank (h : allBlank u = false) (v : Text) :
    trimStart (u ++ v) = trimStart u ++ v := by
  have hle : indent u ≤ u.length := (List.takeWhile_sublist _).length_le
  rw [← drop_indent, ← drop_indent, indent_append_of_not_allBlank h, List.drop_append_of_le_length hle]

theorem indent_le_append (u v : Text) : indent u ≤ indent (u ++ v) := by
  cases h : allBlank u with
  | true =>
    have hall := List.all_eq_true.1 h
    rw [indent, indent, List.takeWhile_append_of_pos hall, takeWhile_all hall, List.length_append]
    exact Nat.le_add_right _ _
  | false => rw [indent_append_of_not_allBlank h]

theorem not_allBlank_of_indent_lt (h : indent (u ++ v) < u.length) : allBlank u = false := by
  rw [← Bool.not_eq_true]
  intro hu
  rw [indent, List.takeWhile_append_of_pos (List.all_eq_true.1 hu), List.length_append] at h
  omega

/-- Of two texts at the front of a text the shorter is at the front of the longer. -/
theorem exists_between {x y z w : Text} (h : x ++ y = z ++ w) (hle : x.length ≤ z.length) : ∃ v, z = x ++ v ∧ y = v ++ w := by
  obtain ⟨v, rfl⟩ := List.prefix_of_prefix_length_le (List.prefix_append x y) (h ▸ List.prefix_append z w) hle
  rw [List.append_assoc] at h
  exact ⟨v, rfl, List.append_cancel_left h⟩

/-- What stands among the blanks at the front is blank. -/
theorem allBlank_of_length_le_indent (h : u.length ≤ indent (u ++ v)) : allBlank u := by
  have hfront : u <+: (u ++ v).takeWhile isBlank :=
    List.prefix_of_prefix_length_le (List.prefix_append u v) (List.takeWhile_prefix _) h
  exact List.all_eq_true.2 fun c hc => List.mem_takeWhile_imp (hfront.subset hc)

/-- Blanks at the front of a line that is not blank stand on that line. -/
theorem newline_notMem_of_allBlank (hu : allBlank u) (h : allBlank (firstLine (u ++ v)) = false) : '\n' ∉ u := by
  intro hmem
  have hall : allBlank (firstLine u) := List.all_eq_true.2 fun c hc => List.all_eq_true.1 hu c ((List.takeWhile_sublist _).subset hc)
  rw [firstLine_append_of_mem hmem, hall] at h
  cases h

theorem dropEndWhile_append (p : Char → Bool) (t : Text) :
    ∃ after, t = dropEndWhile p t ++ after ∧ ∀ a ∈ after, p a := by
  refine ⟨(t.reverse.takeWhile p).reverse, ?_, fun a ha => ?_⟩
  · rw [dropEndWhile, ← List.reverse_append, List.takeWhile_append_dropWhile, List.reverse_reverse]
  · exact List.mem_takeWhile_imp (List.mem_reverse.1 ha)

theorem exists_splitOn_cons {c d : Char} (h : c ≠ d) (t : Text) :
    ∃ piece rest, splitOn d (c :: t) = (c :: piece) :: rest := by
  cases hsplit : splitOn d t with
  | nil => exact ⟨[], [], by rw [splitOn, List.foldr_cons, ← splitOn, hsplit, if_neg h]⟩
  | cons piece rest => exact ⟨piece, rest, by rw [splitOn, List.foldr_cons, ← splitOn, hsplit, if_neg h]⟩

theorem splitOn_cons_self (c : Char) (t : Text) : splitOn c (c :: t) = [] :: splitOn c t := by
  rw [splitOn, List.foldr_cons, if_pos rfl, ← splitOn]

theorem splitOn_cons_of_ne {d : Char} {t piece : Text} {rest : List Text} (hd : d ≠ c) (h : splitOn c t = piece :: rest) :
    splitOn c (d :: t) = (d :: piece) :: rest := by
  rw [splitOn, List.foldr_cons, if_neg hd, ← splitOn, h]

/-- The piece before a separator. -/
theorem splitOn_append (hu : c ∉ u) (v : Text) : splitOn c (u ++ c :: v) = u :: splitOn c v := by
  induction u with
  | nil => exact splitOn_cons_self c v
  | cons d u ih =>
    rw [List.mem_cons, not_or] at hu
    exact splitOn_cons_of_ne (Ne.symm hu.1) (ih hu.2)

theorem splitOn_of_notMem (hu : c ∉ u) : splitOn c u = [u] := by
  induction u with
  | nil => rfl
  | cons d u ih =>
    rw [List.mem_cons, not_or] at hu
    exact splitOn_cons_of_ne (Ne.symm hu.1) (ih hu.2)

theorem cut?_append (hu : c ∉ u) (v : Text) : cut? c (u ++ c :: v) = some (u, v) := by
  have hne : ∀ d ∈ u, decide (d ≠ c) = true := fun d hd => by simpa using fun h : d = c => hu (h ▸ hd)
  rw [cut?, List.span_eq_takeWhile_dropWhile, takeWhile_run hne (by simp), dropWhile_run hne (by simp)]

theorem cut?_of_notMem (hu : c ∉ u) : cut? c u = none := by
  rw [cut?, List.span_eq_takeWhile_dropWhile, dropWhile_all fun d hd => by simpa using fun h : d = c => hu (h ▸ hd)]

/-- A text is cut at the first occurrence of a character. -/
theorem eq_of_cut? {t : Text} (h : cut? c t = some (u, v)) : t = u ++ c :: v := by
  by_cases hmem : c ∈ t
  · obtain ⟨a, b, rfl, ha⟩ := List.eq_append_cons_of_mem hmem
    rw [cut?_append ha] at h
    cases h
    rfl
  · rw [cut?_of_notMem hmem] at h
    cases h

theorem dropEndWhile_cons {p : Char → Bool} (hc : p c = false) (t : Text) :
    dropEndWhile p (c :: t) = c :: dropEndWhile p t := by
  rw [dropEndWhile, dropEndWhile, List.reverse_cons, List.dropWhile_append]
  split
  · next h => 
    rw [List.isEmpty_iff.1 h, List.dropWhile_cons_of_neg (by simp [hc])]
    rfl
  · rw [List.reverse_append]
    rfl

theorem trimEnd_cons_cons {b : Char} (hb : isBlank b = false) (c : Char) (u : Text) :
    ∃ u', trimEnd (c :: b :: u) = c :: b :: u' := by
  have hreverse : (c :: b :: u).reverse = u.reverse ++ [b, c] := by simp
  have hend : [b, c].dropWhile isBlank = [b, c] := List.dropWhile_cons_of_neg (by simp [hb])
  rw [trimEnd, dropEndWhile, hreverse, List.dropWhile_append, hend]
  split
  · exact ⟨[], rfl⟩
  · exact ⟨(u.reverse.dropWhile isBlank).reverse, by simp⟩

/-- The end of a text begins like the text itself. -/
theorem head?_of_trimEnd {t : Text} {c : Char} (h : (trimEnd t).head? = some c) : t.head? = some c := by
  obtain ⟨after, ht, -⟩ := dropEndWhile_append isBlank t
  rw [ht, List.head?_append, show (dropEndWhile isBlank t).head? = some c from h, Option.some_or]

/-- A text is what is left when it is trimmed, between blanks. -/
theorem exists_trim (t : Text) : ∃ before after, t = before ++ trim t ++ after ∧
    before.length = indent t ∧ (∀ b ∈ before, isBlank b) ∧ ∀ b ∈ after, isBlank b := by
  obtain ⟨after, h, hafter⟩ := dropEndWhile_append isBlank (trimStart t)
  refine ⟨t.takeWhile isBlank, after, ?_, rfl, fun b hb => List.mem_takeWhile_imp hb, hafter⟩
  rw [List.append_assoc, trim, trimEnd, ← h]
  exact List.takeWhile_append_dropWhile.symm

variable {before t after : Text}

/-- A run of one class at the end of a text, after a character outside it. -/
theorem dropEndWhile_run (ha : ∀ b ∈ after, p b) (ht : ∀ c, t.getLast? = some c → p c = false) :
    dropEndWhile p (t ++ after) = t := by
  rw [dropEndWhile, List.reverse_append, List.dropWhile_append_of_pos (by simpa using ha)]
  cases h : t.reverse with
  | nil => simp [List.reverse_eq_nil_iff.1 h]
  | cons c u =>
    have hc := ht c (by rw [List.getLast?_eq_head?_reverse, h, List.head?_cons])
    rw [List.dropWhile_cons_of_neg (by simp [hc]), ← h, List.reverse_reverse]

theorem trimEnd_append (ha : ∀ b ∈ after, isBlank b) (ht : ∀ c, t.getLast? = some c → isBlank c = false) :
    trimEnd (t ++ after) = t := dropEndWhile_run ha ht

theorem trimEnd_eq_self (ht : ∀ c, t.getLast? = some c → isBlank c = false) : trimEnd t = t := by
  have hnone : ∀ b ∈ ([] : Text), isBlank b := nofun
  have h := trimEnd_append hnone ht
  rwa [List.append_nil] at h

theorem indent_append (hb : ∀ b ∈ before, isBlank b) (ht : ∀ c, t.head? = some c → isBlank c = false) :
    indent (before ++ t) = before.length := by
  cases t with
  | nil => rw [List.append_nil, indent, takeWhile_all hb]
  | cons c t => rw [indent, takeWhile_run hb (ht c rfl)]

end Narration.Text
