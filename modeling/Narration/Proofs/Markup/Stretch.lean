import Narration.Markup.Stretch
import Narration.Proofs.Text.Runs

/-!
# Laws of stretches

* characters, first offset and offset after the last character of every part of a stretch;
* `Stretch.start_lt_afterLine` : what follows the first line of a stretch begins later;
* `Stretch.line_mk`, `Stretch.afterLine_mk` : the first line of a stretch that has a line feed.
-/

namespace Narration.Markup.Stretch

variable (s : Stretch)

@[simp] theorem start_drop (n : Nat) : (s.drop n).start = s.start + min n s.chars.length := rfl
@[simp] theorem chars_drop (n : Nat) : (s.drop n).chars = s.chars.drop n := rfl
@[simp] theorem start_take (n : Nat) : (s.take n).start = s.start := rfl
@[simp] theorem chars_take (n : Nat) : (s.take n).chars = s.chars.take n := rfl
@[simp] theorem start_line : s.line.start = s.start := rfl
theorem chars_line : s.line.chars = s.chars.takeWhile (· ≠ '\n') := rfl
@[simp] theorem chars_afterLine : s.afterLine.chars = s.chars.drop (s.line.chars.length + 1) := rfl
@[simp] theorem chars_since (offset : Nat) : (s.since offset).chars = s.chars.drop (offset - s.start) := rfl
@[simp] theorem chars_till (offset : Nat) : (s.till offset).chars = s.chars.take (offset - s.start) := rfl
@[simp] theorem start_till (offset : Nat) : (s.till offset).start = s.start := rfl

theorem length_line_le : s.line.chars.length ≤ s.chars.length :=
  (List.takeWhile_sublist _).length_le

theorem drop_zero : s.drop 0 = s := by rw [drop, Nat.zero_min, Nat.add_zero, List.drop_zero]

theorem start_le_drop (n : Nat) : s.start ≤ (s.drop n).start := Nat.le_add_right _ _

theorem start_le_trimStart : s.start ≤ s.trimStart.start := s.start_le_drop _

theorem start_le_since (offset : Nat) : s.start ≤ (s.since offset).start := s.start_le_drop _

theorem start_le_afterLine : s.start ≤ s.afterLine.start := s.start_le_drop _

theorem start_lt_drop {n : Nat} (hn : 0 < n) (h : s.chars ≠ []) : s.start < (s.drop n).start := by
  have := List.length_pos_iff.2 h
  simp only [start_drop]
  omega

theorem start_lt_afterLine (h : s.chars ≠ []) : s.start < s.afterLine.start :=
  s.start_lt_drop (Nat.succ_pos _) h

theorem stop_drop (n : Nat) : (s.drop n).stop = s.stop := by
  simp only [stop, start_drop, chars_drop, List.length_drop]
  omega

theorem start_lt_stop (h : s.chars ≠ []) : s.start < s.stop :=
  Nat.lt_add_of_pos_right (List.length_pos_iff.2 h)

theorem start_le_stop : s.start ≤ s.stop := Nat.le_add_right _ _

theorem stop_line_le : s.line.stop ≤ s.stop := Nat.add_le_add_left s.length_line_le s.start

theorem stop_line_le_afterLine : s.line.stop ≤ s.afterLine.start :=
  Nat.add_le_add_left (Nat.le_min.2 ⟨Nat.le_succ _, s.length_line_le⟩) s.start

theorem stop_afterLine : s.afterLine.stop = s.stop := s.stop_drop _

theorem start_since {o : Nat} (h : s.start ≤ o) (h' : o ≤ s.stop) : (s.since o).start = o := by
  rw [stop] at h'
  change s.start + min (o - s.start) s.chars.length = o
  omega

theorem stop_till_le {o : Nat} (h : s.start ≤ o) : (s.till o).stop ≤ o := by
  rw [stop, chars_till, start_till, List.length_take]
  omega

theorem stop_take_le (n : Nat) : (s.take n).stop ≤ s.stop := by
  rw [stop, start_take, chars_take, List.length_take]
  exact Nat.add_le_add_left (Nat.min_le_right _ _) _

theorem chars_trimStart : s.trimStart.chars = Text.trimStart s.chars := Text.drop_indent s.chars

theorem chars_trim : s.trim.chars = Text.trim s.chars := by
  rw [trim, Text.trim, ← chars_trimStart]

theorem chars_trim_prefix : s.trim.chars <+: s.trimStart.chars := by
  change Text.trimEnd s.trimStart.chars <+: s.trimStart.chars
  rw [Text.trimEnd, Text.dropEndWhile, ← List.reverse_suffix, List.reverse_reverse]
  exact List.dropWhile_suffix _

theorem stop_trim_le : s.trim.stop ≤ s.stop := by
  rw [← s.stop_drop (Text.indent s.chars)]
  exact Nat.add_le_add_left s.chars_trim_prefix.length_le _

theorem trimStart_trimStart : s.trimStart.trimStart = s.trimStart := by
  have h : Text.indent s.trimStart.chars = 0 := by rw [chars_trimStart, Text.indent_trimStart]
  rw [trimStart.eq_1 s.trimStart, h, drop, Nat.zero_min, Nat.add_zero, List.drop_zero]

theorem trim_trimStart : s.trimStart.trim = s.trim := by rw [trim, trimStart_trimStart, trim]

section Parts
variable {o : Nat} {t u v : Text}

theorem trimStart_eq_self (h : Text.trimStart t = t) : (⟨o, t⟩ : Stretch).trimStart = ⟨o, t⟩ := by
  rw [trimStart, Text.indent_eq_zero h, drop, Nat.zero_min, Nat.add_zero, List.drop_zero]

theorem trim_eq_self (hstart : Text.trimStart t = t) (hend : Text.trimEnd t = t) : (⟨o, t⟩ : Stretch).trim = ⟨o, t⟩ := by
  rw [trim, trimStart_eq_self hstart, hend]

theorem line_mk (h : '\n' ∉ u) : (⟨o, u ++ '\n' :: v⟩ : Stretch).line = ⟨o, u⟩ := by
  rw [line, Text.takeWhile_line h]

theorem afterLine_mk (h : '\n' ∉ u) :
    (⟨o, u ++ '\n' :: v⟩ : Stretch).afterLine = ⟨o + (u.length + 1), v⟩ := by
  rw [afterLine, line_mk h, drop, List.drop_append, List.drop_eq_nil_of_le (by simp)]
  simp

/-- The last line of a text. -/
theorem line_mk_last (h : '\n' ∉ u) : (⟨o, u⟩ : Stretch).line = ⟨o, u⟩ := by
  rw [line, Text.takeWhile_lastLine h]

/-- Nothing comes after the last line. -/
theorem afterLine_mk_last (h : '\n' ∉ u) : (⟨o, u⟩ : Stretch).afterLine = ⟨o + u.length, []⟩ := by
  rw [afterLine, line_mk_last h, drop, List.drop_eq_nil_of_le (Nat.le_succ _),
    Nat.min_eq_right (Nat.le_succ _)]

theorem line_mk_endsLine (hu : '\n' ∉ u) (hv : Text.EndsLine v) : (⟨o, u ++ v⟩ : Stretch).line = ⟨o, u⟩ := by
  rcases hv with rfl | ⟨w, rfl⟩
  · rw [List.append_nil, line_mk_last hu]
  · exact line_mk hu

theorem afterLine_mk_endsLine (hu : '\n' ∉ u) (hv : Text.EndsLine v) :
    (⟨o, u ++ v⟩ : Stretch).afterLine = ⟨o + u.length + min 1 v.length, v.drop 1⟩ := by
  rcases hv with rfl | ⟨w, rfl⟩
  · rw [List.append_nil, afterLine_mk_last hu]
    rfl
  · rw [afterLine_mk hu, List.length_cons, Nat.min_eq_left (Nat.le_add_left 1 _)]
    rfl

end Parts
end Narration.Markup.Stretch
