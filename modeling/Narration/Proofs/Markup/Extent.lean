import Narration.Markup.Closing

/-!
# Extents

What the scanners of embedded code and tags recognise is never empty.

* `Braces.balanced?_pos` : expressions in braces;
* `Tag.start_lt_stop` : tags;
* `Closing.find?_extent` : the closing tag that belongs to an open one.
-/

namespace Narration

theorem Braces.scan_pos {t : Text} {depth skip n : Nat} (h : scan depth skip t = some n) : 0 < n := by
  have succ {o : Option Nat} (h : o.map (· + 1) = some n) : 0 < n := by
    obtain ⟨m, -, rfl⟩ := Option.map_eq_some_iff.1 h
    exact Nat.succ_pos m
  cases t with
  | nil => simp [scan] at h
  | cons c t =>
    cases skip with
    | succ skip => exact succ h
    | zero =>
      unfold scan at h
      split at h
      · cases h
      · exact succ h
      · split at h
        · exact succ h
        · split at h
          · split at h
            · exact Option.some.inj h ▸ Nat.one_pos
            · exact succ h
          · exact succ h

theorem Braces.balanced?_pos {t : Text} {n : Nat} (h : balanced? t = some n) : 0 < n := scan_pos h

theorem Braces.balanced?_ne_nil {t : Text} {n : Nat} (h : balanced? t = some n) : t ≠ [] := by
  rintro rfl
  simp [balanced?, scan] at h

namespace Tag

theorem lt_stop_of_tail? {closing : Bool} {fuel offset : Nat} {t : Text} {tail : Tail}
    (h : tail? closing fuel offset t = some tail) : offset < tail.stop := by
  induction fuel generalizing offset t tail with
  | zero => simp [tail?] at h
  | succ fuel ih =>
    unfold tail? at h
    simp only [Option.bind_eq_bind] at h
    split at h
    · cases h
    · cases h
      exact Nat.lt_of_le_of_lt (Nat.le_add_right _ _) (Nat.lt_add_of_pos_right Nat.two_pos)
    · cases h
      exact Nat.lt_of_le_of_lt (Nat.le_add_right _ _) (Nat.lt_add_of_pos_right Nat.one_pos)
    · split at h
      · cases h
      · obtain ⟨⟨a, length⟩, -, h⟩ := Option.bind_eq_some_iff.1 h
        obtain ⟨rest, hrest, h⟩ := Option.bind_eq_some_iff.1 h
        cases h
        have := ih hrest
        simp only [Tail.cons]
        omega

theorem lt_stop_of_body? {start : Nat} {closing : Bool} {t : Text} {tag : Tag}
    (h : body? start closing t = some tag) : start < tag.stop := by
  unfold body? at h
  have hoffset : start < start + (if closing then 2 else 1) := by split <;> omega
  generalize start + (if closing then 2 else 1) = offset at h hoffset
  dsimp only at h
  split at h
  · cases h
    exact Nat.lt_succ_of_lt hoffset
  · simp only [Option.bind_eq_bind] at h
    obtain ⟨⟨name, rest⟩, -, h⟩ := Option.bind_eq_some_iff.1 h
    obtain ⟨c, -, h⟩ := Option.bind_eq_some_iff.1 h
    split at h
    · obtain ⟨tail, htail, h⟩ := Option.bind_eq_some_iff.1 h
      cases h
      have := lt_stop_of_tail? htail
      dsimp only
      omega
    · cases h

theorem lt_stop_of_read? {start : Nat} {t : Text} {tag : Tag} (h : read? start t = some tag) :
    start < tag.stop := by
  unfold read? at h
  split at h
  · exact lt_stop_of_body? h
  · exact lt_stop_of_body? h
  · cases h

theorem head?_of_read? {start : Nat} {t : Text} {tag : Tag} (h : read? start t = some tag) : t.head? = some '<' := by
  unfold read? at h
  split at h
  · rfl
  · rfl
  · cases h

end Tag

namespace Markup.Closing

theorem findFrom_extent {name t : Text} {depth skip offset first stop : Nat}
    (h : findFrom name depth skip offset t = some (first, stop)) : offset ≤ first ∧ first < stop := by
  fun_induction findFrom name depth skip offset t
  case case1 | case5 => cases h
  case case6 => cases h; omega
  all_goals
    next ih =>
      obtain ⟨hfirst, hstop⟩ := ih h
      exact ⟨Nat.le_of_succ_le hfirst, hstop⟩

theorem find?_extent {name t : Text} {offset first stop : Nat} (h : find? name offset t = some (first, stop)) :
    offset ≤ first ∧ first < stop := findFrom_extent h

end Markup.Closing
end Narration
