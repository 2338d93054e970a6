import Narration.Proofs.Markup.Within

/-!
# A tag is determined by its own characters

* `Tag.Determined` : a tag of a text that takes up its characters, is read from them whatever follows, and from no fewer;
* `Tag.read?_take` : a tag is read from a text cut behind it;
* `Tag.determined_of_read` : every tag of a text is determined.
-/

namespace Narration.Tag
open Markup (Stretch)

variable {t : Text} {start m : Nat} {tag : Tag}

/-- A tag that begins at an offset of a text. It lies between its brackets, the spans of its attributes come one after the other
and hold their values as they are written; it is the same whatever follows it, and there is no tag before its last bracket. -/
structure Determined (t : Text) (start : Nat) (tag : Tag) : Prop where
  starts : tag.start = start
  lt : start < tag.stop
  stop_le : tag.stop ≤ t.length
  head : t[start]? = some '<'
  last : t[tag.stop - 1]? = some '>'
  apart : (tag.attributes.filterMap (·.span)).Pairwise fun p q => p.2 ≤ q.1
  spelled : ∀ a ∈ tag.attributes, a.Spelled t start tag.stop
  followed : ∀ u, read? start ((t.take tag.stop ++ u).drop start) = some tag
  early : ∀ m, start < m → m < tag.stop → read? start ((t.take m).drop start) = none

/-- A tag of a text begins in it. -/
theorem start_lt_of_read? (h : read? start (t.drop start) = some tag) : start < t.length := by
  obtain ⟨hlt, hle⟩ := extent_of_read? h
  rw [List.length_drop] at hle
  omega

/-- The characters from an offset, cut at a later one. -/
theorem drop_eq_append (ht : start ≤ t.length) (hm : start ≤ m) : t.drop start = (t.take m).drop start ++ t.drop m := by
  rw [← List.drop_append_of_le_length, List.take_append_drop]
  rw [List.length_take]
  exact Nat.le_min.2 ⟨hm, ht⟩

/-- A tag is read from a text that is cut behind it, and from any other text that begins so. -/
theorem read?_take (h : read? start (t.drop start) = some tag) (hm : tag.stop ≤ m) (u : Text) :
    read? start ((t.take m ++ u).drop start) = some tag := by
  have hlt := start_lt_of_read? h
  obtain ⟨hpast, hle⟩ := extent_of_read? h
  rw [List.length_drop] at hle
  have hstop : tag.stop ≤ start + ((t.take m).drop start).length := by
    rw [List.length_drop, List.length_take]
    omega
  rw [List.drop_append_of_le_length (by rw [List.length_take]; omega)]
  rw [drop_eq_append (Nat.le_of_lt hlt) (show start ≤ m by omega)] at h
  exact read?_exchange h hstop u

/-- A tag that is read from a text that is cut is one of the whole text. -/
theorem read?_of_take (hm : start ≤ m) (h : read? start ((t.take m).drop start) = some tag) : read? start (t.drop start) = some tag := by
  have hlt := start_lt_of_read? h
  have hle := (extent_of_read? h).2
  rw [List.length_take] at hlt
  rw [drop_eq_append (by omega) hm]
  rw [← List.append_nil ((t.take m).drop start)] at h
  exact read?_exchange h hle _

/-- Every tag of a text is determined by its own characters. -/
theorem determined_of_read (h : read? start (t.drop start) = some tag) : Determined t start tag := by
  have hlt := start_lt_of_read? h
  have hspans := read?_span ⟨Nat.le_of_lt hlt, List.prefix_rfl⟩ h
  obtain ⟨hpast, hle⟩ := extent_of_read? h
  rw [List.length_drop] at hle
  refine ⟨hspans.start, Nat.lt_of_succ_lt hpast, by omega, hspans.start ▸ hspans.head, hspans.last, hspans.row.apart,
    hspans.start ▸ hspans.row.spelled, read?_take h (Nat.le_refl _), fun m hm hstop => ?_⟩
  rw [Option.eq_none_iff_forall_ne_some]
  intro tag' htag'
  have hsame : tag' = tag := Option.some.inj ((read?_of_take (Nat.le_of_lt hm) htag').symm.trans h)
  have hle' := (extent_of_read? htag').2
  rw [hsame, List.length_drop, List.length_take] at hle'
  omega

/-- A text with a tag in it, whose values hold a bracket, a brace in a string and a line end. -/
def cardText : Text := "a <Card href='>' \x7b...b\x7d c=\x7b[\"\x7d\",\n1]\x7d>d</Card>".toList

theorem determined_of_read_card : ∃ tag, read? 2 (cardText.drop 2) = some tag ∧ tag.stop = 37 ∧ Determined cardText 2 tag := by
  obtain ⟨tag, htag⟩ := Option.isSome_iff_exists.1 (by decide +kernel : (read? 2 (cardText.drop 2)).isSome)
  have hstop : (read? 2 (cardText.drop 2)).map Tag.stop = some 37 := by decide +kernel
  rw [htag] at hstop
  exact ⟨tag, htag, Option.some.inj hstop, determined_of_read htag⟩

end Narration.Tag
