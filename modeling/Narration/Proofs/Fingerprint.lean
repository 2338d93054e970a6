import Mathlib.Data.Finset.Card
import Narration.Fingerprint

/-!
# When a document counts as unchanged

* `Fingerprint.voicesMatch_eq_true` : the comparison of voices, a length and an inclusion;
* `Fingerprint.hasChanged_eq_false` : what a document has that is not narrated again;
* `Fingerprint.card_le_of_nodup` : ids without repetition are no fewer than as many others;
* `Fingerprint.hasChanged_exact`, `Fingerprint.hasChanged_repeated` : when those are exactly the requested voices, and when
  they are not.

The two sides of the comparison are lists that may repeat an id. The length and the inclusion leave room for a recorded
voice that was not requested as soon as the request repeats another one.
-/

namespace Narration.Fingerprint

variable {recorded requested : List Text} {digest : Text} {block : Option NarrationBlock}

theorem voicesMatch_eq_true :
    voicesMatch recorded requested = true ↔ recorded.length = requested.length ∧ requested ⊆ recorded := by
  simp only [voicesMatch, Bool.and_eq_true, beq_iff_eq, List.all_eq_true, List.contains_iff_mem]
  rfl

theorem hasChanged_eq_false : hasChanged digest block requested = false ↔
    ∃ b, block = some b ∧ b.fingerprint = some digest ∧ b.voiceIds.length = requested.length ∧
      requested ⊆ b.voiceIds := by
  cases block with
  | none => simp [hasChanged]
  | some b =>
    simp only [hasChanged, Bool.or_eq_false_iff, decide_eq_false_iff_not, not_not, Bool.not_eq_false', voicesMatch_eq_true,
      Option.some.injEq, exists_eq_left']

/-- As many ids are no more distinct ones than ids that are all distinct. -/
theorem card_le_of_nodup (hnodup : requested.Nodup) (hlength : recorded.length = requested.length) :
    recorded.toFinset.card ≤ requested.toFinset.card := by
  calc recorded.toFinset.card ≤ recorded.length := List.toFinset_card_le recorded
    _ = requested.length := hlength
    _ = requested.toFinset.card := (List.toFinset_card_of_nodup hnodup).symm

/-- When as many ids are requested as are recorded only if they are as many distinct ones, a document is left as it is
exactly when its block has the fingerprint and the requested set of voices, each as often. -/
theorem hasChanged_exact (hcard : ∀ b ∈ block, b.voiceIds.length = requested.length →
      b.voiceIds.toFinset.card ≤ requested.toFinset.card) :
    hasChanged digest block requested = false ↔
      ∃ b, block = some b ∧ b.fingerprint = some digest ∧ b.voiceIds.length = requested.length ∧
        b.voiceIds.toFinset = requested.toFinset := by
  rw [hasChanged_eq_false]
  refine exists_congr fun b => and_congr_right fun hb => and_congr_right fun _ => and_congr_right fun hlength => ?_
  constructor
  · intro hsub
    have hsub : requested.toFinset ⊆ b.voiceIds.toFinset := fun id hid => by
      rw [List.mem_toFinset] at hid ⊢
      exact hsub hid
    exact (Finset.eq_of_subset_of_card_le hsub (hcard b hb hlength)).symm
  · intro heq id hid
    rw [← List.mem_toFinset, heq]
    exact List.mem_toFinset.2 hid

/-- Two distinct voices are requested and recorded, in another order. -/
theorem hasChanged_exact_reordered :
    (∀ b ∈ some (⟨some "ab".toList, [⟨"b".toList, [], []⟩, ⟨"a".toList, [], []⟩]⟩ : NarrationBlock),
        b.voiceIds.length = ["a".toList, "b".toList].length →
          b.voiceIds.toFinset.card ≤ ["a".toList, "b".toList].toFinset.card) ∧
      hasChanged "ab".toList (some ⟨some "ab".toList, [⟨"b".toList, [], []⟩, ⟨"a".toList, [], []⟩]⟩)
        ["a".toList, "b".toList] = false := by
  have hcard : ∀ b ∈ some (⟨some "ab".toList, [⟨"b".toList, [], []⟩, ⟨"a".toList, [], []⟩]⟩ : NarrationBlock),
      b.voiceIds.length = ["a".toList, "b".toList].length →
        b.voiceIds.toFinset.card ≤ ["a".toList, "b".toList].toFinset.card :=
    fun _ _ => card_le_of_nodup (by decide)
  exact ⟨hcard, (hasChanged_exact hcard).2 ⟨_, rfl, rfl, rfl, by decide⟩⟩

/-- A request that repeats one of two recorded voices leaves the document as it is, with a voice that was not requested. -/
theorem hasChanged_repeated :
    hasChanged "ab".toList (some ⟨some "ab".toList, [⟨"a".toList, "A".toList, []⟩, ⟨"b".toList, "B".toList, []⟩]⟩)
        ["a".toList, "a".toList] = false ∧
      (⟨some "ab".toList, [⟨"a".toList, "A".toList, []⟩, ⟨"b".toList, "B".toList, []⟩]⟩ : NarrationBlock).voiceIds.toFinset ≠
        ["a".toList, "a".toList].toFinset := by
  exact ⟨by decide, by decide⟩

end Narration.Fingerprint
