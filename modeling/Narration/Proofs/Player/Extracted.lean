import Narration.Proofs.Player.Injected
import Narration.Proofs.Spoken.Narrated

/-!
# Injection and what is narrated

Injection into a document without narration leaves what is narrated as it is.

* `Spoken.map_passages_silent` : blocks that are not narrated may stand before others;
* `Player.flatten?_carries` : a narration block leaves what is narrated as it is.
-/

namespace Narration

namespace Spoken
open Markup
open Markup.Block
open Player (isContent)

variable {ns ns' ms : List Node} {budget : Nat}

theorem blockText_of_not_isContent {n : Node} (h : isContent n.kind = false) (h' : n.kind ≠ .listItem) (budget : Nat) :
    blockText n budget = some [] := by
  cases n with
  | mk kind children position =>
    change isContent kind = false at h
    change kind ≠ .listItem at h'
    cases kind <;> first | rfl | exact absurd rfl h' | cases h

theorem blockText_of_leaf {n : Node} (h : n.children = []) : blockText n flatteningBudget = some [] := by
  cases n with
  | mk kind children position =>
    obtain rfl : children = [] := h
    cases kind <;> rfl

/-- Blocks that are not narrated may stand before others. -/
theorem map_passages_silent (h : ∀ n ∈ ns, blockText n budget = some []) (ms : List Node) :
    (passages (ns ++ ms) budget).map joinBlocks = (passages ms budget).map joinBlocks := by
  induction ns with
  | nil => rfl
  | cons n ns ih =>
    rw [List.forall_mem_cons] at h
    rw [List.cons_append, passages, h.1, ← ih h.2]
    cases passages (ns ++ ms) budget <;> rfl

theorem map_passages_alike (h : Alike ns ns') (budget : Nat) :
    (passages ns' budget).map joinBlocks = (passages ns budget).map joinBlocks := by
  obtain ⟨c, references, ks, up, up', hreads, hks, hks'⟩ := h
  have hall {up : Nat} {ns : List Node} (hsame : SameBelow up ks ns) :
      (passages ns budget).map joinBlocks = (passages ks budget).map joinBlocks :=
    map_eq_of_rel (passages_below hsame hreads.placed) fun _ _ => joinBlocks_same (keepsGaps_below up _)
  rw [hall hks, hall hks']

end Spoken

namespace Player
open Markup
open Spoken (passages flatten? joinBlocks flatteningBudget)

variable {d t a b : Text} {tree : Node} {n : Narrated} {scope : Scope} {nodes above below : List Node}

theorem ne_listItem_of_read (hr : '\r' ∉ t) (h : Tree.read t = .ok tree) : ∀ n ∈ tree.children, n.kind ≠ .listItem := by
  obtain ⟨f, r, front, ht, hf, -⟩ := Tree.exists_front hr
  obtain ⟨ns, hns, rfl⟩ := (Tree.read_eq_ok ht hf).1 h
  intro n hn
  rcases List.mem_append.1 hn with hn | hn
  · have := (leaf_frontNodes hn).2
    rintro hkind
    rw [hkind] at this
    cases this
  · exact hns.forall_mem (fun s node stop _ hnext => (Block.next_made hnext).ne_listItem) n hn

/-- A narration block leaves what is narrated as it is. -/
theorem flatten?_carries (h : Carries nodes n a b scope above below) (hitem : ∀ n ∈ nodes, n.kind ≠ .listItem) (stop : Nat) :
    flatten? (scope.node .root 0 stop (withBlock scope a.length n above below)) =
      (passages nodes flatteningBudget).map joinBlocks := by
  have hopening {q : Node} (hq : q ∈ opening nodes) : Spoken.blockText q flatteningBudget = some [] :=
    Spoken.blockText_of_not_isContent (isContent_of_mem_opening hq) (hitem q ((List.takeWhile_sublist _).subset hq)) _
  have habove (q : Node) (hq : q ∈ above ++ blockNodes scope a.length n) : Spoken.blockText q flatteningBudget = some [] := by
    refine Spoken.blockText_of_leaf ?_
    rcases List.mem_append.1 hq with hq | hq
    · exact (h.leaf q hq).1
    · rcases List.mem_cons.1 hq with rfl | hq
      · rfl
      · rw [List.mem_singleton.1 hq]
        rfl
  obtain ⟨qs, hqs, halike⟩ := h.below
  change (passages (withBlock scope a.length n above below) flatteningBudget).map joinBlocks = _
  rw [withBlock, ← List.append_assoc, Spoken.map_passages_silent habove, Spoken.map_passages_alike halike,
    Spoken.map_passages_silent fun q hq => hopening (hqs q hq)]
  have hbody := Spoken.map_passages_silent (fun q hq => hopening hq) (body nodes)
  rw [append_body] at hbody
  exact hbody.symm

/-- Injection into a document that narration can enter leaves what is narrated as it is. -/
theorem extract_inject (h : Fresh (Text.crlfToLf d) tree n.name) (hn : Writable n) (hflat : (flatten? tree).isSome) :
    ∃ t, inject d n = pure (t, .inserted) ∧ Spoken.extract t = Spoken.extract d := by
  obtain ⟨a, b, hall⟩ := exists_inject h hn.name hn.path
  obtain ⟨⟨scope, above, below, hcarries⟩, hinject⟩ := hall n hn rfl rfl
  refine ⟨_, hinject, ?_⟩
  obtain ⟨text, htext⟩ := Option.isSome_iff_exists.1 hflat
  have hsame (stop : Nat) : flatten? (scope.node .root 0 stop (withBlock scope a.length n above below)) = flatten? tree :=
    flatten?_carries hcarries (ne_listItem_of_read h.carriage h.read) stop
  simp only [Spoken.extract, hcarries.parse_eq (crlfToLf_written d hcarries.carriage), Tree.parse_eq h.read, pure_bind,
    hsame, htext]

theorem extract_inject_guidePage : ∃ tree t, Fresh (Text.crlfToLf guidePage) tree defaultName ∧
    inject guidePage narratedByAda = pure (t, .inserted) ∧ Spoken.extract t = Spoken.extract guidePage := by
  obtain ⟨tree, h⟩ := exists_fresh_guidePage
  have hflat : (Tree.read (Text.crlfToLf guidePage)).toOption.any fun tree => (flatten? tree).isSome := by decide +kernel
  obtain ⟨tree', hread, hflat⟩ := Fallible.exists_of_any hflat
  obtain rfl : tree' = tree := Except.ok.inj (hread.symm.trans h.read)
  obtain ⟨t, ht⟩ := extract_inject h writable_narratedByAda hflat
  exact ⟨tree', t, h, ht⟩

/-- Below content the import can end up inside a tag, whose open quote its own quotes close. The tag then goes unnarrated. -/
theorem extract_inject_openQuotePage :
    ((Tree.read openQuotePage).toOption.any fun tree => (uses tree defaultName).isEmpty && (stamps tree).isEmpty) ∧
    (Spoken.extract openQuotePage).outcome.1.toOption = some "Text\n\n<Y a='\n\nit's> foo  bar".toList ∧
    ((inject openQuotePage narratedByAda).outcome.1.toOption.bind fun r => (Spoken.extract r.1).outcome.1.toOption) =
      some "Text\n\nit's> foo  bar".toList := by decide +kernel

end Player
end Narration
