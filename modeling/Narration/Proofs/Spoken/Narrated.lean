import Narration.Proofs.Markup.Placed
import Narration.Spoken

/-!
# What is narrated of the same nodes in two texts

* `Spoken.inlineTexts_outlineAll`, `Spoken.tableText_outlineAll` : inline content and tables;
* `Spoken.KeepsGaps` : blocks that stand for each other are set off alike;
* `Spoken.joinBlocks_same` : passages of such blocks are joined alike;
* `Spoken.Retold`, `Spoken.joinBlocks_retold` : blocks that are narrated as others;
* `Spoken.Looks`, `Spoken.passages_same` : blocks that look the same are narrated alike.
-/

namespace Narration.Spoken
open Markup
open Node (outline outlineAll)

variable {R : Position → Position → Prop} {P : Position → Prop} {v : Position.Views} {bound : Nat} {p p' : Position}
  {ps ps' : List Passage}

/-! ## Inline content and tables -/

mutual

theorem inlineText_outline (view : Position → Position) : (n : Node) → inlineText (n.outline view) = inlineText n
  | .mk kind children position => by
    have hchildren := inlineTexts_outlineAll view children
    cases kind <;> simp only [outline, Kind.bare, inlineText, hchildren]

theorem inlineTexts_outlineAll (view : Position → Position) : (ns : List Node) → inlineTexts (outlineAll view ns) = inlineTexts ns
  | [] => rfl
  | n :: ns => by rw [outlineAll, inlineTexts, inlineTexts, inlineText_outline view n, inlineTexts_outlineAll view ns]

end

theorem children_outline (view : Position → Position) (n : Node) : (n.outline view).children = outlineAll view n.children := by
  cases n
  rfl

theorem rowText_outline (view : Position → Position) (row : Node) : rowText (row.outline view) = rowText row := by
  have hcells : (row.outline view).children.map (fun cell => Text.trim (inlineTexts cell.children)) =
      row.children.map fun cell => Text.trim (inlineTexts cell.children) := by
    rw [children_outline, Node.outlineAll_eq_map, List.map_map]
    refine List.map_congr_left fun cell _ => ?_
    rw [Function.comp_apply, children_outline, inlineTexts_outlineAll]
  rw [rowText, rowText, hcells]

theorem tableText_outlineAll (view : Position → Position) (rows : List Node) : tableText (outlineAll view rows) = tableText rows := by
  have hrows : (outlineAll view rows).map rowText = rows.map rowText := by
    rw [Node.outlineAll_eq_map, List.map_map]
    exact List.map_congr_left fun row _ => rowText_outline view row
  rw [tableText, tableText, hrows]

/-! ## Blocks -/

/-- A blank line stands between two blocks of a text when one does between those that they stand for. -/
def KeepsGaps (R : Position → Position → Prop) : Prop :=
  ∀ p p' q q' : Position, R p p' → R q q' → gapBetween (some p') (some q') = gapBetween (some p) (some q)

/-- Places that look the same, the first of which has lines of its own. -/
def Looks (v : Position.Views) (bound : Nat) (p p' : Position) : Prop := p.Single bound ∧ v.there p' = v.here p

/-- Blank lines stand where they do further up. -/
theorem keepsGaps_below (up bound : Nat) : KeepsGaps (Looks (.below up) bound) := by
  rintro p p' q q' ⟨hp, hpp⟩ ⟨hq, hqq⟩
  have hp' := hp.below hpp
  have hq' := hq.below hqq
  simp only [gapBetween, hp'.2, hq'.1, decide_eq_decide]
  omega

/-- A passage, and one with the same text whose place, unless there is no text, stands for its own. -/
def PassageSame (R : Position → Position → Prop) (x y : Passage) : Prop :=
  y.1 = x.1 ∧ (x.1 ≠ [] → ∃ p p', x.2 = some p ∧ y.2 = some p' ∧ R p p')

theorem joinAfter_same (hR : KeepsGaps R) (hp : R p p') (h : List.Forall₂ (PassageSame R) ps ps') (hne : ∀ x ∈ ps, x.1 ≠ []) :
    joinAfter (some p') ps' = joinAfter (some p) ps := by
  induction h generalizing p p' with
  | nil => rfl
  | @cons x y _ _ hxy _ ih =>
    obtain ⟨hx, hrestNe⟩ := List.forall_mem_cons.1 hne
    obtain ⟨text, position⟩ := x
    obtain ⟨text', position'⟩ := y
    obtain ⟨htext, hplace⟩ := hxy
    obtain ⟨q, q', hposition, hposition', hq⟩ := hplace hx
    dsimp only at htext hposition hposition'
    subst htext hposition hposition'
    rw [joinAfter, joinAfter, hR p p' q q' hp hq, ih hq hrestNe]

theorem filter_same (h : List.Forall₂ (PassageSame R) ps ps') :
    List.Forall₂ (PassageSame R) (ps.filter (!·.1.isEmpty)) (ps'.filter (!·.1.isEmpty)) := by
  induction h with
  | nil => exact .nil
  | @cons x y _ _ hxy _ ih =>
    rw [List.filter_cons, List.filter_cons, hxy.1]
    split
    · exact .cons hxy ih
    · exact ih

/-- Passages that stand for each other are joined alike. -/
theorem joinBlocks_same (hR : KeepsGaps R) (h : List.Forall₂ (PassageSame R) ps ps') : joinBlocks ps' = joinBlocks ps := by
  have hfilter := filter_same h
  have hne : ∀ x ∈ ps.filter (!·.1.isEmpty), x.1 ≠ [] := fun x hx => by simpa using (List.mem_filter.1 hx).2
  rw [joinBlocks, joinBlocks]
  generalize ps.filter (!·.1.isEmpty) = qs at hfilter hne
  generalize ps'.filter (!·.1.isEmpty) = qs' at hfilter
  cases hfilter with
  | nil => rfl
  | @cons x y _ _ hxy hrest =>
    obtain ⟨hx, hrestNe⟩ := List.forall_mem_cons.1 hne
    obtain ⟨text, position⟩ := x
    obtain ⟨text', position'⟩ := y
    obtain ⟨htext, hplace⟩ := hxy
    obtain ⟨q, q', hposition, hposition', hq⟩ := hplace hx
    dsimp only at htext hposition hposition'
    subst htext hposition hposition'
    dsimp only
    rw [joinAfter_same hR hq hrest hrestNe]

theorem map_eq_of_rel {α β : Type} {R : α → α → Prop} {o o' : Option α} {f : α → β} (h : Option.Rel R o o')
    (hf : ∀ a b, R a b → f b = f a) : o'.map f = o.map f := by
  cases h with
  | none => rfl
  | some hab => rw [Option.map_some, Option.map_some, hf _ _ hab]

theorem texts_same (h : List.Forall₂ (PassageSame R) ps ps') : ps'.map (·.1) = ps.map (·.1) := by
  induction h with
  | nil => rfl
  | cons hxy _ ih => rw [List.map_cons, List.map_cons, ih, hxy.1]

theorem blockText_bare (kind : Kind) (children : List Node) (position position' : Option Position) (budget : Nat) :
    blockText (.mk kind.bare children position) budget = blockText (.mk kind children position') budget := by
  cases kind <;> simp only [Kind.bare, blockText]

/-- A block is narrated as one of its kind whose children are. -/
theorem blockText_of_children (hR : KeepsGaps R) {kind : Kind} {children children' : List Node} {budget : Nat}
    (hinline : inlineTexts children' = inlineTexts children) (htable : tableText children' = tableText children)
    (hblocks : kind.holdsBlocks → Option.Rel (List.Forall₂ (PassageSame R)) (passages children (budget - 2))
      (passages children' (budget - 2))) (position position' : Option Position) :
    blockText (.mk kind children' position') budget = blockText (.mk kind children position) budget := by
  cases kind with
  | heading | paragraph => simp only [blockText, hinline]
  | table => simp only [blockText, htable]
  | list =>
    have hlines := map_eq_of_rel (f := fun ps => Text.unlines ((ps.map (·.1)).filter (!List.isEmpty ·))) (hblocks rfl)
      fun _ _ h => by rw [texts_same h]
    simp only [blockText, hlines]
  | listItem | quote =>
    have hjoined := map_eq_of_rel (hblocks rfl) fun _ _ => joinBlocks_same hR
    simp only [blockText, hjoined]
  | _ => simp only [blockText]

/-- A block that is narrated as another, and whose place, unless nothing is narrated, stands for that of the other. -/
structure Retold (R : Position → Position → Prop) (budget : Nat) (k n : Node) : Prop where
  text : blockText n budget = blockText k budget
  place : blockText k budget ≠ some [] → ∃ p p', k.position = some p ∧ n.position = some p' ∧ R p p'

theorem retold_of_silent {k n : Node} {budget : Nat} (hk : blockText k budget = some []) (hn : blockText n budget = some []) :
    Retold R budget k n := ⟨hn.trans hk.symm, fun hne => absurd hk hne⟩

/-- A block in front of others, narrated as one in front of others that are. -/
theorem passages_cons {k n : Node} {ks ns : List Node} {budget : Nat} (h : Retold R budget k n)
    (hrest : Option.Rel (List.Forall₂ (PassageSame R)) (passages ks budget) (passages ns budget)) :
    Option.Rel (List.Forall₂ (PassageSame R)) (passages (k :: ks) budget) (passages (n :: ns) budget) := by
  rw [passages, passages, h.text]
  cases htext : blockText k budget with
  | none => exact .none
  | some text =>
    generalize passages ks budget = o at hrest ⊢
    generalize passages ns budget = o' at hrest ⊢
    cases hrest with
    | none => exact .none
    | some hps => exact .some (.cons ⟨rfl, fun hne => h.place (by simpa [htext] using hne)⟩ hps)

/-- Blocks that are narrated as others are narrated together as they are. -/
theorem joinBlocks_retold (hR : KeepsGaps R) {ks ns : List Node} {budget : Nat} (h : List.Forall₂ (Retold R budget) ks ns) :
    (passages ns budget).map joinBlocks = (passages ks budget).map joinBlocks := by
  refine map_eq_of_rel (R := List.Forall₂ (PassageSame R)) ?_ fun _ _ => joinBlocks_same hR
  induction h with
  | nil => exact .some .nil
  | cons hkn _ ih => exact passages_cons hkn ih

/-- A block whose place has a property, as have the places of all blocks in it. -/
inductive Throughout (P : Position → Prop) : Node → Prop
  | mk {kind : Kind} {children : List Node} {p : Position} (hp : P p)
      (h : kind.holdsBlocks → ∀ c ∈ children, Throughout P c) : Throughout P (.mk kind children (some p))

theorem throughout_of_placed {n : Node} (h : Placed bound n) : Throughout (Position.Single bound) n := by
  induction h with
  | mk hp _ ih => exact .mk hp ih

theorem exists_position (hlooks : ∀ p p', P p → v.there p' = v.here p → R p p') {k n : Node}
    (h : n.outline v.there = k.outline v.here) (hk : Throughout P k) :
    ∃ p p', k.position = some p ∧ n.position = some p' ∧ R p p' := by
  cases hk with
  | @mk kind children p hp _ =>
    cases n with
    | mk kind' children' position' =>
      simp only [outline, Node.mk.injEq, Option.map_some, Option.map_eq_some_iff] at h
      obtain ⟨-, -, p', rfl, hview⟩ := h
      exact ⟨p, p', rfl, rfl, hlooks p p' hp hview⟩

mutual

/-- A block is narrated as one that looks the same. -/
theorem blockText_same (hR : KeepsGaps R) (hlooks : ∀ p p', P p → v.there p' = v.here p → R p p') (budget : Nat) : (k n : Node) → n.outline v.there = k.outline v.here → Throughout P k →
    blockText n budget = blockText k budget
  | .mk kind children position, .mk kind' children' position', h, hk => by
    simp only [outline, Node.mk.injEq] at h
    obtain ⟨hkind, hchildren, -⟩ := h
    rw [← blockText_bare kind' children' position' position', hkind, blockText_bare kind children' position' position]
    have hthroughout : kind.holdsBlocks → ∀ c ∈ children, Throughout P c := by
      cases hk with
      | mk _ h => exact h
    have hinline : inlineTexts children' = inlineTexts children := by
      rw [← inlineTexts_outlineAll v.there, hchildren, inlineTexts_outlineAll]
    have htable : tableText children' = tableText children := by
      rw [← tableText_outlineAll v.there, hchildren, tableText_outlineAll]
    exact blockText_of_children hR hinline htable
      (fun hholds => passages_same hR hlooks (budget - 2) children children' hchildren (hthroughout hholds)) _ _

/-- Blocks are narrated as those that look the same. -/
theorem passages_same (hR : KeepsGaps R) (hlooks : ∀ p p', P p → v.there p' = v.here p → R p p') (budget : Nat) :
    (ks ns : List Node) → Same v ks ns → (∀ k ∈ ks, Throughout P k) →
    Option.Rel (List.Forall₂ (PassageSame R)) (passages ks budget) (passages ns budget)
  | [], [], _, _ => .some .nil
  | [], _ :: _, h, _ => nomatch h
  | _ :: _, [], h, _ => nomatch h
  | k :: ks, n :: ns, h, hthroughout => by
    simp only [Same, outlineAll, List.cons.injEq] at h
    rw [List.forall_mem_cons] at hthroughout
    exact passages_cons ⟨blockText_same hR hlooks budget k n h.1 hthroughout.1, fun _ => exists_position hlooks h.1 hthroughout.1⟩
      (passages_same hR hlooks budget ks ns h.2 hthroughout.2)

end

/-- Blocks further down are narrated as those of the text on its own. -/
theorem passages_below {up budget : Nat} {ks ns : List Node} (h : Same (.below up) ks ns) (hplaced : ∀ k ∈ ks, Placed bound k) :
    Option.Rel (List.Forall₂ (PassageSame (Looks (.below up) bound))) (passages ks budget) (passages ns budget) :=
  passages_same (keepsGaps_below up bound) (fun _ _ hp hview => ⟨hp, hview⟩) budget ks ns h
    fun k hk => throughout_of_placed (hplaced k hk)

end Narration.Spoken
