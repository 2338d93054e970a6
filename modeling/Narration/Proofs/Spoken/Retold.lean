import Narration.Proofs.Markup.Steady
import Narration.Proofs.Player.Extracted
import Narration.Proofs.Spoken.Lined

/-!
# What is narrated above and below lines that differ

Reading leads from the front of a text, past some blocks, to another block. Two texts are the same but for some lines. Blocks
above these keep their lines, and blocks below are moved as a whole.

* `Position.Views.within`, `Scope.seen_within`, `Scope.seen_append` : positions within some characters look the same in texts that
  begin with these;
* `Block.Leads` : from one stretch to another, past some blocks;
* `Block.Reads.leads` : reading leads to each of the blocks;
* `Spoken.Apart`, `Spoken.keepsGaps_apart` : places above the lines that differ, or below them;
* `Spoken.retold_above`, `Spoken.retold_below` : blocks above and below;
* `Markup.Block.Leads.exists_same` : the blocks above an exchange;
* `Markup.Block.next_retold`, `Markup.Block.Leads.exists_retold` : what is narrated of the next block above it, and of all of
  them;
* `Markup.Block.Reads.exists_retold` : the blocks of a text that stands in two others;
* `Spoken.extract_retold` : documents whose blocks are narrated alike.
-/

/-! ## From one block to another -/

namespace Narration

/-- The lines of a position that stands in its content once, within some characters. -/
def Position.shown (bound : Nat) (p : Position) : Position :=
  if p.copies = 1 ∧ p.start ≤ bound ∧ p.stop ≤ bound then ⟨p.startLine, p.endLine, 0, 0, 1⟩ else ⟨0, 0, 0, 0, p.copies⟩

theorem Position.copies_shown (bound : Nat) (p : Position) : (p.shown bound).copies = p.copies := by
  unfold shown
  split
  · next h => exact h.1.symm
  · rfl

theorem Position.shown_of_ne {bound : Nat} {p : Position} (h : p.copies ≠ 1) : p.shown bound = ⟨0, 0, 0, 0, p.copies⟩ :=
  if_neg fun hone => h hone.1

/-- The lines within some characters. -/
def Position.Views.within (bound : Nat) : Position.Views where
  here := Position.shown bound
  there := Position.shown bound
  repeated k p p' h := by
    have hcopies : p'.copies = p.copies := by rw [← Position.copies_shown bound p', h, Position.copies_shown]
    by_cases hone : k * p.copies = 1
    · obtain rfl := Nat.eq_one_of_mul_eq_one_right hone
      rwa [Nat.one_mul, Nat.one_mul]
    · rw [hcopies, Position.shown_of_ne hone, Position.shown_of_ne hone]
  several p p' hcopies hp := by rw [Position.shown_of_ne hp, Position.shown_of_ne (hcopies ▸ hp), hcopies]

/-- Positions look the same in scopes that count lines alike within these characters. -/
theorem Markup.Scope.seen_within {scope scope' : Scope} {bound : Nat} (hreferences : scope'.references = scope.references)
    (hlines : ∀ o ≤ bound, scope'.lineOf o = scope.lineOf o) : Seen scope scope' 0 (.within bound) := by
  refine ⟨hreferences, fun first stop => ?_⟩
  simp only [Position.Views.within, Position.shown, position, Nat.add_zero]
  by_cases hwithin : first ≤ bound ∧ stop ≤ bound
  · rw [hlines first hwithin.1, hlines (max first (stop - 1)) (by omega)]
  · rw [if_neg fun h => hwithin h.2, if_neg fun h => hwithin h.2]

/-- Texts that begin alike count the lines of their common characters alike. -/
theorem Markup.Scope.seen_append (u x y : Text) (references : List Reference) :
    Seen (ofText (u ++ x) references) (ofText (u ++ y) references) 0 (.within u.length) := by
  refine seen_within rfl fun o ho => ?_
  have hline (z : Text) : (ofText (u ++ z) references).lineOf o = 1 + (u.take o).count '\n' := by
    rw [lineOf_eq (by rw [List.length_append]; omega), List.take_append_of_le_length ho]
  rw [hline, hline]

namespace Markup.Block
open Fallible

variable {scope : Scope} {inner : Inner} {s s₁ : Stretch} {ns ms : List Node}

/-- Reading leads from one stretch to another, past some blocks. -/
inductive Leads (scope : Scope) (inner : Inner) : Stretch → List Node → Stretch → Prop
  | nil (s : Stretch) : Leads scope inner s [] s
  | blank {s s₁ : Stretch} {ns : List Node} (hs : s.chars ≠ []) (hblank : s.lineBlank) (h : Leads scope inner s.afterLine ns s₁) :
      Leads scope inner s ns s₁
  | block {s s₁ : Stretch} {node : Node} {stop : Nat} {ns : List Node} (hblank : s.lineBlank = false)
      (hstranded : ¬Stranded s.line.chars) (hnext : next scope inner true s = .ok (node, stop))
      (h : Leads scope inner (s.since stop) ns s₁) : Leads scope inner s (node :: ns) s₁

/-- What follows a block begins where reading goes on. -/
theorem start_since_next {node : Node} {stop : Nat} (hblank : s.lineBlank = false) (hstranded : ¬Stranded s.line.chars)
    (hnext : next scope inner true s = .ok (node, stop)) : s.start < stop ∧ (s.since stop).start = stop := by
  have hlt := start_lt_next (Stretch.ne_nil_of_not_blank hblank) hblank hstranded hnext
  exact ⟨hlt, s.start_since (Nat.le_of_lt hlt) (next_le hnext)⟩

namespace Leads

theorem exists_append_of_drop {n : Nat} (h : ∃ u, (s.drop n).chars = u ++ s₁.chars ∧ s₁.start = (s.drop n).start + u.length) :
    ∃ u, s.chars = u ++ s₁.chars ∧ s₁.start = s.start + u.length := by
  obtain ⟨u, hu, hstart⟩ := h
  have hchars : s.chars = s.chars.take n ++ (s.drop n).chars := (List.take_append_drop n s.chars).symm
  refine ⟨s.chars.take n ++ u, hchars.trans (by rw [hu, List.append_assoc]), ?_⟩
  rw [hstart, Stretch.start_drop, List.length_append, List.length_take, Nat.add_assoc]

/-- Reading leads to a part of a text. -/
theorem exists_append (h : Leads scope inner s ns s₁) : ∃ u, s.chars = u ++ s₁.chars ∧ s₁.start = s.start + u.length := by
  induction h with
  | nil => exact ⟨[], rfl, rfl⟩
  | blank _ _ _ ih => exact exists_append_of_drop ih
  | block _ _ _ _ ih => exact exists_append_of_drop ih

theorem start_le (h : Leads scope inner s ns s₁) : s.start ≤ s₁.start := by
  induction h with
  | nil => exact Nat.le_refl _
  | blank _ _ _ ih => exact (Stretch.start_le_afterLine _).trans ih
  | block hblank hstranded hnext _ ih =>
    obtain ⟨hlt, hstart⟩ := start_since_next hblank hstranded hnext
    rw [hstart] at ih
    exact (Nat.le_of_lt hlt).trans ih

theorem reads (h : Leads scope inner s ns s₁) (hms : Reads scope inner true s₁ ms) : Reads scope inner true s (ns ++ ms) := by
  induction h with
  | nil => exact hms
  | blank hs hblank _ ih => exact (reads_blank hs hblank).2 (ih hms)
  | block hblank _ hnext _ ih =>
    exact (reads_block (Stretch.ne_nil_of_not_blank hblank) hblank).2 ⟨_, _, _, hnext, ih hms, rfl⟩

theorem lined {budget : Nat} (h : Leads scope (innerOf budget scope) s ns s₁) : ∀ n ∈ ns, Lined scope s₁.start n := by
  induction h with
  | nil => exact fun n hn => absurd hn List.not_mem_nil
  | blank _ _ _ ih => exact ih
  | block hblank hstranded hnext h ih =>
    have hle := h.start_le
    rw [(start_since_next hblank hstranded hnext).2] at hle
    exact List.forall_mem_cons.2 ⟨(next_lined (Stretch.ne_nil_of_not_blank hblank) hblank hstranded hnext).mono hle, ih⟩

end Leads

/-- Reading leads to each of the blocks. -/
theorem Reads.leads {node : Node} (h : Reads scope inner true s (ns ++ node :: ms)) :
    ∃ s₁ stop, Leads scope inner s ns s₁ ∧ s₁.lineBlank = false ∧ next scope inner true s₁ = .ok (node, stop) ∧
      Reads scope inner true (s₁.since stop) ms := by
  induction hn : s.chars.length using Nat.strongRecOn generalizing s ns with
  | _ n ih =>
    subst hn
    by_cases hs : s.chars = []
    · have hnil := (reads_nil hs).1 h
      cases ns <;> cases hnil
    · have hpos := List.length_pos_iff.2 hs
      cases hblank : s.lineBlank with
      | true =>
        have hle := s.length_afterLine_le
        obtain ⟨s₁, stop, hleads, hrest⟩ := ih _ (by omega) ((reads_blank hs hblank).1 h) rfl
        exact ⟨s₁, stop, .blank hs hblank hleads, hrest⟩
      | false =>
        have hstranded := h.not_stranded
        obtain ⟨first, stop, rest, hnext, hrest, heq⟩ := (reads_block hs hblank).1 h
        cases ns with
        | nil =>
          cases heq
          exact ⟨s, stop, .nil s, hblank, hnext, hrest⟩
        | cons k ns =>
          obtain ⟨rfl, rfl⟩ := List.cons.inj heq
          have hlt := start_lt_next hs hblank hstranded hnext
          have hlength : (s.since stop).chars.length < s.chars.length := by
            rw [Stretch.chars_since, List.length_drop]
            omega
          obtain ⟨s₁, last, hleads, hafter⟩ := ih _ hlength hrest rfl
          exact ⟨s₁, last, .block hblank hstranded hnext hleads, hafter⟩

/-- A block that is read from a stretch begins no earlier than the stretch. -/
theorem Reads.start_le {node : Node} {o : Nat} (h : Reads scope inner true s (ns ++ node :: ms))
    (ho : ∃ p ∈ node.position, p.start = o) : s.start ≤ o := by
  obtain ⟨s₁, stop, hleads, -, hnext, -⟩ := h.leads
  obtain ⟨kind, first, last, children, rfl, hfirst, -⟩ := next_made hnext
  obtain ⟨p, hp, rfl⟩ := ho
  cases hp
  exact hleads.start_le.trans hfirst.1

end Markup.Block
end Narration

/-! ## Above and below -/

namespace Narration
open Markup

/-- A position that stands in its content once, within some characters. -/
structure Position.Inside (bound : Nat) (p : Position) : Prop extends p.Single bound where
  ordered : p.startLine ≤ p.endLine
  stop_le : p.stop ≤ bound

theorem Markup.Scope.startLine_le_endLine (scope : Scope) (first stop : Nat) :
    (scope.position first stop).startLine ≤ (scope.position first stop).endLine := scope.lineOf_mono (Nat.le_max_left _ _)

theorem Lined.throughout {scope : Scope} {bound : Nat} {n : Node} (h : Lined scope bound n) (hscope : ∀ o, 1 ≤ scope.lineOf o) :
    Spoken.Throughout (Position.Inside bound) n := by
  induction h with
  | node hfirst hstop _ ih => exact .mk ⟨⟨rfl, hscope _, hscope _, hfirst⟩, scope.startLine_le_endLine _ _, hstop⟩ ih

theorem Lined.endLine_le {scope : Scope} {bound : Nat} {n : Node} (h : Lined scope bound n) :
    ∀ p ∈ n.position, p.endLine ≤ scope.lineOf bound := by
  cases h with
  | @node kind first stop children hfirst hstop _ =>
    intro p hp
    cases hp
    exact scope.lineOf_mono (Nat.max_le.2 ⟨hfirst, (Nat.sub_le stop 1).trans hstop⟩)

namespace Spoken
open Node (outline outlineAll)

variable {scope : Scope} {bound first last last' up up' budget : Nat} {k n n' : Node} {p p' : Position}

/-- Places in two texts that differ from the line `first` up to the line `last`, or `last'`: on the same line above these, or
as many lines below them. -/
def Apart (first last last' : Nat) (p p' : Position) : Prop :=
  p.startLine ≤ p.endLine ∧ (p.endLine < first ∧ p'.startLine = p.startLine ∧ p'.endLine = p.endLine ∨
    last < p.startLine ∧ p'.startLine + last = p.startLine + last' ∧ p'.endLine + last = p.endLine + last')

theorem keepsGaps_apart (h : first ≤ last) (h' : first ≤ last') : KeepsGaps (Apart first last last') := by
  rintro p p' q q' ⟨hp, hpp⟩ ⟨hq, hqq⟩
  simp only [gapBetween, decide_eq_decide]
  omega

/-- A block is narrated as one that looks the same, so many lines further down. -/
theorem exists_lines {v : Position.Views} (up : Nat) (hlines : ∀ p p' : Position, p.Inside bound → v.there p' = v.here p →
      p'.startLine = p.startLine + up ∧ p'.endLine = p.endLine + up) (h : Lined scope bound k) (hscope : ∀ o, 1 ≤ scope.lineOf o)
    (hsame : n.outline v.there = k.outline v.here) (budget : Nat) : blockText n budget = blockText k budget ∧
      ∃ p p', k.position = some p ∧ n.position = some p' ∧ p.Inside bound ∧ p'.startLine = p.startLine + up ∧
        p'.endLine = p.endLine + up := by
  have hgaps : KeepsGaps fun p p' : Position =>
      p.Inside bound ∧ p'.startLine = p.startLine + up ∧ p'.endLine = p.endLine + up := by
    rintro p p' q q' ⟨-, -, hp⟩ ⟨-, hq, -⟩
    simp only [gapBetween, hp, hq, decide_eq_decide]
    omega
  have hlooks (p p' : Position) (hp : p.Inside bound) (hview : v.there p' = v.here p) :
      p.Inside bound ∧ p'.startLine = p.startLine + up ∧ p'.endLine = p.endLine + up := ⟨hp, hlines p p' hp hview⟩
  have hthroughout := h.throughout hscope
  exact ⟨blockText_same hgaps hlooks budget k n hsame hthroughout, exists_position hlooks hsame hthroughout⟩

theorem lines_of_shown (h : p.Inside bound) (hshown : p'.shown bound = p.shown bound) :
    p'.startLine = p.startLine ∧ p'.endLine = p.endLine := by
  have hpos := h.startLine
  have hhere : p.shown bound = ⟨p.startLine, p.endLine, 0, 0, 1⟩ := if_pos ⟨h.copies, h.start_le, h.stop_le⟩
  rw [hhere, Position.shown] at hshown
  split at hshown
  · simp only [Position.mk.injEq] at hshown
    exact ⟨hshown.1, hshown.2.1⟩
  · simp only [Position.mk.injEq] at hshown
    omega

/-- A block above the lines that differ is narrated as before. -/
theorem retold_above (h : Lined scope bound k) (hscope : ∀ o, 1 ≤ scope.lineOf o)
    (hsame : n.outline (Position.Views.within bound).there = k.outline (Position.Views.within bound).here)
    (hend : ∀ p ∈ k.position, p.endLine < first) : Retold (Apart first last last') budget k n := by
  obtain ⟨htext, p, p', hp, hp', hinside, hlines⟩ := exists_lines 0 (fun _ _ hp => lines_of_shown hp) h hscope hsame budget
  exact ⟨htext, fun _ => ⟨p, p', hp, hp', hinside.ordered, .inl ⟨hend p hp, hlines⟩⟩⟩

theorem all_retold_above {ns ns' : List Node} (h : ∀ k ∈ ns, Lined scope bound k) (hscope : ∀ o, 1 ≤ scope.lineOf o)
    (hsame : Same (.within bound) ns ns') (hline : scope.lineOf bound < first) :
    List.Forall₂ (Retold (Apart first last last') budget) ns ns' := by
  induction ns generalizing ns' with
  | nil =>
    cases ns' with
    | nil => exact .nil
    | cons => cases hsame
  | cons k ns ih =>
    cases ns' with
    | nil => cases hsame
    | cons n ns' =>
      simp only [Same, outlineAll, List.cons.injEq] at hsame
      rw [List.forall_mem_cons] at h
      exact .cons (retold_above h.1 hscope hsame.1 fun p hp => (h.1.endLine_le p hp).trans_lt hline) (ih h.2 hsame.2)

/-- A block of a text that stands in two others is narrated alike in both. -/
theorem retold_below (h : Lined scope bound k) (hscope : ∀ o, 1 ≤ scope.lineOf o)
    (hsame : n.outline (Position.Views.below up).there = k.outline (Position.Views.below up).here)
    (hsame' : n'.outline (Position.Views.below up').there = k.outline (Position.Views.below up').here) :
    Retold (Apart first up up') budget n n' := by
  obtain ⟨htext, p, q, hp, hq, hinside, hlines⟩ := exists_lines _ (fun _ _ hp => hp.toSingle.below) h hscope hsame budget
  obtain ⟨htext', p', q', hp', hq', -, hlines'⟩ := exists_lines _ (fun _ _ hp => hp.toSingle.below) h hscope hsame' budget
  cases hp.symm.trans hp'
  have hpos := hinside.startLine
  have hordered := hinside.ordered
  refine ⟨htext'.trans htext.symm, fun _ => ⟨q, q', hq, hq', ?_, .inr ⟨?_, ?_, ?_⟩⟩⟩
  all_goals omega

theorem all_retold_below {ks ns ns' : List Node} (h : ∀ k ∈ ks, Lined scope bound k) (hscope : ∀ o, 1 ≤ scope.lineOf o)
    (hsame : SameBelow up ks ns) (hsame' : SameBelow up' ks ns') :
    List.Forall₂ (Retold (Apart first up up') budget) ns ns' := by
  induction ks generalizing ns ns' with
  | nil =>
    cases ns with
    | nil =>
      cases ns' with
      | nil => exact .nil
      | cons => cases hsame'
    | cons => cases hsame
  | cons k ks ih =>
    cases ns with
    | nil => cases hsame
    | cons n ns =>
      cases ns' with
      | nil => cases hsame'
      | cons n' ns' =>
        simp only [Same, outlineAll, List.cons.injEq] at hsame hsame'
        rw [List.forall_mem_cons] at h
        exact .cons (retold_below h.1 hscope hsame.1 hsame'.1) (ih h.2 hsame.2 hsame'.2)

end Spoken

namespace Markup.Block
open Fallible
open Spoken (Apart Retold retold_above retold_of_silent all_retold_above all_retold_below)

variable {X : Exchange} {scope scope' : Scope} {s s' s₁ : Stretch} {node : Node} {ns : List Node}
  {stop first last last' budget : Nat}

/-- Blocks of a text that stands in two others are narrated alike. -/
theorem Reads.exists_retold {u c : Text} {references : List Reference} (h : Reads (Scope.ofText (u ++ c) references)
    (innerOf 957 (Scope.ofText (u ++ c) references)) true ⟨u.length, c⟩ ns) (v : Text) (first budget : Nat) :
    ∃ ns', Reads (Scope.ofText (v ++ c) references) (innerOf 957 (Scope.ofText (v ++ c) references)) true ⟨v.length, c⟩ ns' ∧
      List.Forall₂ (Retold (Apart first (u.count '\n') (v.count '\n')) budget) ns ns' := by
  obtain ⟨ks, ns', hks, hns', hsame, hsame'⟩ := h.exists_same v
  exact ⟨ns', hns', all_retold_below hks.lined (Scope.one_le_lineOf c references) hsame hsame'⟩

theorem blockText_of_codeBlock {v : Position.Views} {info code : Text} {children : List Node} {position : Option Position}
    (h : node.outline v.there = (Node.mk (.codeBlock info code) children position).outline v.here) (budget : Nat) :
    Spoken.blockText node budget = some [] := by
  obtain ⟨kind, children', position'⟩ := node
  simp only [Node.outline, Node.mk.injEq] at h
  rw [← Spoken.blockText_bare kind children' position', h.1]
  rfl

section
variable (hX : X.Begins) (hsteady : Steady X scope (innerOf 957 scope)) (hseen : Scope.Seen scope scope' 0 (.within X.stop))
  (hscope : ∀ o, 1 ≤ scope.lineOf o)
include hX hsteady hseen hscope

/-- The next block above an exchange is narrated as before. Reading goes on at the same place, or is at its end. -/
theorem next_retold (h : X.Fork s s') (hblank : s.lineBlank = false) (hstranded : ¬Stranded s.line.chars)
    (hnext : next scope (innerOf 957 scope) true s = .ok (node, stop))
    (hstop : X.Gap ∧ (∀ p ∈ node.position, p.stop ≤ X.stop) ∨ stop ≤ X.stop) (hend : ∀ p ∈ node.position, p.endLine < first)
    (last last' budget : Nat) :
    ∃ node' stop', next scope' (innerOf 957 scope') true s' = .ok (node', stop') ∧
      Retold (Apart first last last') budget node node' ∧
      (stop' = stop ∧ stop ≤ X.stop ∨ X.old = [] ∧ stop = s.stop ∧ stop' = s'.stop) := by
  rcases next_fork hX hsteady h hblank hnext hstranded hstop with ⟨hsame, hle⟩ | ⟨hold, hends, info, code, code', start, rfl, hsame⟩
  · obtain ⟨⟨node', stop'⟩, hnext', houtline, hstop'⟩ :=
      (next_below s' hseen (innerOf_below hseen 957) true).exists_ok hsame
    have hlined := (next_lined (Stretch.ne_nil_of_not_blank hblank) hblank hstranded hnext).mono hle
    exact ⟨node', stop', hnext', retold_above hlined hscope houtline hend, .inl ⟨hstop', hle⟩⟩
  · obtain ⟨⟨node', stop'⟩, hnext', houtline, hstop'⟩ :=
      (next_below s' hseen (innerOf_below hseen 957) true).exists_ok hsame
    exact ⟨node', stop', hnext', retold_of_silent rfl (blockText_of_codeBlock houtline budget), .inr ⟨hold, hends, hstop'⟩⟩

omit hscope in
/-- The blocks above an exchange are the same as before. -/
theorem Leads.exists_same (h : Leads scope (innerOf 957 scope) s ns s₁) (hfork : X.Fork s s') (hold : X.old ≠ [])
    (hend : s₁.start ≤ X.stop) :
    ∃ ns' s₁', Leads scope' (innerOf 957 scope') s' ns' s₁' ∧ X.Fork s₁ s₁' ∧ Same (.within X.stop) ns ns' := by
  induction h generalizing s' with
  | nil => exact ⟨[], s', .nil s', hfork, .nil⟩
  | @blank s s₁ ns hs hblank h ih =>
    have hafter := h.start_le.trans hend
    obtain ⟨ns', s₁', hleads, hfork', hsame⟩ := ih (hfork.afterLine hX hs hafter) hend
    have hs' := hfork.ne_nil ((s.start_lt_afterLine hs).trans_le hafter)
    exact ⟨ns', s₁', .blank hs' ((hfork.lineBlank hX).trans hblank) hleads, hfork', hsame⟩
  | @block s s₁ node stop ns hblank hstranded hnext h ih =>
    obtain ⟨hlt, hstart⟩ := start_since_next hblank hstranded hnext
    have hle := h.start_le.trans hend
    rw [hstart] at hle
    obtain ⟨hkept, -⟩ := (next_fork hX hsteady hfork hblank hnext hstranded (.inr hle)).resolve_right fun hruns => hold hruns.1
    obtain ⟨⟨node', stop'⟩, hnext', hnode, rfl⟩ := (next_below s' hseen (innerOf_below hseen 957) true).exists_ok hkept
    obtain ⟨ns', s₁', hleads, hfork', hsame⟩ := ih (hfork.since (Nat.le_of_lt hlt) hle) hend
    have hstranded' : ¬Stranded s'.line.chars := mt (hfork.resembles hX).stranded hstranded
    exact ⟨node' :: ns', s₁', .block ((hfork.lineBlank hX).trans hblank) hstranded' hnext' hleads, hfork', .cons hnode hsame⟩

/-- The blocks above an exchange are narrated as before. -/
theorem Leads.exists_retold (h : Leads scope (innerOf 957 scope) s ns s₁) (hfork : X.Fork s s') (hold : X.old ≠ [])
    (hend : s₁.start ≤ X.stop) (hline : scope.lineOf X.stop < first) (last last' budget : Nat) :
    ∃ ns' s₁', Leads scope' (innerOf 957 scope') s' ns' s₁' ∧ X.Fork s₁ s₁' ∧
      List.Forall₂ (Retold (Apart first last last') budget) ns ns' := by
  obtain ⟨ns', s₁', hleads, hfork', hsame⟩ := h.exists_same hX hsteady hseen hfork hold hend
  exact ⟨ns', s₁', hleads, hfork', all_retold_above (fun n hn => (h.lined n hn).mono hend) hscope hsame hline⟩

end
end Markup.Block

namespace Spoken

/-- Documents with the same front matter whose blocks are narrated alike. -/
theorem extract_retold {R : Position → Position → Prop} {d d' f r' : Text} {front : Option Text} {tree : Node} {ns ns' : List Node}
    (hR : KeepsGaps R) (hr : '\r' ∉ d) (hr' : '\r' ∉ d') (ht' : d' = f ++ r') (hf' : Tree.HasFront d' f front)
    (hread : Tree.read d = .ok tree) (hflat : (flatten? tree).isSome) (hchildren : tree.children = Tree.frontNodes scope f front ++ ns)
    (hns' : Block.Reads (Scope.ofText d' (Reference.collect d')) (Block.innerOf 957 (Scope.ofText d' (Reference.collect d'))) true
      ⟨f.length, r'⟩ ns') (hretold : List.Forall₂ (Retold R flatteningBudget) ns ns') : extract d' = extract d := by
  have hread' := (Tree.read_eq_ok ht' hf').2 ⟨ns', hns', rfl⟩
  have hsilent (scope : Scope) : ∀ n ∈ Tree.frontNodes scope f front, blockText n flatteningBudget = some [] := by
    intro n hn
    obtain ⟨source, rfl⟩ := Tree.exists_of_mem_frontNodes hn
    rfl
  obtain ⟨text, htext⟩ := Option.isSome_iff_exists.1 hflat
  have hbody : (passages ns flatteningBudget).map joinBlocks = some text := by
    rw [← htext, flatten?, hchildren, map_passages_silent (hsilent _)]
  have htext' : (passages ns' flatteningBudget).map joinBlocks = some text := (joinBlocks_retold hR hretold).trans hbody
  rw [← map_passages_silent (hsilent (Scope.ofText d' (Reference.collect d')))] at htext'
  rw [extract_of_read hr hread htext, extract_of_read hr' hread' htext']

end Spoken
end Narration
