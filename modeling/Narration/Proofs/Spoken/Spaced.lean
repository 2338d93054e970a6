import Narration.Proofs.Markup.WidenFront
import Narration.Proofs.Spoken.Retold

/-!
# Blank lines between blocks

A gap between blocks may be wider by a line. No block is read differently, and those below stand one line further down.

* `Node.Spares` : a node does not stand on some line;
* `Markup.Block.Reads.exists_widen` : the blocks of a text with a wider gap;
* `Spoken.extract_widen`, `Spoken.extract_insertIdx` : what is narrated of it.
-/

namespace Narration
open Markup
open Text (EndsLine)

/-- A node does not stand on some line. -/
def Node.Spares (line : Nat) (n : Node) : Prop := ∀ p ∈ n.position, p.endLine < line ∨ line < p.startLine

instance (line : Nat) (n : Node) : Decidable (n.Spares line) :=
  inferInstanceAs (Decidable (∀ p ∈ n.position, p.endLine < line ∨ line < p.startLine))

/-- A node that begins above a line and does not stand on it ends above it. -/
theorem Node.Spares.above {u x : Text} {references : List Reference} {kind : Kind} {first stop : Nat} {children : List Node}
    (h : ((Scope.ofText (u ++ x) references).node kind first stop children).Spares (u.count '\n' + 1)) (hfirst : first ≤ u.length) :
    ((Scope.ofText (u ++ x) references).position first stop).endLine < u.count '\n' + 1 ∧ stop ≤ u.length := by
  have hline := Scope.lineOf_length u x references
  have hstart := (Scope.ofText (u ++ x) references).lineOf_mono hfirst
  have hend := (h _ rfl).resolve_right (Nat.not_lt.2 (hstart.trans_eq hline))
  refine ⟨hend, ?_⟩
  by_contra hlt
  have hmono := (Scope.ofText (u ++ x) references).lineOf_mono (show u.length ≤ max first (stop - 1) by omega)
  exact absurd (hend.trans_eq hline.symm) (Nat.not_lt.2 hmono)

namespace Markup.Block
open Fallible
open Spoken (Apart Retold)

variable {scope : Scope} {inner : Inner} {top : Bool} {a : Nat} {u w e : Text} {s s' : Stretch} {node : Node} {ns : List Node}
  {references : List Reference}

/-- A blank line at the front is passed over. -/
theorem reads_blankLine (hw : '\n' ∉ w) (hblank : Text.allBlank w) :
    Reads scope inner top ⟨a, w ++ '\n' :: e⟩ ns ↔ Reads scope inner top ⟨a + (w.length + 1), e⟩ ns := by
  rw [reads_blank (by simp) (by rw [lineBlank_mk, Text.firstLine, Text.takeWhile_line hw, hblank]), Stretch.afterLine_mk hw]

theorem reads_lastBlankLine (hw : '\n' ∉ w) (hblank : Text.allBlank w) : Reads scope inner top ⟨a, w⟩ ns ↔ ns = [] := by
  by_cases hnil : w = []
  · exact reads_nil hnil
  · rw [reads_blank hnil (by rw [lineBlank_mk, Text.firstLine, Text.takeWhile_lastLine hw, hblank]), Stretch.afterLine_mk_last hw,
      reads_nil rfl]

section
variable (h : BlankLine u w e)
include h

/-- The blocks below a blank line stand one line further down. -/
theorem Reads.exists_below_widen (hr : Reads (Scope.ofText (u ++ (w ++ e)) references)
    (innerOf 957 (Scope.ofText (u ++ (w ++ e)) references)) true ⟨u.length, w ++ e⟩ ns) (first budget : Nat) :
    ∃ ns', Reads (Scope.ofText (u ++ (w ++ '\n' :: e)) references)
        (innerOf 957 (Scope.ofText (u ++ (w ++ '\n' :: e)) references)) true ⟨u.length, w ++ '\n' :: e⟩ ns' ∧
      List.Forall₂ (Retold (Apart first (u.count '\n' + 1) (u.count '\n' + 2)) budget) ns ns' := by
  have hw := h.newline_notMem
  have hcount : w.count '\n' = 0 := List.count_eq_zero_of_not_mem hw
  simp only [reads_blankLine hw h.allBlank]
  rcases h.ends with rfl | ⟨v, rfl⟩
  · rw [List.append_nil] at hr
    rw [(reads_lastBlankLine hw h.allBlank).1 hr]
    exact ⟨[], (reads_nil rfl).2 rfl, .nil⟩
  · have hold : u ++ (w ++ '\n' :: v) = u ++ w ++ ['\n'] ++ v := by simp
    have hnew : u ++ (w ++ '\n' :: '\n' :: v) = u ++ w ++ ['\n', '\n'] ++ v := by simp
    rw [reads_blankLine hw h.allBlank, hold] at hr
    have hplace : u.length + (w.length + 1) = (u ++ w ++ ['\n']).length := by simp
    rw [hplace] at hr
    obtain ⟨ns', hns', hretold⟩ := hr.exists_retold (u ++ w ++ ['\n', '\n']) first budget
    refine ⟨ns', ?_, ?_⟩
    · have hplace' : (u ++ w ++ ['\n', '\n']).length = u.length + (w.length + 1) + 1 := by simp [Nat.add_assoc]
      rw [hnew, reads_newline, ← hplace']
      exact hns'
    · simpa [List.count_append, hcount] using hretold

/-- A block that is read above a blank line and does not stand on it ends above it. -/
theorem above_of_spares (hfork : (Exchange.widen u w e).Fork s s') (hblank : s.lineBlank = false)
    (hmade : Made (Scope.ofText (u ++ (w ++ e)) references) inner s node) (hspares : node.Spares (u.count '\n' + 1)) :
    ∀ p ∈ node.position, p.endLine < u.count '\n' + 1 ∧ p.stop ≤ u.length := by
  obtain ⟨kind, first, last, children, rfl, ⟨-, hfirst⟩, -⟩ := hmade
  have hafter := hfork.step (Exchange.begins_widen h) hblank (Nat.le_refl _) (.inl (Exchange.gap_widen h))
  have hlt : s.trimStart.start < u.length := start_trimStart_lt_of_step hblank hafter
  intro p hp
  cases hp
  exact hspares.above (hfirst.trans (Nat.le_of_lt hlt))

/-- The blocks of a text with one line feed more behind a blank line on which no block stands. -/
theorem Reads.exists_widen (hfork : (Exchange.widen u w e).Fork s s') (hr : Reads (Scope.ofText (u ++ (w ++ e)) references)
    (innerOf 957 (Scope.ofText (u ++ (w ++ e)) references)) true s ns) (hspares : ∀ n ∈ ns, n.Spares (u.count '\n' + 1))
    (budget : Nat) : ∃ ns', Reads (Scope.ofText (u ++ (w ++ '\n' :: e)) references)
        (innerOf 957 (Scope.ofText (u ++ (w ++ '\n' :: e)) references)) true s' ns' ∧
      List.Forall₂ (Retold (Apart (u.count '\n' + 1) (u.count '\n' + 1) (u.count '\n' + 2)) budget) ns ns' := by
  have hX := Exchange.begins_widen h
  have hgap := Exchange.gap_widen h
  induction hn : s.chars.length using Nat.strongRecOn generalizing s s' ns with
  | _ n ih =>
    subst hn
    by_cases hstart : s.start < u.length
    · have hne : s.chars ≠ [] := List.length_pos_iff.1 (by have hstop := hfork.stop_le; dsimp only [Exchange.widen, Stretch.stop] at hstop; omega)
      have hpos := List.length_pos_iff.2 hne
      cases hblank : s.lineBlank with
      | true =>
        have hle := s.length_afterLine_le
        rw [reads_blank hne hblank] at hr
        obtain ⟨ns', hns', hretold⟩ := ih _ (by omega) (hfork.afterLine hX hne (hfork.start_afterLine_le hgap hstart)) hr hspares rfl
        exact ⟨ns', (reads_blank (hfork.ne_nil hstart) ((hfork.lineBlank hX).trans hblank)).2 hns', hretold⟩
      | false =>
        have hstranded := hr.not_stranded
        obtain ⟨node, stop, ms, hnext, hms, rfl⟩ := (reads_block hne hblank).1 hr
        rw [List.forall_mem_cons] at hspares
        have habove := above_of_spares h hfork hblank (next_made hnext) hspares.1
        have hlt := start_lt_next hne hblank hstranded hnext
        obtain ⟨node', stop', hnext', hretold, hgoes⟩ := next_retold hX (steady_widen h)
          (Scope.seen_append u (w ++ e) (w ++ '\n' :: e) references) (Scope.one_le_lineOf _ _) hfork hblank hstranded hnext
          (.inl ⟨hgap, fun p hp => (habove p hp).2⟩) (fun p hp => (habove p hp).1) (u.count '\n' + 1) (u.count '\n' + 2) budget
        have hrest : ∃ ms', Reads (Scope.ofText (u ++ (w ++ '\n' :: e)) references)
            (innerOf 957 (Scope.ofText (u ++ (w ++ '\n' :: e)) references)) true (s'.since stop') ms' ∧
            List.Forall₂ (Retold (Apart (u.count '\n' + 1) (u.count '\n' + 1) (u.count '\n' + 2)) budget) ms ms' := by
          rcases hgoes with ⟨rfl, hle⟩ | ⟨-, hstop, hstop'⟩
          · have hlength : (s.since stop').chars.length < s.chars.length := by
              rw [Stretch.chars_since, List.length_drop]
              omega
            exact ih _ hlength (hfork.since (Nat.le_of_lt hlt) hle) hms hspares.2 rfl
          · -- nothing comes after a fence that nothing closes
            have hend (s : Stretch) : (s.since s.stop).chars = [] := by
              rw [Stretch.chars_since, Stretch.stop, Nat.add_sub_cancel_left, List.drop_length]
            rw [hstop, reads_nil (hend s)] at hms
            rw [hms, hstop']
            exact ⟨[], (reads_nil (hend s')).2 rfl, .nil⟩
        obtain ⟨ms', hms', hrest⟩ := hrest
        have hblank' := (hfork.lineBlank hX).trans hblank
        exact ⟨node' :: ms', (reads_block (Stretch.ne_nil_of_not_blank hblank') hblank').2 ⟨_, _, _, hnext', hms', rfl⟩,
          .cons hretold hrest⟩
    · cases hfork with
      | @mk a q hq ha =>
        dsimp only [Exchange.widen] at hstart ha
        obtain rfl : q = [] := List.length_eq_zero_iff.1 (by omega)
        obtain rfl : a = u.length := ha
        exact hr.exists_below_widen h _ budget

end
end Markup.Block

namespace Spoken

variable {u w e d : Text} {tree : Node}

/-- What is narrated does not depend on the width of a gap. -/
theorem extract_widen (h : BlankLine u w e) (hr : '\r' ∉ u ++ (w ++ e)) (hread : Tree.read (u ++ (w ++ e)) = .ok tree)
    (hflat : (flatten? tree).isSome) (hspares : ∀ n ∈ tree.children, n.Spares (u.count '\n' + 1)) :
    Spoken.extract (u ++ (w ++ '\n' :: e)) = Spoken.extract (u ++ (w ++ e)) := by
  obtain ⟨f, r, front, ht, hfront, -⟩ := Tree.exists_front hr
  obtain ⟨ns, hns, hchildren⟩ := Tree.children_of_read ht hfront hread
  rw [hchildren] at hspares
  have hle : f.length ≤ u.length := by
    cases front with
    | none =>
      obtain ⟨rfl, -⟩ := hfront
      exact Nat.zero_le _
    | some source => exact ((hspares _ List.mem_cons_self).above (Nat.zero_le _)).2
  obtain ⟨v, rfl, rfl⟩ := Text.exists_between ht.symm hle
  have hr' : '\r' ∉ f ++ v ++ (w ++ '\n' :: e) := by simpa using hr
  have hfork : (Exchange.widen (f ++ v) w e).Fork ⟨f.length, v ++ (w ++ e)⟩ ⟨f.length, v ++ (w ++ '\n' :: e)⟩ :=
    .mk (List.suffix_append f v) List.length_append.symm
  obtain ⟨ns', hns', hretold⟩ := hns.exists_widen h hfork (fun n hn => hspares n (List.mem_append_right _ hn)) flatteningBudget
  rw [← Reference.collect_widen h] at hns'
  exact extract_retold (keepsGaps_apart (Nat.le_refl _) (Nat.le_succ _)) hr hr' (List.append_assoc f v _)
    (hasFront_widen h hr hfront ht hle) hread hflat hchildren hns' hretold

/-- An empty line more directly after a blank line that stands in no block leaves what is narrated as it is. -/
theorem extract_insertIdx {k : Nat} (hspace : ∀ c ∈ d, Text.isBlank c → Text.isSpaceOrTab c ∨ c = '\n')
    (hread : Tree.read d = .ok tree) (hflat : (flatten? tree).isSome) (hk : k < (Text.lines d).length)
    (hblank : Text.allBlank (Text.lines d)[k]) (hspares : ∀ n ∈ tree.children, n.Spares (k + 1)) :
    Spoken.extract (Text.unlines ((Text.lines d).insertIdx (k + 1) [])) = Spoken.extract d := by
  have hline : ∀ c ∈ (Text.lines d)[k], Text.isSpaceOrTab c := by
    intro c hc
    have hmem : c ∈ d := (Text.infix_of_mem_splitOn (List.getElem_mem hk)).subset hc
    refine (hspace c hmem (List.all_eq_true.1 hblank c hc)).resolve_right ?_
    rintro rfl
    exact Text.newline_notMem_of_mem_lines (List.getElem_mem hk) hc
  have hr : '\r' ∉ d := fun hmem => by
    have hno := hspace '\r' hmem rfl
    revert hno
    decide
  obtain ⟨u, e, hd, rfl, hlines, hends, hinsert⟩ := Text.exists_line hk
  have hsame := extract_widen ⟨hlines, hline, hends⟩ (hd ▸ hr) (hd ▸ hread) hflat hspares
  rw [hinsert, hsame, ← hd]

/-- A page with a list, a tag that is not closed and a blank line between them. -/
def gapPage : Text := "- Boil\n\n  the water\n \t\nPour <b it\n\nSip.\n".toList

theorem extract_insertIdx_gapPage : ∃ tree, Tree.read gapPage = .ok tree ∧
    Spoken.extract (Text.unlines ((Text.lines gapPage).insertIdx 4 [])) = Spoken.extract gapPage := by
  have hpage : (Tree.read gapPage).toOption.any fun tree =>
      (flatten? tree).isSome && decide (∀ n ∈ tree.children, n.Spares 4) := by decide +kernel
  obtain ⟨tree, hread, hpage⟩ := Fallible.exists_of_any hpage
  rw [Bool.and_eq_true, decide_eq_true_eq] at hpage
  exact ⟨tree, hread, extract_insertIdx (k := 3) (by decide) hread hpage.1 (by decide) (by decide) hpage.2⟩

end Spoken
end Narration
