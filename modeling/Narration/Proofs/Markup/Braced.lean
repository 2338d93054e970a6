import Narration.Proofs.Markup.Passage
import Narration.Proofs.Markup.Steady

/-!
# Lines with an opening brace

Whatever ends in front of a line, or is read from its front, does not look behind an opening brace on it.

* `Text.exists_trim_brace`, `Text.indent_brace` : the blanks at the ends of such a line;
* `Markup.LineForm.interrupts_brace`, `Markup.LineForm.marker?_brace` : what such a line interrupts, and its marker;
* `Markup.LineForm.resembles_brace` : lines that are the same up to the brace;
* `Markup.Exchange.begins_of_brace` : texts that begin with a brace;
* `Markup.Block.next_braced` : what stands in braces and ends its line is an expression.
-/

namespace Narration

variable {b q u v : Text}

namespace Text

theorem takeWhile_brace {p : Char → Bool} (hp : p '\x7b' = false) (b u : Text) :
    (b ++ '\x7b' :: u).takeWhile p = b.takeWhile p := by
  obtain ⟨x, y, rfl, hx, rfl | ⟨c, y, rfl, hc⟩⟩ := exists_run p b
  · rw [List.append_nil, takeWhile_run hx hp, takeWhile_all hx]
  · rw [List.append_assoc, List.cons_append, takeWhile_run hx hc, takeWhile_run hx hc]

theorem trimStart_brace (q u : Text) : trimStart (q ++ '\x7b' :: u) = trimStart q ++ '\x7b' :: u := by
  rw [trimStart, trimStart, List.dropWhile_append]
  split
  · next h =>
    rw [List.isEmpty_iff.1 h]
    rfl
  · rfl

theorem indent_brace (q u : Text) : indent (q ++ '\x7b' :: u) = indent q := by
  rw [indent, indent, takeWhile_brace rfl]

/-- The blanks at the end of a line stand behind its brace. -/
theorem exists_trim_brace (q u : Text) : ∃ u', trim (q ++ '\x7b' :: u) = trimStart q ++ '\x7b' :: u' := by
  have hreverse : (trimStart q ++ '\x7b' :: u).reverse = u.reverse ++ '\x7b' :: (trimStart q).reverse := by simp
  have hstart := trimStart_brace u.reverse (trimStart q).reverse
  refine ⟨(trimStart u.reverse).reverse, ?_⟩
  rw [trim, trimStart_brace, trimEnd, dropEndWhile, hreverse]
  refine (congrArg List.reverse hstart).trans ?_
  simp

theorem leads_brace {w : Text} (hw : '\x7b' ∉ w) (b u : Text) : w <+: b ++ '\x7b' :: u ↔ w <+: b := by
  constructor
  · intro h
    rcases List.prefix_or_prefix_of_prefix h (List.prefix_append b _) with hle | ⟨y, rfl⟩
    · exact hle
    · cases y with
      | nil => rw [List.append_nil]
      | cons c y =>
        obtain ⟨rfl, -⟩ := List.cons_prefix_cons.1 ((List.prefix_append_right_inj b).1 h)
        simp at hw
  · exact fun h => h.trans (List.prefix_append b _)

end Text

namespace Markup.LineForm

theorem isComment_brace (b u : Text) : isComment (b ++ '\x7b' :: u) = isComment b := by
  rw [Bool.eq_iff_iff, isComment, isComment, Text.beginsWith_iff, Text.beginsWith_iff, Text.leads_brace (by decide)]

theorem fence?_brace (b u : Text) : fence? (b ++ '\x7b' :: u) = fence? b := by
  cases b with
  | nil => rfl
  | cons c b =>
    by_cases hc : c = '\x7b'
    · subst hc
      rw [fence?_eq_none (by simp) (by simp), fence?_eq_none (by simp) (by simp)]
    · have hrun := Text.takeWhile_brace (p := (· = c)) (by simpa using Ne.symm hc) (c :: b) u
      rw [fence?, fence?, List.cons_append, List.head?_cons, List.head?_cons]
      simp only [Option.bind_eq_bind, Option.bind_some]
      rw [← List.cons_append, hrun]

theorem isSome_heading?_brace (b u v : Text) : (heading? (b ++ '\x7b' :: u)).isSome = (heading? (b ++ '\x7b' :: v)).isSome := by
  have hdepth (u : Text) : (b ++ '\x7b' :: u).takeWhile (· = '#') = b.takeWhile (· = '#') := Text.takeWhile_brace rfl b u
  have hle : (b.takeWhile (· = '#')).length ≤ b.length := (List.takeWhile_sublist _).length_le
  have hgap (w u : Text) : (w ++ '\x7b' :: u).takeWhile Text.isSpaceOrTab = w.takeWhile Text.isSpaceOrTab := Text.takeWhile_brace rfl w u
  simp only [heading?, hdepth, List.drop_append_of_le_length hle, hgap]
  split
  · rfl
  · simp only [List.isEmpty_iff, List.append_eq_nil_iff, reduceCtorEq, and_false, if_false]
    split <;> rfl

theorem isRule_of_mem {t : Text} (h : '\x7b' ∈ t) : isRule t = false := by
  rw [← Bool.not_eq_true]
  intro hrule
  unfold isRule at hrule
  split at hrule
  · next c hc =>
    simp only [Bool.and_eq_true, Bool.or_eq_true, beq_iff_eq, List.all_eq_true] at hrule
    obtain ⟨⟨hmark, -⟩, hall⟩ := hrule
    rcases hall _ h with rfl | hspace
    · simp at hmark
    · cases hspace
  · cases hrule

theorem underline?_of_mem {t : Text} (h : '\x7b' ∈ t) : underline? t = none := by
  cases t with
  | nil => rfl
  | cons c t =>
    rw [underline?, List.head?_cons]
    simp only [Option.bind_eq_bind, Option.bind_some]
    rw [if_neg]
    rintro ⟨hmark, hall⟩
    have hrest : '\x7b' ∈ (c :: t).dropWhile (· = c) := by
      rw [← List.takeWhile_append_dropWhile (p := (· = c)) (l := c :: t), List.mem_append] at h
      refine h.resolve_left fun hmem => ?_
      have heq : decide ('\x7b' = c) = true := List.mem_takeWhile_imp (p := fun x => decide (x = c)) hmem
      rw [← of_decide_eq_true heq] at hmark
      simp at hmark
    cases List.all_eq_true.1 hall _ hrest

theorem mem_dropWhile_of_neg {p : Char → Bool} {c : Char} {t : Text} (hp : p c = false) (h : c ∈ t) : c ∈ t.dropWhile p := by
  rw [← List.takeWhile_append_dropWhile (p := p) (l := t), List.mem_append] at h
  refine h.resolve_left fun hmem => ?_
  rw [List.mem_takeWhile_imp hmem] at hp
  cases hp

theorem mem_dropEndWhile_of_neg {p : Char → Bool} {c : Char} {t : Text} (hp : p c = false) (h : c ∈ t) :
    c ∈ Text.dropEndWhile p t :=
  List.mem_reverse.2 (mem_dropWhile_of_neg hp (List.mem_reverse.2 h))

theorem mem_tail_of_head? {α : Type} {a b : α} {l : List α} (hne : a ≠ b) (hhead : l.head? = some b) (h : a ∈ l) : a ∈ l.tail := by
  obtain ⟨l, rfl⟩ := List.head?_eq_some_iff.1 hhead
  exact (List.mem_cons.1 h).resolve_left hne

theorem mem_dropLast_of_getLast? {α : Type} {a b : α} {l : List α} (hne : a ≠ b) (hlast : l.getLast? = some b) (h : a ∈ l) :
    a ∈ l.dropLast := by
  obtain ⟨l, rfl⟩ := List.getLast?_eq_some_iff.1 hlast
  rw [List.dropLast_concat]
  rw [List.mem_append, List.mem_singleton] at h
  exact h.resolve_right hne

theorem isTableRuleCell_of_mem {t : Text} (h : '\x7b' ∈ t) : isTableRuleCell t = false := by
  have hspace := mem_dropEndWhile_of_neg (p := Text.isSpaceOrTab) rfl (mem_dropWhile_of_neg (p := Text.isSpaceOrTab) rfl h)
  rw [isTableRuleCell]
  generalize Text.dropEndWhile Text.isSpaceOrTab (t.dropWhile Text.isSpaceOrTab) = t at hspace
  have hfirst : '\x7b' ∈ if t.head? = some ':' then t.tail else t := by
    split
    · next hhead => exact mem_tail_of_head? (by decide) hhead hspace
    · exact hspace
  generalize (if t.head? = some ':' then t.tail else t) = t at hfirst
  have hlast : '\x7b' ∈ if t.getLast? = some ':' then t.dropLast else t := by
    split
    · next hhead => exact mem_dropLast_of_getLast? (by decide) hhead hfirst
    · exact hfirst
  rw [Bool.and_eq_false_iff, List.all_eq_false]
  exact .inr ⟨_, hlast, by decide⟩

theorem isTableRule_of_mem {t : Text} (h : '\x7b' ∈ t) : isTableRule t = false := by
  obtain ⟨cell, hcell, hmem⟩ : ∃ cell ∈ Text.splitOn '|' t, '\x7b' ∈ cell := by
    have hjoin := Text.join_splitOn '|' t
    rw [← hjoin] at h
    rcases Text.mem_join h with hbar | hcell
    · simp at hbar
    · exact hcell
  rw [isTableRule]
  generalize Text.splitOn '|' t = cells at hcell
  have hfirst : cell ∈ if 1 < cells.length && cells.head?.any List.isEmpty then cells.tail else cells := by
    split
    · next hhead =>
      rw [Bool.and_eq_true] at hhead
      obtain ⟨k, hk, hempty⟩ := (Option.any_eq_true _ _).1 hhead.2
      refine mem_tail_of_head? ?_ hk hcell
      rintro rfl
      rw [List.isEmpty_iff.1 hempty] at hmem
      cases hmem
    · exact hcell
  generalize (if 1 < cells.length && cells.head?.any List.isEmpty then cells.tail else cells) = cells at hfirst
  have hlast : cell ∈ if 1 < cells.length && cells.getLast?.any (·.all Text.isSpaceOrTab) then cells.dropLast else cells := by
    split
    · next hhead =>
      rw [Bool.and_eq_true] at hhead
      obtain ⟨k, hk, hspace⟩ := (Option.any_eq_true _ _).1 hhead.2
      refine mem_dropLast_of_getLast? ?_ hk hfirst
      rintro rfl
      cases List.all_eq_true.1 hspace _ hmem
    · exact hfirst
  rw [List.all_eq_false]
  exact ⟨cell, hlast, by rw [isTableRuleCell_of_mem hmem]; decide⟩

/-- The marker of a line stands in front of its brace. -/
theorem marker?_brace (b : Text) : (∀ v, marker? (b ++ '\x7b' :: v) = none) ∨ ∃ m w, b = m ++ w ∧
    ∀ v, marker? (b ++ '\x7b' :: v) = some (m, m.length + gap w) := by
  by_cases hmarker : ∃ m w, b = m ++ w ∧ IsMarker m
  · obtain ⟨m, w, rfl, hm⟩ := hmarker
    have hgap (v : Text) : gap (w ++ '\x7b' :: v) = gap w := congrArg List.length (Text.takeWhile_brace rfl w v)
    by_cases hzero : gap w = 0
    · refine .inl fun v => ?_
      rw [List.append_assoc, marker?_append hm, if_pos ⟨(hgap v).trans hzero, by simp⟩]
    · refine .inr ⟨m, w, rfl, fun v => ?_⟩
      rw [List.append_assoc, marker?_append hm, if_neg (fun hnone => hzero ((hgap v).symm.trans hnone.1)), hgap]
  · refine .inl fun v => ?_
    rw [← Option.not_isSome_iff_eq_none]
    intro hsome
    obtain ⟨m, rest, heq, hm⟩ := exists_isMarker hsome
    obtain ⟨w, rfl⟩ := (Text.leads_brace (hm.notMem (by decide)) b v).1 ⟨rest, heq.symm⟩
    exact hmarker ⟨m, w, rfl, hm⟩

theorem isSome_marker?_brace (b u v : Text) : (marker? (b ++ '\x7b' :: u)).isSome = (marker? (b ++ '\x7b' :: v)).isSome := by
  rcases marker?_brace b with hnone | ⟨m, w, -, hsome⟩
  · rw [hnone, hnone]
  · rw [hsome, hsome]

theorem interrupts_brace (b u v : Text) : interrupts (b ++ '\x7b' :: u) = interrupts (b ++ '\x7b' :: v) := by
  have hhead (u : Text) : (b ++ '\x7b' :: u).head? = b.head?.or (some '\x7b') := List.head?_append
  have hmem (u : Text) : '\x7b' ∈ b ++ '\x7b' :: u := by simp
  simp only [interrupts, fence?_brace, isSome_heading?_brace b u v, hhead, isComment_brace, isRule_of_mem (hmem _)]
  congr 1
  rcases marker?_brace b with hnone | ⟨m, w, rfl, hsome⟩
  · rw [hnone, hnone]
  · have hblank (u : Text) : Text.allBlank ((m ++ w ++ '\x7b' :: u).drop (m.length + gap w)) = false := by
      have hle : m.length + gap w ≤ (m ++ w).length := by
        rw [List.length_append]
        exact Nat.add_le_add_left (List.takeWhile_sublist _).length_le _
      rw [List.drop_append_of_le_length hle, Text.allBlank, List.all_append, List.all_cons]
      simp [show Text.isBlank '\x7b' = false from rfl]
    rw [hsome, hsome]
    dsimp only
    rw [hblank, hblank]

/-- Lines that are the same up to a brace, the one without a bar behind it. -/
theorem resembles_brace (q u : Text) {v : Text} (hv : '|' ∉ v) : Resembles (q ++ '\x7b' :: u) (q ++ '\x7b' :: v) := by
  obtain ⟨u', hu⟩ := Text.exists_trim_brace q u
  obtain ⟨v', hv'⟩ := Text.exists_trim_brace q v
  have hmem (u : Text) : '\x7b' ∈ Text.trimStart q ++ '\x7b' :: u := by simp
  have hblank : Text.isBlank '\x7b' = false := rfl
  refine ⟨by simp [Text.allBlank, hblank], by rw [Text.indent_brace, Text.indent_brace], fun hbar => ?_, ?_, ?_, ?_, ?_, ?_, fun hstranded => ?_⟩
  · simp [hv] at hbar
    simp [hbar]
  · rw [Text.trimStart_brace, Text.trimStart_brace, List.head?_append, List.head?_append]
    rfl
  · rw [hu, hv', isTableRule_of_mem (hmem _), isTableRule_of_mem (hmem _)]
  · rw [hu, hv', underline?_of_mem (hmem _), underline?_of_mem (hmem _)]
  · rw [hu, hv', interrupts_brace]
  · rw [Text.trimStart_brace, Text.trimStart_brace, isSome_marker?_brace]
  · obtain ⟨before, marker, c, after, hline, -, hbefore, hmarker, hc, -, hafter⟩ := hstranded
    have hbrace : '\x7b' ∈ before ++ marker ++ c :: after := hline ▸ by simp
    rw [← Bool.not_eq_true] at hblank
    simp only [List.mem_append, List.mem_cons] at hbrace
    rcases hbrace with (hbrace | hbrace) | rfl | hbrace
    · exact absurd (hbefore _ hbrace) hblank
    · exact absurd hbrace (hmarker.notMem (by decide))
    · exact absurd hc hblank
    · exact absurd (hafter _ hbrace) hblank

end Markup.LineForm

open Text (firstLine)

/-- Texts that begin with a brace. -/
theorem Markup.Exchange.begins_of_brace {X : Exchange} (hold : X.old = '\x7b' :: u) (hnew : X.new = '\x7b' :: v)
    (hbar : '|' ∉ firstLine v) : X.Begins := by
  have hline (u : Text) : firstLine ('\x7b' :: u) = '\x7b' :: firstLine u := List.takeWhile_cons_of_pos (by decide)
  have hblank (u : Text) : (⟨0, '\x7b' :: u⟩ : Stretch).lineBlank = false := by
    rw [Stretch.lineBlank, Stretch.chars_line]
    change Text.allBlank (firstLine ('\x7b' :: u)) = false
    rw [hline]
    rfl
  refine ⟨fun q _ _ => ?_, ?_, fun hall => ?_, fun hnil => ?_⟩
  · rw [hold, hnew, hline, hline]
    exact LineForm.resembles_brace q _ hbar
  · rw [hold, hnew, Stretch.prose_not_blank (hblank u), Stretch.prose_not_blank (hblank v)]
    change LineForm.Resembles (firstLine ('\x7b' :: u)) (firstLine ('\x7b' :: v))
    rw [hline, hline]
    exact LineForm.resembles_brace [] _ hbar
  · rw [hold, hline] at hall
    cases hall
  · rw [hold] at hnil
    cases hnil

/-- What stands in braces and ends its line is an expression. -/
theorem Markup.Block.next_braced {a n : Nat} {source : Text} (hq : Text.allBlank q) (hline : '\n' ∉ q)
    (hb : Tag.braced? ('\x7b' :: u) = some (source, n)) (hrest : Text.allBlank (firstLine (('\x7b' :: u).drop n))) (scope : Scope)
    (inner : Inner) (top : Bool) : next scope inner top ⟨a, q ++ '\x7b' :: u⟩ =
      .ok (scope.node (.expression source) (a + q.length) (a + q.length + n), a + q.length + n) := by
  have hfirst : firstLine (q ++ '\x7b' :: u) = q ++ '\x7b' :: firstLine u := by
    rw [Text.firstLine_append_of_notMem hline]
    exact congrArg _ (List.takeWhile_cons_of_pos (by decide))
  have hnil : Text.trimStart q = [] := Text.dropWhile_all (List.all_eq_true.1 hq)
  obtain ⟨u', hu⟩ := Text.exists_trim_brace q (firstLine u)
  rw [hnil, List.nil_append] at hu
  have hstart : (⟨a, q ++ '\x7b' :: u⟩ : Stretch).trimStart = ⟨a + q.length, '\x7b' :: u⟩ := by
    rw [trimStart_mk, Text.trimStart_brace, hnil, Text.indent_brace, Text.indent, Text.takeWhile_all (List.all_eq_true.1 hq)]
    rfl
  have hn : n ≤ ('\x7b' :: u).length := by
    have hwithin := (Tag.braced?_wraps (Stretch.in_self _) hb).2
    simpa using hwithin
  have hdrop : (⟨a + q.length, '\x7b' :: u⟩ : Stretch).drop n = ⟨a + q.length + n, ('\x7b' :: u).drop n⟩ := by
    rw [Stretch.drop, Nat.min_eq_left hn]
  have hexpression : expression? scope ⟨a + q.length, '\x7b' :: u⟩ =
      some (scope.node (.expression source) (a + q.length) (a + q.length + n), a + q.length + n) := by
    rw [expression?, hb]
    simp only [Option.bind_eq_bind, Option.bind_some, hdrop, lineBlank_mk, hrest, if_true]
  rw [next_mk, hfirst, readerOf_brace (by rw [hu]; rfl), Reader.read, hstart, hexpression]
  rfl

end Narration
