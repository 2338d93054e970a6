import Narration.Proofs.Markup.Bounds
import Narration.Proofs.Markup.Fork

/-!
# Blocks above an exchange

A block that ends above the place where a text is exchanged is read as before.

* `Block.Kept` : a block that is read as before, above the exchange;
* `Block.paragraph_fork`, `Block.table_fork`, `Block.quote_fork`, `Block.list_fork` : blocks that take line after line;
* `Block.fence_fork`, `Block.RunsOn` : code, and code that nothing closes.
-/

namespace Narration.Markup.Block
open Fallible

variable {X : Exchange} {scope : Scope} {inner : Inner} {s s' : Stretch} {node : Node} {stop : Nat}

/-- A reader answers the same after the exchange, and reading goes on above the offset. -/
def Kept (X : Exchange) (node : Node) (stop : Nat) (r : Except Fault Result) : Prop := r = .ok (node, stop) ∧ stop ≤ X.stop

theorem start_trimStart_lt_of_step (hblank : s.lineBlank = false) (h : X.Fork s.afterLine s'.afterLine) :
    s.trimStart.start < X.stop :=
  Nat.lt_of_lt_of_le (Stretch.start_trimStart_lt hblank).2 (s.stop_line_le_afterLine.trans h.start_le)

section
variable (hX : X.Begins) (h : X.Fork s s') (hblank : s.lineBlank = false)
include hX h hblank

/-! ## One line -/

theorem rawLine_fork (hr : rawLine scope s = (node, stop)) (hstop : X.Gap ∨ stop ≤ X.stop) :
    Kept X node stop (.ok (rawLine scope s')) := by
  cases hr
  have hafter := h.step hX hblank (Nat.le_refl _) hstop
  have htrim := h.trimStart (start_trimStart_lt_of_step hblank hafter)
  refine ⟨?_, hafter.start_le⟩
  rw [rawLine, h.line_of_step hX hblank hafter, htrim.start_eq, hafter.start_eq]

theorem heading_fork {depth place length : Nat} (hr : heading scope inner s depth place length = .ok (node, stop))
    (hstop : X.Gap ∨ stop ≤ X.stop) : Kept X node stop (heading scope inner s' depth place length) := by
  obtain ⟨children, -, -, hend⟩ := exists_of_heading hr
  have hafter := h.step hX hblank hend.ge hstop
  refine ⟨?_, hend.trans_le hafter.start_le⟩
  rw [← hr, heading, heading, h.line_of_step hX hblank hafter, hafter.start_eq]

/-! ## Paragraphs -/

theorem paragraph_fork (hr : paragraph scope inner s = .ok (node, stop)) (hstop : X.Gap ∨ stop ≤ X.stop) :
    Kept X node stop (paragraph scope inner s') := by
  obtain ⟨t, hin⟩ := exists_in s
  have hspec := paragraphEnd_spec s.chars.length hin.afterLine s.stop_line_le_afterLine
  have hle := s.length_afterLine_le
  have hle' := s'.length_afterLine_le
  have hend := stop_paragraph hr
  subst hend
  have hafter := h.step hX hblank (start_le_paragraphEnd _ _ _) hstop
  obtain ⟨rest', hrest, hfork⟩ := paragraphEnd_fork hX hafter (by omega)
    (show s'.afterLine.chars.length ≤ s'.chars.length by omega) hstop
  have htrim := h.trimStart (start_trimStart_lt_of_step hblank hafter)
  have htill := htrim.till (hspec.2.1.trans hfork.start_le)
  refine ⟨?_, hfork.start_le⟩
  unfold paragraph at hr
  rw [← hr, paragraph, h.line_of_step hX hblank hafter]
  dsimp only
  rw [hrest]
  generalize paragraphEnd s.chars.length s.line.stop s.afterLine = r at htill hfork
  obtain ⟨last, ending, rest⟩ := r
  dsimp only at htill hfork ⊢
  rw [htill, htrim.start_eq, hfork.start_eq]

/-! ## Tables -/

omit h hblank in
theorem endsTable_fork (h : X.Fork s s') {n : Nat} (hends : endsTable n s) : endsTable n s' := by
  simp only [endsTable, Bool.or_eq_true, Bool.and_eq_true, Bool.not_eq_true', ← Bool.not_eq_true, List.contains_iff_mem] at hends ⊢
  rw [h.lineBlank hX]
  exact hends.imp_right (And.imp_right (mt (h.resembles hX).bar))

omit hX h hblank in
theorem endsTable_of_line {n : Nat} (hline : s'.line = s.line) : endsTable n s' = endsTable n s := by
  rw [endsTable, endsTable, Stretch.lineBlank, Stretch.lineBlank, hline]

omit h hblank in
theorem ReadsRows.fork {n last last' next : Nat} {nodes : List Node} (h : ReadsRows scope inner n last s nodes last' next)
    (hfork : X.Fork s s') (hstop : X.Gap ∨ next ≤ X.stop) : ReadsRows scope inner n last s' nodes last' next ∧ next ≤ X.stop := by
  have hblank {n : Nat} {s : Stretch} (hgoes : endsTable n s = false) : s.lineBlank = false := (Bool.or_eq_false_iff.1 hgoes).1
  induction h generalizing s' with
  | none hends =>
    rw [← hfork.start_eq]
    exact ⟨.none (endsTable_fork hX hfork hends), hfork.start_eq ▸ hfork.start_le⟩
  | rule hgoes hrows ih =>
    have hafter := hfork.step hX (hblank hgoes) hrows.start_le hstop
    have hline := hfork.line_of_step hX (hblank hgoes) hafter
    obtain ⟨hrows', hle⟩ := ih hafter hstop
    rw [← hline] at hrows'
    exact ⟨.rule ((endsTable_of_line hline).trans hgoes) hrows', hle⟩
  | row hn hgoes hrow hrows ih =>
    have hafter := hfork.step hX (hblank hgoes) hrows.start_le hstop
    have hline := hfork.line_of_step hX (hblank hgoes) hafter
    obtain ⟨hrows', hle⟩ := ih hafter hstop
    rw [← hline] at hrows' hrow
    exact ⟨.row hn ((endsTable_of_line hline).trans hgoes) hrow hrows', hle⟩

theorem table_fork (hr : table scope inner s = .ok (node, stop)) (hstop : X.Gap ∨ stop ≤ X.stop) :
    Kept X node stop (table scope inner s') := by
  have hfirst := start_afterLine_le_table hblank hr
  have htrim := h.trimStart (start_trimStart_lt_of_step hblank (h.step hX hblank hfirst hstop))
  obtain ⟨nodes, last, hrows, rfl⟩ := exists_rows_of_table hr
  obtain ⟨hrows', hnext⟩ := hrows.fork hX h hstop
  rw [← h.start_eq, ← rows_eq_ok (Nat.le_succ _)] at hrows'
  refine ⟨bind_eq_ok.2 ⟨_, hrows', ?_⟩, hnext⟩
  rw [htrim.start_eq]
  rfl

/-- Whether the second line makes a table. -/
theorem isTable_fork (hafter : X.Fork s.afterLine s'.afterLine) : isTable s' = isTable s := by
  have hsecond (s : Stretch) : (!s.chars.isEmpty && LineForm.isTableRule s.line.trim.chars) =
      LineForm.isTableRule s.line.trim.chars := by
    refine Bool.and_eq_right_iff_imp.2 fun hrule => ?_
    rw [Bool.not_eq_true', ← Bool.not_eq_true, List.isEmpty_iff]
    intro hnil
    have htrim : s.line.trim.chars = [] := by rw [Stretch.chars_trim, Stretch.chars_line, hnil]; rfl
    rw [htrim] at hrule
    cases hrule
  rw [isTable, isTable, Bool.and_assoc, Bool.and_assoc, hsecond, hsecond, h.line_of_step hX hblank hafter,
    Stretch.chars_trim, Stretch.chars_trim, (hafter.resembles hX).rule]

/-! ## Quotes -/

theorem quote_fork (hmark : (bareLine s).head? = some '>') (hr : quote scope inner s = .ok (node, stop))
    (hstop : X.Gap ∨ stop ≤ X.stop) : Kept X node stop (quote scope inner s') := by
  have hfirst := start_afterLine_le_quote (Stretch.ne_nil_of_not_blank hblank) hmark hr
  obtain ⟨children, hchildren, hr⟩ := bind_eq_ok.1 hr
  cases hr
  obtain ⟨rest', hrest, hfork⟩ := quoteLines_fork hX h (Nat.le_refl _) (Nat.le_refl s'.chars.length) true hstop
  have htrim := h.trimStart (start_trimStart_lt_of_step hblank (h.step hX hblank hfirst hstop))
  refine ⟨?_, hfork.start_le⟩
  rw [quote, hrest]
  refine bind_eq_ok.2 ⟨children, hchildren, ?_⟩
  rw [htrim.start_eq, h.start_eq, hfork.start_eq]
  rfl

/-! ## Lists -/

omit hX h hblank in
/-- Whether another item, or a line that is no item, follows right behind an item, or only blank lines, or an item behind
blank lines. -/
def goesOn (base : Nat) (rest : Stretch) : Bool :=
  rest.prose.isEmpty || !rest.lineBlank ||
    ((LineForm.marker? (rest.prose.drop (Text.indent rest.prose))).isSome && Text.indent rest.prose ≤ base + 3)

omit hX h hblank in
theorem isEmpty_skipped (rest : Stretch) : rest.skipped.chars.isEmpty = rest.prose.isEmpty := by
  rw [Bool.eq_iff_iff, List.isEmpty_iff, List.isEmpty_iff, rest.skipped_eq_nil_iff]

omit hX h hblank in
theorem continues_eq (base : Nat) (rest : Stretch) : continues base rest = goesOn base rest := by
  have hstart : (rest.prose.isEmpty || decide (rest.skipped.start = rest.start)) = (rest.prose.isEmpty || !rest.lineBlank) := by
    rw [Bool.eq_iff_iff, Bool.or_eq_true, Bool.or_eq_true, decide_eq_true_eq, rest.start_skipped_eq_iff, Bool.not_eq_true']
    constructor
    · rintro (hprose | hnil | hline)
      · exact .inl hprose
      · exact .inl (by rw [Stretch.prose_nil hnil]; rfl)
      · exact .inr hline
    · rintro (hprose | hline)
      · exact .inl hprose
      · exact .inr (.inr hline)
  rw [goesOn, ← hstart, ← isEmpty_skipped]
  rfl

omit hX h hblank in
theorem resume_eq (rest : Stretch) : resume rest = if rest.prose.isEmpty then rest else rest.skipped := by
  rw [← isEmpty_skipped]
  rfl

omit hX h hblank in
/-- An item ends behind its first line, and before the place where reading goes on. -/
theorem ReadsItem.last_le {base width : Nat} {parts : List Stretch} {rest : Stretch} {children : List Node}
    (h : ReadsItem inner base s width parts stop rest children) : s.line.stop ≤ stop ∧ stop ≤ rest.start := by
  have hle := s.length_afterLine_le
  have hlast := @last_le_itemLines s.afterLine s.chars.length s.line.stop base width (by omega) s.stop_line_le_afterLine
  rwa [h.lines] at hlast

omit hX h hblank in
theorem ReadsItem.not_blank {base width : Nat} {parts : List Stretch} {rest : Stretch} {children : List Node}
    (h : ReadsItem inner base s width parts stop rest children) : s.lineBlank = false := by
  obtain ⟨marker, length, hmarker, -⟩ := h.exists_marker
  rw [← Bool.not_eq_true]
  intro hblank
  rw [Text.drop_indent, Text.trimStart, Text.dropWhile_all (List.all_eq_true.1 hblank)] at hmarker
  cases hmarker

omit hX h hblank in
theorem start_le_resume (rest : Stretch) : rest.start ≤ (resume rest).start := by
  obtain ⟨n, hn⟩ := exists_drop_resume rest
  exact hn ▸ rest.start_le_drop n

omit hX h hblank in
/-- The last item of a list comes after those before it. -/
theorem ReadsItems.last_le {base last last' next : Nat} {nodes : List Node}
    (h : ReadsItems scope inner base last s nodes last' next) (hlast : last ≤ s.start) :
    last ≤ last' ∧ ((markerWidth? base s).isSome → s.line.stop ≤ last') := by
  induction h with
  | none hnone => exact ⟨Nat.le_refl _, fun hsome => by rw [hnone] at hsome; cases hsome⟩
  | @last _ _ _ s _ _ _ h _ =>
    have hline : s.start ≤ s.line.stop := s.line.start_le_stop
    exact ⟨hlast.trans (hline.trans h.last_le.1), fun _ => h.last_le.1⟩
  | @next _ _ _ _ _ s rest _ _ _ h _ _ ih =>
    have hline : s.start ≤ s.line.stop := s.line.start_le_stop
    obtain ⟨hitem, hrest⟩ := h.last_le
    obtain ⟨hmore, -⟩ := ih (hrest.trans (start_le_resume rest))
    exact ⟨hlast.trans (hline.trans (hitem.trans hmore)), fun _ => hitem.trans hmore⟩

omit h hblank in
theorem markerWidth?_fork (h : X.Fork s s') {base : Nat} (hnone : markerWidth? base s = none) : markerWidth? base s' = none := by
  rw [← Option.not_isSome_iff_eq_none] at hnone ⊢
  intro hsome
  have hmarker := h.marker hX
  unfold markerWidth? at hsome
  split at hsome
  · cases hsome
  · next marker length heq =>
    rw [heq] at hmarker
    split at hsome
    · cases hsome
    · next hnear =>
      rw [(h.resembles hX).indent] at hnear
      exact hnone (isSome_markerWidth? (Nat.not_lt.1 hnear) hmarker.symm)

omit hX h hblank in
theorem markerWidth?_of_line (hline : s'.line = s.line) (base : Nat) : markerWidth? base s' = markerWidth? base s := by
  rw [markerWidth?, markerWidth?, hline]

omit h hblank in
theorem isEmpty_prose_fork (h : X.Fork s s') : s'.prose.isEmpty = s.prose.isEmpty := by
  rw [Stretch.isEmpty_prose, Stretch.isEmpty_prose, (h.prose hX).blank]

omit h hblank in
theorem prose_eq_nil_fork (h : X.Fork s s') (hnil : s.prose = []) : s'.prose = [] := by
  rw [← List.isEmpty_iff, isEmpty_prose_fork hX h, hnil]
  rfl

omit h hblank in
theorem continues_fork (h : X.Fork s s') (base : Nat) : continues base s' = continues base s := by
  rw [continues_eq, continues_eq, goesOn, goesOn, Text.drop_indent, Text.drop_indent, isEmpty_prose_fork hX h,
    (h.prose hX).marker, (h.prose hX).indent, h.lineBlank hX]

omit h hblank in
theorem ReadsItem.fork {base width : Nat} {parts : List Stretch} {rest : Stretch} {children : List Node}
    (h : ReadsItem inner base s width parts stop rest children) (hfork : X.Fork s s')
    (hstop : X.Gap ∧ stop ≤ X.stop ∨ rest.start ≤ X.stop) :
    ∃ rest', ReadsItem inner base s' width parts stop rest' children ∧ X.Fork rest rest' ∧ s'.line = s.line := by
  have hle := s.length_afterLine_le
  have hle' := s'.length_afterLine_le
  have hafter := hfork.step hX h.not_blank h.below.start_le (hstop.imp_left And.left)
  have hlines := @itemLines_fork X s.afterLine s'.afterLine s.chars.length s'.chars.length s.line.stop base width hX hafter
    (by omega) (by omega)
  rw [h.lines] at hlines
  obtain ⟨rest', hrest, hfork'⟩ := hlines hstop
  have hline := hfork.line_of_step hX h.not_blank hafter
  refine ⟨rest', ⟨(markerWidth?_of_line hline base).trans h.marker, ?_, ?_⟩, hfork', hline⟩
  · rwa [hline]
  · rw [hline]
    exact h.blocks

omit h hblank in
/-- Items that follow behind an item above the exchange begin above it. -/
theorem resume_fork {base last last' next : Nat} {nodes : List Node} {rest rest' : Stretch} (hfork : X.Fork rest rest')
    (hgoes : continues base rest) (hitems : ReadsItems scope inner base last (resume rest) nodes last' next)
    (hlast : last ≤ (resume rest).start) (hstop : X.Gap ∧ last' ≤ X.stop ∨ next ≤ X.stop) :
    X.Fork (resume rest) (resume rest') := by
  have hend := (hitems.last_le hlast).2
  have hnext := hitems.start_le.2
  rw [resume_eq] at hend hnext
  rw [resume_eq, resume_eq, isEmpty_prose_fork hX hfork]
  split
  · exact hfork
  · next hprose =>
    rw [if_neg hprose] at hend hnext
    rw [List.isEmpty_iff] at hprose
    cases hline : rest.lineBlank with
    | false => rwa [Stretch.skipped_not_blank hline, Stretch.skipped_not_blank ((hfork.lineBlank hX).trans hline)]
    | true =>
      -- an item behind blank lines: it is part of the list, so it begins above the offset
      rw [continues_eq, goesOn, List.isEmpty_eq_false_iff.2 hprose, hline, Bool.not_true, Bool.or_false, Bool.false_or,
        Bool.and_eq_true, decide_eq_true_eq] at hgoes
      have hitem := isSome_markerWidth? hgoes.2 hgoes.1
      have hend := hend hitem
      have hnext := hnext hitem
      have hlt := Stretch.start_skipped_lt hprose
      have hafter := rest.skipped.stop_line_le_afterLine
      refine hfork.skipped hX ?_
      rcases hstop with ⟨-, hstop⟩ | hstop
      all_goals omega

omit h hblank in
theorem ReadsItems.fork {base last last' next : Nat} {nodes : List Node} (h : ReadsItems scope inner base last s nodes last' next)
    (hfork : X.Fork s s') (hlast : last ≤ s.start) (hstop : X.Gap ∧ last' ≤ X.stop ∨ next ≤ X.stop) :
    ReadsItems scope inner base last s' nodes last' next ∧ next ≤ X.stop := by
  induction h generalizing s' with
  | none hnone =>
    rw [← hfork.start_eq]
    exact ⟨.none (markerWidth?_fork hX hfork hnone), hfork.start_eq ▸ hfork.start_le⟩
  | last h hends =>
    obtain ⟨rest', hitem, hfork', hline⟩ := h.fork hX hfork hstop
    rw [← hfork.start_eq, ← hline, ← hfork'.start_eq]
    exact ⟨.last hitem ((continues_fork hX hfork' base).trans hends), hfork'.start_eq ▸ hfork'.start_le⟩
  | @next _ _ _ _ _ _ rest _ _ _ h hgoes hitems ih =>
    have hrest := h.last_le.2.trans (start_le_resume rest)
    have hnext := (start_le_resume rest).trans hitems.start_le.1
    obtain ⟨rest', hitem, hfork', hline⟩ := h.fork hX hfork (hstop.imp (And.imp_right (hitems.last_le hrest).1.trans) hnext.trans)
    obtain ⟨hitems', hle⟩ := ih (resume_fork hX hfork' hgoes hitems hrest hstop) hrest hstop
    rw [← hfork.start_eq, ← hline]
    exact ⟨.next hitem ((continues_fork hX hfork' base).trans hgoes) hitems', hle⟩

theorem list_fork (hmarker : (LineForm.marker? (s.line.chars.drop (Text.indent s.line.chars))).isSome)
    (hr : list scope inner s = .ok (node, stop))
    (hstop : X.Gap ∧ (∀ p ∈ node.position, p.stop ≤ X.stop) ∨ stop ≤ X.stop) : Kept X node stop (list scope inner s') := by
  have hline := h.line_of_step hX hblank
    (h.step hX hblank (start_afterLine_le_list hmarker hr) (hstop.imp_left And.left))
  obtain ⟨⟨nodes, last, next⟩, hitems, hr⟩ := bind_eq_ok.1 hr
  cases hr
  obtain ⟨hitems', hle⟩ := ((items_eq_ok (Nat.le_refl _)).1 hitems).fork hX h (Nat.le_refl _)
    (hstop.imp_left (And.imp_right fun hposition => hposition _ rfl))
  rw [← h.start_eq, ← hline] at hitems'
  refine ⟨bind_eq_ok.2 ⟨_, (items_eq_ok (Nat.le_refl _)).2 hitems', ?_⟩, hle⟩
  rw [hline, h.start_eq]
  rfl

/-! ## Code -/

omit hX h hblank in
/-- The line that closes a fence, one step for each line. -/
theorem fenceEnd?_eq {mark : Char} {length fuel : Nat} (hf : s.chars.length ≤ fuel) : fenceEnd? mark length fuel s =
    if s.chars = [] then none
    else if LineForm.closesFence mark length s.line.trim.chars then some s
    else fenceEnd? mark length (fuel - 1) s.afterLine := by
  cases fuel with
  | zero =>
    rw [if_pos (List.length_eq_zero_iff.1 (Nat.le_zero.1 hf))]
    rfl
  | succ fuel => simp only [fenceEnd?, List.isEmpty_iff, Nat.add_sub_cancel]

omit hX h hblank in
/-- A line that closes a fence is not blank. -/
theorem not_blank_of_closesFence {mark : Char} {length : Nat} (hlength : 0 < length)
    (hcloses : LineForm.closesFence mark length s.line.trim.chars) : s.lineBlank = false := by
  rw [← Bool.not_eq_true, ← s.isEmpty_trim_line, List.isEmpty_iff]
  intro hnil
  rw [hnil, LineForm.closesFence, Bool.and_eq_true, decide_eq_true_eq] at hcloses
  exact absurd hcloses.1 (Nat.not_le.2 hlength)

omit h hblank in
theorem fenceEnd?_fork {mark : Char} {length fuel fuel' : Nat} {closing : Stretch} (hlength : 0 < length) (h : X.Fork s s')
    (hf : s.chars.length ≤ fuel) (hf' : s'.chars.length ≤ fuel') (hend : fenceEnd? mark length fuel s = some closing)
    (hle : closing.start ≤ X.stop) (hstop : X.Gap ∨ closing.afterLine.start ≤ X.stop) :
    ∃ closing', fenceEnd? mark length fuel' s' = some closing' ∧ X.Fork closing closing' ∧
      X.Fork closing.afterLine closing'.afterLine ∧ closing.lineBlank = false := by
  induction fuel generalizing s s' fuel' with
  | zero => cases hend
  | succ fuel ih =>
    have hshort := s.length_afterLine_le
    have hshort' := s'.length_afterLine_le
    rw [fenceEnd?_eq hf] at hend
    rw [fenceEnd?_eq hf']
    split at hend
    · cases hend
    · next hs =>
      split at hend
      · next hcloses =>
        cases hend
        have hblank := not_blank_of_closesFence hlength hcloses
        have hafter := h.step hX hblank (Nat.le_refl _) hstop
        rw [if_neg (Stretch.ne_nil_of_not_blank ((h.lineBlank hX).trans hblank)), h.line_of_step hX hblank hafter, if_pos hcloses]
        exact ⟨s', rfl, h, hafter, hblank⟩
      · next hopen =>
        have hafter := (start_le_fenceEnd hend).trans hle
        rw [if_neg (h.ne_nil ((s.start_lt_afterLine hs).trans_le hafter)), h.line hX hs hafter, if_neg hopen]
        exact ih (h.afterLine hX hs hafter) (by omega) (by omega) hend

omit hX h hblank in
/-- Blank lines do not close a fence. -/
theorem fenceEnd?_of_prose {mark : Char} {length fuel : Nat} (hlength : 0 < length) (hf : s.chars.length ≤ fuel)
    (hprose : s.prose = []) : fenceEnd? mark length fuel s = none := by
  induction fuel generalizing s with
  | zero => rfl
  | succ fuel ih =>
    have hle := s.length_afterLine_le
    rw [fenceEnd?_eq hf]
    split
    · rfl
    · next hs =>
      cases hblank : s.lineBlank with
      | false =>
        rw [← s.skipped_eq_nil_iff, Stretch.skipped_not_blank hblank] at hprose
        exact absurd hprose hs
      | true =>
        rw [Stretch.prose_blank hs hblank] at hprose
        have hopen : ¬LineForm.closesFence mark length s.line.trim.chars := by
          intro hcloses
          rw [not_blank_of_closesFence hlength hcloses] at hblank
          cases hblank
        rw [if_neg hopen]
        exact ih (by omega) hprose

omit h hblank in
/-- A fence that nothing closes stays open when blank lines follow. -/
theorem fenceEnd?_open_fork {mark : Char} {length fuel fuel' : Nat} (hlength : 0 < length) (h : X.Fork s s')
    (hf : s.chars.length ≤ fuel) (hf' : s'.chars.length ≤ fuel') (hold : X.old = [])
    (hopen : fenceEnd? mark length fuel s = none) : fenceEnd? mark length fuel' s' = none := by
  induction fuel generalizing s s' fuel' with
  | zero =>
    have hnil : s.chars = [] := List.length_eq_zero_iff.1 (Nat.le_zero.1 hf)
    exact fenceEnd?_of_prose hlength hf' (prose_eq_nil_fork hX h (Stretch.prose_nil hnil))
  | succ fuel ih =>
    have hle := s.length_afterLine_le
    have hle' := s'.length_afterLine_le
    rw [fenceEnd?_eq hf] at hopen
    split at hopen
    · next hs => exact fenceEnd?_of_prose hlength hf' (prose_eq_nil_fork hX h (Stretch.prose_nil hs))
    · next hs =>
      split at hopen
      · cases hopen
      · next hline =>
        have hstop : s.stop ≤ X.stop := h.stop_le_of_old hold
        have hafter := h.afterLine hX hs (s.afterLine.start_le_stop.trans (s.stop_afterLine.trans_le hstop))
        rw [fenceEnd?_eq hf', h.line hX hs hafter.start_le, if_neg hline]
        split
        · rfl
        · exact ih hafter (by omega) (by omega) hopen

omit hX h hblank in
/-- A fence that nothing closes runs on over the lines that are put at the end. -/
def RunsOn (X : Exchange) (scope : Scope) (s s' : Stretch) (node : Node) (stop : Nat) (r : Except Fault Result) : Prop :=
  X.old = [] ∧ stop = s.stop ∧ ∃ info code code' start, node = scope.node (.codeBlock info code) start s.stop ∧
    r = .ok (scope.node (.codeBlock info code') start s'.stop, s'.stop)

theorem fence_fork {mark : Char} {length : Nat} (hlength : 0 < length) (hr : fence scope s mark length = (node, stop))
    (hstop : X.Gap ∧ (∀ p ∈ node.position, p.stop ≤ X.stop) ∨ stop ≤ X.stop) :
    Kept X node stop (.ok (fence scope s' mark length)) ∨ RunsOn X scope s s' node stop (.ok (fence scope s' mark length)) := by
  unfold fence at hr
  dsimp only at hr
  split at hr
  · next closing hend =>
    cases hr
    have hclosing : closing.line.stop ≤ closing.afterLine.start := closing.stop_line_le_afterLine
    have hstart : closing.start ≤ closing.line.stop := closing.line.start_le_stop
    have hafter : X.Fork s.afterLine s'.afterLine := by
      refine h.step hX hblank (start_le_fenceEnd hend) (hstop.imp And.left fun hstop => ?_)
      exact (hstart.trans hclosing).trans hstop
    have hle : closing.start ≤ X.stop := by
      rcases hstop with ⟨-, hposition⟩ | hstop
      · exact hstart.trans (hposition _ rfl)
      · exact (hstart.trans hclosing).trans hstop
    obtain ⟨closing', hend', hfork, hnext, hblankClosing⟩ := fenceEnd?_fork hX hlength hafter (Nat.le_refl _)
      (Nat.le_refl s'.afterLine.chars.length) hend hle (hstop.imp_left And.left)
    refine .inl ⟨?_, hnext.start_le⟩
    rw [fence, hend', h.line_of_step hX hblank hafter]
    dsimp only
    rw [hfork.line_of_step hX hblankClosing hnext, hnext.start_eq, hfork.start_eq, hafter.till hle]
  · next hopen =>
    cases hr
    have hle : s.stop ≤ X.stop := by
      rcases hstop with ⟨-, hposition⟩ | hstop
      · exact hposition _ rfl
      · exact hstop
    have hold := h.old_eq_nil hle
    have hafter := h.afterLine hX (Stretch.ne_nil_of_not_blank hblank)
      (s.afterLine.start_le_stop.trans (s.stop_afterLine.trans_le hle))
    have hopen' := fenceEnd?_open_fork hX hlength hafter (Nat.le_refl _)
      (Nat.le_refl s'.afterLine.chars.length) hold hopen
    refine .inr ⟨hold, rfl, _, _, s'.afterLine.chars, _, rfl, ?_⟩
    rw [fence, hopen', h.line_of_step hX hblank hafter]

end
end Narration.Markup.Block
