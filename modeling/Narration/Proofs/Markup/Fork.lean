import Narration.Proofs.Markup.Laid.Block

/-!
# Texts that part at an offset

Two documents are the same down to some place and go on differently from there. What is read above that place does not
tell them apart.

* `Stretch.prose` : the first line of a stretch that is not blank;
* `LineForm.Resembles` : lines in front of which the same blocks end;
* `Exchange`, `Exchange.Fork` : a text below an offset exchanged for another, and the stretches that run into it;
* `Exchange.Begins` : both texts begin alike;
* `Exchange.Fork.line`, `Exchange.Fork.resembles`, `Exchange.Fork.step`, `Exchange.Fork.prose` : first lines, what follows them,
  and first lines that are not blank;
* `Exchange.Fork.paragraphEnd`, `Exchange.Fork.quoteLines`, `Exchange.Fork.itemLines` : the lines that a paragraph, a quote and
  a list item take.
-/

namespace Narration.Markup
open Block (indent_le skipBlankLines_eq skipBlankLines_blank skipBlankLines_not_blank)
open Text (firstLine)

/-! ## Prose lines -/

namespace Stretch

variable {s : Stretch} {fuel : Nat}

/-- The stretch after all blank lines at its front. -/
def skipped (s : Stretch) : Stretch := skipBlankLines s.chars.length s

/-- The first line that is not blank, if any. -/
def prose (s : Stretch) : Text := s.skipped.line.chars

theorem skipBlankLines_eq_skipped (h : s.chars.length ≤ fuel) : skipBlankLines fuel s = s.skipped :=
  skipBlankLines_eq h (Nat.le_refl _)

theorem length_afterLine_le (s : Stretch) : s.afterLine.chars.length ≤ s.chars.length - 1 := by
  rw [chars_afterLine, List.length_drop]
  omega

theorem skipped_nil (h : s.chars = []) : s.skipped = s := by
  rw [skipped, h]
  rfl

theorem skipped_blank (hs : s.chars ≠ []) (hblank : s.lineBlank) : s.skipped = s.afterLine.skipped := by
  have hle := s.length_afterLine_le
  rw [skipped, skipBlankLines_blank hs hblank]
  exact skipBlankLines_eq_skipped (by omega)

theorem skipped_not_blank (hblank : s.lineBlank = false) : s.skipped = s := skipBlankLines_not_blank hblank _

theorem ne_nil_of_not_blank (hblank : s.lineBlank = false) : s.chars ≠ [] := by
  intro hnil
  rw [lineBlank, chars_line, hnil] at hblank
  cases hblank

theorem isEmpty_trim_line (s : Stretch) : s.line.trim.chars.isEmpty = s.lineBlank := by
  rw [Bool.eq_iff_iff, List.isEmpty_iff, chars_trim, lineBlank, Text.allBlank, List.all_eq_true]
  constructor
  · intro hnil c hc
    obtain ⟨before, after, hline, -, hbefore, hafter⟩ := Text.exists_trim s.line.chars
    rw [hnil, List.append_nil] at hline
    rw [hline] at hc
    exact (List.mem_append.1 hc).elim (hbefore c) (hafter c)
  · intro hall
    rw [Text.trim, Text.trimStart, Text.dropWhile_all hall]
    rfl

theorem prose_nil (h : s.chars = []) : s.prose = [] := by rw [prose, skipped_nil h, chars_line, h, List.takeWhile_nil]

theorem prose_blank (hs : s.chars ≠ []) (hblank : s.lineBlank) : s.prose = s.afterLine.prose := by
  rw [prose, skipped_blank hs hblank, prose]

theorem prose_not_blank (hblank : s.lineBlank = false) : s.prose = s.line.chars := by rw [prose, skipped_not_blank hblank]

/-- After all blank lines comes the end, or a line that is not blank. -/
theorem skipped_cases (s : Stretch) : s.skipped.chars = [] ∨ s.skipped.lineBlank = false := by
  induction hn : s.chars.length using Nat.strongRecOn generalizing s with
  | _ n ih =>
    by_cases hs : s.chars = []
    · rw [skipped_nil hs]
      exact .inl hs
    · cases hblank : s.lineBlank with
      | false =>
        rw [skipped_not_blank hblank]
        exact .inr hblank
      | true =>
        have hpos := List.length_pos_iff.2 hs
        have hle := s.length_afterLine_le
        rw [skipped_blank hs hblank]
        exact ih s.afterLine.chars.length (by omega) s.afterLine rfl

theorem skipped_eq_nil_iff (s : Stretch) : s.skipped.chars = [] ↔ s.prose = [] := by
  constructor
  · intro h
    rw [prose, chars_line, h, List.takeWhile_nil]
  · intro h
    refine s.skipped_cases.resolve_right fun hblank => ?_
    rw [lineBlank, ← prose, h] at hblank
    cases hblank

/-- The first line that is not blank is empty only where there is none. -/
theorem isEmpty_prose (s : Stretch) : s.prose.isEmpty = Text.allBlank s.prose := by
  rcases s.skipped_cases with hnil | hblank
  · rw [(s.skipped_eq_nil_iff).1 hnil]
    rfl
  · have hne : s.prose ≠ [] := fun hnil => ne_nil_of_not_blank hblank ((s.skipped_eq_nil_iff).2 hnil)
    rw [List.isEmpty_eq_false_iff.2 hne]
    exact hblank.symm

theorem start_le_skipped (s : Stretch) : s.start ≤ s.skipped.start := by
  obtain ⟨n, hn⟩ := s.exists_drop_skipBlankLines s.chars.length
  rw [skipped, hn]
  exact s.start_le_drop n

/-- Nothing is skipped at the end and in front of a line that is not blank. -/
theorem start_skipped_eq_iff (s : Stretch) : s.skipped.start = s.start ↔ s.chars = [] ∨ s.lineBlank = false := by
  by_cases hs : s.chars = []
  · rw [skipped_nil hs]
    exact iff_of_true rfl (.inl hs)
  · cases hblank : s.lineBlank with
    | false =>
      rw [skipped_not_blank hblank]
      exact iff_of_true rfl (.inr rfl)
    | true =>
      have hlt := s.start_lt_afterLine hs
      have hle := s.afterLine.start_le_skipped
      rw [skipped_blank hs hblank]
      exact iff_of_false (by omega) (by simp [hs])

theorem skipped_shift (s : Stretch) (k : Nat) : (s.shift k).skipped = s.skipped.shift k := s.skipBlankLines_shift k _

theorem prose_shift (s : Stretch) (k : Nat) : (s.shift k).prose = s.prose := by
  rw [prose, skipped_shift, line_shift, chars_shift, prose]

theorem prose_mk (a : Nat) (t : Text) : (⟨a, t⟩ : Stretch).prose = (⟨0, t⟩ : Stretch).prose := by
  rw [← prose_shift ⟨0, t⟩ a, shift, Nat.zero_add]

/-- Blanks in front of a blank line. -/
theorem prose_indented {q e : Text} (hq : '\n' ∉ q) (hblank : Text.allBlank (q ++ firstLine e)) (a : Nat) :
    (⟨a, q ++ e⟩ : Stretch).prose = (⟨0, e⟩ : Stretch).prose := by
  obtain ⟨v, hv, hend⟩ := Text.exists_afterFirstLine e
  have hl := Text.newline_notMem_firstLine e
  generalize firstLine e = l at hblank hv hl
  subst hv
  have hskip {o : Nat} {u : Text} (hu : '\n' ∉ u) (hblank : Text.allBlank u) :
      (⟨o, u ++ v⟩ : Stretch).prose = (⟨0, v.drop 1⟩ : Stretch).prose := by
    by_cases hnil : u ++ v = []
    · obtain ⟨rfl, rfl⟩ := List.append_eq_nil_iff.1 hnil
      exact prose_mk o []
    · have hline : (⟨o, u ++ v⟩ : Stretch).lineBlank := by rw [lineBlank, line_mk_endsLine hu hend, hblank]
      rw [prose_blank hnil hline, afterLine_mk_endsLine hu hend, prose_mk]
  have hall : Text.allBlank l := by
    rw [Text.allBlank, List.all_append, Bool.and_eq_true] at hblank
    exact hblank.2
  rw [← List.append_assoc, hskip _ hblank, hskip hl hall]
  rw [List.mem_append, not_or]
  exact ⟨hq, hl⟩

/-- A prose line begins within the stretch. -/
theorem start_skipped_lt (h : s.prose ≠ []) : s.skipped.start < s.skipped.line.stop :=
  Nat.lt_add_of_pos_right (List.length_pos_iff.2 h)

end Stretch

/-! ## Lines that look alike -/

/-- Lines that begin so much alike that a block which ends in front of the one ends in front of the other. -/
structure LineForm.Resembles (l l' : Text) : Prop where
  blank : Text.allBlank l' = Text.allBlank l
  indent : Text.indent l' = Text.indent l
  bar : '|' ∈ l' → '|' ∈ l
  head : (Text.trimStart l').head? = (Text.trimStart l).head?
  rule : isTableRule (Text.trim l') = isTableRule (Text.trim l)
  underline : underline? (Text.trim l') = underline? (Text.trim l)
  interrupts : interrupts (Text.trim l') = interrupts (Text.trim l)
  marker : (marker? (Text.trimStart l')).isSome = (marker? (Text.trimStart l)).isSome
  stranded : Block.Stranded l' → Block.Stranded l

theorem LineForm.Resembles.refl (l : Text) : Resembles l l := ⟨rfl, rfl, id, rfl, rfl, rfl, rfl, rfl, id⟩

/-! ## Exchanges -/

/-- A text above an offset, what follows it, and what is to follow it instead. -/
structure Exchange where
  above : Text
  stop : Nat
  old : Text
  new : Text

namespace Exchange

variable {X : Exchange} {s s' : Stretch} {n o : Nat} {q : Text}

/-- Both texts below begin with lines that look alike behind whatever stands above them on the line, and so do their first
lines that are not blank. -/
structure Begins (X : Exchange) : Prop where
  line : ∀ q, q <:+ X.above → '\n' ∉ q → LineForm.Resembles (q ++ firstLine X.old) (q ++ firstLine X.new)
  prose : LineForm.Resembles (⟨0, X.old⟩ : Stretch).prose (⟨0, X.new⟩ : Stretch).prose
  blank : Text.allBlank (firstLine X.old) → firstLine X.new = firstLine X.old
  ends : X.old = [] → X.above = [] ∨ X.above.getLast? = some '\n'

/-- Texts that begin with the same line. -/
theorem begins_of_same (hline : firstLine X.new = firstLine X.old)
    (hprose : (⟨0, X.new⟩ : Stretch).prose = (⟨0, X.old⟩ : Stretch).prose)
    (hends : X.old = [] → X.above = [] ∨ X.above.getLast? = some '\n') : X.Begins where
  line _ _ _ := hline ▸ .refl _
  prose := hprose ▸ .refl _
  blank _ := hline
  ends := hends

/-- The text above is made of whole lines, and a gap follows it. -/
structure Gap (X : Exchange) : Prop where
  blank : Text.allBlank (firstLine X.old)
  lines : X.above = [] ∨ X.above.getLast? = some '\n'

/-- A stretch that begins above the offset, before and after the exchange. -/
inductive Fork (X : Exchange) : Stretch → Stretch → Prop
  | mk {a : Nat} {q : Text} (hq : q <:+ X.above) (ha : a + q.length = X.stop) : Fork X ⟨a, q ++ X.old⟩ ⟨a, q ++ X.new⟩

theorem getLast?_of_suffix (h : X.above = [] ∨ X.above.getLast? = some '\n') (hq : q <:+ X.above) (hne : q ≠ []) :
    q.getLast? = some '\n' := by
  obtain ⟨p, hp⟩ := hq
  rw [← hp, List.getLast?_append_of_ne_nil p hne, List.append_eq_nil_iff] at h
  exact h.resolve_left fun hnil => hne hnil.2

namespace Fork

variable (h : X.Fork s s')
include h

theorem start_eq : s'.start = s.start := by
  cases h
  rfl

theorem start_le : s.start ≤ X.stop := by
  cases h with
  | mk hq ha => exact Nat.le.intro ha

theorem stop_le : X.stop ≤ s.stop := by
  cases h with
  | mk hq ha =>
    rw [Stretch.stop, List.length_append]
    dsimp only
    omega

theorem ne_nil (hlt : s.start < X.stop) : s'.chars ≠ [] := by
  cases h with
  | @mk a q hq ha =>
    have hne : q ≠ [] := by
      rintro rfl
      exact absurd ha (Nat.ne_of_lt hlt)
    exact List.append_ne_nil_of_left_ne_nil hne _

theorem old_eq_nil (hle : s.stop ≤ X.stop) : X.old = [] := by
  cases h with
  | @mk a q hq ha =>
    rw [Stretch.stop, List.length_append] at hle
    exact List.length_eq_zero_iff.1 (by dsimp only at hle; omega)

theorem stop_le_of_old (hold : X.old = []) : s.stop ≤ X.stop := by
  cases h with
  | @mk a q hq ha =>
    rw [Stretch.stop, hold, List.append_nil]
    exact ha.le

theorem resembles (hX : X.Begins) : LineForm.Resembles s.line.chars s'.line.chars := by
  cases h with
  | @mk a q hq ha =>
    rw [Stretch.chars_line, Stretch.chars_line]
    change LineForm.Resembles (firstLine (q ++ X.old)) (firstLine (q ++ X.new))
    by_cases hmem : '\n' ∈ q
    · rw [Text.firstLine_append_of_mem hmem, Text.firstLine_append_of_mem hmem]
      exact .refl _
    · rw [Text.firstLine_append_of_notMem hmem, Text.firstLine_append_of_notMem hmem]
      exact hX.line q hq hmem

theorem lineBlank (hX : X.Begins) : s'.lineBlank = s.lineBlank := (h.resembles hX).blank

theorem underline (hX : X.Begins) : LineForm.underline? s'.line.trim.chars = LineForm.underline? s.line.trim.chars := by
  rw [Stretch.chars_trim, Stretch.chars_trim, (h.resembles hX).underline]

theorem interrupts (hX : X.Begins) : LineForm.interrupts s'.line.trim.chars = LineForm.interrupts s.line.trim.chars := by
  rw [Stretch.chars_trim, Stretch.chars_trim, (h.resembles hX).interrupts]

theorem marker (hX : X.Begins) : (LineForm.marker? (s'.line.chars.drop (Text.indent s'.line.chars))).isSome =
    (LineForm.marker? (s.line.chars.drop (Text.indent s.line.chars))).isSome := by
  rw [Text.drop_indent, Text.drop_indent, (h.resembles hX).marker]

/-- A line that ends above the offset. -/
theorem newline_mem (hX : X.Begins) (hs : s.chars ≠ []) (hle : s.afterLine.start ≤ X.stop) :
    ∃ q, s.chars = q ++ X.old ∧ s'.chars = q ++ X.new ∧ '\n' ∈ q := by
  cases h with
  | @mk a q hq ha =>
    refine ⟨q, rfl, rfl, ?_⟩
    by_contra hmem
    have hold : X.old = [] := by
      by_contra hne
      have hpos := List.length_pos_iff.2 hne
      simp only [Stretch.afterLine, Stretch.start_drop, Stretch.chars_line, List.length_append] at hle
      have hfirst := congrArg List.length (Text.firstLine_append_of_notMem hmem X.old)
      rw [List.length_append] at hfirst
      unfold firstLine at hfirst
      omega
    have hne : q ≠ [] := by
      rintro rfl
      exact hs hold
    exact hmem (List.mem_of_getLast? (getLast?_of_suffix (hX.ends hold) hq hne))

theorem line (hX : X.Begins) (hs : s.chars ≠ []) (hle : s.afterLine.start ≤ X.stop) : s'.line = s.line := by
  obtain ⟨q, hold, hnew, hmem⟩ := h.newline_mem hX hs hle
  rw [Stretch.line, Stretch.line, h.start_eq, hold, hnew]
  exact congrArg (Stretch.mk s.start) ((Text.firstLine_append_of_mem hmem X.new).trans (Text.firstLine_append_of_mem hmem X.old).symm)

/-- A line of which only blanks are left above the offset, or which ends there. -/
theorem line_of_blank (hX : X.Begins) (hn : s.start + n ≤ X.stop) (hblank : (s.drop n).lineBlank) : s'.line = s.line := by
  cases h with
  | @mk a q hq ha =>
    have hle : n ≤ q.length := by
      dsimp only at hn
      omega
    have hline (hsame : firstLine (q ++ X.new) = firstLine (q ++ X.old)) :
        (⟨a, q ++ X.new⟩ : Stretch).line = (⟨a, q ++ X.old⟩ : Stretch).line := congrArg (Stretch.mk a) hsame
    by_cases hmem : '\n' ∈ q
    · exact hline ((Text.firstLine_append_of_mem hmem X.new).trans (Text.firstLine_append_of_mem hmem X.old).symm)
    · have hrest : '\n' ∉ q.drop n := fun hdrop => hmem (List.mem_of_mem_drop hdrop)
      rw [Stretch.lineBlank, Stretch.chars_line, Stretch.chars_drop, List.drop_append_of_le_length hle] at hblank
      change Text.allBlank (firstLine (q.drop n ++ X.old)) = true at hblank
      rw [Text.firstLine_append_of_notMem hrest, Text.allBlank, List.all_append, Bool.and_eq_true] at hblank
      refine hline ?_
      rw [Text.firstLine_append_of_notMem hmem, Text.firstLine_append_of_notMem hmem, hX.blank hblank.2]

/-- A line that is not blank and ends above the offset. -/
theorem line_of_step (hX : X.Begins) (hblank : s.lineBlank = false) (hafter : X.Fork s.afterLine s'.afterLine) : s'.line = s.line :=
  h.line hX (Stretch.ne_nil_of_not_blank hblank) hafter.start_le

theorem drop (hn : s.start + n ≤ X.stop) : X.Fork (s.drop n) (s'.drop n) := by
  cases h with
  | @mk a q hq ha =>
    have hle : n ≤ q.length := by
      dsimp only at hn
      omega
    have hdrop (e : Text) : (⟨a, q ++ e⟩ : Stretch).drop n = ⟨a + n, q.drop n ++ e⟩ := by
      rw [Stretch.drop, List.drop_append_of_le_length hle, Nat.min_eq_left (by rw [List.length_append]; omega)]
    rw [hdrop, hdrop]
    exact .mk ((List.drop_suffix n q).trans hq) (by rw [List.length_drop]; omega)

theorem since (hs : s.start ≤ o) (ho : o ≤ X.stop) : X.Fork (s.since o) (s'.since o) := by
  rw [Stretch.since, Stretch.since, h.start_eq]
  exact h.drop (by omega)

theorem till (ho : o ≤ X.stop) : s'.till o = s.till o := by
  cases h with
  | @mk a q hq ha =>
    have hle : o - a ≤ q.length := by omega
    simp only [Stretch.till, Stretch.take, List.take_append_of_le_length hle]

/-- What follows the first line, when that line ends above the offset. -/
theorem afterLine (hX : X.Begins) (hs : s.chars ≠ []) (hle : s.afterLine.start ≤ X.stop) : X.Fork s.afterLine s'.afterLine := by
  obtain ⟨q', hold, -, hmem⟩ := h.newline_mem hX hs hle
  cases h with
  | @mk a q hq ha =>
    obtain rfl := List.append_cancel_right hold
    obtain ⟨l, p, rfl, hl⟩ := Text.firstLine_of_mem hmem
    simp only [List.append_assoc, List.cons_append, Stretch.afterLine_mk hl]
    refine .mk ?_ ?_
    · exact .trans ⟨l ++ ['\n'], by simp⟩ hq
    · simp only [List.length_append, List.length_cons] at ha
      omega

/-- Lines that begin above a gap end there too. -/
theorem start_afterLine_le (hgap : X.Gap) (hlt : s.start < X.stop) : s.afterLine.start ≤ X.stop := by
  cases h with
  | @mk a q hq ha =>
    have hne : q ≠ [] := by
      rintro rfl
      exact absurd ha (Nat.ne_of_lt hlt)
    have hmem : '\n' ∈ q := List.mem_of_getLast? (getLast?_of_suffix hgap.lines hq hne)
    obtain ⟨l, p, rfl, hl⟩ := Text.firstLine_of_mem hmem
    simp only [List.append_assoc, List.cons_append, Stretch.afterLine_mk hl]
    simp only [List.length_append, List.length_cons] at ha
    omega

/-- A line that is not blank begins above a gap. -/
theorem start_lt_of_gap (hgap : X.Gap) (hblank : s.lineBlank = false) : s.start < X.stop := by
  refine Nat.lt_of_le_of_ne h.start_le fun heq => ?_
  cases h with
  | @mk a q hq ha =>
    obtain rfl : q = [] := List.length_eq_zero_iff.1 (by dsimp only at heq; omega)
    rw [Stretch.lineBlank, Stretch.chars_line, List.nil_append, hgap.blank] at hblank
    cases hblank

/-- The first line ends above the offset when it is not blank and a gap follows there, or when reading goes on above it. -/
theorem step (hX : X.Begins) (hblank : s.lineBlank = false) (hr : s.afterLine.start ≤ n) (hstop : X.Gap ∨ n ≤ X.stop) :
    X.Fork s.afterLine s'.afterLine := by
  refine h.afterLine hX (Stretch.ne_nil_of_not_blank hblank) ?_
  rcases hstop with hgap | hle
  · exact h.start_afterLine_le hgap (h.start_lt_of_gap hgap hblank)
  · exact hr.trans hle

/-- The blanks at the front of a line that ends above the offset. -/
theorem trimStart (hlt : s.trimStart.start < X.stop) : X.Fork s.trimStart s'.trimStart := by
  have hsame : Text.indent s'.chars = Text.indent s.chars := by
    cases h with
    | @mk a q hq ha =>
      have hindent : Text.indent (q ++ X.old) < q.length := by
        have hle := indent_le (q ++ X.old)
        simp only [Stretch.trimStart, Stretch.start_drop] at hlt
        omega
      have hprose := Text.not_allBlank_of_indent_lt hindent
      rw [Text.indent_append_of_not_allBlank hprose, Text.indent_append_of_not_allBlank hprose]
  rw [Stretch.trimStart, Stretch.trimStart, hsame]
  refine h.drop ?_
  have hle := indent_le s.chars
  simp only [Stretch.trimStart, Stretch.start_drop] at hlt
  omega

theorem skipped (hX : X.Begins) (hlt : s.skipped.start < X.stop) : X.Fork s.skipped s'.skipped := by
  induction hn : s.chars.length using Nat.strongRecOn generalizing s s' with
  | _ n ih =>
    subst hn
    have hne : s.chars ≠ [] ∧ s'.chars ≠ [] := by
      have hstart := s.start_le_skipped
      cases h with
      | @mk a q hq ha =>
        have hq : q ≠ [] := by
          rintro rfl
          rw [List.length_nil] at ha
          dsimp only at hstart
          omega
        exact ⟨by simp [hq], by simp [hq]⟩
    cases hblank : s.lineBlank with
    | false =>
      rw [Stretch.skipped_not_blank hblank, Stretch.skipped_not_blank ((h.lineBlank hX).trans hblank)]
      exact h
    | true =>
      have hpos := List.length_pos_iff.2 hne.1
      have hle := s.length_afterLine_le
      rw [Stretch.skipped_blank hne.1 hblank] at hlt ⊢
      rw [Stretch.skipped_blank hne.2 ((h.lineBlank hX).trans hblank)]
      exact ih _ (by omega) (h.afterLine hX hne.1 (Nat.le_of_lt (Nat.lt_of_le_of_lt s.afterLine.start_le_skipped hlt))) hlt rfl

theorem prose (hX : X.Begins) : LineForm.Resembles s.prose s'.prose := by
  cases h with
  | @mk a q hq ha =>
    induction hn : q.length using Nat.strongRecOn generalizing a q with
    | _ n ih =>
      subst hn
      have hfork : X.Fork ⟨a, q ++ X.old⟩ ⟨a, q ++ X.new⟩ := .mk hq ha
      cases hblank : (⟨a, q ++ X.old⟩ : Stretch).lineBlank with
      | false =>
        have hblank' := (hfork.lineBlank hX).trans hblank
        rw [Stretch.prose_not_blank hblank, Stretch.prose_not_blank hblank']
        exact hfork.resembles hX
      | true =>
        have hblank' := (hfork.lineBlank hX).trans hblank
        by_cases hmem : '\n' ∈ q
        · obtain ⟨l, p, rfl, hl⟩ := Text.firstLine_of_mem hmem
          rw [Stretch.prose_blank (by simp) hblank, Stretch.prose_blank (by simp) hblank']
          simp only [List.append_assoc, List.cons_append, Stretch.afterLine_mk hl]
          simp only [List.length_append, List.length_cons] at ha
          have hlt : p.length < (l ++ '\n' :: p).length := by
            rw [List.length_append, List.length_cons]
            omega
          exact ih p.length hlt (.trans ⟨l ++ ['\n'], by simp⟩ hq) (by omega) rfl
        · have hall (e : Text) (he : Text.allBlank (firstLine (q ++ e))) : Text.allBlank (q ++ firstLine e) := by
            rwa [Text.firstLine_append_of_notMem hmem] at he
          rw [Stretch.prose_indented hmem (hall _ hblank), Stretch.prose_indented hmem (hall _ hblank')]
          exact hX.prose

end Fork
end Exchange

/-! ## Lines -/

namespace Block

variable {X : Exchange} {s s' : Stretch} {fuel fuel' last : Nat}

theorem isEmpty_or_trim_line (s : Stretch) : (s.chars.isEmpty || s.line.trim.chars.isEmpty) = s.lineBlank := by
  rw [s.isEmpty_trim_line, Bool.or_eq_right_iff_imp, List.isEmpty_iff]
  intro hnil
  rw [Stretch.lineBlank, Stretch.chars_line, hnil]
  rfl

/-- The lines of a paragraph, one step for each. -/
theorem paragraphEnd_eq (hf : s.chars.length ≤ fuel) : paragraphEnd fuel last s =
    if s.lineBlank then (last, .other, s)
    else match LineForm.underline? s.line.trim.chars with
    | some depth => (last, .underline depth s.line, s.afterLine)
    | none =>
      if LineForm.interrupts s.line.trim.chars then (last, .other, s)
      else paragraphEnd (fuel - 1) s.line.stop s.afterLine := by
  cases fuel with
  | zero =>
    have hnil : s.chars = [] := List.length_eq_zero_iff.1 (Nat.le_zero.1 hf)
    rw [← isEmpty_or_trim_line, hnil]
    rfl
  | succ fuel =>
    rw [← isEmpty_or_trim_line]
    rfl

/-- What ends a paragraph above an offset does not depend on what follows there. -/
theorem paragraphEnd_fork (hX : X.Begins) (h : X.Fork s s') (hf : s.chars.length ≤ fuel) (hf' : s'.chars.length ≤ fuel')
    (hstop : X.Gap ∨ (paragraphEnd fuel last s).2.2.start ≤ X.stop) :
    ∃ rest', paragraphEnd fuel' last s' = ((paragraphEnd fuel last s).1, (paragraphEnd fuel last s).2.1, rest') ∧
      X.Fork (paragraphEnd fuel last s).2.2 rest' := by
  induction fuel generalizing s s' last fuel' with
  | zero =>
    have hnil : s.chars = [] := List.length_eq_zero_iff.1 (Nat.le_zero.1 hf)
    have hblank : s.lineBlank := by rw [Stretch.lineBlank, Stretch.chars_line, hnil]; rfl
    rw [paragraphEnd_eq hf', h.lineBlank hX, if_pos hblank]
    exact ⟨s', rfl, h⟩
  | succ fuel ih =>
    rw [paragraphEnd_eq hf] at hstop ⊢
    rw [paragraphEnd_eq hf', h.lineBlank hX, h.underline hX, h.interrupts hX]
    cases hblank : s.lineBlank with
    | true =>
      rw [if_pos rfl]
      exact ⟨s', rfl, h⟩
    | false =>
      rw [if_neg Bool.false_ne_true, if_neg Bool.false_ne_true]
      rw [hblank, if_neg Bool.false_ne_true] at hstop
      cases hunderline : LineForm.underline? s.line.trim.chars with
      | some depth =>
        rw [hunderline] at hstop
        have hafter := h.step hX hblank (Nat.le_refl _) hstop
        rw [h.line_of_step hX hblank hafter]
        exact ⟨_, rfl, hafter⟩
      | none =>
        rw [hunderline] at hstop
        dsimp only at hstop ⊢
        split
        · exact ⟨s', rfl, h⟩
        · next hinterrupts =>
          rw [if_neg hinterrupts] at hstop
          have hafter := h.step hX hblank (start_le_paragraphEnd _ _ _) hstop
          have hle := s.length_afterLine_le
          have hle' := s'.length_afterLine_le
          rw [h.line_of_step hX hblank hafter]
          exact ih hafter (by omega) (by omega) hstop

/-- A line that does not go on with a quote. -/
theorem quotePart?_eq_none {first : Bool} {bare : Stretch} :
    quotePart? first bare = none ↔ bare.chars.head? ≠ some '>' ∧ (first || LineForm.interrupts bare.trim.chars) := by
  unfold quotePart?
  split
  · next heq => simp [heq]
  · next heq => simp [heq]
  · next hnot =>
    have hhead : bare.chars.head? ≠ some '>' := by
      intro hhead
      obtain ⟨u, hu⟩ := List.head?_eq_some_iff.1 hhead
      exact hnot u hu
    cases first <;> simp [hhead]

theorem quotePart?_fork (hX : X.Begins) (h : X.Fork s s') {first : Bool} (hnone : quotePart? first s.line.trimStart = none) :
    quotePart? first s'.line.trimStart = none := by
  rw [quotePart?_eq_none, Stretch.trim_trimStart, Stretch.chars_trimStart] at hnone ⊢
  rwa [(h.resembles hX).head, h.interrupts hX]

/-- The lines of a quote, one step for each. -/
theorem quoteLines_eq (hf : s.chars.length ≤ fuel) (first : Bool) : quoteLines fuel first s =
    if s.lineBlank then ([], s)
    else match quotePart? first s.line.trimStart with
    | none => ([], s)
    | some part => (part :: (quoteLines (fuel - 1) false s.afterLine).1, (quoteLines (fuel - 1) false s.afterLine).2) := by
  rw [← isEmpty_or_trim_line]
  cases fuel with
  | zero =>
    have hnil : s.chars = [] := List.length_eq_zero_iff.1 (Nat.le_zero.1 hf)
    rw [hnil]
    rfl
  | succ fuel =>
    rw [quoteLines_succ, Stretch.trim_trimStart]
    rfl

theorem quoteLines_fork (hX : X.Begins) (h : X.Fork s s') (hf : s.chars.length ≤ fuel) (hf' : s'.chars.length ≤ fuel')
    (first : Bool) (hstop : X.Gap ∨ (quoteLines fuel first s).2.start ≤ X.stop) :
    ∃ rest', quoteLines fuel' first s' = ((quoteLines fuel first s).1, rest') ∧ X.Fork (quoteLines fuel first s).2 rest' := by
  induction fuel generalizing s s' first fuel' with
  | zero =>
    have hnil : s.chars = [] := List.length_eq_zero_iff.1 (Nat.le_zero.1 hf)
    have hblank : s.lineBlank := by rw [Stretch.lineBlank, Stretch.chars_line, hnil]; rfl
    rw [quoteLines_eq hf', h.lineBlank hX, if_pos hblank]
    exact ⟨s', rfl, h⟩
  | succ fuel ih =>
    rw [quoteLines_eq hf] at hstop ⊢
    rw [quoteLines_eq hf', h.lineBlank hX]
    cases hblank : s.lineBlank with
    | true =>
      rw [if_pos rfl]
      exact ⟨s', rfl, h⟩
    | false =>
      rw [if_neg Bool.false_ne_true, if_neg Bool.false_ne_true]
      rw [hblank, if_neg Bool.false_ne_true] at hstop
      cases hpart : quotePart? first s.line.trimStart with
      | none =>
        rw [quotePart?_fork hX h hpart]
        exact ⟨s', rfl, h⟩
      | some part =>
        rw [hpart] at hstop
        have hafter := h.step hX hblank (takes_quoteLines _ _ _).start_le hstop
        rw [h.line_of_step hX hblank hafter, hpart]
        have hle := s.length_afterLine_le
        have hle' := s'.length_afterLine_le
        obtain ⟨rest', hrest, hfork⟩ := ih hafter (by omega) (show _ ≤ fuel' - 1 by omega) false hstop
        dsimp only
        rw [hrest]
        exact ⟨rest', rfl, hfork⟩

/-- The lines of a list item, one step for each. -/
theorem itemLines_eq {base width : Nat} (hf : s.chars.length ≤ fuel) : itemLines base width fuel last s =
    if s.lineBlank then
      if Text.indent s.prose ≤ base then ([], last, s)
      else (s.line.take 0 :: (itemLines base width (fuel - 1) last s.afterLine).1,
        (itemLines base width (fuel - 1) last s.afterLine).2)
    else if Text.indent s.line.chars ≤ base && ((LineForm.marker? (s.line.chars.drop (Text.indent s.line.chars))).isSome ||
        LineForm.interrupts s.line.trim.chars) then ([], last, s)
    else (s.line.drop (min (Text.indent s.line.chars) width) ::
        (itemLines base width (fuel - 1) s.line.stop s.afterLine).1, (itemLines base width (fuel - 1) s.line.stop s.afterLine).2) := by
  by_cases hs : s.chars = []
  · have hblank : s.lineBlank := by rw [Stretch.lineBlank, Stretch.chars_line, hs]; rfl
    have hbase : Text.indent [] ≤ base := Nat.zero_le base
    rw [if_pos hblank, Stretch.prose_nil hs, if_pos hbase]
    cases fuel with
    | zero => rfl
    | succ fuel => rw [itemLines, if_pos (by rw [hs]; rfl)]
  · obtain ⟨fuel, rfl⟩ := Nat.exists_eq_succ_of_ne_zero (Nat.ne_of_gt (Nat.lt_of_lt_of_le (List.length_pos_iff.2 hs) hf))
    rw [itemLines, if_neg (by simpa using hs)]
    cases hblank : s.lineBlank with
    | false => rfl
    | true =>
      have hle := s.length_afterLine_le
      have hnext : Stretch.skipBlankLines s.chars.length s.afterLine = s.skipped := by
        rw [Stretch.skipBlankLines_eq_skipped (by omega), Stretch.skipped_blank hs hblank]
      have hcond : (s.skipped.chars.isEmpty || decide (Text.indent s.skipped.line.chars ≤ base)) =
          decide (Text.indent s.prose ≤ base) := by
        refine Bool.or_eq_right_iff_imp.2 fun hnil => ?_
        rw [List.isEmpty_iff, s.skipped_eq_nil_iff] at hnil
        have hbase : Text.indent [] ≤ base := Nat.zero_le base
        rw [← hnil] at hbase
        exact decide_eq_true hbase
      dsimp only
      rw [if_pos rfl, if_pos rfl, hnext, hcond]
      simp only [decide_eq_true_eq]
      rfl

/-- The last line of an item comes after those before it, and before the place where reading goes on. -/
theorem last_le_itemLines {base width : Nat} (hf : s.chars.length ≤ fuel) (hlast : last ≤ s.start) :
    last ≤ (itemLines base width fuel last s).2.1 ∧
      (itemLines base width fuel last s).2.1 ≤ (itemLines base width fuel last s).2.2.start := by
  induction fuel generalizing s last with
  | zero => exact ⟨Nat.le_refl _, hlast⟩
  | succ fuel ih =>
    have hle := s.length_afterLine_le
    have hline := s.stop_line_le_afterLine
    have hstart := s.start_le_afterLine
    have hstop : s.start ≤ s.line.stop := s.line.start_le_stop
    rw [itemLines_eq hf]
    split
    · split
      · exact ⟨Nat.le_refl _, hlast⟩
      · exact ih (by omega) (by omega)
    · split
      · exact ⟨Nat.le_refl _, hlast⟩
      · obtain ⟨hmore, hrest⟩ := @ih s.afterLine s.line.stop (by omega) hline
        exact ⟨(hlast.trans hstop).trans hmore, hrest⟩

/-- A line that is indented beyond the base of the list belongs to the item, with the blank lines in front of it. -/
theorem stop_prose_le_itemLines {base width : Nat} (hf : s.chars.length ≤ fuel) (hprose : base < Text.indent s.prose) :
    s.skipped.line.stop ≤ (itemLines base width fuel last s).2.1 := by
  induction fuel generalizing s last with
  | zero =>
    have hnil : s.chars = [] := List.length_eq_zero_iff.1 (Nat.le_zero.1 hf)
    rw [Stretch.prose_nil hnil] at hprose
    exact absurd hprose (Nat.not_lt_zero _)
  | succ fuel ih =>
    have hle := s.length_afterLine_le
    rw [itemLines_eq hf]
    cases hblank : s.lineBlank with
    | true =>
      have hs : s.chars ≠ [] := by
        intro hnil
        rw [Stretch.prose_nil hnil] at hprose
        exact absurd hprose (Nat.not_lt_zero _)
      rw [if_pos rfl, if_neg (Nat.not_le.2 hprose)]
      rw [Stretch.prose_blank hs hblank] at hprose
      rw [Stretch.skipped_blank hs hblank]
      exact ih (by omega) hprose
    | false =>
      rw [Stretch.prose_not_blank hblank] at hprose
      rw [if_neg Bool.false_ne_true, if_neg (by simp [Nat.not_le.2 hprose]), Stretch.skipped_not_blank hblank]
      exact (last_le_itemLines (by omega) s.stop_line_le_afterLine).1

theorem itemLines_fork {base width : Nat} (hX : X.Begins) (h : X.Fork s s') (hf : s.chars.length ≤ fuel)
    (hf' : s'.chars.length ≤ fuel') (hstop : X.Gap ∧ (itemLines base width fuel last s).2.1 ≤ X.stop ∨
      (itemLines base width fuel last s).2.2.start ≤ X.stop) :
    ∃ rest', itemLines base width fuel' last s' =
        ((itemLines base width fuel last s).1, (itemLines base width fuel last s).2.1, rest') ∧
      X.Fork (itemLines base width fuel last s).2.2 rest' := by
  induction fuel generalizing s s' last fuel' with
  | zero =>
    have hnil : s.chars = [] := List.length_eq_zero_iff.1 (Nat.le_zero.1 hf)
    have hblank : s.lineBlank := by rw [Stretch.lineBlank, Stretch.chars_line, hnil]; rfl
    have hbase : Text.indent [] ≤ base := Nat.zero_le base
    rw [itemLines_eq hf', h.lineBlank hX, if_pos hblank, (h.prose hX).indent, Stretch.prose_nil hnil, if_pos hbase]
    exact ⟨s', rfl, h⟩
  | succ fuel ih =>
    have hle := s.length_afterLine_le
    have hle' := s'.length_afterLine_le
    rw [itemLines_eq hf] at hstop ⊢
    rw [itemLines_eq hf', h.lineBlank hX, (h.prose hX).indent, h.marker hX, (h.resembles hX).indent, h.interrupts hX]
    cases hblank : s.lineBlank with
    | true =>
      rw [if_pos rfl, if_pos rfl]
      rw [hblank, if_pos rfl] at hstop
      by_cases hprose : Text.indent s.prose ≤ base
      · rw [if_pos hprose, if_pos hprose]
        exact ⟨s', rfl, h⟩
      · rw [if_neg hprose] at hstop
        rw [if_neg hprose, if_neg hprose]
        have hs : s.chars ≠ [] := by
          intro hnil
          rw [Stretch.prose_nil hnil] at hprose
          exact hprose (Nat.zero_le _)
        have hafter : s.afterLine.start ≤ X.stop := by
          rcases hstop with ⟨-, hlast⟩ | hrest
          · rw [Stretch.prose_blank hs hblank] at hprose
            have hline := @stop_prose_le_itemLines s.afterLine fuel last base width
              (by omega) (Nat.not_le.1 hprose)
            have hstart := s.afterLine.start_le_skipped
            have hskipped : s.afterLine.skipped.start ≤ s.afterLine.skipped.line.stop := s.afterLine.skipped.line.start_le_stop
            exact hstart.trans (hskipped.trans (hline.trans hlast))
          · exact (takes_itemLines _ _ _ _ _).start_le.trans hrest
        obtain ⟨rest', hrest, hfork⟩ := ih (h.afterLine hX hs hafter) (by omega) (show _ ≤ fuel' - 1 by omega) hstop
        dsimp only
        rw [Nat.add_sub_cancel, hrest, h.line hX hs hafter]
        exact ⟨rest', rfl, hfork⟩
    | false =>
      rw [if_neg Bool.false_ne_true, if_neg Bool.false_ne_true]
      rw [hblank, if_neg Bool.false_ne_true] at hstop
      split
      · exact ⟨s', rfl, h⟩
      · next hends =>
        rw [if_neg hends] at hstop
        have hafter := h.step hX hblank (takes_itemLines _ _ _ _ _).start_le (hstop.imp_left And.left)
        obtain ⟨rest', hrest, hfork⟩ := ih hafter (by omega) (show _ ≤ fuel' - 1 by omega) hstop
        dsimp only
        rw [h.line_of_step hX hblank hafter, hrest]
        exact ⟨rest', rfl, hfork⟩

end Block
end Narration.Markup
