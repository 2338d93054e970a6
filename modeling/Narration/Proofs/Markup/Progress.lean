import Narration.Markup.Tree
import Narration.Proofs.Markup.Answers
import Narration.Proofs.Markup.Extent
import Narration.Proofs.Markup.LineForm

/-!
# Which reader reads a block, and that reading moves forward

* `Block.Dispatch` : the readers that the front of a stretch may ask for, each with what it was
  recognised by;
* `Block.dispatch` : the next block is read by one of them;
* `Block.Stranded` : lines that are taken for a list and that the reader of lists does not take;
* `Block.next_stranded` : such a line is read without moving forward;
* `Block.start_lt_next` : every other block ends after its beginning.
-/

namespace Narration.Markup.Block
open Fallible

/-! ## The readers -/

/-- The first line of a stretch without the blanks at its ends. -/
abbrev bareLine (s : Stretch) : Text := s.line.trim.chars

/-- The results of the reader that the front of a stretch asks for. -/
inductive Dispatch (scope : Scope) (inner : Inner) (s : Stretch) : Except Fault Result → Prop
  | modules (h : LineForm.isModules s.line.chars) : Dispatch scope inner s (.ok (modules scope s))
  | fence (mark : Char) (length : Nat) (h : LineForm.fence? (bareLine s) = some (mark, length)) :
      Dispatch scope inner s (.ok (fence scope s mark length))
  | comment (r : Result) (h : LineForm.isComment (bareLine s)) (hr : comment? scope s.trimStart = some r) :
      Dispatch scope inner s (.ok r)
  | expression (r : Result) (h : (bareLine s).head? = some '\x7b')
      (hr : expression? scope s.trimStart = some r) : Dispatch scope inner s (.ok r)
  | component (r : Result) (h : LineForm.opensTag (bareLine s))
      (hr : component? scope inner s.trimStart = .ok (some r)) : Dispatch scope inner s (.ok r)
  | componentFault (f : Fault) (h : LineForm.opensTag (bareLine s))
      (hr : component? scope inner s.trimStart = .error f) : Dispatch scope inner s (.error f)
  | heading (depth place length : Nat) (h : LineForm.heading? (bareLine s) = some (depth, place, length)) :
      Dispatch scope inner s (heading scope inner s depth place length)
  | rawLine (h : LineForm.isRule (bareLine s) ∨ LineForm.isDefinition (bareLine s)) : Dispatch scope inner s
      (.ok (scope.node (.raw (bareLine s)) s.trimStart.start s.line.stop, s.afterLine.start))
  | table (h : isTable s) : Dispatch scope inner s (table scope inner s)
  | quote (h : (bareLine s).head? = some '>') : Dispatch scope inner s (quote scope inner s)
  | list (hnear : Text.indent s.line.chars < 4) (h : (LineForm.marker? (bareLine s)).isSome) :
      Dispatch scope inner s (list scope inner s)
  | paragraph (h : (bareLine s).head? = some '<' ∨ (bareLine s).head? = some '\x7b' ∨
        ¬(Text.indent s.line.chars < 4 ∧ (LineForm.marker? (bareLine s)).isSome)) :
      Dispatch scope inner s (paragraph scope inner s)

theorem dispatch (scope : Scope) (inner : Inner) (top : Bool) (s : Stretch) :
    Dispatch scope inner s (next scope inner top s) := by
  have of_near {α : Type} {p : Prop} [Decidable p] {o : Option α} {a : α}
      (h : (if p then o else none) = some a) : o = some a := by
    split at h
    · exact h
    · cases h
  unfold next
  simp only [Bool.and_eq_true, decide_eq_true_eq]
  split
  · next h => exact .modules h.2
  split
  · next mark length h => exact .fence mark length (of_near h)
  split
  · next h =>
    cases hr : comment? scope s.trimStart with
    | none => exact .paragraph (.inl (LineForm.head?_of_isComment h))
    | some r => exact .comment r h hr
  split
  · next h =>
    cases hr : expression? scope s.trimStart with
    | none => exact .paragraph (.inr (.inl h))
    | some r => exact .expression r h hr
  split
  · next hopens =>
    cases hr : component? scope inner s.trimStart with
    | error f => exact .componentFault f hopens hr
    | ok r? =>
      cases r? with
      | none => exact .paragraph (.inl (LineForm.head?_of_opensTag hopens))
      | some r => exact .component r hopens hr
  split
  · next depth place length h => exact .heading depth place length (of_near h)
  split
  · next h => exact .rawLine (.inl h.2)
  split
  · next h => exact .table h
  split
  · next h => exact .quote h.2
  split
  · next h => exact .list h.1 h.2
  · next hmarker =>
    split
    · next h => exact .rawLine (.inr h.2)
    · exact .paragraph (.inr (.inr hmarker))

variable {scope : Scope} {inner : Inner} {s : Stretch} {node : Node} {stop : Nat}

/-! ## Where the readers stop -/

theorem modulesLength_pos (depth : Nat) {c : Char} (t : Text) (hc : c ≠ '\n') :
    0 < modulesLength depth 0 (c :: t) := by
  unfold modulesLength
  split
  · split
    · exact Nat.succ_pos _
    · rw [List.takeWhile_cons_of_pos (by simpa using hc)]
      exact Nat.succ_pos _
  · split
    · next h => simp [hc] at h
    · exact Nat.succ_pos _

theorem start_lt_modules (scope : Scope) (h : LineForm.isModules s.line.chars) : s.start < (modules scope s).2 := by
  have hi : ∃ c t, s.chars = c :: t ∧ c ≠ '\n' := by
    cases hs : s.chars with
    | nil => simp [Stretch.chars_line, hs, LineForm.isModules, Text.after?] at h
    | cons c t =>
      refine ⟨c, t, rfl, ?_⟩
      rintro rfl
      simp [Stretch.chars_line, hs, LineForm.isModules, Text.after?] at h
  obtain ⟨c, t, hs, hc⟩ := hi
  have hpos := modulesLength_pos 0 t hc
  refine (s.take (modulesLength 0 0 s.chars)).start_lt_stop fun hnil => ?_
  rw [Stretch.chars_take, List.take_eq_nil_iff, hs] at hnil
  rcases hnil with hnil | hnil
  · omega
  · cases hnil

theorem start_le_fenceEnd {mark : Char} {length fuel : Nat} {closing : Stretch}
    (h : fenceEnd? mark length fuel s = some closing) : s.start ≤ closing.start := by
  induction fuel generalizing s with
  | zero => cases h
  | succ fuel ih =>
    unfold fenceEnd? at h
    split at h
    · cases h
    · split at h
      · cases h
        exact Nat.le_refl _
      · exact Nat.le_trans s.start_le_afterLine (ih h)

theorem start_afterLine_le_fence (scope : Scope) (s : Stretch) (mark : Char) (length : Nat) :
    s.afterLine.start ≤ (fence scope s mark length).2 := by
  unfold fence
  dsimp only
  split
  · next closing h => exact (start_le_fenceEnd h).trans closing.start_le_afterLine
  · exact s.afterLine.start_le_stop.trans s.stop_afterLine.le

theorem start_lt_fence (scope : Scope) (mark : Char) (length : Nat) (hs : s.chars ≠ []) :
    s.start < (fence scope s mark length).2 := (s.start_lt_afterLine hs).trans_le (start_afterLine_le_fence scope s mark length)

theorem start_lt_comment (h : comment? scope s = some (node, stop)) : s.start < stop := by
  unfold comment? at h
  obtain ⟨n, hn, h⟩ := Option.bind_eq_some_iff.1 h
  cases h
  refine (s.take (n + 3)).start_lt_stop fun hnil => ?_
  have hs : s.chars = [] := by simpa using hnil
  rw [hs] at hn
  cases hn

theorem start_lt_expression (h : expression? scope s = some (node, stop)) : s.start < stop := by
  unfold expression? at h
  obtain ⟨⟨source, length⟩, hbraced, h⟩ := Option.bind_eq_some_iff.1 h
  obtain ⟨n, hn, hlength⟩ := Option.bind_eq_some_iff.1 hbraced
  cases hlength
  dsimp only at h
  split at h
  · cases h
    exact s.start_lt_drop (Braces.balanced?_pos hn) (Braces.balanced?_ne_nil hn)
  · cases h

theorem start_lt_component (h : component? scope inner s = .ok (some (node, stop))) : s.start < stop := by
  obtain ⟨tag, htag, h⟩ := component?_eq_some.1 h
  have hlt := Tag.lt_stop_of_read? htag
  cases h with
  | stray | single => exact hlt
  | pair _ _ hfind _ _ =>
    have hextent := Closing.find?_extent hfind
    have hstart := s.start_le_since tag.stop
    omega

theorem start_lt_heading (hs : s.chars ≠ []) {depth place length : Nat}
    (h : heading scope inner s depth place length = .ok (node, stop)) : s.start < stop := by
  obtain ⟨children, -, -, rfl⟩ := exists_of_heading h
  exact s.start_lt_afterLine hs

theorem start_afterLine_le_table (hblank : s.lineBlank = false) (h : table scope inner s = .ok (node, stop)) :
    s.afterLine.start ≤ stop := by
  obtain ⟨nodes, last, hrows, -⟩ := exists_rows_of_table h
  cases hrows with
  | none hends =>
    rw [endsTable, hblank] at hends
    cases hends
  | row _ _ _ hrows => exact hrows.start_le

theorem start_le_paragraphEnd (fuel last : Nat) (s : Stretch) :
    s.start ≤ (paragraphEnd fuel last s).2.2.start := by
  induction fuel generalizing last s with
  | zero => exact Nat.le_refl _
  | succ fuel ih =>
    unfold paragraphEnd
    dsimp only
    split
    · exact Nat.le_refl _
    · split
      · exact s.start_le_afterLine
      · split
        · exact Nat.le_refl _
        · exact Nat.le_trans s.start_le_afterLine (ih _ _)

theorem stop_paragraph (h : paragraph scope inner s = .ok (node, stop)) :
    stop = (paragraphEnd s.chars.length s.line.stop s.afterLine).2.2.start := by
  unfold paragraph at h
  dsimp only at h
  split at h
  all_goals
    obtain ⟨children, -, h⟩ := bind_eq_ok.1 h
    cases h
    rfl

theorem start_afterLine_le_paragraph (h : paragraph scope inner s = .ok (node, stop)) : s.afterLine.start ≤ stop :=
  (start_le_paragraphEnd _ _ _).trans (stop_paragraph h).ge

theorem start_afterLine_le_quote (hs : s.chars ≠ []) (hmark : (bareLine s).head? = some '>')
    (h : quote scope inner s = .ok (node, stop)) : s.afterLine.start ≤ stop := by
  obtain ⟨n, hn⟩ := Nat.exists_eq_succ_of_ne_zero (List.length_pos_iff.2 hs).ne'
  obtain ⟨t, hbare⟩ : ∃ t, s.line.trimStart.chars = '>' :: t :=
    List.head?_eq_some_iff.1 (Text.head?_of_trimEnd hmark)
  have hstripped : s.line.trimStart.trim.chars ≠ [] := by
    rw [Stretch.trim_trimStart]
    exact fun hnil => by simp [bareLine, hnil] at hmark
  have hle : s.afterLine.start ≤ (quoteLines s.chars.length true s).2.start := by
    rw [hn]
    unfold quoteLines
    dsimp only
    rw [if_neg (by simpa using ⟨hs, hstripped⟩), hbare]
    have hnext := (takes_quoteLines n false s.afterLine).start_le
    cases t with
    | nil => exact hnext
    | cons c t =>
      by_cases hc : c = ' '
      · subst hc
        exact hnext
      · simpa [hc] using hnext
  unfold quote at h
  obtain ⟨children, -, h⟩ := bind_eq_ok.1 h
  cases h
  exact hle

theorem start_afterLine_le_list (hmarker : (LineForm.marker? (s.line.chars.drop (Text.indent s.line.chars))).isSome)
    (h : list scope inner s = .ok (node, stop)) : s.afterLine.start ≤ stop := by
  obtain ⟨ordered, nodes, last, hitems, -⟩ := exists_items_of_list h
  exact hitems.start_le.2 (isSome_markerWidth? (Nat.le_add_right _ _) hmarker)

/-! ## Stranded lines -/

/-- A list marker between blanks, the one right behind it neither a space nor a tab. -/
def Stranded (line : Text) : Prop :=
  ∃ before marker c after, line = before ++ marker ++ c :: after ∧ before.length < 4 ∧
    (∀ b ∈ before, Text.isBlank b) ∧ LineForm.IsMarker marker ∧
    Text.isBlank c ∧ Text.isSpaceOrTab c = false ∧ ∀ b ∈ after, Text.isBlank b

/-- The marker that makes a line a list begins an item, unless the line is stranded. -/
theorem marker?_isSome_or_stranded {line : Text} (hnear : Text.indent line < 4)
    (h : (LineForm.marker? (Text.trim line)).isSome) :
    (LineForm.marker? (line.drop (Text.indent line))).isSome ∨ Stranded line := by
  obtain ⟨before, after, hline, hlength, hbefore, hafter⟩ := Text.exists_trim line
  obtain ⟨marker, rest, hrest, hmarker⟩ := LineForm.exists_isMarker h
  have hdrop : line.drop (Text.indent line) = marker ++ (rest ++ after) := by
    rw [← hlength, hline, List.append_assoc, List.drop_left, hrest, List.append_assoc]
  rw [hrest, LineForm.marker?_append hmarker] at h
  rw [hdrop, LineForm.marker?_append hmarker]
  cases rest with
  | cons c rest =>
    left
    cases hc : Text.isSpaceOrTab c with
    | true => simp [hc]
    | false => simp [hc] at h
  | nil =>
    cases after with
    | nil => exact .inl rfl
    | cons c after =>
      cases hc : Text.isSpaceOrTab c with
      | true => left; simp [hc]
      | false =>
        refine .inr ⟨before, marker, c, after, ?_, hlength ▸ hnear, hbefore, hmarker, hafter c (by simp),
          hc, fun b hb => hafter b (List.mem_cons_of_mem c hb)⟩
        rw [hline, hrest, List.append_nil]

theorem Stranded.ne_nil (h : Stranded s.line.chars) : s.chars ≠ [] := by
  obtain ⟨before, marker, c, after, hline, -⟩ := h
  intro hs
  simp [Stretch.chars_line, hs] at hline

theorem Stranded.not_lineBlank (h : Stranded s.line.chars) : s.lineBlank = false := by
  obtain ⟨before, marker, c, after, hline, -, -, hmarker, -⟩ := h
  obtain ⟨d, t, rfl, -⟩ := hmarker.exists_cons
  have hd := hmarker.not_isBlank d (by simp)
  simp [Stretch.lineBlank, Text.allBlank, hline, hd]

/-- A stranded line holds a marker that does not begin an item, and nothing else. -/
theorem Stranded.bareLine (h : Stranded s.line.chars) :
    LineForm.IsMarker (bareLine s) ∧ Text.indent s.line.chars < 4 ∧
      (∀ x ∈ ['i', 'e', '|'], x ∉ s.line.chars) ∧
      LineForm.marker? (s.line.chars.drop (Text.indent s.line.chars)) = none := by
  obtain ⟨before, marker, c, after, hline, hnear, hbefore, hmarker, hc, hgap, hafter⟩ := h
  have hhead : ∀ b, (marker ++ c :: after).head? = some b → Text.isBlank b = false := by
    obtain ⟨d, t, rfl, -⟩ := hmarker.exists_cons
    intro b hb
    exact hmarker.not_isBlank b (by simp [← Option.some_inj.1 hb])
  have hindent : Text.indent s.line.chars = before.length := by
    rw [hline, List.append_assoc, Text.indent_append hbefore hhead]
  have hdrop : s.line.chars.drop before.length = marker ++ c :: after := by
    rw [hline, List.append_assoc, List.drop_left]
  have hbare : Block.bareLine s = marker := by
    rw [Block.bareLine, Stretch.chars_trim, Text.trim, ← Text.drop_indent, hindent, hdrop]
    exact Text.trimEnd_append (by simpa using ⟨hc, hafter⟩)
      fun d hd => hmarker.not_isBlank d (List.mem_of_getLast? hd)
  have hblank : ∀ x ∈ ['i', 'e', '|'], ∀ t : Text, (∀ b ∈ t, Text.isBlank b) → x ∉ t :=
    fun x hx t ht hm =>
      absurd (ht x hm) ((by decide : ∀ x ∈ ['i', 'e', '|'], ¬Text.isBlank x) x hx)
  refine ⟨hbare ▸ hmarker, hindent ▸ hnear, fun x hx => ?_, ?_⟩
  · rw [hline, List.mem_append, List.mem_append, not_or, not_or]
    refine ⟨⟨hblank x hx before hbefore, hmarker.notMem ((by decide : ∀ x ∈ ['i', 'e', '|'],
      Text.isDigit x = false ∧ x ∉ ['*', '+', '-', '.', ')']) x hx)⟩, hblank x hx _ ?_⟩
    simpa using ⟨hc, hafter⟩
  · rw [hindent, hdrop, LineForm.marker?_append hmarker, if_pos (by simp [hgap])]

/-- A stranded line is read as a list without items. -/
theorem next_stranded (scope : Scope) (inner : Inner) (top : Bool) (h : Stranded s.line.chars) :
    ∃ node, next scope inner top s = .ok (node, s.start) := by
  obtain ⟨hmarker, hnear, habsent, hnone⟩ := h.bareLine
  have hdispatch := dispatch scope inner top s
  generalize next scope inner top s = r at hdispatch
  cases hdispatch with
  | modules h =>
    rcases LineForm.head?_of_isModules h with h | h <;>
      exact absurd (List.mem_of_head? h) (habsent _ (by decide))
  | fence mark length h =>
    rcases LineForm.head?_of_fence? h with h | h <;> exact absurd h (hmarker.head?_ne (by decide))
  | comment r h => exact absurd (LineForm.head?_of_isComment h) (hmarker.head?_ne (by decide))
  | expression r h => exact absurd h (hmarker.head?_ne (by decide))
  | component r h | componentFault r h =>
    exact absurd (LineForm.head?_of_opensTag h) (hmarker.head?_ne (by decide))
  | heading depth place length h =>
    exact absurd (LineForm.head?_of_heading? h) (hmarker.head?_ne (by decide))
  | rawLine h =>
    rcases h with h | h
    · exact absurd h (by rw [hmarker.isRule_eq_false]; decide)
    · exact absurd (LineForm.head?_of_isDefinition h) (hmarker.head?_ne (by decide))
  | table h => simp [isTable, habsent '|' (by decide)] at h
  | quote h => exact absurd h (hmarker.head?_ne (by decide))
  | list =>
    obtain ⟨n, hn⟩ := Nat.exists_eq_succ_of_ne_zero (List.length_pos_iff.2 h.ne_nil).ne'
    refine ⟨scope.node (.list false) s.start s.start, ?_⟩
    unfold list
    simp only [hn, items, hnone]
    rfl
  | paragraph h =>
    rcases h with h | h | h
    · exact absurd h (hmarker.head?_ne (by decide))
    · exact absurd h (hmarker.head?_ne (by decide))
    · exact absurd ⟨hnear, hmarker.marker?_isSome⟩ h

/-! ## One block after the other -/

theorem start_lt_next {top : Bool} (hs : s.chars ≠ []) (hblank : s.lineBlank = false)
    (hline : ¬Stranded s.line.chars) (h : next scope inner top s = .ok (node, stop)) : s.start < stop := by
  have hdispatch := dispatch scope inner top s
  have hafter := s.start_lt_afterLine hs
  rw [h] at hdispatch
  generalize hr : (Except.ok (node, stop) : Except Fault Result) = r at hdispatch
  cases hdispatch with
  | modules h =>
    have := start_lt_modules scope h
    rwa [← Except.ok.inj hr] at this
  | fence mark length =>
    have := start_lt_fence scope mark length hs
    rwa [← Except.ok.inj hr] at this
  | comment r _ hr' =>
    exact Nat.lt_of_le_of_lt s.start_le_trimStart (start_lt_comment (Except.ok.inj hr ▸ hr'))
  | expression r _ hr' =>
    exact Nat.lt_of_le_of_lt s.start_le_trimStart (start_lt_expression (Except.ok.inj hr ▸ hr'))
  | component r _ hr' =>
    exact Nat.lt_of_le_of_lt s.start_le_trimStart (start_lt_component (Except.ok.inj hr ▸ hr'))
  | componentFault => cases hr
  | heading => exact start_lt_heading hs hr.symm
  | rawLine =>
    cases hr
    exact hafter
  | table => exact hafter.trans_le (start_afterLine_le_table hblank hr.symm)
  | quote h => exact hafter.trans_le (start_afterLine_le_quote hs h hr.symm)
  | list hnear h =>
    rw [bareLine, Stretch.chars_trim] at h
    exact hafter.trans_le (start_afterLine_le_list ((marker?_isSome_or_stranded hnear h).resolve_right hline) hr.symm)
  | paragraph => exact hafter.trans_le (start_afterLine_le_paragraph hr.symm)

/-- From one stretch to another that is read later in the same sequence of blocks. -/
inductive Reaches (scope : Scope) (inner : Inner) (top : Bool) : Stretch → Stretch → Prop
  | refl (s : Stretch) : Reaches scope inner top s s
  | blank {s s' : Stretch} (hs : s.chars ≠ []) (hblank : s.lineBlank)
      (h : Reaches scope inner top s.afterLine s') : Reaches scope inner top s s'
  | block {s s' : Stretch} {node : Node} {stop : Nat} (hs : s.chars ≠ []) (hblank : s.lineBlank = false)
      (hnext : next scope inner top s = .ok (node, stop))
      (h : Reaches scope inner top (s.since stop) s') : Reaches scope inner top s s'

/-- Reading does not get past a stranded line, whatever the fuel. -/
theorem sequence_stranded (top : Bool) (fuel : Nat) (h : Stranded s.line.chars) :
    sequence scope inner top fuel s = .error .endless := by
  have hsince : s.since s.start = s := by simp [Stretch.since, Stretch.drop]
  induction fuel with
  | zero => rfl
  | succ fuel ih =>
    obtain ⟨node, hnext⟩ := next_stranded scope inner top h
    unfold sequence
    rw [if_neg (by simpa using Stranded.ne_nil h), if_neg (by simp [Stranded.not_lineBlank h]), hnext]
    simp only [bind, Except.bind, hsince, ih]

/-- A sequence of blocks that are themselves read to their ends is without end when it comes to a
stranded line, and only then. -/
theorem sequence_endless_iff {top : Bool} {fuel : Nat} (hfuel : s.chars.length < fuel)
    (hends : ∀ s', Reaches scope inner top s s' → Avoids .endless (next scope inner top s')) :
    sequence scope inner top fuel s = .error .endless ↔
      ∃ s', Reaches scope inner top s s' ∧ Stranded s'.line.chars := by
  induction fuel generalizing s with
  | zero => exact absurd hfuel (Nat.not_lt_zero _)
  | succ fuel ih =>
    by_cases hs : s.chars = []
    · rw [sequence, if_pos (by simp [hs])]
      refine ⟨nofun, fun ⟨s', hreach, hline⟩ => ?_⟩
      cases hreach with
      | refl => exact absurd hs hline.ne_nil
      | blank h => exact absurd hs h
      | block h => exact absurd hs h
    have hpos := List.length_pos_iff.2 hs
    cases hblank : s.lineBlank with
    | true =>
      have hlt : s.afterLine.chars.length < fuel := by
        rw [Stretch.chars_afterLine, List.length_drop]
        omega
      rw [sequence, if_neg (by simpa using hs), if_pos hblank,
        ih hlt fun s' h => hends s' (.blank hs hblank h)]
      refine ⟨fun ⟨s', h, hline⟩ => ⟨s', .blank hs hblank h, hline⟩, fun ⟨s', h, hline⟩ => ?_⟩
      cases h with
      | refl => simp [Stranded.not_lineBlank hline] at hblank
      | blank _ _ h => exact ⟨s', h, hline⟩
      | block _ h => simp [h] at hblank
    | false =>
      by_cases hline : Stranded s.line.chars
      · exact ⟨fun _ => ⟨s, .refl s, hline⟩, fun _ => sequence_stranded top _ hline⟩
      rw [sequence, if_neg (by simpa using hs), if_neg (by simp [hblank])]
      cases hnext : next scope inner top s with
      | error f =>
        have hf : f ≠ .endless := fun h => hends s (.refl s) (h ▸ hnext)
        refine ⟨fun h => absurd (Except.error.inj h) hf, fun ⟨s', h, hline'⟩ => ?_⟩
        cases h with
        | refl => exact absurd hline' hline
        | blank _ h => simp [hblank] at h
        | block _ _ h => simp [hnext] at h
      | ok r =>
        obtain ⟨node, stop⟩ := r
        have hlt := start_lt_next hs hblank hline hnext
        have hlt' : (s.since stop).chars.length < fuel := by
          rw [Stretch.chars_since, List.length_drop]
          omega
        have hrest : (do return node :: (← sequence scope inner top fuel (s.since stop)) :
              Except Fault (List Node)) = .error .endless ↔
            sequence scope inner top fuel (s.since stop) = .error .endless := by
          cases sequence scope inner top fuel (s.since stop) with
          | error f => exact ⟨fun h => congrArg _ (Except.error.inj h), fun h => congrArg _ (Except.error.inj h)⟩
          | ok nodes => exact ⟨nofun, nofun⟩
        refine hrest.trans ((ih hlt' fun s' h => hends s' (.block hs hblank hnext h)).trans ?_)
        refine ⟨fun ⟨s', h, hline⟩ => ⟨s', .block hs hblank hnext h, hline⟩, fun ⟨s', h, hline'⟩ => ?_⟩
        cases h with
        | refl => exact absurd hline' hline
        | blank _ h => simp [hblank] at h
        | block _ _ hnext' h =>
          cases hnext.symm.trans hnext'
          exact ⟨s', h, hline'⟩

end Narration.Markup.Block
