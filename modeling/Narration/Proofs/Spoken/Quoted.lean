import Narration.Proofs.Markup.Budget
import Narration.Proofs.Markup.Laid.Lines
import Narration.Proofs.Spoken.Lined

/-!
# Documents in quotes

* `Spoken.quoted` : a text with a mark and a space in front of every line;
* `Block.quoteLines_quoted`, `Block.next_quoted`, `Block.readAll_quoted` : it is read as one quote of all its lines;
* `Spoken.Says.quoted` : a quote around a text needs so much more of the budgets, and says the same;
* `Spoken.extract_quoted` : quoting a document does not change its narration.
-/

namespace Narration
open Markup
open Fallible

/-- Whether a kind is that of front matter or of imports and exports. -/
def Kind.isPreamble : Kind → Bool
  | .frontMatter _ | .modules _ => true
  | _ => false

namespace Spoken

/-- A line of a quote. -/
def quotedLine (l : Text) : Text := '>' :: ' ' :: l

/-- A text with a mark and a space in front of every line. -/
def quoted (t : Text) : Text := Text.unlines ((Text.lines t).map quotedLine)

variable {l t : Text} {ls : List Text}

theorem newline_notMem_quotedLine (hl : '\n' ∉ l) : '\n' ∉ quotedLine l := by
  simpa [quotedLine] using hl

theorem quoted_eq (t : Text) : ∃ l ls, Text.lines t = l :: ls ∧ quoted t = quotedLine l ++ Text.led (ls.map quotedLine) := by
  obtain ⟨l, ls, h⟩ := List.exists_cons_of_ne_nil (Text.lines_ne_nil t)
  exact ⟨l, ls, h, by rw [quoted, h, List.map_cons, Text.unlines_cons_eq]⟩

theorem count_quoted (t : Text) : (quoted t).count '\n' = t.count '\n' := by
  have hlines : Text.lines (quoted t) = (Text.lines t).map quotedLine := by
    refine Text.lines_unlines (by simpa using Text.lines_ne_nil t) (List.forall_mem_map.2 fun l hl => ?_)
    exact newline_notMem_quotedLine (Text.newline_notMem_of_mem_lines hl)
  have hlength := congrArg List.length hlines
  rw [List.length_map, Text.length_lines, Text.length_lines] at hlength
  exact Nat.succ.inj hlength

theorem mem_quoted {c : Char} (h : c ∈ quoted t) : c = '\n' ∨ c = '>' ∨ c = ' ' ∨ c ∈ t := by
  rcases Text.mem_join h with h | ⟨k, hk, h⟩
  · exact .inl (List.mem_singleton.1 h)
  · obtain ⟨l, hl, rfl⟩ := List.mem_map.1 hk
    rcases List.mem_cons.1 h with h | h
    · exact .inr (.inl h)
    · rcases List.mem_cons.1 h with h | h
      · exact .inr (.inr (.inl h))
      · exact .inr (.inr (.inr ((Text.infix_of_mem_splitOn hl).subset h)))

end Spoken

/-! ## The quote -/

namespace Markup.Block
open Spoken (quotedLine quoted)
open Text (EndsLine firstLine)

variable {l t : Text} {ls : List Text} {scope : Scope} {inner : Inner}

theorem trim_quotedLine (l : Text) : ∃ u, Text.trim (quotedLine l) = '>' :: u :=
  ⟨_, by rw [quotedLine, Text.trim, Text.trimStart, List.dropWhile_cons_of_neg (by decide), Text.trimEnd,
    Text.dropEndWhile_cons (by decide)]⟩

theorem quoteLines_quoted (hls : ∀ l ∈ ls, '\n' ∉ l) (a fuel : Nat) (first : Bool) (hfuel : ls.length ≤ fuel) :
    (quoteLines fuel first ⟨a, Text.unlines (ls.map quotedLine)⟩).1 = inset a (ls.map quotedLine) ∧
      (quoteLines fuel first ⟨a, Text.unlines (ls.map quotedLine)⟩).2.chars = [] := by
  induction ls generalizing a fuel first with
  | nil =>
    cases fuel with
    | zero => exact ⟨rfl, rfl⟩
    | succ fuel =>
      rw [quoteLines_succ, if_pos (by rfl)]
      exact ⟨rfl, rfl⟩
  | cons l ls ih =>
    obtain ⟨hl, hls⟩ := List.forall_mem_cons.1 hls
    cases fuel with
    | zero => cases hfuel
    | succ fuel =>
      have hled := Text.endsLine_led (ls.map quotedLine)
      have hline : (⟨a, quotedLine l ++ Text.led (ls.map quotedLine)⟩ : Stretch).line = ⟨a, quotedLine l⟩ :=
        Stretch.line_mk_endsLine (Spoken.newline_notMem_quotedLine hl) hled
      have hbare : (⟨a, quotedLine l⟩ : Stretch).trimStart = ⟨a, quotedLine l⟩ := Stretch.trimStart_eq_self rfl
      have hpart : quotePart? first ⟨a, quotedLine l⟩ = some ⟨a + 2, l⟩ := rfl
      have hstripped : (⟨a, quotedLine l⟩ : Stretch).trim.chars ≠ [] := by
        obtain ⟨u, hu⟩ := trim_quotedLine l
        rw [Stretch.chars_trim, hu]
        exact List.cons_ne_nil _ _
      have hrest : (quoteLines fuel false (⟨a, quotedLine l ++ Text.led (ls.map quotedLine)⟩ : Stretch).afterLine).1 =
          inset (a + (l.length + 3)) (ls.map quotedLine) ∧
          (quoteLines fuel false (⟨a, quotedLine l ++ Text.led (ls.map quotedLine)⟩ : Stretch).afterLine).2.chars = [] := by
        cases ls with
        | nil =>
          rw [List.map_nil, Text.led_nil, List.append_nil, Stretch.afterLine_mk_last (Spoken.newline_notMem_quotedLine hl)]
          exact ih hls _ fuel false (Nat.zero_le _)
        | cons k ls =>
          rw [Text.led_eq (by simp), Stretch.afterLine_mk (Spoken.newline_notMem_quotedLine hl)]
          exact ih hls _ fuel false (Nat.le_of_succ_le_succ hfuel)
      rw [List.map_cons, Text.unlines_cons_eq, quoteLines_succ, hline, hbare, hpart, if_neg]
      · exact ⟨congrArg _ hrest.1, hrest.2⟩
      · simpa [quotedLine] using hstripped

theorem isTable_quoted (a : Nat) (t : Text) : isTable ⟨a, quoted t⟩ = false := by
  obtain ⟨l, ls, ht, hquoted⟩ := Spoken.quoted_eq t
  have hl : '\n' ∉ quotedLine l := by
    refine Spoken.newline_notMem_quotedLine (Text.newline_notMem_of_mem_lines (t := t) ?_)
    rw [ht]
    exact List.mem_cons_self
  rw [isTable, hquoted]
  cases ls with
  | nil =>
    rw [List.map_nil, Text.led_nil, List.append_nil, Stretch.afterLine_mk_last hl]
    simp
  | cons k ls =>
    have hk : '\n' ∉ quotedLine k := by
      refine Spoken.newline_notMem_quotedLine (Text.newline_notMem_of_mem_lines (t := t) ?_)
      rw [ht]
      simp
    have hsecond : Text.led ((k :: ls).map quotedLine) = '\n' :: (quotedLine k ++ Text.led (ls.map quotedLine)) := rfl
    obtain ⟨u, hu⟩ := trim_quotedLine k
    rw [hsecond, Stretch.afterLine_mk hl]
    dsimp only
    rw [Stretch.line_mk_endsLine hk (Text.endsLine_led _), Stretch.chars_trim, hu,
      LineForm.isTableRule_cons (by decide) (by decide) (by decide) (by decide), Bool.and_false]

/-- A quoted text is read as a quote. -/
theorem next_quoted (scope : Scope) (inner : Inner) (top : Bool) (a : Nat) (t : Text) :
    next scope inner top ⟨a, quoted t⟩ = quote scope inner ⟨a, quoted t⟩ := by
  obtain ⟨l, ls, ht, hquoted⟩ := Spoken.quoted_eq t
  have hl : '\n' ∉ quotedLine l := by
    refine Spoken.newline_notMem_quotedLine (Text.newline_notMem_of_mem_lines (t := t) ?_)
    rw [ht]
    exact List.mem_cons_self
  have hline : firstLine (quoted t) = quotedLine l := by
    rw [hquoted, (Text.endsLine_led _).firstLine_append, firstLine, Text.takeWhile_lastLine hl]
  obtain ⟨u, hu⟩ := trim_quotedLine l
  have hearly : earlyReader? top (quotedLine l) = none := by
    refine earlyReader?_of_head (fun _ => ?_) (fun c hc => ?_) ?_
    · rw [← Bool.not_eq_true]
      intro h
      rcases LineForm.head?_of_isModules h with h | h <;> cases h
    · rw [hu, List.head?_cons, ne_eq, Option.some.injEq]
      rintro rfl
      exact absurd hc (by decide)
    · rw [hu]
      rfl
  have hlate : lateReader (quotedLine l) false = .quote := by
    have hindent : Text.indent (quotedLine l) = 0 := rfl
    simp [lateReader, hu, hindent]
  rw [next_mk, hline, isTable_quoted, readerOf, hearly, Option.getD_none, hlate]
  rfl

/-- A quote takes in all lines of a quoted text. -/
theorem quoteLines_text (t : Text) : ∃ rest, quoteLines (quoted t).length true ⟨0, quoted t⟩ = (inset 0 ((Text.lines t).map quotedLine), rest) ∧
    rest.start = (quoted t).length := by
  obtain ⟨l, ls, -, hquoted⟩ := Spoken.quoted_eq t
  have hfuel : (Text.lines t).length ≤ (quoted t).length := by
    have hcount := Spoken.count_quoted t
    rw [hquoted, quotedLine, List.cons_append, List.count_cons_of_ne (by decide)] at hcount
    rw [Text.length_lines, ← hcount, hquoted]
    exact Nat.succ_le_succ List.count_le_length
  obtain ⟨hlines, hrest⟩ : (quoteLines (quoted t).length true ⟨0, quoted t⟩).1 = inset 0 ((Text.lines t).map quotedLine) ∧
      (quoteLines (quoted t).length true ⟨0, quoted t⟩).2.chars = [] :=
    quoteLines_quoted (fun l hl => Text.newline_notMem_of_mem_lines hl) 0 _ true hfuel
  refine ⟨_, Prod.ext hlines rfl, ?_⟩
  have hstop := (takes_quoteLines (quoted t).length true ⟨0, quoted t⟩).stop_eq
  simpa [Stretch.stop, hrest] using hstop

/-- A quoted text is one quote. -/
theorem readAll_quoted {b : Nat} {references : List Reference} {ns : List Node}
    (h : readParts (readAll b false) (Scope.ofText (quoted t) references) (inset 0 ((Text.lines t).map quotedLine)) = .ok ns) (top : Bool) :
    ∃ last, readAll (b + 3) top (Scope.ofText (quoted t) references) ⟨0, quoted t⟩ =
      .ok [(Scope.ofText (quoted t) references).node .quote 0 last ns] := by
  obtain ⟨l, ls, -, hquoted⟩ := Spoken.quoted_eq t
  obtain ⟨rest, hquote, hrest⟩ := quoteLines_text t
  have hstart : (⟨0, quoted t⟩ : Stretch).trimStart = ⟨0, quoted t⟩ := by
    refine Stretch.trimStart_eq_self ?_
    rw [hquoted]
    rfl
  obtain ⟨last, hnext⟩ : ∃ last, next (Scope.ofText (quoted t) references) (innerOf b (Scope.ofText (quoted t) references)) top
      ⟨0, quoted t⟩ = .ok ((Scope.ofText (quoted t) references).node .quote 0 last ns, rest.start) := by
    rw [next_quoted, quote, hquote, hstart]
    exact ⟨_, bind_eq_ok.2 ⟨_, h, rfl⟩⟩
  have hne : (⟨0, quoted t⟩ : Stretch).chars ≠ [] := by
    rw [hquoted]
    exact List.cons_ne_nil _ _
  have hblank : (⟨0, quoted t⟩ : Stretch).lineBlank = false := by
    rw [hquoted]
    rfl
  have hnil : ((⟨0, quoted t⟩ : Stretch).since rest.start).chars = [] := by
    rw [Stretch.chars_since, hrest]
    exact List.drop_length
  exact ⟨last, readAll_eq_ok.2 ((reads_block hne hblank).2 ⟨_, _, [], hnext, (reads_nil hnil).2 rfl, rfl⟩)⟩

/-- Where no modules are read it does not matter whether a text stands at the top of a document. -/
theorem Reads.inside {s : Stretch} {ns : List Node} (h : Reads scope inner true s ns)
    (hns : ∀ n ∈ ns, n.kind.isPreamble = false) : Reads scope inner false s ns := by
  obtain ⟨fuel, hn⟩ := h
  refine ⟨fuel, ?_⟩
  induction fuel generalizing s ns with
  | zero => cases hn
  | succ fuel ih =>
    unfold sequence at hn ⊢
    split at hn
    · next hs => rw [if_pos hs, ← hn]
    · next hs =>
      rw [if_neg hs]
      split at hn
      · next hblank =>
        rw [if_pos hblank]
        exact ih hns hn
      · next hblank =>
        rw [if_neg hblank]
        obtain ⟨⟨node, stop⟩, hnext, hn⟩ := bind_eq_ok.1 hn
        obtain ⟨ms, hms, hn⟩ := bind_eq_ok.1 hn
        cases hn
        obtain ⟨hnode, hms'⟩ := List.forall_mem_cons.1 hns
        have hmodules : ¬(Text.indent s.line.chars = 0 ∧ LineForm.isModules s.line.chars) := by
          rintro ⟨hindent, hmodules⟩
          rw [next_eq, readerOf, earlyReader?, hindent, hmodules] at hnext
          cases hnext
          cases hnode
        have hfirst (top : Bool) : (top && decide (Text.indent s.line.chars = 0) && LineForm.isModules s.line.chars) = false := by
          rw [← Bool.not_eq_true, Bool.and_eq_true, Bool.and_eq_true, decide_eq_true_eq]
          exact fun h => hmodules ⟨h.1.2, h.2⟩
        have hreader : readerOf false s.line.chars (isTable s) = readerOf true s.line.chars (isTable s) := by
          simp only [readerOf, earlyReader?, hfirst, Bool.false_eq_true, if_false]
        rw [next_eq] at hnext
        rw [next_eq, hreader]
        exact bind_eq_ok.2 ⟨_, hnext, bind_eq_ok.2 ⟨ms, ih hms' hms, rfl⟩⟩

end Markup.Block

/-! ## What is narrated -/

namespace Spoken
open Markup.Block (Reads innerOf readAll)

variable {d t : Text} {b f levels : Nat} {top : Bool} {tree : Node}

/-- The links of a quoted text are not defined in it. -/
theorem collect_quoted (t : Text) : Reference.collect (quoted t) = [] := by
  have hlines : Text.lines (quoted t) = (Text.lines t).map quotedLine := by
    refine Text.lines_unlines (by simpa using Text.lines_ne_nil t) (List.forall_mem_map.2 fun l hl => ?_)
    exact newline_notMem_quotedLine (Text.newline_notMem_of_mem_lines hl)
  have hcloses : ∀ l ∈ Text.lines (quoted t), Reference.closesLabel l := by
    rw [hlines]
    exact List.forall_mem_map.2 fun l _ => rfl
  have hnone : (Text.lines (quoted t)).filterMap Reference.ofLine? = [] := by
    rw [hlines]
    exact List.filterMap_eq_nil_iff.2 (List.forall_mem_map.2 fun l _ => rfl)
  rw [Reference.collect, Reference.definitions_eq hcloses, hnone, List.foldl_nil]

theorem frontMatter?_quoted (t : Text) : Block.frontMatter? (quoted t) = none := by
  obtain ⟨l, ls, -, h⟩ := quoted_eq t
  rw [h]
  rfl

/-- A quote needs so much more of the budgets than what stands in it, and says the same. -/
theorem Says.quoted {text : Text} (h : Says b f false t text) (top : Bool) : Says (b + 3) (f + 2) top (quoted t) text := by
  have hlines : ((Text.lines t).map quotedLine).map (·.drop 2) = Text.lines t := by
    rw [List.map_map]
    exact List.map_id _
  have hls : ∀ l ∈ (Text.lines t).map quotedLine, '\n' ∉ l ∧ 2 ≤ l.length :=
    List.forall_mem_map.2 fun l hl => ⟨newline_notMem_quotedLine (Text.newline_notMem_of_mem_lines hl), Nat.le_add_left 2 _⟩
  rw [← Text.unlines_lines t, ← hlines] at h
  obtain ⟨ns, ps, hns, hps, rfl⟩ := h.inset hls (by simpa using Text.lines_ne_nil t) [] []
  rw [List.nil_append, List.append_nil] at hns
  obtain ⟨last, hquote⟩ := Block.readAll_quoted hns top
  refine ⟨_, [(joinBlocks ps, some ((Scope.ofText (Spoken.quoted t) []).position 0 last))], hquote, ?_, joinBlocks_singleton _ _⟩
  rw [passages, passages, Scope.node, blockText, if_neg (by omega), Nat.add_sub_cancel, hps]
  rfl

theorem Says.iterate {text : Text} (h : Says b f false t text) (n : Nat) (top : Bool) :
    Says (b + 3 * (n + 1)) (f + 2 * (n + 1)) top (Spoken.quoted^[n + 1] t) text := by
  induction n generalizing top with
  | zero => exact h.quoted top
  | succ n ih =>
    rw [Function.iterate_succ_apply']
    exact (ih false).quoted top

/-- A document that is read and flattened also when containers may stand less deep inside each other, by so many quotes. -/
def LeavesRoom (levels : Nat) (d : Text) : Prop :=
  ∃ ns, readAll (Tree.nestingBudget - 3 * levels) true (Scope.ofText d (Reference.collect d)) ⟨0, d⟩ = .ok ns ∧
    (passages ns (flatteningBudget - 2 * levels)).isSome

theorem carriage_notMem_quoted (hr : '\r' ∉ d) (n : Nat) : '\r' ∉ quoted^[n] d := by
  induction n with
  | zero => exact hr
  | succ n ih =>
    rw [Function.iterate_succ_apply']
    intro h
    rcases mem_quoted h with h | h | h | h
    · cases h
    · cases h
    · cases h
    · exact ih h

/-- Quoting a document does not change its narration. -/
theorem extract_quoted (n : Nat) (hr : '\r' ∉ d) (htree : Tree.read d = .ok tree)
    (hplain : ∀ node ∈ tree.children, node.kind.isPreamble = false)
    (hnone : Reference.collect d = []) (hroom : LeavesRoom n d) : Spoken.extract (quoted^[n] d) = Spoken.extract d := by
  cases n with
  | zero => rfl
  | succ n =>
    obtain ⟨ns, hns, hflat⟩ := hroom
    obtain ⟨ps, hps⟩ := Option.isSome_iff_exists.1 hflat
    rw [hnone] at hns
    obtain ⟨b, hb, hreads⟩ := Block.exists_reads hns
    have hbudget : Tree.nestingBudget = b + 3 + 3 * (n + 1) := by omega
    have hroom : flatteningBudget = flatteningBudget - 2 * (n + 1) + 2 * (n + 1) := by
      have hnest : Tree.nestingBudget = 960 := rfl
      have hflatten : flatteningBudget = 970 := rfl
      omega
    -- the document is read to the same blocks under the whole budget
    have hall : readAll Tree.nestingBudget true (Scope.ofText d []) ⟨0, d⟩ = .ok ns := by
      have hextends := Block.readAll_extends (3 * (n + 1)) (Tree.nestingBudget - 3 * (n + 1)) true (Scope.ofText d []) ⟨0, d⟩
      have heq := hextends (by rw [hns]; exact nofun)
      rwa [hns, Nat.sub_add_cancel (by omega)] at heq
    have hfront : Block.frontMatter? d = none ∧ tree.children = ns := by
      rw [Tree.read, hnone] at htree
      obtain ⟨ms, hms, htree⟩ := bind_eq_ok.1 htree
      cases htree
      change ∀ node ∈ ms, _ at hplain
      unfold Tree.blocks at hms
      split at hms
      · obtain ⟨rest, -, hms⟩ := bind_eq_ok.1 hms
        cases hms
        cases hplain _ List.mem_cons_self
      · next hfront => exact ⟨hfront, Except.ok.inj (hms.symm.trans hall)⟩
    obtain ⟨hfront, rfl⟩ := hfront
    have hinside : Says (b + 3) (flatteningBudget - 2 * (n + 1)) false d (joinBlocks ps) :=
      ⟨_, ps, Block.readAll_eq_ok.2 (hreads.inside hplain), hps, rfl⟩
    have hquote := hinside.iterate n true
    rw [← hbudget, ← hroom] at hquote
    have hsame : Says Tree.nestingBudget flatteningBudget true d (joinBlocks ps) := by
      refine ⟨_, ps, hall, ?_, rfl⟩
      rw [hroom]
      exact passages_mono _ _ hps
    have hfront' : Block.frontMatter? (quoted^[n + 1] d) = none := by
      rw [Function.iterate_succ_apply']
      exact frontMatter?_quoted _
    have hnone' : Reference.collect (quoted^[n + 1] d) = [] := by
      rw [Function.iterate_succ_apply']
      exact collect_quoted _
    rw [hquote.extract (carriage_notMem_quoted hr (n + 1)) hfront' hnone', hsame.extract hr hfront hnone]

/-- A document with a list, code and a quote of its own. -/
def notesPage : Text := "# Notes\n\n- one\n- two\n\n\x60\x60\x60\ncode\n\x60\x60\x60\n\n> said *so*\nand more\n".toList

theorem extract_quoted_notesPage : Spoken.extract (quoted^[2] notesPage) = Spoken.extract notesPage := by
  have htree : (Tree.read notesPage).toOption.any fun tree => tree.children.all fun node => !node.kind.isPreamble := by
    decide +kernel
  have hroom : (readAll (Tree.nestingBudget - 3 * 2) true (Scope.ofText notesPage (Reference.collect notesPage)) ⟨0, notesPage⟩).toOption.any
      fun ns => (passages ns (flatteningBudget - 2 * 2)).isSome := by decide +kernel
  obtain ⟨tree, hread, hplain⟩ := exists_of_any htree
  obtain ⟨ns, hns, hflat⟩ := exists_of_any hroom
  exact extract_quoted 2 (by decide) hread (by simpa using hplain) (by decide +kernel) ⟨ns, hns, hflat⟩

end Spoken
end Narration
