import Narration.Proofs.Markup.Fenced
import Narration.Proofs.Spoken.Page

/-!
# How the blocks of a page are read

* `Page.EndsBlock`, `Page.ReadAs` : what may follow a block, and how a block is read;
* `Page.cells_join`, `Page.row_rowLine`, `Page.rows_table` : the rows of a table;
* `Page.readAs_block` : every block of a page is read as what it is.
-/

namespace Narration.Page
open Markup Markup.Content Markup.Block
open Text (EndsLine firstLine led unlines)

variable {scope : Scope} {inner : Inner} {c : Char} {t rest : Text} {a : Nat}

/-- Words, their bars escaped, are read as one text. -/
def ReadsProse (inner : Inner) : Prop :=
  ∀ (s : Stretch) (r : Text), s.chars = escapeBars r → (∀ c ∈ r, isProse c) → r ≠ [] → inner.content s = .ok [.leaf (.text r)]

/-- What may follow a block: nothing, or a blank line. -/
def EndsBlock (rest : Text) : Prop := rest = [] ∨ ∃ v, rest = '\n' :: '\n' :: v

theorem EndsBlock.endsLine (h : EndsBlock rest) : EndsLine rest := by
  rcases h with rfl | ⟨v, rfl⟩
  · exact .inl rfl
  · exact .inr ⟨_, rfl⟩

theorem EndsBlock.lineBlank (h : EndsBlock rest) (a : Nat) : (⟨a, rest.drop 1⟩ : Stretch).line.chars = [] := by
  rcases h with rfl | ⟨v, rfl⟩ <;> rfl

/-- The reading of a block at an offset, and what is narrated of it. -/
def ReadAs (scope : Scope) (inner : Inner) (a : Nat) (text rest narrated : Text) : Prop :=
  ∃ kind children, next scope inner true ⟨a, text ++ rest⟩ = .ok (scope.node kind a (a + text.length) children,
    a + text.length + min 1 rest.length) ∧
    ∀ position budget, Spoken.blockText (.mk kind children position) budget = some narrated

/-! ## Lines of words -/

theorem isDigit_of_isCellChar (h : isCellChar c) : Text.isDigit c = false := by
  rcases Bool.or_eq_true_iff.1 h with h | h
  · have hplace := Text.toNat_of_isAlpha h
    have hlt : c.val < 128 := by
      rw [UInt32.lt_iff_toNat_lt]
      change c.toNat < 128
      omega
    have hnot : ¬('0' ≤ c ∧ c ≤ '9') := by
      rintro ⟨-, h9⟩
      have : c.toNat ≤ 57 := UInt32.le_iff_toNat_le.1 h9
      omega
    rw [Text.isDigit, Text.digitValue?, if_pos hlt, if_neg hnot]
    rfl
  · rw [eq_of_beq h]
    rfl

theorem isCellChar_ne {d : Char} (hc : isCellChar c) (hd : isCellChar d = false) : c ≠ d := by
  rintro rfl
  rw [hc] at hd
  cases hd

theorem isSpaceOrTab_of_isCellChar (h : isCellChar c) : Text.isSpaceOrTab c = false := by
  rw [Text.isSpaceOrTab, Bool.or_eq_false_iff]
  exact ⟨beq_false_of_ne (isCellChar_ne h rfl), beq_false_of_ne (isCellChar_ne h rfl)⟩

theorem marker?_eq_none (h : isCellChar c) (t : Text) : LineForm.marker? (c :: t) = none := by
  have hsign : ¬(c = '*' ∨ c = '+' ∨ c = '-') := by
    rintro (rfl | rfl | rfl) <;> cases h
  have hdigits : ((c :: t).takeWhile Text.isDigit).length = 0 := by
    rw [List.takeWhile_cons_of_neg (by simp [isDigit_of_isCellChar h]), List.length_nil]
  simp only [LineForm.marker?, List.head?_cons, Option.bind_eq_bind, Option.bind_some, if_neg hsign, hdigits]
  rfl

/-- A letter or a bar begins no block but a paragraph or a table. -/
theorem earlyReader?_eq_none {top : Bool} (hc : isCellChar c) (htrim : Text.trim (c :: t) = c :: t)
    (hmodules : top → LineForm.isModules (c :: t) = false) : earlyReader? top (c :: t) = none := by
  have hne (d : Char) (hd : isCellChar d = false) : (c :: t).head? ≠ some d := fun h =>
    isCellChar_ne hc hd (Option.some.inj h)
  refine earlyReader?_of_head hmodules (fun d hd => ?_) ?_
  · rw [htrim]
    exact hne d ((by decide : ∀ d ∈ earlyMarks, isCellChar d = false) d hd)
  · rw [htrim, ← Bool.not_eq_true]
    intro h
    rcases (LineForm.of_isRule h).2 with h | h | h <;> exact hne _ (by decide) h

theorem lateReader_eq_paragraph (hc : isCellChar c) (htrim : Text.trim (c :: t) = c :: t) : lateReader (c :: t) false = .paragraph := by
  have hne (d : Char) (hd : isCellChar d = false) : (c :: t).head? ≠ some d := fun h =>
    isCellChar_ne hc hd (Option.some.inj h)
  have hdefinition : LineForm.isDefinition (c :: t) = false := by
    rw [← Bool.not_eq_true]
    exact fun h => hne '[' (by decide) (LineForm.head?_of_isDefinition h)
  have hquote : (c :: t).head? ≠ some '>' := hne _ (by decide)
  simp only [lateReader, htrim, hdefinition, hquote, marker?_eq_none hc, Option.isSome_none, decide_false,
    Bool.and_false, Bool.false_eq_true, if_false]

theorem isTable_eq_false (hbar : '|' ∉ t) (ht : '\n' ∉ t) (hrest : EndsLine rest) : isTable ⟨a, t ++ rest⟩ = false := by
  rw [isTable, Stretch.line_mk_endsLine ht hrest]
  simp [hbar]

/-! ## Paragraphs -/

/-- Words alone on a line are a paragraph when the next line ends it. -/
theorem next_words {top : Bool} (hprose : ReadsProse inner) (h : IsPhrase Char.isAlpha t) (hmodules : top → LineForm.isModules t = false)
    (hrest : EndsLine rest) (hend : ∀ fuel last, paragraphEnd (fuel + 1) last ⟨a + t.length + min 1 rest.length, rest.drop 1⟩ =
      (last, .other, ⟨a + t.length + min 1 rest.length, rest.drop 1⟩)) :
    next scope inner top ⟨a, t ++ rest⟩ =
      .ok (scope.node .paragraph a (a + t.length) [.leaf (.text t)], a + t.length + min 1 rest.length) := by
  have hcell := h.imp fun _ => isCellChar_of_isAlpha
  have hnewline : '\n' ∉ t := hcell.notMem (by decide)
  have hbar : '|' ∉ t := fun hmem => by
    rcases h.chars _ hmem with h | h <;> cases h
  have hfirst : firstLine (t ++ rest) = t := by
    rw [hrest.firstLine_append, firstLine, Text.takeWhile_lastLine hnewline]
  have hreader : readerOf top t false = .paragraph := by
    obtain ⟨c, u, rfl, hc⟩ := hcell.exists_cons
    rw [readerOf, earlyReader?_eq_none hc hcell.trim_eq hmodules, Option.getD_none, lateReader_eq_paragraph hc hcell.trim_eq]
  have hstart : (⟨a, t ++ rest⟩ : Stretch).trimStart = ⟨a, t ++ rest⟩ := by
    refine Stretch.trimStart_eq_self ?_
    rw [Text.trimStart_append_of_not_allBlank, hcell.trimStart_eq]
    obtain ⟨c, u, rfl, hc⟩ := hcell.exists_cons
    rw [Text.allBlank, List.all_cons, not_isBlank_of_isCellChar hc, Bool.false_and]
  obtain ⟨fuel, hfuel⟩ : ∃ fuel, (t ++ rest).length = fuel + 1 :=
    Nat.exists_eq_succ_of_ne_zero (by simp [hcell.ne_nil])
  have htill : ((⟨a, t ++ rest⟩ : Stretch).till (a + t.length)).trim = ⟨a, t⟩ := by
    rw [Stretch.till, Nat.add_sub_cancel_left, Stretch.take, List.take_left, Stretch.trim_eq_self hcell.trimStart_eq hcell.trimEnd_eq]
  have hcontent : inner.content ⟨a, t⟩ = .ok [.leaf (.text t)] :=
    hprose ⟨a, t⟩ t (escapeBars_of_notMem hbar).symm hcell.isProse_of_mem hcell.ne_nil
  rw [next_mk, hfirst, isTable_eq_false hbar hnewline hrest, hreader, Reader.read, paragraph, hstart,
    Stretch.line_mk_endsLine hnewline hrest, Stretch.afterLine_mk_endsLine hnewline hrest, hfuel]
  simp only [Stretch.stop, hend, htill, hcontent]
  rfl

theorem blockText_words {p : Char → Bool} (h : IsPhrase p t) (hp : ∀ c, p c → isCellChar c) (position : Option Position) (budget : Nat) :
    Spoken.blockText (.mk .paragraph [.leaf (.text t)] position) budget = some t := by
  rw [Spoken.blockText, Node.leaf, Spoken.inlineTexts, Spoken.inlineText, Spoken.inlineTexts, List.append_nil, (h.imp hp).trim_eq]

theorem EndsBlock.paragraphEnd_eq (h : EndsBlock rest) (a fuel last : Nat) :
    paragraphEnd (fuel + 1) last ⟨a, rest.drop 1⟩ = (last, .other, ⟨a, rest.drop 1⟩) := by
  have hblank : (⟨a, rest.drop 1⟩ : Stretch).line.trim.chars = [] := by
    rw [Stretch.chars_trim, h.lineBlank]
    rfl
  rw [paragraphEnd, if_pos (by rw [hblank]; simp)]

theorem readAs_paragraph (hprose : ReadsProse inner) (hrest : EndsBlock rest) (a : Nat) (prose : Phrase Char.isAlpha)
    (h : beginsModules prose.words = false) : ReadAs scope inner a prose.text rest prose.text :=
  ⟨.paragraph, _, next_words hprose prose.isPhrase (fun _ => not_isModules_of_beginsModules h) hrest.endsLine
    (hrest.paragraphEnd_eq _), fun _ _ => blockText_words prose.isPhrase (fun _ => isCellChar_of_isAlpha) _ _⟩

/-! ## Headings -/

theorem readerOf_heading {table : Bool} (n : Nat) (hn : n < 6) (h : IsPhrase isCellChar t) :
    readerOf true (List.replicate (n + 1) '#' ++ ' ' :: t) table = .heading (n + 1) (n + 2) t.length := by
  have hhead : (List.replicate (n + 1) '#' ++ ' ' :: t).head? = some '#' := rfl
  have hstart : Text.trimStart (List.replicate (n + 1) '#' ++ ' ' :: t) = List.replicate (n + 1) '#' ++ ' ' :: t :=
    List.dropWhile_cons_of_neg (by decide)
  have hend : Text.trimEnd (List.replicate (n + 1) '#' ++ ' ' :: t) = List.replicate (n + 1) '#' ++ ' ' :: t := by
    refine Text.trimEnd_eq_self fun c hc => ?_
    rw [List.getLast?_append_of_ne_nil _ (by simp), List.getLast?_cons_of_ne_nil h.ne_nil] at hc
    exact not_isBlank_of_isCellChar (h.last c hc)
  have htrim : Text.trim (List.replicate (n + 1) '#' ++ ' ' :: t) = List.replicate (n + 1) '#' ++ ' ' :: t := by
    rw [Text.trim, hstart, hend]
  have hheading : LineForm.heading? (List.replicate (n + 1) '#' ++ ' ' :: t) = some (n + 1, n + 2, t.length) := by
    exact LineForm.heading?_eq_some (by omega) (by omega) h.ne_nil (fun c hc => isSpaceOrTab_of_isCellChar (h.head c hc))
      fun c hc => isCellChar_ne (h.last c hc) (by decide)
  generalize List.replicate (n + 1) '#' ++ ' ' :: t = line at *
  have hmodules : LineForm.isModules line = false := by
    rw [← Bool.not_eq_true]
    intro hm
    rcases LineForm.head?_of_isModules hm with hm | hm <;> rw [hhead] at hm <;> cases hm
  have hcomment : LineForm.isComment line = false := by
    rw [← Bool.not_eq_true]
    intro hc
    have := LineForm.head?_of_isComment hc
    rw [hhead] at this
    cases this
  have hopens : LineForm.opensTag line = false := by
    rw [← Bool.not_eq_true]
    intro hc
    have := LineForm.head?_of_opensTag hc
    rw [hhead] at this
    cases this
  have hfence : LineForm.fence? line = none := LineForm.fence?_eq_none (by rw [hhead]; decide) (by rw [hhead]; decide)
  have hindent : Text.indent line < 4 := by
    rw [Text.indent_eq_zero hstart]
    decide
  have hbrace : line.head? ≠ some '\x7b' := by rw [hhead]; decide
  simp only [readerOf, earlyReader?, htrim, hmodules, hcomment, hopens, hfence, hheading, if_pos hindent,
    if_neg hbrace, Bool.and_false, Bool.false_eq_true, if_false, Option.getD_some]

theorem readAs_heading (hprose : ReadsProse inner) (hrest : EndsBlock rest) (a : Nat) (depth : Fin 6)
    (title : Phrase Char.isAlpha) : ReadAs scope inner a (List.replicate (depth + 1) '#' ++ ' ' :: title.text) rest title.text := by
  have halpha := title.isPhrase
  have hcell := halpha.imp fun _ => isCellChar_of_isAlpha
  obtain ⟨n, hn⟩ := depth
  dsimp only
  generalize title.text = t at *
  have hbar : '|' ∉ t := fun hmem => by
    rcases halpha.chars _ hmem with h | h <;> cases h
  have hnewline : '\n' ∉ List.replicate (n + 1) '#' ++ ' ' :: t := by
    have := hcell.notMem (d := '\n') (by decide)
    simp [this]
  have hfirst : firstLine (List.replicate (n + 1) '#' ++ ' ' :: t ++ rest) = List.replicate (n + 1) '#' ++ ' ' :: t := by
    rw [hrest.endsLine.firstLine_append, firstLine, Text.takeWhile_lastLine hnewline]
  have hstart : (⟨a, List.replicate (n + 1) '#' ++ ' ' :: t⟩ : Stretch).trimStart = ⟨a, List.replicate (n + 1) '#' ++ ' ' :: t⟩ :=
    Stretch.trimStart_eq_self (List.dropWhile_cons_of_neg (by decide))
  have htitle : (((⟨a, List.replicate (n + 1) '#' ++ ' ' :: t⟩ : Stretch).drop (n + 2)).take t.length).chars = t := by
    have hparts : List.replicate (n + 1) '#' ++ ' ' :: t = (List.replicate (n + 1) '#' ++ [' ']) ++ t := by simp
    rw [Stretch.chars_take, Stretch.chars_drop, hparts, List.drop_left' (by simp), List.take_length]
  have hcontent : inner.content (((⟨a, List.replicate (n + 1) '#' ++ ' ' :: t⟩ : Stretch).drop (n + 2)).take t.length) =
      .ok [.leaf (.text t)] :=
    hprose _ t (by rw [htitle, escapeBars_of_notMem hbar]) hcell.isProse_of_mem hcell.ne_nil
  refine ⟨.heading (n + 1), [.leaf (.text t)], ?_, fun position budget => ?_⟩
  · rw [next_mk, hfirst, readerOf_heading n hn hcell, Reader.read, heading, Stretch.line_mk_endsLine hnewline hrest.endsLine,
      Stretch.afterLine_mk_endsLine hnewline hrest.endsLine, hstart, if_neg (by simpa using hcell.ne_nil), hcontent]
    rfl
  · rw [Spoken.blockText, Node.leaf, Spoken.inlineTexts, Spoken.inlineText, Spoken.inlineTexts, List.append_nil, hcell.trim_eq]

/-! ## Rows -/

/-- What stands in a cell up to a space: the bars are escaped, so that none ends the cell. -/
theorem cells_escapeBars (r : Text) (before : Char) (o : Nat) (cell v : Text) :
    ∃ o', cells before o cell (escapeBars r ++ ' ' :: v) = cells ' ' o' (' ' :: (escapeBars r).reverse ++ cell) v := by
  have hkeep {c before : Char} (hc : c ≠ '|' ∨ before = '\\') (o : Nat) (cell t : Text) :
      cells before o cell (c :: t) = cells c (o + 1) (c :: cell) t := by
    rw [cells, if_neg]
    rintro ⟨rfl, hbefore⟩
    rcases hc with hc | hc
    · exact hc rfl
    · exact hbefore hc
  induction r generalizing before o cell with
  | nil => exact ⟨o + 1, hkeep (.inl (by decide)) _ _ _⟩
  | cons c r ih =>
    by_cases hc : c = '|'
    · subst hc
      obtain ⟨o', ho'⟩ := ih '|' (o + 1 + 1) ('|' :: '\\' :: cell)
      refine ⟨o', ?_⟩
      rw [escapeBars_bar, List.cons_append, List.cons_append, hkeep (.inl (by decide)), hkeep (.inr rfl), ho']
      simp
    · obtain ⟨o', ho'⟩ := ih c (o + 1) (c :: cell)
      refine ⟨o', ?_⟩
      rw [escapeBars_cons hc, List.cons_append, hkeep (.inl hc), ho']
      simp

theorem cells_padded (r : Text) (before : Char) (o : Nat) (v : Text) :
    ∃ o', cells before o [] (padded (escapeBars r) ++ v) = cells ' ' o' (padded (escapeBars r)).reverse v := by
  have hspace : cells before o [] (' ' :: (escapeBars r ++ ' ' :: v)) = cells ' ' (o + 1) [' '] (escapeBars r ++ ' ' :: v) := by
    rw [cells, if_neg (by simp)]
  obtain ⟨o', ho'⟩ := cells_escapeBars r ' ' (o + 1) [' '] v
  refine ⟨o', ?_⟩
  rw [padded, List.cons_append, List.append_assoc, List.singleton_append, hspace, ho']
  simp

/-- A row is cut at the bars between its cells. -/
theorem cells_join (rs : List Text) (hne : rs ≠ []) (before : Char) (o : Nat) :
    (cells before o [] (Text.join ['|'] (rs.map fun r => padded (escapeBars r)))).map Stretch.chars =
      rs.map fun r => padded (escapeBars r) := by
  induction rs generalizing before o with
  | nil => exact absurd rfl hne
  | cons r rs ih =>
    cases rs with
    | nil =>
      obtain ⟨o', ho'⟩ := cells_padded r before o []
      rw [List.append_nil] at ho'
      rw [List.map_singleton, Text.join_singleton, ho', cells, List.map_singleton, List.reverse_reverse]
    | cons k rs =>
      obtain ⟨o', ho'⟩ := cells_padded r before o ('|' :: Text.join ['|'] ((k :: rs).map fun r => padded (escapeBars r)))
      have hcut (t : Text) : cells ' ' o' (padded (escapeBars r)).reverse ('|' :: t) =
          ⟨o' - (padded (escapeBars r)).reverse.length, padded (escapeBars r)⟩ :: cells '|' (o' + 1) [] t := by
        rw [cells, if_pos (by decide), List.reverse_reverse]
      rw [List.map_cons, Text.join_cons _ _ (by simp), List.append_assoc, List.singleton_append, ho', hcut, List.map_cons,
        ih (by simp)]

/-- The cell of a table that holds a text. -/
def cellNode (r : Text) : Node := .mk .tableCell [.leaf (.text r)] none

/-- The cells of a row are read one by one. -/
theorem mapM_cells {f : Stretch → Except Fault Node} {L : List Stretch} {rs : List Text}
    (hL : L.map Stretch.chars = rs.map fun r => padded (escapeBars r))
    (hf : ∀ r ∈ rs, ∀ s : Stretch, s.chars = padded (escapeBars r) → f s = .ok (cellNode r)) :
    L.mapM f = .ok (rs.map cellNode) := by
  induction L generalizing rs with
  | nil =>
    obtain rfl : rs = [] := by simpa using hL.symm
    rfl
  | cons s L ih =>
    obtain ⟨r, rs, rfl⟩ : ∃ r rs', rs = r :: rs' := by
      cases rs with
      | nil => cases hL
      | cons r rs => exact ⟨r, rs, rfl⟩
    rw [List.map_cons, List.map_cons, List.cons.injEq] at hL
    obtain ⟨hr, hrs⟩ := List.forall_mem_cons.1 hf
    rw [List.mapM_cons, hr s hL.1, ih hL.2 hrs]
    rfl

theorem not_isBlank_escapeBars {r : Text} (h : IsPhrase isCellChar r) :
    (∀ c ∈ (escapeBars r).head?, Text.isBlank c = false) ∧ (∀ c ∈ (escapeBars r).getLast?, Text.isBlank c = false) ∧
      escapeBars r ≠ [] := by
  have hself (c : Char) : ∃ u, escapeBars [c] = u ++ [c] ∧ ∀ d ∈ u, Text.isBlank d = false := by
    by_cases hc : c = '|'
    · subst hc
      exact ⟨['\\'], rfl, by decide⟩
    · exact ⟨[], escapeBars_cons hc [], nofun⟩
  obtain ⟨u, d, hlast⟩ : ∃ u d, r = u ++ [d] :=
    ⟨r.dropLast, r.getLast h.ne_nil, (List.dropLast_append_getLast h.ne_nil).symm⟩
  obtain ⟨c, v, hhead⟩ := List.exists_cons_of_ne_nil h.ne_nil
  obtain ⟨w, hw, hblank⟩ := hself c
  obtain ⟨x, hx, -⟩ := hself d
  have hc := not_isBlank_of_isCellChar (h.head c (by rw [hhead]; rfl))
  have hd := not_isBlank_of_isCellChar (h.last d (by rw [hlast, List.getLast?_concat]; rfl))
  have hfront : escapeBars r = w ++ [c] ++ escapeBars v := by
    rw [hhead, ← List.singleton_append, escapeBars_append, hw]
  have hend : escapeBars r = escapeBars u ++ x ++ [d] := by rw [hlast, escapeBars_append, hx, List.append_assoc]
  refine ⟨fun a ha => ?_, fun a ha => ?_, by simp [hend]⟩
  · rw [hfront] at ha
    cases w with
    | nil =>
      cases ha
      exact hc
    | cons b w =>
      cases ha
      exact hblank _ List.mem_cons_self
  · rw [hend, List.getLast?_concat] at ha
    cases ha
    exact hd

theorem trim_padded {r : Text} (h : IsPhrase isCellChar r) : Text.trim (padded (escapeBars r)) = escapeBars r := by
  obtain ⟨hhead, hlast, hne⟩ := not_isBlank_escapeBars h
  obtain ⟨c, u, hcons⟩ := List.exists_cons_of_ne_nil hne
  have hstart : Text.trimStart (padded (escapeBars r)) = escapeBars r ++ [' '] := by
    rw [padded, Text.trimStart, List.dropWhile_cons_of_pos (by decide), hcons, List.cons_append,
      List.dropWhile_cons_of_neg (by simp [hhead c (by rw [hcons]; rfl)])]
  rw [Text.trim, hstart, Text.trimEnd_append (by decide) hlast]

theorem trimStart_barred (cells : List Text) : Text.trimStart (barred cells) = barred cells :=
  List.dropWhile_cons_of_neg (by decide)

theorem trimEnd_barred (cells : List Text) : Text.trimEnd (barred cells) = barred cells := by
  refine Text.trimEnd_eq_self fun c hc => ?_
  rw [barred, ← List.cons_append, List.getLast?_concat] at hc
  cases hc
  rfl

theorem getLast?_join_padded (c : Text) (cells : List Text) : (Text.join ['|'] ((c :: cells).map padded)).getLast? = some ' ' := by
  induction cells generalizing c with
  | nil => 
    rw [List.map_singleton, Text.join_singleton, padded, ← List.cons_append, List.getLast?_concat]
  | cons k cells ih =>
    rw [List.map_cons, Text.join_cons _ _ (by simp), List.getLast?_append, ih k, Option.some_or]

theorem row_barred (hprose : ReadsProse inner) {rs : List Text} (hne : rs ≠ []) (hrs : ∀ r ∈ rs, IsPhrase isCellChar r) :
    row scope inner ⟨a, barred (rs.map escapeBars)⟩ =
      .ok (scope.node .tableRow a (a + (barred (rs.map escapeBars)).length) (rs.map cellNode)) := by
  have hcells := cells_join rs hne '|' (a + 1)
  have hlast : (Text.join ['|'] ((rs.map escapeBars).map padded)).getLast? = some ' ' := by
    obtain ⟨r, rs, rfl⟩ := List.exists_cons_of_ne_nil hne
    exact getLast?_join_padded _ _
  rw [row, Stretch.trim_eq_self (trimStart_barred _) (trimEnd_barred _)]
  rw [List.map_map] at hlast
  simp only [barred, List.map_map]
  generalize hinside : Text.join ['|'] (rs.map (padded ∘ escapeBars)) = inside at hlast
  have hdrop : (⟨a, '|' :: (inside ++ ['|'])⟩ : Stretch).drop 1 = ⟨a + 1, inside ++ ['|']⟩ := by
    simp [Stretch.drop]
  have hstrip : (⟨a + 1, inside ++ ['|']⟩ : Stretch).take ((inside ++ ['|']).length - 1) = ⟨a + 1, inside⟩ := by
    simp [Stretch.take]
  change (cells '|' (a + 1) [] (Text.join ['|'] (rs.map (padded ∘ escapeBars)))).map Stretch.chars = _ at hcells
  rw [hinside] at hcells
  simp only [hdrop, List.getLast?_concat, List.dropLast_concat, hlast, hstrip]
  rw [if_pos (by decide), mapM_cells hcells]
  · rfl
  · intro r hr s hs
    obtain ⟨hhead, -, hne⟩ := not_isBlank_escapeBars (hrs r hr)
    have hchars : s.trim.chars = escapeBars r := by rw [Stretch.chars_trim, hs, trim_padded (hrs r hr)]
    rw [if_neg (by simp [hchars, hne]), hprose s.trim r hchars (hrs r hr).isProse_of_mem (hrs r hr).ne_nil]
    rfl

/-- What is neither a bar nor a space is between bars only if it is in a cell. -/
theorem notMem_barred (hbar : c ≠ '|') (hspace : c ≠ ' ') {cells : List Text} (h : ∀ cell ∈ cells, c ∉ cell) : c ∉ barred cells := by
  intro hmem
  simp only [barred, List.mem_cons, List.mem_append, List.not_mem_nil, or_false, hbar, false_or] at hmem
  rcases Text.mem_join hmem with hmem | ⟨p, hp, hmem⟩
  · exact hbar (List.mem_singleton.1 hmem)
  · obtain ⟨cell, hcell, rfl⟩ := List.mem_map.1 hp
    simp only [padded, List.mem_cons, List.mem_append, List.not_mem_nil, or_false, hspace, false_or] at hmem
    exact h cell hcell hmem

theorem notMem_rowLine (hprose : isProse c = false) (hslash : c ≠ '\\') (cells : List (Phrase isCellChar)) : c ∉ rowLine cells := by
  have hbar : c ≠ '|' := by
    rintro rfl
    cases hprose
  have hspace : c ≠ ' ' := by
    rintro rfl
    cases hprose
  refine notMem_barred hbar hspace fun cell hcell => ?_
  obtain ⟨phrase, -, rfl⟩ := List.mem_map.1 hcell
  exact phrase.isPhrase.notMem_escapeBars hprose hslash

theorem newline_notMem_rowLine (cells : List (Phrase isCellChar)) : '\n' ∉ rowLine cells :=
  notMem_rowLine (by decide) (by decide) cells

theorem map_escapeBars_text (cells : List (Phrase isCellChar)) :
    (cells.map Phrase.text).map escapeBars = cells.map fun cell => escapeBars cell.text := by
  rw [List.map_map]
  rfl

theorem row_rowLine (hprose : ReadsProse inner) {cells : List (Phrase isCellChar)} (hne : cells ≠ []) :
    row scope inner ⟨a, rowLine cells⟩ =
      .ok (scope.node .tableRow a (a + (rowLine cells).length) (cells.map fun cell => cellNode cell.text)) := by
  have hphrases : ∀ r ∈ cells.map Phrase.text, IsPhrase isCellChar r := by
    intro r hr
    obtain ⟨phrase, -, rfl⟩ := List.mem_map.1 hr
    exact phrase.isPhrase
  have h : row scope inner ⟨a, barred ((cells.map Phrase.text).map escapeBars)⟩ = _ :=
    row_barred hprose (by simpa using hne) hphrases
  rw [map_escapeBars_text, List.map_map] at h
  exact h

/-- The nodes of rows that stand below each other. -/
def rowNodes (scope : Scope) : (a : Nat) → List (List (Phrase isCellChar)) → List Node
  | _, [] => []
  | a, cells :: rows =>
    scope.node .tableRow (a + 1) (a + 1 + (rowLine cells).length) (cells.map fun cell => cellNode cell.text) ::
      rowNodes scope (a + 1 + (rowLine cells).length) rows

theorem allBlank_barred (cells : List Text) : Text.allBlank (barred cells) = false := rfl

/-- The rows below the rule of a table. `a` is where the line above them ends. -/
theorem rows_led (hprose : ReadsProse inner) (hrest : EndsBlock rest) (rs : List (List (Phrase isCellChar))) (hne : ∀ cells ∈ rs, cells ≠ [])
    {fuel n : Nat} (hfuel : rs.length < fuel) (hn : 1 < n) (a : Nat) :
    rows scope inner fuel n a ⟨a + min 1 (led (rs.map rowLine) ++ rest).length, (led (rs.map rowLine) ++ rest).drop 1⟩ =
      .ok (rowNodes scope a rs, a + (led (rs.map rowLine)).length, a + (led (rs.map rowLine)).length + min 1 rest.length) := by
  induction rs generalizing fuel n a with
  | nil =>
    obtain ⟨fuel, rfl⟩ := Nat.exists_eq_succ_of_ne_zero (Nat.ne_of_gt hfuel)
    have hblank : Text.allBlank (⟨a + min 1 rest.length, rest.drop 1⟩ : Stretch).line.chars := by
      rw [hrest.lineBlank]
      rfl
    rw [List.map_nil, Text.led_nil, List.nil_append, rows, if_pos (by rw [hblank, Bool.or_true, Bool.true_or])]
    rfl
  | cons cells rs ih =>
    obtain ⟨fuel, rfl⟩ := Nat.exists_eq_succ_of_ne_zero (Nat.ne_of_gt (Nat.zero_lt_of_lt hfuel))
    obtain ⟨hcells, hrs⟩ := List.forall_mem_cons.1 hne
    have hends : EndsLine (led (rs.map rowLine) ++ rest) := (Text.endsLine_led _).append hrest.endsLine
    have hnewline := newline_notMem_rowLine cells
    have hstart : a + min 1 (led ((cells :: rs).map rowLine) ++ rest).length = a + 1 := by
      rw [List.map_cons, Text.led_cons, List.cons_append, List.length_cons, Nat.min_eq_left (by omega)]
    have hchars : (led ((cells :: rs).map rowLine) ++ rest).drop 1 = rowLine cells ++ (led (rs.map rowLine) ++ rest) := by
      rw [List.map_cons, Text.led_cons, List.cons_append, List.drop_one, List.tail_cons, List.append_assoc]
    have hcond : ((rowLine cells ++ (led (rs.map rowLine) ++ rest)).isEmpty || Text.allBlank (rowLine cells) ||
        decide (1 < n) && !(rowLine cells).contains '|') = false := by
      rw [rowLine, allBlank_barred]
      simp [barred]
    rw [hstart, hchars, rows]
    simp only [Stretch.line_mk_endsLine hnewline hends, hcond, Stretch.afterLine_mk_endsLine hnewline hends,
      row_rowLine hprose hcells, if_neg (show n ≠ 1 by omega), Bool.false_eq_true, if_false]
    have hrec := ih hrs (show rs.length < fuel by simpa using hfuel) (show 1 < n + 1 by omega) (a + 1 + (rowLine cells).length)
    change (rows scope inner fuel (n + 1) (a + 1 + (rowLine cells).length) _ >>= _) = _
    rw [hrec]
    have hlength : (led ((cells :: rs).map rowLine)).length = 1 + (rowLine cells).length + (led (rs.map rowLine)).length := by
      simp
      omega
    rw [hlength]
    simp only [← Nat.add_assoc]
    rfl

/-! ## Tables -/

theorem isTableRuleCell_text (cell : RuleCell) : LineForm.isTableRuleCell (' ' :: (cell.text ++ [' '])) := by
  have hchar {c : Char} (h : c = ':' ∨ c = '-') : Text.isSpaceOrTab c = false := by
    rcases h with rfl | rfl <;> rfl
  have hstart : (' ' :: (cell.text ++ [' '])).dropWhile Text.isSpaceOrTab = cell.text ++ [' '] := by
    rw [List.dropWhile_cons_of_pos (by decide)]
    obtain ⟨c, u, htext⟩ := List.exists_cons_of_ne_nil cell.text_ne_nil
    have hc := hchar (cell.chars (c := c) (by rw [htext]; exact List.mem_cons_self))
    rw [htext, List.cons_append, List.dropWhile_cons_of_neg (by simp [hc])]
  have hend : Text.dropEndWhile Text.isSpaceOrTab (cell.text ++ [' ']) = cell.text :=
    Text.dropEndWhile_run (by decide) fun c hc => hchar (cell.chars (List.mem_of_getLast? hc))
  rw [LineForm.isTableRuleCell, hstart, hend]
  clear hstart hend
  obtain ⟨left, more, right⟩ := cell
  have hhead (u : Text) : (List.replicate (more + 1) '-' ++ u).head? ≠ some ':' := by simp [List.replicate_succ]
  have hlast : (List.replicate (more + 1) '-').getLast? ≠ some ':' := by simp [List.getLast?_replicate]
  have hmarks : (!(List.replicate (more + 1) '-').isEmpty && (List.replicate (more + 1) '-').all (· = '-')) = true := by simp
  have hleft : (if (RuleCell.text ⟨left, more, right⟩).head? = some ':' then (RuleCell.text ⟨left, more, right⟩).tail
      else RuleCell.text ⟨left, more, right⟩) = List.replicate (more + 1) '-' ++ if right then [':'] else [] := by
    cases left with
    | true => rfl
    | false => exact if_neg (hhead _)
  rw [hleft]
  cases right with
  | true => simp
  | false =>
    simp only [Bool.false_eq_true, if_false, List.append_nil, if_neg hlast]
    exact hmarks

theorem splitOn_join {c : Char} {pieces : List Text} (hne : pieces ≠ []) (h : ∀ p ∈ pieces, c ∉ p) (v : Text) :
    Text.splitOn c (Text.join [c] pieces ++ c :: v) = pieces ++ Text.splitOn c v := by
  induction pieces with
  | nil => exact absurd rfl hne
  | cons p pieces ih =>
    obtain ⟨hp, hpieces⟩ := List.forall_mem_cons.1 h
    cases pieces with
    | nil => rw [Text.join_singleton, Text.splitOn_append hp, List.singleton_append]
    | cons k pieces =>
      rw [Text.join_cons _ _ (by simp), List.append_assoc, List.append_assoc, List.singleton_append, Text.splitOn_append hp,
        ih (by simp) hpieces]
      rfl

theorem isTableRule_barred {rule : List RuleCell} (hne : rule ≠ []) : LineForm.isTableRule (barred (rule.map RuleCell.text)) := by
  obtain ⟨cells, hcells⟩ : ∃ cells, (rule.map RuleCell.text).map padded = cells := ⟨_, rfl⟩
  have hcell : ∀ cell ∈ cells, LineForm.isTableRuleCell cell ∧ '|' ∉ cell := by
    intro cell hmem
    rw [← hcells, List.map_map] at hmem
    obtain ⟨x, -, rfl⟩ := List.mem_map.1 hmem
    refine ⟨isTableRuleCell_text x, fun hbar => ?_⟩
    simp only [Function.comp_apply, padded, List.mem_cons, List.mem_append, List.not_mem_nil, or_false] at hbar
    rcases hbar with hbar | hbar | hbar
    · cases hbar
    · rcases x.chars hbar with h | h <;> cases h
    · cases hbar
  have hne : cells ≠ [] := by
    rw [← hcells]
    simpa using hne
  have hsplit : Text.splitOn '|' (barred (rule.map RuleCell.text)) = [] :: (cells ++ [[]]) := by
    rw [barred, hcells, Text.splitOn_cons_self, splitOn_join hne fun cell h => (hcell cell h).2]
    rfl
  have hall : cells.all LineForm.isTableRuleCell := List.all_eq_true.2 fun cell h => (hcell cell h).1
  rw [LineForm.isTableRule, hsplit]
  simp only [List.length_cons, List.head?_cons, Option.any_some, List.isEmpty_nil, List.tail_cons, Bool.and_true]
  rw [if_pos (by simp [List.length_pos_iff.2 hne]), if_pos (by simp), List.dropLast_concat]
  exact hall


theorem notMem_rule (hbar : c ≠ '|') (hspace : c ≠ ' ') (hcolon : c ≠ ':') (hhyphen : c ≠ '-') (rule : List RuleCell) :
    c ∉ barred (rule.map RuleCell.text) := by
  refine notMem_barred hbar hspace fun cell hcell hmem => ?_
  obtain ⟨x, -, rfl⟩ := List.mem_map.1 hcell
  rcases x.chars hmem with h | h
  · exact hcolon h
  · exact hhyphen h

theorem newline_notMem_rule (rule : List RuleCell) : '\n' ∉ barred (rule.map RuleCell.text) :=
  notMem_rule (by decide) (by decide) (by decide) (by decide) rule

theorem rowText_rowNode (scope : Scope) (a stop : Nat) {cells : List (Phrase isCellChar)} (hne : cells ≠ []) :
    Spoken.rowText (scope.node .tableRow a stop (cells.map fun cell => cellNode cell.text)) = rowText cells := by
  have hcell (cell : Phrase isCellChar) : Text.trim (Spoken.inlineTexts (cellNode cell.text).children) = cell.text := by
    change Text.trim (cell.text ++ []) = _
    rw [List.append_nil, cell.isPhrase.trim_eq]
  have hcells : (scope.node .tableRow a stop (cells.map fun cell => cellNode cell.text)).children.map
      (fun cell => Text.trim (Spoken.inlineTexts cell.children)) = cells.map Phrase.text := by
    change (cells.map fun cell => cellNode cell.text).map _ = _
    rw [List.map_map]
    exact List.map_congr_left fun cell _ => hcell cell
  have hsome : (cells.map Phrase.text).all List.isEmpty = false := by
    obtain ⟨cell, cells, rfl⟩ := List.exists_cons_of_ne_nil hne
    rw [List.map_cons, List.all_cons, List.isEmpty_eq_false_iff.2 cell.isPhrase.ne_nil, Bool.false_and]
  rw [Spoken.rowText, hcells]
  simp only [hsome, Bool.false_eq_true, if_false]
  rfl

theorem map_rowText_rowNodes (scope : Scope) (a : Nat) {rs : List (List (Phrase isCellChar))} (hne : ∀ cells ∈ rs, cells ≠ []) :
    (rowNodes scope a rs).map Spoken.rowText = rs.map rowText := by
  induction rs generalizing a with
  | nil => rfl
  | cons cells rs ih =>
    obtain ⟨hcells, hrs⟩ := List.forall_mem_cons.1 hne
    rw [rowNodes, List.map_cons, List.map_cons, rowText_rowNode _ _ _ hcells, ih _ hrs]

theorem rowText_ne_nil {cells : List (Phrase isCellChar)} (hne : cells ≠ []) : rowText cells ≠ [] := by
  obtain ⟨cell, cells, rfl⟩ := List.exists_cons_of_ne_nil hne
  have hcell := cell.isPhrase.ne_nil
  cases cells with
  | nil =>
    rw [rowText, List.map_singleton, Text.join_singleton]
    exact hcell
  | cons k cells =>
    rw [rowText, List.map_cons, Text.join_cons _ _ (by simp)]
    simp

theorem afterLine_header (header : List (Phrase isCellChar)) (rule : List RuleCell) (below : Text) (a : Nat) :
    (⟨a, rowLine header ++ '\n' :: (barred (rule.map RuleCell.text) ++ below)⟩ : Stretch).afterLine =
      ⟨a + (rowLine header).length + 1, barred (rule.map RuleCell.text) ++ below⟩ := by
  rw [Stretch.afterLine_mk (newline_notMem_rowLine header), Nat.add_assoc]

theorem isTable_header (header : List (Phrase isCellChar)) {rule : List RuleCell} (hrule : rule ≠ []) {below : Text} (hbelow : EndsLine below)
    (a : Nat) : isTable ⟨a, rowLine header ++ '\n' :: (barred (rule.map RuleCell.text) ++ below)⟩ := by
  have hbar : (rowLine header).contains '|' := by simp [rowLine, barred]
  have hsome : (barred (rule.map RuleCell.text) ++ below).isEmpty = false := rfl
  rw [isTable, afterLine_header, Stretch.line_mk (newline_notMem_rowLine header),
    Stretch.line_mk_endsLine (newline_notMem_rule rule) hbelow, Stretch.trim_eq_self (trimStart_barred _) (trimEnd_barred _),
    hbar, hsome, isTableRule_barred hrule]
  rfl

theorem readerOf_rowLine (header : List (Phrase isCellChar)) : readerOf true (rowLine header) true = .table := by
  have htrim : Text.trim (rowLine header) = rowLine header := by rw [rowLine, Text.trim, trimStart_barred, trimEnd_barred]
  have hearly : earlyReader? true (rowLine header) = none := earlyReader?_eq_none (by decide) htrim fun _ => rfl
  rw [readerOf, hearly]
  rfl

/-- The rows of a table that begins at `a`. -/
theorem rows_table (hprose : ReadsProse inner) (hrest : EndsBlock rest) {header : List (Phrase isCellChar)} (hheader : header ≠ [])
    (rule : List RuleCell) {rs : List (List (Phrase isCellChar))} (hne : ∀ cells ∈ rs, cells ≠ []) {fuel : Nat}
    (hfuel : rs.length < fuel) (a : Nat) :
    rows scope inner (fuel + 2) 0 a ⟨a, rowLine header ++ '\n' :: (barred (rule.map RuleCell.text) ++ (led (rs.map rowLine) ++ rest))⟩ =
      .ok (scope.node .tableRow a (a + (rowLine header).length) (header.map fun cell => cellNode cell.text) ::
          rowNodes scope (a + (rowLine header).length + 1 + (barred (rule.map RuleCell.text)).length) rs,
        a + (rowLine header).length + 1 + (barred (rule.map RuleCell.text)).length + (led (rs.map rowLine)).length,
        a + (rowLine header).length + 1 + (barred (rule.map RuleCell.text)).length + (led (rs.map rowLine)).length +
          min 1 rest.length) := by
  have hends : EndsLine (led (rs.map rowLine) ++ rest) := (Text.endsLine_led _).append hrest.endsLine
  have hblank : Text.allBlank (rowLine header) = false := rfl
  have hblank' : Text.allBlank (barred (rule.map RuleCell.text)) = false := rfl
  have hbar : (barred (rule.map RuleCell.text)).contains '|' := by simp [barred]
  have hbelow := @rows_led scope inner rest hprose hrest rs hne fuel 2 hfuel (Nat.lt_succ_self 1)
    (a + (rowLine header).length + 1 + (barred (rule.map RuleCell.text)).length)
  rw [rows, Stretch.line_mk (newline_notMem_rowLine header), afterLine_header]
  simp only [hblank, row_rowLine hprose hheader]
  rw [if_neg (by simp [rowLine, barred]), if_neg (by decide), rows,
    Stretch.line_mk_endsLine (newline_notMem_rule rule) hends, Stretch.afterLine_mk_endsLine (newline_notMem_rule rule) hends]
  simp only [hblank', hbar]
  rw [if_neg (by simp [barred]), if_pos trivial]
  change (_ >>= fun r => Except.ok _ >>= fun r' => _) = _
  simp only [Stretch.stop]
  rw [hbelow]
  rfl

theorem readAs_table (hprose : ReadsProse inner) (hrest : EndsBlock rest) (a : Nat) (grid : Grid) :
    ReadAs scope inner a (unlines (Block.table grid).lines) rest (Block.table grid).narrated := by
  obtain ⟨header, rule, rs, hheader, hrule, hrs⟩ := grid
  have hrule : rule ≠ [] := by
    rintro rfl
    exact hheader (List.length_eq_zero_iff.1 hrule.symm)
  have hrs (cells : List (Phrase isCellChar)) (h : cells ∈ rs) : cells ≠ [] := by
    rintro rfl
    exact hheader (List.length_eq_zero_iff.1 (hrs [] h).symm)
  have hends : EndsLine (led (rs.map rowLine) ++ rest) := (Text.endsLine_led _).append hrest.endsLine
  have htext : unlines (rowLine header :: barred (rule.map RuleCell.text) :: rs.map rowLine) =
      rowLine header ++ '\n' :: (barred (rule.map RuleCell.text) ++ led (rs.map rowLine)) := by
    rw [Text.unlines_cons_eq, Text.led_cons]
  change ReadAs scope inner a (unlines (rowLine header :: barred (rule.map RuleCell.text) :: rs.map rowLine)) rest
    (unlines ((header :: rs).map rowText))
  rw [htext]
  have hwhole : rowLine header ++ '\n' :: (barred (rule.map RuleCell.text) ++ led (rs.map rowLine)) ++ rest =
      rowLine header ++ '\n' :: (barred (rule.map RuleCell.text) ++ (led (rs.map rowLine) ++ rest)) := by
    simp only [List.append_assoc, List.cons_append]
  have hstart : Text.trimStart (rowLine header ++ '\n' :: (barred (rule.map RuleCell.text) ++ (led (rs.map rowLine) ++ rest))) =
      rowLine header ++ '\n' :: (barred (rule.map RuleCell.text) ++ (led (rs.map rowLine) ++ rest)) :=
    List.dropWhile_cons_of_neg (by decide)
  obtain ⟨fuel, hfuel, hlength⟩ : ∃ fuel, rs.length < fuel ∧ (rowLine header ++ '\n' :: (barred (rule.map RuleCell.text) ++
      (led (rs.map rowLine) ++ rest))).length + 1 = fuel + 2 := by
    have hrows : rs.length ≤ (led (rs.map rowLine)).length := by
      have hcount : (led (rs.map rowLine)).count '\n' = _ := Text.count_led fun l hl => by
        obtain ⟨cells, -, rfl⟩ := List.mem_map.1 hl
        exact newline_notMem_rowLine cells
      rw [List.length_map] at hcount
      rw [← hcount]
      exact List.count_le_length
    have hhead : 0 < (rowLine header).length := List.length_pos_iff.2 nofun
    simp only [List.length_append, List.length_cons]
    refine ⟨(rowLine header).length + (barred (rule.map RuleCell.text)).length + (led (rs.map rowLine)).length + rest.length, ?_, ?_⟩
      <;> omega
  refine ⟨.table, scope.node .tableRow a (a + (rowLine header).length) (header.map fun cell => cellNode cell.text) ::
    rowNodes scope (a + (rowLine header).length + 1 + (barred (rule.map RuleCell.text)).length) rs, ?_, fun position budget => ?_⟩
  · rw [next_mk, hwhole, isTable_header header hrule hends, firstLine, Text.takeWhile_line (newline_notMem_rowLine header),
      readerOf_rowLine, Reader.read, table, Stretch.trimStart_eq_self hstart]
    have hstop : a + (rowLine header).length + 1 + (barred (rule.map RuleCell.text)).length + (led (rs.map rowLine)).length =
        a + (rowLine header ++ '\n' :: (barred (rule.map RuleCell.text) ++ led (rs.map rowLine))).length := by
      simp only [List.length_append, List.length_cons]
      omega
    simp only [hlength, rows_table hprose hrest hheader rule hrs hfuel a, hstop]
    rfl
  · have hrows : (scope.node .tableRow a (a + (rowLine header).length) (header.map fun cell => cellNode cell.text) ::
        rowNodes scope (a + (rowLine header).length + 1 + (barred (rule.map RuleCell.text)).length) rs).map Spoken.rowText =
        (header :: rs).map rowText := by
      rw [List.map_cons, List.map_cons, rowText_rowNode _ _ _ hheader, map_rowText_rowNodes _ _ hrs]
    have hsome : ((header :: rs).map rowText).filter (!List.isEmpty ·) = (header :: rs).map rowText := by
      refine List.filter_eq_self.2 fun t ht => ?_
      obtain ⟨cells, hcells, rfl⟩ := List.mem_map.1 ht
      have hne : cells ≠ [] := by
        rcases List.mem_cons.1 hcells with rfl | hcells
        · exact hheader
        · exact hrs cells hcells
      simp [rowText_ne_nil hne]
    rw [Spoken.blockText, Spoken.tableText, hrows, hsome]

/-! ## Code -/

theorem readAs_code (hrest : EndsBlock rest) (a : Nat) (lines : List CodeLine) :
    ReadAs scope inner a (unlines (Block.code lines).lines) rest [] := by
  have htext : unlines (Block.code lines).lines = fenceLine ++ '\n' :: unlines (lines.map CodeLine.text ++ [fenceLine]) := by
    rw [Block.lines, List.cons_append, Text.unlines_cons _ (by simp)]
  have hfence : '\n' ∉ fenceLine := by decide
  have hreader (table : Bool) : readerOf true fenceLine table = .fence '\x60' 3 := rfl
  have hls : ∀ l ∈ lines.map CodeLine.text, '\n' ∉ l ∧ LineForm.closesFence '\x60' 3 (Text.trim l) = false := by
    intro l hl
    obtain ⟨line, -, rfl⟩ := List.mem_map.1 hl
    exact ⟨line.newline, line.inside⟩
  obtain ⟨info, code, hread⟩ := fence_closed hls hfence (by decide) (by decide) hrest.endsLine hfence scope a
  have htrim : (⟨a, fenceLine⟩ : Stretch).trim = ⟨a, fenceLine⟩ := Stretch.trim_eq_self rfl rfl
  rw [htext]
  refine ⟨.codeBlock info code, [], ?_, fun _ _ => rfl⟩
  rw [next_mk, List.append_assoc, List.cons_append, firstLine, Text.takeWhile_line hfence, hreader, Reader.read, ← List.cons_append,
    ← List.append_assoc, hread, htrim]

/-! ## All blocks -/

theorem readAs_block (hprose : ReadsProse inner) (hrest : EndsBlock rest) (a : Nat) (b : Block) :
    ReadAs scope inner a (unlines b.lines) rest b.narrated := by
  cases b with
  | heading depth title =>
    change ReadAs scope inner a (unlines [_]) rest _
    rw [Text.unlines_singleton]
    exact readAs_heading hprose hrest a depth title
  | paragraph prose h =>
    change ReadAs scope inner a (unlines [_]) rest _
    rw [Text.unlines_singleton]
    exact readAs_paragraph hprose hrest a prose h
  | table grid => exact readAs_table hprose hrest a grid
  | code lines => exact readAs_code hrest a lines

/-- A block begins with something that is neither a blank nor a hyphen. -/
theorem head?_block (b : Block) : ∃ c, (unlines b.lines).head? = some c ∧ Text.isBlank c = false ∧ c ≠ '-' := by
  cases b with
  | heading depth title =>
    refine ⟨'#', ?_, rfl, by decide⟩
    rw [Block.lines, Text.unlines_singleton, List.replicate_succ]
    rfl
  | paragraph prose h =>
    obtain ⟨c, u, htext, hc⟩ := (prose.isPhrase.imp fun _ => isCellChar_of_isAlpha).exists_cons
    refine ⟨c, ?_, not_isBlank_of_isCellChar hc, isCellChar_ne hc rfl⟩
    rw [Block.lines, Text.unlines_singleton, htext]
    rfl
  | table grid =>
    refine ⟨'|', ?_, rfl, by decide⟩
    rw [Block.lines, Text.unlines_cons_eq]
    rfl
  | code lines =>
    refine ⟨'\x60', ?_, rfl, by decide⟩
    rw [Block.lines, List.cons_append, Text.unlines_cons_eq]
    rfl

end Narration.Page
