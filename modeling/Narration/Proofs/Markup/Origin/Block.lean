import Narration.Proofs.Markup.Below.Block
import Narration.Proofs.Markup.Fork
import Narration.Proofs.Markup.Origin.Content
import Narration.Proofs.Markup.Placed

/-!
# What the blocks of a document are made from

* `Block.Takes.excerpt` : the lines of quotes and items, joined, are an excerpt;
* `Block.next_stems`, `Block.readAll_stems` : the blocks of a stretch stem from it;
* `Tree.parse_stems` : the tree of a text stems from it.
-/

namespace Narration
open Text (Excerpt)

variable {t : Text}

namespace Markup
open Fallible

variable {scope : Scope} {s : Stretch} {node : Node} {children : List Node}

/-! ## Pieces of lines -/

namespace Stretch

theorem within_trim (s : Stretch) : s.trim.Within s := s.chars_trim_prefix.isInfix.trans (s.within_drop _)

/-- Below the first line there is something only when it has a line end. -/
theorem chars_eq_line_append (s : Stretch) (h : s.afterLine.chars ≠ []) : s.chars = s.line.chars ++ '\n' :: s.afterLine.chars := by
  obtain ⟨a, t⟩ := s
  by_cases ht : '\n' ∈ t
  · obtain ⟨l, v, rfl, hl⟩ := Text.firstLine_of_mem ht
    rw [line_mk hl, afterLine_mk hl]
  · rw [afterLine_mk_last ht] at h
    exact absurd rfl h

theorem solid_line (s : Stretch) : Text.Solid s.line.chars := Text.solid_of_notMem (Text.newline_notMem_firstLine s.chars)

/-- A stretch up to some place is its first line with what stands below it up to there. -/
theorem till_prefix (s : Stretch) (o : Nat) : (s.till o).chars <+: s.line.chars ++ '\n' :: (s.afterLine.till o).chars := by
  by_cases h : s.afterLine.chars = []
  · rw [chars_till, chars_till, h, List.take_nil]
    refine (List.take_prefix _ _).trans ?_
    by_cases hn : '\n' ∈ s.chars
    · obtain ⟨a, t⟩ := s
      obtain ⟨l, v, rfl, hl⟩ := Text.firstLine_of_mem hn
      rw [afterLine_mk hl] at h
      rw [line_mk hl, show v = [] from h]
    · have hline : s.line.chars = s.chars := List.takeWhile_eq_self_iff.2 fun c hc => by
        rw [decide_eq_true_eq]
        rintro rfl
        exact hn hc
      rw [hline]
      exact List.prefix_append _ _
  · have hstart : s.afterLine.start = s.start + (s.line.chars.length + 1) := by
      have hlt := List.length_pos_iff.2 h
      rw [chars_afterLine, List.length_drop] at hlt
      rw [afterLine, start_drop, Nat.min_eq_left (by omega)]
    rw [chars_till, chars_till, hstart, s.chars_eq_line_append h]
    by_cases hle : o - s.start ≤ s.line.chars.length
    · rw [List.take_append_of_le_length hle]
      exact (List.take_prefix _ _).trans (List.prefix_append _ _)
    · obtain ⟨n, hn⟩ := Nat.exists_eq_add_of_lt (Nat.lt_of_not_le hle)
      rw [hn, Nat.add_assoc, List.take_length_add_append, List.take_succ_cons, show o - (s.start + (s.line.chars.length + 1)) = n by omega]

/-- Behind the blanks at the front. -/
theorem within_trimStart_till (s : Stretch) (o : Nat) : (s.trimStart.till o).Within (s.till o) := by
  have hle : Text.indent s.chars ≤ s.chars.length := (List.takeWhile_sublist _).length_le
  have hstart : s.trimStart.start = s.start + Text.indent s.chars := congrArg (s.start + ·) (Nat.min_eq_left hle)
  have hcut : (s.trimStart.till o).chars = (s.till o).chars.drop (Text.indent s.chars) := by
    rw [chars_till, chars_till, hstart, List.drop_take, Nat.sub_sub]
    rfl
  rw [Within, hcut]
  exact (List.drop_suffix _ _).isInfix

end Stretch

namespace Block

variable {inner : Inner} {parts : List Stretch} {p : Stretch} {top : Bool}

/-- The lines that a container takes are ends of the lines they are taken from. -/
theorem Takes.rows {rest : Stretch} (h : Takes s parts rest) (hne : parts ≠ []) :
    ∃ v, v <+: s.chars ∧ Text.Rows (joinedText parts) v := by
  have hcons {s rest p : Stretch} {parts : List Stretch} (h : Takes s.afterLine parts rest)
      (ih : parts ≠ [] → ∃ v, v <+: s.afterLine.chars ∧ Text.Rows (joinedText parts) v) (hp : p.chars <:+ s.line.chars) :
      ∃ v, v <+: s.chars ∧ Text.Rows (joinedText (p :: parts)) v := by
    by_cases hparts : parts = []
    · subst hparts
      rw [joinedText, List.map_singleton, Text.unlines_singleton]
      exact ⟨s.line.chars, List.takeWhile_prefix _, .last (Text.newline_notMem_firstLine s.chars) hp.isInfix⟩
    · obtain ⟨v, hv, hrows⟩ := ih hparts
      rw [joinedText, List.map_cons, Text.unlines_cons _ (by simpa using hparts), s.chars_eq_line_append (h.ne_nil hparts)]
      refine ⟨s.line.chars ++ '\n' :: v, ?_, .line (Text.newline_notMem_firstLine s.chars) hp hrows⟩
      exact (List.prefix_append_right_inj _).2 (List.cons_prefix_cons.2 ⟨rfl, hv⟩)
  induction h with
  | nil => exact absurd rfl hne
  | line _ n h ih => exact hcons h ih (List.drop_suffix n _)
  | blank _ h ih => exact hcons h ih List.nil_suffix

theorem Takes.excerpt {rest : Stretch} (h : Takes s parts rest) : Excerpt (joinedText parts) s.chars := by
  by_cases hne : parts = []
  · exact hne ▸ Text.excerpt_of_infix List.nil_infix
  · obtain ⟨v, hv, hrows⟩ := h.rows hne
    exact ⟨v, hv.isInfix, hrows⟩

theorem cells_within (before : Char) (o : Nat) (cell u : Text) : ∀ p ∈ cells before o cell u, p.chars <:+: cell.reverse ++ u := by
  induction u generalizing before o cell with
  | nil => simp [cells]
  | cons c u ih =>
    rw [cells]
    split
    · refine List.forall_mem_cons.2 ⟨(List.prefix_append _ _).isInfix, fun p hp => ?_⟩
      exact (ih c (o + 1) [] p hp).trans ⟨cell.reverse ++ [c], [], by simp⟩
    · intro p hp
      have h := ih c (o + 1) (c :: cell) p hp
      rwa [List.reverse_cons, List.append_assoc] at h

/-! ## Blocks -/

/-- What is read from a stretch stems from it. -/
def StemsFrom (read : Stretch → Except Fault (List Node)) : Prop := ∀ s ns, read s = .ok ns → ∀ n ∈ ns, n.Stems s.chars

/-- What is read from the insides of containers stems from them. -/
structure Inner.Stems (inner : Inner) : Prop where
  content : Content.StemsFrom inner.content
  blocks : StemsFrom inner.blocks
  parts : ∀ parts ns, inner.parts parts = .ok ns → ∀ n ∈ ns, n.Stems (joinedText parts)

theorem stems_of_within {read : Stretch → Except Fault (List Node)} (h : StemsFrom read) (hp : p.Within s) (hread : read p = .ok children) :
    ∀ n ∈ children, n.Stems s.chars := fun n hn => (h p children hread n hn).trans (Text.excerpt_of_infix hp)

theorem stems_content (h : Content.StemsFrom inner.content) (hp : p.Within s) (hsolid : Text.Solid p.chars)
    (hread : inner.content p = .ok children) : ∀ n ∈ children, n.Stems s.chars :=
  fun n hn => (h p children hsolid hread n hn).trans (Text.excerpt_of_infix hp)

theorem stems_node {kind : Kind} {first : Nat} (hkind : kind.Stems t) (h : ∀ n ∈ children, n.Stems t) :
    (scope.node kind first stop children).Stems t := Node.stems_mk.2 ⟨hkind, h⟩

theorem modules_stems (scope : Scope) (s : Stretch) : (modules scope s).1.Stems s.chars := by
  refine stems_node (Text.excerpt_of_infix ?_) (List.forall_mem_nil _)
  obtain ⟨blanks, hblanks, -⟩ := Text.dropEndWhile_append Text.isBlank (s.take (modulesLength 0 0 s.chars)).chars
  have htrim : Text.trimEnd (s.take (modulesLength 0 0 s.chars)).chars <+: (s.take (modulesLength 0 0 s.chars)).chars :=
    ⟨blanks, hblanks.symm⟩
  exact htrim.isInfix.trans (s.within_take _)

theorem fence_stems (scope : Scope) (s : Stretch) (mark : Char) (length : Nat) : (fence scope s mark length).1.Stems t := by
  unfold fence
  dsimp only
  split <;> exact stems_node trivial (List.forall_mem_nil _)

theorem comment?_stems {r : Result} (h : comment? scope s = some r) : r.1.Stems t := by
  obtain ⟨n, -, h⟩ := Option.bind_eq_some_iff.1 h
  cases h
  exact stems_node trivial (List.forall_mem_nil _)

theorem expression?_stems {r : Result} (h : expression? scope s = some r) : r.1.Stems s.chars := by
  obtain ⟨⟨source, length⟩, hbraced, h⟩ := Option.bind_eq_some_iff.1 h
  dsimp only at h
  split at h
  · cases h
    exact stems_node (Text.excerpt_of_infix (Tag.braced?_infix hbraced)) (List.forall_mem_nil _)
  · cases h

/-- None of the lines that a paragraph goes on with is blank. -/
theorem solid_paragraphEnd (fuel : Nat) {last : Nat} (hlast : last ≤ s.start) :
    Text.Solid ('\n' :: (s.till (paragraphEnd fuel last s).1).chars) := by
  have hnone {s : Stretch} {last : Nat} (hlast : last ≤ s.start) : Text.Solid ('\n' :: (s.till last).chars) := by
    rw [Stretch.chars_till, Nat.sub_eq_zero_of_le hlast, List.take_zero]
    intro g _ hstands
    have := hstands.length_le
    simp at this
  induction fuel generalizing s last with
  | zero => exact hnone hlast
  | succ fuel ih =>
    unfold paragraphEnd
    dsimp only
    split
    · exact hnone hlast
    · next hends =>
      split
      · exact hnone hlast
      · split
        · exact hnone hlast
        · have hblank : Text.allBlank s.line.chars = false := by
            rw [isEmpty_or_trim_line] at hends
            exact Bool.eq_false_iff.2 hends
          have hbelow := (ih s.stop_line_le_afterLine).cons_line (Text.newline_notMem_firstLine s.chars) hblank
          exact hbelow.within (List.cons_prefix_cons.2 ⟨rfl, s.till_prefix _⟩).isInfix

section Containers
variable (hi : inner.Stems)
include hi

theorem component?_stems {r : Result} (h : component? scope inner s = .ok (some r)) : r.1.Stems s.chars := by
  obtain ⟨tag, htag, h⟩ := component?_eq_some.1 h
  cases h with
  | stray => exact stems_node trivial (List.forall_mem_nil _)
  | single hopen _ _ => exact stems_component htag hopen _ (List.forall_mem_nil _)
  | @pair first stop children hopen _ _ _ hchildren =>
    have hwithin : ((s.since tag.stop).till first).Within s := (Stretch.within_take _ _).trans (s.within_drop _)
    unfold Inner.between at hchildren
    split at hchildren
    · exact stems_component htag hopen _ (stems_of_within hi.blocks hwithin hchildren)
    · next hline =>
      have hsolid := Text.solid_of_notMem (by simpa using hline)
      exact stems_component htag hopen _ (stems_content hi.content hwithin hsolid hchildren)

theorem heading_stems {depth first length : Nat} {r : Result} (h : heading scope inner s depth first length = .ok r) :
    r.1.Stems s.chars := by
  obtain ⟨children, hchildren, hnode, -⟩ := exists_of_heading h
  rw [hnode]
  rcases hchildren with rfl | hchildren
  · exact stems_node trivial (List.forall_mem_nil _)
  · have hline : ((s.line.trimStart.drop first).take length).Within s.line :=
      (Stretch.within_take _ _).trans ((Stretch.within_drop _ _).trans (Stretch.within_drop _ _))
    exact stems_node trivial (stems_content hi.content (hline.trans s.within_line) (s.solid_line.within hline) hchildren)

theorem row_stems (hsolid : Text.Solid s.chars) (h : row scope inner s = .ok node) : node.Stems s.chars := by
  rw [row_eq] at h
  obtain ⟨nodes, hnodes, h⟩ := bind_eq_ok.1 h
  cases h
  refine stems_node trivial fun n hn => ?_
  obtain ⟨cell, hcell, hn⟩ := (mem_mapM hnodes).1 hn
  have hbare : (afterBar s.trim).2.Within s := by
    unfold afterBar
    split
    · exact (Stretch.within_drop _ _).trans s.within_trim
    · exact s.within_trim
  have hinside : (beforeBar (afterBar s.trim).2).Within s := by
    unfold beforeBar
    split
    · exact (Stretch.within_take _ _).trans hbare
    · exact hbare
  have hwithin : cell.trim.Within s := cell.within_trim.trans ((cells_within _ _ [] _ cell hcell).trans hinside)
  dsimp only at hn
  split at hn
  · cases hn
    exact Node.stems_mk.2 ⟨trivial, List.forall_mem_nil _⟩
  · obtain ⟨children, hchildren, hn⟩ := bind_eq_ok.1 hn
    cases hn
    exact Node.stems_mk.2 ⟨trivial, stems_content hi.content hwithin (hsolid.within hwithin) hchildren⟩

theorem ReadsRows.stems {n last last' next : Nat} (h : ReadsRows scope inner n last s children last' next) :
    ∀ c ∈ children, c.Stems s.chars := by
  have hbelow {s : Stretch} {c : Node} (h : c.Stems s.afterLine.chars) : c.Stems s.chars :=
    h.trans (Text.excerpt_of_infix (s.within_drop _))
  induction h with
  | none => exact List.forall_mem_nil _
  | rule _ _ ih => exact fun c hc => hbelow (ih c hc)
  | @row _ _ _ _ s _ _ _ _ hrow _ ih =>
    exact List.forall_mem_cons.2 ⟨(row_stems hi s.solid_line hrow).trans (Text.excerpt_of_infix s.within_line), fun c hc => hbelow (ih c hc)⟩

theorem table_stems {r : Result} (h : table scope inner s = .ok r) : r.1.Stems s.chars := by
  obtain ⟨nodes, last, hrows, hnode⟩ := exists_rows_of_table h
  rw [hnode]
  exact stems_node trivial (hrows.stems hi)

theorem paragraph_stems {r : Result} (h : paragraph scope inner s = .ok r) : r.1.Stems s.chars := by
  unfold paragraph at h
  have hsolid := (solid_paragraphEnd s.chars.length s.stop_line_le_afterLine).line (Text.newline_notMem_firstLine s.chars)
  generalize paragraphEnd s.chars.length s.line.stop s.afterLine = e at h hsolid
  obtain ⟨last, ending, rest⟩ := e
  have htill : (s.trimStart.till last).Within s := (Stretch.within_take _ _).trans (s.within_drop _)
  have hcontent : Text.Solid (s.trimStart.till last).chars :=
    (hsolid.within (s.till_prefix last).isInfix).within (s.within_trimStart_till last)
  cases ending with
  | underline depth line =>
    obtain ⟨children, hchildren, h⟩ := bind_eq_ok.1 h
    cases h
    exact stems_node trivial (stems_content hi.content htill hcontent hchildren)
  | other =>
    obtain ⟨children, hchildren, h⟩ := bind_eq_ok.1 h
    cases h
    have htrim := (s.trimStart.till last).within_trim
    exact stems_node trivial (stems_content hi.content (htrim.trans htill) (hcontent.within htrim) hchildren)

theorem quote_stems {r : Result} (h : quote scope inner s = .ok r) : r.1.Stems s.chars := by
  unfold quote at h
  have hexcerpt := (takes_quoteLines s.chars.length true s).excerpt
  generalize quoteLines s.chars.length true s = lines at h hexcerpt
  obtain ⟨parts, rest⟩ := lines
  obtain ⟨children, hchildren, h⟩ := bind_eq_ok.1 h
  cases h
  exact stems_node trivial fun n hn => (hi.parts _ _ hchildren n hn).trans hexcerpt

theorem ReadsItems.stems {base last last' next : Nat} (h : ReadsItems scope inner base last s children last' next) :
    ∀ c ∈ children, c.Stems s.chars := by
  have hitem {s rest : Stretch} {width stop first : Nat} {parts : List Stretch} {children : List Node}
      (h : ReadsItem inner base s width parts stop rest children) : (scope.node .listItem first stop children).Stems s.chars :=
    stems_node trivial fun n hn => (hi.parts _ _ h.blocks n hn).trans h.takes.excerpt
  induction h with
  | none => exact List.forall_mem_nil _
  | last h _ => exact List.forall_mem_singleton.2 (hitem h)
  | @next _ _ _ _ _ s rest _ _ _ h _ _ ih =>
    have hwithin : (resume rest).Within s := (resume_within rest).trans h.takes.rest_within
    exact List.forall_mem_cons.2 ⟨hitem h, fun c hc => (ih c hc).trans (Text.excerpt_of_infix hwithin)⟩

theorem list_stems {r : Result} (h : list scope inner s = .ok r) : r.1.Stems s.chars := by
  obtain ⟨ordered, nodes, last, hitems, hnode⟩ := exists_items_of_list h
  rw [hnode]
  exact stems_node trivial (hitems.stems hi)

/-- Every block stems from the stretch that it is read from. -/
theorem next_stems {r : Result} (h : next scope inner top s = .ok r) : r.1.Stems s.chars := by
  have hfirst {n : Node} (hn : n.Stems s.trimStart.chars) : n.Stems s.chars := hn.trans (Text.excerpt_of_infix (s.within_drop _))
  have hdispatch := dispatch scope inner top s
  rw [h] at hdispatch
  generalize hr : (Except.ok r : Except Fault Result) = x at hdispatch
  cases hdispatch with
  | modules =>
    cases hr
    exact modules_stems scope s
  | fence mark length =>
    cases hr
    exact fence_stems scope s mark length
  | comment r _ hr' =>
    cases hr
    exact comment?_stems hr'
  | expression r _ hr' =>
    cases hr
    exact hfirst (expression?_stems hr')
  | component r _ hr' =>
    cases hr
    exact hfirst (component?_stems hi hr')
  | componentFault => cases hr
  | heading => exact heading_stems hi hr.symm
  | rawLine =>
    cases hr
    exact stems_node trivial (List.forall_mem_nil _)
  | table => exact table_stems hi hr.symm
  | quote => exact quote_stems hi hr.symm
  | list => exact list_stems hi hr.symm
  | paragraph => exact paragraph_stems hi hr.symm

theorem sequence_stems {fuel : Nat} (h : sequence scope inner top fuel s = .ok children) : ∀ n ∈ children, n.Stems s.chars := by
  induction fuel generalizing s children with
  | zero => cases h
  | succ fuel ih =>
    unfold sequence at h
    split at h
    · cases h
      exact List.forall_mem_nil _
    · have hrest {ns : List Node} {k : Nat} (h : sequence scope inner top fuel (s.drop k) = .ok ns) : ∀ n ∈ ns, n.Stems s.chars :=
        fun n hn => (ih h n hn).trans (Text.excerpt_of_infix (s.within_drop _))
      split at h
      · exact hrest h
      · obtain ⟨⟨node, stop⟩, hnext, h⟩ := bind_eq_ok.1 h
        obtain ⟨ns, hns, h⟩ := bind_eq_ok.1 h
        cases h
        exact List.forall_mem_cons.2 ⟨next_stems hi hnext, hrest hns⟩

end Containers

/-! ## All blocks -/

theorem stems_outerKind {joined : Scope} (n : Nat) {k : Kind} (h : k.Stems t) : (times (outerKind joined parts) n k).Stems t := by
  induction n generalizing k with
  | zero => exact h
  | succ n ih =>
    refine ih ?_
    cases k <;> exact h

theorem place_stems (scope joined : Scope) (parts : List Stretch) {n : Node} (h : n.Stems t) : (place scope joined parts n).Stems t := by
  intro m hm
  rw [walk_place] at hm
  obtain ⟨⟨kind, children, position⟩, hm', rfl⟩ := List.mem_map.1 hm
  rw [place]
  exact stems_outerKind _ (h _ hm')

theorem readParts_stems {read : Scope → Stretch → Except Fault (List Node)} (hread : ∀ scope, StemsFrom (read scope)) (scope : Scope)
    (h : readParts read scope parts = .ok children) : ∀ n ∈ children, n.Stems (joinedText parts) := by
  unfold readParts at h
  split at h
  · cases h
    exact List.forall_mem_nil _
  · obtain ⟨ns, hns, h⟩ := bind_eq_ok.1 h
    cases h
    rw [placeAll_eq_map]
    exact List.forall_mem_map.2 fun n hn => place_stems _ _ _ (hread _ _ _ hns n hn)

/-- All blocks stem from the stretch that they are read from. -/
theorem readAll_stems (budget : Nat) (top : Bool) (scope : Scope) : StemsFrom (readAll budget top scope) := by
  induction budget using Nat.strongRecOn generalizing top scope with
  | _ budget ih =>
    intro s ns h
    unfold readAll at h
    split at h
    · next budget =>
      exact sequence_stems
        { content := Content.read_stems scope _
          blocks := ih _ (by omega) _ _
          parts := fun parts ns => readParts_stems (ih budget (by omega) false) scope } h
    · cases h

end Block
end Markup

namespace Tree
open Markup Fallible

variable {tree : Node}

theorem read_stems (h : read t = .ok tree) : tree.Stems t := by
  obtain ⟨nodes, hnodes, h⟩ := bind_eq_ok.1 h
  cases h
  refine Block.stems_node trivial ?_
  unfold blocks at hnodes
  split at hnodes
  · obtain ⟨rest, hrest, hnodes⟩ := bind_eq_ok.1 hnodes
    cases hnodes
    refine List.forall_mem_cons.2 ⟨Block.stems_node trivial (List.forall_mem_nil _), ?_⟩
    exact Block.stems_of_within (Block.readAll_stems _ _ _) (Stretch.within_drop ⟨0, t⟩ _) hrest
  · exact Block.readAll_stems _ _ _ _ _ hnodes

/-- The tree of a text stems from the text with line feeds for line ends. -/
theorem parse_stems (h : (parse t).outcome.1 = .ok tree) : tree.Stems (Text.crlfToLf t) := by
  unfold parse at h
  dsimp only at h
  split at h
  · next node hnode =>
    cases h
    exact read_stems hnode
  · cases h
    have htext : (Kind.text (Text.crlfToLf t)).Stems (Text.crlfToLf t) := fun ht => Markup.placeless_iff.2 ⟨ht.opening, ht.closing⟩
    exact Node.stems_mk.2 ⟨trivial, List.forall_mem_singleton.2 (Node.stems_mk.2 ⟨trivial,
      List.forall_mem_singleton.2 (Node.stems_mk.2 ⟨htext, List.forall_mem_nil _⟩)⟩)⟩
  · cases h

end Tree
end Narration
