import Narration.Proofs.Markup.Laid.Block
import Narration.Proofs.Markup.Placed

/-!
# Blocks within a stretch

* `Block.FromPieces`, `Block.Bounded` : blocks that end by an offset, as does what they hold;
* `Block.next_bounded`, `Block.next_le` : every block ends where reading goes on, within the stretch;
* `Block.outerStop_le` : the ends of places in pieces of lines.
-/

namespace Narration.Markup.Block
open Fallible
open Stretch (In)

variable {t : Text} {scope : Scope} {inner : Inner} {s : Stretch} {node : Node} {stop first last : Nat} {top : Bool}
  {kind : Kind} {children : List Node} {bound bound' : Nat}

/-- Every stretch stands in some text. -/
theorem exists_in (s : Stretch) : ∃ t, In t s :=
  ⟨List.replicate s.start ' ' ++ s.chars, by simp, by rw [List.drop_left' (by simp)]⟩

/-- Blocks that are read from pieces of lines one below the other, all of which end by an offset. -/
def FromPieces (t : Text) (inner : Inner) (bound : Nat) (ns : List Node) : Prop :=
  ∃ parts, Pieces t parts ∧ (∀ p ∈ parts, p.stop ≤ bound) ∧ inner.parts parts = .ok ns

/-- An item of a list that ends by an offset. -/
def IsItem (t : Text) (scope : Scope) (inner : Inner) (bound : Nat) (node : Node) : Prop :=
  ∃ first last children, node = scope.node .listItem first last children ∧ first ≤ bound ∧ last ≤ bound ∧
    FromPieces t inner bound children

/-- What a block of some kind holds ends by an offset. -/
def Contains (t : Text) (scope : Scope) (inner : Inner) (bound : Nat) : Kind → List Node → Prop
  | .quote, children => FromPieces t inner bound children
  | .list _, children => ∀ c ∈ children, IsItem t scope inner bound c
  | .listItem, _ => False
  | _, _ => True

/-- A block that ends by an offset, with what it holds. -/
def Bounded (t : Text) (scope : Scope) (inner : Inner) (bound : Nat) (node : Node) : Prop :=
  ∃ kind first last children, node = scope.node kind first last children ∧ first ≤ bound ∧ last ≤ bound ∧
    Contains t scope inner bound kind children

theorem bounded_node (hfirst : first ≤ bound) (hlast : last ≤ bound)
    (h : Contains t scope inner bound kind children := by trivial) : Bounded t scope inner bound (scope.node kind first last children) :=
  ⟨kind, first, last, children, rfl, hfirst, hlast, h⟩

/-! ## Blocks without blocks in them -/

theorem fence_bounded (hblank : s.lineBlank = false) (mark : Char) (length : Nat) (h : fence scope s mark length = (node, stop)) :
    Bounded t scope inner stop node := by
  obtain ⟨hfirst, hlt⟩ := Stretch.start_trimStart_lt hblank
  have hopening : s.line.trim.start ≤ s.afterLine.start :=
    (hfirst.trans_le (Nat.le_of_lt hlt)).trans s.stop_line_le_afterLine
  unfold fence at h
  dsimp only at h
  split at h
  · next closing hclosing =>
    cases h
    have hclosing := start_le_fenceEnd hclosing
    have hend := closing.stop_line_le_afterLine
    have hline : closing.start ≤ closing.line.stop := closing.line.start_le_stop
    exact bounded_node (by omega) hend
  · cases h
    have hend := s.afterLine.start_le_stop
    rw [Stretch.stop_afterLine] at hend
    exact bounded_node (hopening.trans hend) (Nat.le_refl _)

theorem component?_bounded (h : component? scope inner s = .ok (some (node, stop))) : Bounded t scope inner stop node := by
  obtain ⟨tag, htag, h⟩ := component?_eq_some.1 h
  have hlt := Tag.lt_stop_of_read? htag
  cases h with
  | stray | single => exact bounded_node (Nat.le_of_lt hlt) (Nat.le_refl _)
  | pair _ _ hfind _ _ =>
    have hextent := Closing.find?_extent hfind
    have hstart := s.start_le_since tag.stop
    exact bounded_node (by omega) (Nat.le_refl _)

theorem ReadsRows.le {n last last' next : Nat} {nodes : List Node} (h : ReadsRows scope inner n last s nodes last' next)
    (hlast : last ≤ s.start) : last' ≤ next ∧ next ≤ s.stop := by
  induction h with
  | none => exact ⟨hlast, Stretch.start_le_stop _⟩
  | @rule _ _ _ s _ _ _ ih | @row _ _ _ _ s _ _ _ _ _ _ ih =>
    rw [← s.stop_afterLine]
    exact ih s.stop_line_le_afterLine

theorem paragraph_bounded (hin : In t s) (hblank : s.lineBlank = false) (h : paragraph scope inner s = .ok (node, stop)) :
    Bounded t scope inner stop node := by
  have hspec := paragraphEnd_spec s.chars.length hin.afterLine s.stop_line_le_afterLine
  obtain ⟨-, hlt⟩ := Stretch.start_trimStart_lt hblank
  unfold paragraph at h
  generalize paragraphEnd s.chars.length s.line.stop s.afterLine = r at h hspec
  obtain ⟨last, ending, rest⟩ := r
  obtain ⟨hle, hrest, -, hunderline⟩ := hspec
  dsimp only at hle hrest hunderline
  cases ending with
  | underline depth line =>
    obtain ⟨children, -, h⟩ := bind_eq_ok.1 h
    cases h
    exact bounded_node (by omega) (hunderline depth line rfl).2
  | other =>
    obtain ⟨children, -, h⟩ := bind_eq_ok.1 h
    cases h
    have htill : (s.trimStart.till last).stop ≤ last := s.trimStart.stop_till_le (by omega)
    have hlast := (s.trimStart.till last).stop_trim_le.trans (htill.trans hrest)
    exact bounded_node ((s.trimStart.till last).trim.start_le_stop.trans hlast) hlast

/-! ## Quotes and lists -/

theorem quote_bounded (hin : In t s) (hfirst : s.trimStart.start ≤ stop) (h : quote scope inner s = .ok (node, stop)) :
    Bounded t scope inner stop node := by
  have hcollects := (takes_quoteLines s.chars.length true s).collects hin
  unfold quote at h
  generalize quoteLines s.chars.length true s = r at h hcollects
  obtain ⟨parts, rest⟩ := r
  obtain ⟨children, hchildren, h⟩ := bind_eq_ok.1 h
  cases h
  refine bounded_node hfirst ?_ ⟨parts, hcollects.pieces, hcollects.le, hchildren⟩
  cases hlast : parts.getLast? with
  | none => exact hcollects.le_rest
  | some q => exact hcollects.le q (List.mem_of_getLast? hlast)

theorem IsItem.mono (h : IsItem t scope inner bound node) (hle : bound ≤ bound') : IsItem t scope inner bound' node := by
  obtain ⟨first, last, children, rfl, hfirst, hlast, parts, hpieces, hparts, hchildren⟩ := h
  exact ⟨first, last, children, rfl, hfirst.trans hle, hlast.trans hle, parts, hpieces, fun p hp => (hparts p hp).trans hle, hchildren⟩

theorem ReadsItem.bounded {base width : Nat} {parts : List Stretch} {rest : Stretch}
    (h : ReadsItem inner base s width parts stop rest children) (hin : In t s) : stop ≤ rest.start ∧
      IsItem t scope inner rest.start (scope.node .listItem (s.start + Text.indent s.line.chars) stop children) := by
  have hcollects := h.takes.collects hin
  obtain ⟨q, hq, rfl⟩ := h.exists_last
  have hstop := hcollects.le q (List.mem_of_getLast? hq)
  have hline := s.stop_line_le_afterLine.trans h.below.start_le
  have hfirst : s.start + Text.indent s.line.chars ≤ s.line.stop := Nat.add_le_add_left (indent_le _) s.start
  exact ⟨hstop, _, q.stop, children, rfl, hfirst.trans hline, hstop, _, hcollects.pieces, hcollects.le, h.blocks⟩

theorem ReadsItems.bounded {base last last' next : Nat} {nodes : List Node}
    (h : ReadsItems scope inner base last s nodes last' next) (hin : In t s) (hlast : last ≤ s.start) :
    last' ≤ next ∧ next ≤ s.stop ∧ ∀ c ∈ nodes, IsItem t scope inner next c := by
  induction h with
  | none => exact ⟨hlast, Stretch.start_le_stop _, nofun⟩
  | last h _ =>
    obtain ⟨hstop, hitem⟩ := h.bounded hin
    exact ⟨hstop, h.takes.stop_eq ▸ Stretch.start_le_stop _, List.forall_mem_singleton.2 hitem⟩
  | next h _ hitems ih =>
    obtain ⟨hstop, hitem⟩ := h.bounded hin
    obtain ⟨hin', hstart, hend⟩ := in_resume (h.takes.collects hin).within
    obtain ⟨hle, hnext, hnodes⟩ := ih hin' (hstop.trans hstart)
    exact ⟨hle, hnext.trans (hend.trans h.takes.stop_eq).le,
      List.forall_mem_cons.2 ⟨hitem.mono (hstart.trans hitems.start_le.1), hnodes⟩⟩

theorem list_bounded (hin : In t s) (hfirst : Text.indent s.line.chars + s.start ≤ stop)
    (h : list scope inner s = .ok (node, stop)) : Bounded t scope inner stop node := by
  obtain ⟨ordered, nodes, last, hitems, rfl⟩ := exists_items_of_list h
  obtain ⟨hlast, -, hnodes⟩ := hitems.bounded hin (Nat.le_refl _)
  refine bounded_node ?_ hlast hnodes
  split
  · omega
  · omega

/-! ## Every block -/

/-- Every block ends where reading goes on. -/
theorem next_bounded (hin : In t s) (hs : s.chars ≠ []) (hblank : s.lineBlank = false) (hstranded : ¬Stranded s.line.chars)
    (h : next scope inner top s = .ok (node, stop)) : Bounded t scope inner stop node := by
  obtain ⟨hline, hlt⟩ := Stretch.start_trimStart_lt hblank
  have hafter : s.line.stop ≤ s.afterLine.start := s.stop_line_le_afterLine
  have hdispatch := dispatch scope inner top s
  rw [h] at hdispatch
  generalize hr : (Except.ok (node, stop) : Except Fault Result) = r at hdispatch
  cases hdispatch with
  | modules =>
    cases hr
    exact bounded_node (s.take _).start_le_stop (Nat.le_refl _)
  | fence mark length => exact fence_bounded hblank mark length (Except.ok.inj hr).symm
  | comment r _ hr' =>
    cases hr
    have hpast := start_lt_comment hr'
    obtain ⟨n, -, hn⟩ := Option.bind_eq_some_iff.1 hr'
    cases hn
    exact bounded_node (Nat.le_of_lt hpast) (Nat.le_refl _)
  | expression r _ hr' =>
    cases hr
    have hpast := start_lt_expression hr'
    obtain ⟨⟨source, length⟩, -, hn⟩ := Option.bind_eq_some_iff.1 hr'
    dsimp only at hn
    split at hn
    · cases hn
      exact bounded_node (Nat.le_of_lt hpast) (Nat.le_refl _)
    · cases hn
  | component r _ hr' =>
    cases hr
    exact component?_bounded hr'
  | componentFault => cases hr
  | heading =>
    have hend : s.line.trimStart.stop = s.line.stop := s.line.stop_drop _
    obtain ⟨children, -, rfl, rfl⟩ := exists_of_heading hr.symm
    exact bounded_node (by omega) (by omega)
  | rawLine =>
    cases hr
    exact bounded_node (by omega) hafter
  | table =>
    have hstop := start_afterLine_le_table hblank hr.symm
    obtain ⟨nodes, last, hrows, rfl⟩ := exists_rows_of_table hr.symm
    exact bounded_node (by omega) (hrows.le (Nat.le_refl _)).1
  | quote hmark =>
    have hstop := start_afterLine_le_quote hs hmark hr.symm
    exact quote_bounded hin (by omega) hr.symm
  | list hnear hmarker =>
    rw [bareLine, Stretch.chars_trim] at hmarker
    have hstop := start_afterLine_le_list ((marker?_isSome_or_stranded hnear hmarker).resolve_right hstranded) hr.symm
    have hindent : s.start + Text.indent s.line.chars ≤ s.line.stop := Nat.add_le_add_left (indent_le _) s.start
    exact list_bounded hin (by omega) hr.symm
  | paragraph => exact paragraph_bounded hin hblank hr.symm

/-- Reading goes on within the stretch. -/
theorem next_le (h : next scope inner top s = .ok (node, stop)) : stop ≤ s.stop := by
  obtain ⟨t, hin⟩ := exists_in s
  have htrim : s.trimStart.stop = s.stop := s.stop_drop _
  have hafter : s.afterLine.start ≤ s.stop := s.afterLine.start_le_stop.trans s.stop_afterLine.le
  have hdispatch := dispatch scope inner top s
  rw [h] at hdispatch
  generalize hr : (Except.ok (node, stop) : Except Fault Result) = r at hdispatch
  cases hdispatch with
  | modules =>
    cases hr
    exact s.stop_take_le _
  | fence mark length =>
    have hr := (Except.ok.inj hr).symm
    unfold fence at hr
    dsimp only at hr
    split at hr
    · next closing hclosing =>
      cases hr
      have hend := (fenceEnd?_spec hin.afterLine hclosing).2
      exact (closing.afterLine.start_le_stop.trans closing.stop_afterLine.le).trans (hend.trans s.stop_afterLine).le
    · cases hr
      exact Nat.le_refl _
  | comment r _ hr' =>
    cases hr
    obtain ⟨n, -, hn⟩ := Option.bind_eq_some_iff.1 hr'
    cases hn
    exact (s.trimStart.stop_take_le _).trans htrim.le
  | expression r _ hr' =>
    cases hr
    obtain ⟨⟨source, length⟩, -, hn⟩ := Option.bind_eq_some_iff.1 hr'
    dsimp only at hn
    split at hn
    · cases hn
      exact (Stretch.start_le_stop _).trans ((s.trimStart.stop_drop length).trans htrim).le
    · cases hn
  | component r _ hr' =>
    cases hr
    obtain ⟨tag, htag, hr'⟩ := component?_eq_some.1 hr'
    cases hr' with
    | stray | single => exact (Tag.read?_span hin.trimStart htag).stop_le.trans htrim.le
    | pair _ _ hfind _ _ =>
      have hlast : stop ≤ (s.trimStart.since tag.stop).stop := (Closing.find?_span (hin.trimStart.since tag.stop) hfind).1
      rwa [Stretch.since, Stretch.stop_drop, htrim] at hlast
  | componentFault => cases hr
  | heading =>
    obtain ⟨children, -, -, rfl⟩ := exists_of_heading hr.symm
    exact hafter
  | rawLine =>
    cases hr
    exact hafter
  | table =>
    obtain ⟨nodes, last, hrows, -⟩ := exists_rows_of_table hr.symm
    exact (hrows.le (Nat.le_refl _)).2
  | quote =>
    obtain ⟨children, -, hr⟩ := bind_eq_ok.1 hr.symm
    cases hr
    exact (Stretch.start_le_stop _).trans (takes_quoteLines s.chars.length true s).stop_eq.le
  | list =>
    obtain ⟨ordered, nodes, last, hitems, -⟩ := exists_items_of_list hr.symm
    exact (hitems.bounded hin (Nat.le_refl _)).2.1
  | paragraph =>
    rw [stop_paragraph hr.symm, ← s.stop_afterLine]
    exact (paragraphEnd_spec s.chars.length hin.afterLine s.stop_line_le_afterLine).2.2.1

/-! ## Places in pieces of lines -/

variable {parts : List Stretch} {references : List Reference} {o : Nat}

/-- The end of a place in pieces of lines lies within them. -/
theorem outerStop_le (hpieces : Pieces t parts) (hne : parts ≠ []) (hparts : ∀ p ∈ parts, p.stop ≤ s.stop)
    (ho : o ≤ (joinedText parts).length) : outerStop (Scope.ofText (joinedText parts) references) parts o ≤ s.stop := by
  have hwithin {i : Nat} (hi : i ≤ (joinedText parts).length) :
      outerOffset (Scope.ofText (joinedText parts) references) parts i ≤ s.stop :=
    outerOffset_le hne (fun p hp => ⟨hpieces.line p hp, hparts p hp⟩) hi
  unfold outerStop
  split
  · exact hwithin (Nat.zero_le _)
  · have hlt : o - 1 < o := by omega
    exact Nat.le_trans ((hpieces.moves hne references).lt hlt ho) (hwithin ho)

end Narration.Markup.Block
