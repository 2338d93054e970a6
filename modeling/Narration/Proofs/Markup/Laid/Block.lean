import Narration.Proofs.Markup.Ends
import Narration.Proofs.Markup.Inline.Lifted
import Narration.Proofs.Markup.Laid.Lines
import Narration.Proofs.Markup.Sequence

/-!
# Blocks are laid in order

* `Block.Inner.Lays` : readers of the insides of containers whose nodes are laid;
* `Block.Stands` : a block that is laid between the front of a stretch and the place where reading goes on;
* `Block.next_stands` : every block stands so;
* `Block.sequence_lays`, `Block.readAll_lays` : the blocks of a stretch are laid one after the other.
-/

namespace Narration.Markup.Block
open Fallible
open Stretch (In)

/-- The nodes read from the insides of containers are laid where these stand. -/
structure Inner.Lays (t : Text) (inner : Inner) : Prop where
  content : Markup.Lays t inner.content
  blocks : Markup.Lays t inner.blocks
  parts : ∀ parts p q ns, Pieces t parts → parts.head? = some p → parts.getLast? = some q → inner.parts parts = .ok ns →
    Laid t p.start q.stop ns

/-- A block that is laid between the front of a stretch and the place where reading goes on. -/
structure Stands (t : Text) (s : Stretch) (node : Node) (stop : Nat) : Prop where
  laid : Laid t s.start stop [node]
  le : stop ≤ s.stop

variable {t : Text} {references : List Reference} {inner : Inner} {s : Stretch} {node : Node} {stop first last : Nat}
  {kind : Kind} {children : List Node}

/-- A node that covers part of a stretch. -/
theorem stands_node (hin : In t s) (hchildren : Laid t first last children) (hcovers : kind.Covers t first last)
    (hfirst : s.start ≤ first) (hlt : first < last) (hlast : last ≤ stop) (hstop : stop ≤ s.stop) :
    Stands t s ((Scope.ofText t references).node kind first last children) stop :=
  ⟨(hchildren.node hcovers hlt (Nat.le_trans hlast (Nat.le_trans hstop hin.stop_le))).mono hfirst hlast, hstop⟩

theorem Stands.of_trimStart (h : Stands t s.trimStart node stop) : Stands t s node stop :=
  ⟨h.laid.mono s.start_le_trimStart (Nat.le_refl _), h.le.trans (Nat.le_of_eq (s.stop_drop _))⟩

/-! ## Blocks without content -/

theorem modules_stands (hin : In t s) (h : LineForm.isModules s.line.chars) (hr : modules (Scope.ofText t references) s = (node, stop)) :
    Stands t s node stop := by
  have hlt := start_lt_modules (Scope.ofText t references) h
  rw [hr] at hlt
  cases hr
  exact stands_node hin .nil trivial (Nat.le_refl _) hlt (Nat.le_refl _) (s.stop_take_le _)

theorem fenceEnd?_spec {mark : Char} {length fuel : Nat} {closing : Stretch} (hin : In t s)
    (h : fenceEnd? mark length fuel s = some closing) : In t closing ∧ closing.stop = s.stop := by
  induction fuel generalizing s with
  | zero => cases h
  | succ fuel ih =>
    unfold fenceEnd? at h
    split at h
    · cases h
    · split at h
      · cases h
        exact ⟨hin, rfl⟩
      · obtain ⟨hclosing, hstop⟩ := ih hin.afterLine h
        exact ⟨hclosing, hstop.trans s.stop_afterLine⟩

theorem fence_stands (hin : In t s) (hblank : s.lineBlank = false) (mark : Char) (length : Nat)
    (hr : fence (Scope.ofText t references) s mark length = (node, stop)) : Stands t s node stop := by
  obtain ⟨hstart, hlt⟩ := Stretch.start_trimStart_lt hblank
  have hopening : s.line.trim.start = s.trimStart.start := hstart
  have hfirst := s.start_le_trimStart
  have hline := s.stop_line_le
  unfold fence at hr
  dsimp only at hr
  split at hr
  · next closing hclosing =>
    cases hr
    obtain ⟨-, hstop⟩ := fenceEnd?_spec hin.afterLine hclosing
    have hle := start_le_fenceEnd hclosing
    have hafter := s.stop_line_le_afterLine
    have hclosingStop := closing.line.start_le_stop
    have hnext := closing.stop_line_le_afterLine
    have hend := closing.afterLine.start_le_stop
    rw [Stretch.stop_afterLine, hstop, Stretch.stop_afterLine] at hend
    rw [hopening]
    exact stands_node hin .nil trivial hfirst (by rw [Stretch.start_line] at hclosingStop; omega) hnext hend
  · cases hr
    rw [hopening]
    exact stands_node hin .nil trivial hfirst (Nat.lt_of_lt_of_le hlt hline) (Nat.le_refl _) (Nat.le_refl _)

theorem comment?_stands (hin : In t s) (h : comment? (Scope.ofText t references) s = some (node, stop)) :
    Stands t s node stop := by
  have hlt := start_lt_comment h
  obtain ⟨n, -, hn⟩ := Option.bind_eq_some_iff.1 h
  cases hn
  exact stands_node hin .nil trivial (Nat.le_refl _) hlt (Nat.le_refl _) (s.stop_take_le _)

/-- The character at the front of a line stands at the front of the stretch. -/
theorem head?_trimStart {c : Char} (hblank : s.lineBlank = false) (h : (bareLine s).head? = some c) :
    ∃ u, s.trimStart.chars = c :: u := by
  obtain ⟨o, chars⟩ := s
  obtain ⟨v, hv, -⟩ := Text.exists_afterFirstLine chars
  have hhead : (Text.trimStart (Text.firstLine chars)).head? = some c := by
    rw [bareLine, Stretch.chars_trim] at h
    exact Text.head?_of_trimEnd h
  obtain ⟨u, hu⟩ := List.head?_eq_some_iff.1 hhead
  refine ⟨u ++ v, ?_⟩
  rw [Stretch.chars_trimStart]
  have hfirst : Text.allBlank (Text.firstLine chars) = false := hblank
  change Text.trimStart chars = _
  rw [hv, Text.trimStart_append_of_not_allBlank hfirst, hu]
  rfl

theorem expression?_stands (hin : In t s) {u : Text} (hs : s.chars = '\x7b' :: u)
    (h : expression? (Scope.ofText t references) s = some (node, stop)) : Stands t s node stop := by
  obtain ⟨o, chars⟩ := s
  obtain rfl := hs
  obtain ⟨⟨source, length⟩, hbraced, h⟩ := Option.bind_eq_some_iff.1 h
  obtain ⟨hwraps, hle⟩ := Tag.braced?_wraps hin hbraced
  dsimp only at h
  split at h
  · cases h
    have hstop : o + min length ('\x7b' :: u).length = o + length := congrArg (o + ·) (Nat.min_eq_left hle)
    rw [Stretch.start_drop, hstop]
    have hlt := hwraps.lt
    exact stands_node hin .nil hwraps (Nat.le_refl _) (by omega) (Nat.le_refl _) (Nat.add_le_add_left hle o)
  · cases h

theorem rawLine_stands (hin : In t s) (hblank : s.lineBlank = false) (source : Text) :
    Stands t s ((Scope.ofText t references).node (.raw source) s.trimStart.start s.line.stop) s.afterLine.start := by
  obtain ⟨-, hlt⟩ := Stretch.start_trimStart_lt hblank
  have hend := s.afterLine.start_le_stop
  rw [Stretch.stop_afterLine] at hend
  exact stands_node hin .nil trivial s.start_le_trimStart hlt s.stop_line_le_afterLine hend

/-! ## Blocks with content -/

section Inner
variable (hinner : inner.Lays t)
include hinner

theorem component?_stands (hin : In t s) (h : component? (Scope.ofText t references) inner s = .ok (some (node, stop))) :
    Stands t s node stop := by
  obtain ⟨tag, htag, h⟩ := component?_eq_some.1 h
  have hspans : Tag.Spans t s.start s.chars.length tag := Tag.read?_span hin htag
  have halone {kind : Kind} (hcovers : kind.Covers t tag.start tag.stop) :
      Stands t s ((Scope.ofText t references).node kind s.start tag.stop) tag.stop := by
    have hlt := hspans.lt
    rw [hspans.start] at hcovers hlt
    exact stands_node hin .nil hcovers (Nat.le_refl _) (by omega) (Nat.le_refl _) hspans.stop_le
  cases h with
  | stray => exact halone trivial
  | single => exact halone ⟨hspans.head, hspans.last, hspans.attributes⟩
  | @pair first last children _ _ hfind _ hchildren =>
    have hinside : In t ((s.since tag.stop).till first) := (hin.since tag.stop).till first
    have hbetween : Laid t ((s.since tag.stop).till first).start ((s.since tag.stop).till first).stop children := by
      unfold Inner.between at hchildren
      split at hchildren
      · exact hinner.blocks _ children hinside hchildren
      · exact hinner.content _ children hinside hchildren
    obtain ⟨hlaid, hstop⟩ := Content.component_laid references hin hspans hfind hbetween
    rw [hspans.start] at hlaid
    exact ⟨hlaid, hstop⟩

theorem heading_stands (hin : In t s) (hblank : s.lineBlank = false) {depth place length : Nat}
    (h : heading (Scope.ofText t references) inner s depth place length = .ok (node, stop)) : Stands t s node stop := by
  obtain ⟨hstart, hlt⟩ := Stretch.start_trimStart_lt hblank
  have hline : s.line.trimStart.stop = s.line.stop := s.line.stop_drop _
  have hend := s.afterLine.start_le_stop
  rw [Stretch.stop_afterLine] at hend
  have hresult {children : List Node} (hchildren : Laid t s.line.trimStart.start s.line.trimStart.stop children) :
      Stands t s ((Scope.ofText t references).node (.heading depth) s.line.trimStart.start s.line.trimStart.stop children)
        s.afterLine.start :=
    stands_node hin hchildren trivial s.line.start_le_trimStart (by rw [hline, hstart]; exact hlt)
      (by rw [hline]; exact s.stop_line_le_afterLine) hend
  obtain ⟨children, rfl | hchildren, rfl, rfl⟩ := exists_of_heading h
  · exact hresult .nil
  · have hlaid := hinner.content _ children ((hin.line.trimStart.drop place).take length) hchildren
    refine hresult (hlaid.mono (Stretch.start_le_drop _ _) ?_)
    have hstop := Stretch.stop_drop s.line.trimStart place
    rw [← hstop]
    exact Stretch.stop_take_le _ length

/-! ### Tables -/

omit hinner in
theorem cells_spec (before : Char) {o : Nat} (cell u : Text) (hcell : cell.length ≤ o)
    (hin : In t ⟨o - cell.length, cell.reverse ++ u⟩) :
    (∀ p ∈ cells before o cell u, In t p ∧ o - cell.length ≤ p.start ∧ p.stop ≤ o + u.length) ∧
      (cells before o cell u).Pairwise fun p q => p.stop ≤ q.start := by
  induction u generalizing before o cell with
  | nil =>
    rw [cells]
    refine ⟨fun p hp => ?_, List.pairwise_singleton _ _⟩
    rw [List.mem_singleton.1 hp]
    rw [List.append_nil] at hin
    refine ⟨hin, Nat.le_refl _, ?_⟩
    rw [Stretch.stop, List.length_reverse]
    dsimp only [List.length_nil]
    omega
  | cons c u ih =>
    rw [cells]
    split
    · have hnext : In t ⟨o + 1, u⟩ := by
        rw [show c :: u = [c] ++ u from rfl, ← List.append_assoc] at hin
        have hright := hin.append_right
        rw [List.length_append, List.length_reverse, List.length_singleton] at hright
        rwa [show o - cell.length + (cell.length + 1) = o + 1 by omega] at hright
      obtain ⟨hcells, hordered⟩ := ih c [] (Nat.zero_le (o + 1)) hnext
      have hstop : (⟨o - cell.length, cell.reverse⟩ : Stretch).stop = o := by
        rw [Stretch.stop, List.length_reverse]
        exact Nat.sub_add_cancel hcell
      refine ⟨List.forall_mem_cons.2 ⟨⟨hin.append_left, Nat.le_refl _, ?_⟩, fun p hp => ?_⟩,
        List.pairwise_cons.2 ⟨fun p hp => ?_, hordered⟩⟩
      · rw [hstop]
        exact Nat.le_add_right _ _
      · obtain ⟨hp, hstart, hend⟩ := hcells p hp
        rw [List.length_nil, Nat.sub_zero] at hstart
        rw [List.length_cons]
        exact ⟨hp, by omega, by omega⟩
      · obtain ⟨-, hstart, -⟩ := hcells p hp
        rw [List.length_nil, Nat.sub_zero] at hstart
        rw [hstop]
        omega
    · have hnext : In t ⟨o + 1 - (c :: cell).length, (c :: cell).reverse ++ u⟩ := by
        rw [List.reverse_cons, List.append_assoc, List.length_cons, Nat.add_sub_add_right]
        exact hin
      obtain ⟨hcells, hordered⟩ := ih c (c :: cell) (show (c :: cell).length ≤ o + 1 from Nat.succ_le_succ hcell) hnext
      rw [List.length_cons, Nat.add_sub_add_right] at hcells
      rw [List.length_cons]
      exact ⟨fun p hp => by obtain ⟨hp, hstart, hend⟩ := hcells p hp; exact ⟨hp, hstart, by omega⟩, hordered⟩

omit hinner in
/-- What is read from stretches one after the other is laid so. -/
theorem laid_mapM {f : Stretch → Except Fault Node} {ps : List Stretch} {ns : List Node} {lo hi : Nat}
    (hps : ∀ p ∈ ps, lo ≤ p.start ∧ p.stop ≤ hi ∧ ∀ n, f p = .ok n → Laid t p.start p.stop [n])
    (hordered : ps.Pairwise fun p q => p.stop ≤ q.start) (h : ps.mapM f = .ok ns) : Laid t lo hi ns := by
  induction ps generalizing ns lo with
  | nil =>
    cases h
    exact .nil
  | cons p ps ih =>
    rw [List.mapM_cons] at h
    obtain ⟨n, hn, h⟩ := bind_eq_ok.1 h
    obtain ⟨ms, hms, h⟩ := bind_eq_ok.1 h
    cases h
    obtain ⟨⟨hlo, hhi, hlaid⟩, hps⟩ := List.forall_mem_cons.1 hps
    obtain ⟨hp, hordered⟩ := List.pairwise_cons.1 hordered
    have hrest := ih (fun q hq => ⟨hp q hq, (hps q hq).2⟩) hordered hms
    have hle := p.start_le_stop
    exact ((hlaid n hn).mono hlo (Nat.le_refl _)).cons hrest (by omega) hhi

omit hinner in
/-- What stands between the bars at the ends of a row. -/
theorem beforeBar_afterBar (hin : In t s) : In t (beforeBar (afterBar s).2) ∧ s.start ≤ (beforeBar (afterBar s).2).start ∧
    (beforeBar (afterBar s).2).stop ≤ s.stop := by
  obtain ⟨n, hn⟩ : ∃ n, (afterBar s).2 = s.drop n := by
    unfold afterBar
    split
    · exact ⟨1, rfl⟩
    · exact ⟨0, s.drop_zero.symm⟩
  rw [hn, ← s.stop_drop n]
  unfold beforeBar
  split
  · exact ⟨(hin.drop n).take _, s.start_le_drop n, Stretch.stop_take_le _ _⟩
  · exact ⟨hin.drop n, s.start_le_drop n, Nat.le_refl _⟩

theorem row_laid (hin : In t s) (hblank : s.lineBlank = false)
    (h : row (Scope.ofText t references) inner s.line = .ok node) : Laid t s.trimStart.start s.line.stop [node] := by
  obtain ⟨hstart, hlt⟩ := Stretch.start_trimStart_lt hblank
  have hstop : s.line.trim.stop ≤ s.line.stop := s.line.stop_trim_le
  have hbare : s.line.trim.start = s.trimStart.start := hstart
  obtain ⟨hinside, hlo, hhi⟩ := beforeBar_afterBar hin.line.trim
  rw [row_eq] at h
  dsimp only at h
  generalize beforeBar (afterBar s.line.trim).2 = u at h hinside hlo hhi
  obtain ⟨nodes, hnodes, h⟩ := bind_eq_ok.1 h
  cases h
  obtain ⟨hcells, hordered⟩ := cells_spec (afterBar s.line.trim).1 [] u.chars (Nat.zero_le _) hinside
  have hlaid : Laid t s.line.trim.start s.line.stop nodes := by
    refine laid_mapM (fun p hp => ?_) hordered hnodes
    obtain ⟨hp, hfirst, hlast⟩ := hcells p hp
    refine ⟨Nat.le_trans hlo hfirst, Nat.le_trans hlast (Nat.le_trans hhi hstop), fun n hn => ?_⟩
    split at hn
    · cases hn
      exact .free rfl .nil
    · obtain ⟨children, hchildren, hn⟩ := bind_eq_ok.1 hn
      cases hn
      exact .free rfl ((hinner.content _ children hp.trim hchildren).mono p.start_le_trimStart p.stop_trim_le)
  rw [hbare] at hlaid ⊢
  exact hlaid.node trivial hlt hin.line.stop_le

omit hinner in
/-- A row of a table, and those after it. -/
theorem laid_rows {own nodes : List Node} {last : Nat} (hblank : s.lineBlank = false)
    (hown : Laid t s.trimStart.start s.line.stop own) (hrest : Laid t s.afterLine.trimStart.start last nodes)
    (hlast : s.line.stop ≤ last) : Laid t s.trimStart.start last (own ++ nodes) := by
  obtain ⟨-, hlt⟩ := Stretch.start_trimStart_lt hblank
  have hbelow := hrest.mono (s.stop_line_le_afterLine.trans s.afterLine.start_le_trimStart) (Nat.le_refl _)
  exact hown.append hbelow (Nat.le_of_lt hlt) hlast

/-- The rows of a table stand one after the other. -/
theorem ReadsRows.laid {n last last' next : Nat} {nodes : List Node}
    (h : ReadsRows (Scope.ofText t references) inner n last s nodes last' next) (hin : In t s) (hlast : last ≤ s.start) :
    Laid t s.trimStart.start last' nodes ∧ last ≤ last' ∧ last' ≤ next ∧ next ≤ s.stop ∧
      (endsTable n s = false → s.line.stop ≤ last') := by
  have hblank {n : Nat} {s : Stretch} (hgoes : endsTable n s = false) : s.lineBlank = false := (Bool.or_eq_false_iff.1 hgoes).1
  induction h with
  | none hends =>
    refine ⟨.nil, Nat.le_refl _, hlast, Stretch.start_le_stop _, fun hgoes => ?_⟩
    rw [hends] at hgoes
    cases hgoes
  | @rule _ _ _ s _ hgoes _ ih =>
    have hline : s.start ≤ s.line.stop := s.line.start_le_stop
    obtain ⟨hrest, hle, hnext, hstop, -⟩ := ih hin.afterLine s.stop_line_le_afterLine
    exact ⟨laid_rows (hblank hgoes) .nil hrest hle, by omega, hnext, hstop.trans s.stop_afterLine.le, fun _ => hle⟩
  | @row _ _ _ _ s _ _ _ hgoes hrow _ ih =>
    have hline : s.start ≤ s.line.stop := s.line.start_le_stop
    have hrow := row_laid hinner hin (hblank hgoes) hrow
    obtain ⟨hrest, hle, hnext, hstop, -⟩ := ih hin.afterLine s.stop_line_le_afterLine
    exact ⟨laid_rows (hblank hgoes) hrow hrest hle, by omega, hnext, hstop.trans s.stop_afterLine.le, fun _ => hle⟩

theorem table_stands (hin : In t s) (hblank : s.lineBlank = false)
    (h : table (Scope.ofText t references) inner s = .ok (node, stop)) : Stands t s node stop := by
  obtain ⟨nodes, last, hrows, rfl⟩ := exists_rows_of_table h
  obtain ⟨hlaid, -, hnext, hstop, hline⟩ := hrows.laid hinner hin (Nat.le_refl _)
  obtain ⟨-, hlt⟩ := Stretch.start_trimStart_lt hblank
  have hgoes : endsTable 0 s = false := by rw [endsTable, hblank]; rfl
  exact stands_node hin hlaid trivial s.start_le_trimStart (hlt.trans_le (hline hgoes)) hnext hstop

/-! ### Quotes and lists -/

omit hinner in
/-- The first line of a quote, without its mark. -/
theorem exists_quoteLines (hs : s.chars ≠ []) (hmark : (bareLine s).head? = some '>') :
    ∃ n parts, (quoteLines s.chars.length true s).1 = s.line.trimStart.drop n :: parts := by
  obtain ⟨n, hn⟩ := Nat.exists_eq_succ_of_ne_zero (List.length_pos_iff.2 hs).ne'
  obtain ⟨u, hbare⟩ : ∃ u, s.line.trimStart.chars = '>' :: u := List.head?_eq_some_iff.1 (Text.head?_of_trimEnd hmark)
  have hstripped : s.line.trimStart.trim.chars ≠ [] := by
    rw [Stretch.trim_trimStart]
    exact fun hnil => by simp [bareLine, hnil] at hmark
  rw [hn]
  unfold quoteLines
  dsimp only
  rw [if_neg (by simpa using ⟨hs, hstripped⟩)]
  split
  · next hnone =>
    split at hnone
    · cases hnone
    · cases hnone
    · next _ hno => exact absurd hbare (hno u)
  · next part hpart =>
    split at hpart
    · cases hpart
      exact ⟨2, _, rfl⟩
    · cases hpart
      exact ⟨1, _, rfl⟩
    · next _ hno => exact absurd hbare (hno u)

theorem quote_stands (hin : In t s) (hs : s.chars ≠ []) (hblank : s.lineBlank = false)
    (hmark : (bareLine s).head? = some '>') (h : quote (Scope.ofText t references) inner s = .ok (node, stop)) :
    Stands t s node stop := by
  have hcollects := (takes_quoteLines s.chars.length true s).collects hin
  obtain ⟨n, parts, hparts⟩ := exists_quoteLines hs hmark
  obtain ⟨hstart, hlt⟩ := Stretch.start_trimStart_lt hblank
  unfold quote at h
  generalize quoteLines s.chars.length true s = r at h hcollects hparts
  obtain ⟨ps, rest⟩ := r
  obtain rfl := hparts
  obtain ⟨children, hchildren, h⟩ := bind_eq_ok.1 h
  cases h
  obtain ⟨q, hq⟩ : ∃ q, (s.line.trimStart.drop n :: parts).getLast? = some q :=
    ⟨_, List.getLast?_eq_some_getLast (List.cons_ne_nil _ _)⟩
  have hlaid := hinner.parts _ _ q children hcollects.pieces rfl hq hchildren
  have hfirst : s.trimStart.start ≤ (s.line.trimStart.drop n).start := hstart ▸ Stretch.start_le_drop _ n
  have hrest := hcollects.within
  have hrestStop : rest.start ≤ s.stop := hcollects.stop ▸ rest.start_le_stop
  have hqstop : s.line.stop ≤ q.stop := by
    have hle := hcollects.pieces.stop_le hq
    rwa [Stretch.stop_drop, Stretch.trimStart, Stretch.stop_drop] at hle
  rw [hq]
  exact stands_node hin (hlaid.mono hfirst (Nat.le_refl _)) trivial s.start_le_trimStart (Nat.lt_of_lt_of_le hlt hqstop)
    (hcollects.le q (List.mem_of_getLast? hq)) hrestStop

omit hinner in
theorem in_resume {rest : Stretch} (hin : In t rest) : In t (resume rest) ∧ rest.start ≤ (resume rest).start ∧
    (resume rest).stop = rest.stop := by
  obtain ⟨n, hn⟩ := exists_drop_resume rest
  exact hn ▸ ⟨hin.drop n, rest.start_le_drop n, rest.stop_drop n⟩

omit hinner in
/-- The lines of an item end with the last of them. -/
theorem ReadsItem.exists_last {base width : Nat} {parts : List Stretch} {rest : Stretch} {children : List Node}
    (h : ReadsItem inner base s width parts stop rest children) :
    ∃ q, (s.line.drop width :: parts).getLast? = some q ∧ q.stop = stop := by
  have hlength : s.afterLine.chars.length ≤ s.chars.length := by
    rw [Stretch.chars_afterLine, List.length_drop]
    omega
  have hends := @itemLines_last s.afterLine base width s.chars.length s.line.stop hlength
  rw [h.lines] at hends
  cases parts with
  | nil => exact ⟨_, rfl, (s.line.stop_drop _).trans (hends.1 rfl).symm⟩
  | cons p parts =>
    refine ⟨(p :: parts).getLast (List.cons_ne_nil _ _), ?_, hends.2 _ (List.getLast?_eq_some_getLast _)⟩
    rw [List.getLast?_cons_cons]
    exact List.getLast?_eq_some_getLast _

/-- An item stands from its marker to the end of its last line. -/
theorem ReadsItem.laid {base width : Nat} {parts : List Stretch} {rest : Stretch} {children : List Node}
    (h : ReadsItem inner base s width parts stop rest children) (hin : In t s) :
    Laid t (s.start + Text.indent s.line.chars) stop [(Scope.ofText t references).node .listItem
      (s.start + Text.indent s.line.chars) stop children] ∧ s.start + Text.indent s.line.chars < stop ∧ stop ≤ rest.start := by
  have hcollects := h.takes.collects hin
  obtain ⟨q, hq, rfl⟩ := h.exists_last
  obtain ⟨marker, length, hmarker, -, rfl⟩ := h.exists_marker
  have hindent : Text.indent s.line.chars < s.line.chars.length := by
    by_contra hle
    rw [List.drop_eq_nil_of_le (Nat.le_of_not_lt hle)] at hmarker
    cases hmarker
  have hfirst : s.start + Text.indent s.line.chars ≤ (s.line.drop (Text.indent s.line.chars + length)).start := by
    rw [Stretch.start_drop, Stretch.start_line]
    omega
  have hline : s.line.stop ≤ q.stop := by
    have hle := hcollects.pieces.stop_le hq
    rwa [Stretch.stop_drop] at hle
  have hlt : s.start + Text.indent s.line.chars < q.stop := (Nat.add_lt_add_left hindent s.start).trans_le hline
  have hrest : q.stop ≤ rest.start := hcollects.le q (List.mem_of_getLast? hq)
  have hlaid := hinner.parts _ _ q children hcollects.pieces rfl hq h.blocks
  exact ⟨(hlaid.mono hfirst (Nat.le_refl _)).node trivial hlt (hrest.trans hcollects.within.start_le), hlt, hrest⟩

/-- The items of a list stand one after the other. -/
theorem ReadsItems.laid {base last last' next : Nat} {nodes : List Node}
    (h : ReadsItems (Scope.ofText t references) inner base last s nodes last' next) (hin : In t s) (hlast : last ≤ s.start) :
    Laid t (s.start + Text.indent s.line.chars) last' nodes ∧ last ≤ last' ∧ last' ≤ next ∧ next ≤ s.stop ∧
      ((markerWidth? base s).isSome → nodes ≠ [] ∧ s.start + Text.indent s.line.chars < last') := by
  induction h with
  | none hnone => exact ⟨.nil, Nat.le_refl _, hlast, Stretch.start_le_stop _, fun hsome => by rw [hnone] at hsome; cases hsome⟩
  | last h _ =>
    obtain ⟨hnode, hlt, hrest⟩ := h.laid hinner hin
    exact ⟨hnode, by omega, hrest, h.takes.stop_eq ▸ Stretch.start_le_stop _, fun _ => ⟨List.cons_ne_nil _ _, hlt⟩⟩
  | @next _ _ _ _ stop _ rest _ _ _ h _ _ ih =>
    obtain ⟨hnode, hlt, hrest⟩ := h.laid hinner hin
    obtain ⟨hin', hstart, hstop⟩ := in_resume (h.takes.collects hin).within
    obtain ⟨hnodes, hle, hnext, hend, -⟩ := ih hin' (hrest.trans hstart)
    have hbelow := hnodes.mono (show stop ≤ (resume rest).start + Text.indent (resume rest).line.chars by omega) (Nat.le_refl _)
    exact ⟨hnode.cons hbelow (by omega) hle, by omega, hnext, hend.trans (hstop.trans h.takes.stop_eq).le,
      fun _ => ⟨List.cons_ne_nil _ _, by omega⟩⟩

theorem list_stands (hin : In t s) (hmarker : (LineForm.marker? (s.line.chars.drop (Text.indent s.line.chars))).isSome)
    (h : list (Scope.ofText t references) inner s = .ok (node, stop)) : Stands t s node stop := by
  obtain ⟨ordered, nodes, last, hitems, rfl⟩ := exists_items_of_list h
  obtain ⟨hlaid, -, hnext, hstop, hfirst⟩ := hitems.laid hinner hin (Nat.le_refl _)
  obtain ⟨hne, hlt⟩ := hfirst (isSome_markerWidth? (Nat.le_add_right _ _) hmarker)
  rw [if_neg (by simpa using hne)]
  exact stands_node hin hlaid trivial (Nat.le_add_right _ _) hlt hnext hstop

/-! ### Paragraphs -/

omit hinner in
/-- The text of a paragraph is not blank. -/
theorem start_lt_trim_till (hblank : s.lineBlank = false) (hlast : s.trimStart.start < last) :
    (s.trimStart.till last).trim.start < (s.trimStart.till last).trim.stop := by
  obtain ⟨-, hlt⟩ := Stretch.start_trimStart_lt hblank
  refine Stretch.start_lt_stop _ fun hnil => ?_
  rw [Stretch.chars_trim] at hnil
  obtain ⟨a, b, hab, -, ha, hb⟩ := Text.exists_trim (s.trimStart.till last).chars
  rw [hnil, List.append_nil] at hab
  cases hchars : s.trimStart.chars with
  | nil =>
    have hstop := s.stop_line_le
    rw [← s.stop_drop (Text.indent s.chars)] at hstop
    change s.line.stop ≤ s.trimStart.start + s.trimStart.chars.length at hstop
    rw [hchars, List.length_nil] at hstop
    omega
  | cons c u =>
    have hc : Text.isBlank c = false := by
      have hhead := List.head?_dropWhile_not Text.isBlank s.chars
      have htrim : s.chars.dropWhile Text.isBlank = c :: u := s.chars_trimStart.symm.trans hchars
      rw [htrim] at hhead
      exact hhead
    obtain ⟨n, hn⟩ := Nat.exists_eq_succ_of_ne_zero (Nat.ne_of_gt (Nat.sub_pos_of_lt hlast))
    rw [Stretch.chars_till, hchars, hn, List.take_succ_cons] at hab
    have hmem : c ∈ a ++ b := hab ▸ List.mem_cons_self
    have hblank := (List.mem_append.1 hmem).elim (ha c) (hb c)
    rw [hc] at hblank
    cases hblank

omit hinner in
theorem paragraphEnd_spec (fuel : Nat) {last : Nat} (hin : In t s) (hlast : last ≤ s.start) :
    last ≤ (paragraphEnd fuel last s).1 ∧ (paragraphEnd fuel last s).1 ≤ (paragraphEnd fuel last s).2.2.start ∧
      (paragraphEnd fuel last s).2.2.start ≤ s.stop ∧
      ∀ depth line, (paragraphEnd fuel last s).2.1 = .underline depth line →
        (paragraphEnd fuel last s).1 ≤ line.stop ∧ line.stop ≤ (paragraphEnd fuel last s).2.2.start := by
  induction fuel generalizing last s with
  | zero => exact ⟨Nat.le_refl _, hlast, s.start_le_stop, by simp [paragraphEnd]⟩
  | succ fuel ih =>
    have hline : s.start ≤ s.line.stop := s.line.start_le_stop
    have hafter := s.stop_line_le_afterLine
    have hend := s.afterLine.start_le_stop
    rw [Stretch.stop_afterLine] at hend
    unfold paragraphEnd
    dsimp only
    split
    · exact ⟨Nat.le_refl _, hlast, s.start_le_stop, by simp⟩
    · split
      · next depth _ =>
        refine ⟨Nat.le_refl _, by dsimp only; omega, hend, ?_⟩
        rintro _ _ ⟨⟩
        exact ⟨Nat.le_trans hlast hline, hafter⟩
      · split
        · exact ⟨Nat.le_refl _, hlast, s.start_le_stop, by simp⟩
        · obtain ⟨hle, hnext, hstop, hunderline⟩ := ih hin.afterLine hafter
          rw [Stretch.stop_afterLine] at hstop
          exact ⟨by omega, hnext, hstop, hunderline⟩

theorem paragraph_stands (hin : In t s) (hblank : s.lineBlank = false)
    (h : paragraph (Scope.ofText t references) inner s = .ok (node, stop)) : Stands t s node stop := by
  obtain ⟨-, hlt⟩ := Stretch.start_trimStart_lt hblank
  have hspec := paragraphEnd_spec s.chars.length hin.afterLine s.stop_line_le_afterLine
  unfold paragraph at h
  generalize paragraphEnd s.chars.length s.line.stop s.afterLine = r at h hspec
  obtain ⟨last, ending, rest⟩ := r
  obtain ⟨hle, hnext, hstop, hunderline⟩ := hspec
  rw [Stretch.stop_afterLine] at hstop
  have htill : (s.trimStart.till last).stop ≤ last := s.trimStart.stop_till_le (by omega)
  cases ending with
  | underline depth line =>
    obtain ⟨children, hchildren, h⟩ := bind_eq_ok.1 h
    cases h
    obtain ⟨hlast, hline⟩ := hunderline depth line rfl
    have hlaid := hinner.content _ children (hin.trimStart.till last) hchildren
    dsimp only at hlast hline htill hle
    exact stands_node hin (hlaid.mono (Nat.le_refl _) (Nat.le_trans htill hlast)) trivial s.start_le_trimStart (by omega) hline hstop
  | other =>
    obtain ⟨children, hchildren, h⟩ := bind_eq_ok.1 h
    cases h
    have hlaid := hinner.content _ children (hin.trimStart.till last).trim hchildren
    have hfirst := s.start_le_trimStart
    rw [← start_trim_till s last] at hfirst
    have hlast := Nat.le_trans (s.trimStart.till last).stop_trim_le htill
    exact stands_node hin hlaid trivial hfirst (start_lt_trim_till hblank (Nat.lt_of_lt_of_le hlt hle))
      (Nat.le_trans hlast hnext) hstop

/-! ## All blocks -/

/-- Every block of a text without stranded lines stands between the front of its stretch and the place where reading
goes on. -/
theorem next_stands (hin : In t s) (hs : s.chars ≠ []) (hblank : s.lineBlank = false) (hline : ¬Stranded s.line.chars)
    {top : Bool} (h : next (Scope.ofText t references) inner top s = .ok (node, stop)) : Stands t s node stop := by
  have hdispatch := dispatch (Scope.ofText t references) inner top s
  rw [h] at hdispatch
  generalize hr : (Except.ok (node, stop) : Except Fault Result) = r at hdispatch
  cases hdispatch with
  | modules h => exact modules_stands hin h (Except.ok.inj hr).symm
  | fence mark length => exact fence_stands hin hblank mark length (Except.ok.inj hr).symm
  | comment r _ hr' =>
    cases hr
    exact (comment?_stands hin.trimStart hr').of_trimStart
  | expression r hbrace hr' =>
    cases hr
    obtain ⟨u, hu⟩ := head?_trimStart hblank hbrace
    exact (expression?_stands hin.trimStart hu hr').of_trimStart
  | component r _ hr' =>
    cases hr
    exact (component?_stands hinner hin.trimStart hr').of_trimStart
  | componentFault => cases hr
  | heading => exact heading_stands hinner hin hblank hr.symm
  | rawLine =>
    cases hr
    exact rawLine_stands hin hblank _
  | table => exact table_stands hinner hin hblank hr.symm
  | quote hmark => exact quote_stands hinner hin hs hblank hmark hr.symm
  | list hnear hmarker =>
    rw [bareLine, Stretch.chars_trim] at hmarker
    exact list_stands hinner hin ((marker?_isSome_or_stranded hnear hmarker).resolve_right hline) hr.symm
  | paragraph => exact paragraph_stands hinner hin hblank hr.symm

/-- The blocks of a tidy stretch stand one after the other. -/
theorem sequence_lays {top : Bool} {fuel : Nat} {nodes : List Node} (hin : In t s) (htidy : Tidy s.chars)
    (h : sequence (Scope.ofText t references) inner top fuel s = .ok nodes) : Laid t s.start s.stop nodes := by
  induction fuel generalizing s nodes with
  | zero => cases h
  | succ fuel ih =>
    unfold sequence at h
    split at h
    · cases h
      exact .nil
    · next hempty =>
      have hs : s.chars ≠ [] := by simpa using hempty
      split at h
      · have hrest := ih hin.afterLine ((s.within_drop _).tidy htidy) h
        rw [Stretch.stop_afterLine] at hrest
        exact hrest.mono s.start_le_afterLine (Nat.le_refl _)
      · next hblank =>
        have hline := Tidy.not_stranded (s.within_line.tidy htidy) s.newline_notMem_line
        obtain ⟨⟨node, stop⟩, hnext, h⟩ := bind_eq_ok.1 h
        obtain ⟨rest, hrest, h⟩ := bind_eq_ok.1 h
        cases h
        have hblank : s.lineBlank = false := by simpa using hblank
        have hlt := start_lt_next hs hblank hline hnext
        obtain ⟨hnode, hstop⟩ := next_stands hinner hin hs hblank hline hnext
        have hlaid := ih (hin.since stop) ((s.within_drop _).tidy htidy) hrest
        rw [s.start_since (Nat.le_of_lt hlt) hstop, show (s.since stop).stop = s.stop from s.stop_drop _] at hlaid
        exact hnode.cons hlaid (Nat.le_of_lt hlt) hstop

end Inner

/-- An ordinary text is tidy. -/
theorem tidy_of_ordinary (h : Ordinary t) : Tidy t := by
  induction t with
  | nil => exact List.isChain_nil
  | cons a t ih =>
    have htail := ih (h.within ⟨[a], [], by simp⟩)
    cases t with
    | nil => exact List.isChain_singleton a
    | cons c t =>
      refine List.isChain_cons_cons.2 ⟨fun _ hc => ?_, htail⟩
      rcases h.blank c (by simp) hc with rfl | rfl | rfl
      · exact .inl rfl
      · exact .inl rfl
      · exact .inr rfl

/-- The blocks of a stretch of an ordinary text are laid in it. -/
theorem readAll_lays (ht : Ordinary t) (references : List Reference) (budget : Nat) (top : Bool) :
    Lays t (readAll budget top (Scope.ofText t references)) := by
  induction budget using Nat.strong_induction_on generalizing t references top with
  | _ budget ih =>
    intro s nodes hin h
    unfold readAll at h
    split at h
    · next _ _ _ budget =>
      refine sequence_lays ⟨Content.read_lays ht references _, ih _ (by omega) ht references false, ?_⟩ hin
        (tidy_of_ordinary (ht.within hin.isInfix)) h
      intro parts p q ns hpieces hfirst hlast hns
      refine hpieces.laid hfirst hlast (fun ms hms => ?_) hns
      have hordinary : Ordinary (joinedText parts) :=
        ht.unlines (List.forall_mem_map.2 fun p hp => (hpieces.within p hp).isInfix)
      have hlaid := ih budget (by omega) hordinary references false _ ms (Stretch.in_self _) hms
      exact hlaid.mono (Nat.le_refl _) (Nat.le_of_eq (Nat.zero_add _))
    · cases h

end Narration.Markup.Block
