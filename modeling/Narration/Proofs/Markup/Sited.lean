import Narration.Proofs.Buffer
import Narration.Proofs.Markup.Laid.Block

/-!
# Tags stand where the tree says

Of an ordinary text all nodes are laid in order. Where a text may write placeholders of its own, a node may stand in its
content several times, or in another place than where it was lifted; what stands once is still found where it is said to be.

* `Content.mayWritePlaceholders_mono`, `Content.mayWritePlaceholders_of_unlines` : pieces of a text that may write
  placeholders;
* `Kind.Sited`, `Node.Sited` : positions that cover what nodes are made from;
* `Content.read_sited` : the nodes of inline content;
* `Block.place_sited` : the nodes of pieces of lines, placed in the document;
* `Block.next_sited`, `Block.readAll_sited` : the blocks of a stretch;
* `Tree.parse_sited` : the tree of a text;
* `Buffer.tag_of_component` : components address the text of a buffer that no line end changes when it is read again.
-/

namespace Narration
open Markup (Stretch Scope)
open Markup.Stretch (In)
open Markup.Content (mayWritePlaceholders)

variable {t u : Text} {scope : Scope} {kind : Kind} {n x : Node} {children ns : List Node} {position : Option Position}
  {first stop : Nat}

/-! ## Texts that may write placeholders -/

namespace Markup.Content

theorem mayWritePlaceholders_mono (h : u <:+: t) (hu : mayWritePlaceholders u) : mayWritePlaceholders t := by
  rw [mayWritePlaceholders_iff] at hu ⊢
  exact hu.imp (h.subset ·) (.imp (h.subset ·) (.imp (h.subset ·) (·.trans h)))

/-- None of the marks runs over a line end. -/
theorem mayWritePlaceholders_of_unlines {ls : List Text} (hls : ∀ l ∈ ls, l <:+: t) (h : mayWritePlaceholders (Text.unlines ls)) :
    mayWritePlaceholders t := by
  have hmem {c : Char} (hne : c ≠ '\n') (hc : c ∈ Text.unlines ls) : c ∈ t := by
    obtain ⟨l, hl, hc⟩ := (Text.mem_join hc).resolve_left fun hn => hne (List.mem_singleton.1 hn)
    exact (hls l hl).subset hc
  rw [mayWritePlaceholders_iff] at h ⊢
  refine h.imp (hmem (by decide)) (.imp (hmem (by decide)) (.imp (hmem (by decide)) fun hm => ?_))
  obtain ⟨l, hl, hwithin⟩ := Text.exists_infix_of_unlines (by decide) (by decide) hm
  exact hwithin.trans (hls l hl)

end Markup.Content

/-! ## Where nodes stand -/

theorem Kind.Covers.stop_le (h : kind.Covers t first stop) (hstands : kind.stands) : stop ≤ t.length := by
  have hlast {c : Char} (hc : t[stop - 1]? = some c) : stop ≤ t.length := by
    have hlt := (List.getElem?_eq_some_iff.1 hc).1
    omega
  cases kind with
  | expression source => exact hlast h.last
  | component name attributes => exact hlast h.2.1
  | _ => cases hstands

/-- Where a node of some kind is said to stand. If it stands in its content once, as everything does in a text that writes no
placeholders, there is what it is made from. -/
structure Kind.Sited (t : Text) (kind : Kind) (p : Position) : Prop where
  once : p.copies = 1 ∨ mayWritePlaceholders t
  covers : p.copies = 1 → kind.stands → p.start < p.stop ∧ kind.Covers t p.start p.stop

/-- A node and all nodes below it stand where they are said to. -/
def Node.Sited (t : Text) (n : Node) : Prop := ∀ m ∈ n.walk, ∀ p ∈ m.position, m.kind.Sited t p

namespace Node

theorem sited_mk : Sited t (mk kind children position) ↔ (∀ p ∈ position, kind.Sited t p) ∧ ∀ n ∈ children, n.Sited t :=
  forall_walk_mk

theorem sited_free (h : ∀ n ∈ children, n.Sited t) : Sited t (mk kind children none) := sited_mk.2 ⟨nofun, h⟩

/-- A node that is read from part of a text. -/
theorem sited_node (hkind : kind.stands → first < stop ∧ kind.Covers t first stop) (h : ∀ n ∈ children, n.Sited t) :
    (scope.node kind first stop children).Sited t := by
  refine sited_mk.2 ⟨?_, h⟩
  rintro p ⟨⟩
  exact ⟨.inl rfl, fun _ => hkind⟩

theorem sited_plain (hkind : kind.stands = false) (h : ∀ n ∈ children, n.Sited t) : (scope.node kind first stop children).Sited t :=
  sited_node (fun hstands => absurd (hkind.symm.trans hstands) Bool.false_ne_true) h

/-- A node that stands in its content several times does so in a text that may write placeholders. -/
theorem Sited.repeated (ht : mayWritePlaceholders t) (i : Nat) (h : n.Sited t) : (n.repeated i).Sited t := by
  intro m hm p hp
  rw [walk_repeated] at hm
  obtain ⟨m', hm', rfl⟩ := List.mem_map.1 hm
  rw [position_repeated] at hp
  obtain ⟨q, hq, rfl⟩ := Option.map_eq_some_iff.1 hp
  rw [kind_repeated]
  exact ⟨.inr ht, fun hcopies => (h m' hm' q hq).covers (Nat.eq_one_of_mul_eq_one_left hcopies)⟩

theorem Sited.tops (h : n.Sited t) (hx : x ∈ n.tops) : x.Sited t := fun m hm => h m (mem_walk_of_tops hx hm)

/-- Nodes without positions stand wherever those in them do. -/
theorem sited_of_topsAll (h : ∀ x ∈ topsAll ns, x.Sited t) : ∀ n ∈ ns, n.Sited t := by
  intro n hn m hm p hp
  obtain ⟨x, hx, hmem⟩ := exists_topsAll ns m ((mem_walkAll ns).2 ⟨n, hn, hm⟩) (.inl (Option.isSome_of_mem hp))
  exact h x hx m hmem p hp

end Node

namespace Markup
open Fallible

variable {inner : Stretch → Except Fault (List Node)} {s : Stretch} {node : Node} {nodes lifted : List Node}

/-- The nodes read from a stretch of a text stand where they are said to. -/
def Sites (t : Text) (inner : Stretch → Except Fault (List Node)) : Prop :=
  ∀ s nodes, In t s → inner s = .ok nodes → ∀ n ∈ nodes, n.Sited t

/-! ## Components -/

theorem sited_single {tag : Tag} (hin : In t s) (htag : Tag.read? s.start s.chars = some tag) :
    (scope.node (.component tag.name tag.attributes) s.start tag.stop).Sited t := by
  have hspans : Tag.Spans t s.start s.chars.length tag := Tag.read?_span hin htag
  refine Node.sited_node (fun _ => ?_) (List.forall_mem_nil _)
  rw [← hspans.start]
  exact ⟨Nat.lt_of_succ_lt hspans.lt, hspans.head, hspans.last, hspans.attributes⟩

/-- A component stands from its tag to the one that closes it. -/
theorem sited_pair {tag : Tag} (hin : In t s) (htag : Tag.read? s.start s.chars = some tag)
    (hfind : Closing.find? tag.name (s.since tag.stop).start (s.since tag.stop).chars = some (first, stop))
    (h : ∀ n ∈ children, n.Sited t) : (scope.node (.component tag.name tag.attributes) s.start stop children).Sited t := by
  have hspans : Tag.Spans t s.start s.chars.length tag := Tag.read?_span hin htag
  obtain ⟨hfirst, hlt⟩ := Closing.find?_extent hfind
  obtain ⟨-, hlast⟩ := Closing.find?_span (hin.since tag.stop) hfind
  have hstart := s.start_le_since tag.stop
  have hhead := hspans.head
  rw [hspans.start] at hhead
  exact Node.sited_node (fun _ => ⟨by omega, hhead, hlast, hspans.attributes⟩) h

/-! ## Inline content -/

namespace Content

theorem ofTag_sited (hinner : Sites t inner) (hin : In t s) {tag : Tag} (htag : Tag.read? s.start s.chars = some tag)
    (h : ofTag scope inner s tag = .ok (node, stop)) : node.Sited t := by
  have hstart : tag.start = s.start := (Tag.read?_span hin htag).start
  unfold ofTag at h
  dsimp only at h
  rw [hstart] at h
  split at h
  · cases h
    exact Node.sited_plain rfl (List.forall_mem_nil _)
  · split at h
    · cases h
      exact sited_single hin htag
    · next first last hclosing =>
      split at hclosing
      · cases hclosing
      obtain ⟨children, hchildren, h⟩ := bind_eq_ok.1 h
      cases h
      exact sited_pair hin htag hclosing (hinner _ children ((hin.since tag.stop).till first) hchildren)

theorem front_sited (hinner : Sites t inner) (hin : In t s) {length : Nat} (h : front scope inner s = .ok (some node, length)) :
    node.Sited t := by
  obtain ⟨o, chars⟩ := s
  unfold front at h
  dsimp only at h
  split at h
  · cases h
  · cases h
  · split at h
    · next source length' hbraced =>
      cases h
      obtain ⟨hwraps, -⟩ := Tag.braced?_wraps hin hbraced
      exact Node.sited_node (fun _ => ⟨Nat.lt_of_succ_lt hwraps.lt, hwraps⟩) (List.forall_mem_nil _)
    · cases h
  · split at h
    · next tag htag =>
      obtain ⟨⟨node, stop⟩, hnode, h⟩ := bind_eq_ok.1 h
      cases h
      exact ofTag_sited hinner hin htag hnode
    · cases h
  · cases h

theorem Lifted.sited {i : Nat} {source : Text} (h : Lifted scope inner i s source lifted) (hinner : Sites t inner) (hin : In t s) :
    ∀ n ∈ lifted, n.Sited t := by
  induction h with
  | stop => exact List.forall_mem_nil _
  | keep length _ ih => exact ih (hin.drop length)
  | place hfront _ ih => exact List.forall_mem_cons.2 ⟨front_sited hinner hin hfront, ih (hin.drop _)⟩

/-- The tokens put each lifted node back as it is, in marks that have no positions. -/
theorem nodesOf_sited (hlifted : ∀ n ∈ lifted, n.Sited t) {tokens : List InlineToken} (h : nodesOf lifted tokens = .ok nodes) :
    ∀ n ∈ nodes, n.Sited t := by
  obtain ⟨ds, -, htops⟩ := topsAll_nodesOf h
  refine Node.sited_of_topsAll fun x hx => ?_
  rw [htops] at hx
  obtain ⟨n, hn, hx⟩ := Node.mem_topsAll.1 hx
  obtain ⟨number, -, hget⟩ := List.mem_filterMap.1 hn
  exact (hlifted n (List.mem_of_getElem? hget)).tops hx

theorem counted_sited (ht : mayWritePlaceholders t) (hlifted : ∀ n ∈ lifted, n.Sited t) {tokens : List InlineToken}
    (h : counted lifted tokens = .ok nodes) : ∀ n ∈ nodes, n.Sited t := by
  obtain ⟨held, -, h⟩ := bind_eq_ok.1 h
  cases h
  intro n hn
  obtain ⟨i, hi, rfl⟩ := List.mem_mapIdx.1 hn
  exact (hlifted _ (List.getElem_mem hi)).repeated ht _

theorem read_sited (scope : Scope) (budget : Nat) : Sites t (read scope budget) := by
  induction budget using Nat.strong_induction_on with
  | _ budget ih =>
    intro s nodes hin h
    unfold read at h
    split at h
    · next budget =>
      obtain ⟨⟨source, lifted⟩, hlift, h⟩ := bind_eq_ok.1 h
      obtain ⟨tokens, -, h⟩ := bind_eq_ok.1 h
      have hlifted := (lift_lifted hlift).sited (ih budget (by omega)) hin
      dsimp only at h
      split at h
      · next hmay =>
        obtain ⟨lifted', hcounted, h⟩ := bind_eq_ok.1 h
        exact nodesOf_sited (counted_sited (mayWritePlaceholders_mono hin.isInfix hmay) hlifted hcounted) h
      · exact nodesOf_sited hlifted h
    · cases h

end Content

/-! ## Blocks -/

namespace Block

variable {inner : Inner} {parts : List Stretch} {top : Bool}

/-- The nodes read from the insides of containers stand where they are said to. -/
structure Inner.Sites (t : Text) (inner : Inner) : Prop where
  content : Markup.Sites t inner.content
  blocks : Markup.Sites t inner.blocks
  parts : ∀ parts ns, Pieces t parts → inner.parts parts = .ok ns → ∀ n ∈ ns, n.Sited t

theorem fence_sited (scope : Scope) (s : Stretch) (mark : Char) (length : Nat) : (fence scope s mark length).1.Sited t := by
  unfold fence
  dsimp only
  split <;> exact Node.sited_plain rfl (List.forall_mem_nil _)

theorem comment?_sited {r : Result} (h : comment? scope s = some r) : r.1.Sited t := by
  obtain ⟨n, -, h⟩ := Option.bind_eq_some_iff.1 h
  cases h
  exact Node.sited_plain rfl (List.forall_mem_nil _)

theorem expression?_sited {r : Result} (hin : In t s) (hs : s.chars.head? = some '\x7b') (h : expression? scope s = some r) :
    r.1.Sited t := by
  obtain ⟨o, chars⟩ := s
  obtain ⟨u, rfl⟩ := List.head?_eq_some_iff.1 hs
  obtain ⟨⟨source, length⟩, hbraced, h⟩ := Option.bind_eq_some_iff.1 h
  obtain ⟨hwraps, hle⟩ := Tag.braced?_wraps hin hbraced
  dsimp only at h
  split at h
  · cases h
    have hstop : ((⟨o, '\x7b' :: u⟩ : Stretch).drop length).start = o + length := congrArg (o + ·) (Nat.min_eq_left hle)
    rw [hstop]
    exact Node.sited_node (fun _ => ⟨Nat.lt_of_succ_lt hwraps.lt, hwraps⟩) (List.forall_mem_nil _)
  · cases h

section Containers
variable (hi : inner.Sites t)
include hi

theorem component?_sited {r : Result} (hin : In t s) (h : component? scope inner s = .ok (some r)) : r.1.Sited t := by
  obtain ⟨tag, htag, h⟩ := component?_eq_some.1 h
  cases h with
  | stray => exact Node.sited_plain rfl (List.forall_mem_nil _)
  | single => exact sited_single hin htag
  | @pair first stop children _ _ hfind _ hchildren =>
    have hinside : In t ((s.since tag.stop).till first) := (hin.since tag.stop).till first
    unfold Inner.between at hchildren
    split at hchildren
    · exact sited_pair hin htag hfind (hi.blocks _ children hinside hchildren)
    · exact sited_pair hin htag hfind (hi.content _ children hinside hchildren)

theorem heading_sited {depth place length : Nat} {r : Result} (hin : In t s) (h : heading scope inner s depth place length = .ok r) :
    r.1.Sited t := by
  obtain ⟨children, hchildren, hnode, -⟩ := exists_of_heading h
  rw [hnode]
  rcases hchildren with rfl | hchildren
  · exact Node.sited_plain rfl (List.forall_mem_nil _)
  · exact Node.sited_plain rfl (hi.content _ children ((hin.line.trimStart.drop place).take length) hchildren)

theorem row_sited (hin : In t s) (h : row scope inner s = .ok node) : node.Sited t := by
  rw [row_eq] at h
  obtain ⟨nodes, hnodes, h⟩ := bind_eq_ok.1 h
  cases h
  obtain ⟨hinside, -, -⟩ := beforeBar_afterBar hin.trim
  obtain ⟨hcells, -⟩ := cells_spec (afterBar s.trim).1 [] _ (Nat.zero_le _) hinside
  refine Node.sited_plain rfl fun n hn => ?_
  obtain ⟨cell, hcell, hn⟩ := (mem_mapM hnodes).1 hn
  dsimp only at hn
  split at hn
  · cases hn
    exact Node.sited_free (List.forall_mem_nil _)
  · obtain ⟨children, hchildren, hn⟩ := bind_eq_ok.1 hn
    cases hn
    exact Node.sited_free (hi.content _ children (hcells cell hcell).1.trim hchildren)

theorem ReadsRows.sited {n last last' next : Nat} (h : ReadsRows scope inner n last s children last' next) (hin : In t s) :
    ∀ c ∈ children, c.Sited t := by
  induction h with
  | none => exact List.forall_mem_nil _
  | rule _ _ ih => exact ih hin.afterLine
  | row _ _ hrow _ ih => exact List.forall_mem_cons.2 ⟨row_sited hi hin.line hrow, ih hin.afterLine⟩

theorem table_sited {r : Result} (hin : In t s) (h : table scope inner s = .ok r) : r.1.Sited t := by
  obtain ⟨nodes, last, hrows, hnode⟩ := exists_rows_of_table h
  rw [hnode]
  exact Node.sited_plain rfl (hrows.sited hi hin)

theorem paragraph_sited {r : Result} (hin : In t s) (h : paragraph scope inner s = .ok r) : r.1.Sited t := by
  unfold paragraph at h
  generalize paragraphEnd s.chars.length s.line.stop s.afterLine = e at h
  obtain ⟨last, ending, rest⟩ := e
  cases ending with
  | underline depth line =>
    obtain ⟨children, hchildren, h⟩ := bind_eq_ok.1 h
    cases h
    exact Node.sited_plain rfl (hi.content _ children (hin.trimStart.till last) hchildren)
  | other =>
    obtain ⟨children, hchildren, h⟩ := bind_eq_ok.1 h
    cases h
    exact Node.sited_plain rfl (hi.content _ children (hin.trimStart.till last).trim hchildren)

theorem quote_sited {r : Result} (hin : In t s) (h : quote scope inner s = .ok r) : r.1.Sited t := by
  unfold quote at h
  have hcollects := (takes_quoteLines s.chars.length true s).collects hin
  generalize quoteLines s.chars.length true s = lines at h hcollects
  obtain ⟨parts, rest⟩ := lines
  obtain ⟨children, hchildren, h⟩ := bind_eq_ok.1 h
  cases h
  exact Node.sited_plain rfl (hi.parts _ _ hcollects.pieces hchildren)

theorem ReadsItems.sited {base last last' next : Nat} (h : ReadsItems scope inner base last s children last' next) (hin : In t s) :
    ∀ c ∈ children, c.Sited t := by
  have hitem {s rest : Stretch} {width stop first : Nat} {parts : List Stretch} {children : List Node}
      (h : ReadsItem inner base s width parts stop rest children) (hin : In t s) : (scope.node .listItem first stop children).Sited t :=
    Node.sited_plain rfl (hi.parts _ _ (h.takes.collects hin).pieces h.blocks)
  induction h with
  | none => exact List.forall_mem_nil _
  | last h _ => exact List.forall_mem_singleton.2 (hitem h hin)
  | next h _ _ ih =>
    obtain ⟨hin', -, -⟩ := in_resume (h.takes.collects hin).within
    exact List.forall_mem_cons.2 ⟨hitem h hin, ih hin'⟩

theorem list_sited {r : Result} (hin : In t s) (h : list scope inner s = .ok r) : r.1.Sited t := by
  obtain ⟨ordered, nodes, last, hitems, hnode⟩ := exists_items_of_list h
  rw [hnode]
  exact Node.sited_plain rfl (hitems.sited hi hin)

/-- Every block stands where it is said to. -/
theorem next_sited {r : Result} (hin : In t s) (hblank : s.lineBlank = false) (h : next scope inner top s = .ok r) : r.1.Sited t := by
  have hdispatch := dispatch scope inner top s
  rw [h] at hdispatch
  generalize hr : (Except.ok r : Except Fault Result) = x at hdispatch
  cases hdispatch with
  | modules =>
    cases hr
    exact Node.sited_plain rfl (List.forall_mem_nil _)
  | fence mark length =>
    cases hr
    exact fence_sited scope s mark length
  | comment r _ hr' =>
    cases hr
    exact comment?_sited hr'
  | expression r hbrace hr' =>
    cases hr
    obtain ⟨u, hu⟩ := head?_trimStart hblank hbrace
    exact expression?_sited hin.trimStart (by rw [hu]; rfl) hr'
  | component r _ hr' =>
    cases hr
    exact component?_sited hi hin.trimStart hr'
  | componentFault => cases hr
  | heading => exact heading_sited hi hin hr.symm
  | rawLine =>
    cases hr
    exact Node.sited_plain rfl (List.forall_mem_nil _)
  | table => exact table_sited hi hin hr.symm
  | quote => exact quote_sited hi hin hr.symm
  | list => exact list_sited hi hin hr.symm
  | paragraph => exact paragraph_sited hi hin hr.symm

theorem sequence_sited {fuel : Nat} (hin : In t s) (h : sequence scope inner top fuel s = .ok children) : ∀ n ∈ children, n.Sited t :=
  Reads.forall_mem_of (Q := In t) ⟨fuel, h⟩ hin (fun _ n hs => hs.drop n) fun _ _ _ hs _ hblank _ hnext => next_sited hi hs hblank hnext

end Containers

/-! ## Pieces of lines -/

/-- The nodes of joined pieces stand in the document where they are placed. A node that stands several times is moved once for
each time, and so to some other place. -/
theorem place_sited {joined : Scope} (h : Moves u t (outerOffset joined parts)) (hmay : mayWritePlaceholders u → mayWritePlaceholders t)
    (hn : n.Sited u) : (place scope joined parts n).Sited t := by
  intro m hm p hp
  rw [walk_place] at hm
  obtain ⟨⟨kind, children, position⟩, hm', rfl⟩ := List.mem_map.1 hm
  rw [place] at hp ⊢
  obtain ⟨q, rfl, rfl⟩ := Option.map_eq_some_iff.1 hp
  obtain ⟨honce, hcovers⟩ := hn _ hm' q rfl
  have hcopies : (times (outerPosition scope joined parts) q.copies q).copies = q.copies := copies_times_outerPosition _ q
  refine ⟨by rw [Option.elim_some, hcopies]; exact honce.imp_right hmay, fun hone hstands => ?_⟩
  rw [Option.elim_some] at hone hstands ⊢
  rw [hcopies] at hone
  rw [hone, Node.kind, times, times] at hstands ⊢
  obtain ⟨hlt, hcovers⟩ := hcovers hone (by rwa [stands_outerKind] at hstands)
  have hstop := hcovers.stop_le (by rwa [stands_outerKind] at hstands)
  obtain ⟨hstart', hstop'⟩ := h.moved_outerPosition scope hlt hstop
  rw [times, times, hstart', hstop']
  exact ⟨Nat.lt_succ_of_le (h.mono (Nat.le_sub_one_of_lt hlt) ((Nat.sub_le _ _).trans hstop)), h.covers hcovers⟩

theorem readParts_sited {read : Scope → Stretch → Except Fault (List Node)} (hread : ∀ t scope, Markup.Sites t (read scope)) (scope : Scope)
    (hpieces : Pieces t parts) (h : readParts read scope parts = .ok children) : ∀ n ∈ children, n.Sited t := by
  unfold readParts at h
  split at h
  · cases h
    exact List.forall_mem_nil _
  · next hne =>
    obtain ⟨ns, hns, h⟩ := bind_eq_ok.1 h
    cases h
    have hmoves := hpieces.moves (by simpa using hne) scope.references
    have hmay := Content.mayWritePlaceholders_of_unlines (List.forall_mem_map.2 fun p hp => (hpieces.within p hp).isInfix)
    rw [placeAll_eq_map]
    exact List.forall_mem_map.2 fun n hn => place_sited hmoves hmay (hread _ _ _ ns (Stretch.in_self _) hns n hn)

/-- All blocks of a stretch stand where they are said to. -/
theorem readAll_sited (budget : Nat) (top : Bool) (scope : Scope) : Markup.Sites t (readAll budget top scope) := by
  induction budget using Nat.strong_induction_on generalizing t top scope with
  | _ budget ih =>
    intro s ns hin h
    unfold readAll at h
    split at h
    · next budget =>
      exact sequence_sited
        { content := Content.read_sited scope _
          blocks := ih _ (by omega) _ _
          parts := fun parts ns => readParts_sited (fun t scope => ih budget (by omega) false scope) scope } hin h
    · cases h

end Block
end Markup

/-! ## Whole documents -/

namespace Tree
open Markup Fallible

variable {tree : Node}

theorem read_sited (h : read t = .ok tree) : tree.Sited t := by
  obtain ⟨nodes, hnodes, h⟩ := bind_eq_ok.1 h
  cases h
  refine Node.sited_plain rfl ?_
  unfold blocks at hnodes
  split at hnodes
  · obtain ⟨rest, hrest, hnodes⟩ := bind_eq_ok.1 hnodes
    cases hnodes
    refine List.forall_mem_cons.2 ⟨Node.sited_plain rfl (List.forall_mem_nil _), ?_⟩
    exact Block.readAll_sited _ _ _ _ _ ((Stretch.in_self t).drop _) hrest
  · exact Block.readAll_sited _ _ _ _ _ (Stretch.in_self t) hnodes

/-- The nodes of a tree stand where they are said to in the text with line feeds for line ends. -/
theorem parse_sited (h : (parse t).outcome.1 = .ok tree) : tree.Sited (Text.crlfToLf t) := by
  unfold parse at h
  dsimp only at h
  split at h
  · next node hnode =>
    cases h
    exact read_sited hnode
  · cases h
    exact Node.sited_plain rfl (List.forall_mem_singleton.2 (Node.sited_plain rfl (List.forall_mem_singleton.2
      (Node.sited_plain rfl (List.forall_mem_nil _)))))
  · cases h

end Tree

/-- What stands between two different characters, with both of them. -/
theorem Text.exists_slice {a b : Char} (hhead : t[first]? = some a) (hlast : t[stop - 1]? = some b) (hlt : first < stop) (hne : a ≠ b) :
    ∃ u, t.slice first stop = a :: u ++ [b] := by
  obtain ⟨last, rfl⟩ := Nat.exists_eq_succ_of_ne_zero (Nat.ne_zero_of_lt hlt)
  rw [Nat.succ_eq_add_one, Nat.add_sub_cancel] at hlast
  have hbefore : first < last := by
    refine Nat.lt_of_le_of_ne (Nat.le_of_lt_succ hlt) ?_
    rintro rfl
    exact hne (Option.some.inj (hhead.symm.trans hlast))
  have hfront : (t.slice first last).head? = some a := by
    rw [slice, List.head?_drop, List.getElem?_take_of_lt hbefore, hhead]
  obtain ⟨u, hu⟩ := List.head?_eq_some_iff.1 hfront
  exact ⟨u, by rw [slice_succ hlast (Nat.le_of_lt hbefore), hu]⟩

namespace Buffer
open Fallible

variable {tree : Node} {p : Position} {name : Text} {attributes : List Attribute}

/-- The tree of a buffer is read from the text of the buffer. Unless that changes a line end, a component that stands in its
content once stands where the tree says, from the bracket that opens its tag to the one that ends it, and so do its values. -/
theorem tag_of_component (ht : ¬['\r', '\r', '\n'] <:+: t) (h : (Tree.parse (ofText t).text).outcome.1 = .ok tree)
    (hn : n ∈ tree.walk) (hkind : n.kind = .component name attributes) (hp : n.position = some p)
    (honce : mayWritePlaceholders (ofText t).text → p.copies = 1) :
    (∃ u, (ofText t).text.slice p.start p.stop = '<' :: u ++ ['>']) ∧ ∀ a ∈ attributes, a.Covers (ofText t).text := by
  have hsited := Tree.parse_sited h n hn p hp
  rw [text_ofText, Text.crlfToLf_crlfToLf_iff.2 ht, hkind] at hsited
  rw [text_ofText] at honce ⊢
  obtain ⟨hlt, hhead, hlast, hattributes⟩ := hsited.covers (hsited.once.elim id honce) rfl
  exact ⟨Text.exists_slice hhead hlast hlt (by decide), hattributes⟩

/-- A page with every line end, and with characters that may write placeholders. -/
def mixedPage : Text := "A & B\r\n\r> <Card href='c'>D\r> E</Card>\r\n\nF\r".toList

theorem tag_of_component_mixedPage : ¬['\r', '\r', '\n'] <:+: mixedPage ∧ ∃ tree n p,
    (Tree.parse (ofText mixedPage).text).outcome.1 = .ok tree ∧ n ∈ tree.walk ∧
      n.kind = .component "Card".toList [⟨"href".toList, some (.literal ['c']), some (20, 23)⟩] ∧ n.position = some p ∧
      ∃ u, (ofText mixedPage).text.slice p.start p.stop = '<' :: u ++ ['>'] := by
  have hends : ¬['\r', '\r', '\n'] <:+: mixedPage := by decide
  obtain ⟨tree, htree, h⟩ := exists_of_any (by decide +kernel : (Tree.parse (ofText mixedPage).text).outcome.1.toOption.any fun tree =>
    tree.walk.any fun n => n.kind = .component "Card".toList [⟨"href".toList, some (.literal ['c']), some (20, 23)⟩] ∧
      n.position.any (·.copies = 1))
  obtain ⟨n, hn, h⟩ := List.any_eq_true.1 h
  obtain ⟨hkind, hposition⟩ := of_decide_eq_true h
  obtain ⟨p, hp, hcopies⟩ := (Option.any_eq_true _ _).1 hposition
  exact ⟨hends, tree, n, p, htree, hn, hkind, hp, (tag_of_component hends htree hn hkind hp fun _ => of_decide_eq_true hcopies).1⟩

/-- Two carriage returns before a line feed: reading leaves one of them, and reading once more takes that. -/
def returnedPage : Text := "\r\r\n<Card/>".toList

/-- On such a page the tree has the component one character in front of its tag. -/
theorem tag_beside_component : ¬∀ (t : Text) (tree n : Node) (p : Position),
    (∀ c ∈ t, Text.isBlank c → c = ' ' ∨ c = '\t' ∨ c = '\n' ∨ c = '\r') → (Tree.parse (ofText t).text).outcome.1 = .ok tree →
      n ∈ tree.walk → n.isComponent → n.position = some p → ∃ u, (ofText t).text.slice p.start p.stop = '<' :: u ++ ['>'] := by
  intro hall
  obtain ⟨tree, htree, h⟩ := exists_of_any (by decide +kernel : (Tree.parse (ofText returnedPage).text).outcome.1.toOption.any fun tree =>
    tree.walk.any fun n => n.isComponent ∧ n.position.any fun p => p.start = 1 ∧ p.stop = 8)
  obtain ⟨n, hn, h⟩ := List.any_eq_true.1 h
  obtain ⟨hkind, hposition⟩ := of_decide_eq_true h
  obtain ⟨p, hp, h⟩ := (Option.any_eq_true _ _).1 hposition
  obtain ⟨hstart, hstop⟩ := of_decide_eq_true h
  obtain ⟨u, hu⟩ := hall returnedPage tree n p (by decide) htree hn hkind hp
  have hslice : (ofText returnedPage).text.slice 1 8 = "\n<Card/".toList := by decide
  rw [hstart, hstop, hslice] at hu
  exact absurd (List.cons.inj hu).1 (by decide)

end Buffer
end Narration
