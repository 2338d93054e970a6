import Mathlib.Order.MinMax
import Narration.Proofs.Markup.Bounds
import Narration.Proofs.Player.Injected
import Narration.Proofs.Spoken.Narrated

/-!
# What is narrated of the blocks of pieces of lines

* `Lined` : blocks with the lines of their places in a text;
* `Block.Reads.lined` : all blocks of a text are;
* `Block.Descends` : places in pieces that stand in a document some lines further down than in the joined text;
* `Block.Rows`, `Block.Rows.descends` : pieces on lines one below the other;
* `Block.inset`, `Block.descends_inset` : lines without the first two characters of each;
* `Spoken.blockText_place`, `Spoken.joinBlocks_place` : blocks of such pieces are narrated as those of the joined text;
* `Spoken.blockText_mono`, `Spoken.passages_mono` : blocks are narrated alike when containers may stand deeper;
* `Spoken.Says` : what the blocks of a text say, under budgets for reading and for flattening;
* `Spoken.Says.inset` : what a text says as the inside of lines of another;
* `Spoken.Says.extract` : what is narrated of a document.
-/

namespace Narration
open Markup

/-- A node with the lines of its place in a text, as have all blocks in it; none ends later than at an offset. -/
inductive Lined (scope : Scope) (bound : Nat) : Node → Prop
  | node {kind : Kind} {first stop : Nat} {children : List Node} (hfirst : first ≤ bound) (hstop : stop ≤ bound)
      (h : kind.holdsBlocks → ∀ c ∈ children, Lined scope bound c) : Lined scope bound (scope.node kind first stop children)

theorem Lined.placed {scope : Scope} {bound : Nat} {n : Node} (h : Lined scope bound n) (hscope : ∀ o, 1 ≤ scope.lineOf o) :
    Placed bound n := by
  induction h with
  | @node kind first stop children hfirst _ _ ih => exact Block.placed_node hscope hfirst stop ih

theorem Lined.mono {scope : Scope} {bound bound' : Nat} {n : Node} (h : Lined scope bound n) (hle : bound ≤ bound') :
    Lined scope bound' n := by
  induction h with
  | node hfirst hstop _ ih => exact .node (hfirst.trans hle) (hstop.trans hle) ih

namespace Markup.Block
open Fallible

variable {scope joined : Scope} {inner : Inner} {s : Stretch} {node : Node} {t : Text} {references : List Reference}
  {top : Bool} {ns : List Node} {parts : List Stretch} {up bound bound' : Nat}

theorem place_node (scope joined : Scope) (parts : List Stretch) (kind : Kind) (first stop : Nat) (children : List Node) :
    place scope joined parts (joined.node kind first stop children) =
      scope.node (outerKind joined parts kind) (outerOffset joined parts first)
        (max (outerOffset joined parts first) (outerStop joined parts stop)) (placeAll scope joined parts children) := rfl

theorem holdsBlocks_outerKind (joined : Scope) (parts : List Stretch) (kind : Kind) :
    (outerKind joined parts kind).holdsBlocks = kind.holdsBlocks := by cases kind <;> rfl

/-! ## The blocks of a text -/

theorem lined_place (h : Lined joined bound node) (hfirst : ∀ o ≤ bound, outerOffset joined parts o ≤ bound')
    (hstop : ∀ o ≤ bound, outerStop joined parts o ≤ bound') : Lined scope bound' (place scope joined parts node) := by
  induction h with
  | @node kind first stop children hfirst' hstop' _ ih =>
    rw [place_node, placeAll_eq_map]
    refine .node (hfirst first hfirst') (Nat.max_le.2 ⟨hfirst first hfirst', hstop stop hstop'⟩) fun hholds => ?_
    rw [holdsBlocks_outerKind] at hholds
    exact List.forall_mem_map.2 fun c hc => ih hholds c hc

/-- A block has the lines of its place when those read from pieces of lines do. -/
theorem Bounded.lined (hparts : ∀ ns, FromPieces t inner bound ns → ∀ n ∈ ns, Lined scope bound n)
    (h : Bounded t scope inner bound node) : Lined scope bound node := by
  obtain ⟨kind, first, last, children, rfl, hfirst, hlast, hholds⟩ := h
  refine .node hfirst hlast fun hkind => ?_
  cases kind with
  | quote => exact hparts children hholds
  | list ordered =>
    intro c hc
    obtain ⟨first, last, cs, rfl, hfirst, hlast, hcs⟩ := hholds c hc
    exact .node hfirst hlast fun _ => hparts cs hcs
  | listItem => cases hholds
  | _ => cases hkind

theorem lined_of_fromPieces {budget : Nat} (hread : ∀ u ns, readAll budget false (Scope.ofText u scope.references) ⟨0, u⟩ = .ok ns →
    ∀ n ∈ ns, Lined (Scope.ofText u scope.references) u.length n) (h : FromPieces t (innerOf budget scope) bound ns) :
    ∀ n ∈ ns, Lined scope bound n := by
  obtain ⟨parts, hpieces, hstops, hparts⟩ := h
  change readParts (readAll budget false) scope parts = .ok ns at hparts
  unfold readParts at hparts
  split at hparts
  · cases hparts
    exact nofun
  · next hne =>
    have hne : parts ≠ [] := by simpa using hne
    obtain ⟨ms, hms, hplace⟩ := bind_eq_ok.1 hparts
    rw [← pure_eq_ok.1 hplace, placeAll_eq_map]
    have hlined := hread _ _ hms
    refine List.forall_mem_map.2 fun n hn => lined_place (hlined n hn) (fun o ho => ?_) fun o ho => ?_
    · exact outerOffset_le (s := ⟨bound, []⟩) hne (fun p hp => ⟨hpieces.line p hp, hstops p hp⟩) ho
    · exact outerStop_le (s := ⟨bound, []⟩) hpieces hne hstops ho

/-- The blocks of a text have the lines of their places. -/
theorem Reads.lined {budget : Nat} (h : Reads scope (innerOf budget scope) top s ns) : ∀ n ∈ ns, Lined scope s.stop n := by
  induction budget using Nat.strongRecOn generalizing scope top s ns with
  | _ budget ih =>
    refine h.forall_mem_of (Q := fun s' => s'.stop = s.stop) rfl (fun s' n hs' => (s'.stop_drop n).trans hs')
      fun s' node stop hs' hne hblank hstranded hnext => ?_
    obtain ⟨t, hin⟩ := exists_in s'
    have hlined : Lined scope stop node := (next_bounded hin hne hblank hstranded hnext).lined fun ns =>
      lined_of_fromPieces fun u ns hns => by
        obtain ⟨b, rfl, hreads⟩ := exists_reads hns
        have hstop : (⟨0, u⟩ : Stretch).stop = u.length := Nat.zero_add _
        rw [← hstop]
        exact ih b (by omega) hreads
    exact hlined.mono ((next_le hnext).trans hs'.le)

/-- A block has the lines of its place, and ends where reading goes on. -/
theorem next_lined {budget stop : Nat} (hs : s.chars ≠ []) (hblank : s.lineBlank = false) (hstranded : ¬Stranded s.line.chars)
    (h : next scope (innerOf budget scope) top s = .ok (node, stop)) : Lined scope stop node := by
  obtain ⟨t, hin⟩ := exists_in s
  refine (next_bounded hin hs hblank hstranded h).lined fun ns => lined_of_fromPieces fun u ns hns => ?_
  obtain ⟨b, rfl, hreads⟩ := exists_reads hns
  have hlined := hreads.lined
  rwa [show (⟨0, u⟩ : Stretch).stop = u.length from Nat.zero_add _] at hlined

/-! ## Lines of pieces -/

/-- Places of pieces of lines stand in a document so many lines further down as in the joined text. -/
def Descends (scope joined : Scope) (parts : List Stretch) (bound up : Nat) : Prop :=
  ∀ o ≤ bound, scope.lineOf (outerOffset joined parts o) = joined.lineOf o + up

theorem lineOf_max (scope : Scope) (a b : Nat) : scope.lineOf (max a b) = max (scope.lineOf a) (scope.lineOf b) :=
  Monotone.map_max (f := scope.lineOf) fun _ _ => scope.lineOf_mono

variable {first stop : Nat}

/-- The last line of a node of pieces of lines. -/
theorem Descends.endLine (h : Descends scope joined parts bound up) (hfirst : first ≤ bound) (hstop : stop ≤ bound) :
    (scope.position (outerOffset joined parts first) (max (outerOffset joined parts first) (outerStop joined parts stop))).endLine =
      (joined.position first stop).endLine + up := by
  have hstart := h first hfirst
  simp only [Scope.position, lineOf_max, hstart]
  by_cases hzero : stop = 0
  · -- the end of an empty node comes before the place at which it begins
    have hle : scope.lineOf (max (outerOffset joined parts first) (outerStop joined parts stop) - 1) ≤ joined.lineOf first + up := by
      have hfront := h 0 (Nat.zero_le _)
      have hmono := joined.lineOf_mono (Nat.zero_le first)
      refine Nat.le_trans (scope.lineOf_mono (Nat.sub_le _ 1)) ?_
      rw [lineOf_max, hstart, outerStop, if_pos hzero, hfront]
      omega
    have hstop' := joined.lineOf_mono (show stop - 1 ≤ first by omega)
    omega
  · rw [outerStop, if_neg hzero]
    have hlast := h (stop - 1) (by omega)
    have hmax : max (outerOffset joined parts first) (max (outerOffset joined parts first) (outerOffset joined parts (stop - 1) + 1) - 1) =
        max (outerOffset joined parts first) (outerOffset joined parts (stop - 1)) := by omega
    have hline := congrArg scope.lineOf hmax
    rw [lineOf_max, lineOf_max, hstart, hlast] at hline
    omega

/-- Pieces that stand on the lines of a text one below the other, the first of them below `n` lines. -/
def Rows (t : Text) (n : Nat) (parts : List Stretch) : Prop :=
  ∀ A p B, parts = A ++ p :: B → ∃ x y, t = x ++ p.chars ++ y ∧ x.length = p.start ∧ x.count '\n' = n + A.length

theorem rows_nil (t : Text) (n : Nat) : Rows t n [] := fun A p B h => by simp at h

theorem Rows.cons {n : Nat} {p : Stretch} {x y : Text} (h : Rows t (n + 1) parts) (ht : t = x ++ p.chars ++ y)
    (hstart : x.length = p.start) (hcount : x.count '\n' = n) : Rows t n (p :: parts) := by
  intro A q B hparts
  cases A with
  | nil =>
    obtain ⟨rfl, -⟩ := List.cons.inj hparts
    exact ⟨x, y, ht, hstart, hcount⟩
  | cons a A =>
    obtain ⟨x, y, ht, hstart, hcount⟩ := h A q B (List.cons.inj hparts).2
    exact ⟨x, y, ht, hstart, by rw [hcount, List.length_cons]; omega⟩

/-- Places in such pieces stand below as many lines. -/
theorem Rows.descends {n : Nat} (h : Rows t n parts) (hline : ∀ p ∈ parts, '\n' ∉ p.chars) (hparts : parts ≠ [])
    (references references' : List Reference) : Descends (Scope.ofText t references)
      (Scope.ofText (joinedText parts) references') parts (joinedText parts).length n := by
  intro o ho
  obtain ⟨A, p, B, u, v, rfl, hp, rfl⟩ := exists_part hparts ho
  obtain ⟨x, y, rfl, hstart, hcount⟩ := h A p B rfl
  have hu : '\n' ∉ u := fun hc => hline p (by simp) (hp ▸ List.mem_append_left v hc)
  have htext : x ++ p.chars ++ y = x ++ u ++ (v ++ y) := by
    rw [hp]
    simp only [List.append_assoc]
  rw [lineOf_joined hline hp, outerOffset_joined hline hp, ← hstart, ← List.length_append, htext, Scope.lineOf_length,
    List.count_append, hcount, List.count_eq_zero_of_not_mem hu]
  omega

/-- The lines below the first. -/
theorem afterLine_unlines {l : Text} (hl : '\n' ∉ l) (a : Nat) (ls : List Text) :
    ∃ b, (⟨a, Text.unlines (l :: ls)⟩ : Stretch).afterLine = ⟨b, Text.unlines ls⟩ ∧ (ls ≠ [] → b = a + (l.length + 1)) ∧
      b + (Text.unlines ls).length = a + (Text.unlines (l :: ls)).length := by
  cases ls with
  | nil =>
    rw [Text.unlines_singleton, Stretch.afterLine_mk_last hl]
    exact ⟨_, rfl, fun h => absurd rfl h, rfl⟩
  | cons k ls =>
    rw [Text.unlines_cons_cons, Stretch.afterLine_mk hl]
    refine ⟨_, rfl, fun _ => rfl, ?_⟩
    rw [List.length_append, List.length_cons]
    omega

/-- Lines one below the other, the first of which begins at `a`, without the two characters in front of each. -/
def inset : (a : Nat) → List Text → List Stretch
  | _, [] => []
  | a, l :: ls => ⟨a + 2, l.drop 2⟩ :: inset (a + (l.length + 1)) ls

theorem map_chars_inset (a : Nat) (ls : List Text) : (inset a ls).map Stretch.chars = ls.map (·.drop 2) := by
  induction ls generalizing a with
  | nil => rfl
  | cons l ls ih => rw [inset, List.map_cons, List.map_cons, ih]

theorem inset_congr {a b : Nat} {ls : List Text} (h : ls ≠ [] → a = b) : inset a ls = inset b ls := by
  cases ls with
  | nil => rfl
  | cons l ls => rw [h (by simp)]

section Inset
variable {ls : List Text} (hls : ∀ l ∈ ls, '\n' ∉ l ∧ 2 ≤ l.length)
include hls

theorem rows_inset (x : Text) {y z : Text} (hy : y = x ++ Text.unlines ls ++ z) : Rows y (x.count '\n') (inset x.length ls) := by
  induction ls generalizing x with
  | nil => exact rows_nil _ _
  | cons l ls ih =>
    obtain ⟨⟨hl, htwo⟩, hls⟩ := List.forall_mem_cons.1 hls
    rw [Text.unlines_cons_eq] at hy
    rw [inset]
    have hfront : '\n' ∉ l.take 2 := fun h => hl (List.mem_of_mem_take h)
    refine Rows.cons (x := x ++ l.take 2) (y := Text.led ls ++ z) ?_ ?_ ?_ ?_
    · cases ls with
      | nil => exact rows_nil _ _
      | cons k ls =>
        have hrows := ih hls (x ++ l ++ ['\n']) (by rw [hy, Text.led_eq (by simp)]; simp)
        have hcount : (x ++ l ++ ['\n']).count '\n' = x.count '\n' + 1 := by
          rw [List.count_append, List.count_append, List.count_eq_zero_of_not_mem hl]
          rfl
        rwa [hcount, List.length_append, List.length_append, Nat.add_assoc] at hrows
    · have hparts : x ++ l.take 2 ++ l.drop 2 = x ++ l := by rw [List.append_assoc, List.take_append_drop]
      rw [hy, hparts]
      simp only [List.append_assoc]
    · rw [List.length_append, List.length_take_of_le htwo]
    · rw [List.count_append, List.count_eq_zero_of_not_mem hfront, Nat.add_zero]

/-- Places in the lines without the characters in front of them stand further down by the lines above. -/
theorem descends_inset (hne : ls ≠ []) (x z : Text) (references references' : List Reference) :
    Descends (Scope.ofText (x ++ Text.unlines ls ++ z) references) (Scope.ofText (Text.unlines (ls.map (·.drop 2))) references')
      (inset x.length ls) (Text.unlines (ls.map (·.drop 2))).length (x.count '\n') := by
  have hparts : inset x.length ls ≠ [] := by
    have hmap := map_chars_inset x.length ls
    intro hnil
    rw [hnil, List.map_nil] at hmap
    exact hne (List.map_eq_nil_iff.1 hmap.symm)
  have hline : ∀ p ∈ inset x.length ls, '\n' ∉ p.chars := by
    have hdrop : ∀ k ∈ ls.map (·.drop 2), '\n' ∉ k :=
      List.forall_mem_map.2 fun l hl hmem => (hls l hl).1 (List.mem_of_mem_drop hmem)
    intro p hp
    refine hdrop _ ?_
    rw [← map_chars_inset x.length ls]
    exact List.mem_map_of_mem hp
  have hdescends := (rows_inset hls x (z := z) rfl).descends hline hparts references references'
  rwa [joinedText, map_chars_inset] at hdescends

end Inset

end Markup.Block

/-! ## What is narrated -/

namespace Spoken
open Markup.Block (place placeAll Descends place_node placeAll_eq_map outerKind)
open Node (outline outlineAll)

variable {scope joined : Scope} {parts : List Stretch} {up bound : Nat}

mutual

/-- Apart from places nothing changes when a node is placed. -/
theorem outline_place (p : Position) : (n : Node) → (place scope joined parts n).outline (fun _ => p) = n.outline fun _ => p
  | .mk kind children position => by
    rw [place, outline, outline, Block.bare_times_outerKind, outlineAll_placeAll p children, Option.map_map]
    rfl

theorem outlineAll_placeAll (p : Position) : (ns : List Node) →
    outlineAll (fun _ => p) (placeAll scope joined parts ns) = outlineAll (fun _ => p) ns
  | [] => rfl
  | n :: ns => by rw [placeAll, outlineAll, outlineAll, outline_place p n, outlineAll_placeAll p ns]

end

theorem inlineTexts_placeAll (scope joined : Scope) (parts : List Stretch) (ns : List Node) :
    inlineTexts (placeAll scope joined parts ns) = inlineTexts ns := by
  rw [← inlineTexts_outlineAll (fun _ => default), outlineAll_placeAll, inlineTexts_outlineAll]

theorem tableText_placeAll (scope joined : Scope) (parts : List Stretch) (ns : List Node) :
    tableText (placeAll scope joined parts ns) = tableText ns := by
  rw [← tableText_outlineAll (fun _ => default), outlineAll_placeAll, tableText_outlineAll]

/-- A node of pieces of lines stands further down. -/
theorem view_place (h : Descends scope joined parts bound up) (hscope : ∀ o, 1 ≤ joined.lineOf o) {n : Node}
    (hn : Lined joined bound n) : ∃ p p', n.position = some p ∧ (place scope joined parts n).position = some p' ∧
      Looks (.below up) bound p p' := by
  cases hn with
  | @node kind first stop children hfirst hstop _ =>
    refine ⟨_, scope.position (Block.outerOffset joined parts first)
      (max (Block.outerOffset joined parts first) (Block.outerStop joined parts stop)), rfl, rfl,
      ⟨rfl, hscope _, hscope _, hfirst⟩, ?_⟩
    have hend := h.endLine hfirst hstop
    have hstart := h first hfirst
    simp only [Position.Views.below, Position.outline]
    rw [if_pos (by rfl), if_pos (by rfl)]
    simp only [Position.mk.injEq, and_true]
    refine ⟨?_, ?_⟩
    · simp only [Scope.position, hstart]
      omega
    · rw [hend]
      omega

mutual

/-- A block of pieces of lines is narrated as that of the joined text. -/
theorem blockText_place (h : Descends scope joined parts bound up) (hscope : ∀ o, 1 ≤ joined.lineOf o) (budget : Nat) :
    (n : Node) → Lined joined bound n → blockText (place scope joined parts n) budget = blockText n budget
  | .mk kind children position, hlined => by
    have hchildren : kind.holdsBlocks → ∀ c ∈ children, Lined joined bound c := by
      cases hlined with
      | node _ _ h => exact h
    rw [place, ← blockText_bare _ _ position, Block.bare_times_outerKind, blockText_bare kind _ position position]
    exact blockText_of_children (keepsGaps_below up bound) (inlineTexts_placeAll scope joined parts children)
      (tableText_placeAll scope joined parts children)
      (fun hholds => passages_place h hscope (budget - 2) children (hchildren hholds)) _ _

theorem passages_place (h : Descends scope joined parts bound up) (hscope : ∀ o, 1 ≤ joined.lineOf o) (budget : Nat) :
    (ns : List Node) → (∀ n ∈ ns, Lined joined bound n) →
    Option.Rel (List.Forall₂ (PassageSame (Looks (.below up) bound))) (passages ns budget) (passages (placeAll scope joined parts ns) budget)
  | [], _ => .some .nil
  | n :: ns, hlined => by
    rw [List.forall_mem_cons] at hlined
    exact passages_cons ⟨blockText_place h hscope budget n hlined.1, fun _ => view_place h hscope hlined.1⟩
      (passages_place h hscope budget ns hlined.2)

end

/-- Blocks of pieces of lines are narrated together as those of the joined text. -/
theorem joinBlocks_place (h : Descends scope joined parts bound up) (hscope : ∀ o, 1 ≤ joined.lineOf o) (budget : Nat)
    {ns : List Node} (hlined : ∀ n ∈ ns, Lined joined bound n) :
    (passages (placeAll scope joined parts ns) budget).map joinBlocks = (passages ns budget).map joinBlocks :=
  map_eq_of_rel (passages_place h hscope budget ns hlined) fun _ _ => joinBlocks_same (keepsGaps_below up bound)

end Spoken
end Narration

/-! ## What blocks say -/

namespace Narration.Spoken
open Markup Fallible
open Markup.Block (readAll readParts inset)

variable {d t : Text} {b f : Nat} {top : Bool}

mutual

/-- A block is narrated alike when containers may stand deeper inside each other. -/
theorem blockText_mono (k : Nat) {budget : Nat} {text : Text} : (n : Node) → blockText n budget = some text →
    blockText n (budget + k) = some text
  | .mk kind children position, h => by
    have hblocks (hbudget : ¬budget < 2) {ps : List Passage} (hps : passages children (budget - 2) = some ps) :
        passages children (budget + k - 2) = some ps := by
      have hsum : budget + k - 2 = budget - 2 + k := by omega
      rw [hsum]
      exact passages_mono k children hps
    cases kind with
    | list | listItem | quote =>
      simp only [blockText] at h ⊢
      split at h
      · cases h
      · next hbudget =>
        obtain ⟨ps, hps, htext⟩ := Option.map_eq_some_iff.1 h
        rw [if_neg (by omega), hblocks hbudget hps, Option.map_some, htext]
    | _ => simpa only [blockText] using h

theorem passages_mono (k : Nat) {budget : Nat} {ps : List Passage} : (ns : List Node) → passages ns budget = some ps →
    passages ns (budget + k) = some ps
  | [], h => h
  | n :: ns, h => by
    rw [passages] at h ⊢
    obtain ⟨text, htext, h⟩ := Option.bind_eq_some_iff.1 h
    obtain ⟨qs, hqs, h⟩ := Option.bind_eq_some_iff.1 h
    exact Option.bind_eq_some_iff.2 ⟨text, blockText_mono k n htext, Option.bind_eq_some_iff.2 ⟨qs, passages_mono k ns hqs, h⟩⟩

end

/-- What the blocks of a text without link definitions say, under budgets for reading and for flattening. -/
def Says (b f : Nat) (top : Bool) (t text : Text) : Prop :=
  ∃ ns ps, readAll b top (Scope.ofText t []) ⟨0, t⟩ = .ok ns ∧ passages ns f = some ps ∧ joinBlocks ps = text

theorem joinBlocks_singleton (text : Text) (position : Option Position) : joinBlocks [(text, position)] = text := by
  cases text with
  | nil => rfl
  | cons c text => exact List.append_nil (c :: text)

/-- The inside of lines of a document says what it says as a text of its own. -/
theorem Says.inset {ls : List Text} {text : Text} (h : Says b f false (Text.unlines (ls.map (·.drop 2))) text)
    (hls : ∀ l ∈ ls, '\n' ∉ l ∧ 2 ≤ l.length) (hne : ls ≠ []) (x z : Text) :
    ∃ ns ps, readParts (readAll b false) (Scope.ofText (x ++ Text.unlines ls ++ z) []) (Block.inset x.length ls) = .ok ns ∧
      passages ns f = some ps ∧ joinBlocks ps = text := by
  obtain ⟨ns, ps, hns, hps, rfl⟩ := h
  obtain ⟨c, rfl, hreads⟩ := Block.exists_reads hns
  have hparts : Block.inset x.length ls ≠ [] := by
    cases ls with
    | nil => exact absurd rfl hne
    | cons l ls => exact List.cons_ne_nil _ _
  have hlined := hreads.lined
  have hstop : (⟨0, Text.unlines (ls.map (·.drop 2))⟩ : Stretch).stop = (Text.unlines (ls.map (·.drop 2))).length := Nat.zero_add _
  rw [hstop] at hlined
  have hsame := joinBlocks_place (Block.descends_inset hls hne x z [] []) (Scope.one_le_lineOf _ []) f hlined
  rw [hps, Option.map_some] at hsame
  obtain ⟨qs, hqs, hjoin⟩ := Option.map_eq_some_iff.1 hsame
  refine ⟨_, qs, ?_, hqs, hjoin⟩
  rw [readParts, if_neg (by simpa using hparts), Block.map_chars_inset]
  exact bind_eq_ok.2 ⟨ns, hns, rfl⟩

/-- What is narrated of a document that begins with no front matter and defines no links. -/
theorem Says.extract {text : Text} (h : Says Tree.nestingBudget flatteningBudget true d text) (hr : '\r' ∉ d)
    (hfront : Block.frontMatter? d = none) (hnone : Reference.collect d = []) : Spoken.extract d = pure (cleanUp text) := by
  obtain ⟨ns, ps, hns, hps, rfl⟩ := h
  have hread : Tree.read d = .ok ((Scope.ofText d []).node .root 0 d.length ns) := by
    rw [Tree.read, hnone, Tree.blocks, hfront]
    exact bind_eq_ok.2 ⟨ns, hns, rfl⟩
  have hflat : flatten? ((Scope.ofText d []).node .root 0 d.length ns) = some (joinBlocks ps) := by
    change (passages ns flatteningBudget).map joinBlocks = _
    rw [hps, Option.map_some]
  exact extract_of_read hr hread hflat

end Narration.Spoken
