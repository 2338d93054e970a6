import Narration.Proofs.Markup.Place
import Narration.Proofs.Text.Lines

/-!
# Pieces of lines joined, and where blocks stand

* `joinedText` : the text that pieces of lines make together;
* `exists_part`, `lineOf_joined`, `outerOffset_joined` : places in that text, their lines, and where they stand in the
  document;
* `Placed` : a block that stands once in its content, and whose blocks do too;
* `Block.walk_place` : the nodes below one that is placed;
* `Block.outerOffset_le` : places in pieces of lines;
* `Block.Reads.placed` : all blocks of a text are placed;
* `Position.Single.below` : the lines of a block further down.
-/

/-! ## Pieces joined -/

namespace Narration.Markup
open Block (outerOffset)

/-- Pieces with a line end behind each. -/
def stacked (parts : List Stretch) : Text := parts.flatMap fun p => p.chars ++ ['\n']

/-- The text that pieces make together. -/
abbrev joinedText (parts : List Stretch) : Text := Text.unlines (parts.map Stretch.chars)

variable {parts A B : List Stretch} {p : Stretch} {u v w : Text} {references : List Reference}

theorem stacked_cons (p : Stretch) (A : List Stretch) : stacked (p :: A) = p.chars ++ '\n' :: stacked A := by
  rw [stacked, List.flatMap_cons, List.append_assoc]
  rfl

theorem joinedText_append (A B : List Stretch) (p : Stretch) :
    joinedText (A ++ p :: B) = stacked A ++ p.chars ++ Text.led (B.map Stretch.chars) := by
  induction A with
  | nil => exact Text.unlines_cons_eq _ _
  | cons a A ih =>
    rw [joinedText, List.cons_append, List.map_cons, Text.unlines_cons _ (by simp), stacked_cons, ← joinedText, ih]
    simp only [List.append_assoc, List.cons_append]

theorem count_stacked (h : ∀ p ∈ A, '\n' ∉ p.chars) : (stacked A).count '\n' = A.length := by
  induction A with
  | nil => rfl
  | cons a A ih =>
    obtain ⟨ha, hA⟩ := List.forall_mem_cons.1 h
    rw [stacked_cons, List.count_append, List.count_cons_self, List.count_eq_zero_of_not_mem ha, ih hA, List.length_cons,
      Nat.zero_add]

/-- The line behind some pieces starts where they end. -/
theorem lineStart_stacked (h : ∀ p ∈ A, '\n' ∉ p.chars) (o : Nat) (w : Text) :
    (o :: lineStartsAfter o (stacked A ++ w))[A.length]? = some (o + (stacked A).length) := by
  induction A generalizing o with
  | nil => rfl
  | cons a A ih =>
    obtain ⟨ha, hA⟩ := List.forall_mem_cons.1 h
    have hnone : lineStartsAfter o a.chars = [] := by
      rw [← List.length_eq_zero_iff, length_lineStartsAfter, List.count_eq_zero_of_not_mem ha]
    rw [stacked_cons, List.append_assoc, lineStartsAfter_append, hnone, List.nil_append, List.cons_append, lineStartsAfter,
      if_pos rfl, List.length_cons, List.getElem?_cons_succ, ih hA, List.length_append, List.length_cons]
    congr 1
    omega

/-- The line of a place in one of the pieces. -/
theorem lineOf_joined (hline : ∀ q ∈ A ++ p :: B, '\n' ∉ q.chars) (hp : p.chars = u ++ v) :
    (Scope.ofText (joinedText (A ++ p :: B)) references).lineOf (stacked A ++ u).length = A.length + 1 := by
  have hA : ∀ q ∈ A, '\n' ∉ q.chars := fun q hq => hline q (List.mem_append_left _ hq)
  have hu : '\n' ∉ u := fun hc => hline p (by simp) (hp ▸ List.mem_append_left v hc)
  have htext : joinedText (A ++ p :: B) = stacked A ++ u ++ (v ++ Text.led (B.map Stretch.chars)) := by
    rw [joinedText_append, hp]
    simp only [List.append_assoc]
  rw [htext, Scope.lineOf_length, List.count_append, count_stacked hA, List.count_eq_zero_of_not_mem hu, Nat.add_zero]

/-- The way of a place in one of the pieces. -/
theorem outerOffset_joined (hline : ∀ q ∈ A ++ p :: B, '\n' ∉ q.chars) (hp : p.chars = u ++ v) :
    outerOffset (Scope.ofText (joinedText (A ++ p :: B)) references) (A ++ p :: B) (stacked A ++ u).length =
      p.start + u.length := by
  have hA : ∀ q ∈ A, '\n' ∉ q.chars := fun q hq => hline q (List.mem_append_left _ hq)
  have hstart : (Scope.ofText (joinedText (A ++ p :: B)) references).lineStarts.getD A.length 0 = (stacked A).length := by
    have hget := lineStart_stacked hA 0 (p.chars ++ Text.led (B.map Stretch.chars))
    rw [List.getD_eq_getElem?_getD, Scope.ofText, joinedText_append, List.append_assoc, hget, Nat.zero_add]
    rfl
  have hindex : min (A.length + 1 - 1) ((A ++ p :: B).length - 1) = A.length := by
    rw [List.length_append, List.length_cons]
    omega
  have hget : (A ++ p :: B)[A.length]? = some p := by
    rw [List.getElem?_append_right (Nat.le_refl _), Nat.sub_self, List.getElem?_cons_zero]
  rw [outerOffset, lineOf_joined hline hp, hindex, hget, hstart, List.length_append, Nat.add_sub_cancel_left]
  rfl

/-- Every place of the joined pieces is one of a piece. -/
theorem exists_part {i : Nat} (hparts : parts ≠ []) (hi : i ≤ (joinedText parts).length) :
    ∃ A p B u v, parts = A ++ p :: B ∧ p.chars = u ++ v ∧ i = (stacked A ++ u).length := by
  induction parts generalizing i with
  | nil => exact absurd rfl hparts
  | cons p rest ih =>
    by_cases hp : i ≤ p.chars.length
    · exact ⟨[], p, rest, p.chars.take i, p.chars.drop i, rfl, (List.take_append_drop i _).symm,
        (List.length_take_of_le hp).symm⟩
    · have hrest : rest ≠ [] := by
        rintro rfl
        rw [joinedText, List.map_singleton, Text.unlines_singleton] at hi
        exact hp hi
      rw [joinedText, List.map_cons, Text.unlines_cons _ (by simpa using hrest), List.length_append, List.length_cons] at hi
      obtain ⟨A, q, B, u, v, rfl, hq, hlength⟩ := ih hrest (i := i - (p.chars.length + 1)) (by rw [joinedText]; omega)
      refine ⟨p :: A, q, B, u, v, rfl, hq, ?_⟩
      rw [stacked_cons, List.append_assoc, List.cons_append, List.length_append, List.length_cons]
      omega

end Narration.Markup

/-! ## Where blocks stand -/

namespace Narration

/-- A position that stands in its content once, on lines counted from one, and begins no later than at an offset. -/
structure Position.Single (bound : Nat) (p : Position) : Prop where
  copies : p.copies = 1
  startLine : 1 ≤ p.startLine
  endLine : 1 ≤ p.endLine
  start_le : p.start ≤ bound

/-- Whether a kind holds blocks that are narrated. -/
def Kind.holdsBlocks : Kind → Bool
  | .list _ | .listItem | .quote => true
  | _ => false

/-- A node with a position of its own, as have all blocks in it; none begins later than at an offset. -/
inductive Placed (bound : Nat) : Node → Prop
  | mk {kind : Kind} {children : List Node} {p : Position} (hp : p.Single bound)
      (h : kind.holdsBlocks → ∀ c ∈ children, Placed bound c) : Placed bound (.mk kind children (some p))

namespace Markup

theorem Scope.one_le_lineOf (t : Text) (references : List Reference) (o : Nat) : 1 ≤ (ofText t references).lineOf o := by
  rw [lineOf, ofText, List.countP_cons, if_pos (by simp)]
  exact Nat.le_add_left 1 _

namespace Block
open Fallible

variable {scope : Scope} {inner : Inner} {s : Stretch} {node : Node} {t : Text} {references : List Reference}
  {top : Bool} {ns : List Node} {parts : List Stretch} {bound : Nat}

theorem placed_node (hscope : ∀ o, 1 ≤ scope.lineOf o) {kind : Kind} {children : List Node} {first : Nat}
    (hfirst : first ≤ bound) (stop : Nat) (h : kind.holdsBlocks → ∀ c ∈ children, Placed bound c) :
    Placed bound (scope.node kind first stop children) :=
  .mk ⟨rfl, hscope _, hscope _, hfirst⟩ h

/-- A block is placed when those read from pieces of lines are. -/
theorem Made.placed (hscope : ∀ o, 1 ≤ scope.lineOf o) (hparts : ∀ ns, FromParts inner s ns → ∀ n ∈ ns, Placed s.stop n)
    (h : Made scope inner s node) : Placed s.stop node := by
  obtain ⟨kind, first, stop, children, rfl, hfirst, hholds⟩ := h
  have hle : first ≤ s.stop := (hfirst.2.trans s.trimStart.start_le_stop).trans (s.stop_drop _).le
  refine placed_node hscope hle stop fun hkind => ?_
  cases kind with
  | quote => exact hparts children hholds
  | list ordered =>
    intro c hc
    obtain ⟨first, stop, cs, rfl, hfirst, hcs⟩ := hholds c hc
    exact placed_node hscope hfirst stop fun _ => hparts cs hcs
  | listItem => cases hholds
  | _ => cases hkind

theorem placeAll_eq_map {joined : Scope} (ns : List Node) : placeAll scope joined parts ns = ns.map (place scope joined parts) := by
  induction ns with
  | nil => rfl
  | cons n ns ih => rw [placeAll, ih, List.map_cons]

mutual

theorem walk_place (scope joined : Scope) (parts : List Stretch) : (n : Node) →
    (place scope joined parts n).walk = n.walk.map (place scope joined parts)
  | .mk kind children position => by
    rw [place, Node.walk, Node.walk, walkAll_placeAll scope joined parts children, List.map_cons, place]

theorem walkAll_placeAll (scope joined : Scope) (parts : List Stretch) : (ns : List Node) →
    Node.walkAll (placeAll scope joined parts ns) = (Node.walkAll ns).map (place scope joined parts)
  | [] => rfl
  | n :: ns => by
    rw [placeAll, Node.walkAll, Node.walkAll, walk_place scope joined parts n, walkAll_placeAll scope joined parts ns, List.map_append]

end

/-- A place in pieces of lines lies within one of them. -/
theorem outerOffset_le (hparts : parts ≠ []) (h : ∀ p ∈ parts, IsPiece s p) {i : Nat} (hi : i ≤ (joinedText parts).length) :
    outerOffset (Scope.ofText (joinedText parts) references) parts i ≤ s.stop := by
  obtain ⟨A, p, B, u, v, rfl, hp, rfl⟩ := exists_part hparts hi
  rw [outerOffset_joined (fun q hq => (h q hq).line) hp]
  refine Nat.le_trans (Nat.add_le_add_left ?_ p.start) (h p (by simp)).stop_le
  rw [hp, List.length_append]
  exact Nat.le_add_right _ _

/-- A block of pieces of lines is placed in the document too. -/
theorem placed_place {joined : Scope} (hscope : ∀ o, 1 ≤ scope.lineOf o) {n : Node} {inside : Nat} (h : Placed inside n)
    (hle : ∀ i ≤ inside, outerOffset joined parts i ≤ bound) : Placed bound (place scope joined parts n) := by
  induction h with
  | @mk kind children p hp _ ih =>
    have hposition : (outerPosition scope joined parts p).Single bound :=
      ⟨hp.copies, hscope _, hscope _, hle _ hp.start_le⟩
    have hkind : (outerKind joined parts kind).holdsBlocks = kind.holdsBlocks := by
      cases kind <;> rfl
    have hplace : place scope joined parts (.mk kind children (some p)) = .mk (outerKind joined parts kind)
        (placeAll scope joined parts children) (some (outerPosition scope joined parts p)) := by
      rw [place]
      simp only [Option.elim_some, hp.copies, times, Option.map_some]
    rw [hplace, placeAll_eq_map]
    refine .mk hposition fun hholds => ?_
    rw [hkind] at hholds
    exact List.forall_mem_map.2 fun c hc => ih hholds c hc

theorem placed_of_fromParts {budget : Nat} (hscope : ∀ o, 1 ≤ scope.lineOf o)
    (hread : ∀ t ns, readAll budget false (Scope.ofText t scope.references) ⟨0, t⟩ = .ok ns → ∀ n ∈ ns, Placed t.length n)
    (h : FromParts (innerOf budget scope) s ns) : ∀ n ∈ ns, Placed s.stop n := by
  obtain ⟨parts, hpieces, hparts⟩ := h
  change readParts (readAll budget false) scope parts = .ok ns at hparts
  unfold readParts at hparts
  split at hparts
  · cases hparts
    exact nofun
  · next hne =>
    obtain ⟨ms, hms, hplace⟩ := bind_eq_ok.1 hparts
    rw [← pure_eq_ok.1 hplace, placeAll_eq_map]
    refine List.forall_mem_map.2 fun n hn => placed_place hscope (hread _ ms hms n hn) fun i hi => ?_
    exact outerOffset_le (by simpa using hne) hpieces hi

/-- The blocks of a text are placed. -/
theorem Reads.placed {budget : Nat} (h : Reads (Scope.ofText t references) (innerOf budget (Scope.ofText t references)) top s ns) :
    ∀ n ∈ ns, Placed s.stop n := by
  induction budget using Nat.strongRecOn generalizing t top s ns with
  | _ budget ih =>
    have hscope := Scope.one_le_lineOf t references
    refine h.forall_mem fun s' node stop hs' hnext => ?_
    rw [← hs']
    refine (next_made hnext).placed hscope fun ms hms => placed_of_fromParts hscope (fun u ns hns => ?_) hms
    obtain ⟨b, rfl, hreads⟩ := exists_reads hns
    have hstop : (⟨0, u⟩ : Stretch).stop = u.length := Nat.zero_add _
    rw [← hstop]
    exact ih b (by omega) hreads

end Block
end Markup

/-! ## Further down -/

variable {up bound : Nat} {p p' : Position}

theorem Position.Single.below (h : p.Single bound) (houtline : p'.outline up = p.outline 0) :
    p'.startLine = p.startLine + up ∧ p'.endLine = p.endLine + up := by
  obtain ⟨hcopies, hstart, hend, -⟩ := h
  rw [outline, outline, if_pos hcopies] at houtline
  split at houtline
  · simp only [mk.injEq] at houtline
    omega
  · next hne =>
    simp only [mk.injEq] at houtline
    exact absurd houtline.2.2.2.2 hne

end Narration
