import Narration.Proofs.Markup.Sequence

/-!
# Larger nesting budgets

* `Fallible.Extends` : a computation that gives what another one gives, unless that one fails in a certain way;
* `Content.read_extends` : inline content under a larger budget;
* `Block.readAll_extends` : blocks under a larger budget are the same, unless the smaller one is used up.
-/

namespace Narration

namespace Fallible

variable {ε α β : Type} {e : ε} {x x' : Except ε α} {f f' : α → Except ε β}

/-- The second computation gives what the first one gives, unless that fails with a certain error. -/
def Extends (e : ε) (x x' : Except ε α) : Prop := x ≠ .error e → x' = x

namespace Extends

theorem refl (x : Except ε α) : Extends e x x := fun _ => rfl

theorem error (x : Except ε α) : Extends e (.error e) x := fun h => absurd rfl h

theorem ite {c : Prop} [Decidable c] {y y' : Except ε α} (hx : Extends e x x') (hy : Extends e y y') :
    Extends e (if c then x else y) (if c then x' else y') := by
  split
  · exact hx
  · exact hy

theorem bind (hx : Extends e x x') (hf : ∀ a, Extends e (f a) (f' a)) : Extends e (x >>= f) (x' >>= f') := by
  intro h
  have hne : x ≠ .error e := by
    rintro rfl
    exact h rfl
  rw [hx hne]
  cases x with
  | error d => rfl
  | ok a => exact hf a h

theorem map {g : α → β} (hx : Extends e x x') : Extends e (x.map g) (x'.map g) := by
  intro h
  have hne : x ≠ .error e := by
    rintro rfl
    exact h rfl
  rw [hx hne]

theorem mapM {γ : Type} {g g' : γ → Except ε α} (l : List γ) (hg : ∀ c, Extends e (g c) (g' c)) :
    Extends e (l.mapM g) (l.mapM g') := by
  induction l with
  | nil => exact .refl _
  | cons c l ih =>
    rw [List.mapM_cons, List.mapM_cons]
    exact .bind (hg c) fun _ => .bind ih fun _ => .refl _

end Extends
end Fallible

namespace Markup
open Fallible

/-- A reader that makes the same of a text, unless the nesting budget of another one is used up. -/
abbrev Extends {α : Type} (x x' : Except Fault α) : Prop := Fallible.Extends .nestedTooDeeply x x'

/-! ## Inline content -/

namespace Inline

variable {s : Source} {alternative alternative' : Alternative} {inner inner' : Writing}

theorem writePiece_extends (ha : ∀ t, Extends (alternative t) (alternative' t))
    (hi : ∀ w i limit, Extends (inner w i limit) (inner' w i limit)) (w : Writer) (i limit : Nat) (piece : Piece) :
    Extends (writePiece s alternative inner w i limit piece) (writePiece s alternative' inner' w i limit piece) := by
  cases piece with
  | link target first last stop => exact .bind (hi _ _ _) fun _ => .refl _
  | image target first last stop => exact .bind (ha _) fun _ => .refl _
  | _ => exact .refl _

theorem writePieces_extends (ha : ∀ t, Extends (alternative t) (alternative' t))
    (hi : ∀ w i limit, Extends (inner w i limit) (inner' w i limit)) (skip : Source.Skipping) (limit fuel : Nat)
    (w : Writer) (i : Nat) : Extends (writePieces s alternative skip inner limit fuel w i)
      (writePieces s alternative' skip inner' limit fuel w i) := by
  induction fuel generalizing w i with
  | zero => exact .refl _
  | succ fuel ih =>
    unfold writePieces
    refine .ite ?_ (.refl _)
    split
    · exact .bind (writePiece_extends ha hi _ _ _ _) fun w => ih w _
    · exact ih _ _

theorem write_extends (ha : ∀ t, Extends (alternative t) (alternative' t)) (room : Nat) (w : Writer) (i limit : Nat) :
    Extends (write s alternative room w i limit) (write s alternative' room w i limit) := by
  induction room generalizing w i limit with
  | zero => exact .refl _
  | succ room ih => exact writePieces_extends ha ih _ _ _ _ _

theorem read_extends (references : List Reference) (k budget : Nat) (t : Text) :
    Extends (read references budget t) (read references (budget + k) t) := by
  induction budget using Nat.strongRecOn generalizing t with
  | _ budget ih =>
    match budget, ih with
    | budget + 3, ih =>
      rw [Nat.add_right_comm]
      exact .bind (write_extends (ih budget (by omega)) _ _ _ _) fun _ => .refl _
    | 0, _ | 1, _ | 2, _ => exact .error _

theorem tokens_extends (references : List Reference) (k budget : Nat) (t : Text) :
    Extends (tokens references budget t) (tokens references (budget + k) t) :=
  .bind (read_extends references k budget _) fun _ => .refl _

end Inline

namespace Content

variable {scope : Scope} {inner inner' : Stretch → Except Fault (List Node)} (hi : ∀ s, Extends (inner s) (inner' s))

section Lifting
include hi

theorem ofTag_extends (s : Stretch) (tag : Tag) : Extends (ofTag scope inner s tag) (ofTag scope inner' s tag) := by
  unfold ofTag
  split
  · exact .refl _
  · dsimp only
    split
    · exact .refl _
    · exact .bind (hi _) fun _ => .refl _

theorem front_extends (s : Stretch) : Extends (front scope inner s) (front scope inner' s) := by
  unfold front
  split
  · exact .refl _
  · exact .refl _
  · exact .refl _
  · split
    · exact .bind (ofTag_extends hi _ _) fun _ => .refl _
    · exact .refl _
  · exact .refl _

theorem lift_extends (fuel n : Nat) (s : Stretch) : Extends (lift scope inner fuel n s) (lift scope inner' fuel n s) := by
  induction fuel generalizing n s with
  | zero => exact .refl _
  | succ fuel ih =>
    unfold lift
    refine .ite (.refl _) (.bind (front_extends hi s) fun r => ?_)
    split
    · exact .bind (ih _ _) fun _ => .refl _
    · exact .bind (ih _ _) fun _ => .refl _

end Lifting

/-- Inline content under a larger budget. -/
theorem read_extends (scope : Scope) (k budget : Nat) (s : Stretch) :
    Extends (read scope budget s) (read scope (budget + k) s) := by
  induction budget using Nat.strongRecOn generalizing s with
  | _ budget ih =>
    match budget, ih with
    | budget + 2, ih =>
      rw [Nat.add_right_comm]
      exact .bind (lift_extends (ih budget (by omega)) _ _ _) fun _ =>
        .bind (Inline.tokens_extends scope.references k budget _) fun _ => .refl _
    | 0, _ | 1, _ => exact .error _

end Content

/-! ## Blocks -/

namespace Block

/-- Readers of the insides of containers that make the same of them, unless the nesting budget of others is used up. -/
structure Inner.Extends (inner inner' : Inner) : Prop where
  content : ∀ s, Markup.Extends (inner.content s) (inner'.content s)
  blocks : ∀ s, Markup.Extends (inner.blocks s) (inner'.blocks s)
  parts : ∀ parts, Markup.Extends (inner.parts parts) (inner'.parts parts)

variable {scope : Scope} {inner inner' : Inner} (h : inner.Extends inner') (s : Stretch)
include h

theorem component?_extends : Extends (component? scope inner s) (component? scope inner' s) := by
  unfold component?
  split
  · exact .refl _
  · refine .ite (.refl _) (.ite (.refl _) ?_)
    split
    · exact .refl _
    · dsimp only
      refine .ite (.ite ?_ ?_) (.refl _)
      · exact .bind (h.blocks _) fun _ => .refl _
      · exact .bind (h.content _) fun _ => .refl _

theorem heading_extends (depth first length : Nat) :
    Extends (heading scope inner s depth first length) (heading scope inner' s depth first length) := by
  unfold heading
  dsimp only
  split
  · exact .refl _
  · exact .bind (h.content _) fun _ => .refl _

theorem row_extends : Extends (row scope inner s) (row scope inner' s) := by
  rw [row_eq, row_eq]
  refine .bind (.mapM _ fun cell => ?_) fun _ => .refl _
  split
  · exact .refl _
  · exact .bind (h.content _) fun _ => .refl _

theorem rows_extends (fuel n last : Nat) : Extends (rows scope inner fuel n last s) (rows scope inner' fuel n last s) := by
  induction fuel generalizing n last s with
  | zero => exact .refl _
  | succ fuel ih =>
    unfold rows
    refine .ite (.refl _) ?_
    dsimp only
    split
    · exact .bind (.refl _) fun _ => .bind (ih _ _ _) fun _ => .refl _
    · exact .bind (.map (row_extends h _)) fun _ => .bind (ih _ _ _) fun _ => .refl _

theorem paragraph_extends : Extends (paragraph scope inner s) (paragraph scope inner' s) := by
  unfold paragraph
  dsimp only
  split
  · exact .bind (h.content _) fun _ => .refl _
  · exact .bind (h.content _) fun _ => .refl _

theorem orParagraph_extends (r : Option Result) : Extends (orParagraph scope inner s r) (orParagraph scope inner' s r) := by
  cases r with
  | none => exact paragraph_extends h s
  | some r => exact .refl _

theorem items_extends (base fuel last : Nat) :
    Extends (items scope inner base fuel last s) (items scope inner' base fuel last s) := by
  induction fuel generalizing last s with
  | zero => exact .refl _
  | succ fuel ih =>
    unfold items
    dsimp only
    split
    · exact .refl _
    · refine .ite (.refl _) (.bind (h.parts _) fun _ => ?_)
      split
      · exact .bind (ih _ _) fun _ => .refl _
      · exact .refl _

theorem read_extends (reader : Reader) : Extends (reader.read scope inner s) (reader.read scope inner' s) := by
  cases reader with
  | modules | fence | rawLine => exact .refl _
  | comment | expression => exact orParagraph_extends h s _
  | component => exact .bind (component?_extends h _) fun r => orParagraph_extends h s r
  | heading depth place length => exact heading_extends h s depth place length
  | table => exact .bind (rows_extends h _ _ _ _) fun _ => .refl _
  | quote => exact .bind (h.parts _) fun _ => .refl _
  | list => exact .bind (items_extends h _ _ _ _) fun _ => .refl _
  | paragraph => exact paragraph_extends h s

theorem sequence_extends (top : Bool) (fuel : Nat) :
    Extends (sequence scope inner top fuel s) (sequence scope inner' top fuel s) := by
  induction fuel generalizing s with
  | zero => exact .refl _
  | succ fuel ih =>
    unfold sequence
    refine .ite (.refl _) (.ite (ih _) (.bind ?_ fun _ => .bind (ih _) fun _ => .refl _))
    rw [next_eq, next_eq]
    exact read_extends h s _

omit h

theorem readParts_extends {read read' : Scope → Stretch → Except Fault (List Node)}
    (hread : ∀ scope s, Extends (read scope s) (read' scope s)) (scope : Scope) (parts : List Stretch) :
    Extends (readParts read scope parts) (readParts read' scope parts) := by
  unfold readParts
  dsimp only
  split
  · exact .refl _
  · exact .bind (hread _ _) fun _ => .refl _

/-- Blocks under a larger budget are the same, unless the smaller one is used up. -/
theorem readAll_extends (k budget : Nat) (top : Bool) (scope : Scope) (s : Stretch) :
    Extends (readAll budget top scope s) (readAll (budget + k) top scope s) := by
  induction budget using Nat.strongRecOn generalizing top scope s with
  | _ budget ih =>
    match budget, ih with
    | budget + 3, ih =>
      have hblocks := ih (budget + 1) (by omega)
      rw [Nat.add_right_comm budget 1 k] at hblocks
      rw [Nat.add_right_comm]
      refine sequence_extends ⟨fun s => ?_, hblocks false scope, readParts_extends (ih budget (by omega) false) scope⟩ s top _
      have hcontent := Content.read_extends scope k (budget + 3) s
      rwa [Nat.add_right_comm] at hcontent
    | 0, _ | 1, _ | 2, _ => exact .error _

end Block
end Markup
end Narration
