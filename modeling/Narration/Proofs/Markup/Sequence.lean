import Narration.Proofs.Markup.Below.Block
import Narration.Proofs.Markup.Progress

/-!
# Sequences of blocks

* `Block.Reads` : the blocks of a stretch, once they are read to their end;
* `Block.reads_blank`, `Block.reads_block` : a blank line and a block at the front;
* `Block.Reads.forall_mem` : what holds of the next block holds of all;
* `Block.Reads.sequence_eq` : a step for every character is enough;
* `Block.Reads.below`, `Block.Reads.above` : a stretch further down, and back;
* `Block.Reads.exists_same`, `Block.Alike`, `Block.Reads.exists_alike` : the blocks of a text that stands in two others.
-/

namespace Narration.Markup.Block
open Fallible

/-- The blocks of a stretch, read to their end. -/
def Reads (scope : Scope) (inner : Inner) (top : Bool) (s : Stretch) (ns : List Node) : Prop :=
  ∃ fuel, sequence scope inner top fuel s = .ok ns

variable {scope scope' : Scope} {inner inner' : Inner} {top : Bool} {s : Stretch} {ns : List Node}

theorem reads_nil (hs : s.chars = []) : Reads scope inner top s ns ↔ ns = [] := by
  refine ⟨fun ⟨fuel, h⟩ => ?_, fun h => ⟨1, ?_⟩⟩
  · cases fuel with
    | zero => cases h
    | succ fuel =>
      rw [sequence, if_pos (by rw [hs]; rfl)] at h
      cases h
      rfl
  · rw [h, sequence, if_pos (by rw [hs]; rfl)]

theorem reads_blank (hs : s.chars ≠ []) (hblank : s.lineBlank) :
    Reads scope inner top s ns ↔ Reads scope inner top s.afterLine ns := by
  have hstep (fuel : Nat) : sequence scope inner top (fuel + 1) s = sequence scope inner top fuel s.afterLine := by
    rw [sequence, if_neg (by simpa using hs), if_pos hblank]
  constructor
  · rintro ⟨fuel, h⟩
    cases fuel with
    | zero => cases h
    | succ fuel => exact ⟨fuel, (hstep fuel).symm.trans h⟩
  · rintro ⟨fuel, h⟩
    exact ⟨fuel + 1, (hstep fuel).trans h⟩

theorem reads_newline (a : Nat) (t : Text) : Reads scope inner top ⟨a, '\n' :: t⟩ ns ↔ Reads scope inner top ⟨a + 1, t⟩ ns := by
  have hafter : (⟨a, '\n' :: t⟩ : Stretch).afterLine = ⟨a + 1, t⟩ := Stretch.afterLine_mk (u := []) List.not_mem_nil
  rw [reads_blank (List.cons_ne_nil _ _) rfl, hafter]

theorem reads_block (hs : s.chars ≠ []) (hblank : s.lineBlank = false) :
    Reads scope inner top s ns ↔ ∃ node stop ms, next scope inner top s = .ok (node, stop) ∧
      Reads scope inner top (s.since stop) ms ∧ ns = node :: ms := by
  have hstep (fuel : Nat) : sequence scope inner top (fuel + 1) s = next scope inner top s >>=
      fun r => sequence scope inner top fuel (s.since r.2) >>= fun ms => pure (r.1 :: ms) := by
    rw [sequence, if_neg (by simpa using hs), if_neg (by simp [hblank])]
  constructor
  · rintro ⟨fuel, h⟩
    cases fuel with
    | zero => cases h
    | succ fuel =>
      rw [hstep] at h
      obtain ⟨⟨node, stop⟩, hnext, h⟩ := bind_eq_ok.1 h
      obtain ⟨ms, hms, h⟩ := bind_eq_ok.1 h
      exact ⟨node, stop, ms, hnext, ⟨fuel, hms⟩, (pure_eq_ok.1 h).symm⟩
  · rintro ⟨node, stop, ms, hnext, ⟨fuel, hms⟩, rfl⟩
    refine ⟨fuel + 1, ?_⟩
    rw [hstep, hnext]
    exact (bind_eq_ok (x := sequence scope inner top fuel (s.since stop))).2 ⟨ms, hms, rfl⟩

theorem Reads.not_stranded (h : Reads scope inner top s ns) : ¬Stranded s.line.chars := fun hstranded => by
  obtain ⟨fuel, hn⟩ := h
  rw [sequence_stranded top fuel hstranded] at hn
  cases hn

/-- What holds of every block that may be next holds of all blocks. `Q` tells of a stretch what it tells of its ends. -/
theorem Reads.forall_mem_of {P : Node → Prop} {Q : Stretch → Prop} (h : Reads scope inner top s ns) (hs : Q s)
    (hQ : ∀ s' n, Q s' → Q (s'.drop n)) (hP : ∀ s' node stop, Q s' → s'.chars ≠ [] → s'.lineBlank = false →
      ¬Stranded s'.line.chars → next scope inner top s' = .ok (node, stop) → P node) : ∀ n ∈ ns, P n := by
  obtain ⟨fuel, hn⟩ := h
  induction fuel generalizing s ns with
  | zero => cases hn
  | succ fuel ih =>
    have hstranded : ¬Stranded s.line.chars := Reads.not_stranded ⟨_, hn⟩
    unfold sequence at hn
    split at hn
    · cases hn
      exact List.forall_mem_nil P
    · next hne =>
      have hne : s.chars ≠ [] := by simpa using hne
      split at hn
      · exact ih (hQ s _ hs) hn
      · next hblank =>
        have hblank : s.lineBlank = false := by simpa using hblank
        obtain ⟨⟨node, stop⟩, hnext, hn⟩ := bind_eq_ok.1 hn
        obtain ⟨ms, hms, hn⟩ := bind_eq_ok.1 hn
        cases hn
        intro n hmem
        rcases List.mem_cons.1 hmem with rfl | hmem
        · exact hP s _ _ hs hne hblank hstranded hnext
        · exact ih (hQ s _ hs) hms n hmem

theorem Reads.forall_mem {P : Node → Prop} (h : Reads scope inner top s ns)
    (hP : ∀ s' node stop, s'.stop = s.stop → next scope inner top s' = .ok (node, stop) → P node) : ∀ n ∈ ns, P n :=
  h.forall_mem_of (Q := fun s' => s'.stop = s.stop) rfl (fun s' n hs' => (s'.stop_drop n).trans hs')
    fun s' node stop hs' _ _ _ hnext => hP s' node stop hs' hnext

/-- A step for every character reads a stretch to its end. -/
theorem Reads.sequence_eq (h : Reads scope inner top s ns) {fuel : Nat} (hfuel : s.chars.length < fuel) :
    sequence scope inner top fuel s = .ok ns := by
  obtain ⟨n, hn⟩ := h
  induction n generalizing s ns fuel with
  | zero => cases hn
  | succ n ih =>
    cases fuel with
    | zero => exact absurd hfuel (Nat.not_lt_zero _)
    | succ fuel =>
      have hline : ¬Stranded s.line.chars := Reads.not_stranded ⟨_, hn⟩
      unfold sequence at hn ⊢
      split at hn
      · next hs => rw [if_pos hs, ← hn]
      · next hs =>
        rw [if_neg hs]
        have hs : s.chars ≠ [] := by simpa using hs
        have hpos := List.length_pos_iff.2 hs
        split at hn
        · next hblank =>
          rw [if_pos hblank]
          refine ih ?_ hn
          rw [Stretch.chars_afterLine, List.length_drop]
          omega
        · next hblank =>
          rw [if_neg hblank]
          obtain ⟨⟨node, stop⟩, hnext, hn⟩ := bind_eq_ok.1 hn
          obtain ⟨ms, hms, hn⟩ := bind_eq_ok.1 hn
          have hlt := start_lt_next hs (by simpa using hblank) hline hnext
          refine bind_eq_ok.2 ⟨_, hnext, bind_eq_ok.2 ⟨ms, ih ?_ hms, hn⟩⟩
          rw [Stretch.chars_since, List.length_drop]
          omega

/-- How the insides of the containers of a text are read. -/
def innerOf (budget : Nat) (scope : Scope) : Inner :=
  { content := Content.read scope (budget + 3)
    blocks := readAll (budget + 1) false scope
    parts := readParts (readAll budget false) scope }

theorem readAll_eq_ok {budget : Nat} :
    readAll (budget + 3) top scope s = .ok ns ↔ Reads scope (innerOf budget scope) top s ns :=
  ⟨fun h => ⟨_, h⟩, fun h => h.sequence_eq (Nat.lt_succ_self _)⟩

theorem exists_reads {budget : Nat} (h : readAll budget top scope s = .ok ns) :
    ∃ b, budget = b + 3 ∧ Reads scope (innerOf b scope) top s ns := by
  unfold readAll at h
  split at h
  · exact ⟨_, rfl, _, h⟩
  · cases h

section Seen
variable {k : Nat} {v : Position.Views} (h : Scope.Seen scope scope' k v)
include h

theorem innerOf_below (budget : Nat) : (innerOf budget scope).Below (innerOf budget scope') k v :=
  ⟨Content.read_below h _, readAll_below h _ false, readParts_below h _⟩

theorem Reads.below (hi : inner.Below inner' k v) (hr : Reads scope inner top s ns) :
    ∃ ns', Reads scope' inner' top (s.shift k) ns' ∧ Same v ns ns' := by
  obtain ⟨fuel, hn⟩ := hr
  obtain ⟨ns', hn', hsame⟩ := (sequence_below s h hi top fuel).exists_ok hn
  exact ⟨ns', ⟨fuel, hn'⟩, hsame⟩

theorem Reads.above (hi : inner.Below inner' k v) (hr : Reads scope' inner' top (s.shift k) ns) :
    ∃ ns', Reads scope inner top s ns' ∧ Same v ns' ns := by
  obtain ⟨fuel, hn⟩ := hr
  obtain ⟨ns', hn', hsame⟩ := (sequence_below s h hi top fuel).exists_ok_left hn
  exact ⟨ns', ⟨fuel, hn'⟩, hsame⟩

end Seen

/-- The blocks of one text that stands in two others. -/
def Alike (ns ns' : List Node) : Prop :=
  ∃ c references ks up up', Reads (Scope.ofText c references) (innerOf 957 (Scope.ofText c references)) true ⟨0, c⟩ ks ∧
    SameBelow up ks ns ∧ SameBelow up' ks ns'

/-- The blocks of a text that stands in two others with the same link definitions. -/
theorem Reads.exists_same {u c : Text} {references : List Reference} (h : Reads (Scope.ofText (u ++ c) references)
    (innerOf 957 (Scope.ofText (u ++ c) references)) true ⟨u.length, c⟩ ns) (v : Text) :
    ∃ ks ns', Reads (Scope.ofText c references) (innerOf 957 (Scope.ofText c references)) true ⟨0, c⟩ ks ∧
      Reads (Scope.ofText (v ++ c) references) (innerOf 957 (Scope.ofText (v ++ c) references)) true ⟨v.length, c⟩ ns' ∧
      SameBelow (u.count '\n') ks ns ∧ SameBelow (v.count '\n') ks ns' := by
  have hshift (w : Text) : (⟨0, c⟩ : Stretch).shift w.length = ⟨w.length, c⟩ := by rw [Stretch.shift, Nat.zero_add]
  have hu := (Scope.below_ofText u c references).seen
  have hv := (Scope.below_ofText v c references).seen
  rw [← hshift] at h
  obtain ⟨ks, hks, hsame⟩ := h.above hu (innerOf_below hu 957)
  obtain ⟨ns', hns', hsame'⟩ := hks.below hv (innerOf_below hv 957)
  rw [hshift] at hns'
  exact ⟨ks, ns', hks, hns', hsame, hsame'⟩

/-- Blocks are the same further down, in a text with the same link definitions. -/
theorem Reads.exists_alike {u c : Text} {references : List Reference} (h : Reads (Scope.ofText (u ++ c) references)
    (innerOf 957 (Scope.ofText (u ++ c) references)) true ⟨u.length, c⟩ ns) (v : Text) :
    ∃ ns', Reads (Scope.ofText (v ++ c) references) (innerOf 957 (Scope.ofText (v ++ c) references)) true
      ⟨v.length, c⟩ ns' ∧ Alike ns ns' := by
  obtain ⟨ks, ns', hks, hns', hsame, hsame'⟩ := h.exists_same v
  exact ⟨ns', hns', c, references, ks, _, _, hks, hsame, hsame'⟩

theorem Alike.kinds {ns ns' : List Node} (h : Alike ns ns') : SameKinds ns ns' := by
  obtain ⟨_, _, ks, _, _, -, hks, hks'⟩ := h
  obtain ⟨htop, hall⟩ := hks.kinds
  obtain ⟨htop', hall'⟩ := hks'.kinds
  exact ⟨htop'.trans htop.symm, hall'.trans hall.symm⟩

end Narration.Markup.Block
