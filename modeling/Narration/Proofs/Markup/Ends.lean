import Mathlib.Data.List.Chain
import Narration.Proofs.Markup.Progress
import Narration.Proofs.Text.Lines

/-!
# Reading comes to an end

* `Content.read_ends` : inline content is always read to its end;
* `Tidy` : texts in which only spaces, tabs and line feeds follow the marks that end a list marker;
* `Block.readAll_ends`, `Tree.exists_parse` : a tidy text is read to its end, and parsed unless a list number is too long.
-/

namespace Narration.Markup
open Fallible

/-- Reading comes to an end, with a result or with another fault. -/
abbrev Ends {α : Type} (x : Except Fault α) : Prop := Avoids .endless x

/-- A fault that reading does not meet with as long as it moves forward. -/
structure Foreign (f : Fault) : Prop where
  nested : f ≠ .nestedTooDeeply
  digits : ∀ k, f ≠ .tooManyDigits k

theorem foreign_endless : Foreign .endless := ⟨by decide, by simp⟩

variable {f : Fault}

/-! ## Inline content -/

namespace Inline

section Writing
variable {s : Source} {alternative : Alternative} (ha : ∀ t, Avoids f (alternative t))
include ha

theorem writePiece_ends {inner : Writing} (hi : ∀ w first last, Avoids f (inner w first last)) (w : Writer)
    (i limit : Nat) (piece : Piece) : Avoids f (writePiece s alternative inner w i limit piece) := by
  cases piece with
  | link target first last => exact .bind (hi _ first last) fun w _ => .pure _
  | image target first last => exact .bind (ha _) fun tokens _ => .pure _
  | _ => exact .ok _

theorem writePieces_ends {skip : Source.Skipping} {inner : Writing}
    (hi : ∀ w first last, Avoids f (inner w first last)) (limit fuel : Nat) (w : Writer) (i : Nat) :
    Avoids f (writePieces s alternative skip inner limit fuel w i) := by
  induction fuel generalizing w i with
  | zero => exact .ok _
  | succ fuel ih =>
    unfold writePieces
    split
    · split
      · next piece memory _ =>
        exact .bind (writePiece_ends ha hi _ i limit piece) fun w _ => ih w piece.stop
      · exact ih _ _
    · exact .ok _

theorem write_ends (room : Nat) (w : Writer) (i limit : Nat) : Avoids f (write s alternative room w i limit) := by
  induction room generalizing w i limit with
  | zero => exact .ok _
  | succ room ih => exact writePieces_ends ha ih limit _ w i

end Writing

theorem read_ends (hf : Foreign f) {references : List Reference} (budget : Nat) (t : Text) :
    Avoids f (read references budget t) := by
  induction budget using Nat.strongRecOn generalizing t with
  | _ budget ih =>
    unfold read
    split
    · exact .bind (write_ends (ih _ (by omega)) _ _ _ _) fun w _ => .pure _
    · exact .error hf.nested

theorem tokens_ends (hf : Foreign f) {references : List Reference} (budget : Nat) (t : Text) :
    Avoids f (tokens references budget t) := .bind (read_ends hf budget _) fun _ _ => .pure _

end Inline

namespace Content

section Lifting
variable {scope : Scope} {inner : Stretch → Except Fault (List Node)} (hi : ∀ s, Avoids f (inner s))
include hi

theorem ofTag_ends (s : Stretch) (tag : Tag) : Avoids f (ofTag scope inner s tag) := by
  unfold ofTag
  dsimp only
  split
  · exact .pure _
  · split
    · exact .pure _
    · exact .bind (hi _) fun children _ => .pure _

theorem front_ends (s : Stretch) : Avoids f (front scope inner s) := by
  unfold front
  split
  · exact .ok _
  · exact .ok _
  · split <;> exact .ok _
  · split
    · exact .bind (ofTag_ends hi s _) fun r _ => .pure _
    · exact .ok _
  · exact .ok _

theorem lift_ends (fuel n : Nat) (s : Stretch) : Avoids f (lift scope inner fuel n s) := by
  induction fuel generalizing n s with
  | zero => exact .ok _
  | succ fuel ih =>
    unfold lift
    split
    · exact .ok _
    · refine .bind (front_ends hi s) fun r _ => ?_
      split
      · exact .bind (ih _ _) fun r _ => .pure _
      · exact .bind (ih _ _) fun r _ => .pure _

end Lifting

theorem partsFrom_ends (hf : Foreign f) (skip : Nat) (before t : Text) : Avoids f (partsFrom skip before t) := by
  fun_induction partsFrom skip before t with
  | case1 => exact .ok _
  | case2 _ _ _ _ ih => exact ih
  | case3 _ _ _ _ ih => exact ih
  | case4 => exact .error (hf.digits _)
  | case5 _ _ _ _ _ _ _ ih => exact .bind ih fun r _ => .pure _

theorem settle_ends (hf : Foreign f) (lifted : List Node) (t : Text) : Avoids f (settle lifted t) :=
  .bind (partsFrom_ends hf 0 [] t) fun _ _ => .pure _

mutual

theorem addToken_ends (hf : Foreign f) (lifted : List Node) : ∀ (token : InlineToken) (o : Open), Avoids f (addToken lifted token o)
  | .text value, _ | .special value, _ => .bind (settle_ends hf lifted value) fun _ _ => .pure _
  | .image _ alternative, _ => .bind (addTokens_ends hf lifted alternative .empty) fun _ _ => .pure _
  | .lineBreak, _ | .code _, _ | .opening _, _ | .closing _, _ => .ok _

theorem addTokens_ends (hf : Foreign f) (lifted : List Node) : ∀ (tokens : List InlineToken) (o : Open),
    Avoids f (addTokens lifted tokens o)
  | [], o => .ok o
  | token :: tokens, o => .bind (addToken_ends hf lifted token o) fun o _ => addTokens_ends hf lifted tokens o

end

mutual

theorem placeholders_ends (hf : Foreign f) : ∀ token : InlineToken, Avoids f (placeholders token)
  | .text value | .special value => partsFrom_ends hf 0 [] value
  | .image _ alternative => placeholdersIn_ends hf alternative
  | .lineBreak | .code _ | .opening _ | .closing _ => .ok _

theorem placeholdersIn_ends (hf : Foreign f) : ∀ tokens : List InlineToken, Avoids f (placeholdersIn tokens)
  | [] => .ok _
  | token :: tokens =>
    .bind (placeholders_ends hf token) fun _ _ => .bind (placeholdersIn_ends hf tokens) fun _ _ => .pure _

end

theorem read_ends (hf : Foreign f) (scope : Scope) (budget : Nat) (s : Stretch) : Avoids f (read scope budget s) := by
  induction budget using Nat.strongRecOn generalizing s with
  | _ budget ih =>
    unfold read
    split
    · refine .bind (lift_ends (ih _ (by omega)) _ _ _) fun r _ => ?_
      refine .bind (Inline.tokens_ends hf _ _) fun tokens _ => ?_
      dsimp only
      have hnodes (lifted : List Node) : Avoids f (nodesOf lifted tokens) :=
        .bind (addTokens_ends hf lifted tokens .empty) fun _ _ => .pure _
      split
      · exact .bind (.bind (placeholdersIn_ends hf tokens) fun _ _ => .pure _) fun lifted _ => hnodes lifted
      · exact hnodes _
    · exact .error hf.nested

end Content

/-! ## Tidy texts -/

/-- A character that ends a list marker. -/
def endsMarker (c : Char) : Bool := c == '*' || c == '+' || c == '-' || c == '.' || c == ')'

/-- A text in which no blank but a space, a tab or a line feed follows a character that ends a list
marker. -/
def Tidy (t : Text) : Prop :=
  t.IsChain fun a c => endsMarker a → Text.isBlank c → Text.isSpaceOrTab c ∨ c = '\n'

theorem Tidy.append_line {t u : Text} (ht : Tidy t) (hu : Tidy u) : Tidy (t ++ '\n' :: u) := by
  refine List.IsChain.append ht ?_ fun a _ c hc _ _ => .inr (Option.some.inj hc).symm
  exact List.IsChain.cons hu fun c _ h => absurd h (by decide)

theorem Tidy.unlines {ls : List Text} (h : ∀ l ∈ ls, Tidy l) : Tidy (Text.unlines ls) := by
  match ls with
  | [] => exact List.isChain_nil
  | [l] =>
    rw [Text.unlines_singleton]
    exact h l List.mem_cons_self
  | l :: k :: ls =>
    rw [Text.unlines_cons_cons]
    exact .append_line (h l List.mem_cons_self)
      (Tidy.unlines fun m hm => h m (List.mem_cons_of_mem l hm))

theorem Tidy.not_stranded {line : Text} (h : Tidy line) (hn : '\n' ∉ line) : ¬Block.Stranded line := by
  rintro ⟨before, marker, c, after, rfl, -, -, hmarker, hc, hgap, -⟩
  obtain ⟨m, hlast, hm⟩ : ∃ m, marker.getLast? = some m ∧ endsMarker m := by
    cases hmarker with
    | mark m hmark => exact ⟨m, rfl, by rcases hmark with rfl | rfl | rfl <;> decide⟩
    | number digits m _ _ _ hmark => exact ⟨m, by simp, by rcases hmark with rfl | rfl <;> decide⟩
  have hlast' : m ∈ (before ++ marker).getLast? := by simp [hlast]
  rcases (List.isChain_append.1 h).2.2 m hlast' c rfl hm hc with hc' | rfl
  · simp [hgap] at hc'
  · simp at hn

/-! ## Parts of a stretch -/

namespace Stretch

/-- The characters of one stretch stand in a row in another. -/
abbrev Within (p s : Stretch) : Prop := p.chars <:+: s.chars

variable {p q s : Stretch}

theorem Within.tidy (h : p.Within s) (hs : Tidy s.chars) : Tidy p.chars := hs.infix h

theorem within_drop (s : Stretch) (n : Nat) : (s.drop n).Within s := (List.drop_suffix n _).isInfix

theorem within_take (s : Stretch) (n : Nat) : (s.take n).Within s := (List.take_prefix n _).isInfix

theorem within_line (s : Stretch) : s.line.Within s := (List.takeWhile_prefix _).isInfix

theorem Within.refl (s : Stretch) : s.Within s := List.infix_rfl

theorem Within.trans (h : p.Within q) (hq : q.Within s) : p.Within s := List.IsInfix.trans h hq

end Stretch

namespace Block

theorem Takes.within {s rest : Stretch} {parts : List Stretch} (h : Takes s parts rest) : ∀ p ∈ parts, p.Within s := by
  induction h with
  | nil => exact List.forall_mem_nil _
  | @line s _ _ _ n _ ih =>
    exact List.forall_mem_cons.2 ⟨(Stretch.within_drop _ _).trans s.within_line, fun p hp => (ih p hp).trans (s.within_drop _)⟩
  | @blank s _ _ _ _ ih =>
    exact List.forall_mem_cons.2 ⟨(Stretch.within_take _ _).trans s.within_line, fun p hp => (ih p hp).trans (s.within_drop _)⟩

theorem Takes.rest_within {s rest : Stretch} {parts : List Stretch} (h : Takes s parts rest) : rest.Within s := by
  obtain ⟨n, rfl⟩ := h.exists_drop
  exact s.within_drop n

theorem resume_within (rest : Stretch) : (resume rest).Within rest := by
  obtain ⟨n, hn⟩ := exists_drop_resume rest
  exact hn ▸ rest.within_drop n

/-! ## Blocks -/

/-- The readers of the insides of containers do not meet with a fault in tidy stretches. -/
structure Inner.Tame (inner : Inner) (f : Fault) : Prop where
  content (s : Stretch) : Avoids f (inner.content s)
  blocks (s : Stretch) (h : Tidy s.chars) : Avoids f (inner.blocks s)
  parts (parts : List Stretch) (h : ∀ p ∈ parts, Tidy p.chars) : Avoids f (inner.parts parts)

variable {scope : Scope} {inner : Inner} {s : Stretch}

theorem component?_ends (scope : Scope) (hi : inner.Tame f) (h : Tidy s.chars) : Avoids f (component? scope inner s) := by
  unfold component?
  split
  · exact .ok _
  · next tag _ =>
    dsimp only
    split
    · exact .ok _
    · split
      · exact .ok _
      · split
        · exact .ok _
        · next first stop _ =>
          split
          · split
            · refine .bind (hi.blocks _ ?_) fun _ _ => .pure _
              exact Stretch.Within.tidy ((Stretch.within_take _ _).trans (s.within_drop _)) h
            · exact .bind (hi.content _) fun _ _ => .pure _
          · exact .ok _

theorem heading_ends (hi : inner.Tame f) (depth place length : Nat) :
    Avoids f (heading scope inner s depth place length) := by
  unfold heading
  split
  · exact .bind (.pure _) fun _ _ => .pure _
  · exact .bind (hi.content _) fun _ _ => .pure _

theorem row_ends (hi : inner.Tame f) (line : Stretch) : Avoids f (row scope inner line) := by
  unfold row
  refine .bind (.mapM fun cell _ => ?_) fun _ _ => .pure _
  dsimp only
  split
  · exact .bind (.pure _) fun _ _ => .pure _
  · exact .bind (hi.content _) fun _ _ => .pure _

theorem rows_ends (hi : inner.Tame f) (fuel n last : Nat) (s : Stretch) :
    Avoids f (rows scope inner fuel n last s) := by
  induction fuel generalizing n last s with
  | zero => exact .ok _
  | succ fuel ih =>
    unfold rows
    dsimp only
    split
    · exact .ok _
    · split
      · exact .bind (.pure _) fun _ _ => .bind (ih _ _ _) fun _ _ => .pure _
      · exact .bind (.map (row_ends hi _)) fun _ _ => .bind (ih _ _ _) fun _ _ => .pure _

theorem paragraph_ends (hi : inner.Tame f) : Avoids f (paragraph scope inner s) := by
  unfold paragraph
  dsimp only
  split <;> exact .bind (hi.content _) fun _ _ => .pure _

theorem quote_ends (hi : inner.Tame f) (h : Tidy s.chars) : Avoids f (quote scope inner s) :=
  .bind (hi.parts _ fun p hp => ((takes_quoteLines _ true s).within p hp).tidy h) fun _ _ => .pure _

theorem items_ends (hi : inner.Tame f) {base fuel last : Nat} (h : Tidy s.chars) :
    Avoids f (items scope inner base fuel last s) := by
  induction fuel generalizing last s with
  | zero => exact .ok _
  | succ fuel ih =>
    rw [items_succ]
    cases markerWidth? base s with
    | none => exact .ok _
    | some width =>
      have hlines := takes_itemLines base width s.chars.length s.line.stop s.afterLine
      refine .bind (hi.parts _ (List.forall_mem_cons.2 ⟨?_, fun p hp => ?_⟩)) fun children _ => ?_
      · exact ((Stretch.within_drop _ _).trans s.within_line).tidy h
      · exact ((hlines.within p hp).trans (s.within_drop _)).tidy h
      · dsimp only
        split
        · exact .bind (ih ((((resume_within _).trans hlines.rest_within).trans (s.within_drop _)).tidy h)) fun _ _ => .pure _
        · exact .pure _

theorem next_ends (hi : inner.Tame f) (top : Bool) (h : Tidy s.chars) : Avoids f (next scope inner top s) := by
  have hfirst : Tidy s.trimStart.chars := (s.within_drop _).tidy h
  have hdispatch := dispatch scope inner top s
  generalize next scope inner top s = r at hdispatch
  cases hdispatch with
  | modules | fence | comment | expression | component | rawLine => exact .ok _
  | componentFault f _ hr =>
    have := component?_ends scope hi hfirst
    rw [hr] at this
    exact fun h => this (by cases h; rfl)
  | heading => exact heading_ends hi _ _ _
  | table => exact .bind (rows_ends hi _ _ _ _) fun _ _ => .pure _
  | quote => exact quote_ends hi h
  | list => exact .bind (items_ends hi h) fun _ _ => .pure _
  | paragraph => exact paragraph_ends hi

/-- With a step for every character a tidy stretch is read to its end. -/
theorem sequence_ends (hi : inner.Tame f) (top : Bool) {fuel : Nat} (h : Tidy s.chars)
    (hfuel : s.chars.length < fuel) : Avoids f (sequence scope inner top fuel s) := by
  induction fuel generalizing s with
  | zero => exact absurd hfuel (Nat.not_lt_zero _)
  | succ fuel ih =>
    unfold sequence
    split
    · exact .ok _
    · next hs =>
      have hs : s.chars ≠ [] := by simpa using hs
      have hpos := List.length_pos_iff.2 hs
      split
      · refine ih ((s.within_drop _).tidy h) ?_
        rw [Stretch.chars_afterLine, List.length_drop]
        omega
      · next hblank =>
        refine .bind (next_ends hi top h) fun r hr => ?_
        obtain ⟨node, stop⟩ := r
        have hline : '\n' ∉ s.line.chars := fun hn => by
          simpa using List.mem_takeWhile_imp hn
        have hlt := start_lt_next hs (by simpa using hblank)
          (Tidy.not_stranded (s.within_line.tidy h) hline) hr
        refine .bind (ih ((s.within_drop _).tidy h) ?_) fun _ _ => .pure _
        rw [Stretch.chars_since, List.length_drop]
        omega

theorem readParts_ends {read : Scope → Stretch → Except Fault (List Node)}
    (hr : ∀ scope s, Tidy s.chars → Avoids f (read scope s)) (parts : List Stretch)
    (h : ∀ p ∈ parts, Tidy p.chars) : Avoids f (readParts read scope parts) := by
  unfold readParts
  split
  · exact .pure _
  · refine .bind (hr _ _ (Tidy.unlines fun l hl => ?_)) fun _ _ => .pure _
    obtain ⟨p, hp, rfl⟩ := List.mem_map.1 hl
    exact h p hp

theorem readAll_ends (hf : Foreign f) (budget : Nat) (top : Bool) (scope : Scope) (s : Stretch) (h : Tidy s.chars) :
    Avoids f (readAll budget top scope s) := by
  induction budget using Nat.strongRecOn generalizing top scope s with
  | _ budget ih =>
    unfold readAll
    split
    · exact sequence_ends
        { content := Content.read_ends hf _ _
          blocks := ih _ (by omega) _ _
          parts := readParts_ends (ih _ (by omega) _) } _ h (Nat.lt_succ_self _)
    · exact .error hf.nested

end Block
end Narration.Markup

namespace Narration.Tree
open Markup Fallible

variable {f : Fault} {t : Text}

theorem read_ends (hf : Foreign f) (h : Tidy t) : Avoids f (read t) := by
  refine .bind ?_ fun _ _ => .pure _
  unfold blocks
  split
  · exact .bind (Block.readAll_ends hf _ _ _ _ ((Stretch.within_drop _ _).tidy h)) fun _ _ => .pure _
  · exact Block.readAll_ends hf _ _ _ _ h

theorem parse_avoids (hf : Foreign f) (h : Tidy (Text.crlfToLf t)) : Avoids f (parse t).outcome.1 := by
  have hread := read_ends hf h
  unfold parse
  dsimp only
  split
  · exact .ok _
  · exact .ok _
  · next fault _ hfault =>
    rw [hfault] at hread
    exact hread

theorem parse_ends (h : Tidy (Text.crlfToLf t)) : Ends (parse t).outcome.1 := parse_avoids foreign_endless h

/-- A text that is nested too deeply has a tree. -/
theorem parse_avoids_nested (t : Text) : Avoids .nestedTooDeeply (parse t).outcome.1 := by
  unfold parse
  dsimp only
  split
  · exact .ok _
  · exact .ok _
  · next fault hne _ => exact .error (Ne.symm hne)

/-- A tidy text has a tree, unless it writes a number that has too many digits. -/
theorem exists_parse (h : Tidy (Text.crlfToLf t)) :
    (∃ tree, (parse t).outcome.1 = .ok tree) ∨ ∃ k, (parse t).outcome.1 = .error (.tooManyDigits k) := by
  rcases hparse : (parse t).outcome.1 with fault | tree
  · by_cases hdigits : ∃ k, fault = .tooManyDigits k
    · obtain ⟨k, rfl⟩ := hdigits
      exact .inr ⟨k, rfl⟩
    · have hnested : fault ≠ .nestedTooDeeply := by
        rintro rfl
        exact parse_avoids_nested t hparse
      exact absurd hparse (parse_avoids ⟨hnested, not_exists.1 hdigits⟩ h)
  · exact .inl ⟨tree, rfl⟩

/-- What reading gets past. A block ends after its beginning unless its line is stranded. A sequence
of blocks, at any depth, is without end when it comes to a stranded line, and only then. No tidy text
is without end. -/
theorem moves_forward_iff (scope : Scope) (inner : Block.Inner) (top : Bool) (s : Stretch) (t : Text) :
    (∀ node stop, s.chars ≠ [] → s.lineBlank = false → Block.next scope inner top s = .ok (node, stop) →
      (s.start < stop ↔ ¬Block.Stranded s.line.chars)) ∧
    (∀ fuel, Block.Stranded s.line.chars → Block.sequence scope inner top fuel s = .error .endless) ∧
    (∀ fuel, s.chars.length < fuel →
      (∀ s', Block.Reaches scope inner top s s' → Ends (Block.next scope inner top s')) →
      (Block.sequence scope inner top fuel s = .error .endless ↔
        ∃ s', Block.Reaches scope inner top s s' ∧ Block.Stranded s'.line.chars)) ∧
    (Tidy (Text.crlfToLf t) → Ends (parse t).outcome.1) := by
  refine ⟨fun node stop hs hblank hnext => ⟨fun hlt hline => ?_, fun hline => ?_⟩, fun fuel hline => ?_,
    fun fuel hfuel hends => Block.sequence_endless_iff hfuel hends, parse_ends⟩
  · obtain ⟨node', hstuck⟩ := Block.next_stranded scope inner top hline
    cases hnext.symm.trans hstuck
    exact Nat.lt_irrefl _ hlt
  · exact Block.start_lt_next hs hblank hline hnext
  · exact Block.sequence_stranded top fuel hline

/-- A hyphen with a no-break space behind it is never got past. -/
theorem parse_hyphen_noBreakSpace : (parse ['-', '\xa0']).outcome.1 = .error .endless := by rfl

end Narration.Tree
