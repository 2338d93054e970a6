import Narration.Proofs.Markup.Inline.Places

/-!
# Placeholders are resolved

* `InlineToken.Fine` : tokens with whole placeholders in texts and none in code;
* `Inline.write_fine`, `Inline.read_fine` : the tokens of a sound source;
* `Inline.tokens_fine` : the tokens of what is made of a stretch;
* `Content.parts_placeless` : no text between nodes that are put back holds a placeholder.
-/

namespace Narration.Markup
open Fallible
open Content (openPlace closePlace)

variable {t u v x : Text} {P B : Prop}

/-! ## Tokens -/

namespace InlineToken

mutual

/-- A token with whole placeholders in its texts. With `B` it may be code, with `P` code holds no placeholders. -/
def Fine (P B : Prop) : InlineToken → Prop
  | .text value | .special value => Complete value
  | .code value => B ∧ (P → Placeless value)
  | .image _ alternative => FineAll P B alternative
  | .lineBreak | .opening _ | .closing _ => True

/-- Several tokens with whole placeholders. -/
def FineAll (P B : Prop) : List InlineToken → Prop
  | [] => True
  | token :: tokens => token.Fine P B ∧ FineAll P B tokens

end

variable {token : InlineToken} {ts us : List InlineToken}

theorem fineAll_iff : FineAll P B ts ↔ ∀ token ∈ ts, token.Fine P B := by
  induction ts with
  | nil => simp [FineAll]
  | cons t ts ih => rw [FineAll, ih, List.forall_mem_cons]

theorem FineAll.consText (htoken : token.Fine P B) (h : FineAll P B ts) : FineAll P B (consText token ts) := by
  unfold InlineToken.consText
  split
  · rw [FineAll, Fine] at h ⊢
    rw [Fine] at htoken
    exact ⟨htoken.append h.1, h.2⟩
  · rw [FineAll]
    exact ⟨htoken, h⟩

theorem FineAll.joinTexts (h : FineAll P B ts) : FineAll P B (joinTexts ts) := by
  induction ts with
  | nil => exact h
  | cons t ts ih =>
    rw [FineAll] at h
    exact FineAll.consText h.1 (ih h.2)

mutual

theorem Fine.joinInside : (token : InlineToken) → token.Fine P B → token.joinInside.Fine P B
  | .image _ alternative, h => by
    rw [Fine] at h
    rw [InlineToken.joinInside, Fine]
    exact FineAll.joinAll alternative h
  | .special _, h => by
    rw [Fine] at h
    rwa [InlineToken.joinInside, Fine]
  | .text _, h | .lineBreak, h | .code _, h | .opening _, h | .closing _, h => by rwa [InlineToken.joinInside] <;> exact nofun

theorem FineAll.joinAll : (tokens : List InlineToken) → FineAll P B tokens → FineAll P B (joinAll tokens)
  | [], h => by rwa [InlineToken.joinAll]
  | token :: tokens, h => by
    rw [FineAll] at h
    rw [InlineToken.joinAll]
    exact FineAll.consText (Fine.joinInside token h.1) (FineAll.joinAll tokens h.2)

end

end InlineToken

namespace Delimiter

variable {Q : InlineToken → Prop} {tokens : Array InlineToken} {ds : Array Delimiter}

theorem forall_set! (h : ∀ a ∈ tokens, Q a) (i : Nat) {token : InlineToken} (htoken : Q token) :
    ∀ a ∈ tokens.set! i token, Q a := by
  intro a ha
  rw [Array.set!_eq_setIfInBounds] at ha
  rcases Array.mem_or_eq_of_mem_setIfInBounds ha with ha | rfl
  · exact h a ha
  · exact htoken

theorem forall_getElem! (hempty : Q (.text [])) (h : ∀ a ∈ tokens, Q a) (i : Nat) : Q tokens[i]! := by
  by_cases hi : i < tokens.size
  · rw [getElem!_pos tokens i hi]
    exact h _ (Array.getElem_mem hi)
  · rw [getElem!_neg tokens i hi]
    exact hempty

theorem forall_moveBehindEnds (hempty : Q (.text [])) (h : ∀ a ∈ tokens, Q a) (i : Nat) : ∀ a ∈ moveBehindEnds tokens i, Q a := by
  unfold moveBehindEnds
  dsimp only
  split
  · exact h
  · exact forall_set! (forall_set! h _ (forall_getElem! hempty h _)) _ (forall_getElem! hempty h _)

theorem forall_foldl {α β : Type} {motive : β → Prop} {f : β → α → β} (hf : ∀ b a, motive b → motive (f b a)) (l : List α) {b : β}
    (h : motive b) : motive (l.foldl f b) := by
  induction l generalizing b with
  | nil => exact h
  | cons a l ih => exact ih (hf b a h)

section Marks
variable (hempty : Q (.text [])) (hopening : ∀ mark, Q (.opening mark)) (hclosing : ∀ mark, Q (.closing mark))
include hempty hopening hclosing

theorem forall_markStrikes (h : ∀ a ∈ tokens, Q a) : ∀ a ∈ markStrikes ds tokens, Q a := by
  unfold markStrikes
  dsimp only
  refine forall_foldl (motive := fun tokens : Array InlineToken => ∀ a ∈ tokens, Q a)
    (fun tokens i htokens => forall_moveBehindEnds hempty htokens i) _ ?_
  rw [← Array.foldl_toList]
  refine forall_foldl (motive := fun r : Array InlineToken × List Nat => ∀ a ∈ r.1, Q a) ?_ _ h
  rintro ⟨tokens, lone⟩ d htokens
  dsimp only
  split
  · exact forall_set! (forall_set! htokens _ (hopening _)) _ (hclosing _)
  · exact htokens

theorem forall_markEmphasis (n : Nat) (skip : Bool) (h : ∀ a ∈ tokens, Q a) : ∀ a ∈ markEmphasis ds n skip tokens, Q a := by
  induction n generalizing skip tokens with
  | zero => exact h
  | succ n ih =>
    cases skip with
    | true => exact ih false h
    | false =>
      unfold markEmphasis
      dsimp only
      split
      · exact ih false h
      · split
        · exact ih false h
        · have hmarked (mark : Mark) (i j : Nat) := forall_set! (forall_set! h i (hopening mark)) j (hclosing mark)
          refine ih _ ?_
          split
          · exact forall_set! (forall_set! (hmarked _ _ _) _ hempty) _ hempty
          · exact hmarked _ _ _

end Marks

end Delimiter

namespace Inline

/-- Joining delimiters puts marks and empty texts for some tokens. -/
theorem finish_fine {w : Writer} (h : ∀ a ∈ w.tokens, a.Fine P B) : InlineToken.FineAll P B (finish w) := by
  have hempty : (InlineToken.text []).Fine P B := by
    rw [InlineToken.Fine]
    exact .nil
  have hopening (mark : Mark) : (InlineToken.opening mark).Fine P B := by
    rw [InlineToken.Fine]
    trivial
  have hclosing (mark : Mark) : (InlineToken.closing mark).Fine P B := by
    rw [InlineToken.Fine]
    trivial
  have hfold {f : Array InlineToken → Array Delimiter → Array InlineToken} (hf : ∀ tokens ds, (∀ a ∈ tokens, a.Fine P B) →
      ∀ a ∈ f tokens ds, a.Fine P B) (groups : Array (Array Delimiter)) {tokens : Array InlineToken}
      (htokens : ∀ a ∈ tokens, a.Fine P B) : ∀ a ∈ groups.foldl f tokens, a.Fine P B := by
    rw [← Array.foldl_toList]
    exact Delimiter.forall_foldl (motive := fun tokens : Array InlineToken => ∀ a ∈ tokens, a.Fine P B) hf _ htokens
  unfold finish
  refine InlineToken.FineAll.joinTexts (InlineToken.fineAll_iff.2 fun a ha => ?_)
  refine hfold (fun tokens ds htokens => ?_) _ (hfold (fun tokens ds htokens => ?_) _ h) a (Array.mem_toList_iff.1 ha)
  · exact Delimiter.forall_markEmphasis hempty hopening hclosing _ _ htokens
  · exact Delimiter.forall_markStrikes hempty hopening hclosing htokens

/-! ## Writing -/

/-- What has been written holds whole placeholders, and what was skipped ends between them. -/
structure Writer.Fine (P B : Prop) (x : Text) (w : Writer) : Prop where
  tokens : ∀ a ∈ w.tokens, a.Fine P B
  pending : Complete w.pending.reverse
  memory : w.memory.Known P x

namespace Writer

variable {w : Writer} {token : InlineToken}

theorem Fine.flush (h : w.Fine P B x) : w.flush.Fine P B x := by
  unfold Writer.flush
  split
  · exact h
  · refine ⟨fun a ha => ?_, .nil, h.memory⟩
    rcases Array.mem_push.1 ha with ha | rfl
    · exact h.tokens a ha
    · rw [InlineToken.Fine]
      exact h.pending

theorem Fine.push (h : w.Fine P B x) (htoken : token.Fine P B) : (w.push token).Fine P B x := by
  refine ⟨fun a ha => ?_, h.flush.pending, h.flush.memory⟩
  rcases Array.mem_push.1 ha with ha | rfl
  · exact h.flush.tokens a ha
  · exact htoken

theorem Fine.push_text (h : w.Fine P B x) (ht : Complete t) : (w.push (.text t)).Fine P B x :=
  h.push (by rwa [InlineToken.Fine])

theorem Fine.addText (h : w.Fine P B x) (ht : Complete t) : (w.addText t).Fine P B x := by
  refine ⟨h.tokens, ?_, h.memory⟩
  rw [Writer.addText, List.reverse_append, List.reverse_reverse]
  exact h.pending.append ht

theorem Fine.openMark (h : w.Fine P B x) (mark : Mark) : (w.openMark mark).Fine P B x := by
  have hpush : (w.push (.opening mark)).Fine P B x := h.push (by rw [InlineToken.Fine]; trivial)
  exact ⟨hpush.tokens, hpush.pending, hpush.memory⟩

theorem Fine.closeMark (h : w.Fine P B x) (mark : Mark) : (w.closeMark mark).Fine P B x := by
  have hpush : (w.push (.closing mark)).Fine P B x := h.push (by rw [InlineToken.Fine]; trivial)
  exact ⟨hpush.tokens, hpush.pending, hpush.memory⟩

theorem Fine.setMemory (h : w.Fine P B x) {memory : Memory} (hmemory : memory.Known P x) :
    ({ w with memory } : Writer).Fine P B x := ⟨h.tokens, h.pending, hmemory⟩

theorem Fine.dropSpaces (h : w.Fine P B x) : ({ w with pending := w.pending.dropWhile (· = ' ') } : Writer).Fine P B x := by
  refine ⟨h.tokens, ?_, h.memory⟩
  have hsplit := h.pending
  rw [← List.takeWhile_append_dropWhile (p := (· = ' ')) (l := w.pending), List.reverse_append] at hsplit
  refine (hsplit.cut fun c hc => ?_).1
  have hspace := List.mem_takeWhile_imp (List.mem_reverse.1 (List.mem_of_mem_head? hc))
  rw [of_decide_eq_true hspace]
  decide

theorem Fine.addDelimiter (h : w.Fine P B x) (marker : Char) (ht : Complete t) (length : Nat) (flanks : Flanks) :
    (w.addDelimiter marker t length flanks).Fine P B x := by
  have hpush := h.push_text ht
  exact ⟨hpush.tokens, hpush.pending, hpush.memory⟩

theorem Fine.addRun (h : w.Fine P B x) {marker : Char} (hmarker : isPlace marker = false) (length : Nat) (flanks : Flanks) :
    (w.addRun marker length flanks).Fine P B x := by
  have hlone {c : Char} (hc : isPlace c = false) : Complete [c] := .of_placeless (List.forall_mem_singleton.2 hc)
  have hpair : Complete ['~', '~'] := .of_placeless (List.forall_mem_cons.2 ⟨rfl, List.forall_mem_singleton.2 rfl⟩)
  unfold Writer.addRun
  split
  · refine Delimiter.forall_foldl (motive := Writer.Fine P B x) (fun w _ hw => hw.addDelimiter '~' hpair 0 flanks) _ ?_
    split
    · exact h.push_text (hlone rfl)
    · exact h
  · exact Delimiter.forall_foldl (motive := Writer.Fine P B x) (fun w _ hw => hw.addDelimiter marker (hlone hmarker) length flanks) _ h

theorem fine_empty (size : Nat) : (Writer.empty size).Fine P B x := ⟨nofun, .nil, Source.known_empty size⟩

end Writer

end Inline

namespace Source

variable {s : Source} {i limit : Nat}

/-- A part of a source between two places. -/
theorem sound_slice (hs : Sound P B s.text) (hi : At P s.text i) (hlimit : s.Bounds P limit) : Sound P B (s.slice i limit) := by
  rw [slice_eq]
  by_cases hle : i ≤ limit
  · refine hs.part (r := (s.text.drop i).drop (limit - i)) hi (List.take_append_drop _ _).symm ?_
    rw [List.drop_drop, Nat.add_sub_cancel' hle]
    rcases hlimit.ends with rfl | hend
    · exact .inl (List.drop_eq_nil_of_le (Nat.le_of_eq (Array.length_toList)))
    · exact .inr ⟨_, drop_of_chars hend, hlimit.at_.reach⟩
  · rw [Nat.sub_eq_zero_of_le (Nat.le_of_not_le hle), List.take_zero]
    refine hs.part (r := s.text.drop s.chars.size) (.of_le (Nat.le_of_eq Array.length_toList)) (List.nil_append _).symm (.inl ?_)
    exact List.drop_eq_nil_of_le (Nat.le_of_eq Array.length_toList)

end Source

namespace Inline

/-- A way to write parts of a source that leaves placeholders whole. -/
def Fining (P B : Prop) (s : Source) (inner : Writing) : Prop :=
  ∀ w i limit w', s.Bounds P limit → At P s.text i → w.Fine P B s.text → inner w i limit = .ok w' → w'.Fine P B s.text

variable {s : Source} {alternative : Alternative} {inner : Writing} {w w' : Writer} {i limit : Nat}

section Pieces
variable (hs : Sound P B s.text)
  (halternative : ∀ t tokens, Sound P B t → alternative t = .ok tokens → InlineToken.FineAll P B tokens)
include hs halternative

theorem writePiece_fine (hinner : Fining P B s inner) (hw : w.Fine P B s.text) {piece : Piece} (hpiece : piece.Lands P B s)
    (h : writePiece s alternative inner w i limit piece = .ok w') : w'.Fine P B s.text := by
  cases piece with
  | text value stop =>
    cases h
    exact hw.addText hpiece.1
  | lineEnd stop =>
    cases h
    exact hw.dropSpaces.push (by rw [InlineToken.Fine]; trivial)
  | hardBreak stop =>
    cases h
    exact hw.push (by rw [InlineToken.Fine]; trivial)
  | special value stop =>
    cases h
    exact hw.push (by rw [InlineToken.Fine]; exact hpiece.1)
  | code value stop =>
    cases h
    exact hw.push (by rw [InlineToken.Fine]; exact hpiece.1)
  | delimiters marker stop =>
    cases h
    exact hw.addRun hpiece.1 _ _
  | link target first last stop =>
    obtain ⟨v, hv, h⟩ := bind_eq_ok.1 h
    cases h
    exact (hinner _ first last v hpiece.1.2 hpiece.1.1 (hw.openMark _) hv).closeMark _
  | image target first last stop =>
    obtain ⟨tokens, htokens, h⟩ := bind_eq_ok.1 h
    cases h
    refine hw.push ?_
    rw [InlineToken.Fine]
    exact halternative _ tokens (Source.sound_slice hs hpiece.1.1 hpiece.1.2) htokens
  | autolink target shown stop =>
    cases h
    exact ((hw.openMark _).push_text hpiece.1).closeMark _

theorem writePieces_fine {skip : Source.Skipping} (hskip : skip.Lands P s) (hinner : Fining P B s inner)
    (hlimit : s.Bounds P limit) {fuel : Nat} (hi : At P s.text i) (hw : w.Fine P B s.text)
    (h : writePieces s alternative skip inner limit fuel w i = .ok w') : w'.Fine P B s.text := by
  induction fuel generalizing w i with
  | zero =>
    cases h
    exact hw.flush
  | succ fuel ih =>
    unfold writePieces at h
    split at h
    · next hlt =>
      obtain ⟨hknown, hfound⟩ := Source.pieceAt_lands hs hskip hlimit hw.memory hi hlt
      split at h
      · next piece memory hpiece =>
        rw [hpiece] at hknown hfound
        obtain ⟨v, hv, h⟩ := bind_eq_ok.1 h
        have hlands := hfound.lands piece rfl
        exact ih hlands.stop (writePiece_fine hs halternative hinner (hw.setMemory hknown) hlands hv) h
      · next memory hpiece =>
        rw [hpiece] at hknown hfound
        exact ih (hfound.next (.inl rfl)) ((hw.setMemory hknown).addText (hfound.plain rfl)) h
    · cases h
      exact hw.flush

theorem write_fine (room : Nat) : Fining P B s (write s alternative room) := by
  induction room with
  | zero =>
    intro w i limit w' hlimit hi hw h
    cases h
    exact (hw.addText (Source.sound_slice hs hi hlimit).intact.whole.complete).flush
  | succ room ih =>
    intro w i limit w' hlimit hi hw h
    exact writePieces_fine hs halternative (Source.skip_lands hs _) ih hlimit hi hw h

end Pieces

/-- The tokens of a sound source. -/
theorem read_fine {references : List Reference} {budget : Nat} {tokens : List InlineToken} (hx : Sound P B x)
    (h : read references budget x = .ok tokens) : InlineToken.FineAll P B tokens := by
  induction budget using Nat.strong_induction_on generalizing x tokens with
  | _ budget ih =>
    unfold read at h
    split at h
    · next budget =>
      obtain ⟨w, hw, h⟩ := bind_eq_ok.1 h
      cases h
      have hwhole : At P x 0 := .zero hx.intact.whole
      have hend : At P x x.length := .of_le (Nat.le_refl _)
      exact finish_fine (write_fine (s := ⟨x.toArray, references⟩) hx (fun t tokens ht htokens => ih budget (by omega) ht htokens)
        maxBracketDepth _ 0 x.length w ⟨hend, .inl rfl⟩ hwhole (Writer.fine_empty _) hw).tokens
    · cases h

/-- The tokens of what is made of an ordinary stretch. -/
theorem tokens_fine {references : List Reference} {budget : Nat} {tokens : List InlineToken} (hmade : Made t x)
    (huncoded : Uncoded x) (hreturn : '\r' ∉ x) (hharmless : P → Harmless t) (h : Inline.tokens references budget x = .ok tokens) :
    InlineToken.FineAll P ('\x60' ∈ t) tokens := by
  obtain ⟨read, hread, h⟩ := bind_eq_ok.1 h
  cases h
  rw [normalize, Text.anyNewlineToLf_of_notMem hreturn] at hread
  have hsound : Sound P ('\x60' ∈ t) x := by
    refine ⟨hmade.intact, huncoded, fun hc => ?_, fun hP => ⟨hmade.clean, hmade.shows.calm (hharmless hP)⟩⟩
    obtain ⟨a, b, rfl⟩ := List.append_of_mem hc
    obtain ⟨e, -, hword⟩ := hmade.shows.inside '\x60' [] [] (List.forall_mem_singleton.2 rfl) (by decide) (.inl rfl) ⟨a, b, by simp⟩
    exact hword.subset List.mem_cons_self
  exact InlineToken.FineAll.joinAll _ (read_fine hsound.showNull hread)

end Inline

/-! ## Nodes put back -/

namespace Content

variable {lifted nodes : List Node}

theorem partsFrom_placeless {skip : Nat} {before : Text} {ps : List Part} (hbefore : Placeless before)
    (ht : Complete (t.drop skip)) (h : partsFrom skip before t = .ok ps) : ∀ value, .text value ∈ ps → Placeless value := by
  have htext {before : Text} (hbefore : Placeless before) : ∀ value, .text value ∈ textPart before → Placeless value := by
    intro value hmem
    unfold textPart at hmem
    split at hmem
    · cases hmem
    · cases List.mem_singleton.1 hmem
      exact fun c hc => hbefore c (List.mem_reverse.1 hc)
  induction t generalizing skip before ps with
  | nil =>
    cases h
    exact htext hbefore
  | cons c t ih =>
    cases skip with
    | succ skip => exact ih hbefore ht h
    | zero =>
      rw [List.drop_zero] at ht
      rw [partsFrom] at h
      generalize hx : c :: t = x at ht
      cases ht with
      | nil => cases hx
      | @char a y ha hy =>
        obtain ⟨rfl, rfl⟩ := List.cons.inj hx
        have hnone : placeholderDigits? (c :: t) = none := by
          simp [placeholderDigits?, (isPlace_eq_false.1 ha).1]
        rw [hnone] at h
        exact ih (List.forall_mem_cons.2 ⟨ha, hbefore⟩) (show Complete (t.drop 0) from hy) h
      | @place d y hd hne hy =>
        obtain ⟨rfl, rfl⟩ := List.cons.inj hx
        have hdigits : placeholderDigits? (openPlace :: (d ++ closePlace :: y)) = some d := by
          rw [placeholderDigits?_run hd (by rintro _ ⟨⟩; decide), if_pos ⟨hne, rfl⟩]
        rw [hdigits] at h
        dsimp only at h
        split at h
        · cases h
        · obtain ⟨rest, hrest, h⟩ := bind_eq_ok.1 h
          cases h
          have hy' : Complete ((d ++ closePlace :: y).drop (d.length + 1)) := by
            rwa [← List.drop_drop, List.drop_left]
          intro value hmem
          rcases List.mem_append.1 hmem with hmem | hmem
          · rcases List.mem_append.1 hmem with hmem | hmem
            · exact htext hbefore value hmem
            · obtain ⟨_, -, hpart⟩ := Option.map_eq_some_iff.1 (Option.mem_toList.1 hmem)
              cases hpart
          · exact ih placeless_nil hy' hrest value hmem

/-- Texts of nodes that are put back hold nothing of a placeholder. -/
theorem parts_placeless {ps : List Part} (ht : Complete t) (h : parts t = .ok ps) : ∀ value, .text value ∈ ps → Placeless value :=
  partsFrom_placeless placeless_nil (show Complete (t.drop 0) from ht) h

end Content
end Narration.Markup
