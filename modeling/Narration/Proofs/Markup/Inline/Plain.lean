import Narration.Markup.Content
import Narration.Proofs.Buffer
import Narration.Proofs.Fallible
import Narration.Proofs.Markup.Inline.Kept

/-!
# Inline content that is plain text

* `Content.escapeBars` : a text with its bars escaped, as in the cell of a table;
* `InlineToken.Spells` : tokens that spell a text;
* `Content.read_escapeBars` : words, with their bars escaped, are read as one text.
-/

namespace Narration.Markup
open Fallible

/-- A character that means nothing in inline content, save a bar, which may be escaped. -/
def isProse (c : Char) : Bool := c.isAlpha || c == ' ' || c == '|'

namespace InlineToken

/-- Texts and specials that spell a text together. -/
inductive Spells : List InlineToken → Text → Prop
  | nil : Spells [] []
  | text {ts : List InlineToken} {v : Text} (u : Text) (h : Spells ts v) : Spells (.text u :: ts) (u ++ v)
  | special {ts : List InlineToken} {v : Text} (u : Text) (h : Spells ts v) : Spells (.special u :: ts) (u ++ v)

variable {ts ts' : List InlineToken} {u v : Text}

theorem Spells.append (h : Spells ts u) (h' : Spells ts' v) : Spells (ts ++ ts') (u ++ v) := by
  induction h with
  | nil => exact h'
  | text w _ ih => rw [List.append_assoc]; exact .text w ih
  | special w _ ih => rw [List.append_assoc]; exact .special w ih

theorem Spells.consText_text (h : Spells ts v) (u : Text) : Spells (consText (.text u) ts) (u ++ v) := by
  cases h with
  | nil => exact .text u .nil
  | text w h => rw [← List.append_assoc]; exact .text _ h
  | special w h => exact .text u (.special w h)

theorem Spells.joinTexts (h : Spells ts v) : Spells (joinTexts ts) v := by
  induction h with
  | nil => exact .nil
  | text u _ ih => exact ih.consText_text u
  | special u _ ih => exact .special u ih

/-- Tokens that spell a text are joined to one. -/
theorem Spells.joinAll (h : Spells ts v) : ts = [] ∧ v = [] ∨ joinAll ts = [.text v] := by
  induction h with
  | nil => exact .inl ⟨rfl, rfl⟩
  | text u _ ih | special u _ ih =>
    right
    rcases ih with ⟨rfl, rfl⟩ | ih
    · rw [List.append_nil]
      rfl
    · rw [InlineToken.joinAll, ih]
      rfl

end InlineToken

namespace Inline
open InlineToken (Spells)

variable {w : Writer} {s : Source} {u v : Text} {i : Nat}

/-- What has been written is text, and no delimiters. -/
structure Writer.Spelled (w : Writer) (v : Text) : Prop where
  groups : w.groups = #[#[]]
  spells : ∃ a, Spells w.tokens.toList a ∧ v = a ++ w.pending.reverse

theorem Writer.Spelled.flush (h : w.Spelled v) : w.flush.groups = #[#[]] ∧ Spells w.flush.tokens.toList v := by
  obtain ⟨hgroups, a, ha, rfl⟩ := h
  unfold Writer.flush
  split
  · next hnil =>
    rw [List.isEmpty_iff.1 hnil, List.reverse_nil, List.append_nil]
    exact ⟨hgroups, ha⟩
  · refine ⟨hgroups, ?_⟩
    rw [Array.toList_push]
    have hlast := ha.append (.text w.pending.reverse .nil)
    rwa [List.append_nil] at hlast

theorem Writer.Spelled.addText (h : w.Spelled v) (u : Text) : (w.addText u).Spelled (v ++ u) := by
  obtain ⟨hgroups, a, ha, rfl⟩ := h
  exact ⟨hgroups, a, ha, by simp [Writer.addText]⟩

theorem Writer.Spelled.special (h : w.Spelled v) (u : Text) : (w.push (.special u)).Spelled (v ++ u) := by
  obtain ⟨hgroups, hspells⟩ := h.flush
  refine ⟨hgroups, v ++ u, ?_, ?_⟩
  · rw [Writer.push, Array.toList_push]
    have hlast := hspells.append (.special u .nil)
    rwa [List.append_nil] at hlast
  · have hpending : (w.push (.special u)).pending = [] := by
      unfold Writer.push Writer.flush
      split
      · next hnil => exact List.isEmpty_iff.1 hnil
      · rfl
    rw [hpending, List.reverse_nil, List.append_nil]

/-- Delimiters that are not there leave the tokens as they are. -/
theorem finish_of_groups (h : w.groups = #[#[]]) : finish w = InlineToken.joinTexts w.tokens.toList := by
  have hpair : (#[#[]] : Array (Array Delimiter)).map Delimiter.pair = #[#[]] := by simp [Delimiter.pair]
  rw [finish, h, hpair]
  simp [Delimiter.markStrikes, Delimiter.markEmphasis]

end Inline

namespace Content
open Inline InlineToken

/-- A text with a backslash before each bar. -/
def escapeBars (t : Text) : Text := t.flatMap fun c => if c = '|' then ['\\', '|'] else [c]

theorem escapeBars_nil : escapeBars [] = [] := rfl

theorem escapeBars_bar (t : Text) : escapeBars ('|' :: t) = '\\' :: '|' :: escapeBars t := rfl

theorem escapeBars_cons {c : Char} (hc : c ≠ '|') (t : Text) : escapeBars (c :: t) = c :: escapeBars t := by
  rw [escapeBars, List.flatMap_cons, if_neg hc]
  rfl

theorem escapeBars_append (u v : Text) : escapeBars (u ++ v) = escapeBars u ++ escapeBars v := List.flatMap_append

theorem escapeBars_of_notMem {t : Text} (h : '|' ∉ t) : escapeBars t = t := by
  induction t with
  | nil => rfl
  | cons c t ih =>
    rw [List.mem_cons, not_or] at h
    rw [escapeBars_cons (Ne.symm h.1), ih h.2]

theorem mem_escapeBars {c : Char} {t : Text} (h : c ∈ escapeBars t) : c = '\\' ∨ c ∈ t := by
  obtain ⟨d, hd, hc⟩ := List.mem_flatMap.1 h
  split at hc
  · next hbar =>
    simp only [List.mem_cons, List.not_mem_nil, or_false] at hc
    rcases hc with rfl | rfl
    · exact .inl rfl
    · exact .inr (hbar ▸ hd)
  · exact .inr (List.mem_singleton.1 hc ▸ hd)

/-- A text is a run without bars, and either nothing more or a bar. -/
theorem exists_run_bar (t : Text) : ∃ u v, t = u ++ v ∧ '|' ∉ u ∧ (v = [] ∨ ∃ v', v = '|' :: v') := by
  obtain ⟨u, v, rfl, hu, hv⟩ := Text.exists_run (· ≠ '|') t
  refine ⟨u, v, rfl, fun hmem => by simpa using hu _ hmem, hv.imp_right ?_⟩
  rintro ⟨c, v', rfl, hc⟩
  exact ⟨v', by rw [show c = '|' by simpa using hc]⟩

/-! ## Characters of prose -/

theorem isProse_ne {c d : Char} (hc : isProse c) (hd : isProse d = false) : c ≠ d := by
  rintro rfl
  rw [hc] at hd
  cases hd

theorem not_endsText_of_isProse {c : Char} (hc : isProse c) : Source.endsText c = false := by
  rw [← Bool.not_eq_true, Source.endsText, List.contains_iff_mem]
  intro hmem
  have hnone : ∀ d ∈ "\n!#$%&*+-:<=>@[\\]^_\x60\x7b\x7d~".toList, isProse d = false := by decide
  exact isProse_ne hc (hnone c hmem) rfl

theorem not_isSpecial_of_isProse {c : Char} (hc : isProse c) : isSpecial c = false := by
  simp only [isSpecial, Bool.or_eq_false_iff, beq_eq_false_iff_ne]
  exact ⟨⟨⟨isProse_ne hc rfl, isProse_ne hc rfl⟩, isProse_ne hc rfl⟩, isProse_ne hc rfl⟩

end Content

namespace Inline
open InlineToken (Spells)
open Content

variable {s : Source} {w : Writer} {r v : Text} {i : Nat}

/-- Prose with its bars escaped is written as it is. -/
theorem writePieces_escapeBars (alternative : Alternative) (skip : Source.Skipping) (inner : Writing) {fuel : Nat}
    (hdrop : s.text.drop i = escapeBars r) (hr : ∀ c ∈ r, isProse c) (hfuel : (escapeBars r).length < fuel)
    (hw : w.Spelled v) : ∃ w', writePieces s alternative skip inner s.chars.size fuel w i = .ok w' ∧
      w'.groups = #[#[]] ∧ Spells w'.tokens.toList (v ++ r) := by
  induction fuel generalizing w r v i with
  | zero => exact absurd hfuel (Nat.not_lt_zero _)
  | succ fuel ih =>
    have hsize : s.chars.size - i = (escapeBars r).length := by
      rw [← hdrop, List.length_drop, Array.length_toList]
    have hmemory : ({ w with memory := w.memory } : Writer) = w := rfl
    cases r with
    | nil =>
      rw [escapeBars_nil, List.length_nil] at hsize
      rw [writePieces, if_neg (by omega), List.append_nil]
      exact ⟨_, rfl, hw.flush⟩
    | cons c r =>
      obtain ⟨hc, hr'⟩ := List.forall_mem_cons.1 hr
      by_cases hbar : c = '|'
      · subst hbar
        rw [escapeBars_bar] at hdrop hsize hfuel
        simp only [List.length_cons] at hsize hfuel
        have hhead : s.chars[i]? = some '\\' := by rw [Source.getElem?_chars, hdrop, List.head?_cons]
        have hrest (n : Nat) : s.text.drop (i + n) = ('\\' :: '|' :: escapeBars r).drop n := by
          rw [← List.drop_drop, hdrop]
        have hnext : s.at? s.chars.size (i + 1) = some '|' := by
          rw [Source.at?, if_pos (by omega), Source.getElem?_chars, hrest 1]
          rfl
        have hpiece : s.pieceAt skip w.memory i s.chars.size = (some (.special ['|'] (i + 2)), w.memory) := by
          simp only [Source.pieceAt, hhead, Source.escapeAt, hnext]
          rfl
        rw [writePieces, if_pos (by omega), hpiece]
        dsimp only
        rw [hmemory]
        obtain ⟨w', hw', hend⟩ := ih (hrest 2) hr' (by omega) (hw.special ['|'])
        refine ⟨w', hw', ?_⟩
        rwa [List.append_assoc, List.singleton_append] at hend
      · obtain ⟨u, q, hsplit, hu, hq⟩ := exists_run_bar (c :: r)
        have hne : u ≠ [] := by
          rintro rfl
          rcases hq with rfl | ⟨q, rfl⟩
          · cases hsplit
          · exact hbar (List.cons.inj hsplit).1
        rw [hsplit, escapeBars_append, escapeBars_of_notMem hu] at hdrop hsize hfuel
        rw [hsplit] at hr ⊢
        have hlength := List.length_pos_iff.2 hne
        rw [List.length_append] at hsize hfuel
        have hrun : s.pass (fun c => !Source.endsText c) i s.chars.size = i + u.length := by
          refine Source.pass_run hdrop (fun d hd => ?_) fun d hd => ?_
          · rw [not_endsText_of_isProse (hr d (List.mem_append_left _ hd))]
            rfl
          · rcases hq with rfl | ⟨q, rfl⟩
            · cases hd
            · cases hd
              rfl
        have hslice : s.slice i (i + u.length) = u := by
          rw [Source.slice_eq, hdrop, Nat.add_sub_cancel_left, List.take_left]
        obtain ⟨d, u', rfl⟩ := List.exists_cons_of_ne_nil hne
        have hhead : s.chars[i]? = some d := by rw [Source.getElem?_chars, hdrop]; rfl
        have hends : Source.endsText d = false :=
          not_endsText_of_isProse (hr d (List.mem_append_left _ List.mem_cons_self))
        have hpiece : s.pieceAt skip w.memory i s.chars.size =
            (some (.text (d :: u') (i + (d :: u').length)), w.memory) := by
          simp only [Source.pieceAt, hhead, hends, Bool.not_false, if_true, hrun, hslice]
        rw [writePieces, if_pos (by omega), hpiece]
        dsimp only
        rw [hmemory]
        have hrest : s.text.drop (i + (d :: u').length) = escapeBars q := by
          rw [← List.drop_drop, hdrop, List.drop_left]
        obtain ⟨w', hw', hend⟩ := ih hrest (fun e he => hr e (List.mem_append_right _ he)) (by omega)
          (hw.addText (d :: u'))
        refine ⟨w', hw', ?_⟩
        rwa [List.append_assoc] at hend

theorem normalize_of_isProse {t : Text} (h : ∀ c ∈ t, c ≠ '\r' ∧ c ≠ '\x00') : normalize t = t := by
  rw [normalize, Text.anyNewlineToLf_of_notMem fun hc => (h _ hc).1 rfl]
  exact (List.map_congr_left fun c hc => if_neg (h c hc).2).trans (List.map_id t)

/-- Prose with its bars escaped makes one text. -/
theorem tokens_escapeBars (references : List Reference) (budget : Nat) (hr : ∀ c ∈ r, isProse c) (hne : r ≠ []) :
    tokens references (budget + 3) (escapeBars r) = .ok [.text r] := by
  have hplain : ∀ c ∈ escapeBars r, c ≠ '\r' ∧ c ≠ '\x00' := by
    intro c hc
    rcases mem_escapeBars hc with rfl | hc
    · decide
    · exact ⟨isProse_ne (hr c hc) rfl, isProse_ne (hr c hc) rfl⟩
  have hempty : (Writer.empty (escapeBars r).length).Spelled [] := ⟨rfl, [], .nil, rfl⟩
  have hdrop : (⟨(escapeBars r).toArray, references⟩ : Source).text.drop 0 = escapeBars r := rfl
  obtain ⟨w, hw, hgroups, hspells⟩ := writePieces_escapeBars (read references budget)
    ((⟨(escapeBars r).toArray, references⟩ : Source).skip 20)
    (write ⟨(escapeBars r).toArray, references⟩ (read references budget) 19) hdrop hr (Nat.lt_succ_self _) hempty
  have hread : read references (budget + 3) (escapeBars r) = .ok (InlineToken.joinTexts w.tokens.toList) := by
    rw [read, ← finish_of_groups hgroups]
    exact bind_eq_ok.2 ⟨w, hw, rfl⟩
  rw [tokens, normalize_of_isProse hplain, hread]
  rcases hspells.joinTexts.joinAll with ⟨-, hnil⟩ | hjoin
  · exact absurd hnil hne
  · exact congrArg Except.ok hjoin

end Inline

namespace Content
open Inline

variable {scope : Scope} {inner : Stretch → Except Fault (List Node)} {s : Stretch} {r : Text}

/-- Nothing is lifted out of prose. -/
theorem lift_escapeBars {fuel : Nat} (n : Nat) (hs : s.chars = escapeBars r) (hr : ∀ c ∈ r, isProse c)
    (hfuel : s.chars.length ≤ fuel) : lift scope inner fuel n s = .ok (escapeBars r, []) := by
  induction fuel generalizing s r with
  | zero =>
    have hnil : s.chars = [] := List.length_eq_zero_iff.1 (Nat.le_zero.1 hfuel)
    rw [lift, ← hs, hnil]
  | succ fuel ih =>
    cases r with
    | nil =>
      rw [lift, if_pos (by rw [hs]; rfl)]
      rfl
    | cons c r =>
      obtain ⟨hc, hr'⟩ := List.forall_mem_cons.1 hr
      by_cases hbar : c = '|'
      · subst hbar
        rw [escapeBars_bar] at hs ⊢
        have hfront : front scope inner s = .ok (none, 2) := by
          rw [front, hs]
          rfl
        have hdrop : (s.drop 2).chars = escapeBars r := by rw [Stretch.drop, hs]; rfl
        have hrest := ih hdrop hr' (by rw [hdrop]; rw [hs] at hfuel; simp only [List.length_cons] at hfuel; omega)
        rw [lift, if_neg (by rw [hs]; simp), hfront]
        dsimp only [bind, Except.bind]
        rw [hrest, hs]
        rfl
      · obtain ⟨u, q, hsplit, hu, hq⟩ := exists_run_bar (c :: r)
        have hne : u ≠ [] := by
          rintro rfl
          rcases hq with rfl | ⟨q, rfl⟩
          · cases hsplit
          · exact hbar (List.cons.inj hsplit).1
        rw [hsplit] at hs hr ⊢
        rw [escapeBars_append, escapeBars_of_notMem hu] at hs ⊢
        obtain ⟨d, u', rfl⟩ := List.exists_cons_of_ne_nil hne
        have hplain : ∀ e ∈ d :: u', isSpecial e = false :=
          fun e he => not_isSpecial_of_isProse (hr e (List.mem_append_left _ he))
        have hrun : s.chars.takeWhile (!isSpecial ·) = d :: u' := by
          have hall : ∀ e ∈ d :: u', (!isSpecial e) = true := fun e he => by rw [hplain e he]; rfl
          rw [hs]
          rcases hq with rfl | ⟨q, rfl⟩
          · rw [escapeBars_nil, List.append_nil, Text.takeWhile_all hall]
          · rw [escapeBars_bar, Text.takeWhile_run hall rfl]
        have hfront : front scope inner s = .ok (none, (d :: u').length) := by
          have hd : isSpecial d = false := hplain d List.mem_cons_self
          simp only [isSpecial, Bool.or_eq_false_iff, beq_eq_false_iff_ne] at hd
          have hcons : s.chars = d :: (u' ++ escapeBars q) := hs
          rw [hcons] at hrun
          rw [front, hcons]
          split
          case h_5 => rw [hrun]
          all_goals
            next heq => exact absurd (List.cons.inj heq).1 (by tauto)
        have hdrop : (s.drop (d :: u').length).chars = escapeBars q := by
          rw [Stretch.drop, hs]
          exact List.drop_left
        have hrest := ih hdrop (fun e he => hr e (List.mem_append_right _ he)) (by
          rw [hdrop]
          rw [hs, List.length_append, List.length_cons] at hfuel
          omega)
        rw [lift, if_neg (by rw [hs]; simp), hfront]
        dsimp only [bind, Except.bind]
        rw [hrest, hs, List.take_left]
        rfl

/-- A text without the first private character holds no placeholders. -/
theorem parts_of_notMem {t : Text} (ht : openPlace ∉ t) : parts t = .ok (textPart t.reverse) := by
  have hfrom (before : Text) : partsFrom 0 before t = .ok (textPart (t.reverse ++ before)) := by
    induction t generalizing before with
    | nil => rfl
    | cons c t ih =>
      rw [List.mem_cons, not_or] at ht
      have hnone : placeholderDigits? (c :: t) = none := by
        simp only [placeholderDigits?, decide_eq_false (Ne.symm ht.1), Bool.false_and]
        rfl
      rw [partsFrom, hnone]
      dsimp only
      rw [ih ht.2, List.reverse_cons, List.append_assoc, List.singleton_append]
  rw [parts, hfrom, List.append_nil]

/-- Prose, with its bars escaped, is one text. -/
theorem read_escapeBars (budget : Nat) (hs : s.chars = escapeBars r) (hr : ∀ c ∈ r, isProse c) (hne : r ≠ []) :
    read scope (budget + 5) s = .ok [.leaf (.text r)] := by
  have hplace : ∀ c, isProse c = false → c ≠ '\\' → c ∉ s.chars := by
    intro c hc hslash hmem
    rw [hs] at hmem
    rcases mem_escapeBars hmem with rfl | hmem
    · exact hslash rfl
    · rw [hr c hmem] at hc
      cases hc
  have hwrite : mayWritePlaceholders s.chars = false := by
    rw [← Bool.not_eq_true, mayWritePlaceholders_iff]
    rintro (hc | hc | hc | hm)
    · exact hplace _ (by decide) (by decide) hc
    · exact hplace _ (by decide) (by decide) hc
    · exact hplace _ (by decide) (by decide) hc
    · exact hplace '-' (by decide) (by decide) (hm.subset (by decide))
  have hparts : parts r = .ok [.text r] := by
    rw [parts_of_notMem fun hmem => absurd (hr _ hmem) (by decide), textPart, if_neg (by simpa using hne), List.reverse_reverse]
  rw [read, lift_escapeBars 0 hs hr (Nat.le_refl _)]
  dsimp only [bind, Except.bind]
  rw [tokens_escapeBars scope.references budget hr hne]
  dsimp only
  rw [hwrite]
  simp only [nodesOf, addTokens, addToken, settle, hparts, bind, Except.bind, pure, Except.pure]
  rfl

end Content
end Narration.Markup
