import Narration.Proofs.Buffer
import Narration.Proofs.Markup.Body
import Narration.Proofs.Player.Written

/-!
# The lines of a narration block

* `Player.Writable` : what can be written as a narration block;
* `Player.exists_payload` : the lines of a payload between other texts: all between the first and the last is indented;
* `Player.exists_tag` : the lines of a tag: it begins with a bracket, ends with brackets, and all between is indented;
* `Player.inert_blockLines`, `Player.inert_importStatement` : no line of a block is a definition, nor hyphens;
* `Player.led_blockLines`, `Player.backtick_notMem_blockText` : the block as a text.
-/

namespace Narration

namespace Markup

variable {l : Text} {c : Char}

theorem inert_of_indented (u : Text) (hn : '\n' ∉ u) (hr : '\r' ∉ u) : Inert (List.replicate 4 ' ' ++ u) := by
  have hparts : List.replicate 4 ' ' ++ u = ' ' :: ' ' :: ' ' :: ' ' :: u := rfl
  rw [hparts]
  exact ⟨by simpa using hn, by simpa using hr, rfl, rfl, rfl⟩

theorem inert_nil : Inert [] := ⟨List.not_mem_nil, List.not_mem_nil, rfl, rfl, rfl⟩

theorem inert_cons (hbracket : c ≠ '[') (hspace : c ≠ ' ') (hhyphen : c ≠ '-') (hn : '\n' ∉ c :: l) (hr : '\r' ∉ c :: l) :
    Inert (c :: l) := by
  have hmargin : (((c :: l).take 3).takeWhile (· = ' ')).length = 0 := by
    rw [List.take_succ_cons, List.takeWhile_cons_of_neg (by simpa using hspace), List.length_nil]
  have hafter : Text.after? ['['] (c :: l) = none := by rw [Text.after?, if_neg (Ne.symm hbracket)]
  refine ⟨hn, hr, ?_, ?_, ?_⟩
  · unfold Reference.closesLabel
    rw [hmargin, List.drop_zero]
    split
    · next heq => exact absurd (List.cons.inj heq).1 hbracket
    · rfl
  · simp only [Reference.ofLine?, Reference.definition?, hmargin, List.drop_zero, hafter]
    rfl
  · rw [Block.isHyphens, Text.after?, if_neg (Ne.symm hhyphen)]
    rfl

end Markup

namespace Player
open Markup
open Text (led EndsLine)

variable {name path digest : Text} {voices : List Voice} {n : Narrated} {c : Char} {l : Text}

/-- What can be written as a narration block and read back. -/
structure Writable (n : Narrated) : Prop where
  name : isName n.name
  path : isPath n.path
  digest : isDigest n.digest
  voices : ∀ v ∈ n.voices, isPlainVoice v

/-! ## Characters -/

theorem notMem_payload_of_isPlainVoice (h : ∀ v ∈ voices, isPlainVoice v) (hc : c = '<' ∨ c = '\x60') :
    c ∉ Voice.payload voices := by
  have hsigns : c ∉ ['"', '\\', ':', ' ', ',', '\n', '[', ']', '\x7b', '\x7d'] := by
    rcases hc with rfl | rfl <;> decide
  have halnum : c.isAlphanum = false := by
    rcases hc with rfl | rfl <;> decide
  refine Voice.notMem_payload hsigns halnum fun v hv field hfield => .inl fun hmem => ?_
  have hplain := List.all_eq_true.1 (h v hv) c (by
    simp only [Voice.fields, List.mem_append, List.mem_cons, List.not_mem_nil, or_false] at hfield
    rcases hfield with (rfl | rfl) | hfield
    · simp [hmem]
    · simp [hmem]
    · split at hfield
      · cases hfield
      · rw [List.mem_singleton.1 hfield] at hmem
        simp [hmem])
  rcases hc with rfl | rfl <;> simp at hplain

theorem carriage_notMem_tag (hn : isName name) (voices : List Voice) : '\r' ∉ tag voices name := by
  have hname := notMem_of_isName hn (d := '\r') (by decide)
  have hvoices : '\r' ∉ voicesAttribute := by decide
  have hpayload : '\r' ∉ Voice.payload voices :=
    Voice.notMem_payload (by decide) (by decide) fun _ _ _ _ => .inr (by decide)
  simp [tag, hname, hvoices, hpayload]

theorem backtick_notMem_blockText (h : Writable n) : '\x60' ∉ blockText n := by
  have hname := notMem_of_isName h.name (d := '\x60') (by decide)
  have hvoices : '\x60' ∉ voicesAttribute := by decide
  have hpayload := notMem_payload_of_isPlainVoice h.voices (.inr rfl)
  have hstamp := notMem_stampSource h.digest (c := '\x60') (by decide) (by decide) (by decide)
  simp [blockText, stamp_eq, tag, hname, hvoices, hpayload, hstamp]

theorem getLast?_blockText (n : Narrated) : (blockText n).getLast? = some '>' := by
  simp [blockText, tag, List.getLast?_append, List.getLast?_cons]

/-! ## Lines -/

theorem mem_separated {ls : List Text} (h : l ∈ Voice.separated ls) : ∃ k ∈ ls, l = k ∨ l = k ++ [','] := by
  match ls with
  | [] => cases h
  | [k] => exact ⟨k, List.mem_singleton_self k, .inl (List.mem_singleton.1 h)⟩
  | k :: m :: ls =>
    rw [Voice.separated, List.mem_cons] at h
    · rcases h with rfl | h
      · exact ⟨k, List.mem_cons_self, .inr rfl⟩
      · obtain ⟨k', hk', hl⟩ := mem_separated h
        exact ⟨k', List.mem_cons_of_mem k hk', hl⟩
    · simp

theorem newline_notMem_member (field : Text × Text) : '\n' ∉ Voice.member field := by
  have hquote (t : Text) : '\n' ∉ Voice.quote t := Voice.notMem_quote (by decide) (by decide) (.inr (by decide))
  simp [Voice.member, hquote]

theorem exists_line {v : Voice} (h : l ∈ v.lines) : ∃ u, l = List.replicate 4 ' ' ++ u ∧ '\n' ∉ u := by
  rw [Voice.lines_eq, List.mem_append, List.mem_append, List.mem_singleton, List.mem_singleton] at h
  rcases h with (rfl | h) | rfl
  · exact ⟨_, rfl, by decide⟩
  · obtain ⟨k, hk, hl⟩ := mem_separated h
    obtain ⟨field, -, rfl⟩ := List.mem_map.1 hk
    have hmember := newline_notMem_member field
    rcases hl with rfl | rfl
    · exact ⟨' ' :: ' ' :: Voice.member field, rfl, by simpa using hmember⟩
    · exact ⟨' ' :: ' ' :: Voice.member field ++ [','], rfl, by simpa using hmember⟩
  · exact ⟨_, rfl, by decide⟩

theorem exists_allLines (voices : List Voice) (h : l ∈ Voice.allLines voices) :
    ∃ u, l = List.replicate 4 ' ' ++ u ∧ '\n' ∉ u := by
  match voices with
  | [] => cases h
  | [v] => exact exists_line h
  | v :: w :: vs =>
    have hlines : Voice.allLines (v :: w :: vs) =
        v.lines.dropLast ++ [Voice.indented 4 ['\x7d', ',']] ++ Voice.allLines (w :: vs) := rfl
    rw [hlines, List.mem_append, List.mem_append, List.mem_singleton] at h
    rcases h with (h | rfl) | h
    · exact exists_line (List.mem_of_mem_dropLast h)
    · exact ⟨_, rfl, by decide⟩
    · exact exists_allLines (w :: vs) h

/-- The lines of a payload between other texts. -/
theorem exists_payload (voices : List Voice) {p q : Text} (hp : '\n' ∉ p) (hq : '\n' ∉ q) :
    ∃ first rest, Text.lines (p ++ (Voice.payload voices ++ q)) = (p ++ '[' :: first) :: rest ∧ '\n' ∉ first ∧
      ∀ l ∈ rest, l = ' ' :: ' ' :: ']' :: q ∨ ∃ u, l = List.replicate 4 ' ' ++ u ∧ '\n' ∉ u := by
  cases voices with
  | nil =>
    have hline : '\n' ∉ p ++ (Voice.payload [] ++ q) := by simp [Voice.payload, hp, hq]
    refine ⟨']' :: q, [], ?_, by simp [hq], by simp⟩
    rw [Text.lines_of_notMem hline]
    simp [Voice.payload]
  | cons v vs =>
    have hall : ∀ l ∈ Voice.allLines (v :: vs), '\n' ∉ l := by
      intro l hl
      obtain ⟨u, rfl, hu⟩ := exists_allLines _ hl
      simpa using hu
    have hparts : p ++ (Voice.payload (v :: vs) ++ q) =
        Text.unlines ([p ++ ['[']] ++ Voice.allLines (v :: vs) ++ [' ' :: ' ' :: ']' :: q]) := by
      rw [Text.unlines_append (by simp) (by simp), Text.unlines_append (by simp) (Voice.allLines_ne_nil v vs),
        Text.unlines_singleton, Text.unlines_singleton, Voice.payload_cons]
      simp [Voice.indented]
    refine ⟨[], Voice.allLines (v :: vs) ++ [' ' :: ' ' :: ']' :: q], ?_, List.not_mem_nil, fun l hl => ?_⟩
    · rw [hparts, Text.lines_unlines (by simp)]
      · rfl
      · intro l hl
        rw [List.mem_append, List.mem_append, List.mem_singleton, List.mem_singleton] at hl
        rcases hl with (rfl | hl) | rfl
        · simp [hp]
        · exact hall l hl
        · simp [hq]
    · rcases List.mem_append.1 hl with hl | hl
      · exact .inr (exists_allLines _ hl)
      · exact .inl (List.mem_singleton.1 hl)

/-- The lines of a tag. -/
theorem exists_tag (voices : List Voice) (name : Text) (hn : '\n' ∉ name) : ∃ first rest, Text.lines (tag voices name) =
    ('<' :: first) :: rest ∧ '\n' ∉ first ∧
      ∀ l ∈ rest, l = [' ', ' ', ']', '\x7d', ' ', '/', '>'] ∨ ∃ u, l = List.replicate 4 ' ' ++ u ∧ '\n' ∉ u := by
  have hvoices : '\n' ∉ voicesAttribute := by decide
  have hhead : '\n' ∉ '<' :: (name ++ ' ' :: voicesAttribute ++ ['=', '\x7b']) := by simp [hn, hvoices]
  obtain ⟨first, rest, hlines, hfirst, hrest⟩ :=
    exists_payload voices hhead (show '\n' ∉ ['\x7d', ' ', '/', '>'] by decide)
  have htext : tag voices name = '<' :: (name ++ ' ' :: voicesAttribute ++ ['=', '\x7b']) ++
      (Voice.payload voices ++ ['\x7d', ' ', '/', '>']) := by simp [tag]
  refine ⟨name ++ ' ' :: voicesAttribute ++ ['=', '\x7b'] ++ '[' :: first, rest, by rw [htext, hlines]; rfl, ?_, hrest⟩
  simp [hn, hvoices, hfirst]

theorem inert_blockLines (h : Writable n) : ∀ l ∈ blockLines n, Inert l := by
  have hname := notMem_of_isName h.name (d := '\n') (by decide)
  have hcarriage := carriage_notMem_tag h.name n.voices
  obtain ⟨first, rest, hlines, hfirst, hrest⟩ := exists_tag n.voices n.name hname
  have hcr : ∀ l ∈ Text.lines (tag n.voices n.name), '\r' ∉ l := by
    intro l hl hmem
    refine hcarriage ?_
    rw [← Text.unlines_lines (tag n.voices n.name), Text.mem_unlines (by decide)]
    exact ⟨l, hl, hmem⟩
  rw [hlines] at hcr
  intro l hl
  rw [blockLines, hlines, List.mem_cons, List.mem_cons] at hl
  rcases hl with rfl | rfl | hl
  · have hn := notMem_stampSource h.digest (c := '\n') (by decide) (by decide) (by decide)
    have hr := notMem_stampSource h.digest (c := '\r') (by decide) (by decide) (by decide)
    rw [stamp_eq]
    exact inert_cons (by decide) (by decide) (by decide) (by simpa using hn) (by simpa using hr)
  · exact inert_cons (by decide) (by decide) (by decide) (by simpa using hfirst) (hcr _ List.mem_cons_self)
  · have hr := hcr l (List.mem_cons_of_mem _ hl)
    rcases hrest l hl with rfl | ⟨u, rfl, hu⟩
    · exact ⟨by decide, by decide, by decide, by decide, by decide⟩
    · exact inert_of_indented u hu fun hmem => hr (List.mem_append_right _ hmem)

theorem inert_importStatement (hn : isName name) (hp : isPath path) : Inert (importStatement name path) := by
  have hline : '\n' ∉ importStatement name path := notMem_importStatement hn hp (by decide) (by decide) (by decide)
  have hcarriage : '\r' ∉ importStatement name path := notMem_importStatement hn hp (by decide) (by decide) (by decide)
  have hhead : importStatement name path = 'i' :: (importStatement name path).tail := rfl
  rw [hhead] at hline hcarriage ⊢
  exact inert_cons (by decide) (by decide) (by decide) hline hcarriage

theorem led_blockLines (n : Narrated) : led (blockLines n) = '\n' :: blockText n := by
  rw [Text.led_eq (by simp [blockLines]), blockLines, Text.unlines_cons _ (Text.lines_ne_nil _), Text.unlines_lines, blockText]

end Player
end Narration
