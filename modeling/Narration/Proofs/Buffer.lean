import Narration.Buffer
import Narration.Proofs.Text.Find
import Narration.Proofs.Text.Lines

/-!
# Laws of buffers

* `Text.crlfToLf_join` : lines with either line end between them are the same lines with line feeds;
* `Text.crlfToLf_crlfToLf_iff` : the texts that are the same when their line ends are read once more;
* `Text.completed`, `Text.HasCarriages` : a carriage return before every line feed;
* `Buffer.IsWritten` : a buffer that can be written and read again;
* `Buffer.text_ofText`, `Buffer.crlfToLf_render`, `Buffer.ofText_render` : reading and writing;
* `Buffer.lines_splice` : lines that enter a text;
* `Buffer.render_ofText_eq_iff` : what becomes of the line ends of a text that is read and written.
-/

namespace Narration

namespace Text

variable {c : Char} {t p : Text} {l : Text} {ls : List Text} {carriage : Bool}

theorem crlfToLf_cons (hc : c ≠ '\r') (t : Text) : crlfToLf (c :: t) = c :: crlfToLf t :=
  crlfToLf.eq_3 c t fun _ h _ => hc h

theorem crlfToLf_append (hl : '\r' ∉ l) (t : Text) : crlfToLf (l ++ t) = l ++ crlfToLf t := by
  induction l with
  | nil => rfl
  | cons c l ih =>
    rw [List.mem_cons, not_or] at hl
    rw [List.cons_append, crlfToLf_cons (Ne.symm hl.1), ih hl.2, List.cons_append]

theorem crlfToLf_of_notMem (h : '\r' ∉ t) : crlfToLf t = t := by
  have happend := crlfToLf_append h []
  rwa [List.append_nil, crlfToLf, List.append_nil] at happend

/-- A line end that can be written: a line feed, alone or after a carriage return. -/
def IsNewline (newline : Text) : Prop := newline = ['\n'] ∨ newline = ['\r', '\n']

theorem crlfToLf_join {newline : Text} (hn : IsNewline newline) (h : ∀ l ∈ ls, '\r' ∉ l) :
    crlfToLf (join newline ls) = unlines ls := by
  induction ls with
  | nil => rfl
  | cons l ls ih =>
    have hl := h l List.mem_cons_self
    cases ls with
    | nil =>
      rw [join, List.intercalate_singleton, unlines_singleton]
      exact crlfToLf_of_notMem hl
    | cons k ls =>
      have hrest := ih fun m hm => h m (List.mem_cons_of_mem l hm)
      rw [join_cons_cons, List.append_assoc, crlfToLf_append hl, unlines_cons_cons, ← hrest]
      rcases hn with rfl | rfl
      · rw [List.singleton_append, crlfToLf_cons (by decide)]
      · rfl

theorem not_has_crlf (h : '\r' ∉ t) : has t ['\r', '\n'] = false := by
  rw [← Bool.not_eq_true, has_iff (by simp)]
  intro hcrlf
  exact h (hcrlf.subset List.mem_cons_self)

theorem has_crlf_join (l k : Text) (ls : List Text) : has (join ['\r', '\n'] (l :: k :: ls)) ['\r', '\n'] := by
  rw [join_cons_cons, has_iff (by simp)]
  exact ⟨l, join ['\r', '\n'] (k :: ls), rfl⟩

theorem mem_unlines (hc : c ≠ '\n') (ls : List Text) : c ∈ unlines ls ↔ ∃ l ∈ ls, c ∈ l := by
  induction ls with
  | nil => simp [unlines, join]
  | cons l ls ih =>
    cases ls with
    | nil => simp [unlines_singleton]
    | cons k ls =>
      rw [unlines_cons_cons, List.mem_append, List.mem_cons, or_iff_right hc, ih]
      simp only [List.exists_mem_cons_iff]

/-! ## Line ends read and written -/

/-- Two characters stand at the front of a text, or further back. -/
theorem pair_infix_cons {a b : Char} : [a, b] <:+: c :: t ↔ (c = a ∧ t.head? = some b) ∨ [a, b] <:+: t := by
  rw [List.infix_cons_iff]
  refine or_congr_left ?_
  rw [List.cons_prefix_cons, List.head?_eq_some_iff, eq_comm]
  exact and_congr_right fun _ => ⟨fun ⟨u, hu⟩ => ⟨u, hu.symm⟩, fun ⟨u, hu⟩ => ⟨u, hu.symm⟩⟩

theorem length_crlfToLf_le (t : Text) : (crlfToLf t).length ≤ t.length := by
  fun_induction crlfToLf t with
  | case1 => exact Nat.le_refl _
  | case2 t ih => exact Nat.le_succ_of_le (Nat.succ_le_succ ih)
  | case3 c t _ ih => exact Nat.succ_le_succ ih

/-- Reading leaves a text as it is when no line ends with carriage return and line feed. -/
theorem crlfToLf_eq_self_iff : crlfToLf t = t ↔ ¬['\r', '\n'] <:+: t := by
  fun_induction crlfToLf t with
  | case1 => simp
  | case2 t ih =>
    have hlength := length_crlfToLf_le t
    have hpair : ['\r', '\n'] <:+: '\r' :: '\n' :: t := pair_infix_cons.2 (.inl ⟨rfl, rfl⟩)
    refine iff_of_false (fun heq => ?_) (not_not_intro hpair)
    have := congrArg List.length heq
    simp only [List.length_cons] at this
    omega
  | case3 c t hnot ih =>
    have hfront : ¬(c = '\r' ∧ t.head? = some '\n') := by
      rintro ⟨hc, ht⟩
      obtain ⟨u, rfl⟩ := List.head?_eq_some_iff.1 ht
      exact hnot u hc rfl
    rw [List.cons_inj_right, ih, pair_infix_cons, or_iff_right hfront]

theorem head?_crlfToLf (t : Text) : (crlfToLf t).head? = some '\n' ↔ t.head? = some '\n' ∨ ['\r', '\n'] <+: t := by
  fun_cases crlfToLf t with
  | case1 => simp
  | case2 t => simp
  | case3 c t hnot =>
    have hlead : ¬['\r', '\n'] <+: c :: t := by
      rintro ⟨u, hu⟩
      obtain ⟨hc, ht⟩ := List.cons.inj hu
      exact hnot u hc.symm ht.symm
    rw [List.head?_cons, List.head?_cons, or_iff_left hlead]

/-- Reading leaves a line end with a carriage return behind where two carriage returns stood before it. -/
theorem crlf_infix_crlfToLf : ['\r', '\n'] <:+: crlfToLf t ↔ ['\r', '\r', '\n'] <:+: t := by
  fun_induction crlfToLf t with
  | case1 => simp
  | case2 t ih =>
    have hfront {u : Text} : ¬['\r', '\r', '\n'] <+: '\r' :: '\n' :: u := by simp
    have hback {u : Text} : ¬['\r', '\r', '\n'] <+: '\n' :: u := by simp
    rw [pair_infix_cons, or_iff_right (by simp), ih, List.infix_cons_iff, or_iff_right hfront, List.infix_cons_iff,
      or_iff_right hback]
  | case3 c t hnot ih =>
    rw [pair_infix_cons, ih, List.infix_cons_iff, List.cons_prefix_cons, head?_crlfToLf, eq_comm]
    refine or_congr_left (and_congr_right fun hc => or_iff_right fun ht => ?_)
    obtain ⟨u, rfl⟩ := List.head?_eq_some_iff.1 ht
    exact hnot u hc.symm rfl

/-- A text that is read is not changed by being read again, unless two carriage returns stand before a line feed. -/
theorem crlfToLf_crlfToLf_iff : crlfToLf (crlfToLf t) = crlfToLf t ↔ ¬['\r', '\r', '\n'] <:+: t := by
  rw [crlfToLf_eq_self_iff, crlf_infix_crlfToLf]

/-- Puts a carriage return before each line feed that follows none; `carriage` tells whether one stands before the text. -/
def completed (carriage : Bool) : Text → Text
  | [] => []
  | c :: t => (if c = '\n' && !carriage then ['\r', '\n'] else [c]) ++ completed (c = '\r') t

/-- Every line feed of a text follows a carriage return. -/
def HasCarriages (t : Text) : Prop := ∀ i, t[i]? = some '\n' → ∃ j, i = j + 1 ∧ t[j]? = some '\r'

theorem completed_congr (h : t.head? ≠ some '\n') (carriage carriage' : Bool) : completed carriage t = completed carriage' t := by
  cases t with
  | nil => rfl
  | cons c t =>
    have hc : (c = '\n') = False := by simpa using h
    simp only [completed, hc, decide_false, Bool.false_and]

/-- A text that is read and written with carriage returns has them before all its line feeds. -/
theorem broken_crlfToLf (t : Text) : broken ['\r', '\n'] (crlfToLf t) = completed false t := by
  fun_induction crlfToLf t with
  | case1 => rfl
  | case2 t ih =>
    rw [broken_newline, ih]
    rfl
  | case3 c t hnot ih =>
    by_cases hc : c = '\n'
    · subst hc
      rw [broken_newline, ih]
      rfl
    · have hrest : completed (c = '\r') t = completed false t := by
        by_cases hreturn : c = '\r'
        · refine completed_congr (fun ht => ?_) _ _
          obtain ⟨u, rfl⟩ := List.head?_eq_some_iff.1 ht
          exact hnot u hreturn rfl
        · simp only [hreturn, decide_false]
      rw [broken_cons _ hc, ih, completed, hrest]
      simp only [hc, decide_false, Bool.false_and]
      rfl

theorem completed_eq_self_iff : completed carriage t = t ↔
    (carriage = false → t.head? ≠ some '\n') ∧ ∀ j, t[j + 1]? = some '\n' → t[j]? = some '\r' := by
  induction t generalizing carriage with
  | nil => simp [completed]
  | cons c t ih =>
    have hbehind : (∀ j, (c :: t)[j + 1]? = some '\n' → (c :: t)[j]? = some '\r') ↔
        (decide (c = '\r') = false → t.head? ≠ some '\n') ∧ ∀ j, t[j + 1]? = some '\n' → t[j]? = some '\r' := by
      constructor
      · intro h
        refine ⟨fun hc ht => of_decide_eq_false hc ?_, fun j => h (j + 1)⟩
        have hfirst := h 0 (by rw [List.getElem?_cons_succ, ← List.head?_eq_getElem?, ht])
        exact Option.some.inj hfirst
      · rintro ⟨hfirst, h⟩ (_ | j) hj
        · by_contra hc
          refine hfirst (decide_eq_false fun heq => hc (congrArg some heq)) ?_
          rwa [List.getElem?_cons_succ, ← List.head?_eq_getElem?] at hj
        · exact h j hj
    rw [completed, hbehind, ← ih]
    by_cases hbare : c = '\n' ∧ carriage = false
    · obtain ⟨rfl, rfl⟩ := hbare
      simp
    · have hfront : carriage = false → (c :: t).head? ≠ some '\n' := fun hcarriage hc =>
        hbare ⟨Option.some.inj hc, hcarriage⟩
      have hsame : (decide (c = '\n') && !carriage) = false := by
        cases carriage with
        | false => simpa using hbare
        | true => rw [Bool.not_true, Bool.and_false]
      rw [hsame, if_neg Bool.false_ne_true, List.singleton_append, List.cons_inj_right, and_iff_right hfront]

theorem completed_false_eq_self_iff : completed false t = t ↔ HasCarriages t := by
  rw [completed_eq_self_iff, HasCarriages]
  constructor
  · rintro ⟨hfirst, h⟩ (_ | j) hj
    · exact absurd (List.head?_eq_getElem?.trans hj) (hfirst rfl)
    · exact ⟨j, rfl, h j hj⟩
  · intro h
    refine ⟨fun _ ht => ?_, fun j hj => ?_⟩
    · obtain ⟨j, hj, -⟩ := h 0 (List.head?_eq_getElem?.symm.trans ht)
      cases hj
    · obtain ⟨k, hk, hreturn⟩ := h (j + 1) hj
      rwa [Nat.succ.inj hk]

end Text

namespace Buffer
open Text

variable {b : Buffer} {d t x y : Text} {new : List Text}

/-- A buffer whose lines can be written and read again. -/
structure IsWritten (b : Buffer) : Prop where
  newline : IsNewline b.newline
  line : ∀ l ∈ b.lines, '\r' ∉ l ∧ '\n' ∉ l
  nonempty : b.lines ≠ []

theorem text_ofText (d : Text) : (ofText d).text = crlfToLf d := unlines_lines _

theorem isNewline_ofText (d : Text) : IsNewline (ofText d).newline := by
  rw [ofText]
  dsimp only
  split
  · exact .inr rfl
  · exact .inl rfl

theorem isWritten_lines {newline : Text} (hn : IsNewline newline) (h : '\r' ∉ t) : IsWritten ⟨newline, Text.lines t⟩ := by
  refine ⟨hn, fun l hl => ⟨fun hmem => h ?_, newline_notMem_of_mem_lines hl⟩, lines_ne_nil t⟩
  rw [← unlines_lines t, mem_unlines (by decide)]
  exact ⟨l, hl, hmem⟩

theorem isWritten_ofText (h : '\r' ∉ crlfToLf d) : (ofText d).IsWritten := isWritten_lines (isNewline_ofText d) h

theorem crlfToLf_render (h : b.IsWritten) : crlfToLf b.render = b.text :=
  crlfToLf_join h.newline fun l hl => (h.line l hl).1

theorem lines_text (h : b.IsWritten) : Text.lines b.text = b.lines :=
  lines_unlines h.nonempty fun l hl => (h.line l hl).2

/-- A buffer of two or more lines that is written and read again is the same. -/
theorem ofText_render (h : b.IsWritten) (htwo : 2 ≤ b.lines.length) : ofText b.render = b := by
  have hlines : Text.lines (crlfToLf b.render) = b.lines := by rw [crlfToLf_render h, lines_text h]
  obtain ⟨newline, ls⟩ := b
  obtain ⟨l, k, ls, rfl⟩ : ∃ l k ms, ls = l :: k :: ms := by
    match ls, htwo with
    | l :: k :: ms, _ => exact ⟨l, k, ms, rfl⟩
  rw [ofText, hlines]
  congr 1
  rcases h.newline with heq | heq
  · obtain rfl : newline = ['\n'] := heq
    have hcarriage : '\r' ∉ render ⟨['\n'], l :: k :: ls⟩ := by
      change '\r' ∉ unlines (l :: k :: ls)
      rw [mem_unlines (by decide)]
      rintro ⟨m, hm, hmem⟩
      exact (h.line m hm).1 hmem
    rw [not_has_crlf hcarriage, if_neg (by decide)]
  · obtain rfl : newline = ['\r', '\n'] := heq
    have hcrlf : Text.has (render ⟨['\r', '\n'], l :: k :: ls⟩) ['\r', '\n'] := has_crlf_join l k ls
    rw [hcrlf, if_pos rfl]

/-- Lines that enter a text below a line. -/
theorem lines_splice (ht : '\n' :: t = x ++ y) (hy : EndsLine y) (hb : b.lines = Text.lines t) (new : List Text) :
    (b.splice (x.count '\n') 0 new).lines = (Text.lines x).tail ++ new ++ (Text.lines y).tail := by
  have hlength := length_tail_lines x
  rw [splice, hb, lines_of_append ht hy, Nat.add_zero, ← hlength, List.take_left, List.drop_left]

/-! ## Buffers that are not edited -/

/-- A buffer that is written as it was read has the line ends of its first kind throughout. -/
theorem render_ofText (t : Text) : (ofText t).render = if ['\r', '\n'] <:+: t then completed false t else t := by
  rw [render, ofText, join_lines]
  dsimp only
  split_ifs with hhas hpair hpair
  · exact broken_crlfToLf t
  · exact absurd ((has_iff (by simp) t).1 hhas) hpair
  · exact absurd ((has_iff (by simp) t).2 hpair) hhas
  · rw [broken_self, crlfToLf_eq_self_iff.2 hpair]

/-- A buffer that is not edited is written as the text it was read from exactly when the line ends of the text are of one
kind; otherwise every line feed that follows no carriage return gets one. -/
theorem render_ofText_eq_iff (t : Text) :
    ((ofText t).render = t ↔ ¬['\r', '\n'] <:+: t ∨ HasCarriages t) ∧
      (¬(¬['\r', '\n'] <:+: t ∨ HasCarriages t) → (ofText t).render = completed false t) := by
  have hrender := render_ofText t
  by_cases hpair : ['\r', '\n'] <:+: t
  · rw [if_pos hpair] at hrender
    rw [hrender, completed_false_eq_self_iff]
    exact ⟨(or_iff_right (not_not_intro hpair)).symm, fun _ => rfl⟩
  · rw [if_neg hpair] at hrender
    exact ⟨iff_of_true hrender (.inl hpair), fun hmixed => absurd (.inl hpair) hmixed⟩

example : (ofText "a\r\r\nb\nc".toList).render = "a\r\r\nb\r\nc".toList := by decide

end Buffer
end Narration
