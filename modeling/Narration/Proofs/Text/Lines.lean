import Narration.Proofs.Text.Runs
import Narration.Text.Lines

/-!
# Laws of lines

* `join_cons`, `mem_join` : pieces put together;
* `unlines_cons_cons`, `unlines_append` : lines joined piece by piece;
* `lines_append_line` : the lines of a text that begins with a whole line;
* `unlines_lines`, `lines_unlines` : cutting and joining undo each other;
* `broken`, `join_lines` : a text with other line ends;
* `cut_whole_lines` : what stands on one line of a text stands in one of two parts when the first is whole lines;
* `led`, `lines_of_append` : lines below others;
* `exists_line` : one of the lines of a text.
-/

namespace Narration.Text

variable {t u v : Text} {l : Text} {ls ms : List Text}

theorem join_singleton (sep l : Text) : join sep [l] = l := List.intercalate_singleton

theorem join_cons_cons (sep l k : Text) (ls : List Text) : join sep (l :: k :: ls) = l ++ sep ++ join sep (k :: ls) :=
  List.intercalate_cons_cons

theorem join_cons (sep l : Text) (h : ls ≠ []) : join sep (l :: ls) = l ++ sep ++ join sep ls := by
  obtain ⟨k, ls, rfl⟩ := List.exists_cons_of_ne_nil h
  exact join_cons_cons sep l k ls

theorem splitOn_ne_nil (c : Char) (t : Text) : splitOn c t ≠ [] := by
  cases t with
  | nil => exact nofun
  | cons d t =>
    by_cases hd : d = c
    · rw [hd, splitOn_cons_self]
      exact nofun
    · obtain ⟨piece, rest, hsplit⟩ := exists_splitOn_cons hd t
      rw [hsplit]
      exact nofun

/-- Joining undoes cutting. -/
theorem join_splitOn (c : Char) (t : Text) : join [c] (splitOn c t) = t := by
  induction t with
  | nil => rfl
  | cons d t ih =>
    by_cases hd : d = c
    · rw [hd, splitOn_cons_self, join_cons _ _ (splitOn_ne_nil c t), ih]
      rfl
    · obtain ⟨piece, rest, hsplit⟩ := List.exists_cons_of_ne_nil (splitOn_ne_nil c t)
      rw [hsplit] at ih
      rw [splitOn_cons_of_ne hd hsplit, ← ih]
      cases rest with
      | nil => rw [join_singleton, join_singleton]
      | cons k rest => rw [join_cons_cons, join_cons_cons, List.cons_append, List.cons_append]

theorem infix_join {sep : Text} (h : l ∈ ls) : l <:+: join sep ls := by
  induction ls with
  | nil => cases h
  | cons k ls ih =>
    cases ls with
    | nil =>
      have heq : l = join sep [k] := (List.mem_singleton.1 h).trans (join_singleton sep k).symm
      exact heq ▸ List.infix_rfl
    | cons k' ls =>
      rw [join_cons_cons, List.append_assoc]
      rcases List.mem_cons.1 h with rfl | h
      · exact (List.prefix_append _ _).isInfix
      · rw [← List.append_assoc]
        exact (ih h).trans (List.suffix_append _ _).isInfix

theorem infix_of_mem_splitOn {c : Char} (h : l ∈ splitOn c t) : l <:+: t := by
  have hinfix : l <:+: join [c] (splitOn c t) := infix_join h
  rwa [join_splitOn] at hinfix

theorem mem_join {c : Char} {sep : Text} (h : c ∈ join sep ls) : c ∈ sep ∨ ∃ l ∈ ls, c ∈ l := by
  induction ls with
  | nil => cases h
  | cons l ls ih =>
    by_cases hls : ls = []
    · rw [hls, join_singleton] at h
      exact .inr ⟨l, List.mem_cons_self, h⟩
    · rw [join_cons sep l hls, List.mem_append, List.mem_append] at h
      rcases h with (h | h) | h
      · exact .inr ⟨l, List.mem_cons_self, h⟩
      · exact .inl h
      · exact (ih h).imp_right fun ⟨k, hk, h⟩ => ⟨k, List.mem_cons_of_mem l hk, h⟩

theorem unlines_singleton (l : Text) : unlines [l] = l := join_singleton _ l

theorem unlines_cons_cons (l k : Text) (ls : List Text) :
    unlines (l :: k :: ls) = l ++ '\n' :: unlines (k :: ls) := by
  rw [unlines, join, List.intercalate_cons_cons, List.append_assoc, List.singleton_append]
  rfl

theorem unlines_cons (l : Text) (h : ls ≠ []) : unlines (l :: ls) = l ++ '\n' :: unlines ls := by
  obtain ⟨k, ls, rfl⟩ := List.exists_cons_of_ne_nil h
  exact unlines_cons_cons l k ls

theorem unlines_append (hl : ls ≠ []) (hm : ms ≠ []) :
    unlines (ls ++ ms) = unlines ls ++ '\n' :: unlines ms := by
  induction ls with
  | nil => exact absurd rfl hl
  | cons l ls ih =>
    cases ls with
    | nil => rw [List.singleton_append, unlines_cons l hm, unlines_singleton]
    | cons k ls =>
      rw [List.cons_append, unlines_cons l (by simp), ih (by simp), unlines_cons_cons, List.append_assoc,
        List.cons_append]

theorem lines_nil : lines [] = [[]] := rfl

theorem lines_newline (t : Text) : lines ('\n' :: t) = [] :: lines t := rfl

theorem lines_ne_nil (t : Text) : lines t ≠ [] := by
  cases t with
  | nil => exact List.cons_ne_nil _ _
  | cons c t =>
    rw [lines, splitOn, List.foldr_cons]
    split
    · exact List.cons_ne_nil _ _
    · split <;> exact List.cons_ne_nil _ _

theorem lines_cons {c : Char} (hc : c ≠ '\n') (t : Text) :
    ∃ l ls, lines t = l :: ls ∧ lines (c :: t) = (c :: l) :: ls := by
  obtain ⟨l, ls, h⟩ := List.exists_cons_of_ne_nil (lines_ne_nil t)
  exact ⟨l, ls, h, splitOn_cons_of_ne hc h⟩

theorem lines_append_line (hu : '\n' ∉ u) : lines (u ++ '\n' :: v) = u :: lines v := by
  induction u with
  | nil => exact lines_newline v
  | cons c u ih =>
    rw [List.mem_cons, not_or] at hu
    obtain ⟨l, ls, hl, hcons⟩ := lines_cons (Ne.symm hu.1) (u ++ '\n' :: v)
    rw [ih hu.2] at hl
    cases hl
    exact hcons

theorem lines_of_notMem (hu : '\n' ∉ u) : lines u = [u] := by
  induction u with
  | nil => rfl
  | cons c u ih =>
    rw [List.mem_cons, not_or] at hu
    obtain ⟨l, ls, hl, hcons⟩ := lines_cons (Ne.symm hu.1) u
    rw [ih hu.2] at hl
    cases hl
    exact hcons

theorem head?_lines (t : Text) : (lines t).head? = some (firstLine t) := by
  obtain ⟨e, ht, he⟩ := exists_afterFirstLine t
  have hline := newline_notMem_firstLine t
  generalize firstLine t = l at ht hline ⊢
  rcases he with rfl | ⟨v, rfl⟩
  · rw [ht, List.append_nil, lines_of_notMem hline, List.head?_cons]
  · rw [ht, lines_append_line hline, List.head?_cons]

theorem unlines_lines (t : Text) : unlines (lines t) = t := join_splitOn '\n' t

/-- Characters in a row without a line feed stand in one of the lines. -/
theorem exists_infix_of_unlines (hnewline : '\n' ∉ u) (hu : u ≠ []) (h : u <:+: unlines ls) : ∃ l ∈ ls, u <:+: l := by
  induction ls with
  | nil => exact absurd (List.infix_nil.1 h) hu
  | cons l ls ih =>
    by_cases hls : ls = []
    · rw [hls, unlines_singleton] at h
      exact ⟨l, List.mem_cons_self, h⟩
    · rw [unlines_cons l hls] at h
      have hlead {v : Text} (hv : '\n' ∉ v) (h : v <+: '\n' :: unlines ls) : v = [] := by
        cases v with
        | nil => rfl
        | cons c v => exact absurd (List.mem_cons.2 (.inl (List.cons_prefix_cons.1 h).1.symm)) hv
      rcases List.infix_append_iff.1 h with h | h | ⟨v, w, rfl, hv, hw⟩
      · exact ⟨l, List.mem_cons_self, h⟩
      · rcases List.infix_cons_iff.1 h with h | h
        · exact absurd (hlead hnewline h) hu
        · obtain ⟨k, hk, hinfix⟩ := ih h
          exact ⟨k, List.mem_cons_of_mem l hk, hinfix⟩
      · have hnil := hlead (fun hc => hnewline (List.mem_append_right v hc)) hw
        rw [hnil, List.append_nil]
        exact ⟨l, List.mem_cons_self, hv.isInfix⟩

/-- What stands on one line, its line feed included, stands in whole lines at the front or behind them. -/
theorem cut_whole_lines {x w y q b : Text} (h : x ++ w ++ y = q ++ b) (hq : q = [] ∨ q.getLast? = some '\n')
    (hw : '\n' ∉ w.dropLast) : x ++ w <+: q ∨ ∃ z, x = q ++ z ∧ b = z ++ w ++ y := by
  rcases List.append_eq_append_iff.1 h with ⟨v, rfl, -⟩ | ⟨v, hv, rfl⟩
  · exact .inl (List.prefix_append _ _)
  · rcases List.append_eq_append_iff.1 hv with ⟨u, rfl, rfl⟩ | ⟨z, rfl, rfl⟩
    · -- `w` begins with the end `u` of the whole lines
      by_cases hu : u = []
      · subst hu
        exact .inr ⟨[], by simp, by simp⟩
      · have hnewline : '\n' ∈ u := by
          have hlast := hq.resolve_left (by simp [hu])
          rw [List.getLast?_append, List.getLast?_eq_some_getLast hu, Option.some_or, Option.some.injEq] at hlast
          exact hlast ▸ List.getLast_mem hu
        by_cases hv : v = []
        · subst hv
          exact .inl (by simp)
        · rw [List.dropLast_append_of_ne_nil hv] at hw
          exact absurd (List.mem_append_left _ hnewline) hw
    · exact .inr ⟨z, rfl, rfl⟩

theorem anyNewlineToLf_of_notMem (h : '\r' ∉ t) : anyNewlineToLf t = t := by
  induction t with
  | nil => rfl
  | cons c t ih =>
    have hc : c ≠ '\r' := fun heq => h (heq ▸ List.mem_cons_self)
    rw [anyNewlineToLf.eq_3 c t fun _ heq _ => hc heq, if_neg hc, ih (fun hmem => h (List.mem_cons_of_mem c hmem))]

theorem newline_notMem_of_mem_lines (h : l ∈ lines t) : '\n' ∉ l := by
  induction t generalizing l with
  | nil => rw [List.mem_singleton.1 h]; exact List.not_mem_nil
  | cons c t ih =>
    by_cases hc : c = '\n'
    · rw [hc, lines_newline, List.mem_cons] at h
      rcases h with rfl | h
      · exact List.not_mem_nil
      · exact ih h
    · obtain ⟨k, ls, hk, hcons⟩ := lines_cons hc t
      rw [hcons, List.mem_cons] at h
      rcases h with rfl | h
      · rw [List.mem_cons, not_or]
        exact ⟨Ne.symm hc, ih (hk ▸ List.mem_cons_self)⟩
      · exact ih (hk ▸ List.mem_cons_of_mem k h)

theorem lines_unlines (hls : ls ≠ []) (h : ∀ l ∈ ls, '\n' ∉ l) : lines (unlines ls) = ls := by
  induction ls with
  | nil => exact absurd rfl hls
  | cons l ls ih =>
    cases ls with
    | nil => rw [unlines_singleton, lines_of_notMem (h l List.mem_cons_self)]
    | cons k ls =>
      rw [unlines_cons_cons, lines_append_line (h l List.mem_cons_self),
        ih (by simp) fun m hm => h m (List.mem_cons_of_mem l hm)]

/-- A text with other line ends. -/
def broken (newline t : Text) : Text := t.flatMap fun c => if c = '\n' then newline else [c]

@[simp] theorem broken_nil (newline : Text) : broken newline [] = [] := rfl

theorem broken_append (newline t u : Text) : broken newline (t ++ u) = broken newline t ++ broken newline u := List.flatMap_append

theorem broken_cons (newline : Text) {c : Char} (hc : c ≠ '\n') (t : Text) : broken newline (c :: t) = c :: broken newline t := by
  rw [broken, List.flatMap_cons, if_neg hc, List.singleton_append, broken]

theorem broken_newline (newline t : Text) : broken newline ('\n' :: t) = newline ++ broken newline t := by
  rw [broken, List.flatMap_cons, if_pos rfl, broken]

theorem broken_of_notMem (newline : Text) (h : '\n' ∉ t) : broken newline t = t := by
  induction t with
  | nil => rfl
  | cons c t ih =>
    rw [List.mem_cons, not_or] at h
    rw [broken_cons newline (Ne.symm h.1), ih h.2]

theorem broken_self (t : Text) : broken ['\n'] t = t := by
  have hkeep : (fun c => if c = '\n' then ['\n'] else [c]) = fun c : Char => [c] := by
    funext c
    split
    · next hc => rw [hc]
    · rfl
  rw [broken, hkeep, List.flatMap_singleton']

theorem join_lines (newline t : Text) : join newline (lines t) = broken newline t := by
  induction t with
  | nil => exact join_singleton newline []
  | cons c t ih =>
    by_cases hc : c = '\n'
    · subst hc
      rw [lines_newline, join_cons newline [] (lines_ne_nil t), ih, broken_newline, List.nil_append]
    · obtain ⟨l, ls, hl, hcons⟩ := lines_cons hc t
      rw [broken_cons newline hc, ← ih, hcons, hl]
      cases ls with
      | nil => rw [join_singleton, join_singleton]
      | cons k ls => rw [join_cons_cons, join_cons_cons, List.cons_append, List.cons_append]

/-! ## Lines below others -/

/-- Lines, each after a line feed. -/
def led (ls : List Text) : Text := ls.flatMap ('\n' :: ·)

variable {x y : Text}

@[simp] theorem led_nil : led [] = [] := rfl

@[simp] theorem led_cons (l : Text) (ls : List Text) : led (l :: ls) = '\n' :: (l ++ led ls) := rfl

@[simp] theorem led_append (ls ms : List Text) : led (ls ++ ms) = led ls ++ led ms := List.flatMap_append

theorem endsLine_led (ls : List Text) : EndsLine (led ls) := by
  cases ls with
  | nil => exact .inl rfl
  | cons l ls => exact .inr ⟨_, rfl⟩

theorem led_eq (h : ls ≠ []) : led ls = '\n' :: unlines ls := by
  induction ls with
  | nil => exact absurd rfl h
  | cons l ls ih =>
    cases ls with
    | nil => rw [led_cons, led_nil, unlines_singleton, List.append_nil]
    | cons k ls => rw [led_cons, ih (by simp), unlines_cons_cons]

theorem unlines_cons_eq (l : Text) (ls : List Text) : unlines (l :: ls) = l ++ led ls := by
  cases ls with
  | nil => rw [unlines_singleton, led_nil, List.append_nil]
  | cons k ls => rw [led_eq (by simp), unlines_cons _ (by simp)]

theorem unlines_append_led (hl : ls ≠ []) (ms : List Text) : unlines (ls ++ ms) = unlines ls ++ led ms := by
  obtain ⟨l, ls, rfl⟩ := List.exists_cons_of_ne_nil hl
  rw [List.cons_append, unlines_cons_eq, unlines_cons_eq, led_append, List.append_assoc]

theorem length_le_led (ls : List Text) : ls.length ≤ (led ls).length := by
  induction ls with
  | nil => exact Nat.le_refl 0
  | cons l ls ih =>
    rw [led_cons, List.length_cons, List.length_cons, List.length_append]
    omega

/-- There are fewer lines before a last one than characters. -/
theorem length_lt_unlines (ls : List Text) (hl : l ≠ []) : ls.length < (unlines (ls ++ [l])).length := by
  induction ls with
  | nil =>
    rw [List.nil_append, unlines_singleton]
    exact List.length_pos_iff.2 hl
  | cons k ls ih =>
    rw [List.cons_append, unlines_cons k (by simp), List.length_append, List.length_cons, List.length_cons]
    omega

theorem EndsLine.append (hx : EndsLine x) (hy : EndsLine y) : EndsLine (x ++ y) := by
  rcases hx with rfl | ⟨v, rfl⟩
  · exact hy
  · exact .inr ⟨_, rfl⟩

theorem lines_append (hy : EndsLine y) (v : Text) : lines (v ++ y) = lines v ++ (lines y).tail := by
  rcases hy with rfl | ⟨w, rfl⟩
  · rw [List.append_nil, lines_nil, List.tail_cons, List.append_nil]
  · have hjoined : v ++ '\n' :: w = unlines (lines v ++ lines w) := by
      rw [unlines_append (lines_ne_nil v) (lines_ne_nil w), unlines_lines, unlines_lines]
    rw [hjoined, lines_unlines (by simp [lines_ne_nil]), lines_newline, List.tail_cons]
    intro l hl
    rcases List.mem_append.1 hl with hl | hl <;> exact newline_notMem_of_mem_lines hl

/-- The lines of a text that is cut at line feeds. -/
theorem lines_of_append (h : '\n' :: t = x ++ y) (hy : EndsLine y) :
    lines t = (lines x).tail ++ (lines y).tail := by
  have hlines : lines t = (lines (x ++ y)).tail := by rw [← h, lines_newline, List.tail_cons]
  rw [hlines, lines_append hy, List.tail_append_of_ne_nil (lines_ne_nil x)]

/-- The lines around a part of a text do not depend on that part. -/
theorem exists_lines_around (u w : Text) : ∃ as p q bs, '\n' ∉ p ∧ '\n' ∉ q ∧
    ∀ s, lines (u ++ (s ++ w)) = as ++ lines (p ++ (s ++ q)) ++ bs := by
  obtain ⟨e, hw, he⟩ := exists_afterFirstLine w
  have hq := newline_notMem_firstLine w
  generalize firstLine w = q at hw hq
  subst hw
  by_cases hu : '\n' ∈ u
  · obtain ⟨p, v, hp, hnot⟩ := List.eq_append_cons_of_mem (List.mem_reverse.2 hu)
    obtain rfl : u = v.reverse ++ '\n' :: p.reverse := by simpa using congrArg List.reverse hp
    refine ⟨lines v.reverse, p.reverse, q, (lines e).tail, fun hmem => hnot (List.mem_reverse.1 hmem), hq, fun s => ?_⟩
    have htext : v.reverse ++ '\n' :: p.reverse ++ (s ++ (q ++ e)) = v.reverse ++ ('\n' :: (p.reverse ++ (s ++ q)) ++ e) := by simp
    have hends : EndsLine ('\n' :: (p.reverse ++ (s ++ q)) ++ e) := .inr ⟨_, rfl⟩
    rw [htext, lines_append hends, List.cons_append, lines_newline, List.tail_cons, lines_append he, List.append_assoc]
  · refine ⟨[], u, q, (lines e).tail, hu, hq, fun s => ?_⟩
    rw [List.nil_append, ← lines_append he]
    simp only [List.append_assoc]

theorem tail_lines_led (h : ∀ l ∈ ls, '\n' ∉ l) : (lines (led ls)).tail = ls := by
  cases ls with
  | nil => rfl
  | cons l ls => rw [led_eq (by simp), lines_newline, List.tail_cons, lines_unlines (by simp) h]

theorem length_lines (t : Text) : (lines t).length = t.count '\n' + 1 := by
  induction t with
  | nil => rfl
  | cons c t ih =>
    by_cases hc : c = '\n'
    · rw [hc, lines_newline, List.length_cons, ih, List.count_cons_self]
    · obtain ⟨l, ls, hl, hcons⟩ := lines_cons hc t
      rw [hl] at ih
      rw [hcons, List.length_cons, List.count_cons_of_ne hc, ← ih, List.length_cons]

theorem length_tail_lines (x : Text) : (lines x).tail.length = x.count '\n' := by
  rw [List.length_tail, length_lines, Nat.add_sub_cancel]

theorem count_led (h : ∀ l ∈ ls, '\n' ∉ l) : (led ls).count '\n' = ls.length := by
  rw [← length_tail_lines, tail_lines_led h]

/-- A line of a text, with what stands above it and below, and the text with an empty line behind it. -/
theorem exists_line {k : Nat} (hk : k < (lines t).length) : ∃ u e, t = u ++ ((lines t)[k] ++ e) ∧ u.count '\n' = k ∧
    (u = [] ∨ u.getLast? = some '\n') ∧ EndsLine e ∧ unlines ((lines t).insertIdx (k + 1) []) = u ++ ((lines t)[k] ++ '\n' :: e) := by
  have hline : ∀ l ∈ lines t, '\n' ∉ l := fun _ => newline_notMem_of_mem_lines
  have ht := unlines_lines t
  generalize lines t = ls at hk hline ht ⊢
  subst ht
  obtain ⟨as, l, bs, rfl, hlength⟩ : ∃ as l bs, ls = as ++ l :: bs ∧ as.length = k :=
    ⟨ls.take k, ls[k], ls.drop (k + 1), by simp, by simp [Nat.le_of_lt hk]⟩
  subst hlength
  have hinsert (as : List Text) : (as ++ l :: bs).insertIdx (as.length + 1) [] = as ++ l :: [] :: bs := by
    induction as with
    | nil => rfl
    | cons a as ih => rw [List.cons_append, List.length_cons, List.insertIdx_succ_cons, ih, List.cons_append]
  rw [hinsert, List.getElem_append_right (Nat.le_refl _)]
  simp only [Nat.sub_self, List.getElem_cons_zero]
  by_cases has : as = []
  · subst has
    refine ⟨[], led bs, ?_, rfl, .inl rfl, endsLine_led bs, ?_⟩
    · rw [List.nil_append, List.nil_append, unlines_cons_eq]
    · rw [List.nil_append, List.nil_append, unlines_cons_eq, led_cons, List.nil_append]
  · refine ⟨unlines as ++ ['\n'], led bs, ?_, ?_, .inr (by simp), endsLine_led bs, ?_⟩
    · rw [unlines_append_led has, led_cons, List.append_assoc, List.singleton_append]
    · rw [List.count_append, List.count_singleton_self, ← length_lines,
        lines_unlines has fun l hl => hline l (List.mem_append_left _ hl)]
    · rw [unlines_append_led has, led_cons, led_cons, List.nil_append, List.append_assoc, List.singleton_append]

/-- Lines may enter below any line. -/
theorem exists_enter (h : '\n' :: t = x ++ y) (ls : List Text) : ∃ t', '\n' :: t' = x ++ led ls ++ y := by
  cases x with
  | nil =>
    cases ls with
    | nil => exact ⟨t, h⟩
    | cons l ls => exact ⟨_, rfl⟩
  | cons c x =>
    obtain ⟨rfl, -⟩ := List.cons.inj h
    exact ⟨_, rfl⟩

end Narration.Text
