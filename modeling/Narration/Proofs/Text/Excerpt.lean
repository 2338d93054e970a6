import Mathlib.Data.List.Infix
import Narration.Proofs.Text.Lines

/-!
# Excerpts

* `Text.Rows` : a text each line of which is the end of a line of another, the last line any part of one;
* `Text.Excerpt` : a text whose lines stand in lines of another that follow each other;
* `Text.Excerpt.line` : what stands on one line of an excerpt stands in the text;
* `Text.Solid` : a text with no blank line between two others;
* `Text.Excerpt.exists_solid` : what stands in an excerpt with no blank line stands so in the text.
-/

namespace Narration.Text

variable {t t' t'' u v w l m g : Text}

/-- A text each line of which is the end of the same line of another. The last one may be any part. -/
inductive Rows : Text → Text → Prop
  | last {u v : Text} (hv : '\n' ∉ v) (h : u <:+: v) : Rows u v
  | line {l m u v : Text} (hm : '\n' ∉ m) (hl : l <:+ m) (h : Rows u v) : Rows (l ++ '\n' :: u) (m ++ '\n' :: v)

/-- The parts of a text with a line end. -/
theorem infix_line_append (h : w <:+: l ++ '\n' :: t) :
    w <:+: l ∨ w <:+: t ∨ ∃ x y, w = x ++ '\n' :: y ∧ x <:+ l ∧ y <+: t := by
  rcases List.infix_append_iff.1 h with h | h | ⟨x, y, rfl, hx, hy⟩
  · exact .inl h
  · rcases List.infix_cons_iff.1 h with h | h
    · rcases List.prefix_cons_iff.1 h with rfl | ⟨y, rfl, hy⟩
      · exact .inl List.nil_infix
      · exact .inr (.inr ⟨[], y, rfl, List.nil_suffix, hy⟩)
    · exact .inr (.inl h)
  · rcases List.prefix_cons_iff.1 hy with rfl | ⟨z, rfl, hz⟩
    · exact .inl ((List.append_nil x).symm ▸ hx.isInfix)
    · exact .inr (.inr ⟨x, z, rfl, hx, hz⟩)

theorem prefix_line_append (h : w <+: l ++ '\n' :: t) : w <+: l ∨ ∃ y, w = l ++ '\n' :: y ∧ y <+: t := by
  obtain ⟨r, hr⟩ := h
  rcases List.append_eq_append_iff.1 hr with ⟨x, rfl, -⟩ | ⟨x, rfl, hx⟩
  · exact .inl (List.prefix_append w x)
  · cases x with
    | nil => exact .inl (by rw [List.append_nil])
    | cons c x =>
      obtain ⟨rfl, rfl⟩ := List.cons.inj hx
      exact .inr ⟨x, rfl, List.prefix_append x r⟩

namespace Rows

theorem refl (t : Text) : Rows t t := by
  induction hlength : t.length using Nat.strong_induction_on generalizing t with
  | h length ih =>
    subst hlength
    by_cases hn : '\n' ∈ t
    · obtain ⟨l, u, rfl, hl⟩ := firstLine_of_mem hn
      exact .line hl List.suffix_rfl (ih _ (by simp; omega) u rfl)
    · exact .last hn List.infix_rfl

/-- The front of a text whose lines are parts of lines. -/
theorem exists_prefix (h : Rows t v) (hu : u <+: t) : ∃ w, w <+: v ∧ Rows u w := by
  induction h generalizing u with
  | @last t v hv h => exact ⟨v, List.prefix_rfl, .last hv (hu.isInfix.trans h)⟩
  | @line l m t v hm hl _ ih =>
    rcases prefix_line_append hu with hu | ⟨y, rfl, hy⟩
    · exact ⟨m, List.prefix_append _ _, .last hm (hu.isInfix.trans hl.isInfix)⟩
    · obtain ⟨w, hw, hrows⟩ := ih hy
      exact ⟨m ++ '\n' :: w, (List.prefix_append_right_inj m).2 (List.cons_prefix_cons.2 ⟨rfl, hw⟩), .line hm hl hrows⟩

/-- Any part of a text whose lines are parts of lines. -/
theorem exists_infix (h : Rows t v) (hu : u <:+: t) : ∃ w, w <:+: v ∧ Rows u w := by
  induction h generalizing u with
  | @last t v hv h => exact ⟨v, List.infix_rfl, .last hv (hu.trans h)⟩
  | @line l m t v hm hl h ih =>
    have hrest : v <:+: m ++ '\n' :: v := ⟨m ++ ['\n'], [], by simp⟩
    rcases infix_line_append hu with hu | hu | ⟨x, y, rfl, hx, hy⟩
    · exact ⟨m, (List.prefix_append _ _).isInfix, .last hm (hu.trans hl.isInfix)⟩
    · obtain ⟨w, hw, hrows⟩ := ih hu
      exact ⟨w, hw.trans hrest, hrows⟩
    · obtain ⟨w, ⟨r, rfl⟩, hrows⟩ := h.exists_prefix hy
      obtain ⟨k, rfl⟩ := hx.trans hl
      exact ⟨x ++ '\n' :: w, ⟨k, r, by simp⟩, .line (fun hn => hm (List.mem_append_right k hn)) List.suffix_rfl hrows⟩

theorem trans (h : Rows t'' t') (h' : Rows t' t) : Rows t'' t := by
  induction h generalizing t with
  | @last u v hv h =>
    cases h' with
    | last ht h' => exact .last ht (h.trans h')
    | line => exact absurd (List.mem_append_right _ List.mem_cons_self) hv
  | @line l m u v hm hl _ ih =>
    generalize hx : m ++ '\n' :: v = x at h'
    cases h' with
    | last ht h' => exact absurd (h'.subset (hx ▸ List.mem_append_right _ List.mem_cons_self)) ht
    | @line l' m' u' v' hm' hl' h' =>
      have hline : '\n' ∉ l' := fun hn => hm' (hl'.subset hn)
      have hlines := congrArg lines hx
      rw [lines_append_line hm, lines_append_line hline] at hlines
      obtain ⟨rfl, hrest⟩ := List.cons.inj hlines
      obtain rfl : v = u' := by rw [← unlines_lines v, hrest, unlines_lines]
      exact .line hm' (hl.trans hl') (ih h')

/-- What stands on one line, its line feed included. -/
theorem line_infix (h : Rows t v) (hw : '\n' ∉ w.dropLast) (hstands : w <:+: t) : w <:+: v := by
  induction h generalizing w with
  | last _ h => exact hstands.trans h
  | @line l m t v hm hl _ ih =>
    rcases infix_line_append hstands with h | h | ⟨x, y, rfl, hx, -⟩
    · exact (h.trans hl.isInfix).trans (List.prefix_append _ _).isInfix
    · exact (ih hw h).trans ⟨m ++ ['\n'], [], by simp⟩
    · cases y with
      | nil =>
        obtain ⟨k, rfl⟩ := hx.trans hl
        exact ⟨k, v, by simp⟩
      | cons c y =>
        rw [List.dropLast_append_of_ne_nil (List.cons_ne_nil _ _)] at hw
        exact absurd (List.mem_append_right x (by simp)) hw

end Rows

/-! ## Excerpts -/

/-- The lines of the first text are parts of lines of the second that follow each other. -/
def Excerpt (t' t : Text) : Prop := ∃ v, v <:+: t ∧ Rows t' v

theorem Excerpt.trans (h : Excerpt t'' t') (h' : Excerpt t' t) : Excerpt t'' t := by
  obtain ⟨u, hu, hrows⟩ := h
  obtain ⟨v, hv, hrows'⟩ := h'
  obtain ⟨w, hw, hpart⟩ := hrows'.exists_infix hu
  exact ⟨w, hw.trans hv, hrows.trans hpart⟩

theorem excerpt_of_infix (h : t' <:+: t) : Excerpt t' t := ⟨t', h, .refl t'⟩

/-- What stands on one line of an excerpt, its line feed included, stands in the text. -/
theorem Excerpt.line (h : Excerpt t' t) (hw : '\n' ∉ w.dropLast) (hstands : w <:+: t') : w <:+: t := by
  obtain ⟨v, hv, hrows⟩ := h
  exact (hrows.line_infix hw hstands).trans hv

theorem Excerpt.mem (h : Excerpt t' t) {c : Char} (hc : c ∈ t') : c ∈ t := by
  obtain ⟨u, v, rfl⟩ := List.append_of_mem hc
  exact (h.line (w := [c]) List.not_mem_nil ⟨u, v, by simp⟩).subset List.mem_cons_self

/-! ## Paragraphs -/

/-- A text with no blank line between two others. -/
def Solid (t : Text) : Prop := ∀ g, (∀ c ∈ g, isBlank c) → ¬ '\n' :: (g ++ ['\n']) <:+: t

theorem Solid.within (h : Solid t) (hu : u <:+: t) : Solid u := fun g hg hstands => h g hg (hstands.trans hu)

theorem solid_of_notMem (h : '\n' ∉ t) : Solid t := fun _ _ hstands => h (hstands.subset List.mem_cons_self)

/-- Blanks with a line end behind them hold the first line. -/
theorem blank_of_lead (hl : '\n' ∉ l) (hg : ∀ c ∈ g, isBlank c) (h : g ++ ['\n'] <+: l ++ '\n' :: t) : ∀ c ∈ l, isBlank c := by
  obtain ⟨r, hr⟩ := h
  rw [List.append_assoc, List.singleton_append] at hr
  rcases List.append_eq_append_iff.1 hr with ⟨x, rfl, hx⟩ | ⟨x, rfl, -⟩
  · cases x with
    | nil => rwa [List.append_nil]
    | cons c x =>
      obtain ⟨rfl, -⟩ := List.cons.inj hx
      exact absurd (List.mem_append_right g List.mem_cons_self) hl
  · exact fun c hc => hg c (List.mem_append_left x hc)

/-- Behind a line that is not blank, as behind any line end, may stand what has no blank line in front. -/
theorem Solid.line (h : Solid ('\n' :: t)) (hl : '\n' ∉ l) : Solid (l ++ '\n' :: t) := by
  intro g hg hstands
  rcases infix_line_append hstands with hin | hin | ⟨x, y, hxy, hx, hy⟩
  · exact hl (hin.subset List.mem_cons_self)
  · exact h g hg (List.infix_cons hin)
  · cases x with
    | nil =>
      obtain ⟨-, rfl⟩ := List.cons.inj hxy
      exact h g hg (List.cons_prefix_cons.2 ⟨rfl, hy⟩).isInfix
    | cons c x =>
      obtain ⟨rfl, -⟩ := List.cons.inj hxy
      exact hl (hx.subset List.mem_cons_self)

theorem Solid.cons_line (h : Solid ('\n' :: t)) (hl : '\n' ∉ l) (hblank : allBlank l = false) : Solid ('\n' :: (l ++ '\n' :: t)) := by
  intro g hg hstands
  rcases List.infix_cons_iff.1 hstands with hlead | hin
  · rw [allBlank, List.all_eq_true.2 (blank_of_lead hl hg (List.cons_prefix_cons.1 hlead).2)] at hblank
    cases hblank
  · exact h.line hl g hg hin

theorem Rows.exists_blank (h : Rows u v) (hg : ∀ c ∈ g, isBlank c) (hlead : g ++ ['\n'] <+: v) :
    ∃ g', (∀ c ∈ g', isBlank c) ∧ g' ++ ['\n'] <+: u := by
  cases h with
  | last hv => exact absurd (hlead.subset (List.mem_append_right _ List.mem_cons_self)) hv
  | @line l m u v hm hl _ => exact ⟨l, fun c hc => blank_of_lead hm hg hlead c (hl.subset hc), u, by simp⟩

theorem Rows.solid (h : Rows u v) (hu : Solid u) : Solid v := by
  induction h with
  | last hv => exact solid_of_notMem hv
  | @line l m u v hm hl h ih =>
    intro g hg hstands
    have hrest : u <:+: l ++ '\n' :: u := ⟨l ++ ['\n'], [], by simp⟩
    rcases infix_line_append hstands with hm' | hv | ⟨x, y, hxy, hx, hy⟩
    · exact hm (hm'.subset List.mem_cons_self)
    · exact ih (hu.within hrest) g hg hv
    · cases x with
      | nil =>
        obtain ⟨-, rfl⟩ := List.cons.inj hxy
        obtain ⟨g', hg', hfront⟩ := h.exists_blank hg hy
        exact hu g' hg' ((List.cons_prefix_cons.2 ⟨rfl, hfront⟩).isInfix.trans (List.suffix_append l _).isInfix)
      | cons c x =>
        obtain ⟨rfl, -⟩ := List.cons.inj hxy
        exact hm (hx.subset List.mem_cons_self)

/-- What stands in an excerpt with no blank line in it stands, line by line, in such a part of the text. -/
theorem Excerpt.exists_solid (h : Excerpt t' t) (hu : u <:+: t') (hsolid : Solid u) : ∃ v, v <:+: t ∧ Solid v ∧ Excerpt u v := by
  obtain ⟨v, hv, hrows⟩ := h
  obtain ⟨w, hw, hpart⟩ := hrows.exists_infix hu
  exact ⟨w, hw.trans hv, hpart.solid hsolid, w, List.infix_rfl, hpart⟩

end Narration.Text
