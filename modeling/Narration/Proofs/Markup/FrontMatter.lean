import Narration.Markup.Block
import Narration.Proofs.Text.Find
import Narration.Proofs.Text.Lines

/-!
# Front matter line by line

The line ends are line feeds.

* `Block.isHyphens`, `Block.fenced` : the lines between which front matter stands;
* `Block.frontMatter?_isSome` : a text has front matter when its lines do;
* `Block.exists_frontMatter` : front matter stays when the lines below it are exchanged for others.
-/

namespace Narration.Markup.Block
open Text (EndsLine)

/-- A line of three hyphens with spaces and tabs after them. -/
def isHyphens (line : Text) : Bool := (Text.after? ['-', '-', '-'] line).any (·.all Text.isSpaceOrTab)

/-- Whether the first line and another one are hyphens. -/
def fenced : List Text → Bool
  | [] => false
  | line :: lines => isHyphens line && lines.any isHyphens

variable {b e e' l m t u v source : Text} {n : Nat}

/-- Hyphens stand alone on their line. -/
theorem isHyphens_eq_false {c : Char} (hc : c ∈ l) (hhyphen : c ≠ '-') (hspace : Text.isSpaceOrTab c = false) : isHyphens l = false := by
  rw [isHyphens]
  cases hafter : Text.after? ['-', '-', '-'] l with
  | none => rfl
  | some rest =>
    rw [Text.after?_eq_some.1 hafter] at hc
    have hrest : c ∈ rest := by simpa [hhyphen] using hc
    rw [Option.any_some, List.all_eq_false]
    exact ⟨c, hrest, by simp [hspace]⟩

theorem isHyphens_of_space (h : l.head? = some ' ') : isHyphens l = false := by
  obtain ⟨u, rfl⟩ := List.head?_eq_some_iff.1 h
  rfl

theorem lineEnd?_newline (t : Text) : lineEnd? ('\n' :: t) = some t := rfl

theorem lineEnd?_eq_none {c : Char} (hc : c ≠ '\n') (hr : c ≠ '\r') (t : Text) : lineEnd? (c :: t) = none := by
  unfold lineEnd?
  split
  · next heq => exact absurd (List.cons.inj heq).1 hr
  · next heq => exact absurd (List.cons.inj heq).1 hc
  · rfl

theorem hyphens?_of_isHyphens (h : isHyphens m) (he : EndsLine e) : hyphens? (m ++ e) = some e := by
  obtain ⟨rest, hrest, hall⟩ := (Option.any_eq_true _ _).1 h
  rw [hyphens?, he.after?_append (by decide), hrest, Option.map_some, Option.map_some, he.dropWhile_append (by decide),
    Text.dropWhile_all (List.all_eq_true.1 hall), List.nil_append]

theorem hyphens?_of_not_isHyphens (h : isHyphens m = false) (hm : '\n' ∉ m) (hr : '\r' ∉ m) (he : EndsLine e) :
    hyphens? (m ++ e) = none ∨ ∃ c t, hyphens? (m ++ e) = some (c :: t) ∧ c ≠ '\n' ∧ c ≠ '\r' := by
  cases hrest : Text.after? ['-', '-', '-'] m with
  | none =>
    left
    rw [hyphens?, he.after?_append (by decide), hrest, Option.map_none, Option.map_none]
  | some rest =>
    right
    rw [isHyphens, hrest, Option.any_some] at h
    rw [hyphens?, he.after?_append (by decide), hrest, Option.map_some, Option.map_some, he.dropWhile_append (by decide)]
    obtain ⟨x, y, rfl, hx, rfl | ⟨c, y, rfl, hc⟩⟩ := Text.exists_run Text.isSpaceOrTab rest
    · rw [List.append_nil, List.all_eq_true.2 hx] at h
      cases h
    · have hcm : c ∈ m := by
        rw [Text.after?_eq_some.1 hrest]
        simp
      rw [Text.dropWhile_run hx hc]
      refine ⟨c, y ++ e, rfl, ?_, ?_⟩
      · rintro rfl
        exact hm hcm
      · rintro rfl
        exact hr hcm

/-- Whether a line closes front matter depends on that line only. -/
theorem closingHyphens?_append (hm : '\n' ∉ m) (hr : '\r' ∉ m) (he : EndsLine e) :
    closingHyphens? (m ++ e) = if isHyphens m then some e else none := by
  cases h : isHyphens m with
  | true =>
    rw [closingHyphens?, hyphens?_of_isHyphens h he]
    rcases he with rfl | ⟨w, rfl⟩ <;> rfl
  | false =>
    rw [closingHyphens?]
    rcases hyphens?_of_not_isHyphens h hm hr he with hnone | ⟨c, t, hsome, hn, hr⟩
    · rw [hnone]
      rfl
    · rw [hsome, Option.bind_eq_bind, Option.bind_some, lineEnd?_eq_none hn hr]
      rfl

/-- The search for closing hyphens goes from line to line. -/
theorem untilHyphens?_line (hu : '\n' ∉ u) (hr : '\r' ∉ u) (b v : Text) :
    untilHyphens? b (u ++ '\n' :: v) = match closingHyphens? v with
      | some rest => some (b.reverse ++ u, rest)
      | none => untilHyphens? ('\n' :: u.reverse ++ b) v := by
  induction u generalizing b with
  | nil =>
    rw [List.nil_append, untilHyphens?, lineEnd?_newline, Option.bind_some]
    cases closingHyphens? v <;> simp
  | cons c u ih =>
    rw [List.mem_cons, not_or] at hu hr
    rw [List.cons_append, untilHyphens?, lineEnd?_eq_none (Ne.symm hu.1) (Ne.symm hr.1), Option.bind_none]
    dsimp only
    rw [ih hu.2 hr.2]
    simp

theorem untilHyphens?_lastLine (hu : '\n' ∉ u) (hr : '\r' ∉ u) (b : Text) : untilHyphens? b u = none := by
  induction u generalizing b with
  | nil => rfl
  | cons c u ih =>
    rw [List.mem_cons, not_or] at hu hr
    rw [untilHyphens?, lineEnd?_eq_none (Ne.symm hu.1) (Ne.symm hr.1), Option.bind_none]
    exact ih hu.2 hr.2 _

theorem closingHyphens?_lines (hr : '\r' ∉ v) :
    closingHyphens? v = if (Text.lines v).head?.any isHyphens then some (v.drop (Text.firstLine v).length) else none := by
  obtain ⟨e, hv, he⟩ := Text.exists_afterFirstLine v
  generalize hm : Text.firstLine v = m at hv ⊢
  have hline : '\n' ∉ m := hm ▸ Text.newline_notMem_firstLine v
  have hhead : (Text.lines v).head? = some m := hm ▸ Text.head?_lines v
  rw [hhead, Option.any_some, hv, List.drop_left]
  exact closingHyphens?_append hline (fun h => hr (hv ▸ List.mem_append_left _ h)) he

theorem untilHyphens?_isSome (hr : '\r' ∉ t) (b : Text) :
    (untilHyphens? b t).isSome = (Text.lines t).tail.any isHyphens := by
  induction ht : t.length using Nat.strongRecOn generalizing b t with
  | _ k ih =>
    subst ht
    by_cases hmem : '\n' ∈ t
    · obtain ⟨u, v, rfl, hu⟩ := Text.firstLine_of_mem hmem
      have hru : '\r' ∉ u := fun h => hr (List.mem_append_left _ h)
      have hrv : '\r' ∉ v := fun h => hr (List.mem_append_right _ (List.mem_cons_of_mem _ h))
      have hshort : v.length < (u ++ '\n' :: v).length := by
        rw [List.length_append, List.length_cons]
        omega
      obtain ⟨m, ls, hlines⟩ := List.exists_cons_of_ne_nil (Text.lines_ne_nil v)
      rw [untilHyphens?_line hu hru, closingHyphens?_lines hrv, Text.lines_append_line hu, List.tail_cons, hlines,
        List.head?_cons, Option.any_some, List.any_cons]
      cases hm : isHyphens m with
      | true => rfl
      | false =>
        rw [Bool.false_or, if_neg (by decide)]
        exact (ih _ hshort hrv _ rfl).trans (by rw [hlines, List.tail_cons])
    · rw [untilHyphens?_lastLine hmem hr, Text.lines_of_notMem hmem]
      rfl

/-- What stands inside of front matter is searched for its end. -/
theorem frontMatter?_line (hm : '\n' ∉ m) (hr : '\r' ∉ m) (v : Text) : frontMatter? (m ++ '\n' :: v) =
    if isHyphens m then
      match untilHyphens? [] v with
      | some (source, rest) => some (source, (m ++ '\n' :: v).length - rest.length)
      | none => (closingHyphens? v).map fun rest => ([], (m ++ '\n' :: v).length - rest.length)
    else none := by
  have he : EndsLine ('\n' :: v) := .inr ⟨v, rfl⟩
  cases h : isHyphens m with
  | true =>
    rw [frontMatter?, hyphens?_of_isHyphens h he, if_pos rfl]
    simp only [Option.bind_eq_bind, Option.bind_some, lineEnd?_newline]
    cases untilHyphens? [] v with
    | some r => rfl
    | none => exact Option.map_eq_bind.symm
  | false =>
    rw [frontMatter?, if_neg (by decide)]
    rcases hyphens?_of_not_isHyphens h hm hr he with hnone | ⟨c, t, hsome, hn, hr⟩
    · rw [hnone]
      rfl
    · simp only [hsome, Option.bind_eq_bind, Option.bind_some, lineEnd?_eq_none hn hr, Option.bind_none]

theorem frontMatter?_lastLine (hm : '\n' ∉ m) (hr : '\r' ∉ m) : frontMatter? m = none := by
  have he : EndsLine ([] : Text) := .inl rfl
  cases h : isHyphens m with
  | true =>
    have hrest := hyphens?_of_isHyphens h he
    rw [List.append_nil] at hrest
    rw [frontMatter?, hrest]
    rfl
  | false =>
    have hrest := hyphens?_of_not_isHyphens h hm hr he
    rw [List.append_nil] at hrest
    rcases hrest with hnone | ⟨c, t, hsome, hn, hr⟩
    · rw [frontMatter?, hnone]
      rfl
    · simp only [frontMatter?, hsome, Option.bind_eq_bind, Option.bind_some, lineEnd?_eq_none hn hr, Option.bind_none]

/-- A text has front matter when its first line and another one are hyphens. -/
theorem frontMatter?_isSome (hr : '\r' ∉ t) : (frontMatter? t).isSome = fenced (Text.lines t) := by
  by_cases hmem : '\n' ∈ t
  · obtain ⟨m, v, rfl, hm⟩ := Text.firstLine_of_mem hmem
    have hrm : '\r' ∉ m := fun h => hr (List.mem_append_left _ h)
    have hrv : '\r' ∉ v := fun h => hr (List.mem_append_right _ (List.mem_cons_of_mem _ h))
    obtain ⟨l, ls, hlines⟩ := List.exists_cons_of_ne_nil (Text.lines_ne_nil v)
    have huntil := untilHyphens?_isSome hrv []
    have hclosing := closingHyphens?_lines hrv
    rw [hlines, List.tail_cons] at huntil
    rw [hlines, List.head?_cons, Option.any_some] at hclosing
    rw [frontMatter?_line hm hrm, Text.lines_append_line hm, fenced, hlines, List.any_cons, ← huntil]
    cases hfirst : isHyphens m with
    | false => rfl
    | true =>
      rw [if_pos rfl, Bool.true_and]
      cases untilHyphens? [] v with
      | some r => simp
      | none =>
        rw [hclosing]
        cases isHyphens l <;> rfl
  · rw [frontMatter?_lastLine hmem hr, Text.lines_of_notMem hmem]
    simp [fenced]

/-! ## Exchanging what follows -/

theorem exists_untilHyphens {rest : Text} (hr : '\r' ∉ t) (h : untilHyphens? b t = some (source, rest)) :
    ∃ u m, t = u ++ '\n' :: m ++ rest ∧ isHyphens m ∧ EndsLine rest ∧
      ∀ e', EndsLine e' → untilHyphens? b (u ++ '\n' :: m ++ e') = some (source, e') := by
  induction ht : t.length using Nat.strongRecOn generalizing b t with
  | _ k ih =>
    subst ht
    by_cases hmem : '\n' ∈ t
    · obtain ⟨l, v, rfl, hl⟩ := Text.firstLine_of_mem hmem
      have hrl : '\r' ∉ l := fun h => hr (List.mem_append_left _ h)
      have hrv : '\r' ∉ v := fun h => hr (List.mem_append_right _ (List.mem_cons_of_mem _ h))
      obtain ⟨e, hv, he⟩ := Text.exists_afterFirstLine v
      have hline := Text.newline_notMem_firstLine v
      have hrline : '\r' ∉ Text.firstLine v := fun h => hrv ((List.takeWhile_sublist _).subset h)
      have hclosing {e : Text} (he : EndsLine e) := closingHyphens?_append hline hrline he
      rw [untilHyphens?_line hl hrl, hv, hclosing he] at h
      cases hm : isHyphens (Text.firstLine v) with
      | true =>
        rw [hm] at h
        cases h
        refine ⟨l, Text.firstLine v, by rw [List.append_assoc, List.cons_append, ← hv], hm, he, fun e' he' => ?_⟩
        rw [List.append_assoc, List.cons_append, untilHyphens?_line hl hrl, hclosing he', hm]
        rfl
      | false =>
        rw [hm, ← hv] at h
        have hshort : v.length < (l ++ '\n' :: v).length := by
          rw [List.length_append, List.length_cons]
          omega
        obtain ⟨u, m, hu, hhyphens, hrest, hall⟩ := ih _ hshort hrv h rfl
        refine ⟨l ++ '\n' :: u, m, by rw [hu]; simp, hhyphens, hrest, fun e' he' => ?_⟩
        have hfirst : Text.firstLine (u ++ '\n' :: m ++ e') = Text.firstLine v := by
          have hmem' : '\n' ∈ u ++ '\n' :: m := by simp
          rw [hu, Text.firstLine_append_of_mem hmem', Text.firstLine_append_of_mem hmem']
        have hnone : closingHyphens? (u ++ '\n' :: m ++ e') = none := by
          obtain ⟨e, hv', he⟩ := Text.exists_afterFirstLine (u ++ '\n' :: m ++ e')
          rw [hfirst] at hv'
          rw [hv', hclosing he, hm]
          rfl
        rw [List.append_assoc, List.cons_append, List.append_assoc, List.cons_append, untilHyphens?_line hl hrl,
          ← List.cons_append, ← List.append_assoc, hnone]
        exact hall e' he'
    · rw [untilHyphens?_lastLine hmem hr] at h
      cases h

theorem getLast?_of_isHyphens (h : isHyphens m) : ∃ c, m.getLast? = some c ∧ c ≠ '\n' := by
  obtain ⟨rest, hrest, hall⟩ := (Option.any_eq_true _ _).1 h
  have hm := Text.after?_eq_some.1 hrest
  cases hlast : rest.getLast? with
  | none =>
    rw [List.getLast?_eq_none_iff.1 hlast] at hm
    exact ⟨'-', by rw [hm]; rfl, by decide⟩
  | some c =>
    refine ⟨c, by rw [hm, List.getLast?_append, hlast]; rfl, ?_⟩
    rintro rfl
    have := List.all_eq_true.1 hall '\n' (List.mem_of_getLast? hlast)
    revert this
    decide

theorem exists_closingHyphens {rest : Text} (hr : '\r' ∉ t) (h : closingHyphens? t = some rest) :
    ∃ m, t = m ++ rest ∧ '\n' ∉ m ∧ isHyphens m ∧ EndsLine rest := by
  obtain ⟨e, ht, he⟩ := Text.exists_afterFirstLine t
  have hline := Text.newline_notMem_firstLine t
  have hrline : '\r' ∉ Text.firstLine t := fun h => hr ((List.takeWhile_sublist _).subset h)
  have hclosing := closingHyphens?_append hline hrline he
  rw [← ht, h] at hclosing
  cases hm : isHyphens (Text.firstLine t) with
  | false =>
    rw [hm] at hclosing
    cases hclosing
  | true =>
    rw [hm] at hclosing
    cases hclosing
    exact ⟨_, ht, hline, hm, he⟩

theorem lines_tail_append (hm : '\n' ∉ m) (he : EndsLine e) : (Text.lines (m ++ e)).tail = (Text.lines e).tail := by
  rcases he with rfl | ⟨w, rfl⟩
  · rw [List.append_nil, Text.lines_of_notMem hm, Text.lines_nil, List.tail_cons, List.tail_cons]
  · rw [Text.lines_append_line hm, Text.lines_newline, List.tail_cons, List.tail_cons]

/-- Front matter ends with a line, and stays when the lines below are exchanged, unless other hyphens come about. -/
theorem exists_frontMatter (hr : '\r' ∉ t) (h : frontMatter? t = some (source, n)) :
    ∃ f rest, t = f ++ rest ∧ f.length = n ∧ EndsLine rest ∧ (∃ c, f.getLast? = some c ∧ c ≠ '\n') ∧
      ∀ e', EndsLine e' → '\r' ∉ e' → (∀ l ∈ Text.lines e', isHyphens l → l ∈ Text.lines rest) →
        frontMatter? (f ++ e') = some (source, n) := by
  by_cases hmem : '\n' ∈ t
  · obtain ⟨m, v, rfl, hm⟩ := Text.firstLine_of_mem hmem
    have hrm : '\r' ∉ m := fun h => hr (List.mem_append_left _ h)
    have hrv : '\r' ∉ v := fun h => hr (List.mem_append_right _ (List.mem_cons_of_mem _ h))
    rw [frontMatter?_line hm hrm] at h
    cases hfirst : isHyphens m with
    | false =>
      rw [hfirst] at h
      cases h
    | true =>
      rw [hfirst, if_pos rfl] at h
      cases huntil : untilHyphens? [] v with
      | some r =>
        obtain ⟨source, rest⟩ := r
        rw [huntil] at h
        cases h
        obtain ⟨u, k, rfl, hk, hrest, hall⟩ := exists_untilHyphens hrv huntil
        obtain ⟨c, hlast, hc⟩ := getLast?_of_isHyphens hk
        refine ⟨m ++ '\n' :: (u ++ '\n' :: k), rest, by simp, ?_, hrest, ⟨c, ?_, hc⟩, fun e' he' _ _ => ?_⟩
        · simp
          omega
        · rw [List.getLast?_append, List.getLast?_cons, List.getLast?_append, List.getLast?_cons, hlast]
          rfl
        · have huntil' := hall e' he'
          rw [List.append_assoc, List.cons_append] at huntil'
          rw [List.append_assoc, List.cons_append, List.append_assoc, List.cons_append, frontMatter?_line hm hrm, hfirst,
            if_pos rfl, huntil']
          simp only [List.length_append, List.length_cons, Option.some.injEq, Prod.mk.injEq, true_and]
          omega
      | none =>
        rw [huntil] at h
        obtain ⟨rest, hclosing, h⟩ := Option.map_eq_some_iff.1 h
        cases h
        obtain ⟨k, rfl, hkline, hk, hrest⟩ := exists_closingHyphens hrv hclosing
        have hrk : '\r' ∉ k := fun h => hrv (List.mem_append_left _ h)
        obtain ⟨c, hlast, hc⟩ := getLast?_of_isHyphens hk
        refine ⟨m ++ '\n' :: k, rest, by simp, by simp; omega, hrest, ⟨c, ?_, hc⟩, fun e' he' hr' hlines => ?_⟩
        · rw [List.getLast?_append, List.getLast?_cons, hlast]
          rfl
        · have hnone : untilHyphens? [] (k ++ e') = none := by
            have hsome := untilHyphens?_isSome (t := k ++ rest) hrv []
            have hsome' := untilHyphens?_isSome (t := k ++ e') (by simp [hrk, hr']) []
            rw [huntil, Option.isSome_none, lines_tail_append hkline hrest] at hsome
            rw [lines_tail_append hkline he'] at hsome'
            rw [← Option.not_isSome_iff_eq_none, hsome', List.any_eq_true]
            rintro ⟨l, hl, hhyphens⟩
            have hmem := hlines l (List.mem_of_mem_tail hl) hhyphens
            have hne : l ≠ [] := by
              rintro rfl
              cases hhyphens
            rcases hrest with rfl | ⟨w, rfl⟩
            · rw [Text.lines_nil, List.mem_singleton] at hmem
              exact hne hmem
            · rw [Text.lines_newline, List.mem_cons] at hmem
              rw [Text.lines_newline, List.tail_cons] at hsome
              have hany : (Text.lines w).any isHyphens := List.any_eq_true.2 ⟨l, hmem.resolve_left hne, hhyphens⟩
              rw [← hsome] at hany
              cases hany
          have hclosing' := closingHyphens?_append hkline hrk he'
          rw [hk, if_pos rfl] at hclosing'
          rw [List.append_assoc, List.cons_append, frontMatter?_line hm hrm, hfirst, if_pos rfl, hnone, hclosing']
          simp only [List.length_append, List.length_cons, Option.map_some, Option.some.injEq, Prod.mk.injEq, true_and]
          omega
  · rw [frontMatter?_lastLine hmem hr] at h
    cases h

end Narration.Markup.Block
