import Narration.Proofs.Markup.Body
import Narration.Proofs.Markup.NearTag
import Narration.Proofs.Markup.Steady

/-!
# A gap one line wider

* `Exchange.widen` : one line feed more behind a blank line;
* `Exchange.begins_widen`, `Exchange.gap_widen` : both texts begin alike, with a gap;
* `Exchange.Fork.near` : what is left of both texts;
* `Block.steady_widen` : nothing that is open above is closed;
* `Reference.normalize_widen` : a label with one line feed more behind a blank is the same label;
* `Reference.collect_widen` : a text with one line feed more makes the same definitions;
* `hasFront_widen` : its front matter is the same.
-/

/-! ## A wider gap -/

namespace Narration.Markup
open Fallible
open Text (EndsLine firstLine)

/-- One line feed more behind a blank line. -/
def Exchange.widen (u w e : Text) : Exchange := ⟨u, u.length, w ++ e, w ++ '\n' :: e⟩

/-- Whole lines, a blank line, and what follows it. -/
structure BlankLine (u w e : Text) : Prop where
  lines : u = [] ∨ u.getLast? = some '\n'
  blank : ∀ c ∈ w, Text.isSpaceOrTab c
  ends : EndsLine e

variable {u w e : Text} {s s' : Stretch} {scope : Scope} {inner : Block.Inner}

namespace BlankLine

variable (h : BlankLine u w e)
include h

theorem newline_notMem : '\n' ∉ w := fun hmem => by
  have hblank := h.blank _ hmem
  revert hblank
  decide

theorem allBlank : Text.allBlank w := List.all_eq_true.2 fun c hc => by
  have hblank := h.blank c hc
  rw [Text.isSpaceOrTab, Bool.or_eq_true, beq_iff_eq, beq_iff_eq] at hblank
  rcases hblank with rfl | rfl <;> decide

/-- The last character above the line feed that is added is a blank. -/
theorem rests {q : Text} (hq : q <:+ u) : Rests (q ++ w) := by
  intro c hc
  by_cases hw : w = []
  · rw [hw, List.append_nil] at hc
    by_cases hne : q = []
    · rw [hne] at hc
      cases hc
    · rw [Exchange.getLast?_of_suffix (X := .widen u w e) h.lines hq hne] at hc
      cases hc
      rfl
  · rw [List.getLast?_append_of_ne_nil q hw] at hc
    have hblank := h.blank c (List.mem_of_getLast? hc)
    rw [Text.isSpaceOrTab, Bool.or_eq_true, beq_iff_eq, beq_iff_eq] at hblank
    rcases hblank with rfl | rfl <;> rfl

theorem firstLine_old : firstLine (w ++ e) = w := by
  rw [h.ends.firstLine_append, firstLine, Text.takeWhile_lastLine h.newline_notMem]

theorem firstLine_new : firstLine (w ++ '\n' :: e) = w := by rw [firstLine, Text.takeWhile_line h.newline_notMem]

end BlankLine

namespace Exchange

variable (h : BlankLine u w e)
include h

theorem begins_widen : (widen u w e).Begins := by
  refine begins_of_same (h.firstLine_new.trans h.firstLine_old.symm) ?_ fun _ => h.lines
  have hblank (v : Text) (hv : EndsLine v) : Text.allBlank (w ++ firstLine v) := by
    rcases hv with rfl | ⟨v, rfl⟩
    · simpa using h.allBlank
    · simpa [firstLine] using h.allBlank
  change (⟨0, w ++ '\n' :: e⟩ : Stretch).prose = (⟨0, w ++ e⟩ : Stretch).prose
  rw [Stretch.prose_indented h.newline_notMem (hblank _ (.inr ⟨e, rfl⟩)), Stretch.prose_indented h.newline_notMem (hblank _ h.ends)]
  have hskip (v : Text) : (⟨0, '\n' :: v⟩ : Stretch).prose = (⟨0, v⟩ : Stretch).prose := by
    have hafter : (⟨0, '\n' :: v⟩ : Stretch).afterLine = ⟨0 + (0 + 1), v⟩ := Stretch.afterLine_mk (u := []) List.not_mem_nil
    rw [Stretch.prose_blank (List.cons_ne_nil _ _) rfl, hafter, Stretch.prose_mk]
  exact hskip e

theorem gap_widen : (widen u w e).Gap := by
  refine ⟨?_, h.lines⟩
  change Text.allBlank (firstLine (w ++ e))
  rw [h.firstLine_old]
  exact h.allBlank

theorem Fork.near (hfork : (widen u w e).Fork s s') : Near e s.chars s'.chars := by
  cases hfork with
  | @mk a q hq ha =>
    have hnear := Near.above (e := e) (h.rests hq)
    rwa [List.append_assoc, List.append_assoc] at hnear

end Exchange

namespace Block

open Exchange (widen)

variable (h : BlankLine u w e)
include h

/-- Module statements end where they did. -/
theorem modulesLength_widen {q : Text} (hq : q <:+ u) {depth : Nat} (hle : modulesLength depth 0 (q ++ (w ++ e)) ≤ q.length) :
    modulesLength depth 0 (q ++ (w ++ '\n' :: e)) = modulesLength depth 0 (q ++ (w ++ e)) := by
  have hnear {y : Text} (hy : y <:+ u) : Near e (y ++ (w ++ e)) (y ++ (w ++ '\n' :: e)) := by
    rw [← List.append_assoc, ← List.append_assoc]
    exact .above (h.rests hy)
  refine (modulesLength_exchange (w := u) (a := (w ++ '\n' :: e).length + 1) ?_ ?_ ?_ ?_ hq hle).resolve_right fun hlong => ?_
  · intro depth hzero
    left
    cases w with
    | nil =>
      change modulesLength depth 0 ('\n' :: e) = 0
      rw [modulesLength_newline, if_pos]
      rcases h.ends with rfl | ⟨v, rfl⟩ <;> simp [endsModules, Text.allBlank]
    | cons c w =>
      have hc : c ≠ '\n' := fun heq => h.newline_notMem (heq ▸ List.mem_cons_self)
      exact absurd hzero (modulesLength_pos depth (w ++ e) hc).ne'
  · intro c y hc hy hopen
    left
    have hstring := Braces.stringTail?_near h.ends hc (h.rests hy)
    rw [List.append_assoc, List.append_assoc, hopen] at hstring
    generalize Braces.stringTail? c (y ++ (w ++ '\n' :: e)) = tail at hstring ⊢
    cases hstring
    rfl
  · intro y hy
    rw [(hnear hy).firstLine h.ends]
    exact .inl rfl
  · intro hnil
    rw [h.firstLine_old] at hnil
    rw [h.firstLine_new, hnil]
  · have hle := modulesLength_le depth (q ++ (w ++ '\n' :: e))
    have hlength : (q ++ (w ++ '\n' :: e)).length = q.length + (w ++ '\n' :: e).length := List.length_append
    omega

theorem comment?_widen (hfork : (widen u w e).Fork s s') (hr : comment? scope s = none) : comment? scope s' = none := by
  have hnone {s : Stretch} : comment? scope s = none ↔ ¬['-', '-', '>'] <:+: s.chars := by
    rw [← Text.has_iff (by simp), Text.has, Bool.not_eq_true, Option.isSome_eq_false_iff, Option.isNone_iff_eq_none, comment?]
    cases Text.find? s.chars ['-', '-', '>'] with
    | none => exact iff_of_true rfl rfl
    | some n => exact iff_of_false (Option.some_ne_none _) (Option.some_ne_none n)
  rw [hnone] at hr ⊢
  exact (hfork.near h).not_occurs (by simp) (by decide) hr

theorem lineBlank_near {n n' : Nat} (hnear : NearAt e s.chars s'.chars n n') : (s'.drop n').lineBlank = (s.drop n).lineBlank :=
  congrArg Text.allBlank (Near.firstLine h.ends hnear)

theorem expression?_widen (hfork : (widen u w e).Fork s s') (hr : expression? scope s = none) : expression? scope s' = none := by
  have hbraced := Tag.braced?_near h.ends (hfork.near h)
  unfold expression? at hr ⊢
  generalize Tag.braced? s.chars = r at hbraced hr
  generalize Tag.braced? s'.chars = r' at hbraced ⊢
  cases hbraced with
  | none => rfl
  | @some r r' hnear =>
    change (if (s.drop r.2).lineBlank then _ else none) = none at hr
    change (if (s'.drop r'.2).lineBlank then _ else none) = none
    rw [lineBlank_near h hnear]
    split at hr
    · cases hr
    · next hends => rw [if_neg hends]

theorem tag_widen (hfork : (widen u w e).Fork s s') (hr : Tag.read? s.start s.chars = none) : Tag.read? s.start s'.chars = none := by
  have hread := Tag.read?_near h.ends (hfork.near h) s.start s.start
  rw [hr] at hread
  generalize Tag.read? s.start s'.chars = r at hread
  cases hread
  rfl

theorem closing_widen {name : Text} (hname : ∀ c ∈ name, Tag.isSpace c = false) (hfork : (widen u w e).Fork s s') (o : Nat)
    (hr : Closing.find? name o s.chars = none) : Closing.find? name o s'.chars = none := by
  have hfind := Closing.find?_near h.ends hname (hfork.near h) o o
  rw [hr] at hfind
  generalize Closing.find? name o s'.chars = r at hfind
  cases hfind
  rfl

omit h in
theorem since_add (s : Stretch) (n : Nat) : s.since (s.start + n) = s.drop n := by rw [Stretch.since, Nat.add_sub_cancel_left]

theorem component?_widen (hfork : (widen u w e).Fork s s') (hr : component? scope inner s = .ok none) :
    component? scope inner s' = .ok none := by
  have hread := Tag.read?_near h.ends (hfork.near h) s.start s'.start
  unfold component? at hr ⊢
  generalize htag : Tag.read? s.start s.chars = r at hread hr
  generalize htag' : Tag.read? s'.start s'.chars = r' at hread
  cases hread with
  | none => rfl
  | @some tag tag' hnear =>
    obtain ⟨n, n', hn, hn', hplace⟩ := hnear.stop
    have hwithin := (Tag.extent_of_read? htag).2
    have hwithin' := (Tag.extent_of_read? htag').2
    have hstart {s : Stretch} {n : Nat} (hle : s.start + n ≤ s.start + s.chars.length) : (s.drop n).start = s.start + n := by
      rw [Stretch.start_drop, Nat.min_eq_left (by omega)]
    dsimp only at hr ⊢
    rw [hn, since_add, hstart (by omega)] at hr
    rw [hn', since_add, hstart (by omega), hnear.closing, hnear.selfClosing, hnear.name]
    split at hr
    · cases hr
    · next hclosing =>
      rw [if_neg hclosing]
      split at hr
      · next hself =>
        rw [if_pos hself, lineBlank_near h hplace]
        split at hr
        · cases hr
        · next hends => rw [if_neg hends]
      · next hself =>
        rw [if_neg hself]
        have hfind := Closing.find?_near h.ends (Tag.not_isSpace_of_read? htag) hplace (s.start + n) (s'.start + n')
        rw [← Stretch.chars_drop, ← Stretch.chars_drop] at hfind
        generalize Closing.find? tag.name (s.start + n) (s.drop n).chars = r at hfind hr
        generalize Closing.find? tag.name (s'.start + n') (s'.drop n').chars = r' at hfind
        cases hfind with
        | none => cases hr
        | @some r r' hfound =>
          obtain ⟨m, m', hm, hm', hplace'⟩ := hfound
          obtain ⟨first, last⟩ := r
          obtain ⟨first', last'⟩ := r'
          dsimp only at hm hm' hr ⊢
          have hbehind : NearAt _ s.chars s'.chars (m + n) (m' + n') := hplace'.add (s.chars_drop n).symm (s'.chars_drop n').symm
          rw [hm, Nat.add_assoc, since_add] at hr
          rw [hm', Nat.add_assoc, since_add]
          have hline : (s'.drop (n' + m')).lineBlank = (s.drop (n + m)).lineBlank :=
            lineBlank_near h (hbehind.of_eq (Nat.add_comm _ _) (Nat.add_comm _ _))
          rw [hline]
          split at hr
          · split at hr
            all_goals
              obtain ⟨children, -, hr⟩ := bind_eq_ok.1 hr
              cases hr
          · next hends => rw [if_neg hends]

/-- A line feed more in a gap closes nothing of what is open above. -/
theorem steady_widen : Steady (widen u w e) scope inner where
  modules hfork _ hle := by
    cases hfork with
    | @mk a q hq ha =>
      dsimp only [widen] at hle ha
      exact modulesLength_widen h hq (by omega)
  comment hfork _ hr := comment?_widen h hfork hr
  expression hfork _ hr := expression?_widen h hfork hr
  component hfork _ hr := component?_widen h hfork hr
  tag hfork hr := tag_widen h hfork hr
  closing hfork htag hle hr := by
    have hpast := (Tag.extent_of_read? htag).1
    exact closing_widen h (Tag.not_isSpace_of_read? htag) (hfork.since (by omega) hle) _ hr

end Block
end Narration.Markup

namespace Narration.Markup
open Text (EndsLine firstLine)

namespace Reference

variable {e t x y : Text} {b c : Char} {place : Nat} {label : Text}

/-! ## Labels -/

theorem collapse_widen (hb : isLabelBlank b) (x y : Text) : collapse (x ++ b :: '\n' :: y) = collapse (x ++ b :: y) := by
  have hline : isLabelBlank '\n' := by decide
  induction x with
  | nil =>
    rw [List.nil_append, List.nil_append, collapse, if_pos hb, if_pos (by simpa using hline), collapse, if_pos hline, collapse,
      if_pos hb]
  | cons c x ih =>
    have hhead : (x ++ b :: '\n' :: y).head? = (x ++ b :: y).head? := by cases x <;> rfl
    rw [List.cons_append, List.cons_append, collapse, collapse, hhead, ih]

theorem dropEndWhile_reverse (p : Char → Bool) (t : Text) : Text.dropEndWhile p t.reverse = (t.dropWhile p).reverse := by
  rw [Text.dropEndWhile, List.reverse_reverse]

theorem collapse_trimmed (hb : isLabelBlank b) (x y : Text) : collapse (Text.dropEndWhile isLabelBlank (x ++ b :: '\n' :: y)) =
    collapse (Text.dropEndWhile isLabelBlank (x ++ b :: y)) := by
  have hline : isLabelBlank '\n' := by decide
  obtain ⟨z, rfl⟩ : ∃ z, y = z.reverse := ⟨y.reverse, (List.reverse_reverse y).symm⟩
  have hreverse (t : Text) : x ++ t = (t.reverse ++ x.reverse).reverse := by simp
  obtain ⟨u, v, rfl, hu, rfl | ⟨c, v, rfl, hc⟩⟩ := Text.exists_run isLabelBlank z
  · rw [hreverse, hreverse (b :: _), dropEndWhile_reverse, dropEndWhile_reverse]
    simp only [List.append_nil, List.reverse_cons, List.reverse_reverse, List.append_assoc, List.cons_append, List.nil_append]
    rw [List.dropWhile_append_of_pos hu, List.dropWhile_append_of_pos hu, List.dropWhile_cons_of_pos hline,
      List.dropWhile_cons_of_pos hb]
  · have hend := collapse_widen hb x (c :: v).reverse
    rw [hreverse, hreverse (b :: _), dropEndWhile_reverse, dropEndWhile_reverse]
    simp only [List.reverse_append, List.reverse_cons, List.reverse_reverse, List.append_assoc, List.cons_append, List.nil_append]
      at hend ⊢
    rw [Text.dropWhile_run hu hc, Text.dropWhile_run hu hc]
    simpa using hend

/-- A label with one line feed more behind a blank is the same label. -/
theorem normalize_widen (hb : isLabelBlank b) (x y : Text) : normalize (x ++ b :: '\n' :: y) = normalize (x ++ b :: y) := by
  have hline : isLabelBlank '\n' := by decide
  suffices hbare : collapse (Text.dropEndWhile isLabelBlank ((x ++ b :: '\n' :: y).dropWhile isLabelBlank)) =
      collapse (Text.dropEndWhile isLabelBlank ((x ++ b :: y).dropWhile isLabelBlank)) by
    rw [normalize, normalize, hbare]
  obtain ⟨u, v, rfl, hu, rfl | ⟨c, v, rfl, hc⟩⟩ := Text.exists_run isLabelBlank x
  · rw [List.append_nil, List.dropWhile_append_of_pos hu, List.dropWhile_append_of_pos hu, List.dropWhile_cons_of_pos hb,
      List.dropWhile_cons_of_pos hb, List.dropWhile_cons_of_pos hline]
  · rw [List.append_assoc, List.append_assoc, List.cons_append, List.cons_append, Text.dropWhile_run hu hc, Text.dropWhile_run hu hc,
      ← List.cons_append, ← List.cons_append]
    exact collapse_trimmed hb (c :: v) y

/-! ## Definitions -/

/-- The same label and the same target. -/
def SameDefinition (d d' : Text × Text) : Prop := normalize d'.1 = normalize d.1 ∧ d'.2 = d.2

theorem foldl_add_same {ds ds' : List (Text × Text)} (h : List.Forall₂ SameDefinition ds ds') (references : List Reference) :
    ds'.foldl add references = ds.foldl add references := by
  induction h generalizing references with
  | nil => rfl
  | cons hd _ ih =>
    rw [List.foldl_cons, List.foldl_cons, ih, add, add, hd.1, hd.2]

/-- The characters of a definition are passed at once. -/
theorem definitions_skip (skip : Nat) (lineStart : Bool) (t : Text) : definitions skip lineStart t =
    definitions 0 (((t.take skip).getLast?.map (decide <| · = '\n')).getD lineStart) (t.drop skip) := by
  induction t generalizing skip lineStart with
  | nil =>
    rw [List.take_nil, List.drop_nil]
    cases skip <;> cases lineStart <;> rfl
  | cons c t ih =>
    cases skip with
    | zero => rfl
    | succ skip =>
      have hstep : definitions (skip + 1) lineStart (c :: t) = definitions skip (c = '\n') t := by cases lineStart <;> rfl
      rw [hstep, ih, List.take_succ_cons, List.drop_succ_cons, List.getLast?_cons]
      cases (t.take skip).getLast? <;> rfl

theorem afterLabel?_eq (place : Nat) (label t : Text) :
    afterLabel? place label t = (afterLabel? 0 [] t).map fun r => (label, r.2.1, place + r.2.2) := by
  rw [afterLabel?, afterLabel?]
  cases Text.after? [']', ':'] t with
  | none => rfl
  | some rest =>
    simp only [Option.bind_eq_bind, Option.bind_some]
    cases target? (rest.drop (rest.takeWhile Text.isSpaceOrTab).length) with
    | none => rfl
    | some r =>
      simp only [Option.bind_some, Option.pure_def, Option.map_some, Option.some.injEq, Prod.mk.injEq, true_and]
      omega

/-- A definition whose label goes on below. -/
theorem definition?_open {r v : Text} (hy : y.drop (margin y) = '[' :: r) (hr : ']' ∉ r) (hv : EndsLine v) (hne : r ≠ []) :
    definition? (y ++ v) = (afterLabel? 0 [] (v.dropWhile (· ≠ ']'))).map fun d =>
      (r ++ v.takeWhile (· ≠ ']'), d.2.1, y.length + (v.takeWhile (· ≠ ']')).length + d.2.2) := by
  have hall : ∀ c ∈ r, decide (c ≠ ']') = true := fun c hc => by simpa using fun h : c = ']' => hr (h ▸ hc)
  have hlength := congrArg List.length hy
  have hmargin := margin_le y
  rw [List.length_drop, List.length_cons] at hlength
  have hafter : Text.after? ['['] ((y ++ v).drop (margin (y ++ v))) = some (r ++ v) := by
    rw [margin_append hv, List.drop_append_of_le_length hmargin, hy]
    exact Text.after?_append ['['] (r ++ v)
  rw [definition?_eq, hafter, Option.bind_some, afterBracket?, List.takeWhile_append_of_pos hall]
  rw [if_neg (by simp [hne]), afterLabel?_eq, List.length_append, ← List.drop_drop, List.drop_left, margin_append hv]
  have hdrop : v.drop (v.takeWhile (· ≠ ']')).length = v.dropWhile (· ≠ ']') := by
    have hrun := @List.drop_left _ (v.takeWhile (· ≠ ']')) (v.dropWhile (· ≠ ']'))
    rwa [List.takeWhile_append_dropWhile] at hrun
  rw [hdrop]
  refine Option.map_congr fun d _ => ?_
  simp only [Prod.mk.injEq, true_and]
  omega

theorem isLabelBlank_of_isSpace (h : Tag.isSpace c) : isLabelBlank c := by
  simp only [Tag.isSpace, Bool.or_eq_true, beq_iff_eq] at h
  rcases h with ((rfl | rfl) | rfl) | rfl <;> decide

theorem exists_of_afterLabel? {d : Text × Text × Nat} (h : afterLabel? 0 [] t = some d) : t ≠ [] ∧ 0 < d.2.2 := by
  obtain ⟨rest, hrest, h⟩ := Option.bind_eq_some_iff.1 h
  obtain ⟨r, -, h⟩ := Option.bind_eq_some_iff.1 h
  cases h
  refine ⟨?_, by dsimp only; omega⟩
  rintro rfl
  cases hrest

theorem definitions_newline (lineStart : Bool) (t : Text) : definitions 0 lineStart ('\n' :: t) = definitions 0 true t := by
  cases lineStart <;> rfl

theorem definitions_cons (c : Char) (t : Text) : definitions 0 true (c :: t) = match definition? (c :: t) with
    | some (label, target, length) => (label, target) :: definitions (length - 1) (c = '\n') t
    | none => definitions 0 (c = '\n') t := rfl

section
variable (he : EndsLine e) (hrest : ∀ k ≤ y.length, ∀ lineStart,
  List.Forall₂ SameDefinition (definitions 0 lineStart (y.drop k ++ e)) (definitions 0 lineStart (y.drop k ++ '\n' :: e)))
include he hrest

/-- A label that ends above the line feed. -/
theorem definitions_closed_near (hclose : closesLabel (c :: y)) :
    List.Forall₂ SameDefinition (definitions 0 true (c :: (y ++ e))) (definitions 0 true (c :: (y ++ '\n' :: e))) := by
  rw [definitions_cons, definitions_cons, ← List.cons_append, ← List.cons_append, definition?_append hclose he,
    definition?_append hclose (.inr ⟨e, rfl⟩)]
  cases hdefinition : definition? (c :: y) with
  | none => exact hrest 0 (Nat.zero_le _) _
  | some d =>
    obtain ⟨label, target, length⟩ := d
    obtain ⟨hpos, hle⟩ := definition?_length hdefinition
    rw [List.length_cons] at hle
    have hskip (v : Text) (lineStart : Bool) : definitions (length - 1) lineStart (y ++ v) = definitions 0
        (((y.take (length - 1)).getLast?.map (decide <| · = '\n')).getD lineStart) (y.drop (length - 1) ++ v) := by
      rw [definitions_skip, List.take_append_of_le_length (by omega), List.drop_append_of_le_length (by omega)]
    dsimp only
    rw [hskip, hskip]
    exact .cons ⟨rfl, rfl⟩ (hrest _ (by omega) _)

/-- A label that goes on below the line feed. -/
theorem definitions_open_near (hy : Rests (c :: y)) (hclose : ¬closesLabel (c :: y)) :
    List.Forall₂ SameDefinition (definitions 0 true (c :: (y ++ e))) (definitions 0 true (c :: (y ++ '\n' :: e))) := by
  obtain ⟨r, hdrop, hopen⟩ : ∃ r, (c :: y).drop (margin (c :: y)) = '[' :: r ∧ ']' ∉ r := by
    unfold closesLabel at hclose
    split at hclose
    · next r hr => exact ⟨r, hr, by simpa using hclose⟩
    · exact absurd rfl hclose
  obtain ⟨x, b, rfl⟩ : ∃ x b, r = x ++ [b] := by
    have hr : Rests ('[' :: r) := hy.suffix (hdrop ▸ List.drop_suffix _ _)
    obtain ⟨a, r, rfl⟩ := hr.exists_cons (by decide)
    exact ⟨_, _, (List.dropLast_concat_getLast (List.cons_ne_nil a r)).symm⟩
  have hb : isLabelBlank b := isLabelBlank_of_isSpace (hy.suffix (List.drop_suffix _ _) b (by
    rw [hdrop, ← List.cons_append, List.getLast?_concat]
    rfl))
  rw [definitions_cons, definitions_cons, ← List.cons_append, ← List.cons_append, definition?_open hdrop hopen he (by simp),
    definition?_open hdrop hopen (.inr ⟨e, rfl⟩) (by simp), List.takeWhile_cons_of_pos (by decide),
    List.dropWhile_cons_of_pos (by decide)]
  cases hafter : afterLabel? 0 [] (e.dropWhile (· ≠ ']')) with
  | none => exact hrest 0 (Nat.zero_le _) _
  | some d =>
    obtain ⟨label, target, length⟩ := d
    obtain ⟨hne, hpos⟩ := exists_of_afterLabel? hafter
    have hpos : 0 < length := hpos
    -- behind the definition both texts are the same
    obtain ⟨a, ha⟩ : ∃ a, (e.take ((e.takeWhile (· ≠ ']')).length + length)).getLast? = some a := by
      refine Option.isSome_iff_exists.1 (List.getLast?_isSome.2 ?_)
      rw [ne_eq, List.take_eq_nil_iff]
      rintro (hzero | rfl)
      · omega
      · exact hne rfl
    have hskip {v : Text} {j : Nat} (hv : (v.take j).getLast? = some a) :
        definitions (y.length + j) (c = '\n') (y ++ v) = definitions 0 (a = '\n') (v.drop j) := by
      rw [definitions_skip, List.take_length_add_append, List.drop_length_add_append, List.getLast?_append, hv]
      rfl
    have hold := hskip ha
    have hnew := hskip (v := '\n' :: e) (j := (e.takeWhile (· ≠ ']')).length + length + 1)
      (by rw [List.take_succ_cons, List.getLast?_cons, ha]; rfl)
    have hlength : (c :: y).length + (e.takeWhile (· ≠ ']')).length + length - 1 =
        y.length + ((e.takeWhile (· ≠ ']')).length + length) := by
      rw [List.length_cons]
      omega
    have hlength' : (c :: y).length + ('\n' :: e.takeWhile (· ≠ ']')).length + length - 1 =
        y.length + ((e.takeWhile (· ≠ ']')).length + length + 1) := by
      rw [List.length_cons, List.length_cons]
      omega
    simp only [Option.map_some, hlength, hlength', hold, hnew, List.drop_succ_cons]
    refine .cons ⟨?_, rfl⟩ (List.forall₂_same.2 fun _ _ => ⟨rfl, rfl⟩)
    rw [List.append_assoc, List.append_assoc]
    exact normalize_widen hb x _

end

/-- The definitions of a text with one line feed more. -/
theorem definitions_near (he : EndsLine e) {t' : Text} (h : Near e t t') (lineStart : Bool) :
    List.Forall₂ SameDefinition (definitions 0 lineStart t) (definitions 0 lineStart t') := by
  have hrefl (ds : List (Text × Text)) : List.Forall₂ SameDefinition ds ds := List.forall₂_same.2 fun _ _ => ⟨rfl, rfl⟩
  induction hn : t.length using Nat.strongRecOn generalizing t t' lineStart with
  | _ n ih =>
    subst hn
    cases h with
    | below t => exact hrefl _
    | @above y hy =>
      cases y with
      | nil =>
        rw [List.nil_append, List.nil_append, definitions_newline]
        rcases he with rfl | ⟨v, rfl⟩
        · cases lineStart <;> exact .nil
        · rw [definitions_newline, definitions_newline]
          exact hrefl _
      | cons c y =>
        have hrest : ∀ k ≤ y.length, ∀ lineStart, List.Forall₂ SameDefinition (definitions 0 lineStart (y.drop k ++ e))
            (definitions 0 lineStart (y.drop k ++ '\n' :: e)) := by
          intro k hk lineStart
          refine ih _ ?_ (.above (hy.tail.drop k)) lineStart rfl
          simp only [List.length_append, List.length_cons, List.length_drop]
          omega
        cases lineStart with
        | false => exact hrest 0 (Nat.zero_le _) _
        | true =>
          by_cases hclose : closesLabel (c :: y)
          · exact definitions_closed_near he hrest hclose
          · exact definitions_open_near he hrest hy hclose

/-- A text with one line feed more makes the same definitions. -/
theorem collect_widen {u w : Text} (h : BlankLine u w e) : collect (u ++ (w ++ '\n' :: e)) = collect (u ++ (w ++ e)) := by
  rw [← List.append_assoc, ← List.append_assoc]
  exact foldl_add_same (definitions_near h.ends (.above (h.rests List.suffix_rfl)) true) []

end Reference

/-! ## Front matter -/

section Front
variable {u w e y f r : Text} {front : Option Text}

theorem lines_widen (he : EndsLine e) (y : Text) :
    ∃ ls, Text.lines (y ++ e) = Text.lines y ++ ls ∧ Text.lines (y ++ '\n' :: e) = Text.lines y ++ [] :: ls := by
  refine ⟨(Text.lines e).tail, Text.lines_append he y, ?_⟩
  have hline : EndsLine ('\n' :: e) := .inr ⟨e, rfl⟩
  have hlines : Text.lines e = [] :: (Text.lines e).tail := by
    rcases he with rfl | ⟨v, rfl⟩
    · rfl
    · rw [Text.lines_newline, List.tail_cons]
  rw [Text.lines_append hline, Text.lines_newline, List.tail_cons, ← hlines]

theorem fenced_widen (he : EndsLine e) (y : Text) : Block.fenced (Text.lines (y ++ '\n' :: e)) = Block.fenced (Text.lines (y ++ e)) := by
  obtain ⟨ls, hold, hnew⟩ := lines_widen he y
  obtain ⟨l, ks, hks⟩ := List.exists_cons_of_ne_nil (Text.lines_ne_nil y)
  have hnil : Block.isHyphens [] = false := rfl
  rw [hold, hnew, hks, List.cons_append, List.cons_append, Block.fenced, Block.fenced, List.any_append, List.any_append, List.any_cons,
    hnil, Bool.false_or]

/-- Front matter above a gap does not depend on its width. -/
theorem hasFront_widen (h : BlankLine u w e) (hr : '\r' ∉ u ++ (w ++ e)) (hf : Tree.HasFront (u ++ (w ++ e)) f front)
    (ht : u ++ (w ++ e) = f ++ r) (hle : f.length ≤ u.length) : Tree.HasFront (u ++ (w ++ '\n' :: e)) f front := by
  have hr' : '\r' ∉ u ++ (w ++ '\n' :: e) := by simpa using hr
  cases front with
  | none =>
    obtain ⟨hnil, hnone⟩ := hf
    refine ⟨hnil, ?_⟩
    rw [← Option.isNone_iff_eq_none, ← Option.isSome_eq_false_iff, Block.frontMatter?_isSome hr', ← List.append_assoc,
      fenced_widen h.ends, List.append_assoc, ← Block.frontMatter?_isSome hr, hnone]
    rfl
  | some source =>
    obtain ⟨hne, hsome⟩ := hf
    refine ⟨hne, ?_⟩
    obtain ⟨f', rest, hrest, hlength, hends, ⟨c, hlast, hc⟩, hall⟩ := Block.exists_frontMatter hr hsome
    obtain ⟨rfl, rfl⟩ := List.append_inj (ht.symm.trans hrest) hlength.symm
    -- the front matter ends above the last line feed of the lines above the gap
    obtain ⟨v, rfl, rfl⟩ := Text.exists_between ht.symm hle
    have hv : v ≠ [] := by
      rintro rfl
      rw [List.append_nil] at h
      rcases h.lines with hnil | hline
      · exact hne hnil
      · rw [hlast] at hline
        exact hc (Option.some.inj hline)
    obtain ⟨ls, hold, hnew⟩ := lines_widen h.ends (v ++ w)
    rw [List.append_assoc] at hold hnew
    rw [List.append_assoc]
    refine hall (v ++ (w ++ '\n' :: e)) ?_ ?_ fun l hl hhyphens => ?_
    · rcases hends with hnil | ⟨z, hz⟩
      · exact absurd (List.append_eq_nil_iff.1 hnil).1 hv
      · obtain ⟨d, v, rfl⟩ := List.exists_cons_of_ne_nil hv
        cases (List.cons.inj hz).1
        exact .inr ⟨_, rfl⟩
    · rw [List.append_assoc] at hr'
      exact fun hmem => hr' (List.mem_append_right f hmem)
    · rw [hnew, List.mem_append, List.mem_cons] at hl
      rw [hold, List.mem_append]
      rcases hl with hl | rfl | hl
      · exact .inl hl
      · cases hhyphens
      · exact .inr hl

end Front
end Narration.Markup
