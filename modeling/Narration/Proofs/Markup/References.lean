import Narration.Markup.Reference
import Narration.Proofs.Text.Find
import Narration.Proofs.Text.Lines

/-!
# Link definitions line by line

* `Reference.closesLabel` : a line that leaves no label open;
* `Reference.definition?_append` : a definition is read from its line;
* `Reference.definitions_eq` : the definitions of a text are those of its lines;
* `Reference.collect_of_notMem` : a text without opening brackets defines nothing.
-/

namespace Narration.Markup.Reference
open Text (EndsLine)

/-- Whether a line that begins with a bracket, after at most three spaces, holds a closing one. -/
def closesLabel (line : Text) : Bool :=
  match line.drop ((line.take 3).takeWhile (· = ' ')).length with
  | '[' :: rest => rest.contains ']'
  | _ => true

/-- The definition that a line makes. -/
def ofLine? (line : Text) : Option (Text × Text) := (definition? line).map fun (label, target, _) => (label, target)

variable {l t u v : Text}

/-- The target at the front of a text without its brackets, and its place. -/
def bareTarget (t : Text) : Text × Nat :=
  if t.head? = some '<' && !((t.drop 1).takeWhile isTargetChar).isEmpty then ((t.drop 1).takeWhile isTargetChar, 1)
  else (t.takeWhile isTargetChar, 0)

theorem target?_eq (t : Text) : target? t =
    if (bareTarget t).1.isEmpty then none
    else some ((bareTarget t).1,
      if (t.drop ((bareTarget t).2 + (bareTarget t).1.length)).head? = some '>' then
        (bareTarget t).2 + (bareTarget t).1.length + 1
      else (bareTarget t).2 + (bareTarget t).1.length) := rfl

theorem bareTarget_append (hv : EndsLine v) (u : Text) : bareTarget (u ++ v) = bareTarget u := by
  have hline : isTargetChar '\n' = false := by decide
  have hplain := hv.takeWhile_append hline u
  cases u with
  | nil =>
    rcases hv with rfl | ⟨w, rfl⟩
    · rfl
    · rw [bareTarget, hplain]
      rfl
  | cons c u =>
    have hinner := hv.takeWhile_append hline u
    rw [bareTarget, hplain, List.cons_append, List.drop_one, List.tail_cons, hinner]
    rfl

theorem bareTarget_le (u : Text) : (bareTarget u).2 + (bareTarget u).1.length ≤ u.length := by
  have hplain : (u.takeWhile isTargetChar).length ≤ u.length := (List.takeWhile_sublist _).length_le
  have hinner : ((u.drop 1).takeWhile isTargetChar).length ≤ (u.drop 1).length := (List.takeWhile_sublist _).length_le
  rw [List.length_drop] at hinner
  rw [bareTarget]
  split
  · next h =>
    have hne : u ≠ [] := by
      rintro rfl
      cases h
    have := List.length_pos_iff.2 hne
    dsimp only
    omega
  · dsimp only
    omega

theorem target?_append (hv : EndsLine v) (u : Text) : target? (u ++ v) = target? u := by
  have hhead := hv.head?_append (c := '>') (by decide) (u.drop ((bareTarget u).2 + (bareTarget u).1.length))
  rw [target?_eq, target?_eq, bareTarget_append hv, List.drop_append_of_le_length (bareTarget_le u)]
  simp only [hhead]

theorem target?_le {target : Text} {n : Nat} (h : target? u = some (target, n)) : n ≤ u.length := by
  have hle := bareTarget_le u
  rw [target?_eq] at h
  split at h
  · cases h
  · cases h
    split
    · next hhead =>
      have hne : u.drop ((bareTarget u).2 + (bareTarget u).1.length) ≠ [] := by
        intro hnil
        rw [hnil] at hhead
        cases hhead
      rw [ne_eq, List.drop_eq_nil_iff] at hne
      omega
    · exact hle

/-- The number of spaces before a definition. -/
def margin (t : Text) : Nat := ((t.take 3).takeWhile (· = ' ')).length

/-- What follows the label of a definition, `place` characters from its beginning. -/
def afterLabel? (place : Nat) (label t : Text) : Option (Text × Text × Nat) := do
  let rest ← Text.after? [']', ':'] t
  let gap := (rest.takeWhile Text.isSpaceOrTab).length
  let (target, length) ← target? (rest.drop gap)
  return (label, target, place + 2 + gap + length)

/-- What follows the opening bracket of a definition. -/
def afterBracket? (place : Nat) (t : Text) : Option (Text × Text × Nat) :=
  let label := t.takeWhile (· ≠ ']')
  if label.isEmpty then none else afterLabel? (place + label.length) label (t.drop label.length)

theorem definition?_eq (t : Text) :
    definition? t = (Text.after? ['['] (t.drop (margin t))).bind (afterBracket? (margin t + 1)) := rfl

theorem margin_le (t : Text) : margin t ≤ t.length := by
  have h : margin t ≤ (t.take 3).length := (List.takeWhile_sublist _).length_le
  rw [List.length_take] at h
  omega

theorem margin_append (hv : EndsLine v) (u : Text) : margin (u ++ v) = margin u := by
  have hend : EndsLine (v.take (3 - u.length)) := by
    rcases hv with rfl | ⟨w, rfl⟩
    · exact .inl List.take_nil
    · cases 3 - u.length with
      | zero => exact .inl rfl
      | succ n => exact .inr ⟨w.take n, rfl⟩
  rw [margin, margin, List.take_append, hend.takeWhile_append (by decide)]

theorem afterLabel?_append (hv : EndsLine v) (place : Nat) (label u : Text) :
    afterLabel? place label (u ++ v) = afterLabel? place label u := by
  rw [afterLabel?, afterLabel?, hv.after?_append (by decide)]
  cases Text.after? [']', ':'] u with
  | none => rfl
  | some rest =>
    have hgap := hv.takeWhile_append (p := Text.isSpaceOrTab) (by decide) rest
    have hle : (rest.takeWhile Text.isSpaceOrTab).length ≤ rest.length := (List.takeWhile_sublist _).length_le
    simp only [Option.map_some, Option.bind_eq_bind, Option.bind_some, hgap, List.drop_append_of_le_length hle,
      target?_append hv]

/-- A label that closes on its line is read from that line. -/
theorem afterBracket?_append (hu : ']' ∈ u) (hv : EndsLine v) (place : Nat) :
    afterBracket? place (u ++ v) = afterBracket? place u := by
  obtain ⟨a, b, rfl, ha⟩ := List.eq_append_cons_of_mem hu
  have hlabel : ∀ c ∈ a, decide (c ≠ ']') = true := by
    intro c hc
    simpa using fun h : c = ']' => ha (h ▸ hc)
  have hrun (w : Text) : (a ++ ']' :: w).takeWhile (· ≠ ']') = a := Text.takeWhile_run hlabel (by decide)
  rw [afterBracket?, afterBracket?, List.append_assoc, List.cons_append, hrun, hrun, List.drop_left, List.drop_left,
    ← List.cons_append, afterLabel?_append hv]

/-- A definition is read from its own line, when that line closes its label. -/
theorem definition?_append (hl : closesLabel l) (hv : EndsLine v) : definition? (l ++ v) = definition? l := by
  rw [definition?_eq, definition?_eq, margin_append hv, List.drop_append_of_le_length (margin_le l),
    hv.after?_append (by decide)]
  cases hrest : Text.after? ['['] (l.drop (margin l)) with
  | none => rfl
  | some rest =>
    have hclosed : ']' ∈ rest := by
      have hdrop := Text.after?_eq_some.1 hrest
      unfold closesLabel at hl
      rw [margin] at hdrop
      rw [hdrop] at hl
      simpa using hl
    rw [Option.map_some, Option.bind_some, Option.bind_some, afterBracket?_append hclosed hv]

theorem definition?_length {label target : Text} {n : Nat} (h : definition? l = some (label, target, n)) :
    0 < n ∧ n ≤ l.length := by
  have hmargin := margin_le l
  rw [definition?_eq] at h
  obtain ⟨u, hu, h⟩ := Option.bind_eq_some_iff.1 h
  have hlength := congrArg List.length (Text.after?_eq_some.1 hu)
  unfold afterBracket? at h
  dsimp only at h
  split at h
  · cases h
  · obtain ⟨w, hw, h⟩ := Option.bind_eq_some_iff.1 h
    have hlength' := congrArg List.length (Text.after?_eq_some.1 hw)
    have hlabel : (u.takeWhile (· ≠ ']')).length ≤ u.length := (List.takeWhile_sublist _).length_le
    obtain ⟨⟨target, m⟩, ht, h⟩ := Option.bind_eq_some_iff.1 h
    cases h
    have htarget := target?_le ht
    have hgap : (w.takeWhile Text.isSpaceOrTab).length ≤ w.length := (List.takeWhile_sublist _).length_le
    simp only [List.length_drop, List.length_append, List.length_cons, List.length_nil] at hlength hlength' htarget
    omega

/-- No definition begins inside a line. -/
theorem definitions_inside (hu : '\n' ∉ u) {skip : Nat} (hskip : skip ≤ u.length) (v : Text) :
    definitions skip false (u ++ '\n' :: v) = definitions 0 true v := by
  induction u generalizing skip with
  | nil =>
    rw [Nat.le_zero.1 hskip]
    rfl
  | cons c u ih =>
    rw [List.mem_cons, not_or] at hu
    have hc : decide (c = '\n') = false := by simpa using Ne.symm hu.1
    cases skip with
    | zero =>
      rw [List.cons_append, definitions, hc]
      exact ih hu.2 (Nat.zero_le _)
    | succ skip =>
      rw [List.cons_append, definitions, hc]
      exact ih hu.2 (Nat.le_of_succ_le_succ hskip)

theorem definitions_inside_last (hu : '\n' ∉ u) (skip : Nat) : definitions skip false u = [] := by
  induction u generalizing skip with
  | nil => cases skip <;> rfl
  | cons c u ih =>
    rw [List.mem_cons, not_or] at hu
    have hc : decide (c = '\n') = false := by simpa using Ne.symm hu.1
    cases skip <;> rw [definitions, hc, ih hu.2]

theorem definitions_line (hline : '\n' ∉ l) (hclose : closesLabel l) (w : Text) :
    definitions 0 true (l ++ '\n' :: w) = (ofLine? l).toList ++ definitions 0 true w := by
  cases l with
  | nil => rfl
  | cons c l =>
    have hread := definition?_append hclose (v := '\n' :: w) (.inr ⟨w, rfl⟩)
    rw [List.mem_cons, not_or] at hline
    have hc : decide (c = '\n') = false := by simpa using Ne.symm hline.1
    rw [List.cons_append] at hread ⊢
    rw [definitions, hread, hc, ofLine?]
    cases hdef : definition? (c :: l) with
    | none => exact definitions_inside hline.2 (Nat.zero_le _) w
    | some r =>
      obtain ⟨label, target, n⟩ := r
      obtain ⟨-, hle⟩ := definition?_length hdef
      have hskip : n - 1 ≤ l.length := by
        rw [List.length_cons] at hle
        omega
      exact congrArg ((label, target) :: ·) (definitions_inside hline.2 hskip w)

theorem definitions_lastLine (hline : '\n' ∉ l) : definitions 0 true l = (ofLine? l).toList := by
  cases l with
  | nil => rfl
  | cons c l =>
    rw [List.mem_cons, not_or] at hline
    have hc : decide (c = '\n') = false := by simpa using Ne.symm hline.1
    rw [definitions, hc, ofLine?]
    cases hdef : definition? (c :: l) with
    | none => exact definitions_inside_last hline.2 0
    | some r =>
      obtain ⟨label, target, n⟩ := r
      exact congrArg ((label, target) :: ·) (definitions_inside_last hline.2 (n - 1))

/-- The definitions of a text are those of its lines. -/
theorem definitions_eq (h : ∀ l ∈ Text.lines t, closesLabel l) : definitions 0 true t = (Text.lines t).filterMap ofLine? := by
  induction ht : t.length using Nat.strongRecOn generalizing t with
  | _ n ih =>
    subst ht
    obtain ⟨v, hv, hend⟩ := Text.exists_afterFirstLine t
    generalize hl : Text.firstLine t = l at hv
    have hline : '\n' ∉ l := hl ▸ Text.newline_notMem_firstLine t
    rcases hend with rfl | ⟨w, rfl⟩
    · rw [List.append_nil] at hv
      rw [hv, Text.lines_of_notMem hline, definitions_lastLine hline, List.filterMap_cons, List.filterMap_nil]
      cases ofLine? l <;> rfl
    · have hlines : Text.lines t = l :: Text.lines w := by rw [hv, Text.lines_append_line hline]
      have hshort : w.length < t.length := by
        rw [hv, List.length_append, List.length_cons]
        omega
      rw [hlines] at h
      rw [hlines, hv, definitions_line hline (h l List.mem_cons_self),
        ih _ hshort (fun k hk => h k (List.mem_cons_of_mem l hk)) rfl, List.filterMap_cons]
      cases ofLine? l <;> rfl

/-- Without opening brackets nothing is defined. -/
theorem definitions_of_notMem (h : '[' ∉ t) (skip : Nat) (lineStart : Bool) : definitions skip lineStart t = [] := by
  induction t generalizing skip lineStart with
  | nil => cases skip <;> cases lineStart <;> rfl
  | cons c t ih =>
    have ht : '[' ∉ t := fun hmem => h (List.mem_cons_of_mem c hmem)
    have hnone : definition? (c :: t) = none := by
      rw [definition?_eq]
      cases hafter : Text.after? ['['] ((c :: t).drop (margin (c :: t))) with
      | none => rfl
      | some rest =>
        have hdrop : '[' ∈ (c :: t).drop (margin (c :: t)) := by
          rw [Text.after?_eq_some.1 hafter]
          exact List.mem_cons_self
        exact absurd (List.mem_of_mem_drop hdrop) h
    cases skip with
    | succ skip => exact ih ht _ _
    | zero =>
      cases lineStart with
      | false => exact ih ht _ _
      | true =>
        rw [definitions, hnone]
        exact ih ht _ _

theorem collect_of_notMem (h : '[' ∉ t) : collect t = [] := by
  rw [collect, definitions_of_notMem h, List.foldl_nil]

end Narration.Markup.Reference
