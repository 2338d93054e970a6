import Narration.Proofs.Markup.Braces
import Narration.Proofs.Markup.Progress

/-!
# The extent of imports and exports

* `Block.modulesLength_string`, `Block.modulesLength_step` : one string and one character at the front;
* `Block.ReadsModules` : the steps in which module statements are read;
* `Block.modulesLength_exchange` : where module statements end when what follows them is exchanged.
-/

namespace Narration.Markup.Block
open Text (firstLine EndsLine)

variable {c : Char} {t y w e e' : Text} {depth n a : Nat}

/-! ## Steps -/

/-- The number of open brackets after a character outside strings. -/
def bracketsAfter (depth : Nat) (c : Char) : Nat :=
  if "(\x7b[".toList.contains c then depth + 1
  else if ")\x7d]".toList.contains c then depth - 1
  else depth

theorem modulesLength_nil (depth skip : Nat) : modulesLength depth skip [] = 0 := by
  cases skip <;> rfl

theorem modulesLength_skip (depth skip : Nat) (t : Text) :
    modulesLength depth skip t = min skip t.length + modulesLength depth 0 (t.drop skip) := by
  induction t generalizing skip with
  | nil => rw [List.drop_nil, modulesLength_nil, modulesLength_nil, List.length_nil, Nat.min_zero]
  | cons c t ih =>
    cases skip with
    | zero => rw [Nat.zero_min, List.drop_zero, Nat.zero_add]
    | succ skip =>
      rw [modulesLength, ih, List.drop_succ_cons, List.length_cons]
      omega

theorem modulesLength_string (hc : Braces.isQuote c) {m : Nat} (h : Braces.stringTail? c t = some m) :
    modulesLength depth 0 (c :: t) = m + 1 + modulesLength depth 0 (t.drop m) := by
  have hm := Braces.stringTail?_le h
  rw [modulesLength, if_pos hc, Braces.stringLength?, h]
  simp only [Option.map_some, Nat.add_sub_cancel, modulesLength_skip depth m t, Nat.min_eq_left hm]
  omega

theorem modulesLength_open (hc : Braces.isQuote c) (h : Braces.stringTail? c t = none) :
    modulesLength depth 0 (c :: t) = (firstLine (c :: t)).length := by
  rw [modulesLength, if_pos hc, Braces.stringLength?, h]
  rfl

/-- Whether module statements end at a line feed that this text follows. -/
def endsModules (depth : Nat) (t : Text) : Bool := depth = 0 || Text.allBlank (firstLine t)

theorem modulesLength_newline (depth : Nat) (t : Text) : modulesLength depth 0 ('\n' :: t) =
    if endsModules depth t then 0 else modulesLength depth 0 t + 1 := by
  rw [modulesLength, if_neg (by decide), endsModules]
  rfl

theorem modulesLength_step (hq : Braces.isQuote c = false) (hc : c ≠ '\n') :
    modulesLength depth 0 (c :: t) = modulesLength (bracketsAfter depth c) 0 t + 1 := by
  rw [modulesLength, if_neg (by simp [hq]), if_neg (by simp [hc])]
  rfl

/-- Module statements at the front of a text within some open brackets, and how long they are. -/
inductive ReadsModules : Nat → Text → Nat → Prop
  | nil (depth : Nat) : ReadsModules depth [] 0
  | string {depth m n : Nat} {c : Char} {t : Text} (hq : Braces.isQuote c) (hs : Braces.stringTail? c t = some m)
      (h : ReadsModules depth (t.drop m) n) : ReadsModules depth (c :: t) (m + n + 1)
  | unclosed {depth : Nat} {c : Char} {t : Text} (hq : Braces.isQuote c) (hs : Braces.stringTail? c t = none) :
      ReadsModules depth (c :: t) (firstLine (c :: t)).length
  | stop {depth : Nat} {t : Text} (hends : endsModules depth t) : ReadsModules depth ('\n' :: t) 0
  | line {depth n : Nat} {t : Text} (hgoes : endsModules depth t = false) (h : ReadsModules depth t n) :
      ReadsModules depth ('\n' :: t) (n + 1)
  | step {depth n : Nat} {c : Char} {t : Text} (hq : Braces.isQuote c = false) (hc : c ≠ '\n')
      (h : ReadsModules (bracketsAfter depth c) t n) : ReadsModules depth (c :: t) (n + 1)

theorem readsModules (depth : Nat) (t : Text) : ReadsModules depth t (modulesLength depth 0 t) := by
  induction ht : t.length using Nat.strongRecOn generalizing depth t with
  | _ l ih =>
    subst ht
    cases t with
    | nil => exact .nil depth
    | cons c t =>
      cases hq : Braces.isQuote c with
      | true =>
        cases hs : Braces.stringTail? c t with
        | some m =>
          rw [modulesLength_string hq hs, Nat.add_right_comm]
          exact .string hq hs (ih _ (by rw [List.length_drop, List.length_cons]; omega) depth _ rfl)
        | none =>
          rw [modulesLength_open hq hs]
          exact .unclosed hq hs
      | false =>
        by_cases hc : c = '\n'
        · subst hc
          rw [modulesLength_newline]
          cases hends : endsModules depth t with
          | true => exact .stop hends
          | false => exact .line hends (ih t.length (Nat.lt_succ_self _) depth t rfl)
        · rw [modulesLength_step hq hc]
          exact .step hq hc (ih t.length (Nat.lt_succ_self _) _ t rfl)

theorem ReadsModules.le (h : ReadsModules depth t n) : n ≤ t.length := by
  induction h with
  | nil => exact Nat.le_refl 0
  | string _ hs _ ih =>
    have hm := Braces.stringTail?_le hs
    rw [List.length_drop] at ih
    rw [List.length_cons]
    omega
  | unclosed => exact (List.takeWhile_sublist _).length_le
  | stop => exact Nat.zero_le _
  | line _ _ ih | step _ _ _ ih => exact Nat.succ_le_succ ih

theorem modulesLength_le (depth : Nat) (t : Text) : modulesLength depth 0 t ≤ t.length := (readsModules depth t).le

theorem ReadsModules.pos (h : ReadsModules depth (c :: t) n) (hc : c ≠ '\n') : 0 < n := by
  cases h with
  | string | step => exact Nat.succ_pos _
  | unclosed =>
    rw [firstLine, List.takeWhile_cons_of_pos (by simpa using hc)]
    exact Nat.succ_pos _
  | stop | line => exact absurd rfl hc

theorem getLast?_cons_ne {u : Text} (hc : c ≠ '\n') (hu : u.getLast? ≠ some '\n') : (c :: u).getLast? ≠ some '\n' := by
  rw [List.getLast?_cons]
  cases hlast : u.getLast? with
  | none => simpa using hc
  | some d =>
    rw [hlast] at hu
    simpa using hu

/-- Module statements end with a line, and do not take in its line feed. -/
theorem ReadsModules.endsLine (h : ReadsModules depth t n) : EndsLine (t.drop n) ∧ (t.take n).getLast? ≠ some '\n' := by
  induction h with
  | nil => exact ⟨.inl List.drop_nil, by simp⟩
  | @string _ m n c t hq hs _ ih =>
    obtain ⟨hend, hlast⟩ := ih
    have hc : c ≠ '\n' := by
      rintro rfl
      cases hq
    rw [List.drop_succ_cons, List.take_succ_cons, ← List.drop_drop]
    refine ⟨hend, ?_⟩
    rw [List.take_add, List.getLast?_cons, List.getLast?_append, Braces.getLast?_stringTail? hs]
    cases hrest : ((t.drop m).take n).getLast? with
    | none => simpa using hc
    | some d =>
      rw [hrest] at hlast
      simpa using hlast
  | @unclosed _ c t _ _ =>
    obtain ⟨v, hv, hend⟩ := Text.exists_afterFirstLine (c :: t)
    generalize hline : firstLine (c :: t) = line at hv
    rw [hv, List.drop_left, List.take_left]
    refine ⟨hend, fun hlast => ?_⟩
    have hmem := Text.newline_notMem_firstLine (c :: t)
    rw [hline] at hmem
    exact hmem (List.mem_of_getLast? hlast)
  | @stop _ t _ => exact ⟨.inr ⟨t, rfl⟩, by simp⟩
  | @line _ n t hgoes h ih =>
    obtain ⟨hend, hlast⟩ := ih
    rw [List.drop_succ_cons, List.take_succ_cons, List.getLast?_cons]
    refine ⟨hend, ?_⟩
    -- the line that follows is not blank, so it is not the line feed that comes last
    cases t with
    | nil => simp [endsModules, Text.allBlank] at hgoes
    | cons d t =>
      have hd : d ≠ '\n' := by
        rintro rfl
        simp [endsModules, Text.allBlank] at hgoes
      obtain ⟨m, rfl⟩ := Nat.exists_eq_add_one.2 (h.pos hd)
      rw [List.take_succ_cons, List.getLast?_cons] at hlast ⊢
      exact hlast
  | step _ hc _ ih =>
    rw [List.drop_succ_cons, List.take_succ_cons]
    exact ⟨ih.1, getLast?_cons_ne hc ih.2⟩

theorem modulesLength_endsLine (depth : Nat) (t : Text) : EndsLine (t.drop (modulesLength depth 0 t)) ∧
    (t.take (modulesLength depth 0 t)).getLast? ≠ some '\n' := (readsModules depth t).endsLine

theorem not_isBlank_of_isQuote (hc : Braces.isQuote c) : Text.isBlank c = false := by
  rcases (show c = '"' ∨ c = '\'' ∨ c = '\x60' by simpa [Braces.isQuote, or_assoc] using hc) with rfl | rfl | rfl <;> decide

/-- The last of several lines of module statements is not blank. -/
theorem ReadsModules.lastLine {a b : Text} (h : ReadsModules depth t n) (ht : t.take n = a ++ '\n' :: b) (hb : '\n' ∉ b) :
    Text.allBlank b = false := by
  induction h generalizing a with
  | nil => simp at ht
  | @string _ m n c t hq hs _ ih =>
    rw [List.take_succ_cons, List.take_add, ← List.cons_append, List.append_eq_append_iff] at ht
    rcases ht with ⟨x, -, hx⟩ | ⟨x, hx, hrest⟩
    · exact ih hx
    · cases x with
      | nil => exact ih (a := []) hrest.symm
      | cons d x =>
        -- the last line begins within the string, so it holds the mark that closes it
        obtain ⟨rfl, rfl⟩ := List.cons.inj hrest
        have hlast := congrArg List.getLast? hx
        rw [List.getLast?_cons, Braces.getLast?_stringTail? hs, List.getLast?_append, List.getLast?_cons] at hlast
        cases hx' : x.getLast? with
        | none =>
          rw [hx'] at hlast
          obtain rfl : c = '\n' := Option.some.inj hlast
          cases hq
        | some q =>
          rw [hx'] at hlast
          obtain rfl : c = q := Option.some.inj hlast
          exact List.all_eq_false.2
            ⟨c, List.mem_append_left _ (List.mem_of_getLast? hx'), by simp [not_isBlank_of_isQuote hq]⟩
  | @unclosed _ c t _ _ =>
    obtain ⟨v, hv, -⟩ := Text.exists_afterFirstLine (c :: t)
    have hline := Text.newline_notMem_firstLine (c :: t)
    generalize hfirst : firstLine (c :: t) = line at hv ht hline
    rw [hv, List.take_left] at ht
    rw [ht] at hline
    simp at hline
  | stop => simp at ht
  | @line _ n t hgoes h ih =>
    rw [List.take_succ_cons] at ht
    cases a with
    | nil =>
      obtain ⟨-, hx⟩ := List.cons.inj ht
      have hfirst : firstLine t = b := by
        have := h.endsLine.1.firstLine_append b
        rwa [← hx, List.take_append_drop, hx, firstLine, firstLine, Text.takeWhile_lastLine hb] at this
      rw [endsModules, hfirst, Bool.or_eq_false_iff] at hgoes
      exact hgoes.2
    | cons d a => exact ih (List.cons.inj ht).2
  | step _ hc _ ih =>
    rw [List.take_succ_cons] at ht
    cases a with
    | nil => exact absurd (List.cons.inj ht).1 hc
    | cons d a => exact ih (List.cons.inj ht).2

theorem modulesLength_lastLine (depth : Nat) (t : Text) {a b : Text}
    (h : t.take (modulesLength depth 0 t) = a ++ '\n' :: b) (hb : '\n' ∉ b) : Text.allBlank b = false :=
  (readsModules depth t).lastLine h hb

theorem modulesLength_of_endsLine (he : EndsLine e) : modulesLength 0 0 e = 0 := by
  rcases he with rfl | ⟨v, rfl⟩
  · exact modulesLength_nil 0 0
  · rw [modulesLength_newline, if_pos (by simp [endsModules])]

/-! ## Exchanging what follows -/

/-- A string that lines leave open is open still when other lines follow, or goes on into the first of them. -/
theorem stringTail?_open_lines (h : Braces.stringTail? c (y ++ e) = none) (he : EndsLine e) (hc : Braces.isQuote c)
    (v : Text) : Braces.stringTail? c (y ++ '\n' :: v) = none ∨
      (c = '\x60' → Braces.stringTail? c e = none) ∧
        Braces.stringTail? c (y ++ '\n' :: v) = (Braces.stringTail? c v).map (· + (y.length + 1)) := by
  have hline : c ≠ '\n' := by
    rintro rfl
    cases hc
  rcases Braces.stringTail?_open h ('\n' :: v) with h | ⟨hnone, h⟩ | ⟨-, hnone, h⟩
  · exact .inl h
  · by_cases hback : c = '\x60'
    · subst hback
      refine .inr ⟨fun _ => hnone, ?_⟩
      rw [h, Braces.stringTail?_cons (by decide), if_neg (by decide), if_neg (by decide), Option.map_map]
      refine Option.map_congr fun n _ => ?_
      rw [Function.comp_apply]
      omega
    · left
      rw [h, Braces.stringTail?_newline hback hline, Option.map_none]
  · refine .inr ⟨?_, h '\n' v rfl⟩
    rintro rfl
    rcases hnone with rfl | ⟨a, u, rfl, hnone⟩
    · rfl
    · rcases he with he | ⟨_, he⟩
      · cases he
      · cases he
        rw [Braces.stringTail?_cons (by decide), if_neg (by decide), if_neg (by decide), hnone, Option.map_none]

/-- What follows module statements is exchanged. They end where they did, or take in the first `a` characters of what
follows now, if this holds where they end, for the strings that they leave open, and for their line feeds. -/
theorem modulesLength_exchange
    (base : ∀ depth, modulesLength depth 0 e = 0 → modulesLength depth 0 e' = 0 ∨ modulesLength depth 0 e' = a)
    (string : ∀ c y, Braces.isQuote c → y <:+ w → Braces.stringTail? c (y ++ e) = none →
      Braces.stringTail? c (y ++ e') = none ∨ ∃ m, Braces.stringTail? c (y ++ e') = some (y.length + m) ∧
        ∀ depth, m + modulesLength depth 0 (e'.drop m) = a)
    (line : ∀ y, y <:+ w → Text.allBlank (firstLine (y ++ e)) = Text.allBlank (firstLine (y ++ e')) ∨
      y = [] ∧ Text.allBlank (firstLine e) = false ∧ ∀ depth, modulesLength depth 0 e ≠ 0)
    (empty : firstLine e = [] → firstLine e' = [])
    (hy : y <:+ w) (hn : modulesLength depth 0 (y ++ e) ≤ y.length) :
    modulesLength depth 0 (y ++ e') = modulesLength depth 0 (y ++ e) ∨
      modulesLength depth 0 (y ++ e') = y.length + a := by
  induction hl : y.length using Nat.strongRecOn generalizing y depth with
  | _ l ih =>
    subst hl
    cases y with
    | nil =>
      have hzero : modulesLength depth 0 e = 0 := Nat.le_zero.1 hn
      simpa [hzero] using base depth hzero
    | cons c y =>
      have hsuffix : y <:+ w := (List.suffix_cons c y).trans hy
      rw [List.cons_append, List.length_cons] at hn ⊢
      rw [List.cons_append]
      cases hq : Braces.isQuote c with
      | true =>
        cases hs : Braces.stringTail? c (y ++ e) with
        | some m =>
          rw [modulesLength_string hq hs] at hn ⊢
          have hm : m ≤ y.length := by omega
          have hs' := Braces.stringTail?_exchange hs hm e'
          rw [modulesLength_string hq hs']
          rw [List.drop_append_of_le_length hm] at hn ⊢
          rw [List.drop_append_of_le_length hm]
          have hrest : modulesLength depth 0 (y.drop m ++ e') = modulesLength depth 0 (y.drop m ++ e) ∨
              modulesLength depth 0 (y.drop m ++ e') = (y.drop m).length + a :=
            ih _ (by rw [List.length_drop, List.length_cons]; omega) ((List.drop_suffix m y).trans hsuffix)
              (by rw [List.length_drop]; omega) rfl
          rw [List.length_drop] at hrest
          omega
        | none =>
          rcases string c y hq hsuffix hs with hs' | ⟨m, hs', hm⟩
          · left
            rw [modulesLength_open hq hs] at hn ⊢
            rw [modulesLength_open hq hs', ← List.cons_append, ← List.cons_append]
            rw [← List.cons_append] at hn
            by_cases hmem : '\n' ∈ c :: y
            · rw [Text.firstLine_append_of_mem hmem, Text.firstLine_append_of_mem hmem]
            · rw [Text.firstLine_append_of_notMem hmem] at hn ⊢
              rw [Text.firstLine_append_of_notMem hmem]
              have hnil : firstLine e = [] := by
                rw [List.length_append, List.length_cons] at hn
                exact List.length_eq_zero_iff.1 (by omega)
              rw [hnil, empty hnil]
          · right
            have := hm depth
            rw [modulesLength_string hq hs', List.drop_length_add_append]
            omega
      | false =>
        by_cases hc : c = '\n'
        · subst hc
          rw [modulesLength_newline] at hn ⊢
          rw [modulesLength_newline]
          by_cases hends : endsModules depth (y ++ e)
          · have hends' : endsModules depth (y ++ e') := by
              rcases line y hsuffix with hsame | ⟨rfl, hblank, -⟩
              · rwa [endsModules, ← hsame]
              · rw [endsModules, List.nil_append, hblank, Bool.or_false] at hends
                rw [endsModules, hends, Bool.true_or]
            rw [if_pos hends, if_pos hends']
            exact .inl rfl
          · rw [if_neg hends] at hn ⊢
            have hrest := ih y.length (Nat.lt_succ_self _) hsuffix (Nat.le_of_succ_le_succ hn) rfl
            rcases line y hsuffix with hsame | ⟨rfl, -, hne⟩
            · rw [if_neg (by rwa [endsModules, ← hsame])]
              omega
            · exact absurd (Nat.le_zero.1 (Nat.le_of_succ_le_succ hn)) (hne depth)
        · rw [modulesLength_step hq hc] at hn ⊢
          rw [modulesLength_step hq hc]
          have hrest := ih y.length (Nat.lt_succ_self _) hsuffix (Nat.le_of_succ_le_succ hn) rfl
          omega

end Narration.Markup.Block
