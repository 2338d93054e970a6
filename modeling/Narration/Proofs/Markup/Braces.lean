import Mathlib.Data.List.Induction
import Narration.Proofs.Markup.Extent

/-!
# Strings and braces, and what follows them

* `Braces.scan_skip` : the characters of a string or a comment passed at once;
* `Braces.stringTail?_exchange`, `Braces.scan_exchange` : what closes within some characters does so whatever
  follows them;
* `Braces.Passive` : text that a scan inside braces passes over;
* `Braces.passive_string`, `Braces.passive_comment`, `Braces.Passive.braces` : strings, comments and braces that close;
* `Braces.Passive.balanced?` : braces around such text.
-/

namespace Narration.Braces

variable {quote c : Char} {x e e' t : Text} {depth skip n : Nat}

/-! ## Strings -/

theorem stringTail?_escape (quote a : Char) (t : Text) :
    stringTail? quote ('\\' :: a :: t) = (stringTail? quote t).map (· + 2) := rfl

theorem stringTail?_cons (hc : c ≠ '\\') (t : Text) : stringTail? quote (c :: t) =
    if c = quote then some 1 else if c = '\n' && quote ≠ '\x60' then none
    else (stringTail? quote t).map (· + 1) := by
  rw [stringTail?, if_neg hc]
  exact fun _ _ h => absurd h hc

theorem stringTail?_pos (h : stringTail? quote t = some n) : 0 < n := by
  cases t with
  | nil => cases h
  | cons c t =>
    by_cases hc : c = '\\'
    · subst hc
      cases t with
      | nil => cases h
      | cons a t =>
        obtain ⟨m, -, rfl⟩ := Option.map_eq_some_iff.1 h
        exact Nat.succ_pos _
    · rw [stringTail?_cons hc] at h
      split at h
      · cases h
        exact Nat.one_pos
      · split at h
        · cases h
        · obtain ⟨m, -, rfl⟩ := Option.map_eq_some_iff.1 h
          exact Nat.succ_pos _

theorem stringTail?_le (h : stringTail? quote t = some n) : n ≤ t.length := by
  induction t using List.twoStepInduction generalizing n with
  | nil => cases h
  | singleton c =>
    by_cases hc : c = '\\'
    · subst hc
      cases h
    · rw [stringTail?_cons hc] at h
      split at h
      · cases h
        exact Nat.le_refl 1
      · split at h <;> cases h
  | cons_cons c b t ih ih' =>
    by_cases hc : c = '\\'
    · subst hc
      obtain ⟨m, hm, rfl⟩ := Option.map_eq_some_iff.1 h
      exact Nat.add_le_add_right (ih hm) 2
    · rw [stringTail?_cons hc] at h
      split at h
      · cases h
        exact Nat.succ_le_succ (Nat.zero_le _)
      · split at h
        · cases h
        · obtain ⟨m, hm, rfl⟩ := Option.map_eq_some_iff.1 h
          exact Nat.succ_le_succ (ih' b hm)

/-- A string ends with its quote. -/
theorem getLast?_stringTail? (h : stringTail? quote t = some n) : (t.take n).getLast? = some quote := by
  induction t using List.twoStepInduction generalizing n with
  | nil => cases h
  | singleton c =>
    by_cases hc : c = '\\'
    · subst hc
      cases h
    · rw [stringTail?_cons hc] at h
      split at h
      · next hquote =>
        cases h
        rw [hquote]
        rfl
      · split at h <;> cases h
  | cons_cons c b t ih ih' =>
    by_cases hc : c = '\\'
    · subst hc
      obtain ⟨m, hm, rfl⟩ := Option.map_eq_some_iff.1 h
      rw [List.take_succ_cons, List.take_succ_cons, List.getLast?_cons_cons, List.getLast?_cons, ih hm]
      rfl
    · rw [stringTail?_cons hc] at h
      split at h
      · next hquote =>
        cases h
        rw [hquote]
        rfl
      · split at h
        · cases h
        · obtain ⟨m, hm, rfl⟩ := Option.map_eq_some_iff.1 h
          rw [List.take_succ_cons, List.getLast?_cons, ih' b hm]
          rfl

/-- Characters that mean nothing in a string. -/
theorem stringTail?_plain (hq : quote ∉ x) (hb : '\\' ∉ x) (hl : quote = '\x60' ∨ '\n' ∉ x) (t : Text) :
    stringTail? quote (x ++ t) = (stringTail? quote t).map (· + x.length) := by
  induction x with
  | nil => simp
  | cons c x ih =>
    simp only [List.mem_cons, not_or] at hq hb hl
    have hline : ¬(decide (c = '\n') && decide (quote ≠ '\x60')) := by
      rcases hl with rfl | hl
      · simp
      · simp [Ne.symm hl.1]
    rw [List.cons_append, stringTail?_cons (Ne.symm hb.1), if_neg (Ne.symm hq.1), if_neg hline,
      ih hq.2 hb.2 (hl.imp_right (·.2)), Option.map_map]
    rfl

/-- A line end leaves a string open, unless backticks quote it. -/
theorem stringTail?_newline (hq : quote ≠ '\x60') (hl : quote ≠ '\n') (t : Text) :
    stringTail? quote ('\n' :: t) = none := by
  rw [stringTail?_cons (by decide), if_neg (Ne.symm hl), if_pos (by simpa using hq)]

/-- Without a backtick nothing closes a string in backticks. -/
theorem stringTail?_backtick (hx : '\x60' ∉ x) (hlast : x.getLast? ≠ some '\\') (t : Text) :
    stringTail? '\x60' (x ++ t) = none ↔ stringTail? '\x60' t = none := by
  induction x using List.twoStepInduction with
  | nil => rfl
  | singleton c =>
    have hc : c ≠ '\\' := by simpa using hlast
    rw [List.mem_singleton] at hx
    rw [List.singleton_append, stringTail?_cons hc, if_neg (Ne.symm hx)]
    simp
  | cons_cons c b x ih ih' =>
    simp only [List.mem_cons, not_or] at hx
    by_cases hc : c = '\\'
    · subst hc
      rw [List.cons_append, List.cons_append, stringTail?_escape, Option.map_eq_none_iff, ih hx.2.2]
      cases x with
      | nil => simp
      | cons a x => simpa using hlast
    · rw [List.cons_append, stringTail?_cons hc, if_neg (Ne.symm hx.1), ← ih' b (by simpa using hx.2) (by simpa using hlast)]
      simp

/-- A string that is open at the end of some characters, or that they leave open whatever follows. -/
theorem stringTail?_open (h : stringTail? quote (x ++ e) = none) (e' : Text) :
    stringTail? quote (x ++ e') = none ∨
    (stringTail? quote e = none ∧ stringTail? quote (x ++ e') = (stringTail? quote e').map (· + x.length)) ∨
    (x.getLast? = some '\\' ∧ (e = [] ∨ ∃ a v, e = a :: v ∧ stringTail? quote v = none) ∧
      ∀ a v, e' = a :: v → stringTail? quote (x ++ e') = (stringTail? quote v).map (· + (x.length + 1))) := by
  induction x using List.twoStepInduction with
  | nil => exact .inr (.inl ⟨h, by simp⟩)
  | singleton c =>
    by_cases hc : c = '\\'
    · subst hc
      refine .inr (.inr ⟨rfl, ?_, ?_⟩)
      · cases e with
        | nil => exact .inl rfl
        | cons a v => exact .inr ⟨a, v, rfl, Option.map_eq_none_iff.1 h⟩
      · rintro a v rfl
        rfl
    · rw [List.singleton_append, stringTail?_cons hc] at h ⊢
      split at h
      · cases h
      · next hq =>
        rw [if_neg hq]
        split
        · exact .inl rfl
        · next hl =>
          rw [if_neg hl] at h
          exact .inr (.inl ⟨Option.map_eq_none_iff.1 h, rfl⟩)
  | cons_cons c b x ih ih' =>
    by_cases hc : c = '\\'
    · subst hc
      simp only [List.cons_append, stringTail?_escape] at h ⊢
      rcases ih (Option.map_eq_none_iff.1 h) with hx | ⟨he, hx⟩ | ⟨hlast, he, hx⟩
      · exact .inl (by rw [hx]; rfl)
      · exact .inr (.inl ⟨he, by rw [hx, Option.map_map]; rfl⟩)
      · refine .inr (.inr ⟨?_, he, fun a v hv => by rw [hx a v hv, Option.map_map]; rfl⟩)
        rw [List.getLast?_cons_cons, List.getLast?_cons, hlast]
        rfl
    · rw [List.cons_append, stringTail?_cons hc] at h ⊢
      split at h
      · cases h
      · next hq =>
        rw [if_neg hq]
        split
        · exact .inl rfl
        · next hl =>
          rw [if_neg hl] at h
          rcases ih' b (Option.map_eq_none_iff.1 h) with hx | ⟨he, hx⟩ | ⟨hlast, he, hx⟩
          · exact .inl (by rw [hx]; rfl)
          · exact .inr (.inl ⟨he, by rw [hx, Option.map_map]; rfl⟩)
          · refine .inr (.inr ⟨?_, he, fun a v hv => by rw [hx a v hv, Option.map_map]; rfl⟩)
            rw [List.getLast?_cons_cons, hlast]

/-- A string that closes within some characters does so whatever follows them. -/
theorem stringTail?_exchange (h : stringTail? quote (x ++ e) = some n) (hn : n ≤ x.length) (e' : Text) :
    stringTail? quote (x ++ e') = some n := by
  have hpos := stringTail?_pos h
  induction x using List.twoStepInduction generalizing n with
  | nil => exact absurd hn (Nat.not_le_of_lt hpos)
  | singleton a =>
    by_cases ha : a = '\\'
    · subst ha
      cases e with
      | nil => cases h
      | cons b e =>
        obtain ⟨m, -, rfl⟩ := Option.map_eq_some_iff.1 h
        simp at hn
    · rw [List.singleton_append, stringTail?_cons ha] at h ⊢
      split at h
      · next hquote => rw [if_pos hquote, ← h]
      · split at h
        · cases h
        · obtain ⟨m, hm, rfl⟩ := Option.map_eq_some_iff.1 h
          have := stringTail?_pos hm
          simp at hn
          omega
  | cons_cons a b x ih ih' =>
    by_cases ha : a = '\\'
    · subst ha
      obtain ⟨m, hm, rfl⟩ := Option.map_eq_some_iff.1 h
      have hx := ih hm (by simpa using hn) (stringTail?_pos hm)
      exact Option.map_eq_some_iff.2 ⟨m, hx, rfl⟩
    · rw [List.cons_append, stringTail?_cons ha] at h ⊢
      split at h
      · next hquote => rw [if_pos hquote, ← h]
      · next hquote =>
        rw [if_neg hquote]
        split at h
        · cases h
        · next hline =>
          rw [if_neg hline]
          obtain ⟨m, hm, rfl⟩ := Option.map_eq_some_iff.1 h
          have hx := ih' b hm (by simpa using hn) (stringTail?_pos hm)
          exact Option.map_eq_some_iff.2 ⟨m, hx, rfl⟩

/-! ## Comments -/

theorem commentTail?_cons (hc : ¬(c = '*' ∧ t.head? = some '/')) :
    commentTail? (c :: t) = (commentTail? t).map (· + 1) := by
  rw [commentTail?]
  rintro u rfl rfl
  exact hc ⟨rfl, rfl⟩

theorem commentTail?_pos (h : commentTail? t = some n) : 1 < n := by
  induction t generalizing n with
  | nil => cases h
  | cons c t ih =>
    by_cases hc : c = '*' ∧ t.head? = some '/'
    · obtain ⟨rfl, ht⟩ := hc
      obtain ⟨u, rfl⟩ := List.head?_eq_some_iff.1 ht
      cases h
      exact Nat.lt_succ_self _
    · rw [commentTail?_cons hc] at h
      obtain ⟨m, hm, rfl⟩ := Option.map_eq_some_iff.1 h
      exact Nat.lt_succ_of_lt (ih hm)

/-- A comment that closes within some characters does so whatever follows them. -/
theorem commentTail?_exchange (h : commentTail? (x ++ e) = some n) (hn : n ≤ x.length) (e' : Text) :
    commentTail? (x ++ e') = some n := by
  induction x generalizing n with
  | nil => exact absurd hn (Nat.not_le_of_lt (Nat.lt_of_succ_lt (commentTail?_pos h)))
  | cons c x ih =>
    cases x with
    | nil => exact absurd hn (Nat.not_le_of_lt (commentTail?_pos h))
    | cons b x =>
      by_cases hc : c = '*' ∧ b = '/'
      · obtain ⟨rfl, rfl⟩ := hc
        exact h
      · have hcons (e : Text) := commentTail?_cons (c := c) (t := b :: x ++ e) (by simpa using hc)
        rw [List.cons_append, hcons] at h ⊢
        obtain ⟨m, hm, rfl⟩ := Option.map_eq_some_iff.1 h
        exact Option.map_eq_some_iff.2 ⟨m, ih hm (Nat.le_of_succ_le_succ hn), rfl⟩

/-! ## Braces -/

theorem scan_nil (depth skip : Nat) : scan depth skip [] = none := by
  cases skip <;> rfl

theorem scan_skip (depth skip : Nat) (t : Text) :
    scan depth skip t = (scan depth 0 (t.drop skip)).map (· + skip) := by
  induction t generalizing skip with
  | nil => rw [List.drop_nil, scan_nil, scan_nil, Option.map_none]
  | cons c t ih =>
    cases skip with
    | zero => rw [List.drop_zero]; simp
    | succ skip =>
      rw [scan, ih, Option.map_map, List.drop_succ_cons]
      rfl

theorem pieceLength?_quote (hc : isQuote c) (t : Text) :
    pieceLength? (c :: t) = (stringTail? c t).map (· + 1) := by
  unfold pieceLength?
  dsimp only
  rw [if_pos hc, stringLength?]

theorem pieceLength?_comment (t : Text) : pieceLength? ('/' :: '*' :: t) = (commentTail? t).map (· + 2) := rfl

theorem pieceLength?_other (hc : isQuote c = false) (ht : ¬(c = '/' ∧ t.head? = some '*')) :
    pieceLength? (c :: t) = some 1 := by
  unfold pieceLength?
  dsimp only
  rw [if_neg (by simp [hc])]
  split
  · exact absurd ⟨rfl, rfl⟩ ht
  · rfl

/-- The pieces that a scan tells apart. -/
theorem pieceLength?_cases (c : Char) (t : Text) :
    isQuote c ∧ pieceLength? (c :: t) = (stringTail? c t).map (· + 1) ∨
    (∃ u, c = '/' ∧ t = '*' :: u ∧ pieceLength? (c :: t) = (commentTail? u).map (· + 2)) ∨
    (isQuote c = false ∧ ¬(c = '/' ∧ t.head? = some '*') ∧ pieceLength? (c :: t) = some 1) := by
  cases hc : isQuote c with
  | true => exact .inl ⟨rfl, pieceLength?_quote hc t⟩
  | false =>
    by_cases ht : c = '/' ∧ t.head? = some '*'
    · obtain ⟨rfl, ht⟩ := ht
      obtain ⟨u, rfl⟩ := List.head?_eq_some_iff.1 ht
      exact .inr (.inl ⟨u, rfl, rfl, pieceLength?_comment u⟩)
    · exact .inr (.inr ⟨rfl, ht, pieceLength?_other hc ht⟩)

theorem pieceLength?_pos (h : pieceLength? t = some n) : 0 < n := by
  cases t with
  | nil => cases h
  | cons c t =>
    rcases pieceLength?_cases c t with ⟨-, hp⟩ | ⟨u, -, -, hp⟩ | ⟨-, -, hp⟩
    · obtain ⟨m, -, rfl⟩ := Option.map_eq_some_iff.1 (hp.symm.trans h)
      exact Nat.succ_pos _
    · obtain ⟨m, -, rfl⟩ := Option.map_eq_some_iff.1 (hp.symm.trans h)
      exact Nat.succ_pos _
    · cases hp.symm.trans h
      exact Nat.one_pos

/-- A piece within some characters, one more of which is there, is a piece whatever follows them. -/
theorem pieceLength?_exchange (h : pieceLength? (x ++ e) = some n) (hn : n < x.length) (e' : Text) :
    pieceLength? (x ++ e') = some n := by
  match x with
  | [] => exact absurd hn (Nat.not_lt_zero _)
  | [c] => exact absurd hn (Nat.not_lt_of_le (pieceLength?_pos h))
  | c :: b :: x =>
    rw [List.cons_append] at h ⊢
    rcases pieceLength?_cases c (b :: x ++ e) with ⟨hc, hp⟩ | ⟨u, rfl, hu, hp⟩ | ⟨hc, ht, hp⟩
    · obtain ⟨m, hm, rfl⟩ := Option.map_eq_some_iff.1 (hp.symm.trans h)
      rw [pieceLength?_quote hc]
      have hm' : m ≤ (b :: x).length := Nat.le_of_succ_le_succ (Nat.le_of_lt hn)
      exact Option.map_eq_some_iff.2 ⟨m, stringTail?_exchange hm hm' e', rfl⟩
    · cases hu
      obtain ⟨m, hm, rfl⟩ := Option.map_eq_some_iff.1 (hp.symm.trans h)
      refine Option.map_eq_some_iff.2 ⟨m, commentTail?_exchange hm ?_ e', rfl⟩
      simp only [List.length_cons] at hn
      omega
    · cases hp.symm.trans h
      exact pieceLength?_other hc ht

/-- A string or a comment is passed at once. -/
theorem scan_piece {length : Nat} (h : pieceLength? (c :: t) = some (length + 2)) :
    scan depth 0 (c :: t) = (scan depth 0 (t.drop (length + 1))).map (· + (length + 2)) := by
  rw [scan, h]
  dsimp only
  rw [scan_skip, Option.map_map]
  rfl

/-- The number of open braces after a character outside strings and comments. -/
def depthAfter (depth : Nat) (c : Char) : Nat :=
  if c = '\x7b' then depth + 1 else if c = '\x7d' then depth - 1 else depth

theorem scan_close (hd : depth ≤ 1) : scan depth 0 ('\x7d' :: t) = some 1 := by
  have h : pieceLength? ('\x7d' :: t) = some 1 := pieceLength?_other rfl (by simp)
  rw [scan, h]
  dsimp only
  rw [if_neg (by decide), if_pos rfl, if_pos hd]

theorem scan_single (h : pieceLength? (c :: t) = some 1) (hc : ¬(c = '\x7d' ∧ depth ≤ 1)) :
    scan depth 0 (c :: t) = (scan (depthAfter depth c) 0 t).map (· + 1) := by
  rw [scan, h]
  dsimp only
  unfold depthAfter
  split
  · rfl
  · split
    · next hclose => rw [if_neg fun hd => hc ⟨hclose, hd⟩]
    · rfl

/-- Braces that close within some characters do so whatever follows them. -/
theorem scan_exchange (h : scan depth 0 (x ++ e) = some n) (hn : n ≤ x.length) (e' : Text) :
    scan depth 0 (x ++ e') = some n := by
  induction hx : x.length using Nat.strongRecOn generalizing x n depth with
  | _ l ih =>
    subst hx
    have hpos := scan_pos h
    cases x with
    | nil => exact absurd hn (Nat.not_le_of_lt hpos)
    | cons c x =>
      rw [List.length_cons] at hn
      by_cases hclose : c = '\x7d' ∧ depth ≤ 1
      · obtain ⟨rfl, hd⟩ := hclose
        rw [List.cons_append, scan_close hd] at h ⊢
        exact h
      · cases hp : pieceLength? (c :: x ++ e) with
        | none =>
          rw [List.cons_append] at h hp
          rw [scan, hp] at h
          cases h
        | some m =>
          have hm := pieceLength?_pos hp
          obtain _ | _ | length := m
          · exact absurd hm (Nat.lt_irrefl 0)
          · rw [List.cons_append] at h hp ⊢
            rw [scan_single hp hclose] at h
            obtain ⟨k, hk, rfl⟩ := Option.map_eq_some_iff.1 h
            have hx : 0 < x.length := Nat.lt_of_lt_of_le (scan_pos hk) (Nat.le_of_succ_le_succ hn)
            have hp' := pieceLength?_exchange (x := c :: x) hp (Nat.succ_lt_succ hx) e'
            rw [List.cons_append] at hp'
            rw [scan_single hp' hclose]
            exact Option.map_eq_some_iff.2
              ⟨k, ih x.length (Nat.lt_succ_self _) hk (Nat.le_of_succ_le_succ hn) rfl, rfl⟩
          · rw [List.cons_append] at h hp ⊢
            rw [scan_piece hp] at h
            obtain ⟨k, hk, rfl⟩ := Option.map_eq_some_iff.1 h
            have hk' := scan_pos hk
            have hp' := pieceLength?_exchange (x := c :: x) hp (by rw [List.length_cons]; omega) e'
            rw [List.cons_append] at hp'
            rw [scan_piece hp']
            rw [List.drop_append_of_le_length (by omega)] at hk ⊢
            refine Option.map_eq_some_iff.2 ⟨k, ih _ ?_ hk ?_ rfl, rfl⟩
            · rw [List.length_drop, List.length_cons]
              omega
            · rw [List.length_drop]
              omega

theorem balanced?_exchange (h : balanced? (x ++ e) = some n) (hn : n ≤ x.length) (e' : Text) :
    balanced? (x ++ e') = some n := scan_exchange h hn e'

/-! ## Text that leaves braces as they are -/

/-- Text that a scan inside braces passes over. -/
def Passive (u : Text) : Prop :=
  ∀ depth t, 0 < depth → scan depth 0 (u ++ t) = (scan depth 0 t).map (· + u.length)

variable {u v : Text}

theorem passive_nil : Passive [] := by
  intro depth t _
  simp

theorem Passive.append (hu : Passive u) (hv : Passive v) : Passive (u ++ v) := by
  intro depth t hd
  rw [List.append_assoc, hu depth _ hd, hv depth t hd, Option.map_map, List.length_append]
  refine Option.map_congr fun n _ => ?_
  rw [Function.comp_apply]
  omega

theorem passive_char (hq : isQuote c = false) (hopen : c ≠ '\x7b') (hclose : c ≠ '\x7d') (hslash : c ≠ '/') :
    Passive [c] := by
  intro depth t _
  have hdepth : depthAfter depth c = depth := by rw [depthAfter, if_neg hopen, if_neg hclose]
  rw [List.singleton_append, scan_single (pieceLength?_other hq (by simp [hslash])) (by simp [hclose]), hdepth]
  rfl

theorem passive_of_all (h : ∀ c ∈ u, isQuote c = false ∧ c ≠ '\x7b' ∧ c ≠ '\x7d' ∧ c ≠ '/') : Passive u := by
  induction u with
  | nil => exact passive_nil
  | cons c u ih =>
    obtain ⟨hq, hopen, hclose, hslash⟩ := h c List.mem_cons_self
    exact (passive_char hq hopen hclose hslash).append (ih fun d hd => h d (List.mem_cons_of_mem _ hd))

theorem passive_string (hc : isQuote c) (h : ∀ t, stringTail? c (u ++ t) = some u.length) : Passive (c :: u) := by
  intro depth t _
  have hpos := stringTail?_pos (h t)
  obtain ⟨n, hn⟩ := Nat.exists_eq_add_one.2 hpos
  have hpiece : pieceLength? (c :: (u ++ t)) = some (n + 2) := by
    rw [pieceLength?_quote hc, h t, hn]
    rfl
  rw [List.cons_append, scan_piece hpiece, ← hn, List.drop_left, List.length_cons, hn]

theorem commentTail?_append (hu : '*' ∉ u) (t : Text) : commentTail? (u ++ '*' :: '/' :: t) = some (u.length + 2) := by
  induction u with
  | nil => rfl
  | cons c u ih =>
    rw [List.mem_cons, not_or] at hu
    rw [List.cons_append, commentTail?_cons (by simp [Ne.symm hu.1]), ih hu.2, Option.map_some, List.length_cons]

theorem passive_comment (hu : '*' ∉ u) : Passive ('/' :: '*' :: (u ++ ['*', '/'])) := by
  intro depth t _
  have hparts : '/' :: '*' :: (u ++ ['*', '/']) ++ t = '/' :: '*' :: (u ++ '*' :: '/' :: t) := by simp
  have hpiece : pieceLength? ('/' :: '*' :: (u ++ '*' :: '/' :: t)) = some ((u.length + 2) + 2) := by
    rw [pieceLength?_comment, commentTail?_append hu, Option.map_some]
  have hdrop : ('*' :: (u ++ '*' :: '/' :: t)).drop (u.length + 2 + 1) = t := by
    rw [List.drop_succ_cons, ← List.drop_drop, List.drop_left]
    rfl
  rw [hparts, scan_piece hpiece, hdrop]
  simp only [List.length_cons, List.length_append, List.length_nil]

theorem Passive.braces (hu : Passive u) : Passive ('\x7b' :: (u ++ ['\x7d'])) := by
  intro depth t hd
  have hopen : depthAfter depth '\x7b' = depth + 1 := rfl
  have hclose : depthAfter (depth + 1) '\x7d' = depth := rfl
  have hparts : '\x7b' :: (u ++ ['\x7d']) ++ t = '\x7b' :: (u ++ '\x7d' :: t) := by simp
  rw [hparts, scan_single (pieceLength?_other rfl (by simp)) (by simp), hopen, hu _ _ (Nat.succ_pos _),
    scan_single (pieceLength?_other rfl (by simp)) (by simp; omega), hclose, Option.map_map, Option.map_map]
  refine Option.map_congr fun n _ => ?_
  simp only [Function.comp_apply, List.length_cons, List.length_append, List.length_nil]
  omega

/-- Braces around passive text are balanced. -/
theorem Passive.balanced? (hu : Passive u) (t : Text) : balanced? ('\x7b' :: (u ++ '\x7d' :: t)) = some (u.length + 2) := by
  have hopen : depthAfter 0 '\x7b' = 1 := rfl
  rw [Braces.balanced?, scan_single (pieceLength?_other rfl (by simp)) (by simp), hopen, hu _ _ Nat.one_pos,
    scan_close (Nat.le_refl _), Option.map_some, Option.map_some, Nat.add_comm 1]

end Narration.Braces
