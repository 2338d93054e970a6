import Narration.Proofs.Markup.Tag
import Narration.Proofs.Markup.Within

/-!
# Texts with one line feed more

A line feed stands in front of `e` that the other text does not have. It comes after a blank, or at the front, and `e`
begins with a line feed too, if with anything. No scanner is stopped by it, and none goes on for it.

* `Rests` : a text that is empty or ends with a blank;
* `Near`, `NearAt` : what is left of both texts from some place on;
* `Near.firstLine`, `Near.cases_head` : their first lines and characters;
* `Near.not_occurs` : what occurs in them;
* `Braces.stringTail?_near`, `Braces.scan_near` : strings and braces.
-/

namespace Narration
open Text (EndsLine firstLine)

/-! ## Results that stand for each other -/

section Rel
variable {α β α' β' : Type} {R : α → α' → Prop} {S : β → β' → Prop} {x : Option α} {x' : Option α'}

theorem map_rel {f : α → β} {f' : α' → β'} (h : Option.Rel R x x') (hf : ∀ a a', R a a' → S (f a) (f' a')) :
    Option.Rel S (x.map f) (x'.map f') := by
  cases h with
  | none => exact .none
  | some h => exact .some (hf _ _ h)

theorem bind_rel {f : α → Option β} {f' : α' → Option β'} (h : Option.Rel R x x')
    (hf : ∀ a a', R a a' → Option.Rel S (f a) (f' a')) : Option.Rel S (x.bind f) (x'.bind f') := by
  cases h with
  | none => exact .none
  | some h => exact hf _ _ h

theorem mono_rel {S : α → α' → Prop} (h : Option.Rel R x x') (hRS : ∀ a a', R a a' → S a a') : Option.Rel S x x' := by
  cases h with
  | none => exact .none
  | some h => exact .some (hRS _ _ h)

theorem refl_rel {R : α → α → Prop} (hR : ∀ a, R a a) (x : Option α) : Option.Rel R x x := by
  cases x with
  | none => exact .none
  | some a => exact .some (hR a)

end Rel

/-! ## What is left -/

/-- A text that is empty or ends with a blank. -/
def Rests (y : Text) : Prop := ∀ c ∈ y.getLast?, Tag.isSpace c

variable {e t t' u u' x y : Text} {c : Char} {k k' n n' o o' : Nat}

theorem Rests.suffix (hx : Rests x) (h : y <:+ x) : Rests y := by
  intro c hc
  obtain ⟨p, rfl⟩ := h
  exact hx c (List.mem_getLast?_append_of_mem_getLast? hc)

theorem Rests.tail (h : Rests (c :: y)) : Rests y := h.suffix (List.suffix_cons c y)

theorem Rests.drop (h : Rests y) (n : Nat) : Rests (y.drop n) := h.suffix (List.drop_suffix n y)

/-- A character that is no blank is not the last one. -/
theorem Rests.exists_cons (h : Rests (c :: y)) (hc : Tag.isSpace c = false) : ∃ b x, y = b :: x := by
  refine List.exists_cons_of_ne_nil ?_
  rintro rfl
  rw [h c rfl] at hc
  cases hc

/-- What is left of a text, and of the text with one line feed more in front of `e`: above it, or the same below it. -/
inductive Near (e : Text) : Text → Text → Prop
  | above {y : Text} (hy : Rests y) : Near e (y ++ e) (y ++ '\n' :: e)
  | below (t : Text) : Near e t t

/-- Places in two texts from which on such texts are left. -/
def NearAt (e t t' : Text) (n n' : Nat) : Prop := Near e (t.drop n) (t'.drop n')

theorem nearAt_same (e t : Text) (n : Nat) : NearAt e t t n n := .below _

theorem nearAt_of_le (hy : Rests y) (h : n ≤ y.length) : NearAt e (y ++ e) (y ++ '\n' :: e) n n := by
  rw [NearAt, List.drop_append_of_le_length h, List.drop_append_of_le_length h]
  exact .above (hy.drop n)

theorem rel_nearAt_newline (e : Text) (x : Option Nat) : Option.Rel (NearAt e e ('\n' :: e)) x (x.map (· + 1)) := by
  cases x with
  | none => exact .none
  | some n => exact .some (.below _)

/-- A place behind others. -/
theorem NearAt.add (h : NearAt e u u' n n') (hu : t.drop k = u) (hu' : t'.drop k' = u') :
    NearAt e t t' (n + k) (n' + k') := by
  subst hu hu'
  rw [NearAt, List.drop_drop, List.drop_drop, Nat.add_comm k, Nat.add_comm k'] at h
  exact h

theorem NearAt.of_eq (h : NearAt e t t' n n') (hn : n = k) (hn' : n' = k') : NearAt e t t' k k' := by
  subst hn hn'
  exact h

theorem NearAt.cons (h : NearAt e t t' n n') (c : Char) : NearAt e (c :: t) (c :: t') (n + 1) (n' + 1) := h.add rfl rfl

/-- What has no line feed occurs in the text with one more only when it does in the other. -/
theorem Near.not_occurs {p : Text} (h : Near e t t') (hp : p ≠ []) (hline : '\n' ∉ p) (hnot : ¬p <:+: t) : ¬p <:+: t' := by
  cases h with
  | below t => exact hnot
  | @above y hy =>
    have hfront {w : Text} (hw : w <+: '\n' :: e) (hmem : '\n' ∉ w) : w = [] := by
      obtain ⟨v, hv⟩ := hw
      cases w with
      | nil => rfl
      | cons c w => exact absurd (by rw [(List.cons.inj hv).1]; exact List.mem_cons_self) hmem
    intro h
    rcases List.infix_append_iff.1 h with h | h | ⟨v, w, rfl, hv, hw⟩
    · exact hnot (h.trans (List.prefix_append y e).isInfix)
    · rcases List.infix_cons_iff.1 h with h | h
      · exact hp (hfront h hline)
      · exact hnot (h.trans (List.suffix_append y e).isInfix)
    · rw [List.mem_append, not_or] at hline
      rw [hfront hw hline.2, List.append_nil] at hnot
      exact hnot (hv.isInfix.trans (List.prefix_append y e).isInfix)

section Near
variable (he : EndsLine e)

include he in
theorem Near.firstLine (h : Near e t t') : firstLine t' = firstLine t := by
  cases h with
  | below t => rfl
  | @above y hy =>
    by_cases hmem : '\n' ∈ y
    · rw [Text.firstLine_append_of_mem hmem, Text.firstLine_append_of_mem hmem]
    · rw [he.firstLine_append, EndsLine.firstLine_append (.inr ⟨e, rfl⟩)]

include he in
/-- Both texts begin with a character that is no line feed, or neither does. -/
theorem Near.cases_head (h : Near e t t') (hc : c ≠ '\n') :
    (∃ u u', t = c :: u ∧ t' = c :: u' ∧ Near e u u') ∨ (t.head? ≠ some c ∧ t'.head? ≠ some c) := by
  cases h with
  | below t =>
    by_cases hhead : t.head? = some c
    · obtain ⟨u, rfl⟩ := List.head?_eq_some_iff.1 hhead
      exact .inl ⟨u, u, rfl, rfl, .below u⟩
    · exact .inr ⟨hhead, hhead⟩
  | @above y hy =>
    cases y with
    | nil =>
      refine .inr ⟨?_, by simpa using hc.symm⟩
      rcases he with rfl | ⟨v, rfl⟩
      · simp
      · simpa using hc.symm
    | cons d y =>
      by_cases hd : d = c
      · exact .inl ⟨_, _, by rw [hd]; rfl, by rw [hd]; rfl, .above hy.tail⟩
      · exact .inr ⟨by simpa using hd, by simpa using hd⟩

/-! ## Strings and braces -/

namespace Braces

include he in
theorem stringTail?_near {quote : Char} (hq : isQuote quote) (hy : Rests y) :
    Option.Rel (NearAt e (y ++ e) (y ++ '\n' :: e)) (stringTail? quote (y ++ e)) (stringTail? quote (y ++ '\n' :: e)) := by
  have hline : quote ≠ '\n' := by
    rintro rfl
    cases hq
  induction hn : y.length using Nat.strongRecOn generalizing y with
  | _ n ih =>
    subst hn
    cases y with
    | nil =>
      rw [List.nil_append, List.nil_append]
      by_cases hback : quote = '\x60'
      · subst hback
        rw [stringTail?_cons (c := '\n') (by decide), if_neg (by decide), if_neg (by decide)]
        exact rel_nearAt_newline e _
      · have hnone (v : Text) : stringTail? quote ('\n' :: v) = none := stringTail?_newline hback hline v
        rcases he with rfl | ⟨v, rfl⟩
        · rw [hnone]
          exact .none
        · rw [hnone, hnone]
          exact .none
    | cons c y =>
      by_cases hc : c = '\\'
      · subst hc
        obtain ⟨b, y, rfl⟩ := hy.exists_cons rfl
        exact map_rel (ih y.length (by simp only [List.length_cons]; omega) hy.tail.tail rfl) fun _ _ h => (h.cons b).cons '\\'
      · simp only [List.cons_append, stringTail?_cons hc]
        split
        · exact .some (nearAt_of_le hy (n := 1) (by simp))
        · split
          · exact .none
          · exact map_rel (ih y.length (by simp) hy.tail rfl) fun _ _ h => h.cons c

theorem commentTail?_near (hy : Rests y) :
    Option.Rel (NearAt e (y ++ e) (y ++ '\n' :: e)) (commentTail? (y ++ e)) (commentTail? (y ++ '\n' :: e)) := by
  induction y with
  | nil =>
    rw [List.nil_append, List.nil_append, commentTail?_cons (c := '\n') (by simp)]
    exact rel_nearAt_newline e _
  | cons c y ih =>
    by_cases hc : c = '*' ∧ y.head? = some '/'
    · obtain ⟨rfl, hhead⟩ := hc
      obtain ⟨y, rfl⟩ := List.head?_eq_some_iff.1 hhead
      exact .some (nearAt_of_le hy (n := 2) (by simp))
    · have hcons (e : Text) : commentTail? (c :: y ++ e) = (commentTail? (y ++ e)).map (· + 1) := by
        refine commentTail?_cons fun h => hc ⟨h.1, ?_⟩
        obtain ⟨b, x, rfl⟩ := hy.exists_cons (by rw [h.1]; rfl)
        exact h.2
      rw [hcons, hcons]
      exact map_rel (ih hy.tail) fun _ _ h => h.cons c

theorem scan_string {depth : Nat} (hc : isQuote c) (t : Text) : scan depth 0 (c :: t) =
    (stringTail? c t).bind fun m => (scan depth 0 (t.drop m)).map (· + (m + 1)) := by
  cases hs : stringTail? c t with
  | none => rw [scan, pieceLength?_quote hc, hs, Option.map_none, Option.bind_none]
  | some m =>
    obtain ⟨m, rfl⟩ := Nat.exists_eq_succ_of_ne_zero (Nat.ne_of_gt (stringTail?_pos hs))
    exact scan_piece (by rw [pieceLength?_quote hc, hs, Option.map_some])

theorem scan_comment {depth : Nat} (t : Text) : scan depth 0 ('/' :: '*' :: t) =
    (commentTail? t).bind fun m => (scan depth 0 (t.drop m)).map (· + (m + 2)) := by
  cases hs : commentTail? t with
  | none => rw [scan, pieceLength?_comment, hs, Option.map_none, Option.bind_none]
  | some m => exact scan_piece (by rw [pieceLength?_comment, hs, Option.map_some])

include he in
theorem scan_near (h : Near e t t') (depth : Nat) : Option.Rel (NearAt e t t') (scan depth 0 t) (scan depth 0 t') := by
  induction hn : t.length using Nat.strongRecOn generalizing t t' depth with
  | _ n ih =>
    subst hn
    cases h with
    | below t => exact refl_rel (nearAt_same e t) _
    | @above y hy =>
      cases y with
      | nil =>
        have hpiece : pieceLength? ('\n' :: e) = some 1 := pieceLength?_other rfl (by simp)
        rw [List.nil_append, List.nil_append, scan_single hpiece (by simp)]
        exact rel_nearAt_newline e _
      | cons c y =>
        simp only [List.cons_append] at ih ⊢
        rcases pieceLength?_cases c (y ++ e) with ⟨hc, -⟩ | ⟨v, rfl, hv, -⟩ | ⟨hc, hslash, hp⟩
        · rw [scan_string hc, scan_string hc]
          refine bind_rel (stringTail?_near he hc hy.tail) fun m m' hnear => ?_
          have hrest := ih _ (by rw [List.length_drop, List.length_cons]; omega) hnear depth rfl
          exact map_rel hrest fun _ _ h => (h.add rfl rfl).cons c
        · obtain ⟨b, y, rfl⟩ := hy.exists_cons rfl
          obtain ⟨rfl, rfl⟩ := List.cons.inj hv
          simp only [List.cons_append, scan_comment]
          refine bind_rel (commentTail?_near hy.tail.tail) fun m m' hnear => ?_
          have hrest := ih _ (by simp only [List.length_drop, List.length_cons, List.cons_append]; omega) hnear depth rfl
          exact map_rel hrest fun _ _ h => ((h.add rfl rfl).cons '*').cons '/'
        · have hp' : pieceLength? (c :: (y ++ '\n' :: e)) = some 1 := by
            refine pieceLength?_other hc fun h => hslash ⟨h.1, ?_⟩
            obtain ⟨b, x, rfl⟩ := hy.exists_cons (by rw [h.1]; rfl)
            exact h.2
          by_cases hclose : c = '\x7d' ∧ depth ≤ 1
          · obtain ⟨rfl, hd⟩ := hclose
            rw [scan_close hd, scan_close hd]
            exact .some (.above hy.tail)
          · rw [scan_single hp hclose, scan_single hp' hclose]
            exact map_rel (ih _ (by rw [List.length_cons]; omega) (.above hy.tail) _ rfl) fun _ _ h => h.cons c

end Braces

end Near
end Narration
