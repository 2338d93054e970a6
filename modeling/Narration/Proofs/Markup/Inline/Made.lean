import Narration.Proofs.Markup.Inline.Intact

/-!
# What inline content is made of when nodes are lifted

Lifting reads a stretch unit by unit: an escape, a code span, a placeholder's worth of markup, or a single character. What
inline content is read from has the same units, with placeholders in place of the markup.

* `unitLength`, `Reach` : the units of a source, and the places between them;
* `CleanCode` : sources whose code spans hold no placeholders;
* `Shows` : what stands in a source stands in the stretch, up to a brace or an angle bracket for a placeholder;
* `Passed`, `Enclosed` : what lifting passes, and the markup that it lifts;
* `Content.lift_made` : what lifting makes has whole placeholders, none of them in a code span between units.
-/

namespace Narration.Markup
open Content (openPlace closePlace placeholder closingRun? codeLength)

variable {c : Char} {t u v x y z d : Text} {n k : Nat}

/-! ## Units -/

/-- The number of characters at the front of a source that belong together: an escape, a code span or the backticks that
open none, a placeholder, else a single character. -/
def unitLength : Text → Nat
  | '\\' :: _ => 2
  | '\x60' :: t => codeLength ('\x60' :: t)
  | c :: t => if c = openPlace then (t.takeWhile Text.isDigit).length + 2 else 1
  | [] => 0

/-- A character that is a unit by itself. -/
def isSingle (c : Char) : Bool := c ≠ '\\' && c ≠ '\x60' && c ≠ openPlace

theorem unitLength_single (hc : isSingle c) (t : Text) : unitLength (c :: t) = 1 := by
  simp only [isSingle, Bool.and_eq_true, decide_eq_true_eq] at hc
  unfold unitLength
  split
  · next heq => exact absurd (List.cons.inj heq).1 hc.1.1
  · next heq => exact absurd (List.cons.inj heq).1 hc.1.2
  · next heq =>
    obtain ⟨rfl, rfl⟩ := List.cons.inj heq
    exact if_neg hc.2
  · next heq => cases heq

theorem unitLength_openPlace (t : Text) : unitLength (openPlace :: t) = (t.takeWhile Text.isDigit).length + 2 := by
  unfold unitLength
  split
  · next heq => exact absurd (List.cons.inj heq).1 (by decide)
  · next heq => exact absurd (List.cons.inj heq).1 (by decide)
  · next heq =>
    obtain ⟨rfl, rfl⟩ := List.cons.inj heq
    exact if_pos rfl
  · next heq => cases heq

theorem unitLength_open (hd : ∀ c ∈ d, Text.isDigit c) (ht : ∀ c ∈ t.head?, Text.isDigit c = false) :
    unitLength (openPlace :: (d ++ t)) = d.length + 2 := by
  rw [unitLength_openPlace]
  cases t with
  | nil => rw [List.append_nil, Text.takeWhile_all hd]
  | cons c t => rw [Text.takeWhile_run hd (ht c rfl)]

theorem unitLength_place (hd : ∀ c ∈ d, Text.isDigit c) (t : Text) :
    unitLength (openPlace :: (d ++ closePlace :: t)) = d.length + 2 :=
  unitLength_open hd (by
    rintro _ ⟨⟩
    decide)

theorem unitLength_pos (hx : x ≠ []) : 0 < unitLength x := by
  unfold unitLength
  split
  · exact Nat.two_pos
  · exact codeLength_pos _
  · split
    · exact Nat.succ_pos _
    · exact Nat.one_pos
  · exact absurd rfl hx

/-- What is left of a source after some of its units. -/
inductive Reach : Text → Text → Prop
  | refl (x : Text) : Reach x x
  | step {x y : Text} (hx : x ≠ []) (h : Reach (x.drop (unitLength x)) y) : Reach x y

namespace Reach

theorem trans (h : Reach x y) (h' : Reach y z) : Reach x z := by
  induction h with
  | refl => exact h'
  | step hx _ ih => exact .step hx (ih h')

theorem suffix (h : Reach x y) : y <:+ x := by
  induction h with
  | refl => exact List.suffix_rfl
  | step _ _ ih => exact ih.trans (List.drop_suffix _ _)

/-- Of two places that are reached the later one is reached from the earlier. -/
theorem of_length_le (h : Reach x y) (h' : Reach x z) (hle : z.length ≤ y.length) : Reach y z := by
  induction h with
  | refl => exact h'
  | @step x y hx h ih =>
    cases h' with
    | refl =>
      have hlength := h.suffix.length_le
      have hpos := unitLength_pos hx
      have hx := List.length_pos_iff.2 hx
      rw [List.length_drop] at hlength
      omega
    | step _ h' => exact ih h' hle

theorem drop (h : Reach x y) (hy : y ≠ []) : Reach x (y.drop (unitLength y)) := h.trans (.step hy (.refl _))

theorem single (h : Reach x (c :: y)) (hc : isSingle c) : Reach x y := by
  have hnext := h.drop (List.cons_ne_nil c y)
  rwa [unitLength_single hc] at hnext

theorem escape (h : Reach x ('\\' :: c :: y)) : Reach x y := h.drop (List.cons_ne_nil _ _)

theorem place (h : Reach x (openPlace :: (d ++ closePlace :: y))) (hd : ∀ c ∈ d, Text.isDigit c) : Reach x y := by
  have hnext := h.drop (List.cons_ne_nil _ _)
  rwa [unitLength_place hd, List.drop_succ_cons, ← List.singleton_append, ← List.append_assoc,
    List.drop_left' (by simp)] at hnext

theorem singles (h : Reach x (u ++ y)) (hu : ∀ c ∈ u, isSingle c) : Reach x y := by
  induction u with
  | nil => exact h
  | cons c u ih =>
    obtain ⟨hc, hu⟩ := List.forall_mem_cons.1 hu
    exact ih (h.single hc) hu

/-- The end of a source is reached. -/
theorem nil (x : Text) : Reach x [] := by
  induction hlength : x.length using Nat.strong_induction_on generalizing x with
  | h length ih =>
    subst hlength
    by_cases hx : x = []
    · exact hx ▸ .refl x
    · refine .step hx (ih _ ?_ _ rfl)
      have hpos := unitLength_pos hx
      have hlength := List.length_pos_iff.2 hx
      rw [List.length_drop]
      omega

end Reach

/-! ## Sources -/

/-- The code spans of a source hold no placeholders. -/
def CleanCode (x : Text) : Prop := ∀ y, Reach x ('\x60' :: y) → Placeless (('\x60' :: y).take (codeLength ('\x60' :: y)))

/-- A source in which placeholders stand whole, read from its beginning or from behind a mark. -/
structure Intact (x : Text) : Prop where
  whole : Whole x
  after : ∀ a c y, x = a ++ c :: y → c ≠ '\\' → c ≠ openPlace → Text.isDigit c = false → Whole y

theorem intact_nil : Intact [] := ⟨.nil, fun a c y h => by cases a <;> cases h⟩

/-- Raw characters in front of an intact source. -/
theorem Intact.append (h : Intact x) (hu : Placeless u) (hlast : u.getLast? ≠ some '\\') : Intact (u ++ x) := by
  refine ⟨h.whole.append u hu hlast, fun a c y heq hslash hopen hdigit => ?_⟩
  rcases List.append_eq_append_iff.1 heq with ⟨z, rfl, hx⟩ | ⟨z, rfl, hz⟩
  · exact h.after z c y hx hslash hopen hdigit
  · cases z with
    | nil => exact h.after [] c y hz.symm hslash hopen hdigit
    | cons b z =>
      obtain ⟨rfl, rfl⟩ := List.cons.inj hz
      refine h.whole.append z (fun d hd => hu d (by simp [hd])) fun hl => hlast ?_
      rw [List.getLast?_append, List.getLast?_cons, hl]
      rfl

theorem Intact.escape (h : Intact x) (hc : isPlace c = false) : Intact ('\\' :: c :: x) := by
  refine ⟨.escape hc h.whole, fun a b y heq hslash hopen hdigit => ?_⟩
  match a with
  | [] => exact absurd (List.cons.inj heq).1.symm hslash
  | [_] =>
    rw [List.singleton_append, List.cons.injEq, List.cons.injEq] at heq
    exact heq.2.2 ▸ h.whole
  | _ :: _ :: a =>
    rw [List.cons_append, List.cons_append, List.cons.injEq, List.cons.injEq] at heq
    exact h.after a b y heq.2.2 hslash hopen hdigit

theorem intact_backslash : Intact ['\\'] := by
  refine ⟨.backslash, fun a c y heq hslash _ _ => ?_⟩
  match a with
  | [] => exact absurd (List.cons.inj heq).1.symm hslash
  | [_] => cases heq
  | _ :: _ :: a => cases heq

theorem Intact.place (h : Intact x) (hd : ∀ c ∈ d, Text.isDigit c) (hne : d ≠ []) :
    Intact (openPlace :: (d ++ closePlace :: x)) := by
  refine ⟨.place hd hne h.whole, fun a c y heq hslash hopen hdigit => ?_⟩
  cases a with
  | nil => exact absurd (List.cons.inj heq).1.symm hopen
  | cons b a =>
    rw [List.cons_append, List.cons.injEq] at heq
    rcases List.append_eq_append_iff.1 heq.2 with ⟨z, rfl, hz⟩ | ⟨z, rfl, hz⟩
    · cases z with
      | nil => exact (List.cons.inj hz).2 ▸ h.whole
      | cons b z =>
        rw [List.cons_append, List.cons.injEq] at hz
        exact h.after z c y hz.2 hslash hopen hdigit
    · cases z with
      | nil => exact (List.cons.inj hz).2 ▸ h.whole
      | cons b z =>
        rw [List.cons_append, List.cons.injEq] at hz
        obtain ⟨rfl, -⟩ := hz
        rw [hd _ (by simp)] at hdigit
        cases hdigit

/-! ## Words of a source -/

/-- The end of a word in a source, and in the text that the source was made from: a placeholder begins where a lifted node
does. -/
inductive Ending : Text → Text → Prop
  | nothing : Ending [] []
  | brace : Ending [openPlace] ['\x7b']
  | angle : Ending [openPlace] ['<']

/-- The words of a source, up to a placeholder, stand in the text that it was made from. -/
structure Shows (t x : Text) : Prop where
  front : ∀ m e, Placeless m → e = [] ∨ e = [openPlace] → m ++ e <+: x → ∃ e', Ending e e' ∧ m ++ e' <+: t
  inside : ∀ c m e, Placeless (c :: m) → Text.isDigit c = false → e = [] ∨ e = [openPlace] → c :: m ++ e <:+: x →
    ∃ e', Ending e e' ∧ c :: m ++ e' <:+: t

theorem placeless_nil : Placeless [] := List.forall_mem_nil _

theorem exists_ending_nil (h : u <+: t) : ∃ e', Ending [] e' ∧ u ++ e' <+: t := ⟨[], .nothing, by rwa [List.append_nil]⟩

/-- A word that goes on behind characters that are no part of a placeholder. -/
theorem exists_of_append_ending {m e : Text} (he : e = [] ∨ e = [openPlace]) (hu : Placeless u) (h : m ++ e = u ++ v) :
    ∃ a, m = u ++ a ∧ v = a ++ e := by
  rcases List.append_eq_append_iff.1 h with ⟨a, rfl, rfl⟩ | ⟨a, rfl, rfl⟩
  · have ha : a = [] := by
      rcases he with he | he
      · exact (List.append_eq_nil_iff.1 he).1
      · rcases List.append_eq_singleton_iff.1 he with ⟨ha, -⟩ | ⟨rfl, -⟩
        · exact ha
        · exact absurd (hu openPlace (by simp)) (by decide)
    subst ha
    exact ⟨[], by simp, by simp⟩
  · exact ⟨a, rfl, rfl⟩

theorem shows_nil (t : Text) : Shows t [] := by
  refine ⟨fun m e _ he h => ?_, fun c m e _ _ _ h => ?_⟩
  · obtain ⟨rfl, rfl⟩ := List.append_eq_nil_iff.1 (List.prefix_nil.1 h)
    exact exists_ending_nil List.nil_prefix
  · exact absurd (List.infix_nil.1 h) (by simp)

/-- Characters that are kept. -/
theorem Shows.keep (h : Shows t x) (hu : Placeless u) : Shows (u ++ t) (u ++ x) := by
  have hlonely {m e : Text} (he : e = [] ∨ e = [openPlace]) (hwithin : m ++ e <:+: u) : e = [] := by
    refine he.resolve_right ?_
    rintro rfl
    exact absurd (hu openPlace (hwithin.subset (by simp))) (by decide)
  refine ⟨fun m e hm he ⟨w, hw⟩ => ?_, fun c m e hm hc he hstands => ?_⟩
  · rcases List.append_eq_append_iff.1 hw with ⟨a, ha, -⟩ | ⟨a, ha, hx⟩
    · have hnil := hlonely he ⟨[], a, by rw [List.nil_append, ha]⟩
      rw [hnil, List.append_nil] at ha
      rw [hnil]
      exact exists_ending_nil ⟨a ++ t, by rw [← List.append_assoc, ← ha]⟩
    · obtain ⟨b, rfl, rfl⟩ := exists_of_append_ending he hu ha
      obtain ⟨e', he', hb⟩ := h.front b e (fun d hd => hm d (List.mem_append_right _ hd)) he ⟨w, hx.symm⟩
      exact ⟨e', he', by rw [List.append_assoc]; exact (List.prefix_append_right_inj u).2 hb⟩
  · rcases List.infix_append_iff.1 hstands with hstands | hstands | ⟨m₁, m₂, heq, hm₁, hm₂⟩
    · have hnil := hlonely he hstands
      rw [hnil, List.append_nil] at hstands
      rw [hnil]
      exact ⟨[], .nothing, by rw [List.append_nil]; exact List.infix_append_iff.2 (.inl hstands)⟩
    · obtain ⟨e', he', hrest⟩ := h.inside c m e hm hc he hstands
      exact ⟨e', he', List.infix_append_iff.2 (.inr (.inl hrest))⟩
    · obtain ⟨b, hb, rfl⟩ := exists_of_append_ending he (hu.within hm₁.isInfix) heq
      rw [hb] at hm ⊢
      obtain ⟨e', he', hfront⟩ := h.front b e (fun d hd => hm d (List.mem_append_right _ hd)) he hm₂
      exact ⟨e', he', List.infix_append_iff.2 (.inr (.inr ⟨m₁, b ++ e', List.append_assoc _ _ _, hm₁, hfront⟩))⟩

/-- A placeholder, for what begins with a brace or an angle bracket. -/
theorem Shows.place (h : Shows t x) (hd : ∀ c ∈ d, Text.isDigit c) (hc : c = '\x7b' ∨ c = '<') (u : Text) :
    Shows (c :: (u ++ t)) (openPlace :: (d ++ closePlace :: x)) := by
  refine ⟨fun m e hm he hlead => ?_, fun a m e hm ha he hstands => ?_⟩
  · cases m with
    | nil =>
      rcases he with rfl | rfl
      · exact exists_ending_nil List.nil_prefix
      · rcases hc with rfl | rfl
        · exact ⟨_, .brace, ⟨u ++ t, rfl⟩⟩
        · exact ⟨_, .angle, ⟨u ++ t, rfl⟩⟩
    | cons a m =>
      rw [List.cons_append, List.cons_prefix_cons] at hlead
      exact absurd (hm a List.mem_cons_self) (by rw [hlead.1]; decide)
  · have hbelow (hstands : a :: m ++ e <:+: x) : ∃ e', Ending e e' ∧ a :: m ++ e' <:+: c :: (u ++ t) := by
      obtain ⟨e', he', hrest⟩ := h.inside a m e hm ha he hstands
      exact ⟨e', he', hrest.trans ⟨c :: u, [], by simp⟩⟩
    have hplace : openPlace :: (d ++ closePlace :: x) = (openPlace :: d ++ [closePlace]) ++ x := by simp
    rw [hplace] at hstands
    rcases List.infix_append_iff.1 hstands with hstands | hstands | ⟨m₁, m₂, heq, ⟨w, hw⟩, hm₂⟩
    · have hmem := hstands.subset (show a ∈ a :: m ++ e by simp)
      have hplain := hm a List.mem_cons_self
      simp only [List.cons_append, List.mem_cons, List.mem_append, List.not_mem_nil, or_false] at hmem
      rcases hmem with rfl | hmem | rfl
      · exact absurd hplain (by decide)
      · rw [hd a hmem] at ha
        cases ha
      · exact absurd hplain (by decide)
    · exact hbelow hstands
    · rcases List.eq_nil_or_concat m₁ with rfl | ⟨m₁, b, rfl⟩
      · rw [List.nil_append] at heq
        exact hbelow (heq ▸ hm₂.isInfix)
      · rw [List.concat_eq_append, ← List.append_assoc] at hw
        obtain rfl : b = closePlace := by simpa using (List.append_inj' hw rfl).2
        have hmem : closePlace ∈ a :: m ++ e := heq ▸ by simp
        rcases List.mem_append.1 hmem with hmem | hmem
        · exact absurd (hm _ hmem) (by decide)
        · rcases he with rfl | rfl
          · cases hmem
          · exact absurd (List.mem_singleton.1 hmem) (by decide)


/-! ## Code spans without placeholders -/

/-- Where the run that closes a code span stands. -/
theorem Closes.split (h : Closes n t k) : ∃ u r, t = u ++ ticks n ++ r ∧ k = u.length + n ∧ Barred r := by
  induction h with
  | @here g r _ hr => exact ⟨g, r, rfl, rfl, hr⟩
  | @later g r f k _ _ _ _ ih =>
    obtain ⟨u, v, rfl, rfl, hv⟩ := ih
    refine ⟨g ++ ticks (f + 1) ++ u, v, by simp only [List.append_assoc], ?_, hv⟩
    simp only [List.length_append, List.length_replicate]
    omega

theorem Reach.head_ne {a : Char} (h : Reach (a :: x) (c :: y)) (hne : a ≠ c) :
    Reach ((a :: x).drop (unitLength (a :: x))) (c :: y) := by
  cases h with
  | refl => exact absurd rfl hne
  | step _ h => exact h

namespace CleanCode

theorem nil : CleanCode [] := fun y h => absurd (List.suffix_nil.1 h.suffix) (List.cons_ne_nil _ y)

/-- A unit in front that is no code span. -/
theorem unit {a : Char} (ha : a ≠ '\x60') (h : CleanCode ((a :: x).drop (unitLength (a :: x)))) : CleanCode (a :: x) :=
  fun y hy => h y (hy.head_ne ha)

theorem escape (h : CleanCode x) (c : Char) : CleanCode ('\\' :: c :: x) := .unit (by decide) h

theorem singles (h : CleanCode x) (hu : ∀ c ∈ u, isSingle c) : CleanCode (u ++ x) := by
  induction u with
  | nil => exact h
  | cons c u ih =>
    obtain ⟨hc, hu⟩ := List.forall_mem_cons.1 hu
    rw [List.cons_append]
    refine .unit ?_ ?_
    · rintro rfl
      exact absurd hc (by decide)
    · rw [unitLength_single hc]
      exact ih hu

theorem place (h : CleanCode x) (hd : ∀ c ∈ d, Text.isDigit c) : CleanCode (openPlace :: (d ++ closePlace :: x)) := by
  refine .unit (by decide) ?_
  rw [unitLength_place hd, List.drop_succ_cons, ← List.singleton_append, ← List.append_assoc, List.drop_left' (by simp)]
  exact h

/-- A code span in front, or the backticks that begin none. -/
theorem code (h : CleanCode x) (hu : Placeless u) (hlength : codeLength (u ++ x) = u.length) (hhead : u.head? = some '\x60') :
    CleanCode (u ++ x) := by
  obtain ⟨u, rfl⟩ := List.head?_eq_some_iff.1 hhead
  intro y hy
  have hunit : unitLength ('\x60' :: u ++ x) = codeLength ('\x60' :: u ++ x) := rfl
  by_cases heq : y = u ++ x
  · subst heq
    rwa [← List.cons_append, hlength, List.take_left]
  · cases hy with
    | refl => exact absurd rfl heq
    | step _ hy =>
      rw [hunit, hlength, List.drop_left] at hy
      exact h y hy

end CleanCode

/-! ## What stands at the front -/

/-- Characters that are passed at once while nodes are lifted: an escape, a code span, or others that are neither. -/
inductive Passed : Text → Nat → Prop
  | escape (c : Char) (r : Text) : Passed ('\\' :: c :: r) 2
  | backslash : Passed ['\\'] 2
  | code (r : Text) : Passed ('\x60' :: r) (codeLength ('\x60' :: r))
  | plain {u : Text} (hu : ∀ c ∈ u, c ≠ '\\' ∧ c ≠ '\x60') (hne : u ≠ []) (r : Text) : Passed (u ++ r) u.length

/-- What a lifted node is written as: markup in braces or angle brackets. -/
inductive Enclosed : Text → Nat → Prop
  | mk {c e : Char} (hc : c = '\x7b' ∨ c = '<') (he : e ≠ '\x60') (p r : Text) : Enclosed (c :: (p ++ e :: r)) (p.length + 2)

theorem Passed.pos (h : Passed t n) : 0 < n := by
  cases h with
  | escape => decide
  | backslash => decide
  | code r => exact codeLength_pos r
  | plain _ hne => exact List.length_pos_iff.2 hne

theorem Enclosed.pos (h : Enclosed t n) : 0 < n := by
  cases h
  exact Nat.succ_pos _

open Fallible
open Stretch (In)

section Front
variable {scope : Scope} {inner : Stretch → Except Fault (List Node)} {s : Stretch} {length : Nat}

theorem enclosed_of_getElem? {c e : Char} {t : Text} (hc : c = '\x7b' ∨ c = '<') (he : e ≠ '\x60') (hn : 2 ≤ n)
    (hlast : (c :: t)[n - 1]? = some e) : Enclosed (c :: t) n := by
  obtain ⟨m, rfl⟩ := Nat.exists_eq_add_of_le' hn
  rw [show m + 2 - 1 = m + 1 by omega, List.getElem?_cons_succ] at hlast
  obtain ⟨hm, rfl⟩ := List.getElem?_eq_some_iff.1 hlast
  have hsplit : t = t.take m ++ t[m] :: t.drop (m + 1) := by
    rw [← List.drop_eq_getElem_cons hm, List.take_append_drop]
  have hlength : (t.take m).length = m := List.length_take_of_le (Nat.le_of_lt hm)
  have h := Enclosed.mk hc he (t.take m) (t.drop (m + 1))
  rwa [← hsplit, hlength] at h

/-- A stretch stands in some text. -/
theorem exists_in (s : Stretch) : ∃ doc, In doc s ∧ ∀ i, doc[s.start + i]? = s.chars[i]? := by
  have hlength : (List.replicate s.start ' ').length = s.start := List.length_replicate
  refine ⟨List.replicate s.start ' ' ++ s.chars, ⟨?_, ?_⟩, fun i => ?_⟩
  · rw [List.length_append, hlength]
    exact Nat.le_add_right _ _
  · rw [List.drop_left' hlength]
  · rw [List.getElem?_append_right (by omega), hlength, Nat.add_sub_cancel_left]

theorem enclosed_ofTag {t : Text} {tag : Tag} {node : Node} {stop : Nat} (hs : s.chars = '<' :: t)
    (htag : Tag.read? s.start s.chars = some tag) (h : Content.ofTag scope inner s tag = .ok (node, stop)) :
    Enclosed s.chars (stop - s.start) := by
  obtain ⟨doc, hin, hdoc⟩ := exists_in s
  have hspan := Tag.read?_span hin htag
  have hlt := hspan.lt
  have hstart := hspan.start
  have hend {n : Nat} (hn : tag.stop ≤ n) (hlast : doc[n - 1]? = some '>') : Enclosed s.chars (n - s.start) := by
    rw [show n - 1 = s.start + (n - s.start - 1) by omega, hdoc] at hlast
    rw [hs] at hlast ⊢
    exact enclosed_of_getElem? (.inr rfl) (by decide) (by omega) hlast
  have htagEnd := hend (Nat.le_refl _) hspan.last
  unfold Content.ofTag at h
  dsimp only at h
  split at h
  · cases h
    exact htagEnd
  · split at h
    · cases h
      exact htagEnd
    · next first last hclosing =>
      split at hclosing
      · cases hclosing
      obtain ⟨children, -, h⟩ := bind_eq_ok.1 h
      cases h
      obtain ⟨hfirst, hstop⟩ := Closing.find?_extent hclosing
      rw [s.start_since (by omega) hspan.stop_le] at hfirst
      exact hend (by omega) (Closing.find?_span (hin.since tag.stop) hclosing).2

theorem front_enclosed {node : Node} (h : Content.front scope inner s = .ok (some node, length)) : Enclosed s.chars length := by
  obtain ⟨o, chars⟩ := s
  unfold Content.front at h
  dsimp only at h
  split at h
  · cases h
  · cases h
  · split at h
    · next rest _ source length' hbraced =>
      cases h
      obtain ⟨w, ht, rfl⟩ := Tag.braced?_span hbraced
      rw [ht]
      exact .mk (.inl rfl) (by decide) source w
    · cases h
  · split at h
    · next tag htag =>
      obtain ⟨⟨node, stop⟩, hnode, h⟩ := bind_eq_ok.1 h
      cases h
      exact enclosed_ofTag rfl htag hnode
    · cases h
  · cases h

theorem front_passed (hs : s.chars ≠ []) (h : Content.front scope inner s = .ok (none, length)) : Passed s.chars length := by
  have hlone {c : Char} {r : Text} (hc : c ≠ '\\' ∧ c ≠ '\x60') : Passed (c :: r) 1 :=
    .plain (u := [c]) (by simpa using hc) (List.cons_ne_nil _ _) r
  obtain ⟨o, chars⟩ := s
  unfold Content.front at h
  dsimp only at h hs
  split at h
  · next r =>
    cases h
    cases r with
    | nil => exact .backslash
    | cons c r => exact .escape c r
  · cases h
    exact .code _
  · split at h
    · cases h
    · cases h
      exact hlone (by decide)
  · split at h
    · obtain ⟨⟨node, stop⟩, -, h⟩ := bind_eq_ok.1 h
      cases h
    · cases h
      exact hlone (by decide)
  · next hslash htick hbrace hangle =>
    cases h
    obtain ⟨u, r, rfl, hu, hr⟩ := Text.exists_run (!Content.isSpecial ·) chars
    have hrun : (u ++ r).takeWhile (!Content.isSpecial ·) = u := by
      rcases hr with rfl | ⟨c, r, rfl, hc⟩
      · rw [List.append_nil, Text.takeWhile_all hu]
      · exact Text.takeWhile_run hu hc
    rw [hrun]
    refine .plain (fun c hc => ?_) ?_ r
    · have hspecial := hu c hc
      simp only [Content.isSpecial, Bool.not_eq_true', Bool.or_eq_false_iff, beq_eq_false_iff_ne] at hspecial
      exact hspecial.1.1
    · rintro rfl
      rcases hr with rfl | ⟨c, r, rfl, hc⟩
      · exact hs rfl
      · simp only [Content.isSpecial, Bool.not_eq_false', Bool.or_eq_true, beq_iff_eq] at hc
        rcases hc with ((rfl | rfl) | rfl) | rfl
        · exact hslash _ rfl
        · exact htick _ rfl
        · exact hbrace _ rfl
        · exact hangle _ rfl

/-! ## What is made of a stretch -/

/-- How a stretch and the source that is made of it go together. -/
structure Made (t x : Text) : Prop where
  intact : Intact x
  clean : CleanCode x
  runs : ∀ k, (runsFrom k x).Sublist (runsFrom k t)
  barred : Barred t → Barred x
  shows : Shows t x

theorem made_nil : Made [] [] := ⟨intact_nil, .nil, fun _ => .refl _, id, shows_nil []⟩

theorem runsFrom_sublist_append (h : ∀ k, (runsFrom k x).Sublist (runsFrom k t)) (u : Text) (k : Nat) :
    (runsFrom k (u ++ x)).Sublist (runsFrom k (u ++ t)) := by
  induction u generalizing k with
  | nil => exact h k
  | cons c u ih =>
    rw [List.cons_append, List.cons_append, runsFrom, runsFrom]
    split
    · exact ih _
    · exact (ih 0).append_left _

theorem Made.keep (h : Made t x) (hu : Placeless u) (hne : u ≠ []) (hintact : Intact (u ++ x)) (hclean : CleanCode (u ++ x)) :
    Made (u ++ t) (u ++ x) := by
  refine ⟨hintact, hclean, runsFrom_sublist_append h.runs u, fun hbarred => ?_, h.shows.keep hu⟩
  obtain ⟨c, u, rfl⟩ := List.exists_cons_of_ne_nil hne
  exact hbarred

/-- Nothing is made of nothing. -/
theorem Made.eq_nil (h : Made [] x) : x = [] := by
  cases hwhole : h.intact.whole with
  | nil => rfl
  | @char c y hc =>
    obtain ⟨e, -, hfront⟩ := h.shows.front [c] [] (List.forall_mem_singleton.2 hc) (.inl rfl) ⟨y, rfl⟩
    exact absurd (List.prefix_nil.1 hfront) (List.cons_ne_nil _ _)
  | @escape c y =>
    obtain ⟨e, -, hfront⟩ := h.shows.front ['\\'] [] (List.forall_mem_singleton.2 (by decide)) (.inl rfl) ⟨c :: y, rfl⟩
    exact absurd (List.prefix_nil.1 hfront) (List.cons_ne_nil _ _)
  | backslash =>
    obtain ⟨e, -, hfront⟩ := h.shows.front ['\\'] [] (List.forall_mem_singleton.2 (by decide)) (.inl rfl) ⟨[], rfl⟩
    exact absurd (List.prefix_nil.1 hfront) (List.cons_ne_nil _ _)
  | @place d y =>
    obtain ⟨e, hending, hfront⟩ := h.shows.front [] [openPlace] placeless_nil (.inr rfl) ⟨d ++ closePlace :: y, rfl⟩
    rw [List.nil_append] at hfront
    rw [List.prefix_nil.1 hfront] at hending
    cases hending

theorem getLast?_append_ticks (u : Text) (n : Nat) : (u ++ ticks (n + 1)).getLast? = some '\x60' := by
  rw [List.getLast?_append, List.getLast?_replicate, if_neg (Nat.succ_ne_zero n)]
  rfl

/-- Backticks that begin a code span, the code span, or backticks that begin none. -/
theorem Made.code {r : Text} (ht : Placeless ('\x60' :: r)) (h : Made (('\x60' :: r).drop (codeLength ('\x60' :: r))) x) :
    Made ('\x60' :: r) (('\x60' :: r).take (codeLength ('\x60' :: r)) ++ x) := by
  have hkept {u q : Text} (htext : '\x60' :: r = u ++ q) (hhead : u.head? = some '\x60') (hlast : u.getLast? = some '\x60')
      (hlength : codeLength ('\x60' :: r) = u.length) (hmade : Made q x → codeLength (u ++ x) = u.length) :
      Made ('\x60' :: r) (('\x60' :: r).take (codeLength ('\x60' :: r)) ++ x) := by
    rw [hlength, htext, List.drop_left] at h
    rw [hlength, htext, List.take_left]
    have hu : Placeless u := ht.within ⟨[], q, by rw [htext, List.nil_append]⟩
    refine h.keep hu ?_ (h.intact.append hu ?_) (h.clean.code hu (hmade h) hhead)
    · rintro rfl
      cases hhead
    · rw [hlast]
      decide
  obtain ⟨n, q, htext, hq, ⟨hnone, hlength⟩ | ⟨k, hk, hlength⟩⟩ := codeLength_cases r
  · refine hkept htext ?_ (getLast?_append_ticks [] n) (by rw [hlength, List.length_replicate]) fun hmade => ?_
    · rfl
    · rw [List.length_replicate]
      exact codeLength_open (hmade.barred hq) (Nat.succ_pos n) fun hmem => hnone ((hmade.runs 0).subset hmem)
  · obtain ⟨u, v, rfl, rfl, hv⟩ := hk.split
    have hsize : (ticks (n + 1) ++ (u ++ ticks (n + 1))).length = n + 1 + (u.length + (n + 1)) := by
      simp only [List.length_append, List.length_replicate]
    refine hkept (u := ticks (n + 1) ++ (u ++ ticks (n + 1))) (q := v) (by rw [htext]; simp only [List.append_assoc]) rfl ?_
      (by rw [hlength, hsize]) fun hmade => ?_
    · rw [← List.append_assoc]
      exact getLast?_append_ticks _ n
    · have hbarred := hmade.barred hv
      rw [hsize, List.append_assoc]
      refine codeLength_ticks (hq.exchange rfl hbarred) (Nat.succ_pos n) ?_
      have hcloses := Closes.exchange (u := u ++ ticks (n + 1)) (v := v) (x := x) (n := n + 1)
      rw [List.length_append, List.length_replicate] at hcloses
      exact hcloses hk hbarred

/-- Characters that are passed at once are kept. -/
theorem Made.passed (hpassed : Passed t n) (ht : Placeless t) (h : Made (t.drop n) x) : Made t (t.take n ++ x) := by
  cases hpassed with
  | escape c r =>
    have hc : isPlace c = false := ht c (by simp)
    exact h.keep (u := ['\\', c]) (ht.within ⟨[], r, rfl⟩) (List.cons_ne_nil _ _) (h.intact.escape hc) (h.clean.escape c)
  | backslash =>
    obtain rfl := h.eq_nil
    refine h.keep (u := ['\\']) ht (List.cons_ne_nil _ _) intact_backslash (.unit (by decide) ?_)
    exact .nil
  | code r => exact .code ht h
  | @plain u hu hne r =>
    rw [List.drop_left] at h
    rw [List.take_left]
    have hplace : Placeless u := ht.within ⟨[], r, rfl⟩
    refine h.keep hplace hne (h.intact.append hplace fun hlast => ?_) (h.clean.singles fun c hc => ?_)
    · exact (hu _ (List.mem_of_getLast? hlast)).1 rfl
    · obtain ⟨hslash, htick⟩ := hu c hc
      simp only [isSingle, Bool.and_eq_true, decide_eq_true_eq]
      exact ⟨⟨hslash, htick⟩, (isPlace_eq_false.1 (hplace c hc)).1⟩

/-- Markup that is lifted leaves a placeholder. -/
theorem Made.enclosed (henclosed : Enclosed t n) (h : Made (t.drop n) x) (m : Nat) : Made t (placeholder m ++ x) := by
  cases henclosed with
  | @mk c e hc he p r =>
    have hd : ∀ c ∈ Text.digits m, Text.isDigit c := fun c hc => Text.isDigit_of_mem_digits hc
    have hdrop : (c :: (p ++ e :: r)).drop (p.length + 2) = r := by
      rw [List.drop_succ_cons, ← List.drop_drop, List.drop_left]
      rfl
    have hticks : c ≠ '\x60' := by rcases hc with rfl | rfl <;> decide
    rw [hdrop] at h
    have hplaceholder : placeholder m ++ x = openPlace :: (Text.digits m ++ closePlace :: x) := by
      rw [Content.placeholder, List.append_assoc, List.cons_append, List.singleton_append]
    have htext : c :: (p ++ e :: r) = c :: (p ++ [e] ++ r) := by rw [List.append_assoc, List.singleton_append]
    rw [hplaceholder]
    refine ⟨h.intact.place hd (Text.digits_ne_nil m), h.clean.place hd, fun k => ?_, fun _ => ?_, ?_⟩
    · have hsource := runsFrom_append_cons (c := openPlace) (by decide) k [] (Text.digits m ++ closePlace :: x)
      have hnone : '\x60' ∉ Text.digits m := fun hc => absurd (hd _ hc) (by decide)
      have hdigits := runsFrom_append_of_notMem hnone (closePlace :: x)
      have hclose := runsFrom_append_cons (c := closePlace) (by decide) 0 [] x
      have hraw := runsFrom_append_cons he k (c :: p) r
      rw [List.nil_append] at hsource hclose
      have hfront : runsFrom k (c :: p) = runsFrom k [] ++ runsFrom 0 p := runsFrom_append_cons hticks k [] p
      have hnil : runsFrom 0 [] = [] := rfl
      rw [hsource, hdigits, hclose, hnil, List.nil_append, ← List.cons_append, hraw, hfront, List.append_assoc]
      exact ((h.runs 0).trans (List.sublist_append_right _ _)).append_left _
    · show (some openPlace) ≠ some '\x60'
      decide
    · rw [htext]
      exact h.shows.place hd hc (p ++ [e])

/-- What is made of a stretch without characters of placeholders. -/
theorem lift_made {fuel : Nat} {source : Text} {nodes : List Node} (hfuel : s.chars.length ≤ fuel) (hs : Placeless s.chars)
    (h : Content.lift scope inner fuel n s = .ok (source, nodes)) : Made s.chars source := by
  induction fuel generalizing n s source nodes with
  | zero =>
    cases h
    rw [List.length_eq_zero_iff.1 (Nat.le_zero.1 hfuel)]
    exact made_nil
  | succ fuel ih =>
    rw [Content.lift] at h
    split at h
    · next hnil =>
      cases h
      rw [List.isEmpty_iff.1 hnil]
      exact made_nil
    · next hne =>
      rw [List.isEmpty_iff] at hne
      have hrest : ∀ {length : Nat}, 0 < length → (s.drop length).chars.length ≤ fuel ∧ Placeless (s.drop length).chars := by
        intro length hpos
        refine ⟨?_, hs.within (List.drop_suffix _ _).isInfix⟩
        have := List.length_pos_iff.2 hne
        rw [Stretch.drop, List.length_drop]
        omega
      obtain ⟨⟨node?, length⟩, hfront, h⟩ := bind_eq_ok.1 h
      cases node? with
      | none =>
        obtain ⟨⟨source, nodes⟩, hsource, h⟩ := bind_eq_ok.1 h
        cases h
        have hpassed := front_passed hne hfront
        have hpos := hpassed.pos
        exact .passed hpassed hs (ih (hrest hpos).1 (hrest hpos).2 hsource)
      | some node =>
        obtain ⟨⟨source, nodes⟩, hsource, h⟩ := bind_eq_ok.1 h
        cases h
        have henclosed := front_enclosed hfront
        have hpos := henclosed.pos
        exact .enclosed henclosed (ih (hrest hpos).1 (hrest hpos).2 hsource) n

end Front

end Narration.Markup
