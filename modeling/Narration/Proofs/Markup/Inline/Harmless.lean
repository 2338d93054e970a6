import Narration.Proofs.Markup.Inline.Made
import Narration.Proofs.Markup.Inline.Pieces

/-!
# Words that two scans read differently

Inline content reads targets of links and addresses in angle brackets as they stand, while nodes are lifted without regard
to them. Where these hold marks, one scan may go on in the middle of what is one unit to the other.

* `Hazard`, `Harmless` : the words in which that may happen, and texts without them;
* `harmless_of_tails` : such texts are recognized by their suffixes;
* `Calm`, `Sound` : what is known of a source that was made from a harmless text;
* `At` : a place of a source between its units, and between its placeholders;
* `Source.reach_inlineTarget?` : the target of a link in a sound source ends at such a place;
* `Sound.part`, `Sound.showNull` : labels of sound sources, and sources whose null characters are shown.
-/

namespace Narration.Markup
open Content (openPlace closePlace placeholder codeLength)

variable {c : Char} {t u v x y z d : Text} {n k : Nat}

/-! ## Words that two scans read differently -/

/-- A character of the target of a link that ends it for no scan. -/
def isMild (c : Char) : Bool := !isPlace c && !")\x60\\(\x7b<\"'\n".toList.contains c

/-- A character at which only one scan of the target of a link stops. -/
def isGuard (c : Char) : Bool := "\x60\\(\x7b<\"'\n".toList.contains c

/-- A character of an address in angle brackets. -/
def isAddress (c : Char) : Bool := !"<> \t\n".toList.contains c

/-- Words in which inline content may begin elsewhere than where nodes are lifted: targets of links with marks in them, and
addresses in angle brackets with backticks or lifted nodes in them. -/
inductive Hazard : Text → Prop
  | target {w : Text} {c : Char} (hw : ∀ a ∈ w, isMild a) (hc : isGuard c) : Hazard (']' :: '(' :: (w ++ [c]))
  | address {w : Text} (hw : ∀ a ∈ w, isAddress a) (htick : '\x60' ∈ w) : Hazard ('<' :: (w ++ ['>']))
  | line {w : Text} (hw : ∀ a ∈ w, isAddress a) (htick : '\x60' ∈ w) (hmark : ':' ∈ w ∨ '@' ∈ w) : Hazard ('<' :: (w ++ ['\n']))
  | markup {w : Text} {c : Char} (hw : ∀ a ∈ w, isAddress a) (hmark : ':' ∈ w) (hc : c = '\x7b' ∨ c = '<') :
      Hazard ('<' :: (w ++ [c]))

/-- A text without such words. -/
def Harmless (t : Text) : Prop := ∀ w, Hazard w → ¬w <:+: t

/-- Whether a word that two scans read differently stands at the front of a text. -/
def beginsHazard : Text → Bool
  | ']' :: '(' :: t => (t.dropWhile isMild).head?.any isGuard
  | '<' :: t =>
    let w := t.takeWhile isAddress
    let next := (t.dropWhile isAddress).head?
    w.contains '\x60' && (next = some '>' || next = some '\n' && (w.contains ':' || w.contains '@')) ||
      w.contains ':' && (next = some '<' || w.contains '\x7b')
  | _ => false

theorem Hazard.beginsHazard (h : Hazard u) (hu : u <+: t) : beginsHazard t := by
  obtain ⟨r, rfl⟩ := hu
  have hcut {w : Text} (hw : ∀ a ∈ w, isAddress a) {c : Char} (hc : isAddress c = false) :
      (w ++ c :: r).takeWhile isAddress = w ∧ (w ++ c :: r).dropWhile isAddress = c :: r :=
    ⟨Text.takeWhile_run hw hc, Text.dropWhile_run hw hc⟩
  cases h with
  | @target w c hw hc =>
    have hmild : isMild c = false := by
      unfold isMild isGuard at *
      simp_all
    simp only [List.cons_append, List.append_assoc, List.nil_append, Markup.beginsHazard, Text.dropWhile_run hw hmild,
      List.head?_cons, Option.any_some, hc]
  | @address w hw htick =>
    obtain ⟨htake, hdrop⟩ := hcut hw (c := '>') (by decide)
    simp [Markup.beginsHazard, htake, hdrop, htick]
  | @line w hw htick hmark =>
    obtain ⟨htake, hdrop⟩ := hcut hw (c := '\n') (by decide)
    simp [Markup.beginsHazard, htake, hdrop, htick, hmark]
  | @markup w c hw hmark hc =>
    rcases hc with rfl | rfl
    · have hmem : ':' ∈ (w ++ '\x7b' :: r).takeWhile isAddress ∧ '\x7b' ∈ (w ++ '\x7b' :: r).takeWhile isAddress := by
        rw [List.takeWhile_append_of_pos hw, List.takeWhile_cons_of_pos (by decide)]
        simp [hmark]
      simp [Markup.beginsHazard, hmem]
    · obtain ⟨htake, hdrop⟩ := hcut hw (c := '<') (by decide)
      simp [Markup.beginsHazard, htake, hdrop, hmark]

theorem harmless_of_tails (h : ∀ v ∈ t.tails, beginsHazard v = false) : Harmless t := by
  rintro w hw ⟨x, y, rfl⟩
  have hfront := hw.beginsHazard (List.prefix_append w y)
  rw [h _ ((List.mem_tails _ _).2 ⟨x, by simp⟩)] at hfront
  cases hfront

/-- A source that was made from a text without such words. -/
def Calm (x : Text) : Prop := ∀ m e, Placeless m → e = [] ∨ e = [openPlace] → m ++ e <:+: x → ¬∀ e', Ending e e' → Hazard (m ++ e')

theorem Calm.within (h : Calm x) (hy : y <:+: x) : Calm y := fun m e hm he hstands => h m e hm he (hstands.trans hy)

theorem Hazard.exists_cons (h : Hazard u) : ∃ c t, u = c :: t ∧ Text.isDigit c = false ∧ t ≠ [] := by
  cases h with
  | target => exact ⟨_, _, rfl, by decide, List.cons_ne_nil _ _⟩
  | address | line | markup => exact ⟨_, _, rfl, by decide, by simp⟩

theorem Shows.calm (h : Shows t x) (ht : Harmless t) : Calm x := by
  intro m e hm he hstands hall
  obtain ⟨e₀, he₀⟩ : ∃ e', Ending e e' := by
    rcases he with rfl | rfl
    · exact ⟨[], .nothing⟩
    · exact ⟨_, .brace⟩
  cases m with
  | nil =>
    obtain ⟨c, r, heq, -, hr⟩ := (hall e₀ he₀).exists_cons
    cases he₀ <;> simp_all
  | cons c m =>
    have hdigit : Text.isDigit c = false := by
      obtain ⟨a, r, heq, ha, -⟩ := (hall e₀ he₀).exists_cons
      rw [List.cons_append, List.cons.injEq] at heq
      rw [heq.1]
      exact ha
    obtain ⟨e', he', hword⟩ := h.inside c m e hm hdigit he hstands
    exact ht _ (hall e' he') hword

/-! ## Sources that can be read -/

/-- What is known of a source: placeholders stand whole. With `B` it may hold backticks; with `P` its code spans hold no
placeholders, and it was made from a text without words that are read differently. -/
structure Sound (P B : Prop) (x : Text) : Prop where
  intact : Intact x
  uncoded : Uncoded x
  ticks : '\x60' ∈ x → B
  clean : P → CleanCode x ∧ Calm x

/-- A place of a source at which no placeholder, escape or code span goes on. -/
structure At (P : Prop) (x : Text) (i : Nat) : Prop where
  whole : Whole (x.drop i)
  reach : P → Reach x (x.drop i)

namespace At
variable {P : Prop} {i j : Nat}

theorem of_le (h : x.length ≤ i) : At P x i := by
  have hnil : x.drop i = [] := List.drop_eq_nil_of_le h
  exact ⟨hnil ▸ .nil, fun _ => hnil ▸ .nil x⟩

theorem zero (h : Whole x) : At P x 0 := ⟨h, fun _ => .refl x⟩

theorem single (h : At P x i) (hx : x.drop i = c :: t) (hc : isSingle c) : isPlace c = false ∧ At P x (i + 1) := by
  have hnext : x.drop (i + 1) = t := by rw [← List.drop_drop, hx]; rfl
  have hwhole := hx ▸ h.whole
  obtain ⟨hplace, htail⟩ := hwhole.tail (by rintro rfl; exact absurd hc (by decide)) (by rintro rfl; exact absurd hc (by decide))
  exact ⟨hplace, hnext ▸ htail, fun hP => hnext ▸ (hx ▸ h.reach hP).single hc⟩

theorem singles (h : At P x i) (hx : x.drop i = u ++ t) (hu : ∀ c ∈ u, isSingle c) : Placeless u ∧ At P x (i + u.length) := by
  induction u generalizing i with
  | nil => exact ⟨placeless_nil, h⟩
  | cons c u ih =>
    obtain ⟨hc, hu⟩ := List.forall_mem_cons.1 hu
    obtain ⟨hplace, hnext⟩ := h.single hx hc
    obtain ⟨hrest, hend⟩ := ih hnext (by rw [← List.drop_drop, hx]; rfl) hu
    exact ⟨List.forall_mem_cons.2 ⟨hplace, hrest⟩, by rwa [List.length_cons, Nat.add_comm u.length, ← Nat.add_assoc]⟩

theorem escape (h : At P x i) (hx : x.drop i = '\\' :: c :: t) : isPlace c = false ∧ At P x (i + 2) := by
  have hnext : x.drop (i + 2) = t := by rw [← List.drop_drop, hx]; rfl
  obtain ⟨hplace, htail⟩ := (hx ▸ h.whole : Whole ('\\' :: c :: t)).escaped
  exact ⟨hplace, hnext ▸ htail, fun hP => hnext ▸ (hx ▸ h.reach hP : Reach x ('\\' :: c :: t)).escape⟩

/-- Behind a mark no placeholder goes on. -/
theorem behind (h : Intact x) (hx : x.drop i = c :: t) (hc : c ≠ '\\' ∧ c ≠ openPlace ∧ Text.isDigit c = false)
    (hreach : P → Reach x t) : At P x (i + 1) := by
  have hnext : x.drop (i + 1) = t := by rw [← List.drop_drop, hx]; rfl
  refine ⟨?_, fun hP => hnext ▸ hreach hP⟩
  rw [hnext]
  exact h.after (x.take i) c t (by rw [← hx, List.take_append_drop]) hc.1 hc.2.1 hc.2.2

end At

/-- A placeholder in front of a text that goes on where no placeholder does stands before it. -/
theorem exists_place_append (hd : ∀ c ∈ d, Text.isDigit c) (ht : ∀ c ∈ t.head?, Text.isDigit c = false ∧ c ≠ closePlace)
    (h : d ++ closePlace :: y = u ++ t) : ∃ u', u = d ++ closePlace :: u' ∧ y = u' ++ t := by
  rcases List.append_eq_append_iff.1 h with ⟨w, rfl, hw⟩ | ⟨w, rfl, hw⟩
  · cases w with
    | nil =>
      rw [List.nil_append] at hw
      exact absurd rfl (ht closePlace (by rw [← hw]; rfl)).2
    | cons b w =>
      obtain ⟨rfl, rfl⟩ := List.cons.inj hw
      exact ⟨w, rfl, rfl⟩
  · cases w with
    | nil =>
      rw [List.nil_append] at hw
      exact absurd rfl (ht closePlace (by rw [hw]; rfl)).2
    | cons b w =>
      have hb := (ht b (by rw [hw]; rfl)).1
      rw [hd b (by simp)] at hb
      cases hb

/-- Text without escapes and backticks, up to where no placeholder goes on. -/
theorem Whole.plain {P : Prop} (hu : ∀ c ∈ u, c ≠ '\\' ∧ c ≠ '\x60') (ht : ∀ c ∈ t.head?, Text.isDigit c = false ∧ c ≠ closePlace)
    (h : Whole (u ++ t)) (hreach : P → Reach x (u ++ t)) : Complete u ∧ Whole t ∧ (P → Reach x t) := by
  induction hlength : u.length using Nat.strong_induction_on generalizing u with
  | h length ih =>
    subst hlength
    cases u with
    | nil => exact ⟨.nil, h, hreach⟩
    | cons a u =>
      obtain ⟨ha, hu⟩ := List.forall_mem_cons.1 hu
      rw [List.cons_append] at h hreach
      generalize hy : u ++ t = y at h hreach
      cases h with
      | char hc hslash h =>
        subst hy
        have hsingle : isSingle a := by
          simp only [isSingle, Bool.and_eq_true, decide_eq_true_eq]
          exact ⟨ha, (isPlace_eq_false.1 hc).1⟩
        obtain ⟨hu, ht, hreach⟩ := ih u.length (Nat.lt_succ_self _) hu h (fun hP => (hreach hP).single hsingle) rfl
        exact ⟨.char hc hu, ht, hreach⟩
      | escape => exact absurd rfl ha.1
      | backslash => exact absurd rfl ha.1
      | @place d y hd hne h =>
        obtain ⟨w, rfl, rfl⟩ := exists_place_append hd ht hy.symm
        have hw : ∀ c ∈ w, c ≠ '\\' ∧ c ≠ '\x60' := fun c hc => hu c (by simp [hc])
        obtain ⟨hw, ht, hreach⟩ := ih w.length (by simp only [List.length_append, List.length_cons]; omega) hw h
          (fun hP => (hreach hP).place hd) rfl
        exact ⟨.place hd hne hw, ht, hreach⟩

/-- Text without backticks, up to a mark, is passed with the mark. -/
theorem Reach.past (htick : '\x60' ∉ u) (hc : isSingle c) (hdigit : Text.isDigit c = false) (hclose : c ≠ closePlace)
    (hwhole : Whole (u ++ c :: y)) (h : Reach x (u ++ c :: y)) : Reach x y := by
  induction hlength : u.length using Nat.strong_induction_on generalizing u with
  | h length ih =>
    subst hlength
    cases u with
    | nil => exact h.single hc
    | cons a u =>
      rw [List.mem_cons, not_or] at htick
      rw [List.cons_append] at hwhole h
      generalize hz : u ++ c :: y = z at hwhole h
      cases hwhole with
      | char ha hslash hwhole =>
        subst hz
        have hsingle : isSingle a := by
          simp only [isSingle, Bool.and_eq_true, decide_eq_true_eq]
          exact ⟨⟨hslash, Ne.symm htick.1⟩, (isPlace_eq_false.1 ha).1⟩
        exact ih u.length (Nat.lt_succ_self _) htick.2 hwhole (h.single hsingle) rfl
      | @escape b z hb hwhole =>
        cases u with
        | nil =>
          obtain ⟨rfl, rfl⟩ := List.cons.inj hz
          exact h.escape
        | cons b' u =>
          obtain ⟨rfl, rfl⟩ := List.cons.inj hz
          rw [List.mem_cons, not_or] at htick
          exact ih u.length (by simp only [List.length_cons]; omega) htick.2.2 hwhole h.escape rfl
      | backslash => exact absurd hz (by simp)
      | @place d z hd hne hwhole =>
        obtain ⟨w, rfl, rfl⟩ := exists_place_append (t := c :: y) hd (by simpa using ⟨hdigit, hclose⟩) hz.symm
        refine ih w.length (by simp only [List.length_append, List.length_cons]; omega) ?_ hwhole (h.place hd) rfl
        exact fun hmem => htick.2 (by simp [hmem])


/-! ## Places of a source -/

theorem Complete.closePlace_notMem (hu : Placeless u) : ¬Complete (u ++ closePlace :: t) := by
  induction u with
  | nil =>
    intro h
    cases h with
    | char hc => exact absurd hc (by decide)
  | cons c u ih =>
    obtain ⟨hc, hu⟩ := List.forall_mem_cons.1 hu
    intro h
    refine ih hu (h.tail ?_)
    rintro rfl
    exact absurd hc (by decide)

theorem isSingle_of_isMild (h : isMild c) : isSingle c := by
  simp only [isMild, Bool.and_eq_true, Bool.not_eq_true'] at h
  simp only [isSingle, Bool.and_eq_true, decide_eq_true_eq]
  refine ⟨⟨?_, ?_⟩, (isPlace_eq_false.1 h.1).1⟩
  · rintro rfl
    exact absurd h.2 (by decide)
  · rintro rfl
    exact absurd h.2 (by decide)

theorem isGuard_of_not_isMild (h : isMild c = false) (hplace : isPlace c = false) (hc : c ≠ ')') : isGuard c := by
  rw [isMild, hplace] at h
  simp only [Bool.not_false, Bool.true_and, Bool.not_eq_false', List.contains_iff_mem] at h
  exact List.contains_iff_mem.2 ((List.mem_cons.1 h).resolve_left hc)

/-- A target in parentheses goes on, without marks, up to the closing one, or to the end of the source. -/
theorem Calm.exists_target (h : Calm x) {v : Text} (hx : v ++ ']' :: '(' :: t = x) (ht : Complete t) :
    ∃ w r, t = w ++ r ∧ (∀ a ∈ w, isMild a) ∧ (r = [] ∨ ∃ y, r = ')' :: y) := by
  obtain ⟨w, r, rfl, hw, rfl | ⟨c, r, rfl, hc⟩⟩ := Text.exists_run isMild t
  · exact ⟨w, [], rfl, hw, .inl rfl⟩
  by_cases hparen : c = ')'
  · exact ⟨w, _, rfl, hw, .inr ⟨r, by rw [hparen]⟩⟩
  have hplaceless : Placeless w := fun a ha => by
    have hmild := hw a ha
    simp only [isMild, Bool.and_eq_true, Bool.not_eq_true'] at hmild
    exact hmild.1
  have hfront : Placeless (']' :: '(' :: w) := List.forall_mem_cons.2 ⟨rfl, List.forall_mem_cons.2 ⟨rfl, hplaceless⟩⟩
  by_cases hplace : isPlace c
  · simp only [isPlace, Bool.or_eq_true, beq_iff_eq] at hplace
    rcases hplace with rfl | rfl
    · refine absurd ?_ (h (']' :: '(' :: w) [openPlace] hfront (.inr rfl) ⟨v, r, by rw [← hx]; simp⟩)
      intro e' he'
      cases he'
      · exact .target hw (by decide)
      · exact .target hw (by decide)
    · exact absurd ht (Complete.closePlace_notMem hplaceless)
  · have hguard := isGuard_of_not_isMild hc (by simpa using hplace) hparen
    refine absurd ?_ (h (']' :: '(' :: (w ++ [c])) [] ?_ (.inl rfl) ⟨v, r, by rw [← hx]; simp⟩)
    · intro e' he'
      cases he'
      rw [List.append_nil]
      exact .target hw hguard
    · have hlast : Placeless [c] := List.forall_mem_singleton.2 (by simpa using hplace)
      exact hfront.append hlast

namespace Source

variable {P B : Prop} {s : Source} {i j limit stop : Nat} {r : Text}

theorem drop_of_chars (h : s.chars[i]? = some c) : s.text.drop i = c :: s.text.drop (i + 1) := by
  rw [getElem?_chars, List.head?_eq_some_iff] at h
  obtain ⟨t, ht⟩ := h
  rw [← List.drop_drop, ht, List.drop_one, List.tail_cons]

/-- Where a part of a source may end. -/
structure Bounds (P : Prop) (s : Source) (limit : Nat) : Prop where
  at_ : At P s.text limit
  ends : limit = s.chars.size ∨ s.chars[limit]? = some ']'

theorem pass_split (p : Char → Bool) (i limit : Nat) :
    ∃ u t, s.text.drop i = u ++ t ∧ (∀ c ∈ u, p c) ∧ s.pass p i limit = i + u.length := by
  have hlead := (List.takeWhile_prefix p).trans (List.take_prefix (limit - i) (s.text.drop i))
  obtain ⟨t, ht⟩ := hlead
  exact ⟨_, t, ht.symm, fun c hc => List.mem_takeWhile_imp hc, pass_eq i limit⟩

theorem lands_pass (h : At P s.text i) {p : Char → Bool} (hp : ∀ c, p c → isSingle c) (limit : Nat) :
    At P s.text (s.pass p i limit) := by
  obtain ⟨u, t, hdrop, hu, heq⟩ := s.pass_split p i limit
  rw [heq]
  exact (h.singles hdrop fun c hc => hp c (hu c hc)).2

/-! ## Targets -/

/-- A place in a word without marks that ends where `r` begins. -/
def Before (s : Source) (r : Text) (i : Nat) : Prop := ∃ w, s.text.drop i = w ++ r ∧ ∀ a ∈ w, isMild a

section Before
variable (hr : r = [] ∨ ∃ y, r = ')' :: y)
include hr

theorem Before.next (h : s.Before r i) (hc : s.chars[i]? = some c) : c = ')' ∨ isMild c ∧ s.Before r (i + 1) := by
  obtain ⟨w, hdrop, hw⟩ := h
  rw [drop_of_chars hc] at hdrop
  cases w with
  | nil =>
    rcases hr with rfl | ⟨y, rfl⟩
    · cases hdrop
    · exact .inl (List.cons.inj hdrop).1
  | cons a w =>
    rw [List.cons_append, List.cons.injEq] at hdrop
    obtain ⟨rfl, hdrop⟩ := hdrop
    obtain ⟨ha, hw⟩ := List.forall_mem_cons.1 hw
    exact .inr ⟨ha, w, hdrop, hw⟩

theorem Before.pass (h : s.Before r i) {p : Char → Bool} (hp : p ')' = false) (limit : Nat) : s.Before r (s.pass p i limit) := by
  have hfrom (fuel i : Nat) (h : s.Before r i) : s.Before r (s.passFrom p fuel i) := by
    induction fuel generalizing i with
    | zero => exact h
    | succ fuel ih =>
      unfold passFrom
      split
      · next c hc =>
        split
        · next hpc =>
          rcases h.next hr hc with rfl | ⟨-, hnext⟩
          · rw [hp] at hpc
            cases hpc
          · exact ih _ hnext
        · exact h
      · exact h
  exact hfrom _ i h

theorem Before.bareEnd? {fuel d : Nat} (h : s.Before r i) (hend : s.bareEnd? limit fuel i 0 = some (stop, d)) : s.Before r stop := by
  induction fuel generalizing i with
  | zero =>
    cases hend
    exact h
  | succ fuel ih =>
    unfold Source.bareEnd? at hend
    split at hend
    · cases hend
      exact h
    · next c hc =>
      rcases h.next hr (at?_eq_some.1 hc).2 with rfl | ⟨hmild, hnext⟩
      · rw [if_neg (by decide), if_neg (by simp), if_neg (by decide), if_pos rfl, if_pos rfl] at hend
        cases hend
        exact h
      · have hslash : c ≠ '\\' := by
          rintro rfl
          exact absurd hmild (by decide)
        have hopen : c ≠ '(' := by
          rintro rfl
          exact absurd hmild (by decide)
        have hclose : c ≠ ')' := by
          rintro rfl
          exact absurd hmild (by decide)
        have hneither : ¬(c = '\\' ∧ i + 1 < limit) := fun hc => hslash hc.1
        rw [if_neg hneither, if_neg hopen, if_neg hclose] at hend
        split at hend
        · cases hend
          exact h
        · exact ih hnext hend

theorem Before.destination? {t : Text} (h : s.Before r i) (hend : s.destination? i limit = some (t, stop)) : s.Before r stop := by
  unfold Source.destination? at hend
  split at hend
  · next hangle =>
    rcases h.next hr hangle with hc | ⟨hc, -⟩
    · cases hc
    · exact absurd hc (by decide)
  · split at hend
    · next stop' heq =>
      split at hend
      · cases hend
      · cases hend
        exact h.bareEnd? hr heq
    · cases hend

theorem Before.titleEnd? (h : s.Before r i) : s.titleEnd? i limit = none := by
  unfold Source.titleEnd?
  cases hc : s.at? limit i with
  | none => rfl
  | some c =>
    rw [Option.bind_eq_bind, Option.bind_some]
    have hplain : c ≠ '"' ∧ c ≠ '\'' ∧ c ≠ '(' := by
      rcases h.next hr (at?_eq_some.1 hc).2 with rfl | ⟨hmild, -⟩
      · decide
      · refine ⟨?_, ?_, ?_⟩ <;>
        · rintro rfl
          exact absurd hmild (by decide)
    rw [if_neg (by simp [hplain]), if_neg hplain.2.2]

theorem Before.passTitle (h : s.Before r i) (limit : Nat) : s.Before r (s.passTitle i limit) := by
  have hpass := h.pass hr (p := isLinkSpace) (by decide) limit
  unfold Source.passTitle
  dsimp only
  split
  · rw [hpass.titleEnd? hr]
    exact hpass
  · exact hpass

theorem Before.inlineTarget? {t : Text} (h : s.Before r i) (hend : s.inlineTarget? i limit = some (t, stop)) : s.Before r stop := by
  have hpass := h.pass hr (p := isLinkSpace) (by decide) limit
  unfold Source.inlineTarget? at hend
  dsimp only at hend
  split at hend
  · cases hend
  · split at hend
    · next t' stop' heq =>
      split at hend
      · cases hend
        exact (hpass.destination? hr heq).passTitle hr limit
      · cases hend
        exact hpass
    · cases hend
      exact hpass

end Before

/-- What is passed of a target in parentheses is read alike by all scans. -/
theorem reach_inlineTarget? (hs : Sound P B s.text) (hbracket : s.chars[i]? = some ']') (hparen : s.chars[i + 1]? = some '(')
    {t : Text} (hend : s.inlineTarget? (i + 2) limit = some (t, stop)) (hP : P) (hreach : Reach s.text (s.text.drop (i + 2))) :
    Reach s.text (s.text.drop stop) ∧ ∀ c, s.chars[stop]? = some c → isSingle c := by
  have hdrop : s.text.drop i = ']' :: '(' :: s.text.drop (i + 2) := by rw [drop_of_chars hbracket, drop_of_chars hparen]
  have hle := le_inlineTarget? hend
  have htake : s.text.take i ++ ']' :: '(' :: s.text.drop (i + 2) = s.text := by rw [← hdrop, List.take_append_drop]
  have hcomplete : Complete (s.text.drop (i + 2)) := by
    refine (hs.intact.after (s.text.take i ++ [']']) '(' _ ?_ (by decide) (by decide) (by decide)).complete
    rw [List.append_assoc]
    exact htake.symm
  obtain ⟨w, r, hw, hmild, hr⟩ := (hs.clean hP).2.exists_target htake hcomplete
  have hbefore : s.Before r (i + 2) := ⟨w, hw, hmild⟩
  obtain ⟨w', hw', hmild'⟩ := hbefore.inlineTarget? hr hend
  refine ⟨?_, fun c hc => ?_⟩
  · obtain ⟨v, hv⟩ : ∃ v, w = v ++ w' := by
      have hsuffix : s.text.drop stop <:+ s.text.drop (i + 2) := by
        rw [← Nat.add_sub_cancel' hle, ← List.drop_drop]
        exact List.drop_suffix _ _
      rw [hw, hw'] at hsuffix
      obtain ⟨v, hv⟩ := hsuffix
      rw [← List.append_assoc, List.append_cancel_right_eq] at hv
      exact ⟨v, hv.symm⟩
    rw [hw, hv, List.append_assoc, ← hw'] at hreach
    exact hreach.singles fun a ha => isSingle_of_isMild (hmild a (hv ▸ List.mem_append_left _ ha))
  · rcases Before.next hr ⟨w', hw', hmild'⟩ hc with rfl | ⟨hc, -⟩
    · decide
    · exact isSingle_of_isMild hc

end Source

variable {P B : Prop}

/-! ## Parts of a source -/

/-- A code span that ends in front of a mark is read alike without what follows. -/
theorem codeLength_append {r : Text} (h : codeLength ('\x60' :: u ++ ']' :: r) ≤ ('\x60' :: u).length) :
    codeLength ('\x60' :: u) = codeLength ('\x60' :: u ++ ']' :: r) := by
  obtain ⟨n, q, hq, hbarred, hlength⟩ := codeLength_cases u
  have hwhole : '\x60' :: u ++ ']' :: r = ticks (n + 1) ++ (q ++ ']' :: r) := by rw [hq, List.append_assoc]
  have hbarred' : Barred (q ++ ']' :: r) := hbarred.exchange (List.append_nil q) (by simp [Barred])
  have hsize : ('\x60' :: u).length = n + 1 + q.length := by rw [hq, List.length_append, List.length_replicate]
  rw [hwhole, hsize] at h
  rw [hwhole]
  by_cases hmem : n + 1 ∈ runsFrom 0 (q ++ ']' :: r)
  · obtain ⟨k, hk⟩ := exists_closes hmem
    rw [codeLength_ticks hbarred' (Nat.succ_pos n) hk] at h ⊢
    obtain ⟨a, b, hsplit, rfl, hb⟩ := hk.split
    obtain ⟨w, hw⟩ : ∃ w, q = a ++ ticks (n + 1) ++ w := by
      have hle : (a ++ ticks (n + 1)).length ≤ q.length := by
        rw [List.length_append, List.length_replicate]
        omega
      have hlead : q <+: q ++ ']' :: r := List.prefix_append _ _
      exact (List.prefix_of_prefix_length_le ⟨b, hsplit.symm⟩ hlead hle).imp fun w hw => hw.symm
    have hwb : w ++ ']' :: r = b := by
      rw [hw, List.append_assoc, List.append_cancel_left_eq] at hsplit
      exact hsplit
    have hclose := Closes.exchange (u := a ++ ticks (n + 1)) (v := b) (x := w) (n := n + 1)
    rw [List.length_append, List.length_replicate, ← hsplit] at hclose
    have hw' : Barred w := by
      cases w with
      | nil => simp [Barred]
      | cons c w => rw [← hwb] at hb; exact hb
    rw [hq]
    exact codeLength_ticks hbarred (Nat.succ_pos n) (hw ▸ hclose hk hw')
  · rw [codeLength_open hbarred' (Nat.succ_pos n) hmem]
    rw [hq]
    refine codeLength_open hbarred (Nat.succ_pos n) fun hin => hmem ?_
    rw [runsFrom_append_cons (by decide)]
    exact List.mem_append_left _ hin

theorem unitLength_append {r : Text} (hu : u ≠ []) (h : unitLength (u ++ ']' :: r) ≤ u.length) :
    unitLength u = unitLength (u ++ ']' :: r) := by
  obtain ⟨c, u, rfl⟩ := List.exists_cons_of_ne_nil hu
  by_cases hslash : c = '\\'
  · rw [hslash]
    rfl
  by_cases htick : c = '\x60'
  · rw [htick] at h ⊢
    exact codeLength_append h
  by_cases hopen : c = openPlace
  · obtain ⟨d, w, rfl, hd, hw⟩ := Text.exists_run Text.isDigit u
    have hend : ∀ c ∈ (w ++ ']' :: r).head?, Text.isDigit c = false := by
      rcases hw with rfl | ⟨c, w, rfl, hc⟩
      · rintro _ ⟨⟩
        decide
      · rintro _ ⟨⟩
        exact hc
    have hw : ∀ c ∈ w.head?, Text.isDigit c = false := fun c hc => hend c (by rw [List.head?_append, hc]; rfl)
    rw [hopen, List.cons_append, List.append_assoc, unitLength_open hd hw, unitLength_open hd hend]
  · have hsingle : isSingle c := by
      simp only [isSingle, Bool.and_eq_true, decide_eq_true_eq]
      exact ⟨⟨hslash, htick⟩, hopen⟩
    rw [List.cons_append, unitLength_single hsingle, unitLength_single hsingle]

/-- A unit in front of a place that is reached ends there or before. -/
theorem Reach.unit_le {r : Text} (hne : u ≠ []) (hu : Reach x (u ++ ']' :: r)) (hend : Reach x (']' :: r)) :
    unitLength (u ++ ']' :: r) ≤ u.length := by
  have hlater : Reach (u ++ ']' :: r) (']' :: r) := hu.of_length_le hend (by simp)
  generalize hz : u ++ ']' :: r = z at hlater
  cases hlater with
  | refl => exact absurd (List.append_left_eq_self.1 hz) hne
  | step _ hlater =>
    have hlength := hlater.suffix.length_le
    rw [List.length_drop, ← hz, List.length_append, List.length_cons, hz] at hlength
    omega

/-- What is reached before a place that is reached, without what stands behind it. -/
theorem Reach.of_part {r : Text} (h : Reach u y) (hu : Reach x (u ++ ']' :: r)) (hend : Reach x (']' :: r)) :
    Reach x (y ++ ']' :: r) := by
  induction h with
  | refl => exact hu
  | @step u y hne h ih =>
    have hle := hu.unit_le hne hend
    have hunit := unitLength_append hne hle
    have hnext := hu.drop (by simp)
    rw [← hunit] at hle
    rw [← hunit, List.drop_append_of_le_length hle] at hnext
    exact ih hnext

/-- A part of a source, up to a bracket that is reached or to the end. -/
theorem Sound.part (h : Sound P B x) {i : Nat} (hi : At P x i) {r : Text} (hx : x.drop i = u ++ r)
    (hr : r = [] ∨ ∃ r', r = ']' :: r' ∧ (P → Reach x r)) : Sound P B u := by
  have hstands : u <:+: x := (List.prefix_append u r).isInfix.trans (hx ▸ (List.drop_suffix i x).isInfix)
  have hcut {w : Text} (hw : Whole (w ++ r)) : Whole w := by
    rcases hr with rfl | ⟨r', rfl, -⟩
    · rwa [List.append_nil] at hw
    · exact hw.cut_mark (by decide) (by decide)
  refine ⟨⟨hcut (hx ▸ hi.whole), fun a c y hu hslash hopen hdigit => hcut ?_⟩, h.uncoded.within hstands,
    fun hc => h.ticks (hstands.subset hc), fun hP => ⟨fun y hy => ?_, (h.clean hP).2.within hstands⟩⟩
  · refine h.intact.after (x.take i ++ a) c (y ++ r) ?_ hslash hopen hdigit
    calc x = x.take i ++ x.drop i := (List.take_append_drop i x).symm
      _ = _ := by rw [hx, hu]; simp only [List.append_assoc, List.cons_append]
  · have hreach := hi.reach hP
    rw [hx] at hreach
    rcases hr with rfl | ⟨r', rfl, hend⟩
    · rw [List.append_nil] at hreach
      exact (h.clean hP).1 y (hreach.trans hy)
    · have hplace := hy.of_part hreach (hend hP)
      have hle : codeLength ('\x60' :: y ++ ']' :: r') ≤ ('\x60' :: y).length := hplace.unit_le (List.cons_ne_nil _ _) (hend hP)
      have hclean : Placeless (('\x60' :: y ++ ']' :: r').take (codeLength ('\x60' :: y ++ ']' :: r'))) :=
        (h.clean hP).1 _ hplace
      rw [← codeLength_append hle, List.take_append_of_le_length (by rwa [codeLength_append hle])] at hclean
      exact hclean

/-! ## The null character -/

section Null
open Inline (showNull showNull_eq showNull_of_ne)

theorem apply_showNull {p : Char → Bool} (hp : p '\x00' = p (Char.ofNat 0xFFFD)) (c : Char) : p (showNull c) = p c := by
  unfold showNull
  split
  · next hc => rw [hc, hp]
  · rfl

theorem takeWhile_showNull {p : Char → Bool} (hp : p '\x00' = p (Char.ofNat 0xFFFD)) (t : Text) :
    (t.map showNull).takeWhile p = (t.takeWhile p).map showNull := by
  rw [List.takeWhile_map]
  congr 2
  exact funext fun c => apply_showNull hp c

theorem closingRun?_showNull (n fuel : Nat) (t : Text) :
    Content.closingRun? n fuel (t.map showNull) = Content.closingRun? n fuel t := by
  induction fuel generalizing t with
  | zero => rfl
  | succ fuel ih =>
    have hgap : (t.map showNull).takeWhile (· ≠ '\x60') = (t.takeWhile (· ≠ '\x60')).map showNull := takeWhile_showNull (by decide) t
    have hrun (u : Text) : (u.map showNull).takeWhile (· = '\x60') = (u.takeWhile (· = '\x60')).map showNull :=
      takeWhile_showNull (by decide) u
    simp only [Content.closingRun?, hgap, List.length_map, ← List.map_drop, hrun, ih]

theorem codeLength_showNull (t : Text) : codeLength (t.map showNull) = codeLength t := by
  have hrun : (t.map showNull).takeWhile (· = '\x60') = (t.takeWhile (· = '\x60')).map showNull := takeWhile_showNull (by decide) t
  simp only [codeLength, hrun, List.length_map, ← List.map_drop, closingRun?_showNull]

theorem unitLength_showNull (t : Text) : unitLength (t.map showNull) = unitLength t := by
  cases t with
  | nil => rfl
  | cons c t =>
    rw [List.map_cons]
    by_cases hslash : c = '\\'
    · rw [hslash]
      rfl
    by_cases htick : c = '\x60'
    · rw [htick]
      exact codeLength_showNull ('\x60' :: t)
    by_cases hopen : c = openPlace
    · rw [hopen, show showNull openPlace = openPlace from rfl, unitLength_openPlace, unitLength_openPlace,
        takeWhile_showNull (by decide), List.length_map]
    · have hsingle : isSingle c := by
        simp only [isSingle, Bool.and_eq_true, decide_eq_true_eq]
        exact ⟨⟨hslash, htick⟩, hopen⟩
      rw [unitLength_single hsingle, unitLength_single (c := showNull c) (by rwa [apply_showNull (p := isSingle) (by decide)])]

theorem Reach.of_showNull (h : Reach (x.map showNull) z) : ∃ y, z = y.map showNull ∧ Reach x y := by
  generalize hx : x.map showNull = x' at h
  induction h generalizing x with
  | refl => exact ⟨x, hx.symm, .refl x⟩
  | @step x' y hne _ ih =>
    subst hx
    rw [unitLength_showNull, ← List.map_drop] at ih
    obtain ⟨y, rfl, hy⟩ := ih rfl
    exact ⟨y, rfl, .step (fun hnil => hne (by rw [hnil]; rfl)) hy⟩

theorem forall_showNull {p : Char → Bool} (hp : p '\x00' = p (Char.ofNat 0xFFFD)) (h : ∀ c ∈ t.map showNull, p c) :
    ∀ c ∈ t, p c := fun c hc => by
  rw [← apply_showNull hp]
  exact h _ (List.mem_map_of_mem hc)

theorem mem_of_showNull {c : Char} (hc : c ≠ Char.ofNat 0xFFFD) (h : c ∈ t.map showNull) : c ∈ t := by
  obtain ⟨d, hd, heq⟩ := List.mem_map.1 h
  exact showNull_eq hc heq ▸ hd

/-- A word in angle brackets, or up to another mark. -/
theorem exists_of_showNull {a c : Char} {w : Text} (ha : a ≠ Char.ofNat 0xFFFD) (hc : c ≠ Char.ofNat 0xFFFD)
    (h : x.map showNull = a :: (w ++ [c])) : ∃ w', x = a :: (w' ++ [c]) ∧ w'.map showNull = w := by
  obtain ⟨b, y, rfl, hb, hy⟩ := List.map_eq_cons_iff.1 h
  obtain ⟨w', z, rfl, hw', hz⟩ := List.map_eq_append_iff.1 hy
  obtain ⟨b', z', rfl, hb', hz'⟩ := List.map_eq_cons_iff.1 hz
  obtain rfl := List.map_eq_nil_iff.1 hz'
  exact ⟨w', by rw [showNull_eq ha hb, showNull_eq hc hb'], hw'⟩

theorem Hazard.of_showNull (h : Hazard (x.map showNull)) : Hazard x := by
  generalize hx : x.map showNull = x' at h
  cases h with
  | @target w c hw hc =>
    have hguard : c ≠ Char.ofNat 0xFFFD := by
      rintro rfl
      exact absurd hc (by decide)
    rw [← List.cons_append] at hx
    obtain ⟨w', rfl, hw'⟩ := exists_of_showNull (by decide) hguard hx
    obtain ⟨b, w', rfl, hb, rfl⟩ := List.map_eq_cons_iff.1 hw'
    rw [showNull_eq (by decide) hb]
    exact .target (forall_showNull (by decide) hw) hc
  | address hw htick =>
    obtain ⟨w', rfl, rfl⟩ := exists_of_showNull (by decide) (by decide) hx
    exact .address (forall_showNull (by decide) hw) (mem_of_showNull (by decide) htick)
  | line hw htick hmark =>
    obtain ⟨w', rfl, rfl⟩ := exists_of_showNull (by decide) (by decide) hx
    exact .line (forall_showNull (by decide) hw) (mem_of_showNull (by decide) htick)
      (hmark.imp (mem_of_showNull (by decide)) (mem_of_showNull (by decide)))
  | @markup w c hw hmark hc =>
    obtain ⟨w', rfl, rfl⟩ := exists_of_showNull (by decide) (by rcases hc with rfl | rfl <;> decide) hx
    exact .markup (forall_showNull (by decide) hw) (mem_of_showNull (by decide) hmark) hc

theorem Placeless.showNull (h : Placeless t) : Placeless (t.map showNull) :=
  List.forall_mem_map.2 fun c hc => by rw [apply_showNull (p := isPlace) (by decide), h c hc]

theorem Placeless.of_showNull (h : Placeless (t.map Inline.showNull)) : Placeless t := fun c hc => by
  rw [← apply_showNull (p := isPlace) (by decide)]
  exact h _ (List.mem_map_of_mem hc)

theorem Whole.showNull (h : Whole x) : Whole (x.map showNull) := by
  have hplace {c : Char} (hc : isPlace c = false) : isPlace (Inline.showNull c) = false := by
    rwa [apply_showNull (p := isPlace) (by decide)]
  induction h with
  | nil => exact .nil
  | char hc hslash _ ih => exact .char (hplace hc) (fun heq => hslash (showNull_eq (by decide) heq)) ih
  | escape hc _ ih => exact .escape (hplace hc) ih
  | backslash => exact .backslash
  | @place d x hd hne _ ih =>
    have hdigits : d.map Inline.showNull = d := by
      refine (List.map_congr_left fun c hc => showNull_of_ne ?_).trans (List.map_id d)
      exact LineForm.isDigit_ne (hd c hc) (by decide)
    rw [List.map_cons, List.map_append, List.map_cons, hdigits]
    exact .place hd hne ih

theorem Calm.showNull (h : Calm x) : Calm (x.map showNull) := by
  intro m e hm he hstands hall
  obtain ⟨w, hw, heq⟩ := List.infix_map_iff.1 hstands
  obtain ⟨m', e', rfl, rfl, rfl⟩ := List.map_eq_append_iff.1 heq.symm
  have hsame {e : Text} (he : e = [] ∨ e = [openPlace] ∨ e = ['\x7b'] ∨ e = ['<']) : e.map Inline.showNull = e := by
    rcases he with rfl | rfl | rfl | rfl <;> rfl
  have he' : e' = [] ∨ e' = [openPlace] := by
    rcases he with he | he
    · exact .inl (List.map_eq_nil_iff.1 he)
    · obtain ⟨c, r, rfl, hc, hr⟩ := List.map_eq_cons_iff.1 he
      rw [showNull_eq (by decide) hc, List.map_eq_nil_iff.1 hr]
      exact .inr rfl
  refine h m' e' (Placeless.of_showNull hm) he' hw fun e'' hending => ?_
  have hback : e'.map Inline.showNull = e' := hsame (he'.imp_right .inl)
  have hhazard := hall e'' (hback.symm ▸ hending)
  refine Hazard.of_showNull ?_
  rw [List.map_append]
  have hend : e''.map Inline.showNull = e'' := by
    cases hending <;> rfl
  rwa [hend]

theorem Sound.showNull (h : Sound P B x) : Sound P B (x.map showNull) := by
  refine ⟨⟨h.intact.whole.showNull, fun a c y hx hslash hopen hdigit => ?_⟩, Inline.uncoded_showNull h.uncoded,
    fun hc => h.ticks (mem_of_showNull (by decide) hc), fun hP => ⟨fun y hy => ?_, (h.clean hP).2.showNull⟩⟩
  · obtain ⟨a', r, rfl, rfl, hr⟩ := List.map_eq_append_iff.1 hx
    obtain ⟨c', y', rfl, rfl, rfl⟩ := List.map_eq_cons_iff.1 hr
    refine (h.intact.after a' c' y' rfl ?_ ?_ ?_).showNull
    · rintro rfl
      exact hslash rfl
    · rintro rfl
      exact hopen rfl
    · rwa [apply_showNull (p := Text.isDigit) (by decide)] at hdigit
  · obtain ⟨z, hz, hreach⟩ := hy.of_showNull
    obtain ⟨c, y', rfl, hc, rfl⟩ := List.map_eq_cons_iff.1 hz.symm
    obtain rfl := showNull_eq (by decide) hc
    have hclean := ((h.clean hP).1 y' hreach).showNull
    rw [hz, codeLength_showNull, ← List.map_take]
    exact hclean

end Null

end Narration.Markup
