import Mathlib.Data.List.TakeWhile
import Narration.Markup.Content
import Narration.Markup.Inline
import Narration.Proofs.Markup.LineForm
import Narration.Proofs.Text.Find

/-!
# What inline content keeps of placeholders

The tokens of inline content spell characters, with gaps where something else than text stands. A placeholder of the
source is found again in them at most once, and in its place, or is lost.

* `Source.text` : the characters of a source;
* `Source.slice_eq`, `Source.pass_eq` : pieces of a source and runs in it;
* `Source.pass_run` : a run that ends at a character outside its class, or with the source;
* `Spelled`, `InlineToken.spelled` : characters with gaps, and those that tokens spell;
* `numbers` : the numbers of the placeholders among spelled characters;
* `Marked` : a source and the numbers of its placeholders;
* `Placeless`, `Complete` : texts with no placeholders, and with whole ones only;
* `Kept` : how a source and what is spelled of it go together;
* `Kept.numbers_sublist` : the placeholders that are kept are some of those of the source, in order;
* `InlineToken.spelled_joinAll` : joining texts leaves what is spelled;
* `Content.mayWritePlaceholders_iff` : the marks of a text that may write placeholders of its own.
-/

/-! ## Places of a source -/

namespace Narration.Markup.Source

variable {s : Source} {p : Char → Bool} {i limit : Nat} {u v : Text}

/-- The characters of a source. -/
abbrev text (s : Source) : Text := s.chars.toList

theorem getElem?_chars (i : Nat) : s.chars[i]? = (s.text.drop i).head? := by
  rw [List.head?_drop, Array.getElem?_toList]

theorem slice_eq (i j : Nat) : s.slice i j = (s.text.drop i).take (j - i) := by
  rw [slice, Array.toList_extract, List.extract_eq_take_drop]

theorem passFrom_eq (fuel i : Nat) :
    s.passFrom p fuel i = i + (((s.text.drop i).take fuel).takeWhile p).length := by
  induction fuel generalizing i with
  | zero => rw [passFrom, List.take_zero, List.takeWhile_nil, List.length_nil, Nat.add_zero]
  | succ fuel ih =>
    rw [passFrom, getElem?_chars]
    cases h : s.text.drop i with
    | nil => simp
    | cons c t =>
      have hnext : s.text.drop (i + 1) = t := by rw [← List.drop_drop, h, List.drop_one, List.tail_cons]
      rw [List.take_succ_cons, List.head?_cons]
      dsimp only
      split
      · next hp =>
        rw [ih, hnext, List.takeWhile_cons_of_pos hp, List.length_cons]
        omega
      · next hp => rw [List.takeWhile_cons_of_neg hp, List.length_nil, Nat.add_zero]

/-- A run goes on up to the first character outside its class. -/
theorem pass_eq (i limit : Nat) : s.pass p i limit = i + (((s.text.drop i).take (limit - i)).takeWhile p).length :=
  passFrom_eq _ _

/-- A run that is not cut off ends where its class does. -/
theorem pass_run (h : s.text.drop i = u ++ v) (hu : ∀ c ∈ u, p c) (hv : ∀ c ∈ v.head?, p c = false) :
    s.pass p i s.chars.size = i + u.length := by
  have hlength : s.chars.size - i = (u ++ v).length := by rw [← h, List.length_drop, Array.length_toList]
  rw [pass_eq, h, hlength, List.take_length]
  cases v with
  | nil => rw [List.append_nil, Text.takeWhile_all hu]
  | cons c v => rw [Text.takeWhile_run hu (hv c rfl)]

end Narration.Markup.Source

namespace Narration.Markup
open Content (openPlace closePlace)

/-- Characters in a row; `none` stands for a gap. -/
abbrev Spelled := List (Option Char)

/-! ## Placeholders -/

/-- A character that is no part of a placeholder. -/
def isLoose (c : Char) : Bool := c ≠ openPlace && c ≠ closePlace && !Text.isDigit c

/-- A gap or a character that is no part of a placeholder. -/
def isBreak (e : Option Char) : Bool := e.all isLoose

/-- The numbers of the placeholders among spelled characters. `open?` holds the digits since an opening mark. -/
def numbers : (open? : Option Text) → Spelled → List Text
  | _, [] => []
  | _, none :: v => numbers none v
  | open?, some c :: v =>
    if c = openPlace then numbers (some []) v
    else match open? with
      | none => numbers none v
      | some digits =>
        if Text.isDigit c then numbers (some (digits ++ [c])) v
        else if c = closePlace ∧ digits ≠ [] then digits :: numbers none v
        else numbers none v

/-- The rest of a source, the digits of the placeholder in which it begins, and the numbers of the placeholders that
end in it. -/
inductive Marked : Option Text → Text → List Text → Prop
  | nil : Marked none [] []
  | char {c : Char} {x : Text} {ds : List Text} (hopen : c ≠ openPlace) (hclose : c ≠ closePlace) (h : Marked none x ds) :
      Marked none (c :: x) ds
  | opening {x : Text} {ds : List Text} (h : Marked (some []) x ds) : Marked none (openPlace :: x) ds
  | digit {c : Char} {d x : Text} {ds : List Text} (hc : Text.isDigit c) (h : Marked (some (d ++ [c])) x ds) :
      Marked (some d) (c :: x) ds
  | closing {d x : Text} {ds : List Text} (hd : d ≠ []) (h : Marked none x ds) : Marked (some d) (closePlace :: x) (d :: ds)

/-- A source and what is spelled of it. With `apart` nothing that is spelled before goes on here, so that any part of the
source may be left out, and characters may be added that open no placeholder. -/
inductive Kept : (apart : Bool) → Text → Spelled → Prop
  | nil (apart : Bool) : Kept apart [] []
  | keep (apart : Bool) (c : Char) {x : Text} {v : Spelled} (h : Kept false x v) : Kept apart (c :: x) (some c :: v)
  | pass (apart : Bool) {c : Char} (hc : isLoose c) {x : Text} {v : Spelled} (h : Kept true x v) :
      Kept apart (c :: x) (some c :: v)
  | drop (apart : Bool) {c : Char} (hc : isLoose c) {x : Text} {v : Spelled} (h : Kept true x v) : Kept apart (c :: x) v
  | put (apart : Bool) {e : Option Char} (he : isBreak e) {x : Text} {v : Spelled} (h : Kept true x v) : Kept apart x (e :: v)
  | skip (c : Char) {x : Text} {v : Spelled} (h : Kept true x v) : Kept true (c :: x) v
  | add {c : Char} (hc : c ≠ openPlace) {x : Text} {v : Spelled} (h : Kept true x v) : Kept true x (some c :: v)
  | apart {x : Text} {v : Spelled} (h : Kept false x v) : Kept true x v

theorem isDigit_openPlace : Text.isDigit openPlace = false := by decide

theorem isDigit_closePlace : Text.isDigit closePlace = false := by decide

theorem closePlace_ne_openPlace : closePlace ≠ openPlace := by decide

section Loose
variable {c : Char} (h : isLoose c)
include h

theorem ne_openPlace : c ≠ openPlace := by
  rintro rfl
  exact absurd h (by decide)

theorem ne_closePlace : c ≠ closePlace := by
  rintro rfl
  exact absurd h (by decide)

theorem isDigit_of_isLoose : Text.isDigit c = false := by
  simp only [isLoose, Bool.and_eq_true, Bool.not_eq_true'] at h
  exact h.2

/-- A character that is no part of a placeholder stands in none. -/
theorem Marked.of_isLoose {p : Option Text} {x : Text} {ds : List Text} (hm : Marked p (c :: x) ds) :
    p = none ∧ Marked none x ds := by
  cases hm with
  | char _ _ hm => exact ⟨rfl, hm⟩
  | opening => exact absurd rfl (ne_openPlace h)
  | digit hc =>
    rw [isDigit_of_isLoose h] at hc
    cases hc
  | closing => exact absurd rfl (ne_closePlace h)

end Loose

section Numbers
variable {c : Char} {v : Spelled}

theorem numbers_gap (p : Option Text) (v : Spelled) : numbers p (none :: v) = numbers none v := by
  cases p <;> rfl

theorem numbers_opening (p : Option Text) (v : Spelled) : numbers p (some openPlace :: v) = numbers (some []) v := by
  cases p <;> rw [numbers, if_pos rfl]

theorem numbers_char (hc : c ≠ openPlace) (v : Spelled) : numbers none (some c :: v) = numbers none v := by
  rw [numbers, if_neg hc]

theorem numbers_digit (hc : Text.isDigit c) (d : Text) (v : Spelled) :
    numbers (some d) (some c :: v) = numbers (some (d ++ [c])) v := by
  have hne : c ≠ openPlace := LineForm.isDigit_ne hc isDigit_openPlace
  rw [numbers, if_neg hne]
  exact if_pos hc

theorem numbers_closing {d : Text} (hd : d ≠ []) (v : Spelled) :
    numbers (some d) (some closePlace :: v) = d :: numbers none v := by
  rw [numbers, if_neg closePlace_ne_openPlace, if_neg (by rw [isDigit_closePlace]; decide), if_pos ⟨rfl, hd⟩]

theorem numbers_break {e : Option Char} (he : isBreak e) (p : Option Text) (v : Spelled) :
    numbers p (e :: v) = numbers none v := by
  cases e with
  | none => exact numbers_gap p v
  | some c =>
    have hc : isLoose c := he
    cases p with
    | none => exact numbers_char (ne_openPlace hc) v
    | some d =>
      rw [numbers, if_neg (ne_openPlace hc), if_neg (by rw [isDigit_of_isLoose hc]; decide), if_neg fun h => ne_closePlace hc h.1]

end Numbers

/-! ## Whole placeholders -/

section Whole
variable {c : Char} {t u v : Text}

/-- One of the two characters around the number of a placeholder. -/
def isPlace (c : Char) : Bool := c == openPlace || c == closePlace

/-- A text without these characters. -/
def Placeless (t : Text) : Prop := ∀ c ∈ t, isPlace c = false

theorem isPlace_eq_false : isPlace c = false ↔ c ≠ openPlace ∧ c ≠ closePlace := by
  simp only [isPlace, Bool.or_eq_false_iff, beq_eq_false_iff_ne]

theorem placeless_iff : Placeless t ↔ openPlace ∉ t ∧ closePlace ∉ t := by
  refine ⟨fun h => ⟨fun hc => ?_, fun hc => ?_⟩, fun ⟨hopen, hclose⟩ c hc => isPlace_eq_false.2 ⟨?_, ?_⟩⟩
  · exact absurd (h _ hc) (by decide)
  · exact absurd (h _ hc) (by decide)
  · rintro rfl
    exact hopen hc
  · rintro rfl
    exact hclose hc

theorem Placeless.append (hu : Placeless u) (hv : Placeless v) : Placeless (u ++ v) := List.forall_mem_append.2 ⟨hu, hv⟩

theorem Placeless.within (h : Placeless t) (hu : u <:+: t) : Placeless u := fun c hc => h c (hu.subset hc)

/-- A text in which placeholders stand whole only. -/
inductive Complete : Text → Prop
  | nil : Complete []
  | char {c : Char} {t : Text} (hc : isPlace c = false) (h : Complete t) : Complete (c :: t)
  | place {d t : Text} (hd : ∀ c ∈ d, Text.isDigit c) (hne : d ≠ []) (h : Complete t) :
      Complete (openPlace :: (d ++ closePlace :: t))

namespace Complete

theorem of_placeless (h : Placeless t) : Complete t := by
  induction t with
  | nil => exact .nil
  | cons c t ih =>
    obtain ⟨hc, ht⟩ := List.forall_mem_cons.1 h
    exact .char hc (ih ht)

theorem append (hu : Complete u) (hv : Complete v) : Complete (u ++ v) := by
  induction hu with
  | nil => exact hv
  | char hc _ ih => exact .char hc ih
  | place hd hne _ ih =>
    rw [List.cons_append, List.append_assoc, List.cons_append]
    exact .place hd hne ih

/-- A text is cut into texts with whole placeholders where no placeholder goes on. -/
theorem cut (h : Complete (u ++ v)) (hv : ∀ c ∈ v.head?, Text.isDigit c = false ∧ c ≠ closePlace) : Complete u ∧ Complete v := by
  generalize hx : u ++ v = x at h
  induction h generalizing u with
  | nil =>
    obtain ⟨rfl, rfl⟩ := List.append_eq_nil_iff.1 hx
    exact ⟨.nil, .nil⟩
  | @char c t hc h ih =>
    cases u with
    | nil =>
      rw [List.nil_append] at hx
      exact ⟨.nil, hx ▸ .char hc h⟩
    | cons a u =>
      rw [List.cons_append, List.cons.injEq] at hx
      obtain ⟨rfl, hx⟩ := hx
      obtain ⟨hu, hv⟩ := ih hx
      exact ⟨.char hc hu, hv⟩
  | @place d t hd hne h ih =>
    cases u with
    | nil =>
      rw [List.nil_append] at hx
      exact ⟨.nil, hx ▸ .place hd hne h⟩
    | cons a u =>
      rw [List.cons_append, List.cons.injEq] at hx
      obtain ⟨rfl, hx⟩ := hx
      rcases List.append_eq_append_iff.1 hx with ⟨z, rfl, rfl⟩ | ⟨z, rfl, hz⟩
      · cases z with
        | nil => exact absurd rfl (hv closePlace rfl).2
        | cons b z =>
          have hb := (hv b rfl).1
          rw [hd b (by simp)] at hb
          cases hb
      · cases z with
        | nil =>
          rw [List.nil_append] at hz
          exact absurd rfl (hv closePlace (by rw [← hz]; rfl)).2
        | cons b z =>
          obtain ⟨rfl, rfl⟩ := List.cons.inj hz
          obtain ⟨hu, hv⟩ := ih rfl
          exact ⟨.place hd hne hu, hv⟩

theorem tail (h : Complete (c :: t)) (hc : c ≠ openPlace) : Complete t := by
  cases h with
  | char _ h => exact h
  | place => exact absurd rfl hc

end Complete

end Whole

/-! ## What is kept -/

namespace Kept

variable {b : Bool} {x y : Text} {v w : Spelled}

/-- The placeholders that are kept are some of those of the source, in order. -/
theorem numbers_sublist_aux (h : Kept b x v) {p q : Option Text} {ds : List Text} (hm : Marked p x ds)
    (hq : q = none ∨ b = false ∧ q = p) : (numbers q v).Sublist ds := by
  induction h generalizing p q ds with
  | nil => exact List.nil_sublist ds
  | keep b c h ih =>
    cases hm with
    | char hopen hclose hm =>
      obtain rfl : q = none := hq.elim id And.right
      rw [numbers_char hopen]
      exact ih hm (.inl rfl)
    | opening hm =>
      rw [numbers_opening]
      exact ih hm (.inr ⟨rfl, rfl⟩)
    | @digit _ d _ _ hc hm =>
      rcases hq with rfl | ⟨-, rfl⟩
      · rw [numbers_char (LineForm.isDigit_ne hc isDigit_openPlace)]
        exact ih hm (.inl rfl)
      · rw [numbers_digit hc]
        exact ih hm (.inr ⟨rfl, rfl⟩)
    | closing hd hm =>
      rcases hq with rfl | ⟨-, rfl⟩
      · rw [numbers_char closePlace_ne_openPlace]
        exact (ih hm (.inl rfl)).trans (List.sublist_cons_self _ _)
      · rw [numbers_closing hd]
        exact (ih hm (.inl rfl)).cons_cons _
  | pass b hc h ih =>
    obtain ⟨rfl, hrest⟩ := hm.of_isLoose hc
    obtain rfl : q = none := hq.elim id And.right
    rw [numbers_char (ne_openPlace hc)]
    exact ih hrest (.inl rfl)
  | drop b hc h ih =>
    obtain ⟨rfl, hrest⟩ := hm.of_isLoose hc
    exact ih hrest (.inl (hq.elim id And.right))
  | put b he h ih =>
    rw [numbers_break he]
    exact ih hm (.inl rfl)
  | skip c h ih =>
    obtain rfl : q = none := hq.elim id fun h => nomatch h.1
    cases hm with
    | char _ _ hm => exact ih hm (.inl rfl)
    | opening hm => exact ih hm (.inl rfl)
    | digit _ hm => exact ih hm (.inl rfl)
    | closing _ hm => exact (ih hm (.inl rfl)).trans (List.sublist_cons_self _ _)
  | add hc h ih =>
    obtain rfl : q = none := hq.elim id fun h => nomatch h.1
    rw [numbers_char hc]
    exact ih hm (.inl rfl)
  | apart h ih => exact ih hm (hq.imp_right fun h => nomatch h.1)

theorem numbers_sublist (h : Kept b x v) {ds : List Text} (hm : Marked none x ds) : (numbers none v).Sublist ds :=
  h.numbers_sublist_aux hm (.inl rfl)

theorem weaken (h : Kept false x v) : Kept b x v := by
  cases b with
  | false => exact h
  | true => exact .apart h

theorem append (h : Kept b x v) (h' : Kept false y w) : Kept b (x ++ y) (v ++ w) := by
  induction h with
  | nil => exact h'.weaken
  | keep b c _ ih => exact .keep b c ih
  | pass b hc _ ih => exact .pass b hc ih
  | drop b hc _ ih => exact .drop b hc ih
  | put b he _ ih => exact .put b he ih
  | skip c _ ih => exact .skip c ih
  | add hc _ ih => exact .add hc ih
  | apart _ ih => exact .apart ih

theorem refl (b : Bool) (x : Text) : Kept b x (x.map some) := by
  induction x generalizing b with
  | nil => exact .nil b
  | cons c x ih => exact .keep b c (ih false)

theorem skips (x : Text) : Kept true x [] := by
  induction x with
  | nil => exact .nil true
  | cons c x ih => exact .skip c ih

/-- Anything may become a gap. -/
theorem gap (b : Bool) (x : Text) : Kept b x [none] := .put b (by rfl) (skips x)

/-- Characters that are no part of placeholders may become others that are not. -/
theorem replace (hx : ∀ c ∈ x, isLoose c) (hv : ∀ e ∈ v, isBreak e) (b : Bool) : Kept b x v := by
  induction v generalizing b with
  | nil =>
    induction x generalizing b with
    | nil => exact .nil b
    | cons c x ih =>
      obtain ⟨hc, hx⟩ := List.forall_mem_cons.1 hx
      exact .drop b hc (ih hx true)
  | cons e v ih =>
    obtain ⟨he, hv⟩ := List.forall_mem_cons.1 hv
    exact .put b he (ih hv true)

/-- Anything may become characters that are no part of placeholders. -/
theorem breaks (hv : ∀ e ∈ v, isBreak e) : Kept true x v := by
  induction v with
  | nil => exact skips x
  | cons e v ih =>
    obtain ⟨he, hv⟩ := List.forall_mem_cons.1 hv
    exact .put true he (ih hv)

theorem then_gap (h : Kept b x v) (y : Text) : Kept b (x ++ y) (v ++ [none]) := h.append (gap false y)

end Kept

/-! ## Tokens -/

namespace InlineToken

mutual

/-- What a token spells. -/
def spelled : InlineToken → Spelled
  | .text value | .special value => value.map some
  | .image _ alternative => none :: (spelledAll alternative ++ [none])
  | .lineBreak | .code _ | .opening _ | .closing _ => [none]

/-- What some tokens spell. -/
def spelledAll : List InlineToken → Spelled
  | [] => []
  | token :: tokens => spelled token ++ spelledAll tokens

end

variable {ts us : List InlineToken} {token : InlineToken}

@[simp] theorem spelledAll_nil : spelledAll [] = [] := by rw [spelledAll]

@[simp] theorem spelledAll_cons (token : InlineToken) (ts : List InlineToken) :
    spelledAll (token :: ts) = token.spelled ++ spelledAll ts := by rw [spelledAll]

@[simp] theorem spelledAll_append (ts us : List InlineToken) : spelledAll (ts ++ us) = spelledAll ts ++ spelledAll us := by
  induction ts with
  | nil => rw [List.nil_append, spelledAll_nil, List.nil_append]
  | cons t ts ih => rw [List.cons_append, spelledAll_cons, spelledAll_cons, ih, List.append_assoc]

@[simp] theorem spelled_text (v : Text) : (text v).spelled = v.map some := by rw [spelled]

@[simp] theorem spelled_special (v : Text) : (special v).spelled = v.map some := by rw [spelled]

@[simp] theorem spelledAll_consText (token : InlineToken) (ts : List InlineToken) :
    spelledAll (consText token ts) = token.spelled ++ spelledAll ts := by
  unfold consText
  split
  · rw [spelledAll_cons, spelledAll_cons, spelled_text, spelled_text, spelled_text, List.map_append, List.append_assoc]
  · rw [spelledAll_cons]

theorem spelledAll_joinTexts (ts : List InlineToken) : spelledAll (joinTexts ts) = spelledAll ts := by
  induction ts with
  | nil => rfl
  | cons t ts ih =>
    rw [joinTexts, List.foldr_cons, spelledAll_consText, spelledAll_cons]
    exact congrArg _ ih

mutual

theorem spelled_joinInside : ∀ token : InlineToken, token.joinInside.spelled = token.spelled
  | .image _ alternative => by rw [joinInside, spelled, spelled, spelled_joinAll alternative]
  | .special value => by rw [joinInside, spelled, spelled]
  | .text _ | .lineBreak | .code _ | .opening _ | .closing _ => by rw [joinInside] <;> exact nofun

/-- Joining texts leaves what is spelled. -/
theorem spelled_joinAll : ∀ tokens : List InlineToken, spelledAll (joinAll tokens) = spelledAll tokens
  | [] => by rw [joinAll]
  | token :: tokens => by
    rw [joinAll, spelledAll_consText, spelled_joinInside token, spelled_joinAll tokens, spelledAll_cons]

end

end InlineToken

/-! ## Placeholders that a document writes -/

namespace Content

/-- A text may write a placeholder with the private characters, or with one of the codes for characters. -/
theorem mayWritePlaceholders_iff {t : Text} : mayWritePlaceholders t ↔
    openPlace ∈ t ∨ '&' ∈ t ∨ '%' ∈ t ∨ Punycode.mark <:+: t := by
  rw [mayWritePlaceholders, Bool.or_eq_true, List.any_eq_true, Text.has_iff (by decide)]
  simp only [Bool.or_eq_true, decide_eq_true_eq]
  constructor
  · rintro (⟨c, hc, (rfl | rfl) | rfl⟩ | h)
    · exact .inl hc
    · exact .inr (.inl hc)
    · exact .inr (.inr (.inl hc))
    · exact .inr (.inr (.inr h))
  · rintro (hc | hc | hc | h)
    · exact .inl ⟨_, hc, .inl (.inl rfl)⟩
    · exact .inl ⟨_, hc, .inl (.inr rfl)⟩
    · exact .inl ⟨_, hc, .inr rfl⟩
    · exact .inr h

end Content
end Narration.Markup
