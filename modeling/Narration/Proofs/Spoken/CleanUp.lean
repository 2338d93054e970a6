import Mathlib.Data.List.Infix
import Narration.Proofs.Text.Runs
import Narration.Spoken.Cleanup

/-!
# Cleaning up

* `Spoken.Settled` : text without escapes, colons and wide gaps, each comma followed by a space and more;
* `Spoken.Idle` : a pattern that finds nothing in such a text;
* `Spoken.Settled.cleanUp_eq` : cleaning up leaves it as it is;
* `Spoken.substitute_induction` : a text and what a substitution makes of it, match by match;
* `Spoken.Clear` : text in which no comma comes next, blanks apart, after a character of a class;
* `Spoken.Modest` : a pattern whose replacements show no comma first where none was, so that it keeps clear text clear;
* `Spoken.cleanUp_clean` : what no cleaned-up text has.

Each pattern is replaced once, in a fixed order, and what one leaves is seen by those after it only. The run of commas is
replaced whole, so none follows another afterwards; then no comma is left after a colon; and the patterns after these are
modest.
-/

namespace Narration.Spoken
open Text (isBlank Pattern substitute trimStart trimEnd)

/-! ## Text that needs none -/

/-- The characters that patterns begin with. -/
def isMark (c : Char) : Bool := c == '\\' || c == ':' || c == ',' || c == '\n'

/-- Text without escapes and colons, in which a comma is followed by a space and something that is neither a blank nor a
comma, and no three line feeds stand in a row. -/
inductive Settled : Text → Prop
  | nil : Settled []
  | char {c : Char} {t : Text} (hc : isMark c = false) (h : Settled t) : Settled (c :: t)
  | comma {x : Char} {t : Text} (hblank : isBlank x = false) (hcomma : x ≠ ',') (h : Settled (x :: t)) :
      Settled (',' :: ' ' :: x :: t)
  | newline {x : Char} {t : Text} (hx : x ≠ '\n') (h : Settled (x :: t)) : Settled ('\n' :: x :: t)
  | gap {x : Char} {t : Text} (hx : x ≠ '\n') (h : Settled (x :: t)) : Settled ('\n' :: '\n' :: x :: t)

variable {p : Pattern} {c x : Char} {t u : Text}

theorem Settled.append_left (hu : ∀ a ∈ u, isMark a = false) (h : Settled t) : Settled (u ++ t) := by
  induction u with
  | nil => exact h
  | cons a u ih =>
    obtain ⟨ha, hu⟩ := List.forall_mem_cons.1 hu
    exact .char ha (ih hu)

/-- A pattern that finds nothing in settled text. -/
structure Idle (p : Pattern) : Prop where
  char : ∀ c t, isMark c = false → p (c :: t) = none
  comma : ∀ x t, isBlank x = false → x ≠ ',' → p (',' :: ' ' :: x :: t) = none
  newline : ∀ x t, x ≠ '\n' → p ('\n' :: x :: t) = none
  gap : ∀ x t, x ≠ '\n' → p ('\n' :: '\n' :: x :: t) = none

theorem Idle.substitute_eq (hp : Idle p) (h : Settled t) : Text.substitute p t = t := by
  have hstep {c : Char} {t : Text} (hnone : p (c :: t) = none) :
      Text.substituteFrom p 0 (c :: t) = c :: Text.substituteFrom p 0 t := by rw [Text.substituteFrom, hnone]
  rw [Text.substitute]
  induction h with
  | nil => rfl
  | char hc _ ih => rw [hstep (hp.char _ _ hc), ih]
  | comma hblank hcomma _ ih => rw [hstep (hp.comma _ _ hblank hcomma), hstep (hp.char ' ' _ rfl), ih]
  | newline hx _ ih => rw [hstep (hp.newline _ _ hx), ih]
  | gap hx _ ih => rw [hstep (hp.gap _ _ hx), hstep (hp.newline _ _ hx), ih]

theorem isMark_eq_false : isMark c = false ↔ c ≠ '\\' ∧ c ≠ ':' ∧ c ≠ ',' ∧ c ≠ '\n' := by
  simp only [isMark, Bool.or_eq_false_iff, beq_eq_false_iff_ne, and_assoc]

theorem idle_escape : Idle escape? := by
  have hother {c : Char} (t : Text) (hc : c ≠ '\\') : escape? (c :: t) = none := by
    unfold escape?
    split
    · next heq => exact absurd (List.cons.inj heq).1 hc
    · rfl
  exact ⟨fun c t hc => hother t (isMark_eq_false.1 hc).1, fun _ _ _ _ => hother _ (by decide),
    fun _ _ _ => hother _ (by decide), fun _ _ _ => hother _ (by decide)⟩

/-- What stands after a comma, past the space. -/
theorem afterBlanks_space (hx : isBlank x = false) (t : Text) : afterBlanks (' ' :: x :: t) = (1, x :: t) := by
  have hspace : isBlank ' ' = true := by decide
  have hrun : (x :: t).takeWhile isBlank = [] := List.takeWhile_cons_of_neg (by simp [hx])
  rw [afterBlanks, Text.indent, Text.trimStart, List.takeWhile_cons_of_pos hspace, List.dropWhile_cons_of_pos hspace,
    hrun, List.dropWhile_cons_of_neg (by simp [hx])]
  rfl

theorem idle_strayMark : Idle strayMark? := by
  have hother {c : Char} (t : Text) (hc : c ≠ ':' ∧ c ≠ ',') : strayMark? (c :: t) = none :=
    if_neg (by simpa using hc)
  refine ⟨fun c t hc => ?_, fun x t hx hcomma => ?_, fun _ _ _ => hother _ (by decide), fun _ _ _ => hother _ (by decide)⟩
  · obtain ⟨-, hcolon, hcomma, -⟩ := isMark_eq_false.1 hc
    exact hother t ⟨hcolon, hcomma⟩
  · rw [strayMark?, if_pos (.inr rfl), afterBlanks_space hx]
    split
    · next heq => exact absurd (List.cons.inj (Prod.mk.inj heq).2).1 hcomma
    · rfl

theorem idle_commas : Idle commas? := by
  have hother {c : Char} (t : Text) (hc : c ≠ ',') : commas? (c :: t) = none := by
    unfold commas?
    split
    · next heq => exact absurd (List.cons.inj heq).1 hc
    · rfl
  refine ⟨fun c t hc => hother t (isMark_eq_false.1 hc).2.2.1, fun x t hx hcomma => ?_, fun _ _ _ => hother _ (by decide),
    fun _ _ _ => hother _ (by decide)⟩
  have hspace : isBlank ' ' = true := by decide
  have hrun : commaRun 0 0 (' ' :: x :: t) = 0 := by
    rw [commaRun, if_neg (by decide), if_pos hspace, commaRun, if_neg hcomma, if_neg (by simp [hx])]
  rw [commas?, hrun]
  rfl

theorem idle_of_colon {p : Pattern} (hp : ∀ c t, c ≠ ':' → p (c :: t) = none) : Idle p :=
  ⟨fun c t hc => hp c t (isMark_eq_false.1 hc).2.1, fun _ _ _ _ => hp _ _ (by decide), fun _ _ _ => hp _ _ (by decide),
    fun _ _ _ => hp _ _ (by decide)⟩

theorem idle_colonCommas : Idle colonCommas? := idle_of_colon fun c t hc => by
  unfold colonCommas?
  split
  · next heq => exact absurd (List.cons.inj heq).1 hc
  · rfl

theorem idle_colonStop : Idle colonStop? := idle_of_colon fun c t hc => by
  unfold colonStop?
  split
  · next heq => exact absurd (List.cons.inj heq).1 hc
  · rfl

theorem idle_wideGap : Idle wideGap? := by
  have hrun {x : Char} (t : Text) (hx : x ≠ '\n') : (x :: t).takeWhile (· = '\n') = [] :=
    List.takeWhile_cons_of_neg (by simpa using hx)
  refine ⟨fun c t hc => ?_, fun _ _ _ _ => rfl, fun x t hx => ?_, fun x t hx => ?_⟩
  · rw [wideGap?, hrun t (isMark_eq_false.1 hc).2.2.2]
    rfl
  · rw [wideGap?, List.takeWhile_cons_of_pos (by decide), hrun t hx]
    rfl
  · rw [wideGap?, List.takeWhile_cons_of_pos (by decide), List.takeWhile_cons_of_pos (by decide), hrun t hx]
    rfl

/-- Cleaning up leaves settled text between other characters than blanks as it is. -/
theorem Settled.cleanUp_eq (h : Settled t) (hhead : ∀ c ∈ t.head?, isBlank c = false)
    (hlast : ∀ c ∈ t.getLast?, isBlank c = false) : cleanUp t = t := by
  have hstart : Text.trimStart t = t := by
    cases t with
    | nil => rfl
    | cons c t => exact List.dropWhile_cons_of_neg (by simp [hhead c rfl])
  simp only [cleanUp, List.foldl_cons, List.foldl_nil, idle_escape.substitute_eq h, idle_strayMark.substitute_eq h,
    idle_commas.substitute_eq h, idle_colonCommas.substitute_eq h, idle_colonStop.substitute_eq h,
    idle_wideGap.substitute_eq h, Text.trim, hstart, Text.trimEnd_eq_self hlast]

variable {v new out : Text} {n : Nat}

/-! ## One substitution -/

theorem substituteFrom_eq (p : Pattern) (t : Text) (n : Nat) : Text.substituteFrom p n t = substitute p (t.drop n) := by
  induction t generalizing n with
  | nil => rw [List.drop_nil, substitute, Text.substituteFrom, Text.substituteFrom]
  | cons c t ih =>
    cases n with
    | zero => rfl
    | succ n => rw [Text.substituteFrom, ih, List.drop_succ_cons]

/-- A text and what a substitution makes of it, match by match. -/
theorem substitute_induction {motive : Text → Text → Prop} (nil : motive [] [])
    (keep : ∀ c t, p (c :: t) = none → motive t (substitute p t) → motive (c :: t) (c :: substitute p t))
    (replace : ∀ c t n new, p (c :: t) = some (n, new) → motive (t.drop (n - 1)) (substitute p (t.drop (n - 1))) →
      motive (c :: t) (new ++ substitute p (t.drop (n - 1)))) (t : Text) : motive t (substitute p t) := by
  induction hlength : t.length using Nat.strong_induction_on generalizing t with
  | h length ih =>
    cases t with
    | nil => exact nil
    | cons c t =>
      subst hlength
      rw [substitute, Text.substituteFrom]
      split
      · next n new heq =>
        rw [substituteFrom_eq]
        exact replace c t n new heq (ih _ (by simp only [List.length_drop, List.length_cons]; omega) _ rfl)
      · next heq => exact keep c t heq (ih _ (Nat.lt_succ_self _) t rfl)

/-! ## No comma after a colon or comma -/

/-- The first character of a text that is not blank. -/
def lead (t : Text) : Option Char := (trimStart t).head?

theorem lead_blanks (hu : ∀ a ∈ u, isBlank a) (t : Text) : lead (u ++ t) = lead t := by
  rw [lead, trimStart, List.dropWhile_append_of_pos hu, ← trimStart, lead]

theorem lead_blank (hc : isBlank c) (t : Text) : lead (c :: t) = lead t := lead_blanks (u := [c]) (by simpa using hc) t

theorem lead_mark (hc : isBlank c = false) (t : Text) : lead (c :: t) = some c := by
  rw [lead, trimStart, List.dropWhile_cons_of_neg (by simp [hc]), List.head?_cons]

theorem lead_trimStart (t : Text) : lead (trimStart t) = lead t := by
  calc lead (trimStart t) = lead (t.takeWhile isBlank ++ trimStart t) :=
        (lead_blanks (fun _ ha => List.mem_takeWhile_imp ha) _).symm
    _ = lead t := by rw [trimStart, List.takeWhile_append_dropWhile]

/-- A text goes on with a comma if its front does. -/
theorem lead_append (h : lead u = some c) (v : Text) : lead (u ++ v) = some c := by
  have hu : Text.allBlank u = false := by
    rw [← Bool.not_eq_true]
    intro hall
    rw [lead, trimStart, Text.dropWhile_all (List.all_eq_true.1 hall)] at h
    cases h
  rw [lead, Text.trimStart_append_of_not_allBlank hu, List.head?_append, ← lead, h, Option.some_or]

/-- No comma comes next, blanks apart, after a character of a class. -/
def Clear (m : Char → Prop) (t : Text) : Prop := ∀ c v, c :: v <:+ t → m c → lead v ≠ some ','

variable {m m' : Char → Prop}

theorem clear_nil : Clear m [] := fun c v h => by simp at h

theorem clear_cons : Clear m (c :: t) ↔ (m c → lead t ≠ some ',') ∧ Clear m t := by
  refine ⟨fun h => ⟨h c t List.suffix_rfl, fun d v hv => h d v (hv.trans (List.suffix_cons c t))⟩, fun ⟨hc, ht⟩ d v hv => ?_⟩
  rcases List.suffix_cons_iff.1 hv with heq | hv
  · obtain ⟨rfl, rfl⟩ := List.cons.inj heq
    exact hc
  · exact ht d v hv

theorem Clear.suffix (h : Clear m t) (hu : u <:+ t) : Clear m u := fun c v hv => h c v (hv.trans hu)

theorem Clear.before (h : Clear m (u ++ v)) : Clear m u := fun c w hw hc hlead => by
  have hafter : c :: (w ++ v) <:+ u ++ v := by
    obtain ⟨x, rfl⟩ := hw
    exact ⟨x, by simp⟩
  exact h c _ hafter hc (lead_append hlead v)

/-- A pattern whose replacements show no comma first where none was. -/
def Modest (p : Pattern) : Prop :=
  ∀ {c t n new out}, p (c :: t) = some (n, new) → (lead out = some ',' → lead (t.drop (n - 1)) = some ',') →
    lead (new ++ out) = some ',' → lead (c :: t) = some ','

theorem Modest.lead_substitute (hp : Modest p) (t : Text) : lead (substitute p t) = some ',' → lead t = some ',' := by
  induction t using substitute_induction (p := p) with
  | nil => exact id
  | keep c t _ ih =>
    cases hc : isBlank c with
    | true => rwa [lead_blank hc, lead_blank hc]
    | false => rw [lead_mark hc, lead_mark hc]; exact id
  | replace c t n new hmatch ih => exact hp hmatch ih

/-! ### Commas -/

/-- Past a run of commas there is no further one; `u` is what was passed, blank after its last comma. -/
theorem lead_drop_commaRun {last : Nat} (hlast : last ≤ u.length) (hu : ∀ a ∈ u.drop last, isBlank a) (t : Text) :
    lead ((u ++ t).drop (commaRun u.length last t)) ≠ some ',' := by
  induction t generalizing u last with
  | nil =>
    rw [commaRun, List.append_nil, lead, trimStart, Text.dropWhile_all hu]
    nofun
  | cons c t ih =>
    have hnext : (u ++ [c]).length = u.length + 1 := List.length_append
    rw [commaRun, List.append_cons]
    split
    · rw [← hnext]
      exact ih (Nat.le_refl _) (by rw [List.drop_length]; nofun)
    · next hcomma =>
      split
      · next hblank =>
        rw [← hnext]
        refine ih (by omega) fun a ha => ?_
        rw [List.drop_append_of_le_length hlast, List.mem_append, List.mem_singleton] at ha
        rcases ha with ha | rfl
        · exact hu a ha
        · exact hblank
      · next hblank =>
        rw [← List.append_cons, List.drop_append_of_le_length hlast, lead_blanks hu, lead_mark (by simpa using hblank)]
        simpa using hcomma

theorem lead_drop_commas (t : Text) : lead (t.drop (commaRun 0 0 t)) ≠ some ',' :=
  lead_drop_commaRun (u := []) (Nat.le_refl 0) nofun t

theorem commas?_eq_some (h : commas? (c :: t) = some (n, new)) : c = ',' ∧ n = commaRun 0 0 t + 1 ∧ new = [','] := by
  unfold commas? at h
  split at h
  · next heq =>
    obtain ⟨rfl, rfl⟩ := List.cons.inj heq
    simp only [Option.ite_none_left_eq_some, Option.some.injEq, Prod.mk.injEq] at h
    exact ⟨rfl, h.2.1.symm, h.2.2.symm⟩
  · cases h

theorem lead_of_commas?_eq_none (h : commas? (',' :: t) = none) : lead t ≠ some ',' := by
  have hrun : commaRun 0 0 t = 0 := by
    by_contra hrun
    simp [commas?, hrun] at h
  simpa [hrun] using lead_drop_commas t

theorem modest_commas : Modest commas? := fun hmatch _ _ => by
  obtain ⟨rfl, -, -⟩ := commas?_eq_some hmatch
  exact lead_mark (by decide) _

/-- Of a run of commas one is left. -/
theorem clear_substitute_commas (t : Text) : Clear (· = ',') (substitute commas? t) := by
  induction t using substitute_induction (p := commas?) with
  | nil => exact clear_nil
  | keep c t hnone ih =>
    refine clear_cons.2 ⟨?_, ih⟩
    rintro rfl hlead
    exact lead_of_commas?_eq_none hnone (modest_commas.lead_substitute t hlead)
  | replace c t n new hmatch ih =>
    obtain ⟨-, rfl, rfl⟩ := commas?_eq_some hmatch
    exact clear_cons.2 ⟨fun _ hlead => lead_drop_commas t (modest_commas.lead_substitute _ hlead), ih⟩

/-! ### Colons -/

theorem drop_takeWhile (q : Char → Bool) (t : Text) : t.drop (t.takeWhile q).length = t.dropWhile q := by
  calc t.drop (t.takeWhile q).length = (t.takeWhile q ++ t.dropWhile q).drop (t.takeWhile q).length := by
        rw [List.takeWhile_append_dropWhile]
    _ = t.dropWhile q := List.drop_left

theorem colonCommas?_eq_some (h : colonCommas? (c :: t) = some (n, new)) : c = ':' ∧ new = [':', ' '] ∧
    ∃ rest, trimStart t = ',' :: rest ∧ t.drop (n - 1) = trimStart (rest.dropWhile (· = ',')) := by
  unfold colonCommas? at h
  split at h
  · next t heq =>
    obtain ⟨rfl, rfl⟩ := List.cons.inj heq
    simp only [afterBlanks, List.length_eq_zero_iff, Option.ite_none_left_eq_some, Option.some.injEq, Prod.mk.injEq] at h
    obtain ⟨hrun, rfl, rfl⟩ := h
    refine ⟨rfl, rfl, ?_⟩
    obtain ⟨d, rest, hrest⟩ := List.exists_cons_of_ne_nil fun hnil : trimStart t = [] => hrun (by rw [hnil]; rfl)
    have hd : d = ',' := by
      by_contra hd
      exact hrun (by rw [hrest, List.takeWhile_cons_of_neg (by simpa using hd)])
    subst hd
    refine ⟨rest, hrest, ?_⟩
    have hdrop : (trimStart t).drop ((trimStart t).takeWhile (· = ',')).length = rest.dropWhile (· = ',') := by
      rw [hrest, List.takeWhile_cons_of_pos (by decide), List.length_cons, List.drop_succ_cons, drop_takeWhile]
    rw [← hdrop, ← Text.drop_indent (List.drop _ _), ← Text.drop_indent t, List.drop_drop, List.drop_drop]
    congr 1
    omega
  · cases h

theorem lead_of_colonCommas?_eq_none (h : colonCommas? (':' :: t) = none) : lead t ≠ some ',' := fun hlead => by
  obtain ⟨rest, hrest⟩ := List.head?_eq_some_iff.1 hlead
  simp [colonCommas?, afterBlanks, hrest] at h

theorem modest_colonCommas : Modest colonCommas? := fun hmatch _ hlead => by
  obtain ⟨-, rfl, -⟩ := colonCommas?_eq_some hmatch
  rw [List.cons_append, lead_mark (by decide)] at hlead
  cases hlead

/-- What follows a comma that no comma follows, past any more commas. -/
theorem Clear.lead_dropWhile (h : Clear (· = ',') (',' :: t)) : lead (t.dropWhile (· = ',')) ≠ some ',' := by
  have hlead := (clear_cons.1 h).1 rfl
  cases t with
  | nil => exact hlead
  | cons c t =>
    have hc : c ≠ ',' := fun hc => hlead (by rw [hc, lead_mark (by decide)])
    rwa [List.dropWhile_cons_of_neg (by simpa using hc)]

/-- Where no comma follows a comma, none is left after a colon either. -/
theorem Clear.substitute_colonCommas (h : Clear (· = ',') t) :
    Clear (fun c => c = ':' ∨ c = ',') (substitute colonCommas? t) := by
  induction t using substitute_induction (p := colonCommas?) with
  | nil => exact clear_nil
  | keep c t hnone ih =>
    obtain ⟨hlead, ht⟩ := clear_cons.1 h
    refine clear_cons.2 ⟨?_, ih ht⟩
    rintro (rfl | rfl) hout
    · exact lead_of_colonCommas?_eq_none hnone (modest_colonCommas.lead_substitute t hout)
    · exact hlead rfl (modest_colonCommas.lead_substitute t hout)
  | replace c t n new hmatch ih =>
    obtain ⟨rfl, rfl, rest, hrest, hdrop⟩ := colonCommas?_eq_some hmatch
    have ht := (clear_cons.1 h).2
    have hcomma : Clear (· = ',') (',' :: rest) := hrest ▸ ht.suffix (List.dropWhile_suffix isBlank)
    refine clear_cons.2 ⟨fun _ hout => ?_, clear_cons.2 ⟨fun hspace => absurd hspace (by decide), ?_⟩⟩
    · have hlead := modest_colonCommas.lead_substitute _ ((lead_blank (by decide) _).symm.trans hout)
      rw [hdrop, lead_trimStart] at hlead
      exact hcomma.lead_dropWhile hlead
    · exact ih (ht.suffix (List.drop_suffix _ _))

/-! ### Stops and gaps -/

theorem colonStop?_eq_some (h : colonStop? (c :: t) = some (n, new)) : new = ['.'] := by
  unfold colonStop? at h
  split at h
  · split at h
    · exact (Prod.mk.inj (Option.some.inj h)).2.symm
    · cases h
  · cases h

theorem modest_colonStop : Modest colonStop? := fun hmatch _ hlead => by
  rw [colonStop?_eq_some hmatch, List.cons_append, lead_mark (by decide)] at hlead
  cases hlead

/-- The number of line feeds at the front of a text. -/
def feeds (t : Text) : Nat := (t.takeWhile (· = '\n')).length

theorem wideGap?_eq (t : Text) : wideGap? t = if feeds t < 3 then none else some (feeds t, ['\n', '\n']) := rfl

/-- Three or more line feeds, all that stand there. -/
theorem wideGap?_eq_some (h : wideGap? (c :: t) = some (n, new)) : c = '\n' ∧ new = ['\n', '\n'] ∧
    3 ≤ feeds (c :: t) ∧ t.drop (n - 1) = t.dropWhile (· = '\n') := by
  rw [wideGap?_eq, Option.ite_none_left_eq_some, Option.some.injEq, Prod.mk.injEq] at h
  obtain ⟨hmany, rfl, rfl⟩ := h
  have hc : c = '\n' := by
    by_contra hc
    exact hmany (by rw [feeds, List.takeWhile_cons_of_neg (by simpa using hc)]; decide)
  refine ⟨hc, rfl, Nat.le_of_not_lt hmany, ?_⟩
  rw [feeds, List.takeWhile_cons_of_pos (by simpa using hc), List.length_cons, Nat.add_sub_cancel, drop_takeWhile]

theorem modest_wideGap : Modest wideGap? := fun {c t n new out} hmatch hout hlead => by
  obtain ⟨rfl, rfl, -, hdrop⟩ := wideGap?_eq_some hmatch
  have hblank : isBlank '\n' = true := by decide
  rw [hdrop] at hout
  have hrest : lead (t.dropWhile (· = '\n')) = some ',' := hout (by rwa [lead_blanks (by simp [hblank])] at hlead)
  rw [lead_blank hblank, ← List.takeWhile_append_dropWhile (p := (· = '\n')) (l := t), lead_blanks fun a ha => ?_, hrest]
  have ha : a = '\n' := by simpa using List.mem_takeWhile_imp ha
  rw [ha, hblank]

/-- A modest pattern that puts in no character of the class leaves a clear text clear. -/
theorem Clear.substitute (h : Clear m t) (hp : Modest p)
    (hnew : ∀ c t n new, p (c :: t) = some (n, new) → ∀ a ∈ new, ¬m a) : Clear m (substitute p t) := by
  induction t using substitute_induction (p := p) with
  | nil => exact clear_nil
  | keep c t _ ih =>
    obtain ⟨hlead, ht⟩ := clear_cons.1 h
    exact clear_cons.2 ⟨fun hc hout => hlead hc (hp.lead_substitute t hout), ih ht⟩
  | replace c t n new hmatch ih =>
    have hout := ih ((clear_cons.1 h).2.suffix (List.drop_suffix _ _))
    have hnew := hnew c t n new hmatch
    clear ih hmatch
    induction new with
    | nil => exact hout
    | cons a new ihnew =>
      obtain ⟨ha, hnew⟩ := List.forall_mem_cons.1 hnew
      exact clear_cons.2 ⟨fun hm => absurd hm ha, ihnew hnew⟩

theorem Clear.trim (h : Clear m t) : Clear m (Text.trim t) := by
  obtain ⟨before, after, ht, -⟩ := Text.exists_trim t
  rw [ht, List.append_assoc] at h
  exact (h.suffix (List.suffix_append _ _)).before

/-! ## No wide gap -/

theorem feeds_newline (t : Text) : feeds ('\n' :: t) = feeds t + 1 := by
  rw [feeds, List.takeWhile_cons_of_pos (by decide), List.length_cons, feeds]

theorem feeds_of_ne (hc : c ≠ '\n') (t : Text) : feeds (c :: t) = 0 := by
  rw [feeds, List.takeWhile_cons_of_neg (by simpa using hc), List.length_nil]

theorem feeds_dropWhile (t : Text) : feeds (t.dropWhile (· = '\n')) = 0 := by
  obtain ⟨u, v, rfl, hu, rfl | ⟨c, v, rfl, hc⟩⟩ := Text.exists_run (· = '\n') t
  · rw [List.append_nil, Text.dropWhile_all hu]
    rfl
  · rw [Text.dropWhile_run hu hc, feeds_of_ne (by simpa using hc)]

/-- Where line feeds are replaced none are added, and nowhere are more than two left in a row. -/
theorem feeds_substitute_wideGap (t : Text) :
    feeds (substitute wideGap? t) ≤ feeds t ∧ ∀ v, v <:+ substitute wideGap? t → feeds v ≤ 2 := by
  have hcons {c : Char} {t : Text} (hfew : feeds (c :: t) ≤ 2) (ht : ∀ v, v <:+ t → feeds v ≤ 2) (v : Text)
      (hv : v <:+ c :: t) : feeds v ≤ 2 := by
    rcases List.suffix_cons_iff.1 hv with rfl | hv
    · exact hfew
    · exact ht v hv
  induction t using substitute_induction (p := wideGap?) with
  | nil => exact ⟨Nat.le_refl _, fun v hv => by rw [List.suffix_nil.1 hv]; decide⟩
  | keep c t hnone ih =>
    have hfew : feeds (c :: t) < 3 := by
      by_contra hmany
      rw [wideGap?_eq, if_neg hmany] at hnone
      cases hnone
    have hle : feeds (c :: substitute wideGap? t) ≤ feeds (c :: t) := by
      by_cases hc : c = '\n'
      · rw [hc, feeds_newline, feeds_newline]
        exact Nat.succ_le_succ ih.1
      · rw [feeds_of_ne hc, feeds_of_ne hc]
    exact ⟨hle, hcons (by omega) ih.2⟩
  | replace c t n new hmatch ih =>
    obtain ⟨rfl, rfl, hmany, hdrop⟩ := wideGap?_eq_some hmatch
    rw [hdrop, feeds_dropWhile] at ih
    rw [hdrop]
    have hone : feeds ('\n' :: substitute wideGap? (t.dropWhile (· = '\n'))) ≤ 1 := by
      rw [feeds_newline]
      exact Nat.succ_le_succ ih.1
    have htwo : feeds ('\n' :: '\n' :: substitute wideGap? (t.dropWhile (· = '\n'))) ≤ 2 := by
      rw [feeds_newline]
      exact Nat.succ_le_succ hone
    exact ⟨Nat.le_trans htwo (Nat.le_of_succ_le hmany), hcons htwo (hcons (Nat.le_succ_of_le hone) ih.2)⟩

/-! ## The cleaned-up text -/

theorem isBlank_of_head?_trim (h : c ∈ (Text.trim t).head?) : isBlank c = false := by
  have hstart := Text.head?_of_trimEnd h
  have hnot := List.head?_dropWhile_not isBlank t
  rw [show (t.dropWhile isBlank).head? = some c from hstart] at hnot
  exact hnot

theorem isBlank_of_getLast?_trim (h : c ∈ (Text.trim t).getLast?) : isBlank c = false := by
  rw [Text.trim, trimEnd, Text.dropEndWhile, List.getLast?_reverse] at h
  have hnot := List.head?_dropWhile_not isBlank (trimStart t).reverse
  rw [h] at hnot
  exact hnot

/-- In a cleaned-up text no comma follows a colon or comma, blanks between them or not, no three line feeds stand in a
row, and neither the first nor the last character is a blank. -/
theorem cleanUp_clean (t : Text) :
    (∀ c gap, c = ':' ∨ c = ',' → (∀ a ∈ gap, isBlank a) → ¬c :: gap ++ [','] <:+: cleanUp t) ∧
      ¬['\n', '\n', '\n'] <:+: cleanUp t ∧
      (∀ c ∈ (cleanUp t).head?, isBlank c = false) ∧ ∀ c ∈ (cleanUp t).getLast?, isBlank c = false := by
  obtain ⟨marked, hmarked⟩ : ∃ marked, cleanUp t = Text.trim (substitute wideGap? (substitute colonStop?
    (substitute colonCommas? (substitute commas? marked)))) := ⟨_, rfl⟩
  have hclear : Clear (fun c => c = ':' ∨ c = ',') (cleanUp t) := by
    rw [hmarked]
    refine (((clear_substitute_commas marked).substitute_colonCommas.substitute modest_colonStop ?_).substitute modest_wideGap
      ?_).trim
    · intro c t n new hmatch
      rw [colonStop?_eq_some hmatch]
      decide
    · intro c t n new hmatch
      rw [(wideGap?_eq_some hmatch).2.1]
      decide
  refine ⟨fun c gap hc hgap hinfix => ?_, fun hinfix => ?_, fun c => ?_, fun c => ?_⟩
  · obtain ⟨x, y, heq⟩ := hinfix
    have hsuffix : c :: (gap ++ ',' :: y) <:+ cleanUp t := ⟨x, by rw [← heq]; simp⟩
    refine hclear c _ hsuffix hc ?_
    rw [lead_blanks hgap, lead_mark (by decide)]
  · rw [hmarked] at hinfix
    obtain ⟨before, after, htrim, -⟩ := Text.exists_trim (substitute wideGap? (substitute colonStop?
      (substitute colonCommas? (substitute commas? marked))))
    obtain ⟨x, y, heq⟩ := hinfix
    have hsuffix : ['\n', '\n', '\n'] ++ (y ++ after) <:+ substitute wideGap? (substitute colonStop?
      (substitute colonCommas? (substitute commas? marked))) := ⟨before ++ x, by rw [htrim, ← heq]; simp⟩
    have hfew := (feeds_substitute_wideGap _).2 _ hsuffix
    simp only [List.cons_append, List.nil_append, feeds_newline] at hfew
    omega
  · exact isBlank_of_head?_trim
  · exact isBlank_of_getLast?_trim

end Narration.Spoken
