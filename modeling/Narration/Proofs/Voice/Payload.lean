import Narration.Proofs.Markup.Braces
import Narration.Proofs.Text.Lines
import Narration.Voice.Payload

/-!
# Literals and the extent of a payload

* `Voice.Inside` : what stands between double quotes on one line;
* `Voice.Literal` : strings, braces that close, blanks and signs between them;
* `Voice.Literal.passive` : a literal leaves braces as they are;
* `Voice.Literal.broken` : a literal with other line ends;
* `Voice.quoteChar_cases`, `Voice.inside_quoteChar` : how a character is written in a string;
* `Voice.payload_cons` : the layout of a payload;
* `Voice.literal_payload`, `Voice.notMem_payload` : it is a literal; what does not stand in it.
-/

namespace Narration.Voice

/-- What stands between double quotes on one line; no brace is escaped. -/
inductive Inside : Text → Prop
  | nil : Inside []
  | plain {c : Char} {t : Text} : c ≠ '"' → c ≠ '\\' → c ≠ '\n' → Inside t → Inside (c :: t)
  | escape {c : Char} {t : Text} : c ≠ '\x7b' → c ≠ '\n' → Inside t → Inside ('\\' :: c :: t)

/-- The blanks and signs between strings and braces. -/
def isSeparator (c : Char) : Bool := [' ', '\n', '\r', ',', ':', '[', ']'].contains c

/-- Strings, braces that close, and what separates them. -/
inductive Literal : Text → Prop
  | nil : Literal []
  | sign {c : Char} {t : Text} : isSeparator c → Literal t → Literal (c :: t)
  | string {s t : Text} : Inside s → Literal t → Literal ('"' :: (s ++ '"' :: t))
  | braces {s t : Text} : Literal s → Literal t → Literal ('\x7b' :: (s ++ '\x7d' :: t))

variable {c : Char} {s t u newline : Text}

/-! ## Strings -/

theorem Inside.append (hs : Inside s) (ht : Inside t) : Inside (s ++ t) := by
  induction hs with
  | nil => exact ht
  | plain hquote hslash hline _ ih => exact .plain hquote hslash hline ih
  | escape hbrace hline _ ih => exact .escape hbrace hline ih

theorem Inside.newline_notMem (h : Inside s) : '\n' ∉ s := by
  induction h with
  | nil => exact List.not_mem_nil
  | plain _ _ hline _ ih => simp [Ne.symm hline, ih]
  | escape _ hline _ ih => simp [Ne.symm hline, ih]

theorem inside_of_all (h : ∀ c ∈ s, c ≠ '"' ∧ c ≠ '\\' ∧ c ≠ '\n') : Inside s := by
  induction s with
  | nil => exact .nil
  | cons c s ih =>
    obtain ⟨hquote, hslash, hline⟩ := h c List.mem_cons_self
    exact .plain hquote hslash hline (ih fun d hd => h d (List.mem_cons_of_mem c hd))

theorem Inside.tail (h : Inside (c :: t)) (hc : c ≠ '\\') : Inside t := by
  cases h with
  | plain _ _ _ ht => exact ht
  | escape _ _ _ => exact absurd rfl hc

/-- What follows some characters without a backslash. -/
theorem Inside.rest (h : Inside (s ++ t)) (hs : '\\' ∉ s) : Inside t := by
  induction s with
  | nil => exact h
  | cons c s ih =>
    rw [List.mem_cons, not_or] at hs
    exact ih (h.tail (Ne.symm hs.1)) hs.2

/-- The string ends at the quote. -/
theorem Inside.stringTail? (h : Inside s) (t : Text) : Braces.stringTail? '"' (s ++ '"' :: t) = some (s.length + 1) := by
  induction h with
  | nil => rfl
  | @plain c s hquote hslash hline _ ih =>
    have hopen : ¬(decide (c = '\n') && decide ('"' ≠ '\x60')) := by simp [hline]
    rw [List.cons_append, Braces.stringTail?_cons hslash, if_neg hquote, if_neg hopen, ih]
    rfl
  | escape _ _ _ ih =>
    rw [List.cons_append, List.cons_append, Braces.stringTail?_escape, ih]
    rfl

/-! ## Literals -/

theorem Literal.append (hs : Literal s) (ht : Literal t) : Literal (s ++ t) := by
  induction hs with
  | nil => exact ht
  | sign hc _ ih => exact .sign hc ih
  | string hinside _ ih =>
    rw [List.cons_append, List.append_assoc, List.cons_append]
    exact .string hinside ih
  | braces hbody _ _ ih =>
    rw [List.cons_append, List.append_assoc, List.cons_append]
    exact .braces hbody ih

theorem literal_of_all (h : ∀ c ∈ s, isSeparator c) : Literal s := by
  induction s with
  | nil => exact .nil
  | cons c s ih => exact .sign (h c List.mem_cons_self) (ih fun d hd => h d (List.mem_cons_of_mem c hd))

theorem Literal.passive (h : Literal s) : Braces.Passive s := by
  induction h with
  | nil => exact Braces.passive_nil
  | @sign c t hc _ ih =>
    refine Braces.Passive.append (u := [c]) (Braces.passive_of_all ?_) ih
    have hsigns : ∀ d ∈ [' ', '\n', '\r', ',', ':', '[', ']'],
        Braces.isQuote d = false ∧ d ≠ '\x7b' ∧ d ≠ '\x7d' ∧ d ≠ '/' := by decide
    simpa using hsigns _ (List.contains_iff_mem.1 hc)
  | @string s t hinside _ ih =>
    have hstring : Braces.Passive ('"' :: (s ++ ['"'])) := by
      refine Braces.passive_string rfl fun t => ?_
      rw [List.append_assoc, List.singleton_append, hinside.stringTail? t, List.length_append, List.length_singleton]
    have hall := hstring.append ih
    simpa using hall
  | braces _ _ ih ih' =>
    have hbraces := ih.braces.append ih'
    simpa using hbraces

/-- A literal with other line ends. -/
theorem Literal.broken (h : Literal s) (hn : ∀ c ∈ newline, isSeparator c) : Literal (Text.broken newline s) := by
  induction h with
  | nil => exact .nil
  | @sign c t hc _ ih =>
    by_cases hline : c = '\n'
    · subst hline
      rw [Text.broken_newline]
      exact (literal_of_all hn).append ih
    · rw [Text.broken_cons newline hline]
      exact .sign hc ih
  | string hinside _ ih =>
    rw [Text.broken_cons newline (by decide), Text.broken_append, Text.broken_of_notMem newline hinside.newline_notMem,
      Text.broken_cons newline (by decide)]
    exact .string hinside ih
  | braces _ _ ih ih' =>
    rw [Text.broken_cons newline (by decide), Text.broken_append, Text.broken_cons newline (by decide)]
    exact .braces ih ih'

end Narration.Voice

namespace Narration.Voice

variable {c d : Char} {t : Text} {v w : Voice} {voices : List Voice}

/-- A character is written as an escape of one letter, as an escape of its number, or as itself. -/
theorem quoteChar_cases (c : Char) :
    (∃ d, quoteChar c = ['\\', d] ∧ Json.escape? d = some c ∧ d ∈ ['"', '\\', 'n', 'r', 't', 'b', 'f']) ∨
    (c.toNat < 0x20 ∧ quoteChar c = ['\\', 'u'] ++ Text.hexadecimal 4 c.toNat) ∨
    (quoteChar c = [c] ∧ c ≠ '"' ∧ c ≠ '\\' ∧ 0x20 ≤ c.toNat) := by
  unfold quoteChar
  split
  case h_8 hquote hslash _ _ _ _ _ =>
    split
    · next hlt => exact .inr (.inl ⟨hlt, rfl⟩)
    · next hle => exact .inr (.inr ⟨rfl, hquote, hslash, Nat.le_of_not_lt hle⟩)
  all_goals exact .inl ⟨_, rfl, rfl, by decide⟩

theorem hexadecimal_control : ∀ n < 0x20, (Text.hexadecimal 4 n).length = 4 ∧
    Entity.number? 16 4 (Text.hexadecimal 4 n) = some n ∧ (Text.hexadecimal 4 n).all Char.isAlphanum := by
  decide

theorem ne_of_isAlphanum {c d : Char} (hc : c.isAlphanum) (hd : d.isAlphanum = false) : c ≠ d := by
  rintro rfl
  rw [hc] at hd
  cases hd

/-- A character is written inside a string. -/
theorem inside_quoteChar (c : Char) : Inside (quoteChar c) := by
  rcases quoteChar_cases c with ⟨d, h, -, hd⟩ | ⟨hlt, h⟩ | ⟨h, hquote, hslash, hle⟩
  · have hplain : ∀ d ∈ ['"', '\\', 'n', 'r', 't', 'b', 'f'], d ≠ '\x7b' ∧ d ≠ '\n' := by decide
    obtain ⟨hbrace, hline⟩ := hplain d hd
    rw [h]
    exact .escape hbrace hline .nil
  · obtain ⟨-, -, hdigits⟩ := hexadecimal_control _ hlt
    rw [h]
    refine .escape (by decide) (by decide) (inside_of_all fun d hd => ?_)
    have halnum := List.all_eq_true.1 hdigits d hd
    exact ⟨ne_of_isAlphanum halnum (by decide), ne_of_isAlphanum halnum (by decide), ne_of_isAlphanum halnum (by decide)⟩
  · have hline : c ≠ '\n' := by
      rintro rfl
      revert hle
      decide
    rw [h]
    exact .plain hquote hslash hline .nil

theorem literal_quote (t : Text) : Literal (quote t) := by
  have hinside : Inside (t.flatMap quoteChar) := by
    induction t with
    | nil => exact .nil
    | cons c t ih =>
      rw [List.flatMap_cons]
      exact (inside_quoteChar c).append ih
  exact .string hinside .nil

/-! ## Layout -/

theorem separated_ne_nil {ls : List Text} (h : ls ≠ []) : separated ls ≠ [] := by
  match ls with
  | [] => exact absurd rfl h
  | [l] => simp [separated]
  | l :: k :: ls => simp [separated]

theorem unlines_separated (l k : Text) (ls : List Text) :
    Text.unlines (separated (l :: k :: ls)) = l ++ ',' :: '\n' :: Text.unlines (separated (k :: ls)) := by
  rw [separated, Text.unlines_cons _ (separated_ne_nil (List.cons_ne_nil k ls))]
  · simp
  · simp

/-- A field as it is written. -/
def member (field : Text × Text) : Text := quote field.1 ++ ':' :: ' ' :: quote field.2

/-- A voice as it is written, from brace to brace. -/
def object (v : Voice) : Text :=
  '\x7b' :: '\n' :: Text.unlines (separated (v.fields.map fun field => indented 6 (member field))) ++
    '\n' :: indented 4 ['\x7d']

theorem lines_eq (v : Voice) : v.lines =
    ([indented 4 ['\x7b']] ++ separated (v.fields.map fun field => indented 6 (member field))) ++ [indented 4 ['\x7d']] := rfl

theorem fieldLines_ne_nil (v : Voice) : separated (v.fields.map fun field => indented 6 (member field)) ≠ [] :=
  separated_ne_nil (by simp [fields])

theorem unlines_lines (v : Voice) : Text.unlines v.lines = indented 4 (object v) := by
  rw [lines_eq, Text.unlines_append (by simp) (by simp), Text.unlines_append (by simp) (fieldLines_ne_nil v),
    Text.unlines_singleton, Text.unlines_singleton, object]
  simp [indented]

theorem allLines_ne_nil (v : Voice) (vs : List Voice) : allLines (v :: vs) ≠ [] := by
  cases vs <;> simp [allLines, lines_eq]

theorem unlines_allLines (v w : Voice) (vs : List Voice) : Text.unlines (allLines (v :: w :: vs)) =
    indented 4 (object v) ++ ',' :: '\n' :: Text.unlines (allLines (w :: vs)) := by
  have hlines : allLines (v :: w :: vs) = v.lines.dropLast ++ [indented 4 ['\x7d', ',']] ++ allLines (w :: vs) := rfl
  rw [hlines, lines_eq, List.dropLast_concat, Text.unlines_append (by simp) (allLines_ne_nil w vs),
    Text.unlines_append (by simp) (by simp), Text.unlines_append (by simp) (fieldLines_ne_nil v), Text.unlines_singleton,
    Text.unlines_singleton, object]
  simp [indented]

theorem payload_cons (v : Voice) (vs : List Voice) :
    payload (v :: vs) = '[' :: '\n' :: Text.unlines (allLines (v :: vs)) ++ '\n' :: indented 2 [']'] := by
  rw [payload, if_neg (by simp), Text.unlines_append (by simp) (by simp),
    Text.unlines_append (by simp) (allLines_ne_nil v vs), Text.unlines_singleton, Text.unlines_singleton]
  rfl

/-! ## The payload as a literal -/

theorem Literal.indented {u : Text} (n : Nat) (hu : Literal u) : Literal (indented n u) := by
  refine (literal_of_all fun c hc => ?_).append hu
  rw [List.eq_of_mem_replicate hc]
  decide

theorem literal_member (field : Text × Text) : Literal (member field) :=
  (literal_quote field.1).append (.sign rfl (.sign rfl (literal_quote field.2)))

theorem literal_separated {ls : List Text} (h : ∀ l ∈ ls, Literal l) : Literal (Text.unlines (separated ls)) := by
  match ls with
  | [] => exact .nil
  | [l] =>
    rw [separated, Text.unlines_singleton]
    exact h l List.mem_cons_self
  | l :: k :: ls =>
    rw [unlines_separated]
    exact (h l List.mem_cons_self).append (.sign rfl (.sign rfl (literal_separated fun m hm => h m (List.mem_cons_of_mem l hm))))

theorem literal_object (v : Voice) : Literal (object v) := by
  have hfields : Literal (Text.unlines (separated (v.fields.map fun field => indented 6 (member field)))) := by
    refine literal_separated fun l hl => ?_
    obtain ⟨field, -, rfl⟩ := List.mem_map.1 hl
    exact (literal_member field).indented 6
  have hclose : Literal ('\n' :: indented 4 []) := literal_of_all (by decide)
  have hparts : object v = '\x7b' :: ('\n' :: (Text.unlines (separated (v.fields.map fun field =>
      indented 6 (member field))) ++ '\n' :: indented 4 []) ++ '\x7d' :: []) := by
    simp [object, indented]
  rw [hparts]
  exact .braces (.sign rfl (hfields.append hclose)) .nil

theorem literal_allLines (voices : List Voice) : Literal (Text.unlines (allLines voices)) := by
  match voices with
  | [] => exact .nil
  | [v] =>
    rw [allLines, unlines_lines]
    exact (literal_object v).indented 4
  | v :: w :: vs =>
    rw [unlines_allLines]
    exact ((literal_object v).indented 4).append (.sign rfl (.sign rfl (literal_allLines (w :: vs))))

theorem literal_payload (voices : List Voice) : Literal (payload voices) := by
  cases voices with
  | nil => exact literal_of_all (by decide)
  | cons v vs =>
    have hclose : Literal ('\n' :: indented 2 [']']) := literal_of_all (by decide)
    rw [payload_cons]
    exact .sign rfl (.sign rfl ((literal_allLines (v :: vs)).append hclose))

theorem passive_payload (voices : List Voice) : Braces.Passive (payload voices) := (literal_payload voices).passive

/-! ## Characters of a payload -/

theorem notMem_quote {x : Char} (hsigns : x ∉ ['"', '\\']) (hx : x.isAlphanum = false) (h : x ∉ t ∨ x.toNat < 0x20) :
    x ∉ quote t := by
  simp only [List.mem_cons, List.not_mem_nil, or_false, not_or] at hsigns
  have hchar : ∀ c ∈ t, x ∉ quoteChar c := by
    intro c hc
    rcases quoteChar_cases c with ⟨d, heq, -, hd⟩ | ⟨hlt, heq⟩ | ⟨heq, -, -, hle⟩
    · have hne : x ≠ d := by
        rintro rfl
        simp only [List.mem_cons, List.not_mem_nil, or_false] at hd
        rcases hd with rfl | rfl | rfl | rfl | rfl | rfl | rfl
        · exact hsigns.1 rfl
        · exact hsigns.2 rfl
        all_goals cases hx
      rw [heq]
      simp [hsigns, hne]
    · obtain ⟨-, -, hdigits⟩ := hexadecimal_control _ hlt
      have hu : x ≠ 'u' := by
        rintro rfl
        cases hx
      have hnot : x ∉ Text.hexadecimal 4 c.toNat := fun hmem =>
        ne_of_isAlphanum (List.all_eq_true.1 hdigits x hmem) hx rfl
      rw [heq]
      simp [hsigns, hu, hnot]
    · have hne : x ≠ c := by
        rintro rfl
        rcases h with h | h
        · exact h hc
        · omega
      rw [heq]
      simpa using hne
  have hmap : x ∉ t.flatMap quoteChar := by
    intro hmem
    obtain ⟨c, hc, hmem⟩ := List.mem_flatMap.1 hmem
    exact hchar c hc hmem
  rw [quote]
  simp [hsigns, hmap]

section Characters
variable {x : Char} (hsigns : x ∉ ['"', '\\', ':', ' ', ',', '\n', '[', ']', '\x7b', '\x7d'])
include hsigns

theorem notMem_separated {ls : List Text} (h : ∀ l ∈ ls, x ∉ l) : x ∉ Text.unlines (separated ls) := by
  have hs := hsigns
  simp only [List.mem_cons, List.not_mem_nil, or_false, not_or] at hs
  match ls with
  | [] => exact List.not_mem_nil
  | [l] =>
    rw [separated, Text.unlines_singleton]
    exact h l List.mem_cons_self
  | l :: k :: ls =>
    have hl := h l List.mem_cons_self
    have hrest := notMem_separated fun m hm => h m (List.mem_cons_of_mem l hm)
    rw [unlines_separated]
    simp [hs, hl, hrest]

variable (hx : x.isAlphanum = false)
include hx

theorem notMem_object (h : ∀ field ∈ v.fields, x ∉ field.2 ∨ x.toNat < 0x20) : x ∉ object v := by
  have hs := hsigns
  simp only [List.mem_cons, List.not_mem_nil, or_false, not_or] at hs
  have hquotes : x ∉ ['"', '\\'] := by simp [hs]
  have hkeys : ∀ field ∈ v.fields, x ∉ field.1 := by
    intro field hfield hmem
    have halnum : ∀ k ∈ ["id".toList, "name".toList, "url".toList], ∀ c ∈ k, c.isAlphanum := by decide
    have hkey : field.1 ∈ ["id".toList, "name".toList, "url".toList] := by
      simp only [fields, List.mem_append, List.mem_cons, List.not_mem_nil, or_false] at hfield
      rcases hfield with (rfl | rfl) | hfield
      · exact List.mem_cons_self
      · exact List.mem_cons_of_mem _ List.mem_cons_self
      · split at hfield
        · cases hfield
        · rw [List.mem_singleton.1 hfield]
          exact List.mem_cons_of_mem _ (List.mem_cons_of_mem _ List.mem_cons_self)
    exact ne_of_isAlphanum (halnum _ hkey x hmem) hx rfl
  have hlines : ∀ l ∈ v.fields.map fun field => indented 6 (member field), x ∉ l := by
    intro l hl
    obtain ⟨field, hfield, rfl⟩ := List.mem_map.1 hl
    have hkey := notMem_quote hquotes hx (t := field.1) (.inl (hkeys field hfield))
    have hvalue := notMem_quote hquotes hx (t := field.2) (h field hfield)
    simp [indented, member, hs, hkey, hvalue]
  have hmembers := notMem_separated hsigns hlines
  rw [object]
  generalize Text.unlines (separated (v.fields.map fun field => indented 6 (member field))) = inside at hmembers ⊢
  simp [indented, hs, hmembers]

theorem notMem_payload (h : ∀ v ∈ voices, ∀ field ∈ v.fields, x ∉ field.2 ∨ x.toNat < 0x20) : x ∉ payload voices := by
  have hs := hsigns
  simp only [List.mem_cons, List.not_mem_nil, or_false, not_or] at hs
  have hlines (voices : List Voice) (h : ∀ v ∈ voices, ∀ field ∈ v.fields, x ∉ field.2 ∨ x.toNat < 0x20) :
      x ∉ Text.unlines (allLines voices) := by
    induction voices with
    | nil => exact List.not_mem_nil
    | cons v vs ih =>
      have hv := notMem_object hsigns hx (h v List.mem_cons_self)
      have hrest := ih fun w hw => h w (List.mem_cons_of_mem v hw)
      cases vs with
      | nil =>
        rw [allLines, unlines_lines]
        simp [indented, hs, hv]
      | cons w vs =>
        rw [unlines_allLines]
        simp [indented, hs, hv, hrest]
  cases voices with
  | nil => simp [payload, hs]
  | cons v vs =>
    rw [payload_cons]
    simp [indented, hs, hlines _ h]

end Characters

end Narration.Voice
