import Mathlib.Data.List.TakeDrop
import Narration.Markup.Tag
import Narration.Proofs.Markup.Outline
import Narration.Proofs.Text.Runs

/-!
# Tags as they are written

* `Tag.Name`, `Tag.Entry` : names and attributes that can be written;
* `Tag.opening`, `Tag.standing` : a tag that opens a component, and one that stands for it;
* `Tag.tail?_entries` : written attributes are read up to the end of the tag;
* `Tag.read?_opening`, `Tag.read?_standing` : a written tag is read as what it is, whatever follows it.
-/

namespace Narration.Tag

/-- A letter or a digit, an underscore, a dot or a hyphen. -/
def isNameChar (c : Char) : Bool := c.isAlphanum || c == '_' || c == '.' || c == '-'

/-- A name of a component: a letter, then such characters. -/
structure Name where
  text : Text
  isName : text.head?.any Char.isAlpha && text.tail.all isNameChar

/-- An attribute without a value or with a quoted one. -/
structure Entry where
  name : Text
  value : Option Text
  isName : name.head?.any (fun c => c.isAlpha || c == '_') && name.tail.all fun c => c.isAlphanum || c == '_' || c == '-'
  isPlain : ∀ v ∈ value, '"' ∉ v ∧ '<' ∉ v ∧ '\r' ∉ v

/-- An attribute without its place. -/
def Entry.attribute (e : Entry) : Attribute := ⟨e.name, e.value.map .literal, none⟩

/-- A value behind its equals sign. -/
def valueText : Option Text → Text
  | none => []
  | some v => '=' :: '"' :: (v ++ ['"'])

/-- Attributes with a space before each. -/
def entriesText (es : List Entry) : Text := es.flatMap fun e => ' ' :: (e.name ++ valueText e.value)

/-- The end of a tag. -/
def finish (selfClosing : Bool) : Text := if selfClosing then [' ', '/', '>'] else ['>']

/-- A tag as it is written. -/
def written (selfClosing : Bool) (name : Name) (es : List Entry) : Text := '<' :: (name.text ++ (entriesText es ++ finish selfClosing))

variable {u t r v : Text} {c d : Char} {o fuel : Nat}

/-! ## Characters -/

theorem isNamePart_of_isNameChar (h : isNameChar c) : isNamePart c := by
  simp only [isNameChar, Bool.or_eq_true, or_assoc] at h
  rw [isNamePart, Bool.or_eq_true, Bool.or_eq_true, or_assoc]
  rcases h with h | h | h
  · exact .inl (Text.isWord_of_isAlphanum (by rw [h, Bool.true_or]))
  · exact .inl (Text.isWord_of_isAlphanum (by rw [h, Bool.or_true]))
  · exact .inr h

theorem isAttributePart_of_isAlphanum (h : c.isAlphanum || c == '_' || c == '-') : isAttributePart c := by
  simp only [Bool.or_eq_true, or_assoc] at h
  simp only [isAttributePart, Bool.or_eq_true]
  rcases h with h | h | h
  · exact .inl (.inl (.inl (.inl (Text.isWord_of_isAlphanum (by rw [h, Bool.true_or])))))
  · exact .inl (.inl (.inl (.inl (Text.isWord_of_isAlphanum (by rw [h, Bool.or_true])))))
  · exact .inr h

/-- A name is a letter and characters that go on with it. -/
theorem Name.exists_cons (name : Name) : ∃ c u, name.text = c :: u ∧ c.isAlpha ∧ ∀ d ∈ u, isNamePart d := by
  obtain ⟨text, h⟩ := name
  cases text with
  | nil => cases h
  | cons c u =>
    rw [List.head?_cons, Option.any_some, List.tail_cons, Bool.and_eq_true] at h
    exact ⟨c, u, rfl, h.1, fun d hd => isNamePart_of_isNameChar (List.all_eq_true.1 h.2 d hd)⟩

theorem Entry.exists_cons (e : Entry) : ∃ c u, e.name = c :: u ∧ isAttributeStart c ∧ ∀ d ∈ u, isAttributePart d := by
  obtain ⟨name, value, h, -⟩ := e
  cases name with
  | nil => cases h
  | cons c u =>
    rw [List.head?_cons, Option.any_some, List.tail_cons, Bool.and_eq_true] at h
    refine ⟨c, u, rfl, ?_, fun d hd => isAttributePart_of_isAlphanum (List.all_eq_true.1 h.2 d hd)⟩
    rw [isAttributeStart, h.1, Bool.true_or]

theorem Name.isNameChar_of_mem (name : Name) (h : d ∈ name.text) : isNameChar d := by
  obtain ⟨text, hname⟩ := name
  cases text with
  | nil => cases h
  | cons c u =>
    rw [List.head?_cons, Option.any_some, List.tail_cons, Bool.and_eq_true] at hname
    rcases List.mem_cons.1 h with rfl | h
    · rw [isNameChar, Char.isAlphanum, hname.1]
      rfl
    · exact List.all_eq_true.1 hname.2 d h

theorem Name.notMem (name : Name) (hd : isNameChar d = false) : d ∉ name.text := fun h => by
  rw [name.isNameChar_of_mem h] at hd
  cases hd

theorem Entry.notMem_name (e : Entry) (hd : isNameChar d = false) : d ∉ e.name := by
  obtain ⟨name, value, hname, -⟩ := e
  cases name with
  | nil => exact List.not_mem_nil
  | cons c u =>
    rw [List.head?_cons, Option.any_some, List.tail_cons, Bool.and_eq_true] at hname
    intro h
    simp only [isNameChar, Bool.or_eq_false_iff] at hd
    obtain ⟨⟨⟨halnum, hunder⟩, -⟩, hhyphen⟩ := hd
    rcases List.mem_cons.1 h with rfl | h
    · rw [Char.isAlphanum, Bool.or_eq_false_iff] at halnum
      rw [halnum.1, hunder] at hname
      cases hname.1
    · have hpart := List.all_eq_true.1 hname.2 d h
      rw [halnum, hunder, hhyphen] at hpart
      cases hpart

theorem isBlank_of_isNameChar (h : isNameChar c) : Text.isBlank c = false := by
  simp only [isNameChar, Bool.or_eq_true, or_assoc] at h
  rcases h with h | h | h | h
  · exact Text.isBlank_of_isAlphanum h
  · rw [beq_iff_eq.1 h]
    rfl
  · rw [beq_iff_eq.1 h]
    rfl
  · rw [beq_iff_eq.1 h]
    rfl

theorem ne_of_isAttributeStart (hc : isAttributeStart c) (hd : isAttributeStart d = false) : c ≠ d := by
  rintro rfl
  rw [hc] at hd
  cases hd

theorem not_isSpace_of_isAttributeStart (hc : isAttributeStart c) : isSpace c = false := by
  have hne (d : Char) (hd : isAttributeStart d = false) : (c == d) = false := beq_false_of_ne (ne_of_isAttributeStart hc hd)
  simp only [isSpace, hne ' ' rfl, hne '\t' rfl, hne '\r' rfl, hne '\n' rfl, Bool.or_false]

/-! ## Attributes -/

theorem spaces_append (hu : ∀ c ∈ u, isSpace c) (t : Text) : spaces (u ++ t) = (u.length + (spaces t).1, (spaces t).2) := by
  rw [spaces, List.takeWhile_append_of_pos hu, List.dropWhile_append_of_pos hu, List.length_append]
  rfl

/-- Blanks before attributes are passed over. -/
theorem tail?_append (hu : ∀ c ∈ u, isSpace c) (closing : Bool) (fuel o : Nat) (t : Text) :
    tail? closing fuel o (u ++ t) = tail? closing fuel (o + u.length) t := by
  cases fuel with
  | zero => rfl
  | succ fuel =>
    rw [tail?, tail?, spaces_append hu]
    simp only [Nat.add_assoc]

theorem tail?_cons (hc : isAttributeStart c) (fuel o : Nat) (t : Text) : tail? false (fuel + 1) o (' ' :: c :: t) =
    (attribute? (o + 1) (c :: t)).bind fun r => (tail? false fuel (o + 1 + r.2) ((c :: t).drop r.2)).map fun tail => tail.cons r.1 := by
  have hspaces : spaces (' ' :: c :: t) = (1, c :: t) := by
    rw [spaces, List.takeWhile_cons_of_pos rfl, List.dropWhile_cons_of_pos rfl,
      List.takeWhile_cons_of_neg (by simp [not_isSpace_of_isAttributeStart hc]),
      List.dropWhile_cons_of_neg (by simp [not_isSpace_of_isAttributeStart hc])]
    rfl
  rw [tail?, hspaces]
  dsimp only
  split
  · next h => cases h
  · next h =>
    cases h
    cases hc
  · next h =>
    cases h
    cases hc
  · simp only [Option.bind_eq_bind, Option.map_eq_bind, Bool.false_eq_true, if_false]
    rfl

theorem attribute?_cons (hc : isAttributeStart c) (hu : ∀ d ∈ u, isAttributePart d) (hr : ∀ d ∈ r.head?, isAttributePart d = false) (o : Nat) :
    attribute? o (c :: (u ++ r)) = match (spaces r).2 with
      | '=' :: rest => (value? (spaces rest).2).map fun value =>
          (⟨c :: u, some value.1, some (o + (u.length + 1 + (spaces r).1 + 1 + (spaces rest).1),
            o + (u.length + 1 + (spaces r).1 + 1 + (spaces rest).1) + value.2)⟩,
            u.length + 1 + (spaces r).1 + 1 + (spaces rest).1 + value.2)
      | _ => some (⟨c :: u, none, none⟩, u.length + 1 + (spaces r).1) := by
  have hname : name? isAttributeStart isAttributePart (c :: (u ++ r)) = some (c :: u, r) := by
    rw [name?, if_pos hc]
    cases r with
    | nil => rw [List.append_nil, Text.takeWhile_all hu, Text.dropWhile_all hu]
    | cons d r => rw [Text.takeWhile_run hu (hr d rfl), Text.dropWhile_run hu (hr d rfl)]
  unfold attribute?
  split
  · next h =>
    cases h
    cases hc
  · rw [hname]
    simp only [Option.bind_eq_bind, Option.bind_some, List.length_cons]
    split <;> simp [*, Option.map_eq_bind] <;> rfl

/-- What follows an attribute, up to the next one or to the end of the tag. -/
structure Continues (rest : Text) : Prop where
  head : ∀ c ∈ rest.head?, isAttributePart c = false
  next : ∀ c ∈ (spaces rest).2.head?, isSpace c = false ∧ c ≠ '='

/-- An attribute is read, and then what follows it. -/
theorem attribute?_entry (e : Entry) (h : Continues r) (o : Nat) : ∃ a n, attribute? o (e.name ++ (valueText e.value ++ r)) = some (a, n) ∧
    a.bare = e.attribute ∧ ∀ fuel, tail? false fuel (o + n) ((e.name ++ (valueText e.value ++ r)).drop n) =
      tail? false fuel (o + (e.name ++ valueText e.value).length) r := by
  obtain ⟨c, u, hname, hc, hu⟩ := e.exists_cons
  obtain ⟨name, value, hisName, hplain⟩ := e
  dsimp only at hname
  subst hname
  cases value with
  | none =>
    obtain ⟨w, z, hspaces, hw, hr⟩ : ∃ w z, spaces r = (w.length, z) ∧ (∀ c ∈ w, isSpace c) ∧ r = w ++ z :=
      ⟨_, _, rfl, fun c hc => List.mem_takeWhile_imp hc, List.takeWhile_append_dropWhile.symm⟩
    have hnext := h.next
    rw [hspaces] at hnext
    refine ⟨⟨c :: u, none, none⟩, u.length + 1 + w.length, ?_, rfl, fun fuel => ?_⟩
    · rw [valueText, List.nil_append, List.cons_append, attribute?_cons hc hu h.head, hspaces]
      dsimp only at hnext ⊢
      split
      · exact absurd rfl (hnext '=' rfl).2
      · rfl
    · have hdrop : (c :: u ++ (w ++ z)).drop (u.length + 1 + w.length) = z := by
        rw [← List.append_assoc]
        exact List.drop_left' (by rw [List.length_append, List.length_cons])
      rw [valueText, List.nil_append, List.append_nil, hr, hdrop, tail?_append hw, List.length_cons, Nat.add_assoc o]
  | some v =>
    have hquote : '"' ∉ v := (hplain v rfl).1
    have hequals : ∀ d ∈ ('=' :: '"' :: (v ++ '"' :: r)).head?, isAttributePart d = false := by
      intro d hd
      cases hd
      decide
    have hvalue : value? ('"' :: (v ++ '"' :: r)) = some (.literal v, v.length + 2) := by
      rw [value?, if_pos (.inl rfl), Text.cut?_append hquote]
      · rfl
      · exact nofun
    have htext : c :: u ++ (valueText (some v) ++ r) = c :: (u ++ '=' :: '"' :: (v ++ '"' :: r)) := by simp [valueText]
    refine ⟨⟨c :: u, some (.literal v), some (o + (u.length + 1 + 0 + 1 + 0), o + (u.length + 1 + 0 + 1 + 0) + (v.length + 2))⟩,
      u.length + 1 + 0 + 1 + 0 + (v.length + 2), ?_, rfl, fun fuel => ?_⟩
    · rw [htext, attribute?_cons hc hu hequals]
      change (value? ('"' :: (v ++ '"' :: r))).map _ = _
      rw [hvalue]
      rfl
    · have hlength : u.length + 1 + 0 + 1 + 0 + (v.length + 2) = (c :: u ++ valueText (some v)).length := by
        simp [valueText]
        omega
      rw [hlength, ← List.append_assoc, List.drop_left]

theorem continues_finish (b : Bool) (t : Text) : Continues (finish b ++ t) := by
  cases b
  · exact ⟨fun c hc => by cases hc; decide, fun c hc => by cases hc; decide⟩
  · exact ⟨fun c hc => by cases hc; decide, fun c hc => by cases hc; decide⟩

theorem continues_entries (es : List Entry) (b : Bool) (t : Text) : Continues (entriesText es ++ (finish b ++ t)) := by
  cases es with
  | nil => exact continues_finish b t
  | cons e es =>
    obtain ⟨c, u, hname, hc, -⟩ := e.exists_cons
    have htext : entriesText (e :: es) ++ (finish b ++ t) = ' ' :: c :: (u ++ (valueText e.value ++ (entriesText es ++ (finish b ++ t)))) := by
      simp [entriesText, hname]
    have hspace := not_isSpace_of_isAttributeStart hc
    rw [htext]
    refine ⟨fun d hd => by cases hd; decide, fun d hd => ?_⟩
    rw [spaces, List.dropWhile_cons_of_pos rfl, List.dropWhile_cons_of_neg (by simp [hspace])] at hd
    cases hd
    exact ⟨hspace, ne_of_isAttributeStart hc rfl⟩

/-- Written attributes are read up to the end of the tag. -/
theorem tail?_entries (es : List Entry) (b : Bool) (hfuel : es.length < fuel) (o : Nat) (t : Text) :
    ∃ as, tail? false fuel o (entriesText es ++ (finish b ++ t)) = some ⟨as, b, o + (entriesText es ++ finish b).length⟩ ∧
      as.map Attribute.bare = es.map Entry.attribute := by
  induction es generalizing fuel o with
  | nil =>
    obtain ⟨fuel, rfl⟩ := Nat.exists_eq_succ_of_ne_zero (Nat.ne_of_gt hfuel)
    refine ⟨[], ?_, rfl⟩
    cases b <;> rfl
  | cons e es ih =>
    obtain ⟨fuel, rfl⟩ := Nat.exists_eq_succ_of_ne_zero (Nat.ne_of_gt (Nat.zero_lt_of_lt hfuel))
    obtain ⟨c, u, hname, hc, -⟩ := e.exists_cons
    obtain ⟨a, n, hread, hbare, hrest⟩ := attribute?_entry e (continues_entries es b t) (o + 1)
    obtain ⟨as, has, hes⟩ := ih (Nat.lt_of_succ_lt_succ hfuel) (o + 1 + (e.name ++ valueText e.value).length)
    have htext : entriesText (e :: es) ++ (finish b ++ t) = ' ' :: (e.name ++ (valueText e.value ++ (entriesText es ++ (finish b ++ t)))) := by
      simp [entriesText]
    have hstop : o + 1 + (e.name ++ valueText e.value).length + (entriesText es ++ finish b).length =
        o + (entriesText (e :: es) ++ finish b).length := by
      simp [entriesText]
      omega
    refine ⟨a :: as, ?_, by rw [List.map_cons, List.map_cons, hbare, hes]⟩
    have hrest := hrest fuel
    rw [htext]
    rw [hname, List.cons_append] at hread hrest ⊢
    rw [tail?_cons hc, hread, Option.bind_some, hrest, ← hname, has, hstop]
    rfl

/-! ## Tags -/

/-- A tag with a name that ends before a blank, a slash or a bracket. -/
theorem read?_cons (hc : c.isAlpha) (hu : ∀ d ∈ u, isNamePart d) (hd : isNamePart d = false) (hend : isSpace d || d == '/' || d == '>')
    (o : Nat) (t : Text) : read? o ('<' :: c :: (u ++ d :: t)) = (tail? false (t.length + 2) (o + 1 + (c :: u).length) (d :: t)).map fun tail =>
      ⟨c :: u, o, tail.stop, false, tail.selfClosing, tail.attributes⟩ := by
  have hname : name? isNameStart isNamePart (c :: (u ++ d :: t)) = some (c :: u, d :: t) := by
    rw [name?, if_pos (show isNameStart c from hc), Text.takeWhile_run hu hd, Text.dropWhile_run hu hd]
  have hbody : read? o ('<' :: c :: (u ++ d :: t)) = body? o false (c :: (u ++ d :: t)) := by
    unfold read?
    split
    · next h =>
      cases h
      cases hc
    · next h =>
      cases h
      rfl
    · next h => exact absurd rfl (h (c :: (u ++ d :: t)))
  rw [hbody]
  unfold body?
  rw [if_neg (by decide)]
  dsimp only
  split
  · next h =>
    cases h
    cases hc
  · simp only [hname, Option.bind_eq_bind, Option.bind_some, List.head?_cons, hend, if_true]
    exact Option.map_eq_bind.symm

theorem exists_entries (es : List Entry) (b : Bool) (t : Text) : ∃ d r, entriesText es ++ (finish b ++ t) = d :: r ∧ (d = ' ' ∨ d = '>') := by
  cases es with
  | nil => cases b <;> exact ⟨_, _, rfl, by decide⟩
  | cons e es => exact ⟨' ', _, rfl, .inl rfl⟩

/-- A written tag is read as it is, whatever follows it. -/
theorem read?_written (b : Bool) (name : Name) (es : List Entry) (o : Nat) (t : Text) :
    ∃ as, read? o (written b name es ++ t) = some ⟨name.text, o, o + (written b name es).length, false, b, as⟩ ∧
      as.map Attribute.bare = es.map Entry.attribute := by
  obtain ⟨c, u, hname, hc, hu⟩ := name.exists_cons
  obtain ⟨d, r, hdr, hd⟩ := exists_entries es b t
  have hout : isNamePart d = false ∧ (isSpace d || d == '/' || d == '>') = true := by rcases hd with rfl | rfl <;> decide
  have htext : written b name es ++ t = '<' :: c :: (u ++ d :: r) := by
    rw [← hdr, written, hname]
    simp
  have hfuel : es.length < r.length + 2 := by
    have hlength := congrArg List.length hdr
    have hes : es.length ≤ (entriesText es).length := by
      clear hdr htext hlength
      induction es with
      | nil => exact Nat.le_refl 0
      | cons e es ih =>
        rw [entriesText, List.flatMap_cons, List.length_append, List.length_cons, List.length_cons]
        exact Nat.le_trans (Nat.succ_le_succ ih) (by rw [entriesText]; omega)
    rw [List.length_append, List.length_cons] at hlength
    omega
  obtain ⟨as, has, hes⟩ := tail?_entries es b hfuel (o + 1 + (c :: u).length) t
  refine ⟨as, ?_, hes⟩
  have hstop : o + 1 + (c :: u).length + (entriesText es ++ finish b).length = o + (written b name es).length := by
    rw [written, hname]
    simp only [List.length_cons, List.length_append]
    omega
  rw [htext, read?_cons hc hu hout.1 hout.2, ← hdr, has, Option.map_some, hstop, hname]

/-- What no name, no value and no end of a tag holds stands in a tag as its bracket only. -/
theorem notMem_written (b : Bool) (name : Name) (es : List Entry) (hname : isNameChar d = false)
    (hvalue : ∀ e ∈ es, ∀ v ∈ e.value, d ∉ v) (hd : d ∉ [' ', '/', '>', '=', '"']) : d ∉ name.text ++ (entriesText es ++ finish b) := by
  simp only [List.mem_cons, List.not_mem_nil, or_false, not_or] at hd
  obtain ⟨hspace, hslash, hbracket, hequals, hquote⟩ := hd
  intro h
  rcases List.mem_append.1 h with h | h
  · exact name.notMem hname h
  rcases List.mem_append.1 h with h | h
  · obtain ⟨e, he, h⟩ := List.mem_flatMap.1 h
    rcases List.mem_cons.1 h with h | h
    · exact hspace h
    rcases List.mem_append.1 h with h | h
    · exact e.notMem_name hname h
    cases hv : e.value with
    | none =>
      rw [hv] at h
      cases h
    | some v =>
      rw [hv, valueText] at h
      simp only [List.mem_cons, List.mem_append, List.not_mem_nil, or_false] at h
      rcases h with h | h | h | h
      · exact hequals h
      · exact hquote h
      · exact hvalue e he v hv h
      · exact hquote h
  · cases b <;> simp [finish, hspace, hslash, hbracket] at h

end Narration.Tag
