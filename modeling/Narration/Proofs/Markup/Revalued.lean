import Narration.Proofs.Markup.Place
import Narration.Proofs.Markup.Steady
import Narration.Proofs.Markup.Tag

/-!
# Tags with another value

The value of an attribute is exchanged in a tag, and all else in it stays.

* `Tag.Names` : the name of an attribute, up to its value;
* `Tag.attribute?_names`, `Tag.exists_names` : an attribute with a value is such a name and a value;
* `Tag.tail?_revalued`, `Tag.read?_revalued` : the value of the first attribute of a name is exchanged;
* `Markup.Block.component?_revalued` : a component whose tag has another value;
* `Markup.Block.exists_embedded` : an expression or a component stands behind the blanks at the front of its line;
* `Markup.Block.Reads.exists_revalued` : the blocks of a text that begins with such a component.
-/

namespace Narration

/-! ## Tags -/

namespace Tag

variable {x v v' e t name : Text} {a : Attribute} {old value : AttributeValue} {o n first stop fuel fuel' : Nat} {closing : Bool} {tail : Tail}
  {tag before : Tag}

/-- The name of an attribute, an equals sign and blanks around it. -/
inductive Names (name : Text) : Text → Prop
  | mk {c : Char} {u w w' : Text} (hname : name = c :: u) (hc : isAttributeStart c) (hu : ∀ d ∈ u, isAttributePart d)
      (hw : ∀ d ∈ w, isSpace d) (hw' : ∀ d ∈ w', isSpace d) : Names name (c :: (u ++ (w ++ '=' :: w')))

theorem Names.length (h : Names name x) : 2 ≤ x.length := by
  cases h
  simp only [List.length_cons, List.length_append]
  omega

theorem spaces_of_value? (h : value? t = some (value, n)) : spaces t = (0, t) := by
  cases t with
  | nil => rfl
  | cons c t =>
    have hc : isSpace c = false := by
      by_cases hbrace : c = '\x7b'
      · subst hbrace
        rfl
      · rw [value?_cons hbrace] at h
        split at h
        · next hquote => rcases hquote with rfl | rfl <;> rfl
        · cases h
    rw [spaces, List.takeWhile_cons_of_neg (by simp [hc]), List.dropWhile_cons_of_neg (by simp [hc])]
    rfl

/-- An attribute with a value. -/
theorem attribute?_names (h : Names name x) (hv : value? t = some (value, n)) (o : Nat) :
    attribute? o (x ++ t) = some (⟨name, some value, some (o + x.length, o + x.length + n)⟩, x.length + n) := by
  cases h with
  | @mk c u w w' hname hc hu hw hw' =>
    have hequals (t : Text) : spaces ('=' :: t) = (0, '=' :: t) := rfl
    have htext : c :: (u ++ (w ++ '=' :: w')) ++ t = c :: (u ++ (w ++ '=' :: (w' ++ t))) := by simp
    have hpart : ∀ d ∈ (w ++ '=' :: (w' ++ t)).head?, isAttributePart d = false := by
      intro d hd
      cases w with
      | nil =>
        cases hd
        rfl
      | cons b w =>
        cases hd
        have hspace := hw _ List.mem_cons_self
        simp only [isSpace, Bool.or_eq_true, beq_iff_eq] at hspace
        rcases hspace with ((rfl | rfl) | rfl) | rfl <;> decide
    rw [htext, attribute?_cons hc hu hpart, spaces_append hw, hequals]
    change (value? (spaces (w' ++ t)).2).map _ = _
    rw [spaces_append hw', spaces_of_value? hv, hv, hname]
    have hlength : u.length + 1 + (w.length + 0) + 1 + (w'.length + 0) = (c :: (u ++ (w ++ '=' :: w'))).length := by
      simp only [List.length_cons, List.length_append]
      omega
    rw [hlength]
    rfl

theorem exists_name? {start part : Char → Bool} {rest : Text} (h : name? start part t = some (name, rest)) :
    ∃ c u, name = c :: u ∧ start c ∧ ∀ d ∈ u, part d := by
  cases t with
  | nil => cases h
  | cons c t =>
    rw [name?] at h
    split at h
    · next hc =>
      cases h
      exact ⟨c, _, rfl, hc, fun d hd => List.mem_takeWhile_imp hd⟩
    · cases h

/-- Each attribute with a value is a name and the value, unless all of it is in braces. -/
theorem exists_names (h : attribute? o t = some (a, n)) (hvalue : a.value = some old) (hname : a.name ≠ ['.', '.', '.']) :
    ∃ x r m, t = x ++ r ∧ Names a.name x ∧ value? r = some (old, m) ∧ n = x.length + m ∧
      a.span = some (o + x.length, o + x.length + m) := by
  have ht : t.head? ≠ some '\x7b' := by
    intro hhead
    obtain ⟨u, rfl⟩ := List.head?_eq_some_iff.1 hhead
    obtain ⟨r, -, h⟩ := Option.map_eq_some_iff.1 h
    cases h
    exact hname rfl
  rw [attribute?_of_ne ht] at h
  obtain ⟨⟨own, rest⟩, hown, h⟩ := Option.bind_eq_some_iff.1 h
  unfold ofName? at h
  dsimp only at h
  split at h
  · next rest' heq =>
    obtain ⟨⟨new, m⟩, hnew, h⟩ := Option.bind_eq_some_iff.1 h
    cases h
    cases hvalue
    obtain ⟨c, u, rfl, hc, hu⟩ := exists_name? hown
    have hgap : rest.takeWhile isSpace ++ '=' :: rest' = rest := by
      rw [← heq]
      exact List.takeWhile_append_dropWhile
    have hspace : rest'.takeWhile isSpace ++ (spaces rest').2 = rest' := List.takeWhile_append_dropWhile
    have hlength : (c :: u).length + (spaces rest).1 + 1 + (spaces rest').1 =
        (c :: (u ++ (rest.takeWhile isSpace ++ '=' :: rest'.takeWhile isSpace))).length := by
      simp only [spaces, List.length_cons, List.length_append]
      omega
    refine ⟨c :: (u ++ (rest.takeWhile isSpace ++ '=' :: rest'.takeWhile isSpace)), (spaces rest').2, m, ?_,
      .mk rfl hc hu (fun d hd => List.mem_takeWhile_imp hd) (fun d hd => List.mem_takeWhile_imp hd), hnew, ?_, ?_⟩
    · rw [name?_span hown]
      simp only [List.cons_append, List.append_assoc, hspace, hgap]
    · rw [hlength]
    · rw [hlength]
  · cases h
    cases hvalue

theorem attribute?_le (h : attribute? o t = some (a, n)) : n ≤ t.length := by
  rw [← Nat.zero_add o, attribute?_add] at h
  obtain ⟨⟨b, m⟩, hb, h⟩ := Option.map_eq_some_iff.1 h
  cases h
  exact (attribute?_span (Markup.Stretch.in_self t) hb).2

theorem head?_of_attribute? (h : attribute? o t = some (a, n)) : ∃ c u, t = c :: u ∧ isSpace c = false ∧ c ≠ '/' ∧ c ≠ '>' := by
  cases t with
  | nil => cases h
  | cons c u =>
    by_cases hc : c = '\x7b'
    · subst hc
      exact ⟨_, _, rfl, rfl, by decide, by decide⟩
    · rw [attribute?_of_ne (by simpa using hc)] at h
      obtain ⟨r, hname, -⟩ := Option.bind_eq_some_iff.1 h
      rw [name?] at hname
      split at hname
      · next hstart =>
        exact ⟨c, u, rfl, not_isSpace_of_isAttributeStart hstart, ne_of_isAttributeStart hstart rfl, ne_of_isAttributeStart hstart rfl⟩
      · cases hname

/-- An attribute, and what follows it. -/
theorem tail?_of_attribute? (h : attribute? o t = some (a, n)) (fuel : Nat) :
    tail? false (fuel + 1) o t = (tail? false fuel (o + n) (t.drop n)).map (·.cons a) := by
  obtain ⟨c, u, rfl, hspace, hslash, hbracket⟩ := head?_of_attribute? h
  have hspaces : spaces (c :: u) = (0, c :: u) := by
    rw [spaces, List.takeWhile_cons_of_neg (by simp [hspace]), List.dropWhile_cons_of_neg (by simp [hspace])]
    rfl
  rw [tail?, hspaces]
  dsimp only [Nat.add_zero]
  split
  · next heq => cases heq
  · next heq => exact absurd (List.cons.inj heq).1 hslash
  · next heq => exact absurd (List.cons.inj heq).1 hbracket
  · rw [if_neg Bool.false_ne_true, h, Option.map_eq_bind]
    rfl

/-- The first attribute. -/
theorem exists_attribute (h : tail? closing fuel o t = some tail) (hne : tail.attributes ≠ []) : ∃ w r a n rest fuel', t = w ++ r ∧
    (∀ c ∈ w, isSpace c) ∧ closing = false ∧ fuel = fuel' + 1 ∧ attribute? (o + w.length) r = some (a, n) ∧
      tail? false fuel' (o + w.length + n) (r.drop n) = some rest ∧ tail = rest.cons a := by
  cases fuel with
  | zero => cases h
  | succ fuel =>
    rw [tail?] at h
    dsimp only at h
    split at h
    · cases h
    · cases h
      exact absurd rfl hne
    · cases h
      exact absurd rfl hne
    · split at h
      · cases h
      · next hopen =>
        obtain ⟨⟨a, n⟩, ha, h⟩ := Option.bind_eq_some_iff.1 h
        obtain ⟨rest, hrest, h⟩ := Option.bind_eq_some_iff.1 h
        cases h
        obtain rfl := Bool.eq_false_iff.2 hopen
        exact ⟨_, _, a, n, rest, fuel, List.takeWhile_append_dropWhile.symm, fun c hc => List.mem_takeWhile_imp hc,
          rfl, rfl, ha, hrest, rfl⟩

/-- A value stands behind a name. -/
theorem exists_value_of_tail? (h : tail? closing fuel o t = some tail) (ha : a ∈ tail.attributes) (hvalue : a.value = some old)
    (hname : a.name ≠ ['.', '.', '.']) :
    ∃ x v e, t = x ++ (v ++ e) ∧ 2 ≤ x.length ∧ a.span = some (o + x.length, o + x.length + v.length) := by
  induction fuel generalizing closing o t tail with
  | zero => cases h
  | succ fuel ih =>
    obtain ⟨w, r, b, n, rest, fuel', rfl, -, -, hfuel, hb, hrest, rfl⟩ := exists_attribute h (List.ne_nil_of_mem ha)
    obtain rfl := Nat.succ.inj hfuel
    rcases List.mem_cons.1 ha with rfl | ha
    · obtain ⟨x, r, m, rfl, hx, hold, -, hspan⟩ := exists_names hb hvalue hname
      have hm := (value?_span (Markup.Stretch.in_self r) hold).2.2
      have hlength := hx.length
      refine ⟨w ++ x, r.take m, r.drop m, by simp, by rw [List.length_append]; omega, ?_⟩
      rw [hspan, List.length_append, List.length_take_of_le hm, Nat.add_assoc o]
    · obtain ⟨x, v, e, htext, hlength, hspan⟩ := ih hrest ha
      have hn := attribute?_le hb
      refine ⟨w ++ (r.take n ++ x), v, e, ?_, by simp only [List.length_append]; omega, ?_⟩
      · rw [List.append_assoc, List.append_assoc, ← htext, List.take_append_drop]
      · rw [hspan]
        simp only [List.length_append, List.length_take_of_le hn, Nat.add_assoc]

theorem stop_le_of_tail? (h : tail? closing fuel o t = some tail) : tail.stop ≤ o + t.length := by
  rw [← Nat.zero_add o, tail?_add] at h
  obtain ⟨first, hfirst, rfl⟩ := Option.map_eq_some_iff.1 h
  have hstop := (tail?_span (Markup.Stretch.in_self t) hfirst).1
  dsimp only [Tail.moved]
  omega

theorem tail?_moved (h : tail? closing fuel 0 t = some tail) (k : Nat) : tail? closing fuel k t = some (tail.moved k) := by
  have hadd := tail?_add closing fuel 0 k t
  rwa [Nat.zero_add, h] at hadd

/-- All attributes are read when there is enough fuel. -/
theorem tail?_fuel (h : tail? closing fuel o t = some tail) (hf : t.length ≤ fuel') : tail? closing fuel' o t = some tail := by
  have hsame := tail?_exchange (x := t) (e := []) (by rwa [List.append_nil]) (stop_le_of_tail? h) hf []
  rwa [List.append_nil] at hsame

/-- The value of the first attribute of a name is exchanged, and all else stays. -/
theorem tail?_revalued (h : tail? closing fuel o (x ++ (v ++ e)) = some tail)
    (ha : tail.attributes.find? (·.name = name) = some a) (hold : a.value = some old)
    (hspan : a.span = some (o + x.length, o + x.length + v.length)) (hname : name ≠ ['.', '.', '.'])
    (hv : value? (v' ++ e) = some (value, v'.length)) (hf : (x ++ (v' ++ e)).length < fuel') :
    ∃ tail' y z, e = y ++ z ∧ tail.stop = o + (x ++ (v ++ y)).length ∧ tail? closing fuel' o (x ++ (v' ++ e)) = some tail' ∧
      tail'.selfClosing = tail.selfClosing ∧ tail'.stop = o + (x ++ (v' ++ y)).length ∧
      ∃ a', tail'.attributes.find? (·.name = name) = some a' ∧ a'.value = some value := by
  induction fuel generalizing closing o x fuel' tail with
  | zero => cases h
  | succ fuel ih =>
    have hmem := List.mem_of_find?_eq_some ha
    have hfound : a.name = name := by simpa using List.find?_some ha
    obtain ⟨w, r, b, n, rest, fuel₁, htext, hw, rfl, hfuel, hb, hrest, rfl⟩ := exists_attribute h (List.ne_nil_of_mem hmem)
    obtain rfl := Nat.succ.inj hfuel
    obtain ⟨fuel', rfl⟩ := Nat.exists_eq_succ_of_ne_zero (Nat.ne_of_gt (Nat.zero_lt_of_lt hf))
    simp only [List.length_append] at hf
    by_cases hb' : b.name = name
    · -- the attribute itself
      have hfirst : (rest.cons b).attributes.find? (·.name = name) = some b := List.find?_cons_of_pos (by simpa using hb')
      obtain rfl := Option.some.inj (hfirst.symm.trans ha)
      obtain ⟨x₁, r₁, m, rfl, hx₁, -, rfl, hplace⟩ := exists_names hb hold (hb'.symm ▸ hname)
      obtain ⟨hplace, hend⟩ := Prod.mk.inj (Option.some.inj (hspan.symm.trans hplace))
      have hlength : x.length = (w ++ x₁).length := by
        rw [List.length_append]
        omega
      obtain ⟨rfl, rfl⟩ := List.append_inj (htext.trans (List.append_assoc w x₁ r₁).symm) hlength
      obtain rfl : m = v.length := by omega
      rw [← List.append_assoc, List.drop_left' (by rw [List.length_append])] at hrest
      have hnew := attribute?_names hx₁ hv (o + w.length)
      rw [← Nat.zero_add (o + w.length + (x₁.length + v.length)), tail?_add] at hrest
      obtain ⟨base, hbase, rfl⟩ := Option.map_eq_some_iff.1 hrest
      have hstop := stop_le_of_tail? hbase
      have hbase' := tail?_moved (tail?_fuel hbase (show e.length ≤ fuel' by omega)) (o + w.length + (x₁.length + v'.length))
      refine ⟨(base.moved (o + w.length + (x₁.length + v'.length))).cons
        ⟨b.name, some value, some (o + w.length + x₁.length, o + w.length + x₁.length + v'.length)⟩, e.take base.stop, e.drop base.stop,
        (List.take_append_drop _ e).symm, ?_, ?_, rfl, ?_, ?_⟩
      · simp only [Tail.cons, Tail.moved, List.length_append, List.length_take]
        omega
      · rw [List.append_assoc, tail?_append hw, tail?_of_attribute? hnew, ← List.append_assoc x₁, List.drop_left' (by rw [List.length_append]),
          hbase']
        rfl
      · simp only [Tail.cons, Tail.moved, List.length_append, List.length_take]
        omega
      · exact ⟨_, List.find?_cons_of_pos (by simpa using hb'), rfl⟩
    · -- an attribute before it
      have hrest' : rest.attributes.find? (·.name = name) = some a := by
        rw [← ha]
        exact (List.find?_cons_of_neg (by simpa using hb')).symm
      obtain ⟨x₂, v₂, e₂, -, hlength, hplace⟩ :=
        exists_value_of_tail? hrest (List.mem_of_find?_eq_some hrest') hold (hfound.symm ▸ hname)
      have hplace := (Prod.mk.inj (Option.some.inj (hspan.symm.trans hplace))).1
      obtain ⟨x₁, rfl, hx₁⟩ := Text.exists_between htext.symm (show w.length ≤ x.length by omega)
      obtain rfl : r = x₁ ++ (v ++ e) := hx₁
      have hpos := attribute?_pos hb
      rw [List.length_append] at hplace hf hspan
      have hb₁ := attribute?_exchange hb (by omega) (v' ++ e)
      rw [List.drop_append_of_le_length (by omega)] at hrest
      have hstart : o + (w.length + x₁.length) = o + w.length + n + (x₁.drop n).length := by
        rw [List.length_drop]
        omega
      rw [hstart] at hspan
      obtain ⟨tail', y, z, rfl, hstop, htail', hself, hstop', a', ha', hvalue⟩ := ih hrest hrest' hspan
        (show (x₁.drop n ++ (v' ++ e)).length < fuel' by simp only [List.length_append, List.length_drop]; omega)
      refine ⟨tail'.cons b, y, z, rfl, ?_, ?_, hself, ?_, a', ?_, hvalue⟩
      · simp only [Tail.cons, hstop, List.length_append, List.length_drop]
        omega
      · rw [List.append_assoc, tail?_append hw, tail?_of_attribute? hb₁, List.drop_append_of_le_length (by omega), htail']
        rfl
      · simp only [Tail.cons, hstop', List.length_append, List.length_drop]
        omega
      · rw [← ha']
        exact List.find?_cons_of_neg (by simpa using hb')

/-- Two tags that differ in the value of the first attribute of a name. -/
structure Revalued (key : Text) (new : AttributeValue) (tag tag' : Tag) : Prop where
  name : tag'.name = tag.name
  closing : tag'.closing = tag.closing
  selfClosing : tag'.selfClosing = tag.selfClosing
  value : (tag'.attributes.map Attribute.bare).find? (·.name = key) = some ⟨key, some new, none⟩

/-- Only tags that close nothing have attributes. -/
theorem exists_value_of_body? (h : body? o closing t = some tag) (ha : a ∈ tag.attributes) (hvalue : a.value = some old)
    (hname : a.name ≠ ['.', '.', '.']) :
    closing = false ∧ ∃ x v e, t = x ++ (v ++ e) ∧ 3 ≤ x.length ∧ a.span = some (o + 1 + x.length, o + 1 + x.length + v.length) := by
  unfold body? at h
  dsimp only at h
  split at h
  · cases h
    cases ha
  · obtain ⟨⟨own, rest⟩, hown, h⟩ := Option.bind_eq_some_iff.1 h
    obtain ⟨d, -, h⟩ := Option.bind_eq_some_iff.1 h
    split at h
    · obtain ⟨tail, htail, h⟩ := Option.bind_eq_some_iff.1 h
      cases h
      obtain ⟨_, _, _, _, _, _, -, -, rfl, -⟩ := exists_attribute htail (List.ne_nil_of_mem ha)
      obtain ⟨x, v, e, rfl, hlength, hspan⟩ := exists_value_of_tail? htail ha hvalue hname
      rw [if_neg Bool.false_ne_true] at hspan
      refine ⟨rfl, own ++ x, v, e, by rw [name?_span hown, List.append_assoc], ?_, ?_⟩
      · obtain ⟨c, u, rfl, -⟩ := exists_name? hown
        simp only [List.length_append, List.length_cons]
        omega
      · rw [hspan, List.length_append, Nat.add_assoc (o + 1)]
    · cases h

/-- A value stands in its tag. -/
theorem exists_value (h : read? o t = some tag) (ha : a ∈ tag.attributes) (hvalue : a.value = some old)
    (hname : a.name ≠ ['.', '.', '.']) :
    ∃ x v e, t = x ++ (v ++ e) ∧ 4 ≤ x.length ∧ a.span = some (o + x.length, o + x.length + v.length) := by
  unfold read? at h
  split at h
  · cases (exists_value_of_body? h ha hvalue hname).1
  · next u =>
    obtain ⟨-, x, v, e, rfl, hlength, hspan⟩ := exists_value_of_body? h ha hvalue hname
    refine ⟨'<' :: x, v, e, rfl, by simpa using hlength, ?_⟩
    rw [hspan, List.length_cons, Nat.add_assoc o, Nat.add_comm 1]
  · cases h

theorem body?_revalued (h : body? o false (x ++ (v ++ e)) = some tag) (ha : tag.attributes.find? (·.name = name) = some a)
    (hold : a.value = some old) (hspan : a.span = some (o + 1 + x.length, o + 1 + x.length + v.length)) (hname : name ≠ ['.', '.', '.'])
    (hv : value? (v' ++ e) = some (value, v'.length)) : ∃ tag' y z, e = y ++ z ∧ tag.stop = o + 1 + (x ++ (v ++ y)).length ∧
      body? o false (x ++ (v' ++ e)) = some tag' ∧ Revalued name value tag tag' ∧ tag'.stop = o + 1 + (x ++ (v' ++ y)).length := by
  have hmem := List.mem_of_find?_eq_some ha
  have hfound : a.name = name := by simpa using List.find?_some ha
  unfold body? at h ⊢
  rw [if_neg Bool.false_ne_true] at h ⊢
  dsimp only at h ⊢
  split at h
  · cases h
    cases hmem
  · next hbracket =>
    obtain ⟨⟨own, rest⟩, hown, h⟩ := Option.bind_eq_some_iff.1 h
    obtain ⟨d, hd, h⟩ := Option.bind_eq_some_iff.1 h
    split at h
    · next hends =>
      obtain ⟨tail, htail, h⟩ := Option.bind_eq_some_iff.1 h
      cases h
      obtain ⟨x₂, v₂, e₂, -, hlength, hplace⟩ := exists_value_of_tail? htail hmem hold (hfound.symm ▸ hname)
      have hplace := (Prod.mk.inj (Option.some.inj (hspan.symm.trans hplace))).1
      dsimp only at hplace
      obtain ⟨d', u, rfl, rfl, hown'⟩ := name?_exchange hown (by omega)
      have hstart : o + 1 + (own ++ d' :: u).length = o + 1 + own.length + (d' :: u).length := by
        rw [List.length_append, Nat.add_assoc (o + 1)]
      rw [hstart] at hspan
      obtain ⟨tail', y, z, rfl, hstop, htail', hself, hstop', a', ha', hvalue⟩ :=
        tail?_revalued htail ha hold hspan hname hv (Nat.lt_succ_self _)
      have hvalue' : (tail'.attributes.map Attribute.bare).find? (·.name = name) = some ⟨name, some value, none⟩ := by
        have hfound' : a'.name = name := by simpa using List.find?_some ha'
        have hbare : a'.bare = ⟨name, some value, none⟩ := by rw [Attribute.bare, hfound', hvalue]
        rw [List.find?_map, ← hbare]
        exact congrArg (Option.map Attribute.bare) ha'
      refine ⟨⟨own, o, tail'.stop, false, tail'.selfClosing, tail'.attributes⟩, y, z, rfl, ?_, ?_, ⟨rfl, rfl, hself, hvalue'⟩, ?_⟩
      · simp only [hstop, List.length_append]
        omega
      · split
        · next heq =>
          obtain ⟨c, own, rfl, -⟩ := exists_name? hown
          cases (List.cons.inj heq).1
          exact absurd rfl (hbracket _)
        · refine Option.bind_eq_some_iff.2 ⟨_, hown' _, Option.bind_eq_some_iff.2 ⟨d, hd, ?_⟩⟩
          rw [if_pos hends]
          exact Option.bind_eq_some_iff.2 ⟨tail', htail', rfl⟩
      · simp only [hstop', List.length_append]
        omega
    · cases h

/-- The value of an attribute is exchanged in a tag. -/
theorem read?_revalued (h : read? o (x ++ (v ++ e)) = some tag) (ha : tag.attributes.find? (·.name = name) = some a)
    (hold : a.value = some old) (hspan : a.span = some (o + x.length, o + x.length + v.length)) (hname : name ≠ ['.', '.', '.'])
    (hv : value? (v' ++ e) = some (value, v'.length)) : ∃ tag' y z, e = y ++ z ∧ tag.stop = o + (x ++ (v ++ y)).length ∧
      read? o (x ++ (v' ++ e)) = some tag' ∧ Revalued name value tag tag' ∧ tag'.stop = o + (x ++ (v' ++ y)).length := by
  have hmem := List.mem_of_find?_eq_some ha
  have hfound : a.name ≠ ['.', '.', '.'] := by
    rwa [show a.name = name by simpa using List.find?_some ha]
  obtain ⟨x₂, v₂, e₂, -, hlength, hplace⟩ := exists_value h hmem hold hfound
  have hplace := (Prod.mk.inj (Option.some.inj (hspan.symm.trans hplace))).1
  match x with
  | [] | [_] =>
    simp only [List.length_cons, List.length_nil] at hplace
    omega
  | c :: d :: x =>
    unfold read? at h
    split at h
    · cases (exists_value_of_body? h hmem hold hfound).1
    · next t hslash htext =>
      obtain ⟨rfl, rfl⟩ := List.cons.inj htext
      have hd : d ≠ '/' := by
        rintro rfl
        exact hslash _ rfl
      have hstart : o + ('<' :: d :: x).length = o + 1 + (d :: x).length := by
        simp only [List.length_cons]
        omega
      rw [hstart] at hspan
      obtain ⟨tag', y, z, rfl, hstop, htag', hrevalued, hstop'⟩ := body?_revalued (x := d :: x) h ha hold hspan hname hv
      refine ⟨tag', y, z, rfl, ?_, ?_, hrevalued, ?_⟩
      · rw [hstop]
        simp only [List.length_cons, List.length_append]
        omega
      · unfold read?
        split
        · next heq => exact absurd (List.cons.inj (List.cons.inj heq).2).1 hd
        · next heq =>
          cases heq
          exact htag'
        · next hnot => exact absurd rfl (hnot _)
      · rw [hstop']
        simp only [List.length_cons, List.length_append]
        omega
    · cases h

/-- A tag is the same elsewhere in a text. -/
theorem read?_elsewhere (h : read? o t = some tag) (hnew : Revalued name value before tag) (o' : Nat) :
    ∃ tag', read? o' t = some tag' ∧ Revalued name value before tag' ∧ tag'.stop + o = tag.stop + o' := by
  rw [← Nat.zero_add o, read?_add] at h
  obtain ⟨base, hbase, rfl⟩ := Option.map_eq_some_iff.1 h
  have hmoved := read?_add 0 o' t
  rw [Nat.zero_add, hbase] at hmoved
  have hattributes (k : Nat) : (base.moved k).attributes.map Attribute.bare = base.attributes.map Attribute.bare := by
    simp only [moved, List.map_map, Function.comp_def, Attribute.bare_moved]
  refine ⟨base.moved o', hmoved, ⟨hnew.name, hnew.closing, hnew.selfClosing, ?_⟩, ?_⟩
  · rw [hattributes, ← hattributes o]
    exact hnew.value
  · exact Nat.add_right_comm _ _ _

end Tag

/-! ## Components -/

namespace Markup.Block
open Fallible

variable {x y z v v' u c e : Text} {references : List Reference} {node : Node} {stop : Nat} {key name : Text}
  {attributes : List Attribute} {a : Attribute} {old value : AttributeValue} {ns : List Node}

theorem since_within (o : Nat) (x v y z : Text) :
    (⟨o, x ++ (v ++ (y ++ z))⟩ : Stretch).since (o + (x ++ (v ++ y)).length) = ⟨o + (x ++ (v ++ y)).length, z⟩ := by
  have hparts : x ++ (v ++ (y ++ z)) = (x ++ (v ++ y)) ++ z := by simp only [List.append_assoc]
  rw [hparts, since_append]

theorem find?_elsewhere (name : Text) (o : Nat) (t : Text) :
    Closing.find? name o t = (Closing.find? name 0 t).map fun (first, stop) => (first + o, stop + o) := by
  have hadd := Closing.find?_add name 0 o t
  rwa [Nat.zero_add] at hadd

/-- What stands between two tags is read in any text. -/
theorem exists_between {w : Text} (h : (innerOf 957 (Scope.ofText (u ++ c) references)).between ⟨u.length, w⟩ = .ok ns) (v : Text) :
    ∃ ns', (innerOf 957 (Scope.ofText (v ++ c) references)).between ⟨v.length, w⟩ = .ok ns' := by
  have hshift (a : Nat) : (⟨0, w⟩ : Stretch).shift a = ⟨a, w⟩ := by rw [Stretch.shift, Nat.zero_add]
  have hbetween (u : Text) : Agree (Same (.below (u.count '\n'))) ((innerOf 957 (Scope.ofText c references)).between ⟨0, w⟩)
      ((innerOf 957 (Scope.ofText (u ++ c) references)).between ⟨u.length, w⟩) := by
    have hinner := innerOf_below (Scope.below_ofText u c references).seen 957
    rw [← hshift u.length]
    exact .ite (fun _ => hinner.blocks _) fun _ => hinner.content _
  obtain ⟨ks, hks, -⟩ := (hbetween u).exists_ok_left h
  obtain ⟨ns', hns', -⟩ := (hbetween v).exists_ok hks
  exact ⟨ns', hns'⟩

/-- A component whose tag has another value of an attribute, in another text. -/
theorem component?_revalued (h : component? (Scope.ofText (u ++ (x ++ (v ++ e))) references)
      (innerOf 957 (Scope.ofText (u ++ (x ++ (v ++ e))) references)) ⟨u.length, x ++ (v ++ e)⟩ = .ok (some (node, stop)))
    (hkind : node.kind = .component key attributes) (ha : attributes.find? (·.name = name) = some a)
    (hold : a.value = some old) (hspan : a.span = some (u.length + x.length, u.length + x.length + v.length)) (hname : name ≠ ['.', '.', '.'])
    (hv : Tag.value? (v' ++ e) = some (value, v'.length)) (u' : Text) :
    ∃ node' y z attributes', e = y ++ z ∧ stop = u.length + (x ++ (v ++ y)).length ∧
      component? (Scope.ofText (u' ++ (x ++ (v' ++ e))) references) (innerOf 957 (Scope.ofText (u' ++ (x ++ (v' ++ e))) references))
        ⟨u'.length, x ++ (v' ++ e)⟩ = .ok (some (node', u'.length + (x ++ (v' ++ y)).length)) ∧
      node'.kind = .component key attributes' ∧
      (attributes'.map Attribute.bare).find? (·.name = name) = some ⟨name, some value, none⟩ := by
  obtain ⟨tag, htag, hr⟩ := component?_eq_some.1 h
  have hattributes : tag.closing = false ∧ tag.name = key ∧ tag.attributes = attributes := by
    cases hr with
    | stray => cases hkind
    | single hopen | pair hopen =>
      cases hkind
      exact ⟨hopen, rfl, rfl⟩
  obtain ⟨hopen, rfl, rfl⟩ := hattributes
  have htag : Tag.read? u.length (x ++ (v ++ e)) = some tag := htag
  obtain ⟨tag₁, y, z, rfl, hstop, htag₁, hnew, hstop₁⟩ := Tag.read?_revalued htag ha hold hspan hname hv
  obtain ⟨tag', htag', hnew', hstop'⟩ := Tag.read?_elsewhere htag₁ hnew u'.length
  replace hstop' : tag'.stop = u'.length + (x ++ (v' ++ y)).length := by omega
  have hafter' : (⟨u'.length, x ++ (v' ++ (y ++ z))⟩ : Stretch).since tag'.stop = ⟨tag'.stop, z⟩ := by rw [hstop', since_within]
  cases hr with
  | stray => cases hkind
  | single hopen hself hends =>
    rw [hstop, since_within] at hends
    refine ⟨?_, y, z, _, rfl, hstop, component?_eq_some.2 ⟨tag', htag', ?_⟩, ?_, hnew'.value⟩
    rotate_left
    · rw [← hstop']
      refine .single (hnew'.closing.trans hopen) (hnew'.selfClosing.trans hself) ?_
      rw [hafter']
      exact hends
    · rw [← hnew'.name]
      rfl
  | @pair first stop children hopen hself hfind hends hchildren =>
    rw [hstop, since_within] at hfind hchildren
    obtain ⟨⟨n, m⟩, hfind₀, heq⟩ := Option.map_eq_some_iff.1 (find?_elsewhere tag.name _ z ▸ hfind)
    cases heq
    obtain ⟨z₁, z, rfl, rfl⟩ : ∃ z₁ z₂, z = z₁ ++ z₂ ∧ m = z₁.length := by
      have hle := (Closing.find?_span (Stretch.in_self z) hfind₀).1
      exact ⟨z.take m, z.drop m, (List.take_append_drop m z).symm, (List.length_take_of_le (by omega)).symm⟩
    have hplace (o : Nat) (v : Text) : z₁.length + (o + (x ++ (v ++ y)).length) = o + (x ++ (v ++ (y ++ z₁))).length := by
      simp only [List.length_append]
      omega
    have htill (o : Nat) (w : Text) : (⟨o, w⟩ : Stretch).till (n + o) = ⟨o, w.take n⟩ := by
      rw [Stretch.till, Nat.add_sub_cancel]
      rfl
    have hparts (u v : Text) : u ++ (x ++ (v ++ (y ++ (z₁ ++ z)))) = (u ++ (x ++ (v ++ y))) ++ (z₁ ++ z) := by
      simp only [List.append_assoc]
    have hlength (u v : Text) : u.length + (x ++ (v ++ y)).length = (u ++ (x ++ (v ++ y))).length := List.length_append.symm
    rw [hplace, ← List.append_assoc y, since_within] at hends
    rw [htill, hlength, hparts] at hchildren
    obtain ⟨children', hchildren'⟩ := exists_between hchildren (u' ++ (x ++ (v' ++ y)))
    rw [← hparts, ← hlength, ← hstop', ← htill, ← hafter'] at hchildren'
    rw [hplace]
    have hfind' : Closing.find? tag'.name ((⟨u'.length, x ++ (v' ++ (y ++ (z₁ ++ z)))⟩ : Stretch).since tag'.stop).start
        ((⟨u'.length, x ++ (v' ++ (y ++ (z₁ ++ z)))⟩ : Stretch).since tag'.stop).chars = some (n + tag'.stop, z₁.length + tag'.stop) := by
      rw [hafter', find?_elsewhere, hnew'.name, hfind₀]
      rfl
    refine ⟨?_, y ++ z₁, z, _, (List.append_assoc y z₁ z).symm, rfl, component?_eq_some.2 ⟨tag', htag', ?_⟩, ?_, hnew'.value⟩
    rotate_left
    · rw [← hplace, ← hstop']
      refine .pair (hnew'.closing.trans hopen) (hnew'.selfClosing.trans hself) hfind' ?_ hchildren'
      rw [hstop', hplace, ← List.append_assoc y, since_within]
      exact hends
    · rw [← hnew'.name]
      rfl

/-! ## Blocks -/

section
variable {scope : Scope} {inner : Inner} {top : Bool} {o a : Nat} {t w : Text}

theorem trimStart_blanks (hw : Text.allBlank w) (hc : c.head?.any (!Text.isBlank ·)) (a : Nat) :
    (⟨a, w ++ c⟩ : Stretch).trimStart = ⟨a + w.length, c⟩ := by
  obtain ⟨d, u, rfl, hd⟩ : ∃ d u, c = d :: u ∧ Text.isBlank d = false := by
    cases c with
    | nil => cases hc
    | cons d u => exact ⟨d, u, rfl, by simpa using hc⟩
  rw [trimStart_mk, Text.indent, Text.trimStart, Text.takeWhile_run (List.all_eq_true.1 hw) hd,
    Text.dropWhile_run (List.all_eq_true.1 hw) hd]

/-- An expression or a component stands behind the blanks at the front of its line. -/
theorem exists_embedded (hblank : Text.allBlank (Text.firstLine t) = false) (h : next scope inner top ⟨a, t⟩ = .ok (node, stop))
    (hkind : isEmbedded node.kind) : ∃ w c, t = w ++ c ∧ Text.allBlank w ∧ '\n' ∉ w ∧
      (c.head? = some '\x7b' ∧ expression? scope ⟨a + w.length, c⟩ = some (node, stop) ∨
        component? scope inner ⟨a + w.length, c⟩ = .ok (some (node, stop))) := by
  obtain ⟨w, c, rfl, hw, hc⟩ := Text.exists_run Text.isBlank t
  have hall : Text.allBlank w := List.all_eq_true.2 hw
  have hline := Text.newline_notMem_of_allBlank hall hblank
  refine ⟨w, c, rfl, hall, hline, ?_⟩
  rcases hc with rfl | ⟨d, v, rfl, hd⟩
  · rw [List.append_nil, Text.allBlank, List.all_eq_true.2 fun d hd => hw d ((List.takeWhile_sublist _).subset hd)] at hblank
    cases hblank
  · have hstart : (⟨a, w ++ d :: v⟩ : Stretch).trimStart = ⟨a + w.length, d :: v⟩ := trimStart_blanks hall (by simp [hd]) a
    rcases embedded_of_next h hkind with ⟨hreader, hexpression⟩ | hcomponent
    · refine .inl ⟨?_, hstart ▸ hexpression⟩
      have hasks := readerOf_asks top (⟨a, w ++ d :: v⟩ : Stretch).line.chars (isTable ⟨a, w ++ d :: v⟩)
      rw [hreader] at hasks
      cases hasks with
      | expression hbrace =>
        have hne : d ≠ '\n' := by
          rintro rfl
          cases hd
        rw [Stretch.chars_line, List.takeWhile_append_of_pos (Text.ne_newline_of_notMem hline),
          List.takeWhile_cons_of_pos (by simpa using hne), Text.trim, Text.trimStart, Text.dropWhile_run hw hd, Text.trimEnd,
          Text.dropEndWhile_cons hd] at hbrace
        exact hbrace
    · exact .inr (hstart ▸ hcomponent)

/-- An expression is what stands in braces, and ends its line. -/
theorem exists_of_expression? (h : expression? scope ⟨o, t⟩ = some (node, stop)) : ∃ source u v, t = u ++ v ∧
    Tag.braced? t = some (source, u.length) ∧ Text.allBlank (Text.firstLine v) ∧
    node = scope.node (.expression source) o (o + u.length) ∧ stop = o + u.length := by
  obtain ⟨⟨source, n⟩, hbraced, h⟩ := Option.bind_eq_some_iff.1 h
  dsimp only at hbraced h
  split at h
  · next hends =>
    cases h
    have hn : n ≤ t.length := by
      obtain ⟨m, hm, hsome⟩ := Option.bind_eq_some_iff.1 hbraced
      cases hsome
      exact (Braces.scan_span hm).1
    have hlength : (t.take n).length = n := List.length_take_of_le hn
    have hstart : ((⟨o, t⟩ : Stretch).drop n).start = o + n := by rw [Stretch.start_drop, Nat.min_eq_left hn]
    refine ⟨source, t.take n, t.drop n, (List.take_append_drop n t).symm, by rw [hlength, hbraced], hends, ?_, ?_⟩
    · rw [hlength, hstart]
    · rw [hlength, hstart]
  · cases h

/-- A line with something behind its blanks is not blank. -/
theorem not_blank_indented (hline : '\n' ∉ w) {d : Char} (hc : c.head? = some d) (hd : Text.isBlank d = false) (a : Nat) :
    (⟨a, w ++ c⟩ : Stretch).lineBlank = false := by
  obtain ⟨u, rfl⟩ := List.head?_eq_some_iff.1 hc
  have hne : d ≠ '\n' := by
    rintro rfl
    cases hd
  rw [lineBlank_mk, Text.firstLine_append_of_notMem hline, Text.firstLine, List.takeWhile_cons_of_pos (by simpa using hne), Text.allBlank,
    List.all_append, List.all_cons, hd, Bool.false_and, Bool.and_false]

/-- A component stands where its tag does, behind blanks on its line. -/
theorem next_component (hw : Text.allBlank w) (hline : '\n' ∉ w)
    (h : component? scope inner ⟨a + w.length, c⟩ = .ok (some (node, stop))) : next scope inner top ⟨a, w ++ c⟩ = .ok (node, stop) := by
  obtain ⟨tag, htag, -⟩ := component?_eq_some.1 h
  obtain ⟨u, rfl⟩ := List.head?_eq_some_iff.1 (Tag.head?_of_read? htag)
  have hstart : (⟨a, w ++ '<' :: u⟩ : Stretch).trimStart = ⟨a + w.length, '<' :: u⟩ := trimStart_blanks hw rfl a
  have hblank := not_blank_indented (c := '<' :: u) hline rfl rfl a
  have hopens := opensTag_line hblank (o := a + w.length) (by rw [hstart]; exact htag)
  rw [next_eq, readerOf_opensTag hopens, Reader.read, hstart, h]
  rfl

/-- A component has the attributes of its tag. -/
theorem exists_tag_of_component? {key : Text} {attributes : List Attribute} (h : component? scope inner s = .ok (some (node, stop)))
    (hkind : node.kind = .component key attributes) : ∃ tag, Tag.read? s.start s.chars = some tag ∧ tag.attributes = attributes := by
  obtain ⟨tag, htag, hr⟩ := component?_eq_some.1 h
  refine ⟨tag, htag, ?_⟩
  cases hr with
  | stray => cases hkind
  | single | pair =>
    cases hkind
    rfl

end

section
variable {t : Text} {m : Node} {ms : List Node}

/-- A component at the front of a text is given another value, in another text, and what follows it stays. -/
theorem Reads.exists_revalued (h : Reads (Scope.ofText (u ++ t) references) (innerOf 957 (Scope.ofText (u ++ t) references)) true
      ⟨u.length, t⟩ (m :: ms)) (hkind : m.kind = .component key attributes) (ha : attributes.find? (·.name = name) = some a)
    (hold : a.value = some old) (hname : name ≠ ['.', '.', '.']) :
    ∃ x v e, t = x ++ (v ++ e) ∧ '<' ∈ x ∧ m.position.isSome ∧
        a.span = some ((u ++ x).length, (u ++ x ++ v).length) ∧
      ∀ v' value, Tag.value? (v' ++ e) = some (value, v'.length) → ∀ u', ∃ m' ms' attributes',
        Reads (Scope.ofText (u' ++ (x ++ (v' ++ e))) references) (innerOf 957 (Scope.ofText (u' ++ (x ++ (v' ++ e))) references)) true
          ⟨u'.length, x ++ (v' ++ e)⟩ (m' :: ms') ∧ m'.kind = .component key attributes' ∧
        (attributes'.map Attribute.bare).find? (·.name = name) = some ⟨name, some value, none⟩ ∧ Alike ms ms' := by
  obtain ⟨b, c, stop, rfl, hb, -, -, hblank, hnext, -, hrest⟩ := h.head
  obtain ⟨w, c, rfl, hw, hline, hcomponent⟩ := exists_embedded hblank hnext (by rw [hkind]; rfl)
  replace hcomponent := hcomponent.resolve_left fun ⟨_, hr⟩ => by
    obtain ⟨_, _, _, -, -, -, rfl, -⟩ := exists_of_expression? hr
    cases hkind
  obtain ⟨tag, htag, rfl⟩ := exists_tag_of_component? hcomponent hkind
  have hfound : a.name ≠ ['.', '.', '.'] := by
    rwa [show a.name = name by simpa using List.find?_some ha]
  obtain ⟨x, v, e, rfl, hlength, hspan⟩ := Tag.exists_value htag (List.mem_of_find?_eq_some ha) hold hfound
  have htext (u y : Text) : u ++ (b ++ (w ++ y)) = u ++ (b ++ w) ++ y := by simp only [List.append_assoc]
  have hplace (u : Text) : u.length + b.length + w.length = (u ++ (b ++ w)).length := by
    simp only [List.length_append]
    omega
  rw [htext, hplace] at hcomponent
  rw [hplace] at hspan
  have hopen : '<' ∈ x := by
    cases x with
    | nil => cases hlength
    | cons c x =>
      obtain rfl := Option.some.inj (Tag.head?_of_read? htag)
      exact List.mem_cons_self
  have hposition : m.position.isSome := by
    obtain ⟨_, _, _, _, rfl, -⟩ := next_made hnext
    rfl
  refine ⟨b ++ (w ++ x), v, e, by simp only [List.append_assoc], by simp [hopen], hposition, ?_, fun v' value hv u' => ?_⟩
  · rw [hspan]
    simp only [List.length_append, Nat.add_assoc]
  obtain ⟨m', y, z, attributes', rfl, rfl, hcomponent', hkind', hvalue⟩ :=
    component?_revalued hcomponent hkind ha hold hspan hname hv (u' ++ (b ++ w))
  have hsince (u v : Text) : (⟨u.length + b.length, w ++ (x ++ (v ++ (y ++ z)))⟩ : Stretch).since
      ((u ++ (b ++ w)).length + (x ++ (v ++ y)).length) = ⟨(u ++ (b ++ w) ++ (x ++ (v ++ y))).length, z⟩ := by
    have hparts : w ++ (x ++ (v ++ (y ++ z))) = (w ++ (x ++ (v ++ y))) ++ z := by simp only [List.append_assoc]
    have hstop : (u ++ (b ++ w)).length + (x ++ (v ++ y)).length = u.length + b.length + (w ++ (x ++ (v ++ y))).length := by
      simp only [List.length_append]
      omega
    have hend : (u ++ (b ++ w) ++ (x ++ (v ++ y))).length = u.length + b.length + (w ++ (x ++ (v ++ y))).length := by
      rw [← hstop, List.length_append]
    rw [hstop, hend, hparts, since_append]
  have hwhole (u v : Text) : u ++ (b ++ w) ++ (x ++ (v ++ (y ++ z))) = u ++ (b ++ w) ++ (x ++ (v ++ y)) ++ z := by
    simp only [List.append_assoc]
  rw [hsince, htext, hwhole] at hrest
  obtain ⟨ms', hms', halike⟩ := hrest.exists_alike (u' ++ (b ++ w) ++ (x ++ (v' ++ y)))
  obtain ⟨tag', htag', -⟩ := component?_eq_some.1 hcomponent'
  have hblank' := not_blank_indented hline (Tag.head?_of_read? htag') rfl (u'.length + b.length)
  rw [← hplace u'] at hcomponent'
  rw [← hsince, ← hwhole, ← hplace] at hms'
  have hreads := (reads_block (Stretch.ne_nil_of_not_blank hblank') hblank').2 ⟨_, _, ms', next_component hw hline hcomponent', hms', rfl⟩
  refine ⟨m', ms', attributes', ?_, hkind', hvalue, halike⟩
  have hnew : b ++ (w ++ x) ++ (v' ++ (y ++ z)) = b ++ (w ++ (x ++ (v' ++ (y ++ z)))) := by simp only [List.append_assoc]
  rw [hnew, htext]
  exact (hb.blanks _).reads_blanks hreads

end

end Markup.Block
end Narration
