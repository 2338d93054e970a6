import Narration.Proofs.Markup.Braces
import Narration.Proofs.Markup.Span

/-!
# Tags that end within some characters

A tag that ends within some characters is read as it is, whatever follows them.

* `Tag.name?_exchange`, `Tag.value?_exchange`, `Tag.attribute?_exchange` : names, values and attributes;
* `Tag.read?_exchange` : tags;
* `Closing.find?_exchange` : closing tags, when no tag is left open by what follows.
-/

namespace Narration

variable {x e : Text} {o n : Nat}

/-! ## Runs -/

namespace Text

/-- A piece is seen within as many characters as it has. -/
theorem after?_append_of_le {p t : Text} (h : p.length ≤ t.length) (e : Text) : after? p (t ++ e) = (after? p t).map (· ++ e) := by
  induction p generalizing t with
  | nil => rfl
  | cons a p ih =>
    cases t with
    | nil => exact absurd h (Nat.not_succ_le_zero _)
    | cons c t =>
      rw [List.cons_append, after?, after?]
      split
      · exact ih (Nat.le_of_succ_le_succ h)
      · rfl

/-- A run that ends within some characters. -/
theorem exists_run_within {p : Char → Bool} (h : ((x ++ e).takeWhile p).length < x.length) : ∃ c y,
    x = (x ++ e).takeWhile p ++ c :: y ∧ (x ++ e).dropWhile p = c :: y ++ e ∧
    ∀ e', (x ++ e').takeWhile p = (x ++ e).takeWhile p ∧ (x ++ e').dropWhile p = c :: y ++ e' := by
  have hlt : (x.takeWhile p).length ≠ x.length := by
    intro hall
    rw [List.takeWhile_append, if_pos hall, List.length_append] at h
    omega
  have htake (e' : Text) : (x ++ e').takeWhile p = x.takeWhile p := by rw [List.takeWhile_append, if_neg hlt]
  obtain ⟨c, y, hy⟩ : ∃ c y, x.dropWhile p = c :: y := by
    refine List.exists_cons_of_ne_nil fun hnil => hlt ?_
    have hx := List.takeWhile_append_dropWhile (p := p) (l := x)
    rw [hnil, List.append_nil] at hx
    rw [hx]
  have hdrop (e' : Text) : (x ++ e').dropWhile p = c :: y ++ e' := by
    rw [List.dropWhile_append, hy, List.isEmpty_cons, if_neg Bool.false_ne_true]
  refine ⟨c, y, ?_, hdrop e, fun e' => ⟨by rw [htake, htake], hdrop e'⟩⟩
  rw [htake, ← hy, List.takeWhile_append_dropWhile]

end Text

namespace Tag

theorem name?_exchange {start part : Char → Bool} {name rest : Text} (h : name? start part (x ++ e) = some (name, rest))
    (hn : name.length < x.length) : ∃ c y, x = name ++ c :: y ∧ rest = c :: y ++ e ∧
      ∀ e', name? start part (x ++ e') = some (name, c :: y ++ e') := by
  cases x with
  | nil => exact absurd hn (Nat.not_lt_zero _)
  | cons a x =>
    rw [List.cons_append, name?] at h
    split at h
    · next hstart =>
      cases h
      obtain ⟨c, y, hx, hdrop, hrun⟩ := Text.exists_run_within (e := e) (Nat.lt_of_succ_lt_succ hn)
      refine ⟨c, y, congrArg (a :: ·) hx, hdrop, fun e' => ?_⟩
      rw [List.cons_append, name?, if_pos hstart, (hrun e').1, (hrun e').2]
    · cases h

theorem spaces_exchange (hn : (spaces (x ++ e)).1 < x.length) : ∃ c y, x.length = (spaces (x ++ e)).1 + (c :: y).length ∧
    x.drop (spaces (x ++ e)).1 = c :: y ∧ ∀ e', spaces (x ++ e') = ((spaces (x ++ e)).1, c :: y ++ e') := by
  obtain ⟨c, y, hx, -, hrun⟩ := Text.exists_run_within hn
  refine ⟨c, y, ?_, ?_, fun e' => ?_⟩
  · have hlength := congrArg List.length hx
    rwa [List.length_append] at hlength
  · have hdrop := @List.drop_left _ ((x ++ e).takeWhile isSpace) (c :: y)
    rwa [← hx] at hdrop
  · rw [spaces, spaces, (hrun e').1, (hrun e').2]

theorem braced?_exchange {source : Text} (h : braced? (x ++ e) = some (source, n)) (hn : n ≤ x.length) (e' : Text) :
    braced? (x ++ e') = some (source, n) := by
  obtain ⟨m, hm, h⟩ := Option.bind_eq_some_iff.1 h
  cases h
  refine Option.bind_eq_some_iff.2 ⟨n, Braces.balanced?_exchange hm hn e', ?_⟩
  rw [List.take_append_of_le_length (by omega), List.take_append_of_le_length (by omega)]
  rfl

theorem cut?_exchange {c : Char} {text rest : Text} (h : Text.cut? c (x ++ e) = some (text, rest)) (hn : text.length < x.length)
    (e' : Text) : ∃ rest', Text.cut? c (x ++ e') = some (text, rest') := by
  simp only [Text.cut?, List.span_eq_takeWhile_dropWhile] at h ⊢
  have htext : text = (x ++ e).takeWhile (· ≠ c) := by
    split at h
    · cases h
    · next hspan =>
      cases h
      exact (Prod.mk.inj hspan).1.symm
  rw [htext] at hn
  obtain ⟨d, y, -, -, hrun⟩ := Text.exists_run_within hn
  rw [(hrun e').1, (hrun e').2, htext]
  exact ⟨_, rfl⟩

theorem braced?_pos {t source : Text} (h : braced? t = some (source, n)) : 0 < n := by
  obtain ⟨m, hm, h⟩ := Option.bind_eq_some_iff.1 h
  cases h
  exact Braces.balanced?_pos hm

theorem value?_pos {t : Text} {value : AttributeValue} (h : value? t = some (value, n)) : 0 < n := by
  unfold value? at h
  split at h
  · obtain ⟨⟨source, length⟩, hbraced, h⟩ := Option.map_eq_some_iff.1 h
    cases h
    exact braced?_pos hbraced
  · split at h
    · obtain ⟨r, -, h⟩ := Option.map_eq_some_iff.1 h
      cases h
      exact Nat.succ_pos _
    · cases h
  · cases h

theorem value?_cons {c : Char} (hc : c ≠ '\x7b') (t : Text) : value? (c :: t) = if c = '"' ∨ c = '\'' then
    (Text.cut? c t).map fun (text, _) => (.literal text, text.length + 2) else none := by
  unfold value?
  split
  · next heq =>
    cases heq
    exact absurd rfl hc
  · next heq =>
    cases heq
    rfl
  · next heq => cases heq

theorem value?_exchange {value : AttributeValue} (h : value? (x ++ e) = some (value, n)) (hn : n ≤ x.length) (e' : Text) :
    value? (x ++ e') = some (value, n) := by
  have hpos := value?_pos h
  cases x with
  | nil => exact absurd hn (Nat.not_le.2 hpos)
  | cons c x =>
    by_cases hc : c = '\x7b'
    · subst hc
      obtain ⟨⟨source, length⟩, hbraced, h⟩ := Option.map_eq_some_iff.1 h
      cases h
      have hexchange := braced?_exchange (x := '\x7b' :: x) hbraced hn e'
      exact Option.map_eq_some_iff.2 ⟨_, hexchange, rfl⟩
    · simp only [List.cons_append] at h ⊢
      rw [value?_cons hc] at h ⊢
      split at h
      · next hquote =>
        rw [if_pos hquote]
        obtain ⟨⟨text, rest⟩, hcut, h⟩ := Option.map_eq_some_iff.1 h
        cases h
        obtain ⟨rest', hcut'⟩ := cut?_exchange hcut (by rw [List.length_cons] at hn; omega) e'
        exact Option.map_eq_some_iff.2 ⟨_, hcut', rfl⟩
      · cases h

/-- An attribute is not empty. -/
theorem attribute?_pos {t : Text} {a : Attribute} (h : attribute? o t = some (a, n)) : 0 < n := by
  unfold attribute? at h
  split at h
  · obtain ⟨⟨source, length⟩, hbraced, h⟩ := Option.map_eq_some_iff.1 h
    cases h
    exact braced?_pos hbraced
  · obtain ⟨⟨name, rest⟩, hname, h⟩ := Option.bind_eq_some_iff.1 h
    have hpos : 0 < name.length := by
      unfold name? at hname
      split at hname
      · cases hname
      · split at hname
        · cases hname
          exact Nat.succ_pos _
        · cases hname
    dsimp only at h
    split at h
    · obtain ⟨⟨value, length⟩, -, h⟩ := Option.bind_eq_some_iff.1 h
      cases h
      omega
    · cases h
      omega

/-- The attribute of a name: with a value, if an equals sign follows. -/
def ofName? (o : Nat) (r : Text × Text) : Option (Attribute × Nat) :=
  match (spaces r.2).2 with
  | '=' :: rest => (value? (spaces rest).2).bind fun value =>
    some (⟨r.1, some value.1, some (o + (r.1.length + (spaces r.2).1 + 1 + (spaces rest).1),
      o + (r.1.length + (spaces r.2).1 + 1 + (spaces rest).1) + value.2)⟩,
      r.1.length + (spaces r.2).1 + 1 + (spaces rest).1 + value.2)
  | _ => some (⟨r.1, none, none⟩, r.1.length + (spaces r.2).1)

theorem attribute?_of_ne {t : Text} (ht : t.head? ≠ some '\x7b') :
    attribute? o t = (name? isAttributeStart isAttributePart t).bind (ofName? o) := by
  unfold attribute?
  split
  · exact absurd rfl ht
  · rfl

theorem attribute?_exchange {a : Attribute} (h : attribute? o (x ++ e) = some (a, n)) (hn : n < x.length) (e' : Text) :
    attribute? o (x ++ e') = some (a, n) := by
  cases x with
  | nil => exact absurd hn (Nat.not_lt_zero _)
  | cons c x =>
    by_cases hc : c = '\x7b'
    · subst hc
      obtain ⟨⟨source, length⟩, hbraced, h⟩ := Option.map_eq_some_iff.1 h
      cases h
      have hexchange := braced?_exchange (x := '\x7b' :: x) hbraced (Nat.le_of_lt hn) e'
      exact Option.map_eq_some_iff.2 ⟨_, hexchange, rfl⟩
    · have hne (e : Text) : (c :: x ++ e).head? ≠ some '\x7b' := by simpa using hc
      rw [attribute?_of_ne (hne e)] at h
      rw [attribute?_of_ne (hne e')]
      obtain ⟨⟨name, rest⟩, hname, h⟩ := Option.bind_eq_some_iff.1 h
      unfold ofName? at h ⊢
      dsimp only at h
      have hgap : name.length + (spaces rest).1 < (c :: x).length := by
        split at h
        · obtain ⟨⟨value, length⟩, -, h⟩ := Option.bind_eq_some_iff.1 h
          cases h
          omega
        · cases h
          exact hn
      obtain ⟨d, y, hx, rfl, hname'⟩ := name?_exchange hname (by omega)
      have hlength := congrArg List.length hx
      rw [List.length_append] at hlength
      obtain ⟨d', y', hy, -, hspaces⟩ := spaces_exchange (x := d :: y) (e := e) (by omega)
      rw [hname' e', Option.bind_some]
      dsimp only
      rw [hspaces e']
      rw [hspaces e] at h
      generalize (spaces (d :: y ++ e)).1 = gap at *
      dsimp only [List.cons_append] at h ⊢
      by_cases hd : d' = '='
      · subst hd
        obtain ⟨⟨value, length⟩, hvalue, h⟩ := Option.bind_eq_some_iff.1 h
        cases h
        have hpos := value?_pos hvalue
        have hy : (d :: y).length = gap + (y'.length + 1) := hy
        obtain ⟨d'', y'', hy', -, hspaces'⟩ := spaces_exchange (x := y') (e := e) (by omega)
        rw [hspaces' e] at hvalue
        have hvalue' := value?_exchange (x := d'' :: y'') hvalue (by omega) e'
        refine Option.bind_eq_some_iff.2 ⟨(value, length), ?_, ?_⟩
        · rw [hspaces' e']
          exact hvalue'
        · rw [hspaces' e']
      · split at h
        · next heq =>
          cases heq
          exact absurd rfl hd
        · split
          · next heq =>
            cases heq
            exact absurd rfl hd
          · exact h

theorem tail?_exchange {closing : Bool} {fuel fuel' : Nat} {tail : Tail} (h : tail? closing fuel o (x ++ e) = some tail)
    (hstop : tail.stop ≤ o + x.length) (hf : x.length ≤ fuel') (e' : Text) : tail? closing fuel' o (x ++ e') = some tail := by
  induction fuel generalizing o x fuel' tail with
  | zero => cases h
  | succ fuel ih =>
    have hlt := lt_stop_of_tail? h
    obtain ⟨fuel', rfl⟩ := Nat.exists_eq_succ_of_ne_zero (show fuel' ≠ 0 by omega)
    rw [tail?] at h ⊢
    have hspace : (spaces (x ++ e)).1 < x.length := by
      dsimp only at h
      split at h
      · cases h
      · cases h
        dsimp only at hstop
        omega
      · cases h
        dsimp only at hstop
        omega
      · split at h
        · cases h
        · obtain ⟨⟨a, length⟩, -, h⟩ := Option.bind_eq_some_iff.1 h
          obtain ⟨rest, hrest, h⟩ := Option.bind_eq_some_iff.1 h
          cases h
          have hpast := lt_stop_of_tail? hrest
          dsimp only [Tail.cons] at hstop
          omega
    obtain ⟨c, y, hlength, -, hspaces⟩ := spaces_exchange hspace
    rw [hspaces e] at h
    rw [hspaces e']
    generalize (spaces (x ++ e)).1 = gap at *
    dsimp only [List.cons_append] at h ⊢
    split at h
    · next heq => cases heq
    · next heq =>
      obtain ⟨rfl, hy⟩ := List.cons.inj heq
      cases y with
      | nil =>
        cases h
        dsimp only [List.length_cons, List.length_nil] at hstop hlength
        omega
      | cons d y =>
        cases (List.cons.inj hy).1
        exact h
    · next heq =>
      cases (List.cons.inj heq).1
      exact h
    · next hslash hbracket =>
      split at h
      · cases h
      · next hopens =>
        obtain ⟨⟨a, length⟩, ha, h⟩ := Option.bind_eq_some_iff.1 h
        obtain ⟨rest, hrest, h⟩ := Option.bind_eq_some_iff.1 h
        cases h
        have hpast := lt_stop_of_tail? hrest
        have hpos := attribute?_pos ha
        have hc : c ≠ '/' := by
          rintro rfl
          cases ha
        have hc' : c ≠ '>' := by
          rintro rfl
          exact hbracket _ rfl
        dsimp only [Tail.cons] at hstop
        dsimp only at hrest
        rw [← List.cons_append, List.drop_append_of_le_length (by omega)] at hrest
        have ha' := attribute?_exchange (x := c :: y) ha (by omega) e'
        have hrest' := ih hrest (by rw [List.length_drop]; omega)
          (show ((c :: y).drop length).length ≤ fuel' by rw [List.length_drop]; omega)
        split
        · next heq => cases heq
        · next heq => exact absurd (List.cons.inj heq).1 hc
        · next heq => exact absurd (List.cons.inj heq).1 hc'
        · rw [if_neg hopens]
          refine Option.bind_eq_some_iff.2 ⟨_, ha', Option.bind_eq_some_iff.2 ⟨rest, ?_, rfl⟩⟩
          dsimp only
          rw [← List.cons_append, List.drop_append_of_le_length (by omega)]
          exact hrest'

theorem body?_exchange {closing : Bool} {tag : Tag} (h : body? o closing (x ++ e) = some tag)
    (hstop : tag.stop ≤ o + (if closing then 2 else 1) + x.length) (e' : Text) : body? o closing (x ++ e') = some tag := by
  unfold body? at h ⊢
  generalize (if closing then 2 else 1) = width at *
  dsimp only at h ⊢
  split at h
  · next rest heq =>
    cases h
    cases x with
    | nil =>
      dsimp only [List.length_nil] at hstop
      omega
    | cons c x =>
      cases (List.cons.inj heq).1
      rfl
  · next hbracket =>
    obtain ⟨⟨name, rest⟩, hname, h⟩ := Option.bind_eq_some_iff.1 h
    obtain ⟨d, hd, h⟩ := Option.bind_eq_some_iff.1 h
    split at h
    · next hends =>
      obtain ⟨tail, htail, h⟩ := Option.bind_eq_some_iff.1 h
      cases h
      have hpast := lt_stop_of_tail? htail
      dsimp only at hstop hpast
      obtain ⟨d', y, hx, rfl, hname'⟩ := name?_exchange hname (by omega)
      have hlength := congrArg List.length hx
      rw [List.length_append] at hlength
      have htail' := tail?_exchange (x := d' :: y) htail (by dsimp only; omega)
        (show (d' :: y).length ≤ (d' :: y ++ e').length + 1 by rw [List.length_append]; omega) e'
      cases x with
      | nil => exact absurd hx.symm (by simp)
      | cons c x =>
        split
        · next heq =>
          cases (List.cons.inj heq).1
          exact absurd rfl (hbracket (x ++ e))
        · refine Option.bind_eq_some_iff.2 ⟨_, hname' e', Option.bind_eq_some_iff.2 ⟨d, hd, ?_⟩⟩
          rw [if_pos hends]
          exact Option.bind_eq_some_iff.2 ⟨tail, htail', rfl⟩
    · cases h

/-- A tag has two brackets. -/
theorem extent_of_read? {t : Text} {tag : Tag} (h : read? o t = some tag) : o + 1 < tag.stop ∧ tag.stop ≤ o + t.length := by
  rw [← Nat.zero_add o, read?_add] at h
  obtain ⟨first, hfirst, rfl⟩ := Option.map_eq_some_iff.1 h
  have hspan := read?_span (Markup.Stretch.in_self t) hfirst
  have hlt := hspan.lt
  have hle := hspan.stop_le
  rw [hspan.start] at hlt
  dsimp only [moved]
  omega

/-- A tag that ends within some characters is read whatever follows them. -/
theorem read?_exchange {tag : Tag} (h : read? o (x ++ e) = some tag) (hstop : tag.stop ≤ o + x.length) (e' : Text) :
    read? o (x ++ e') = some tag := by
  have hlt := (extent_of_read? h).1
  match x with
  | [] => exact absurd hstop (Nat.not_le.2 (Nat.lt_of_succ_lt hlt))
  | [c] => exact absurd hstop (Nat.not_le.2 hlt)
  | c :: d :: x =>
    dsimp only [List.cons_append, List.length_cons] at h hstop ⊢
    unfold read? at h ⊢
    split at h
    · next heq =>
      cases heq
      have hle : tag.stop ≤ o + (if true then 2 else 1) + x.length := by
        rw [if_pos rfl]
        omega
      exact body?_exchange h hle e'
    · next hslash heq =>
      obtain ⟨rfl, rfl⟩ := List.cons.inj heq
      have hd : d ≠ '/' := by
        rintro rfl
        exact hslash _ rfl
      split
      · next heq' => exact absurd (List.cons.inj (List.cons.inj heq').2).1 hd
      · next heq' =>
        cases heq'
        exact body?_exchange (x := d :: x) h (by rw [if_neg Bool.false_ne_true, List.length_cons]; omega) e'
      · next hnot => exact absurd rfl (hnot _)
    · cases h

end Tag

/-! ## Closing tags -/

namespace Markup.Closing

variable {name t : Text}

theorem named?_append_of_lt (ht : name.length < t.length) (e : Text) : named? name (t ++ e) = (named? name t).map (· ++ e) := by
  rw [named?, named?, Text.after?_append_of_le (Nat.le_of_lt ht)]
  cases hrest : Text.after? name t with
  | none => rfl
  | some rest =>
    rw [Text.after?_eq_some] at hrest
    obtain ⟨c, rest, rfl⟩ : ∃ c y, rest = c :: y := by
      refine List.exists_cons_of_ne_nil ?_
      rintro rfl
      rw [hrest, List.append_nil] at ht
      exact absurd ht (Nat.lt_irrefl _)
    show (if (c :: rest ++ e).head?.any (endsName name) then some (c :: rest ++ e) else none) =
      Option.map (· ++ e) (if (c :: rest).head?.any (endsName name) then some (c :: rest) else none)
    by_cases hc : (c :: rest).head?.any (endsName name)
    · rw [if_pos hc, if_pos (show (c :: rest ++ e).head?.any (endsName name) from hc), Option.map_some]
    · rw [if_neg hc, if_neg (show ¬(c :: rest ++ e).head?.any (endsName name) from hc), Option.map_none]

/-- A tag bracket is seen within a few characters. -/
theorem mention?_append_of_lt (ht : name.length + 1 < t.length) (e : Text) :
    mention? name (t ++ e) = (mention? name t).map fun r => (r.1, r.2 ++ e) := by
  have hslash : (Text.after? ['/'] (t ++ e)).bind (named? name) =
      ((Text.after? ['/'] t).bind (named? name)).map (· ++ e) := by
    rw [Text.after?_append_of_le (by rw [List.length_singleton]; omega)]
    cases hrest : Text.after? ['/'] t with
    | none => rfl
    | some rest =>
      rw [Text.after?_eq_some] at hrest
      rw [hrest, List.length_append, List.length_singleton] at ht
      rw [Option.map_some, Option.bind_some, Option.bind_some, named?_append_of_lt (by omega)]
  rw [mention?, mention?, hslash, named?_append_of_lt (by omega)]
  cases (Text.after? ['/'] t).bind (named? name) with
  | some rest => rfl
  | none =>
    cases named? name t with
    | some rest => rfl
    | none => rfl

theorem named?_eq_append {rest : Text} (h : named? name t = some rest) : t = name ++ rest := by
  obtain ⟨r, hr, h⟩ := Option.bind_eq_some_iff.1 h
  split at h
  · cases h
    exact Text.after?_eq_some.1 hr
  · cases h

theorem length_of_mention? {closing : Bool} {rest : Text} (h : mention? name t = some (closing, rest)) :
    t.length = (if closing then 1 else 0) + name.length + rest.length := by
  unfold mention? at h
  split at h
  · next r hr =>
    cases h
    obtain ⟨v, hv, hnamed⟩ := Option.bind_eq_some_iff.1 hr
    rw [(Text.after?_eq_some (p := ['/'])).1 hv, named?_eq_append hnamed]
    simp
    omega
  · obtain ⟨r, hr, h⟩ := Option.map_eq_some_iff.1 h
    cases h
    rw [named?_eq_append hr]
    simp

/-- A closing tag comes after what is skipped, and holds a slash and the name between its brackets. -/
theorem length_le_findFrom {depth skip first stop : Nat} (h : findFrom name depth skip o t = some (first, stop)) :
    o + skip + name.length + 3 ≤ stop := by
  fun_induction findFrom name depth skip o t
  case case1 | case5 => cases h
  case case6 depth o c t hc rest hmention n hfind length hdepth =>
    cases h
    have hlength := length_of_mention? hmention
    rw [if_pos rfl] at hlength
    dsimp only [length]
    omega
  all_goals
    next ih =>
      have hle := ih h
      omega

theorem findIdx?_exchange {p : Char → Bool} {n : Nat} (h : (x ++ e).findIdx? p = some n) (hn : n < x.length) (e' : Text) :
    (x ++ e').findIdx? p = some n := by
  rw [List.findIdx?_append, Option.or_eq_some_iff] at h
  rcases h with h | ⟨-, h⟩
  · rw [List.findIdx?_append, h, Option.some_or]
  · obtain ⟨m, -, rfl⟩ := Option.map_eq_some_iff.1 h
    omega

/-- A closing tag that ends within some characters is found whatever follows them, when what follows opens no tag among
them. -/
theorem findFrom_exchange {e' : Text} (hread : ∀ y, y <:+ x → Tag.read? 0 (y ++ e) = none → Tag.read? 0 (y ++ e') = none)
    {depth skip first stop : Nat} (h : findFrom name depth skip o (x ++ e) = some (first, stop)) (hstop : stop ≤ o + x.length) :
    findFrom name depth skip o (x ++ e') = some (first, stop) := by
  induction x generalizing depth skip o with
  | nil =>
    have hle := length_le_findFrom h
    rw [List.length_nil] at hstop
    omega
  | cons c x ih =>
    rw [List.length_cons] at hstop
    have hle := length_le_findFrom h
    have ih {depth skip : Nat} (h : findFrom name depth skip (o + 1) (x ++ e) = some (first, stop)) :
        findFrom name depth skip (o + 1) (x ++ e') = some (first, stop) :=
      ih (fun y hy => hread y (hy.trans (List.suffix_cons c x))) h (by omega)
    rw [List.cons_append] at h ⊢
    cases skip with
    | succ skip => exact ih h
    | zero =>
      rw [findFrom] at h ⊢
      by_cases hc : c ≠ '<'
      · rw [if_pos hc] at h ⊢
        exact ih h
      · rw [if_neg hc] at h ⊢
        rw [mention?_append_of_lt (by omega)] at h ⊢
        cases hmention : mention? name x with
        | none =>
          rw [hmention] at h
          exact ih h
        | some r =>
          obtain ⟨closing, rest⟩ := r
          have hlength := length_of_mention? hmention
          rw [hmention, Option.map_some] at h
          rw [Option.map_some]
          have hgap (e : Text) : (x ++ e).length - (rest ++ e).length = x.length - rest.length := by
            rw [List.length_append, List.length_append, Nat.add_sub_add_right]
          cases closing with
          | true =>
            dsimp only at h ⊢
            rw [hgap] at h ⊢
            cases hfind : (rest ++ e).findIdx? (· = '>') with
            | none =>
              rw [hfind] at h
              cases h
            | some n =>
              rw [hfind] at h
              have hn : n < rest.length := by
                dsimp only at h
                split at h
                · cases h
                  omega
                · have hle' := length_le_findFrom h
                  omega
              rw [findIdx?_exchange hfind hn e']
              dsimp only at h ⊢
              split at h
              · next hdepth =>
                rw [if_pos hdepth]
                exact h
              · next hdepth =>
                rw [if_neg hdepth]
                exact ih h
          | false =>
            dsimp only at h ⊢
            rw [hgap] at h ⊢
            cases htag : Tag.read? o (c :: (x ++ e)) with
            | none =>
              have htag' : Tag.read? o (c :: (x ++ e')) = none := by
                rw [← Nat.zero_add o, Tag.read?_add, Option.map_eq_none_iff] at htag ⊢
                exact hread (c :: x) List.suffix_rfl htag
              rw [htag] at h
              rw [htag']
              exact ih h
            | some tag =>
              rw [htag] at h
              have hlt := Tag.lt_stop_of_read? htag
              have hle' := length_le_findFrom h
              have htag' := Tag.read?_exchange (x := c :: x) htag (by rw [List.length_cons]; omega) e'
              rw [List.cons_append] at htag'
              rw [htag']
              exact ih h

theorem find?_exchange {e' : Text} (hread : ∀ y, y <:+ x → Tag.read? 0 (y ++ e) = none → Tag.read? 0 (y ++ e') = none)
    {first stop : Nat} (h : find? name o (x ++ e) = some (first, stop)) (hstop : stop ≤ o + x.length) :
    find? name o (x ++ e') = some (first, stop) := findFrom_exchange hread h hstop

end Markup.Closing
end Narration
