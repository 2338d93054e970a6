import Narration.Proofs.Markup.Near

/-!
# Tags in texts with one line feed more

* `Tag.value?_near`, `Tag.attribute?_near`, `Tag.read?_near` : a tag is read in both texts, or in neither;
* `Closing.find?_near` : as is the tag that closes an open one.
-/

namespace Narration
open Text (EndsLine)

variable {e t t' u u' x y : Text} {c : Char} {k k' n n' o o' : Nat}

section Near
variable (he : EndsLine e)

/-! ## Tags -/

namespace Tag

include he in
theorem braced?_near (h : Near e t t') : Option.Rel (fun r r' => NearAt e t t' r.2 r'.2) (braced? t) (braced? t') :=
  bind_rel (Braces.scan_near he h 0) fun _ _ hn => .some hn

theorem drop_spaces (t : Text) : t.drop (spaces t).1 = (spaces t).2 := by
  have hrun := @List.drop_left _ (t.takeWhile isSpace) (t.dropWhile isSpace)
  rwa [List.takeWhile_append_dropWhile] at hrun

theorem spaces_near (h : Near e t t') : Near e (spaces t).2 (spaces t').2 := by
  cases h with
  | below t => exact .below _
  | @above y hy =>
    obtain ⟨u, v, rfl, hu, rfl | ⟨c, v, rfl, hc⟩⟩ := Text.exists_run isSpace y
    · have hdrop (w : Text) : (spaces (u ++ [] ++ w)).2 = w.dropWhile isSpace := by
        rw [spaces, List.append_nil, List.dropWhile_append_of_pos hu]
      rw [hdrop, hdrop, List.dropWhile_cons_of_pos (by decide)]
      exact .below _
    · have hdrop (w : Text) : (spaces (u ++ c :: v ++ w)).2 = c :: v ++ w := by
        rw [spaces, List.append_assoc, List.cons_append, Text.dropWhile_run hu hc]
      rw [hdrop, hdrop]
      exact .above (hy.suffix (List.suffix_append u _))

section Name
variable {start part : Char → Bool} (hblank : ∀ c, isSpace c → start c = false ∧ part c = false)
include hblank

/-- A name ends at a blank. -/
theorem name?_append {v : Text} (hv : EndsLine v) (y : Text) :
    name? start part (y ++ v) = (name? start part y).map fun r => (r.1, r.2 ++ v) := by
  obtain ⟨hstart, hpart⟩ := hblank '\n' (by decide)
  cases y with
  | nil =>
    rcases hv with rfl | ⟨v, rfl⟩
    · rfl
    · exact if_neg (by simp [hstart])
  | cons c y =>
    rw [List.cons_append, name?, name?, hv.takeWhile_append hpart, hv.dropWhile_append hpart]
    split <;> rfl

theorem not_isSpace_of_name? {name rest : Text} (h : name? start part t = some (name, rest)) : ∀ c ∈ name, isSpace c = false := by
  have hnot {c : Char} (hc : start c ∨ part c) : isSpace c = false := by
    rw [← Bool.not_eq_true]
    intro hspace
    obtain ⟨hstart, hpart⟩ := hblank c hspace
    rw [hstart, hpart] at hc
    simp at hc
  cases t with
  | nil => cases h
  | cons c t =>
    rw [name?] at h
    split at h
    · next hc =>
      cases h
      exact List.forall_mem_cons.2 ⟨hnot (.inl hc), fun d hd => hnot (.inr (List.mem_takeWhile_imp hd))⟩
    · cases h

include he in
/-- The same name, after which the same character comes. -/
theorem name?_near (h : Near e t t') : Option.Rel (fun r r' => r'.1 = r.1 ∧ Near e r.2 r'.2 ∧ r'.2.head? = r.2.head? ∧
    t.drop r.1.length = r.2 ∧ t'.drop r'.1.length = r'.2) (name? start part t) (name? start part t') := by
  have hdrop {t : Text} {r : Text × Text} (h : name? start part t = some r) : t.drop r.1.length = r.2 := by
    rw [name?_span h, List.drop_left]
  cases h with
  | below t =>
    cases hname : name? start part t with
    | none => exact .none
    | some r => exact .some ⟨rfl, .below _, rfl, hdrop hname, hdrop hname⟩
  | @above y hy =>
    have happend {v : Text} (hv : EndsLine v) := name?_append hblank hv y
    cases hname : name? start part y with
    | none =>
      rw [happend he, happend (.inr ⟨e, rfl⟩), hname]
      exact .none
    | some r =>
      obtain ⟨name, rest⟩ := r
      have hsplit := name?_span hname
      obtain ⟨c, rest, rfl⟩ : ∃ c x, rest = c :: x := by
        refine List.exists_cons_of_ne_nil ?_
        rintro rfl
        rw [List.append_nil] at hsplit
        subst hsplit
        cases hlast : y.getLast? with
        | none =>
          rw [List.getLast?_eq_none_iff.1 hlast] at hname
          cases hname
        | some c =>
          have hspace := hy c hlast
          rw [not_isSpace_of_name? hblank hname c (List.mem_of_getLast? hlast)] at hspace
          cases hspace
      have hvalue {v : Text} (hv : EndsLine v) : name? start part (y ++ v) = some (name, c :: rest ++ v) := by
        rw [happend hv, hname, Option.map_some]
      rw [hvalue he, hvalue (.inr ⟨e, rfl⟩)]
      exact .some ⟨rfl, .above (hy.suffix ⟨name, hsplit.symm⟩), rfl, hdrop (hvalue he), hdrop (hvalue (.inr ⟨e, rfl⟩))⟩

end Name

include he in
theorem cut?_near (h : Near e t t') (hc : c ≠ '\n') :
    Option.Rel (fun r r' => NearAt e t t' (r.1.length + 1) (r'.1.length + 1)) (Text.cut? c t) (Text.cut? c t') := by
  cases h with
  | below t => exact refl_rel (fun _ => .below _) _
  | @above y hy =>
    by_cases hmem : c ∈ y
    · obtain ⟨u, v, rfl, hu⟩ := List.eq_append_cons_of_mem hmem
      simp only [List.append_assoc, List.cons_append, Text.cut?_append hu]
      have hnear := nearAt_of_le (e := e) hy (n := u.length + 1) (by simp)
      rw [List.append_assoc, List.append_assoc] at hnear
      exact .some hnear
    · by_cases hafter : c ∈ e
      · obtain ⟨u, v, rfl, hu⟩ := List.eq_append_cons_of_mem hafter
        have hcut (w : Text) (hw : c ∉ w) : Text.cut? c (w ++ (u ++ c :: v)) = some (w ++ u, v) := by
          rw [← List.append_assoc, Text.cut?_append]
          rw [List.mem_append]
          tauto
        have hnot : c ∉ y ++ ['\n'] := by simp [hmem, hc]
        have hsplit : y ++ '\n' :: (u ++ c :: v) = y ++ ['\n'] ++ (u ++ c :: v) := by simp
        rw [hsplit, hcut y hmem, hcut _ hnot]
        refine .some ?_
        have hdrop (w : Text) : (w ++ (u ++ c :: v)).drop ((w ++ u).length + 1) = v := by
          rw [← List.append_assoc, ← List.drop_drop, List.drop_left]
          rfl
        rw [NearAt, hdrop, hdrop]
        exact .below v
      · have hnot : c ∉ y ++ '\n' :: e := by simp [hmem, hc, hafter]
        rw [Text.cut?_of_notMem hnot, Text.cut?_of_notMem (by simp [hmem, hafter])]
        exact .none

include he in
theorem value?_near (h : Near e t t') : Option.Rel (fun r r' => NearAt e t t' r.2 r'.2) (value? t) (value? t') := by
  rcases h.cases_head he (c := '\x7b') (by decide) with ⟨u, u', rfl, rfl, -⟩ | ⟨hne, hne'⟩
  · exact map_rel (braced?_near he h) fun _ _ hn => hn
  have hquote {q : Char} {u u' : Text} (hq : q = '"' ∨ q = '\'') (hu : Near e u u') :
      Option.Rel (fun r r' => NearAt e (q :: u) (q :: u') r.2 r'.2) (value? (q :: u)) (value? (q :: u')) := by
    have hbrace : q ≠ '\x7b' := by
      rintro rfl
      simp at hq
    rw [value?_cons hbrace, value?_cons hbrace, if_pos hq, if_pos hq]
    refine map_rel (cut?_near he hu ?_) fun _ _ hn => hn.cons q
    rintro rfl
    simp at hq
  rcases h.cases_head he (c := '"') (by decide) with ⟨u, u', rfl, rfl, hu⟩ | ⟨hdouble, hdouble'⟩
  · exact hquote (.inl rfl) hu
  rcases h.cases_head he (c := '\'') (by decide) with ⟨u, u', rfl, rfl, hu⟩ | ⟨hsingle, hsingle'⟩
  · exact hquote (.inr rfl) hu
  have hnone {t : Text} (hbrace : t.head? ≠ some '\x7b') (hdouble : t.head? ≠ some '"') (hsingle : t.head? ≠ some '\'') :
      value? t = none := by
    cases t with
    | nil => rfl
    | cons c t =>
      simp only [List.head?_cons, ne_eq, Option.some.injEq] at hbrace hdouble hsingle
      rw [value?_cons hbrace, if_neg (by simp [hdouble, hsingle])]
  rw [hnone hne hdouble hsingle, hnone hne' hdouble' hsingle']
  exact .none

theorem attributeChars_of_isSpace {c : Char} (h : isSpace c) : isAttributeStart c = false ∧ isAttributePart c = false := by
  simp only [isSpace, Bool.or_eq_true, beq_iff_eq] at h
  rcases h with ((rfl | rfl) | rfl) | rfl <;> decide

theorem nameChars_of_isSpace {c : Char} (h : isSpace c) : isNameStart c = false ∧ isNamePart c = false := by
  simp only [isSpace, Bool.or_eq_true, beq_iff_eq] at h
  rcases h with ((rfl | rfl) | rfl) | rfl <;> decide

include he in
theorem attribute?_near (h : Near e t t') (o o' : Nat) :
    Option.Rel (fun r r' => NearAt e t t' r.2 r'.2) (attribute? o t) (attribute? o' t') := by
  rcases h.cases_head he (c := '\x7b') (by decide) with ⟨u, u', rfl, rfl, -⟩ | ⟨hne, hne'⟩
  · exact map_rel (braced?_near he h) fun _ _ hn => hn
  rw [attribute?_of_ne hne, attribute?_of_ne hne']
  refine bind_rel (name?_near he (fun _ => attributeChars_of_isSpace) h) ?_
  rintro r r' ⟨-, hrest, -, hdrop, hdrop'⟩
  have hspaces := spaces_near hrest
  rcases hspaces.cases_head he (c := '=') (by decide) with ⟨u, u', hu, hu', hnear⟩ | ⟨heq, heq'⟩
  · rw [ofName?, ofName?, hu, hu']
    refine bind_rel (value?_near he (spaces_near hnear)) fun v v' hv => .some ?_
    have hequals (t u : Text) (h : (spaces t).2 = '=' :: u) : t.drop ((spaces t).1 + 1) = u := by
      rw [← List.drop_drop, drop_spaces, h]
      rfl
    have hvalue := ((hv.add (drop_spaces u) (drop_spaces u')).add (hequals _ _ hu) (hequals _ _ hu')).add hdrop hdrop'
    exact hvalue.of_eq (by dsimp only; omega) (by dsimp only; omega)
  · have hplain {r : Text × Text} {o : Nat} (heq : (spaces r.2).2.head? ≠ some '=') :
        ofName? o r = some (⟨r.1, none, none⟩, r.1.length + (spaces r.2).1) := by
      unfold ofName?
      split
      · next hhead =>
        rw [hhead] at heq
        exact absurd rfl heq
      · rfl
    rw [hplain heq, hplain heq']
    have hend : NearAt e r.2 r'.2 (spaces r.2).1 (spaces r'.2).1 := by
      rw [NearAt, drop_spaces, drop_spaces]
      exact hspaces
    have hname := hend.add hdrop hdrop'
    rw [Nat.add_comm, Nat.add_comm (spaces r'.2).1] at hname
    exact .some hname

/-- Ends of tags after which what is left stands for each other. -/
def TailNear (e t t' : Text) (o o' : Nat) (r r' : Tail) : Prop :=
  r'.selfClosing = r.selfClosing ∧ ∃ n n', r.stop = o + n ∧ r'.stop = o' + n' ∧ NearAt e t t' n n'

/-- A tag that goes on with something else than its end goes on with an attribute. -/
theorem tail?_attribute {closing : Bool} {fuel o : Nat} {t : Text} (hslash : ∀ u, (spaces t).2 ≠ '/' :: '>' :: u)
    (hbracket : (spaces t).2.head? ≠ some '>') : tail? closing (fuel + 1) o t = if closing then none else
      (attribute? (o + (spaces t).1) (spaces t).2).bind fun r =>
        (tail? closing fuel (o + (spaces t).1 + r.2) ((spaces t).2.drop r.2)).map (Tail.cons r.1) := by
  rw [tail?]
  generalize spaces t = r at *
  obtain ⟨gap, u⟩ := r
  dsimp only at *
  split
  · cases closing <;> rfl
  · exact absurd rfl (hslash _)
  · exact absurd rfl hbracket
  · cases closing with
    | true => rfl
    | false =>
      simp only [Option.bind_eq_bind, Option.pure_def, Bool.false_eq_true, if_false]
      refine Option.bind_congr fun r _ => ?_
      cases tail? false fuel (o + gap + r.2) (u.drop r.2) <;> rfl

theorem length_pos_of_attribute? {o : Nat} {t : Text} {r : Attribute × Nat} (h : attribute? o t = some r) : 0 < t.length := by
  cases t with
  | nil => cases h
  | cons c t => exact Nat.succ_pos _

theorem length_spaces_le (t : Text) : (spaces t).2.length ≤ t.length := (List.dropWhile_sublist _).length_le

include he in
theorem tail?_near (closing : Bool) {fuel fuel' : Nat} (h : Near e t t') (hf : t.length < fuel) (hf' : t'.length < fuel') (o o' : Nat) :
    Option.Rel (TailNear e t t' o o') (tail? closing fuel o t) (tail? closing fuel' o' t') := by
  induction fuel generalizing fuel' t t' o o' with
  | zero => exact absurd hf (Nat.not_lt_zero _)
  | succ fuel ih =>
    obtain ⟨fuel', rfl⟩ := Nat.exists_eq_succ_of_ne_zero (Nat.ne_of_gt (Nat.lt_of_le_of_lt (Nat.zero_le _) hf'))
    have hspaces := spaces_near h
    have hle := length_spaces_le t
    have hle' := length_spaces_le t'
    have hgap := drop_spaces t
    have hgap' := drop_spaces t'
    -- a mark of one or two characters that ends both tags
    have hends {k : Nat} {u u' : Text} (hu : (spaces t).2.drop k = u) (hu' : (spaces t').2.drop k = u') (hnear : Near e u u')
        (selfClosing : Bool) : TailNear e t t' o o' ⟨[], selfClosing, o + (spaces t).1 + k⟩ ⟨[], selfClosing, o' + (spaces t').1 + k⟩ := by
      refine ⟨rfl, k + (spaces t).1, k + (spaces t').1, by dsimp only; omega, by dsimp only; omega, ?_⟩
      subst hu hu'
      exact NearAt.add hnear hgap hgap'
    by_cases hclose : (spaces t).2.head? = some '>'
    · rcases hspaces.cases_head he (c := '>') (by decide) with ⟨u, u', hu, hu', hnear⟩ | ⟨hne, -⟩
      · have hend := hends (k := 1) (by rw [hu]; rfl) (by rw [hu']; rfl) hnear false
        rw [tail?, tail?]
        simp only [hu, hu']
        exact .some hend
      · exact absurd hclose hne
    · rcases hspaces.cases_head he (c := '>') (by decide) with ⟨u, u', hu, -, -⟩ | ⟨-, hclose'⟩
      · exact absurd (by rw [hu]; rfl) hclose
      by_cases hslash : ∃ u, (spaces t).2 = '/' :: '>' :: u
      · obtain ⟨u, hu⟩ := hslash
        rcases hspaces.cases_head he (c := '/') (by decide) with ⟨v, v', hv, hv', hnear⟩ | ⟨hne, -⟩
        · obtain rfl : '>' :: u = v := (List.cons.inj (hu.symm.trans hv)).2
          rcases hnear.cases_head he (c := '>') (by decide) with ⟨w, w', hw, rfl, hnear⟩ | ⟨hne, -⟩
          · obtain rfl : u = w := (List.cons.inj hw).2
            have hend := hends (k := 2) (by rw [hu]; rfl) (by rw [hv']; rfl) hnear true
            rw [tail?, tail?]
            simp only [hu, hv']
            exact .some hend
          · exact absurd rfl hne
        · exact absurd (by rw [hu]; rfl) hne
      · have hslash' : ∀ u, (spaces t').2 ≠ '/' :: '>' :: u := by
          intro u' hu'
          rcases hspaces.cases_head he (c := '/') (by decide) with ⟨v, v', hv, hv', hnear⟩ | ⟨-, hne⟩
          · obtain rfl : '>' :: u' = v' := (List.cons.inj (hu'.symm.trans hv')).2
            rcases hnear.cases_head he (c := '>') (by decide) with ⟨w, w', rfl, -, -⟩ | ⟨-, hne⟩
            · exact hslash ⟨w, hv⟩
            · exact absurd rfl hne
          · exact absurd (by rw [hu']; rfl) hne
        rw [tail?_attribute (fun u hu => hslash ⟨u, hu⟩) hclose, tail?_attribute hslash' hclose']
        cases closing with
        | true => exact .none
        | false =>
          rw [if_neg Bool.false_ne_true, if_neg Bool.false_ne_true]
          have hattribute := attribute?_near he hspaces (o + (spaces t).1) (o' + (spaces t').1)
          generalize ha : attribute? (o + (spaces t).1) (spaces t).2 = a at hattribute
          generalize ha' : attribute? (o' + (spaces t').1) (spaces t').2 = a' at hattribute
          cases hattribute with
          | none => exact .none
          | @some r r' hr =>
            have hpos := attribute?_pos ha
            have hpos' := attribute?_pos ha'
            have hlength := length_pos_of_attribute? ha
            have hlength' := length_pos_of_attribute? ha'
            have hfuel : ((spaces t').2.drop r'.2).length < fuel' := by
              rw [List.length_drop]
              omega
            have hrest := ih hr (by rw [List.length_drop]; omega) hfuel (o + (spaces t).1 + r.2) (o' + (spaces t').1 + r'.2)
            refine map_rel hrest ?_
            rintro tail tail' ⟨hself, n, n', hn, hn', hnear⟩
            refine ⟨hself, n + (r.2 + (spaces t).1), n' + (r'.2 + (spaces t').1), ?_, ?_, ?_⟩
            · dsimp only [Tail.cons]
              omega
            · dsimp only [Tail.cons]
              omega
            · exact hnear.add (by rw [Nat.add_comm, ← List.drop_drop, hgap]) (by rw [Nat.add_comm, ← List.drop_drop, hgap'])

/-- Tags that agree, after which what is left stands for each other. -/
structure TagNear (e t t' : Text) (o o' : Nat) (r r' : Tag) : Prop where
  name : r'.name = r.name
  closing : r'.closing = r.closing
  selfClosing : r'.selfClosing = r.selfClosing
  stop : ∃ n n', r.stop = o + n ∧ r'.stop = o' + n' ∧ NearAt e t t' n n'

/-- The mark in front of the name of a tag. -/
def opener (closing : Bool) : Text := if closing then ['<', '/'] else ['<']

/-- The tag of a name: what follows the name ends it. -/
def bodyOf? (o width : Nat) (closing : Bool) (r : Text × Text) : Option Tag :=
  r.2.head?.bind fun c => if isSpace c || c == '/' || c == '>' then
    (tail? closing (r.2.length + 1) (o + width + r.1.length) r.2).bind fun tail =>
      some ⟨r.1, o, tail.stop, closing, tail.selfClosing, tail.attributes⟩
  else none

theorem body?_of_ne {o : Nat} {closing : Bool} (ht : t.head? ≠ some '>') : body? o closing t =
    (name? isNameStart isNamePart t).bind (bodyOf? o (opener closing).length closing) := by
  have hwidth : (if closing then 2 else 1) = (opener closing).length := by cases closing <;> rfl
  unfold body?
  rw [hwidth]
  split
  · exact absurd rfl ht
  · rfl

include he in
theorem body?_near (closing : Bool) (h : Near e u u') (o o' : Nat) :
    Option.Rel (TagNear e (opener closing ++ u) (opener closing ++ u') o o') (body? o closing u) (body? o' closing u') := by
  have hdrop (v : Text) : (opener closing ++ v).drop (opener closing).length = v := List.drop_left
  have hplace {n n' : Nat} (hn : NearAt e u u' n n') : NearAt e (opener closing ++ u) (opener closing ++ u')
      (n + (opener closing).length) (n' + (opener closing).length) := hn.add (hdrop u) (hdrop u')
  rcases h.cases_head he (c := '>') (by decide) with ⟨v, v', rfl, rfl, hnear⟩ | ⟨hne, hne'⟩
  · have hwidth : (if closing then 2 else 1) = (opener closing).length := by cases closing <;> rfl
    refine .some ⟨rfl, rfl, rfl, 1 + (opener closing).length, 1 + (opener closing).length, ?_, ?_, hplace hnear⟩
    · dsimp only
      omega
    · dsimp only
      omega
  · rw [body?_of_ne hne, body?_of_ne hne']
    generalize (opener closing).length = width at *
    refine bind_rel (name?_near he (fun _ => nameChars_of_isSpace) h) ?_
    rintro r r' ⟨hname, hafter, hhead, hstart, hstart'⟩
    rw [bodyOf?, bodyOf?, hhead]
    refine bind_rel (refl_rel (R := Eq) (fun _ => rfl) _) ?_
    rintro c _ rfl
    split
    · refine bind_rel (tail?_near he closing hafter (Nat.lt_succ_self _) (Nat.lt_succ_self _) _ _) ?_
      rintro tail tail' ⟨hself, n, n', hn, hn', hnear⟩
      refine .some ⟨hname, rfl, hself, n + r.1.length + width, n' + r'.1.length + width, ?_, ?_, ?_⟩
      · dsimp only
        omega
      · dsimp only
        omega
      · exact hplace (hnear.add hstart hstart')
    · exact .none

include he in
/-- A tag is read in both texts, or in neither. -/
theorem read?_near (h : Near e t t') (o o' : Nat) : Option.Rel (TagNear e t t' o o') (read? o t) (read? o' t') := by
  rcases h.cases_head he (c := '<') (by decide) with ⟨u, u', rfl, rfl, hu⟩ | ⟨hne, hne'⟩
  · rcases hu.cases_head he (c := '/') (by decide) with ⟨v, v', rfl, rfl, hv⟩ | ⟨hne, hne'⟩
    · exact body?_near he true hv o o'
    · have hopen {o : Nat} {u : Text} (hne : u.head? ≠ some '/') : read? o ('<' :: u) = body? o false u := by
        unfold read?
        split
        · next heq =>
          cases heq
          exact absurd rfl hne
        · next heq =>
          cases heq
          rfl
        · next hnot => exact absurd rfl (hnot u)
      rw [hopen hne, hopen hne']
      exact body?_near he false hu o o'
  · have hnone {o : Nat} {t : Text} (hne : t.head? ≠ some '<') : read? o t = none := by
      unfold read?
      split
      · exact absurd rfl hne
      · exact absurd rfl hne
      · rfl
    rw [hnone hne, hnone hne']
    exact .none

omit he in
/-- The name of a tag has no blanks. -/
theorem not_isSpace_of_read? {tag : Tag} (h : read? o t = some tag) : ∀ c ∈ tag.name, isSpace c = false := by
  have hbody {closing : Bool} {t : Text} (h : body? o closing t = some tag) : ∀ c ∈ tag.name, isSpace c = false := by
    by_cases hne : t.head? = some '>'
    · obtain ⟨u, rfl⟩ := List.head?_eq_some_iff.1 hne
      cases h
      exact nofun
    · rw [body?_of_ne hne] at h
      obtain ⟨r, hr, h⟩ := Option.bind_eq_some_iff.1 h
      obtain ⟨c, -, h⟩ := Option.bind_eq_some_iff.1 h
      split at h
      · obtain ⟨tail, -, h⟩ := Option.bind_eq_some_iff.1 h
        cases h
        exact not_isSpace_of_name? (fun _ => nameChars_of_isSpace) hr
      · cases h
  unfold read? at h
  split at h
  · exact hbody h
  · exact hbody h
  · cases h

end Tag

/-! ## Closing tags -/

namespace Markup.Closing

variable {name : Text} {depth : Nat}

include he in
/-- What follows a character that is no blank begins alike. -/
theorem Near.behind (h : Near e (c :: t) (c :: t')) (hc : Tag.isSpace c = false) : Near e t t' ∧ t'.head? = t.head? := by
  generalize hu : c :: t = u at h
  generalize hu' : c :: t' = u' at h
  cases h with
  | below =>
    cases hu
    cases hu'
    exact ⟨.below _, rfl⟩
  | @above y hy =>
    cases y with
    | nil =>
      rcases he with rfl | ⟨v, rfl⟩
      · cases hu
      · cases hu
        cases hc
    | cons d y =>
      cases hu
      cases hu'
      obtain ⟨b, y, rfl⟩ := hy.exists_cons hc
      exact ⟨.above hy.tail, rfl⟩

include he in
theorem after?_near {p : Text} (hp : ∀ c ∈ p, Tag.isSpace c = false) (h : Near e t t') (hhead : t'.head? = t.head?) :
    Option.Rel (fun r r' => t = p ++ r ∧ t' = p ++ r' ∧ Near e r r' ∧ r'.head? = r.head?) (Text.after? p t) (Text.after? p t') := by
  induction p generalizing t t' with
  | nil => exact .some ⟨rfl, rfl, h, hhead⟩
  | cons a p ih =>
    obtain ⟨ha, hp⟩ := List.forall_mem_cons.1 hp
    have hline : a ≠ '\n' := by
      rintro rfl
      cases ha
    have hnone {t : Text} (hne : t.head? ≠ some a) : Text.after? (a :: p) t = none := by
      cases t with
      | nil => rfl
      | cons c t => rw [Text.after?, if_neg fun heq => hne (congrArg some heq.symm)]
    rcases h.cases_head he hline with ⟨u, u', rfl, rfl, -⟩ | ⟨hne, hne'⟩
    · obtain ⟨hu, hhead⟩ := Near.behind he h ha
      rw [Text.after?, Text.after?, if_pos rfl, if_pos rfl]
      have hrest := ih hp hu hhead
      generalize Text.after? p u = r at hrest
      generalize Text.after? p u' = r' at hrest
      cases hrest with
      | none => exact .none
      | some hr =>
        obtain ⟨rfl, rfl, hr⟩ := hr
        exact .some ⟨rfl, rfl, hr⟩
    · rw [hnone hne, hnone hne']
      exact .none

section Name
variable (hname : ∀ c ∈ name, Tag.isSpace c = false)
include he hname

theorem named?_near (h : Near e t t') (hhead : t'.head? = t.head?) :
    Option.Rel (fun r r' => t = name ++ r ∧ t' = name ++ r' ∧ Near e r r') (named? name t) (named? name t') := by
  refine bind_rel (after?_near he hname h hhead) ?_
  rintro r r' ⟨ht, ht', hr, hhead⟩
  rw [hhead]
  split
  · exact .some ⟨ht, ht', hr⟩
  · exact .none

/-- Behind a bracket both texts mention a name, or neither does. -/
theorem mention?_near (h : Near e t t') (hhead : t'.head? = t.head?) :
    Option.Rel (fun r r' => r'.1 = r.1 ∧ ∃ p, t = p ++ r.2 ∧ t' = p ++ r'.2 ∧ Near e r.2 r'.2)
      (mention? name t) (mention? name t') := by
  have hslash : Option.Rel (fun r r' => ∃ p, t = p ++ r ∧ t' = p ++ r' ∧ Near e r r')
      ((Text.after? ['/'] t).bind (named? name)) ((Text.after? ['/'] t').bind (named? name)) := by
    refine bind_rel (after?_near he (p := ['/']) (by decide) h hhead) ?_
    rintro r r' ⟨rfl, rfl, hr, hhead⟩
    refine mono_rel (named?_near he hname hr hhead) ?_
    rintro s s' ⟨rfl, rfl, hs⟩
    exact ⟨'/' :: name, rfl, rfl, hs⟩
  rw [mention?, mention?]
  generalize (Text.after? ['/'] t).bind (named? name) = r at hslash
  generalize (Text.after? ['/'] t').bind (named? name) = r' at hslash
  cases hslash with
  | none => exact map_rel (named?_near he hname h hhead) fun r r' hr => ⟨rfl, name, hr⟩
  | some h => exact .some ⟨rfl, h⟩

omit he hname in
theorem findIdx?_eq_cut? (c : Char) (t : Text) : t.findIdx? (· = c) = (Text.cut? c t).map (·.1.length) := by
  by_cases hmem : c ∈ t
  · obtain ⟨u, v, rfl, hu⟩ := List.eq_append_cons_of_mem hmem
    rw [Text.cut?_append hu, Option.map_some, List.findIdx?_append, List.findIdx?_eq_none_iff.2 fun d hd => by
      simpa using fun h : d = c => hu (h ▸ hd), List.findIdx?_cons]
    simp
  · rw [Text.cut?_of_notMem hmem, Option.map_none, List.findIdx?_eq_none_iff]
    intro d hd
    simpa using fun h : d = c => hmem (h ▸ hd)

omit hname in
theorem findIdx?_near (h : Near e t t') (hc : c ≠ '\n') :
    Option.Rel (fun n n' => NearAt e t t' (n + 1) (n' + 1)) (t.findIdx? (· = c)) (t'.findIdx? (· = c)) := by
  rw [findIdx?_eq_cut?, findIdx?_eq_cut?]
  exact map_rel (Tag.cut?_near he h hc) fun _ _ hn => hn

/-- Closing tags after which what is left stands for each other. -/
def FoundNear (e t t' : Text) (o o' : Nat) (r r' : Nat × Nat) : Prop :=
  ∃ n n', r.2 = o + n ∧ r'.2 = o' + n' ∧ NearAt e t t' n n'

omit he hname in
/-- Behind what was passed. -/
theorem FoundNear.add {r r' : Nat × Nat} (h : FoundNear e u u' (o + k) (o' + k') r r') (hu : t.drop k = u) (hu' : t'.drop k' = u') :
    FoundNear e t t' o o' r r' := by
  obtain ⟨n, n', hn, hn', hnear⟩ := h
  exact ⟨n + k, n' + k', by omega, by omega, hnear.add hu hu'⟩

omit he hname in
theorem findFrom_same (e t : Text) (depth o o' : Nat) :
    Option.Rel (FoundNear e t t o o') (findFrom name depth 0 o t) (findFrom name depth 0 o' t) := by
  rw [← Nat.zero_add o, ← Nat.zero_add o', findFrom_add, findFrom_add]
  refine map_rel (refl_rel (R := Eq) (fun _ => rfl) _) ?_
  rintro r _ rfl
  exact ⟨r.2, r.2, by dsimp only; omega, by dsimp only; omega, nearAt_same e t r.2⟩

/-- Behind a character of each text the search goes on alike, from places that stand for each other. -/
def GoesOn (name e : Text) (c c' : Char) (t t' : Text) (o o' : Nat) : Prop := ∀ k k' depth, NearAt e t t' k k' →
  Option.Rel (FoundNear e (c :: t) (c' :: t') o o') (findFrom name depth k (o + 1) t) (findFrom name depth k' (o' + 1) t')

section Mention
variable {p rest rest' : Text} (hgo : GoesOn name e '<' '<' (p ++ rest) (p ++ rest') o o') (hrest : Near e rest rest')
include hgo hrest

omit hname in
/-- At a closing tag. -/
theorem findFrom_closing_near (hmention : mention? name (p ++ rest) = some (true, rest))
    (hmention' : mention? name (p ++ rest') = some (true, rest')) (depth : Nat) :
    Option.Rel (FoundNear e ('<' :: (p ++ rest)) ('<' :: (p ++ rest')) o o')
      (findFrom name depth 0 o ('<' :: (p ++ rest))) (findFrom name depth 0 o' ('<' :: (p ++ rest'))) := by
  have hgap (v : Text) : (p ++ v).length - v.length = p.length := by rw [List.length_append, Nat.add_sub_cancel]
  have hend := findIdx?_near he hrest (c := '>') (by decide)
  rw [findFrom, findFrom, if_neg (by simp), if_neg (by simp), hmention, hmention']
  dsimp only
  rw [hgap, hgap]
  generalize rest.findIdx? (· = '>') = i at hend
  generalize rest'.findIdx? (· = '>') = i' at hend
  cases hend with
  | none => exact .none
  | @some i i' hi =>
    have hplace : NearAt e (p ++ rest) (p ++ rest') (p.length + i + 1) (p.length + i' + 1) :=
      (hi.add List.drop_left List.drop_left).of_eq (by omega) (by omega)
    dsimp only
    split
    · exact .some ⟨p.length + i + 1 + 1, p.length + i' + 1 + 1, by dsimp only; omega, by dsimp only; omega, hplace.cons '<'⟩
    · exact hgo _ _ _ hplace

omit hname in
/-- At a tag of the name. -/
theorem findFrom_opening_near (hmention : mention? name (p ++ rest) = some (false, rest))
    (hmention' : mention? name (p ++ rest') = some (false, rest')) (h : Near e ('<' :: (p ++ rest)) ('<' :: (p ++ rest')))
    (depth : Nat) : Option.Rel (FoundNear e ('<' :: (p ++ rest)) ('<' :: (p ++ rest')) o o')
      (findFrom name depth 0 o ('<' :: (p ++ rest))) (findFrom name depth 0 o' ('<' :: (p ++ rest'))) := by
  have hgap (v : Text) : (p ++ v).length - v.length = p.length := by rw [List.length_append, Nat.add_sub_cancel]
  have hread := Tag.read?_near he h o o'
  rw [findFrom, findFrom, if_neg (by simp), if_neg (by simp), hmention, hmention']
  dsimp only
  rw [hgap, hgap]
  generalize hr : Tag.read? o ('<' :: (p ++ rest)) = r at hread
  generalize hr' : Tag.read? o' ('<' :: (p ++ rest')) = r' at hread
  cases hread with
  | none =>
    refine hgo _ _ _ ?_
    rw [NearAt, List.drop_left, List.drop_left]
    exact hrest
  | @some tag tag' htag =>
    obtain ⟨n, n', hn, hn', hnear⟩ := htag.stop
    have hpast := (Tag.extent_of_read? hr).1
    have hpast' := (Tag.extent_of_read? hr').1
    obtain ⟨m, rfl⟩ := Nat.exists_eq_add_one.2 (show 0 < n by omega)
    obtain ⟨m', rfl⟩ := Nat.exists_eq_add_one.2 (show 0 < n' by omega)
    have hskip : tag.stop - o - 1 = m := by omega
    have hskip' : tag'.stop - o' - 1 = m' := by omega
    dsimp only
    rw [hskip, hskip', htag.selfClosing]
    exact hgo _ _ _ hnear

end Mention

/-- At a bracket. -/
theorem findFrom_bracket_near (hgo : GoesOn name e '<' '<' u u' o o') (h : Near e ('<' :: u) ('<' :: u')) (depth : Nat) :
    Option.Rel (FoundNear e ('<' :: u) ('<' :: u') o o')
      (findFrom name depth 0 o ('<' :: u)) (findFrom name depth 0 o' ('<' :: u')) := by
  obtain ⟨hu, hhead⟩ := Near.behind he h (by decide)
  have hmention := mention?_near he hname hu hhead
  generalize hr : mention? name u = r at hmention
  generalize hr' : mention? name u' = r' at hmention
  cases hmention with
  | none =>
    rw [findFrom, findFrom, if_neg (by simp), if_neg (by simp), hr, hr']
    exact hgo 0 0 depth hu
  | @some r r' hsame =>
    obtain ⟨closing, rest⟩ := r
    obtain ⟨closing', rest'⟩ := r'
    obtain ⟨rfl, p, rfl, rfl, hrest⟩ := hsame
    cases closing' with
    | true => exact findFrom_closing_near he hgo hrest hr hr' depth
    | false => exact findFrom_opening_near he hgo hrest hr hr' h depth

theorem findFrom_near (h : Near e t t') (depth o o' : Nat) :
    Option.Rel (FoundNear e t t' o o') (findFrom name depth 0 o t) (findFrom name depth 0 o' t') := by
  induction hn : t.length using Nat.strongRecOn generalizing t t' depth o o' with
  | _ n ih =>
    subst hn
    have hgo {c : Char} {u : Text} (ht : t = c :: u) (c' : Char) (u' : Text) : GoesOn name e c c' u u' o o' := by
      subst ht
      intro k k' depth hnear
      have hlt : (u.drop k).length < (c :: u).length := by
        rw [List.length_drop, List.length_cons]
        omega
      rw [findFrom_drop, findFrom_drop _ _ k', Nat.add_assoc, Nat.add_assoc o', Nat.add_comm 1, Nat.add_comm 1 k']
      exact mono_rel (ih _ hlt hnear depth _ _ rfl) fun _ _ hr => hr.add rfl rfl
    rcases h.cases_head he (c := '<') (by decide) with ⟨u, u', rfl, rfl, -⟩ | ⟨hne, hne'⟩
    · exact findFrom_bracket_near he hname (hgo rfl '<' u') h depth
    · have hstep {c : Char} {o : Nat} {v : Text} (hc : (c :: v).head? ≠ some '<') :
          findFrom name depth 0 o (c :: v) = findFrom name depth 0 (o + 1) v := by
        rw [findFrom, if_pos fun heq => hc (congrArg some heq)]
      cases h with
      | below t => exact findFrom_same e t depth o o'
      | @above y hy =>
        cases y with
        | nil =>
          rw [List.nil_append, List.nil_append, hstep hne']
          exact mono_rel (findFrom_same e e depth o (o' + 1)) fun _ _ hr => hr.add (k := 0) rfl rfl
        | cons c y =>
          rw [List.cons_append] at hne hne' hgo ⊢
          rw [List.cons_append, hstep hne, hstep hne']
          exact hgo rfl c (y ++ '\n' :: e) 0 0 depth (.above hy.tail)

/-- The tag that closes an open one is found in both texts, or in neither. -/
theorem find?_near (h : Near e t t') (o o' : Nat) : Option.Rel (FoundNear e t t' o o') (find? name o t) (find? name o' t') :=
  findFrom_near he hname h 1 o o'

end Name
end Markup.Closing
end Near
end Narration
