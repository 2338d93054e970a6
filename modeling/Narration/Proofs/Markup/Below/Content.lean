import Narration.Markup.Closing
import Narration.Markup.Content
import Narration.Proofs.Fallible
import Narration.Proofs.Markup.Outline
import Narration.Proofs.Markup.Stretch

/-!
# Inline content further down in a text

What is found in some characters does not depend on the offset at which they stand.

* `Stretch.shift` : the same characters further on, with its parts;
* `Tag.read?_add` : the tag at the front;
* `Closing.find?_add` : the tag that closes an open one;
* `Content.read_below` : inline content makes the same nodes wherever it stands, up to their places.
-/

/-! ## Stretches -/

namespace Narration

namespace Markup.Stretch

/-- The same characters, `k` further on. -/
def shift (s : Stretch) (k : Nat) : Stretch := ⟨s.start + k, s.chars⟩

variable (s : Stretch) (k n o : Nat)

@[simp] theorem start_shift : (s.shift k).start = s.start + k := rfl
@[simp] theorem chars_shift : (s.shift k).chars = s.chars := rfl
@[simp] theorem lineBlank_shift : (s.shift k).lineBlank = s.lineBlank := rfl
@[simp] theorem line_shift : (s.shift k).line = s.line.shift k := rfl
@[simp] theorem take_shift : (s.shift k).take n = (s.take n).shift k := rfl

@[simp] theorem stop_shift : (s.shift k).stop = s.stop + k := Nat.add_right_comm _ _ _

@[simp] theorem drop_shift : (s.shift k).drop n = (s.drop n).shift k := by
  simp only [drop, shift, Nat.add_right_comm]

@[simp] theorem since_shift : (s.shift k).since (o + k) = (s.since o).shift k := by
  rw [since, since, start_shift, Nat.add_sub_add_right, drop_shift]

@[simp] theorem till_shift : (s.shift k).till (o + k) = (s.till o).shift k := by
  rw [till, till, start_shift, Nat.add_sub_add_right, take_shift]

@[simp] theorem afterLine_shift : (s.shift k).afterLine = s.afterLine.shift k := s.drop_shift k _

@[simp] theorem trimStart_shift : (s.shift k).trimStart = s.trimStart.shift k := s.drop_shift k _

@[simp] theorem trim_shift : (s.shift k).trim = s.trim.shift k := by
  simp only [trim, trimStart_shift, start_shift, chars_shift]
  rfl

@[simp] theorem skipBlankLines_shift (fuel : Nat) :
    skipBlankLines fuel (s.shift k) = (skipBlankLines fuel s).shift k := by
  induction fuel generalizing s with
  | zero => rfl
  | succ fuel ih =>
    simp only [skipBlankLines, chars_shift, lineBlank_shift, afterLine_shift, ih]
    split <;> rfl

end Markup.Stretch

/-! ## Tags -/

/-- An attribute `k` characters further on. -/
def Attribute.moved (k : Nat) (a : Attribute) : Attribute :=
  { a with span := a.span.map fun (first, stop) => (first + k, stop + k) }

@[simp] theorem Attribute.bare_moved (k : Nat) (a : Attribute) : (a.moved k).bare = a.bare := rfl

namespace Tag

/-- A tag `k` characters further on. -/
def moved (k : Nat) (tag : Tag) : Tag :=
  { tag with start := tag.start + k, stop := tag.stop + k, attributes := tag.attributes.map (·.moved k) }

/-- The end of a tag `k` characters further on. -/
def Tail.moved (k : Nat) (tail : Tail) : Tail :=
  { tail with attributes := tail.attributes.map (·.moved k), stop := tail.stop + k }

theorem bare_moved (k : Nat) (tag : Tag) : (Kind.component tag.name (tag.moved k).attributes).bare =
    (Kind.component tag.name tag.attributes).bare := by
  simp only [Kind.bare, moved, List.map_map, Function.comp_def, Attribute.bare_moved]

theorem attribute?_add (o k : Nat) (t : Text) :
    attribute? (o + k) t = (attribute? o t).map fun (a, length) => (a.moved k, length) := by
  unfold attribute?
  split
  · cases braced? _ with
    | none => rfl
    | some r => simp [Attribute.moved, Nat.add_right_comm]
  · cases name? isAttributeStart isAttributePart t with
    | none => rfl
    | some r =>
      obtain ⟨name, rest⟩ := r
      simp only [Option.bind_eq_bind, Option.bind_some]
      split
      · cases value? _ with
        | none => rfl
        | some r => simp [Attribute.moved, Nat.add_right_comm _ k]
      · rfl

theorem tail?_add (closing : Bool) (fuel o k : Nat) (t : Text) :
    tail? closing fuel (o + k) t = (tail? closing fuel o t).map (·.moved k) := by
  induction fuel generalizing o t with
  | zero => rfl
  | succ fuel ih =>
    simp only [tail?, Nat.add_right_comm o k]
    split
    · rfl
    · simp [Tail.moved, Nat.add_right_comm _ k]
    · simp [Tail.moved, Nat.add_right_comm _ k]
    · split
      · rfl
      · rw [attribute?_add]
        cases attribute? _ _ with
        | none => rfl
        | some r =>
          obtain ⟨a, length⟩ := r
          simp only [Option.map_some, Option.bind_eq_bind, Option.bind_some, Nat.add_right_comm _ k, ih]
          cases tail? closing fuel _ _ with
          | none => rfl
          | some tail => rfl

theorem body?_add (o k : Nat) (closing : Bool) (t : Text) :
    body? (o + k) closing t = (body? o closing t).map (·.moved k) := by
  simp only [body?, Nat.add_right_comm o k]
  generalize o + (if closing then 2 else 1) = first
  split
  · simp [moved, Nat.add_right_comm _ k]
  · cases name? isNameStart isNamePart t with
    | none => rfl
    | some r =>
      obtain ⟨name, rest⟩ := r
      simp only [Option.bind_eq_bind, Option.bind_some]
      cases rest.head? with
      | none => rfl
      | some c =>
        simp only [Option.bind_some]
        split
        · rw [Nat.add_right_comm first k, tail?_add]
          cases tail? closing _ _ rest with
          | none => rfl
          | some tail => rfl
        · rfl

theorem read?_add (o k : Nat) (t : Text) : read? (o + k) t = (read? o t).map (·.moved k) := by
  unfold read?
  split
  · exact body?_add o k true _
  · exact body?_add o k false _
  · rfl

end Tag

/-! ## Closing tags -/

namespace Markup.Closing

theorem findFrom_add (name : Text) (depth skip o k : Nat) (t : Text) :
    findFrom name depth skip (o + k) t =
      (findFrom name depth skip o t).map fun (first, stop) => (first + k, stop + k) := by
  induction t generalizing depth skip o with
  | nil =>
    cases skip <;> rfl
  | cons c t ih =>
    cases skip with
    | succ skip => simp only [findFrom, Nat.add_right_comm o k, ih]
    | zero =>
      simp only [findFrom, Nat.add_right_comm o k, ih, Tag.read?_add]
      split
      · rfl
      · split
        · rfl
        · split
          · rfl
          · split
            · simp [Nat.add_right_comm _ k]
            · rfl
        · cases Tag.read? o (c :: t) with
          | none => rfl
          | some tag => simp [Tag.moved, Nat.add_sub_add_right]

/-- The characters that belong to a tag are passed at once. -/
theorem findFrom_drop (name : Text) (depth skip o : Nat) (t : Text) :
    findFrom name depth skip o t = findFrom name depth 0 (o + skip) (t.drop skip) := by
  induction t generalizing skip o with
  | nil =>
    rw [List.drop_nil]
    cases skip <;> rfl
  | cons c t ih =>
    cases skip with
    | zero => rfl
    | succ skip => rw [findFrom, ih, List.drop_succ_cons, Nat.add_assoc, Nat.add_comm 1]

theorem find?_add (name : Text) (o k : Nat) (t : Text) :
    find? name (o + k) t = (find? name o t).map fun (first, stop) => (first + k, stop + k) :=
  findFrom_add name 1 0 o k t

end Markup.Closing
end Narration

/-! ## Inline content -/

namespace Narration.Markup
open Fallible Node

/-- Nodes that look the same. -/
def Same (v : Position.Views) (ns ns' : List Node) : Prop := outlineAll v.there ns' = outlineAll v.here ns

/-- The same nodes `up` lines further down. -/
abbrev SameBelow (up : Nat) (ns ns' : List Node) : Prop := Same (.below up) ns ns'

section Same
variable {v : Position.Views} {n n' : Node} {ns ns' ms ms' : List Node}

theorem Same.nil : Same v [] [] := rfl

theorem Same.cons (h : n'.outline v.there = n.outline v.here) (hs : Same v ns ns') : Same v (n :: ns) (n' :: ns') := by
  rw [Same, outlineAll, outlineAll, h, hs]

theorem Same.append (hn : Same v ns ns') (hm : Same v ms ms') : Same v (ns ++ ms) (ns' ++ ms') := by
  rw [Same, outlineAll_append, outlineAll_append, hn, hm]

/-- Nodes of the same kinds, on top and in all. -/
def SameKinds (ns ns' : List Node) : Prop :=
  ns'.map (·.kind.bare) = ns.map (·.kind.bare) ∧ (walkAll ns').map (·.kind.bare) = (walkAll ns).map (·.kind.bare)

theorem kinds_outlineAll (view : Position → Position) (ns : List Node) :
    (outlineAll view ns).map Node.kind = ns.map (·.kind.bare) ∧
      (walkAll (outlineAll view ns)).map Node.kind = (walkAll ns).map (·.kind.bare) := by
  rw [walkAll_outlineAll, outlineAll_eq_map]
  simp [kind_outline, Function.comp_def]

theorem Same.kinds (h : Same v ns ns') : SameKinds ns ns' := by
  obtain ⟨hhere, hhere'⟩ := kinds_outlineAll v.here ns
  obtain ⟨hthere, hthere'⟩ := kinds_outlineAll v.there ns'
  rw [h] at hthere hthere'
  exact ⟨hthere.symm.trans hhere, hthere'.symm.trans hhere'⟩

end Same

namespace Content

variable {scope scope' : Scope} {k : Nat} {v : Position.Views} (h : Scope.Seen scope scope' k v)

/-! ## Lifting -/

section Lifting
variable {inner inner' : Stretch → Except Fault (List Node)}
  (hi : ∀ s, Agree (Same v) (inner s) (inner' (s.shift k)))
include h hi

theorem ofTag_below (s : Stretch) (tag : Tag) :
    Agree (fun r r' => r'.1.outline v.there = r.1.outline v.here ∧ r'.2 = r.2 + k) (ofTag scope inner s tag)
      (ofTag scope' inner' (s.shift k) (tag.moved k)) := by
  unfold ofTag
  simp only [Tag.moved, Stretch.till_shift, Stretch.since_shift, Stretch.chars_shift, Stretch.start_shift]
  split
  · exact .pure ⟨h.outline_node rfl rfl _ _, rfl⟩
  · have hclosing : (if tag.selfClosing then none
          else Closing.find? tag.name ((s.since tag.stop).start + k) (s.since tag.stop).chars) =
        (if tag.selfClosing then none
          else Closing.find? tag.name (s.since tag.stop).start (s.since tag.stop).chars).map
            fun r => (r.1 + k, r.2 + k) := by
      rw [Closing.find?_add]
      split <;> rfl
    rw [hclosing]
    cases if tag.selfClosing then none
        else Closing.find? tag.name (s.since tag.stop).start (s.since tag.stop).chars with
    | none => exact .pure ⟨h.outline_node (tag.bare_moved k) rfl _ _, rfl⟩
    | some r =>
      simp only [Option.map_some, Stretch.till_shift]
      exact .bind (hi _) fun children children' hc => .pure ⟨h.outline_node (tag.bare_moved k) hc _ _, rfl⟩

theorem front_below (s : Stretch) :
    Agree (fun r r' => r'.1.map (outline v.there) = r.1.map (outline v.here) ∧ r'.2 = r.2) (front scope inner s)
      (front scope' inner' (s.shift k)) := by
  unfold front
  simp only [Stretch.chars_shift, Stretch.start_shift]
  split
  · exact .ok ⟨rfl, rfl⟩
  · exact .ok ⟨rfl, rfl⟩
  · split
    · refine .ok ⟨?_, rfl⟩
      rw [Nat.add_right_comm]
      exact congrArg some (h.outline_node rfl rfl _ _)
    · exact .ok ⟨rfl, rfl⟩
  · rw [Tag.read?_add]
    cases Tag.read? s.start s.chars with
    | none => exact .ok ⟨rfl, rfl⟩
    | some tag =>
      refine .bind (ofTag_below h hi s tag) fun r r' hr => .pure ⟨congrArg some hr.1, ?_⟩
      rw [hr.2, Nat.add_sub_add_right]
  · exact .ok ⟨rfl, rfl⟩

theorem lift_below (fuel n : Nat) (s : Stretch) :
    Agree (fun r r' => r'.1 = r.1 ∧ Same v r.2 r'.2) (lift scope inner fuel n s)
      (lift scope' inner' fuel n (s.shift k)) := by
  induction fuel generalizing n s with
  | zero => exact .ok ⟨rfl, rfl⟩
  | succ fuel ih =>
    simp only [lift, Stretch.chars_shift]
    refine .ite (fun _ => .ok ⟨rfl, rfl⟩) fun _ => .bind (front_below h hi s) ?_
    rintro ⟨node, length⟩ ⟨node', length'⟩ ⟨hnode, rfl⟩
    cases node with
    | none =>
      cases node' with
      | some node' => cases hnode
      | none =>
        dsimp only
        rw [Stretch.drop_shift]
        exact .bind (ih n _) fun r r' hr => .pure ⟨by rw [hr.1], hr.2⟩
    | some node =>
      cases node' with
      | none => cases hnode
      | some node' =>
        dsimp only
        rw [Stretch.drop_shift]
        exact .bind (ih (n + 1) _) fun r r' hr => .pure ⟨by rw [hr.1], .cons (Option.some.inj hnode) hr.2⟩

end Lifting

/-! ## Settling -/

theorem node?_below {lifted lifted' : List Node} (hl : Same v lifted lifted') (part : Part) :
    (part.node? lifted').map (outline v.there) = (part.node? lifted).map (outline v.here) := by
  cases part with
  | text value => rfl
  | placeholder number =>
    have hget := congrArg (·[number]?) hl
    simpa only [Part.node?, outlineAll_eq_map, List.getElem?_map] using hget

theorem settle_below {lifted lifted' : List Node} (hl : Same v lifted lifted') (t : Text) :
    Agree (Same v) (settle lifted t) (settle lifted' t) := by
  unfold settle
  cases parts t with
  | error e => exact .error e
  | ok ps =>
    refine .pure ?_
    rw [Same, outlineAll_eq_map, outlineAll_eq_map, List.map_filterMap, List.map_filterMap]
    simp only [node?_below hl]

namespace Open

/-- Open marks with the outlines of their nodes. -/
def outline (view : Position → Position) (o : Open) : Open :=
  ⟨outlineAll view o.nodes, o.outer.map fun (mark, nodes) => (mark, outlineAll view nodes)⟩

variable {view : Position → Position} (o : Open)

theorem outline_add (ns : List Node) : (o.add ns).outline view = (o.outline view).add (outlineAll view ns) := by
  rw [add, outline, outlineAll_append, outlineAll_reverse, outline, add]

theorem outline_enter (mark : Mark) : (o.enter mark).outline view = (o.outline view).enter mark := rfl

/-- A mark makes a node of its outlined children. -/
theorem outline_mark (mark : Mark) (ns : List Node) : (Node.mk (kindOf mark) ns.reverse none).outline view =
    .mk (kindOf mark) (outlineAll view ns).reverse none := by
  rw [Node.outline, outlineAll_reverse]
  cases mark <;> rfl

theorem outline_leave : o.leave.outline view = (o.outline view).leave := by
  obtain ⟨nodes, outer⟩ := o
  cases outer with
  | nil => rfl
  | cons m outer =>
    simp only [leave, outline, List.map_cons, outlineAll, outline_mark]

theorem outlineAll_close : outlineAll view o.close = (o.outline view).close := by
  obtain ⟨nodes, outer⟩ := o
  rw [close, close, outlineAll_reverse]
  congr 1
  induction outer generalizing nodes with
  | nil => rfl
  | cons m outer ih =>
    rw [List.foldl_cons, ih]
    simp only [outline, List.map_cons, List.foldl_cons, outlineAll, outline_mark]

end Open

section Tokens
variable {lifted lifted' : List Node}

mutual

theorem addToken_below (hl : Same v lifted lifted') :
    (token : InlineToken) → (o o' : Open) → o'.outline v.there = o.outline v.here →
    Agree (fun o o' => o'.outline v.there = o.outline v.here) (addToken lifted token o) (addToken lifted' token o')
  | .text value, o, o', ho => by
    simp only [addToken]
    exact .bind (settle_below hl value) fun ns ns' hn => .pure (by rw [Open.outline_add, Open.outline_add, hn, ho])
  | .special value, o, o', ho => by
    simp only [addToken]
    exact .bind (settle_below hl value) fun ns ns' hn => .pure (by rw [Open.outline_add, Open.outline_add, hn, ho])
  | .lineBreak, o, o', ho => .ok (by rw [Open.outline_add, Open.outline_add, ho]; rfl)
  | .code value, o, o', ho => .ok (by rw [Open.outline_add, Open.outline_add, ho]; rfl)
  | .image target alternative, o, o', ho => by
    simp only [addToken]
    refine .bind (addTokens_below hl alternative .empty .empty rfl) fun i i' hi => .pure ?_
    rw [Open.outline_add, Open.outline_add, ho]
    simp only [outlineAll, outline, Open.outlineAll_close, hi]
    rfl
  | .opening mark, o, o', ho => .ok (by rw [Open.outline_enter, Open.outline_enter, ho])
  | .closing mark, o, o', ho => .ok (by rw [Open.outline_leave, Open.outline_leave, ho])

theorem addTokens_below (hl : Same v lifted lifted') :
    (tokens : List InlineToken) → (o o' : Open) → o'.outline v.there = o.outline v.here →
    Agree (fun o o' => o'.outline v.there = o.outline v.here) (addTokens lifted tokens o) (addTokens lifted' tokens o')
  | [], o, o', ho => .ok ho
  | token :: tokens, o, o', ho => by
    simp only [addTokens]
    exact .bind (addToken_below hl token o o' ho) fun p p' hp => addTokens_below hl tokens p p' hp

end

variable (hl : Same v lifted lifted')
include hl

theorem nodesOf_below (tokens : List InlineToken) :
    Agree (Same v) (nodesOf lifted tokens) (nodesOf lifted' tokens) :=
  .bind (addTokens_below hl tokens .empty .empty rfl) fun o o' ho =>
    .pure (by rw [Same, Open.outlineAll_close, Open.outlineAll_close, ho])

theorem counted_below (tokens : List InlineToken) :
    Agree (Same v) (counted lifted tokens) (counted lifted' tokens) := by
  unfold counted
  cases placeholdersIn tokens with
  | error e => exact .error e
  | ok held =>
    refine .pure ?_
    rw [Same, outlineAll_eq_map, outlineAll_eq_map]
    refine List.ext_getElem? fun i => ?_
    have hget := congrArg (·[i]?) hl
    simp only [outlineAll_eq_map, List.getElem?_map, List.getElem?_mapIdx, Option.map_map,
      Function.comp_def] at hget ⊢
    cases hn : lifted[i]? with
    | none =>
      rw [hn] at hget
      rw [Option.map_eq_none_iff.1 hget]
      rfl
    | some n =>
      rw [hn] at hget
      obtain ⟨n', hn', hout⟩ := Option.map_eq_some_iff.1 hget
      rw [hn']
      exact congrArg some (outline_repeated v _ n n' hout)

end Tokens

include h in
theorem read_below (budget : Nat) (s : Stretch) :
    Agree (Same v) (read scope budget s) (read scope' budget (s.shift k)) := by
  induction budget using Nat.strongRecOn generalizing s with
  | _ budget ih =>
    unfold read
    split
    · next s budget =>
      simp only [Stretch.chars_shift, h.references]
      refine .bind (lift_below h (ih budget (by omega)) _ _ _) ?_
      rintro ⟨source, lifted⟩ ⟨source', lifted'⟩ ⟨rfl, hl⟩
      dsimp only
      refine .bind (.refl _) ?_
      rintro tokens _ rfl
      refine .ite (fun _ => ?_) fun _ => nodesOf_below hl tokens
      exact .bind (counted_below hl tokens) fun ns ns' hn => nodesOf_below hn tokens
    · exact .error _

end Content
end Narration.Markup
