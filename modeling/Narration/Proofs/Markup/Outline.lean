import Narration.Markup.Stretch

/-!
# Nodes of a text that stands in another text

A text read on its own and the same text read inside a longer one make the same nodes, further down.

* `Position.outline` : a position without offsets, its lines counted from a line of the text;
* `Position.Views` : what is looked at in the positions of two texts in which the same nodes stand;
* `Node.outline` : a node with what is looked at in its positions;
* `Node.forall_walk_mk`, `Node.walk_repeated` : a node and all below it, and those of a repeated node;
* `Node.walkAll_outlineAll`, `Node.outline_repeated` : outlines of walks and of repeated nodes;
* `Scope.Seen`, `Scope.Seen.outline_node` : scopes in which a node has one outline;
* `Scope.Below` : the scope of a text that stands some characters and lines further down;
* `Scope.below_ofText` : text with something in front of it.
-/

namespace Narration

/-- The lines of a position counted from the line `up`, where it stands in its content once. -/
def Position.outline (up : Nat) (p : Position) : Position :=
  if p.copies = 1 then ⟨p.startLine - up, p.endLine - up, 0, 0, 1⟩ else ⟨0, 0, 0, 0, p.copies⟩

theorem Position.outline_repeated {up up' : Nat} {p p' : Position} (k : Nat)
    (h : p.outline up = p'.outline up') :
    ({ p with copies := k * p.copies } : Position).outline up =
      ({ p' with copies := k * p'.copies } : Position).outline up' := by
  have hcopies : p.copies = p'.copies := by
    unfold outline at h
    split at h <;> split at h <;> simp_all
  unfold outline at h ⊢
  dsimp only
  rw [hcopies] at h ⊢
  by_cases hp : p'.copies = 1
  · rw [if_pos hp, if_pos hp] at h
    simp only [mk.injEq] at h
    rw [h.1, h.2.1]
  · have hk : k * p'.copies ≠ 1 := fun hk => hp (Nat.eq_one_of_mul_eq_one_left hk)
    rw [if_neg hk, if_neg hk]

/-- What is looked at in the positions of a text, and in those of another text in which the same nodes stand: it stays the
same for nodes that are repeated, and does not tell nodes apart that do not stand in their content once. -/
structure Position.Views where
  here : Position → Position
  there : Position → Position
  repeated : ∀ (k : Nat) (p p' : Position), there p' = here p →
    there { p' with copies := k * p'.copies } = here { p with copies := k * p.copies }
  several : ∀ p p' : Position, p'.copies = p.copies → p.copies ≠ 1 → there p' = here p

/-- The lines counted from the first line, and from the line `up`. -/
def Position.Views.below (up : Nat) : Position.Views where
  here := Position.outline 0
  there := Position.outline up
  repeated k _ _ h := Position.outline_repeated k h
  several p p' hcopies hp := by rw [outline, outline, hcopies, if_neg hp, if_neg hp]

/-- An attribute without its place. -/
def Attribute.bare (a : Attribute) : Attribute := { a with span := none }

/-- A kind without the places of attributes. -/
def Kind.bare : Kind → Kind
  | .component name attributes => .component name (attributes.map Attribute.bare)
  | kind => kind

namespace Node

theorem walkAll_append (ns ms : List Node) : walkAll (ns ++ ms) = walkAll ns ++ walkAll ms := by
  induction ns with
  | nil => rfl
  | cons n ns ih => rw [List.cons_append, walkAll, walkAll, ih, List.append_assoc]

theorem mem_walkAll {m : Node} (ns : List Node) : m ∈ walkAll ns ↔ ∃ n ∈ ns, m ∈ n.walk := by
  induction ns with
  | nil => simp [walkAll]
  | cons n ns ih => simp [walkAll, ih]

theorem self_mem_walk (n : Node) : n ∈ n.walk := by
  cases n with
  | mk kind children position => exact List.mem_cons_self

/-- What holds of a node and of all nodes below it. -/
theorem forall_walk_mk {P : Node → Prop} {kind : Kind} {children : List Node} {position : Option Position} :
    (∀ m ∈ (mk kind children position).walk, P m) ↔ P (mk kind children position) ∧ ∀ n ∈ children, ∀ m ∈ n.walk, P m := by
  simp only [walk, List.forall_mem_cons, mem_walkAll]
  exact and_congr_right fun _ => ⟨fun h n hn m hm => h m ⟨n, hn, hm⟩, fun h m ⟨n, hn, hm⟩ => h n hn m hm⟩

/-! ## Repeated nodes -/

theorem kind_repeated (k : Nat) (n : Node) : (n.repeated k).kind = n.kind := by
  cases n
  rfl

theorem position_repeated (k : Nat) (n : Node) :
    (n.repeated k).position = n.position.map fun p => { p with copies := k * p.copies } := by
  cases n
  rfl

mutual

theorem walk_repeated (k : Nat) : (n : Node) → (n.repeated k).walk = n.walk.map (repeated k)
  | mk kind children position => by
    rw [repeated, walk, walk, walkAll_repeatedAll k children, List.map_cons, repeated]

theorem walkAll_repeatedAll (k : Nat) : (ns : List Node) → walkAll (repeatedAll k ns) = (walkAll ns).map (repeated k)
  | [] => rfl
  | n :: ns => by
    rw [repeatedAll, walkAll, walkAll, walk_repeated k n, walkAll_repeatedAll k ns, List.map_append]

end

/-! ## Outlines -/

mutual

/-- A node without the places of attributes, with what is looked at in its position and in those below it. -/
def outline (view : Position → Position) : Node → Node
  | mk kind children position => mk kind.bare (outlineAll view children) (position.map view)

/-- Several nodes without the places of attributes, with what is looked at in their positions. -/
def outlineAll (view : Position → Position) : List Node → List Node
  | [] => []
  | node :: nodes => outline view node :: outlineAll view nodes

end

variable {view : Position → Position} {ns ns' : List Node}

theorem outlineAll_eq_map (view : Position → Position) (ns : List Node) : outlineAll view ns = ns.map (outline view) := by
  induction ns with
  | nil => rfl
  | cons n ns ih => rw [outlineAll, ih, List.map_cons]

@[simp] theorem outlineAll_append (ms : List Node) :
    outlineAll view (ns ++ ms) = outlineAll view ns ++ outlineAll view ms := by
  simp only [outlineAll_eq_map, List.map_append]

@[simp] theorem outlineAll_reverse : outlineAll view ns.reverse = (outlineAll view ns).reverse := by
  simp only [outlineAll_eq_map, List.map_reverse]

theorem kind_outline (view : Position → Position) (n : Node) : (n.outline view).kind = n.kind.bare := by
  cases n
  rfl

mutual

theorem walk_outline (view : Position → Position) : (n : Node) → (n.outline view).walk = n.walk.map (outline view)
  | mk kind children position => by
    rw [outline, walk, walk, walkAll_outlineAll view children, List.map_cons, outline]

theorem walkAll_outlineAll (view : Position → Position) :
    (ns : List Node) → walkAll (outlineAll view ns) = (walkAll ns).map (outline view)
  | [] => rfl
  | n :: ns => by
    rw [outlineAll, walkAll, walkAll, walk_outline view n, walkAll_outlineAll view ns, List.map_append]

end

mutual

theorem outline_repeated (v : Position.Views) (k : Nat) :
    (n n' : Node) → n'.outline v.there = n.outline v.here → (n'.repeated k).outline v.there = (n.repeated k).outline v.here
  | mk kind children position, mk kind' children' position', h => by
    simp only [outline, mk.injEq] at h
    obtain ⟨hkind, hchildren, hposition⟩ := h
    rw [repeated, repeated, outline, outline, hkind, outlineAll_repeatedAll v k children children' hchildren]
    congr 1
    cases position with
    | none =>
      cases position' with
      | none => rfl
      | some p' => cases hposition
    | some p =>
      cases position' with
      | none => cases hposition
      | some p' => exact congrArg some (v.repeated k p p' (Option.some.inj hposition))

theorem outlineAll_repeatedAll (v : Position.Views) (k : Nat) : (ns ns' : List Node) →
    outlineAll v.there ns' = outlineAll v.here ns →
    outlineAll v.there (repeatedAll k ns') = outlineAll v.here (repeatedAll k ns)
  | [], [], _ => rfl
  | [], _ :: _, h => nomatch h
  | _ :: _, [], h => nomatch h
  | n :: ns, n' :: ns', h => by
    simp only [outlineAll, List.cons.injEq] at h
    simp only [repeatedAll, outlineAll, outline_repeated v k n n' h.1, outlineAll_repeatedAll v k ns ns' h.2]

end

end Node

namespace Markup

theorem lineStartsAfter_append (o : Nat) (u v : Text) :
    lineStartsAfter o (u ++ v) = lineStartsAfter o u ++ lineStartsAfter (o + u.length) v := by
  induction u generalizing o with
  | nil => rfl
  | cons c u ih =>
    simp only [List.cons_append, lineStartsAfter, List.length_cons, ih, Nat.add_right_comm o 1,
      ← Nat.add_assoc]
    split <;> rfl

theorem lineStartsAfter_add (o k : Nat) (t : Text) :
    lineStartsAfter (o + k) t = (lineStartsAfter o t).map (· + k) := by
  induction t generalizing o with
  | nil => rfl
  | cons c t ih =>
    simp only [lineStartsAfter, Nat.add_right_comm o k 1, ih]
    split <;> rfl

theorem length_lineStartsAfter (o : Nat) (t : Text) : (lineStartsAfter o t).length = t.count '\n' := by
  induction t generalizing o with
  | nil => rfl
  | cons c t ih =>
    rw [lineStartsAfter, List.count_cons]
    split
    · next h => rw [List.length_cons, ih, h, if_pos (by decide)]
    · next h => rw [ih, if_neg (by simpa using h), Nat.add_zero]

theorem le_of_mem_lineStartsAfter {o i : Nat} {t : Text} (h : i ∈ lineStartsAfter o t) : i ≤ o + t.length := by
  induction t generalizing o with
  | nil => cases h
  | cons c t ih =>
    rw [lineStartsAfter] at h
    rw [List.length_cons]
    split at h
    · rcases List.mem_cons.1 h with rfl | h
      · omega
      · have := ih h
        omega
    · have := ih h
      omega

namespace Scope

/-- The scope of a text `k` characters and `up` lines further down than another. -/
structure Below (scope scope' : Scope) (k up : Nat) : Prop where
  references : scope'.references = scope.references
  lineOf : ∀ o, scope'.lineOf (o + k) = scope.lineOf o + up

/-- Text with something in front of it. -/
theorem below_ofText (u v : Text) (references : List Reference) :
    Below (ofText v references) (ofText (u ++ v) references) u.length (u.count '\n') := by
  refine ⟨rfl, fun o => ?_⟩
  have hbefore : (lineStartsAfter 0 u).countP (· ≤ o + u.length) = u.count '\n' := by
    rw [← length_lineStartsAfter 0 u, List.countP_eq_length]
    intro i hi
    have := le_of_mem_lineStartsAfter hi
    simp only [decide_eq_true_eq]
    omega
  have hafter : (lineStartsAfter u.length v).countP (· ≤ o + u.length) = (lineStartsAfter 0 v).countP (· ≤ o) := by
    have hmap := lineStartsAfter_add 0 u.length v
    rw [Nat.zero_add] at hmap
    rw [hmap, List.countP_map]
    refine List.countP_congr fun i _ => ?_
    simp only [Function.comp_apply, decide_eq_true_eq]
    omega
  simp only [Scope.lineOf, ofText, lineStartsAfter_append, List.countP_cons, List.countP_append, Nat.zero_add,
    hbefore, hafter, Nat.zero_le, decide_true, if_true]
  omega

variable {scope scope' : Scope} {k up : Nat} {v : Position.Views}

/-- Scopes in which positions look the same, those of the second `k` characters further on. -/
structure Seen (scope scope' : Scope) (k : Nat) (v : Position.Views) : Prop where
  references : scope'.references = scope.references
  position : ∀ first stop, v.there (scope'.position (first + k) (stop + k)) = v.here (scope.position first stop)

theorem Below.seen (h : Below scope scope' k up) : Seen scope scope' k (.below up) := by
  refine ⟨h.references, fun first stop => ?_⟩
  have hend : max (first + k) (stop + k - 1) = max first (stop - 1) + k := by omega
  simp only [Position.Views.below, position, Position.outline, h.lineOf, hend, if_true, Nat.add_sub_cancel, Nat.sub_zero]

theorem Seen.outline_node (h : Seen scope scope' k v) {kind kind' : Kind} {children children' : List Node}
    (hkind : kind'.bare = kind.bare) (hchildren : Node.outlineAll v.there children' = Node.outlineAll v.here children)
    (first stop : Nat) :
    (scope'.node kind' (first + k) (stop + k) children').outline v.there =
      (scope.node kind first stop children).outline v.here := by
  rw [node, node, Node.outline, Node.outline, hkind, hchildren, Option.map_some, Option.map_some, h.position]

end Scope
end Markup
end Narration
