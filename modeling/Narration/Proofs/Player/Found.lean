import Narration.Proofs.Player.Entry
import Narration.Proofs.Voice.RoundTrip

/-!
# Finding a narration block

* `Player.isMark`, `Player.Unmarked` : components of a name and stamps, and nodes without them;
* `Player.usesInAll_eq_nil_iff`, `Player.Fresh.unmarked` : a document without them;
* `Player.uses_of_once` : the only component of a name;
* `Player.stamp?_eq`, `Player.findSome?_stamp` : the stamp of a use, and the first fingerprint;
* `Player.uses_withBlock` : the only use of a component is that of the block;
* `Player.stamp?_blockUse`, `Player.findSome?_withBlock` : its stamp, and the fingerprint in it.
-/

namespace Narration

namespace Node

theorem walk_eq (n : Node) : n.walk = n :: walkAll n.children := by
  cases n
  rfl

theorem walk_of_children {n : Node} (h : n.children = []) : n.walk = [n] := by
  rw [walk_eq, h]
  rfl

end Node

namespace Player
open Markup
open Markup.Block

variable {name t a b : Text} {nodes ns ns' above below : List Node} {tree : Node} {n : Narrated} {scope scope' : Scope}
  {around : List Node}

/-! ## Marks -/

/-- Whether a kind is that of a component of some name, or of a stamp. -/
def isMark (name : Text) : Kind → Bool
  | .component n _ => n = name
  | .expression source => (digest? source).isSome
  | _ => false

theorem isMark_bare (name : Text) (k : Kind) : isMark name k.bare = isMark name k := by
  cases k <;> rfl

theorem component?_eq_none {m : Node} (h : isMark name m.kind = false) : m.component? name = none := by
  unfold Node.component?
  split
  · next heq =>
    rw [heq] at h
    rw [if_neg (by simpa [isMark] using h)]
  · rfl

theorem isStamp_eq_false {m : Node} (h : isMark name m.kind = false) : isStamp m = false := by
  unfold isStamp Node.expression?
  split
  · next heq =>
    rw [heq] at h
    exact h
  · rfl

theorem isMark_eq_false {m : Node} (h : m.component? name = none) (h' : isStamp m = false) : isMark name m.kind = false := by
  unfold isMark
  unfold Node.component? at h
  unfold isStamp Node.expression? at h'
  split
  · next heq =>
    rw [heq] at h
    dsimp only at h
    split at h
    · cases h
    · next hne => simpa using hne
  · next heq =>
    rw [heq] at h'
    exact h'
  · rfl

/-- Nodes with neither a component of some name nor stamps below them. -/
def Unmarked (name : Text) (ns : List Node) : Prop := ∀ m ∈ Node.walkAll ns, isMark name m.kind = false

theorem unmarked_of_subset (h : Unmarked name ns) (hsub : ∀ n ∈ ns', n ∈ ns) : Unmarked name ns' := by
  intro m hm
  obtain ⟨n, hn, hm⟩ := (Node.mem_walkAll ns').1 hm
  exact h m ((Node.mem_walkAll ns).2 ⟨n, hsub n hn, hm⟩)

/-- Marks depend on the kinds of nodes only. -/
theorem unmarked_of_kinds (h : SameKinds ns ns') (hns : Unmarked name ns) : Unmarked name ns' := by
  have hall (ns : List Node) : Unmarked name ns ↔ ∀ k ∈ (Node.walkAll ns).map (·.kind.bare), isMark name k = false := by
    rw [List.forall_mem_map]
    simp only [isMark_bare]
    rfl
  rwa [hall, h.2, ← hall]

theorem unmarked_alike (h : Alike ns ns') (hns : Unmarked name ns) : Unmarked name ns' := unmarked_of_kinds h.kinds hns

/-! ## Uses -/

theorem usesInAll_append (name : Text) (around ns ns' : List Node) :
    usesInAll name around (ns ++ ns') = usesInAll name around ns ++ usesInAll name around ns' := by
  induction ns with
  | nil => rfl
  | cons n ns ih => rw [List.cons_append, usesInAll, usesInAll, ih, List.append_assoc]

theorem usesIn_of_component? {m : Node} {attributes : List Attribute} (hm : m.component? name = some attributes) (around : List Node) :
    usesIn name around m = [⟨m, attributes, around⟩] := by
  cases m with
  | mk kind children position =>
    rw [usesIn]
    simp only [hm]

theorem usesIn_of_none {m : Node} (hm : m.component? name = none) (around : List Node) :
    usesIn name around m = usesInAll name (m :: around) m.children := by
  cases m with
  | mk kind children position =>
    rw [usesIn]
    simp only [hm]
    rfl

mutual

/-- A node has no uses of a component exactly when it and all below it are none. -/
theorem usesIn_eq_nil_iff (name : Text) (around : List Node) :
    (n : Node) → (usesIn name around n = [] ↔ ∀ m ∈ n.walk, m.component? name = none)
  | .mk kind children position => by
    rw [usesIn, Node.walk, List.forall_mem_cons]
    split
    · next attributes heq => simp [heq]
    · next heq =>
      rw [usesInAll_eq_nil_iff name (.mk kind children position :: around) children]
      exact (and_iff_right heq).symm

theorem usesInAll_eq_nil_iff (name : Text) (around : List Node) :
    (ns : List Node) → (usesInAll name around ns = [] ↔ ∀ m ∈ Node.walkAll ns, m.component? name = none)
  | [] => by simp [usesInAll, Node.walkAll]
  | n :: ns => by
    rw [usesInAll, List.append_eq_nil_iff, usesIn_eq_nil_iff name around n, usesInAll_eq_nil_iff name around ns,
      Node.walkAll, List.forall_mem_append]

end

theorem Unmarked.usesInAll (h : Unmarked name ns) (around : List Node) : usesInAll name around ns = [] :=
  (usesInAll_eq_nil_iff name around ns).2 fun m hm => component?_eq_none (h m hm)

/-- The only component of a name, among the blocks of a tree, is its only use. -/
theorem uses_of_once {k m : Node} {attributes : List Attribute} (hroot : tree.component? name = none)
    (hchildren : tree.children = above ++ k :: m :: below) (hm : m.component? name = some attributes)
    (honce : tree.walk.countP (fun q => (q.component? name).isSome) = 1) :
    uses tree name = [⟨m, attributes, [tree]⟩] ∧ (∀ q ∈ Node.walkAll above, q.component? name = none) ∧ k.component? name = none := by
  have hnone (ns : List Node) (h : (Node.walkAll ns).countP (fun q => (q.component? name).isSome) = 0) :
      ∀ q ∈ Node.walkAll ns, q.component? name = none := by
    simpa using h
  have hself : 1 ≤ m.walk.countP fun q => (q.component? name).isSome := by
    rw [Node.walk_eq, List.countP_cons_of_pos (by simp [hm])]
    omega
  rw [Node.walk_eq, List.countP_cons_of_neg (by simp [hroot]), hchildren, Node.walkAll_append, Node.walkAll, Node.walkAll,
    List.countP_append, List.countP_append, List.countP_append] at honce
  have habove := hnone above (by omega)
  have hbelow := hnone below (by omega)
  have hk := hnone [k] (by
    rw [Node.walkAll, Node.walkAll, List.append_nil]
    omega)
  have huses (ns : List Node) := usesInAll_eq_nil_iff name [tree] ns
  refine ⟨?_, habove, hk k (by simp [Node.walkAll, k.self_mem_walk])⟩
  have hsplit : above ++ k :: m :: below = above ++ ([k] ++ m :: below) := rfl
  rw [uses, usesIn_of_none hroot, hchildren, hsplit, usesInAll_append, usesInAll_append, (huses _).2 habove, (huses _).2 hk,
    usesInAll, usesIn_of_component? hm, (huses _).2 hbelow]
  rfl

/-! ## Stamps -/

/-- A stamp directly before a use belongs to it. -/
theorem stamp?_eq {root k m : Node} {attributes : List Attribute} (hroot : root.children = above ++ k :: m :: below) (hk : isStamp k)
    (hne : ∀ q ∈ above ++ [k], q.kind ≠ m.kind) : (Use.mk m attributes [root]).stamp? = some k := by
  have hbefore : root.children.takeWhile (fun q => !(q.position = m.position && q.kind = m.kind)) = above ++ [k] := by
    have hparts : root.children = above ++ [k] ++ m :: below := by
      rw [hroot]
      simp
    rw [hparts, List.takeWhile_append_of_pos fun q hq => by simp [hne q hq], List.takeWhile_cons_of_neg (by simp), List.append_nil]
  change ((root.children.takeWhile fun q => !(q.position = m.position && q.kind = m.kind)).reverse.dropWhile
    fun q => !isStamp q && isGap q).head?.bind (fun candidate => if isStamp candidate then some candidate else none) = _
  rw [hbefore, List.reverse_append, List.reverse_singleton, List.singleton_append,
    List.dropWhile_cons_of_neg (by simp [hk]), List.head?_cons, Option.bind_some, if_pos hk]

/-- The first fingerprint is that of the first stamp. -/
theorem findSome?_stamp {k : Node} {source digest : Text} (habove : Unmarked name above) (hkind : k.kind = .expression source)
    (hdigest : digest? source = some digest) : (Node.walkAll (above ++ k :: below)).findSome? (fun q => q.expression?.bind digest?) =
      some digest := by
  have hnone : (Node.walkAll above).findSome? (fun q => q.expression?.bind digest?) = none := by
    rw [List.findSome?_eq_none_iff]
    intro q hq
    have hmark := isStamp_eq_false (habove q hq)
    rw [isStamp] at hmark
    cases hexpression : q.expression? with
    | none => rfl
    | some source =>
      rw [hexpression] at hmark
      simpa using hmark
  have hstamp : k.expression?.bind digest? = some digest := by
    rw [Node.expression?, hkind]
    exact hdigest
  rw [Node.walkAll_append, List.findSome?_append, hnone, Option.none_or, Node.walkAll, Node.walk_eq, List.cons_append,
    List.findSome?_cons, hstamp]

/-! ## Documents without narration -/

/-- The nodes of a document that narration can enter have no marks. -/
theorem Fresh.unmarked (h : Fresh t tree name) : Unmarked name tree.children := by
  have hall : ∀ m ∈ tree.walk, isMark name m.kind = false := fun m hm =>
    isMark_eq_false ((usesIn_eq_nil_iff name [] tree).1 h.absent m hm) (h.unstamped m hm)
  intro m hm
  refine hall m ?_
  cases tree with
  | mk kind children position => exact List.mem_cons_of_mem _ hm

/-! ## The block among other nodes -/

/-- Around a block there are no marks when there are none in the other text. -/
theorem Carries.unmarked (h : Carries nodes n a b scope above below) (hnodes : Unmarked name nodes) :
    Unmarked name above ∧ Unmarked name below := by
  have hopening {q : Node} (hq : q ∈ opening nodes) : q ∈ nodes := (List.takeWhile_sublist _).subset hq
  constructor
  · intro m hm
    obtain ⟨q, hq, hm⟩ := (Node.mem_walkAll above).1 hm
    obtain ⟨hchildren, hkind⟩ := h.leaf q hq
    rw [Node.walk_of_children hchildren, List.mem_singleton] at hm
    subst hm
    rcases hkind with hkind | hkind | ⟨k, hk, hkind⟩
    · obtain ⟨source, hsource⟩ := exists_modules hkind
      rw [hsource]
      rfl
    · unfold isFrontMatter at hkind
      split at hkind
      · next heq =>
        rw [heq]
        rfl
      · cases hkind
    · rw [← hkind]
      exact hnodes k ((Node.mem_walkAll nodes).2 ⟨k, hopening hk, k.self_mem_walk⟩)
  · obtain ⟨qs, hqs, halike⟩ := h.below
    refine unmarked_alike halike (unmarked_of_subset hnodes fun q hq => ?_)
    rcases List.mem_append.1 hq with hq | hq
    · exact hopening (hqs q hq)
    · exact (List.dropWhile_sublist _).subset hq

/-- The nodes of a text with a narration block. -/
abbrev withBlock (scope : Scope) (a : Nat) (n : Narrated) (above below : List Node) : List Node :=
  above ++ (blockNodes scope a n ++ below)

/-- The use of a component that is a narration block. -/
def blockUse (scope : Scope) (a : Nat) (n : Narrated) (around : List Node) : Use :=
  ⟨tagNode scope a n, [voicesAt (tagPlace a n) n.voices n.name], around⟩

theorem usesInAll_blockNodes (scope : Scope) (place : Nat) (n : Narrated) (around : List Node) :
    usesInAll n.name around (blockNodes scope place n) = [blockUse scope place n around] := by
  have hstamp : usesIn n.name around (stampNode scope place n) = [] := rfl
  have htag : usesIn n.name around (tagNode scope place n) = [blockUse scope place n around] :=
    usesIn_of_component? (by simp [tagNode, Scope.node, Node.component?, Node.kind]) around
  rw [blockNodes, usesInAll, usesInAll, usesInAll, hstamp, htag]
  rfl

theorem isStamp_stampNode (hd : isDigest n.digest) (scope : Scope) (place : Nat) : isStamp (stampNode scope place n) := by
  change ((some (stampSource n.digest)).any fun source => (digest? source).isSome) = true
  rw [Option.any_some, digest?_stampSource hd]
  rfl

section Block
variable {place : Nat} {root : Node} (habove : Unmarked n.name above) (hbelow : Unmarked n.name below)
include habove

theorem usesInAll_withBlock (hbelow : Unmarked n.name below) (around : List Node) :
    usesInAll n.name around (withBlock scope place n above below) = [blockUse scope place n around] := by
  rw [withBlock, usesInAll_append, usesInAll_append, habove.usesInAll, hbelow.usesInAll, usesInAll_blockNodes]
  rfl

theorem uses_withBlock (hbelow : Unmarked n.name below) (stop : Nat) :
    uses (scope'.node .root 0 stop (withBlock scope place n above below)) n.name =
      [blockUse scope place n [scope'.node .root 0 stop (withBlock scope place n above below)]] :=
  usesInAll_withBlock habove hbelow _

/-- The stamp of a block stands before its tag. -/
theorem stamp?_blockUse (hd : isDigest n.digest) (hroot : root.children = withBlock scope place n above below) :
    (blockUse scope place n [root]).stamp? = some (stampNode scope place n) := by
  refine stamp?_eq hroot (isStamp_stampNode hd scope place) fun m hm => ?_
  have hkind : (tagNode scope place n).kind = .component n.name [voicesAt (tagPlace place n) n.voices n.name] := rfl
  rw [hkind]
  rcases List.mem_append.1 hm with hm | hm
  · have hmark := habove m ((Node.mem_walkAll above).2 ⟨m, hm, m.self_mem_walk⟩)
    intro heq
    simp [heq, isMark] at hmark
  · rw [List.mem_singleton.1 hm]
    exact nofun

/-- The first fingerprint is that of the block. -/
theorem findSome?_withBlock (hd : isDigest n.digest) :
    (Node.walkAll (withBlock scope place n above below)).findSome? (fun node => node.expression?.bind digest?) =
      some n.digest :=
  findSome?_stamp habove rfl (digest?_stampSource hd)

end Block

end Player
end Narration
