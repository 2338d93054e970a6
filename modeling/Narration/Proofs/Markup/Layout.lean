import Narration.Proofs.Markup.Place

/-!
# Nodes in the order of the text

* `Text.Wraps`, `Kind.Covers` : what a text holds where a value in braces or quotes, or a node, stands;
* `Kind.stands` : the kinds of nodes that are never without a position;
* `Node.topsAll` : the nodes with positions that stand in no other such node;
* `Node.exists_topsAll`, `Node.mem_walkAll_of_topsAll` : what stands below them;
* `Fits` : a node that covers its part of a text, as do the nodes in it, one after the other;
* `Laid` : nodes that fit one after the other between two offsets;
* `Node.paths`, `Node.follow` : the walk of a node, each node with the way that leads to it;
* `Precedes`, `Laid.addresses`, `pathsAll_precedes` : what this means for the walk.
-/

namespace Narration

/-! ## What a text holds at a position -/

/-- From `first` up to `stop` a text holds a value between two marks. The value is compared where it does not run over
a line end. -/
structure Text.Wraps (t : Text) (first stop : Nat) (opening : Char) (value : Text) (closing : Char) : Prop where
  lt : first + 1 < stop
  head : t[first]? = some opening
  last : t[stop - 1]? = some closing
  slice : '\n' ∉ t.slice first stop → t.slice first stop = opening :: value ++ [closing]

/-- An attribute whose span, if it has one, covers its value with the quotes or braces. -/
def Attribute.Covers (t : Text) (a : Attribute) : Prop :=
  ∀ first stop, a.span = some (first, stop) →
    match a.value with
    | some (.literal value) => ∃ q, (q = '"' ∨ q = '\'') ∧ t.Wraps first stop q value q
    | some (.expression source) => t.Wraps first stop '\x7b' source '\x7d'
    | none => False

/-- What a text holds where a node of some kind stands. -/
def Kind.Covers (t : Text) (first stop : Nat) : Kind → Prop
  | .expression source => t.Wraps first stop '\x7b' source '\x7d'
  | .component _ attributes => t[first]? = some '<' ∧ t[stop - 1]? = some '>' ∧ ∀ a ∈ attributes, a.Covers t
  | _ => True

/-- A position that addresses a text. -/
structure Position.Addresses (t : Text) (p : Position) : Prop where
  le : p.start ≤ p.stop
  stop_le : p.stop ≤ t.length
  startLine : p.startLine = 1 + (t.take p.start).count '\n'

/-- Whether a node of some kind is never without a position. -/
def Kind.stands : Kind → Bool
  | .expression _ => true
  | .component _ _ => true
  | _ => false

/-- A node whose position, if it has one, addresses a text and covers what the node is made from. -/
structure Node.Addresses (t : Text) (n : Node) : Prop where
  stands : n.kind.stands → n.position.isSome
  covers : ∀ p ∈ n.position, p.Addresses t ∧ n.kind.Covers t p.start p.stop

/-! ## Outermost nodes -/

namespace Node

mutual

/-- The node itself when it has a position or is never without one, else the outermost such nodes below it. -/
def tops : Node → List Node
  | mk kind children (some p) => [mk kind children (some p)]
  | mk kind children none => if kind.stands then [mk kind children none] else topsAll children

/-- The outermost nodes with positions among several nodes. -/
def topsAll : List Node → List Node
  | [] => []
  | node :: nodes => tops node ++ topsAll nodes

end

variable {n m : Node} {ns ms : List Node}

@[simp] theorem topsAll_nil : topsAll [] = [] := by rw [topsAll]

theorem topsAll_cons (n : Node) (ns : List Node) : topsAll (n :: ns) = n.tops ++ topsAll ns := by rw [topsAll]

@[simp] theorem topsAll_append (ns ms : List Node) : topsAll (ns ++ ms) = topsAll ns ++ topsAll ms := by
  induction ns with
  | nil => rw [List.nil_append, topsAll_nil, List.nil_append]
  | cons n ns ih => rw [List.cons_append, topsAll_cons, topsAll_cons, ih, List.append_assoc]

theorem mem_topsAll : m ∈ topsAll ns ↔ ∃ n ∈ ns, m ∈ n.tops := by
  induction ns with
  | nil => simp
  | cons n ns ih => simp [topsAll_cons, ih]

theorem topsAll_singleton (n : Node) : topsAll [n] = n.tops := by rw [topsAll_cons, topsAll_nil, List.append_nil]

theorem tops_placed (kind : Kind) (children : List Node) (p : Position) :
    tops (mk kind children (some p)) = [mk kind children (some p)] := by rw [tops]

theorem tops_free {kind : Kind} (h : kind.stands = false) (children : List Node) :
    tops (mk kind children none) = topsAll children := by rw [tops, h, if_neg Bool.false_ne_true]

theorem tops_leaf {kind : Kind} (h : kind.stands = false) : tops (leaf kind) = [] := by rw [leaf, tops_free h, topsAll_nil]

theorem topsAll_of_placed (h : ∀ n ∈ ns, n.position.isSome) : topsAll ns = ns := by
  induction ns with
  | nil => exact topsAll_nil
  | cons n ns ih =>
    obtain ⟨hn, hns⟩ := List.forall_mem_cons.1 h
    obtain ⟨kind, children, p⟩ := n
    obtain ⟨p, rfl⟩ := Option.isSome_iff_exists.1 hn
    rw [topsAll_cons, ih hns, tops_placed]
    rfl

mutual

theorem exists_tops : ∀ n : Node, ∀ m ∈ n.walk, m.position.isSome ∨ m.kind.stands → ∃ x ∈ n.tops, m ∈ x.walk
  | mk kind children (some p), m, hm, _ => ⟨_, by rw [tops_placed]; exact List.mem_singleton.2 rfl, hm⟩
  | mk kind children none, m, hm, hp => by
    cases hstands : kind.stands with
    | true => exact ⟨_, by rw [tops, if_pos hstands]; exact List.mem_singleton.2 rfl, hm⟩
    | false =>
      rw [walk] at hm
      rw [tops_free hstands]
      rcases List.mem_cons.1 hm with rfl | hm
      · have hkind : kind.stands = true := hp.resolve_left Bool.false_ne_true
        exact absurd (hstands.symm.trans hkind) Bool.false_ne_true
      · exact exists_topsAll children m hm hp

/-- A node that has a position, or is never without one, is, or is below, an outermost one. -/
theorem exists_topsAll : ∀ ns : List Node, ∀ m ∈ walkAll ns, m.position.isSome ∨ m.kind.stands → ∃ x ∈ topsAll ns, m ∈ x.walk
  | [], m, hm, _ => by
    rw [walkAll] at hm
    cases hm
  | n :: ns, m, hm, hp => by
    rw [walkAll] at hm
    rw [topsAll_cons]
    rcases List.mem_append.1 hm with hm | hm
    · obtain ⟨x, hx, hmem⟩ := exists_tops n m hm hp
      exact ⟨x, List.mem_append_left _ hx, hmem⟩
    · obtain ⟨x, hx, hmem⟩ := exists_topsAll ns m hm hp
      exact ⟨x, List.mem_append_right _ hx, hmem⟩

end

mutual

theorem mem_walk_of_tops : ∀ {n x m : Node}, x ∈ n.tops → m ∈ x.walk → m ∈ n.walk
  | mk kind children (some p), x, m, hx, hm => by
    rw [tops_placed, List.mem_singleton] at hx
    exact hx ▸ hm
  | mk kind children none, x, m, hx, hm => by
    rw [tops] at hx
    split at hx
    · exact List.mem_singleton.1 hx ▸ hm
    · exact List.mem_cons_of_mem _ (mem_walkAll_of_topsAll hx hm)

/-- What is below an outermost node is below one of the nodes. -/
theorem mem_walkAll_of_topsAll : ∀ {ns : List Node} {x m : Node}, x ∈ topsAll ns → m ∈ x.walk → m ∈ walkAll ns
  | [], x, m, hx, _ => by
    rw [topsAll_nil] at hx
    cases hx
  | n :: ns, x, m, hx, hm => by
    rw [topsAll_cons] at hx
    rw [walkAll]
    rcases List.mem_append.1 hx with hx | hx
    · exact List.mem_append_left _ (mem_walk_of_tops hx hm)
    · exact List.mem_append_right _ (mem_walkAll_of_topsAll hx hm)

end

/-- The position of a node, if it has one, lies between two offsets. -/
def Inside (lo hi : Nat) (n : Node) : Prop := ∀ p ∈ n.position, lo ≤ p.start ∧ p.stop ≤ hi

/-- A node ends before another begins, if both have positions. -/
def Before (n m : Node) : Prop := ∀ p ∈ n.position, ∀ q ∈ m.position, p.stop ≤ q.start

theorem Inside.mono {lo hi lo' hi' : Nat} (h : n.Inside lo hi) (hlo : lo' ≤ lo) (hhi : hi ≤ hi') : n.Inside lo' hi' :=
  fun p hp => ⟨Nat.le_trans hlo (h p hp).1, Nat.le_trans (h p hp).2 hhi⟩

theorem Inside.before {lo mid hi : Nat} (hn : n.Inside lo mid) (hm : m.Inside mid hi) : n.Before m :=
  fun p hp q hq => Nat.le_trans (hn p hp).2 (hm q hq).1

end Node

/-! ## Nodes that fit -/

open Node

/-- A node with a position that stands once in its content and covers its part of a text; the outermost nodes in it
fit too, and stand one after the other within it. -/
inductive Fits (t : Text) : Node → Prop
  | mk {kind : Kind} {children : List Node} {p : Position} (hlt : p.start < p.stop) (hcopies : p.copies = 1)
      (hline : p.startLine = 1 + (t.take p.start).count '\n') (hcovers : kind.Covers t p.start p.stop)
      (hfits : ∀ n ∈ topsAll children, Fits t n) (hinside : ∀ n ∈ topsAll children, n.Inside p.start p.stop)
      (hbefore : (topsAll children).Pairwise Before) : Fits t (.mk kind children (some p))

/-- Nodes whose outermost nodes with positions fit, one after the other, between two offsets. -/
structure Laid (t : Text) (lo hi : Nat) (ns : List Node) : Prop where
  fits : ∀ n ∈ topsAll ns, Fits t n
  inside : ∀ n ∈ topsAll ns, n.Inside lo hi
  before : (topsAll ns).Pairwise Before

namespace Laid

variable {t : Text} {lo mid hi lo' hi' : Nat} {n : Node} {ns ms : List Node}

theorem of_tops_eq_nil (h : topsAll ns = []) : Laid t lo hi ns := by
  refine ⟨?_, ?_, ?_⟩ <;> rw [h]
  · exact nofun
  · exact nofun
  · exact .nil

theorem nil : Laid t lo hi [] := of_tops_eq_nil topsAll_nil

theorem mono (h : Laid t lo hi ns) (hlo : lo' ≤ lo) (hhi : hi ≤ hi') : Laid t lo' hi' ns :=
  ⟨h.fits, fun n hn => (h.inside n hn).mono hlo hhi, h.before⟩

/-- Nodes whose outermost nodes are among those of others, in the same order. -/
theorem sublist (h : Laid t lo hi ns) (hsub : (topsAll ms).Sublist (topsAll ns)) : Laid t lo hi ms :=
  ⟨fun n hn => h.fits n (hsub.subset hn), fun n hn => h.inside n (hsub.subset hn), h.before.sublist hsub⟩

theorem append (h : Laid t lo mid ns) (h' : Laid t mid hi ms) (hlo : lo ≤ mid) (hhi : mid ≤ hi) :
    Laid t lo hi (ns ++ ms) := by
  have h₁ := h.mono (Nat.le_refl lo) hhi
  have h₂ := h'.mono hlo (Nat.le_refl hi)
  refine ⟨?_, ?_, ?_⟩ <;> rw [topsAll_append]
  · exact fun n hn => (List.mem_append.1 hn).elim (h.fits n) (h'.fits n)
  · exact fun n hn => (List.mem_append.1 hn).elim (h₁.inside n) (h₂.inside n)
  · exact List.pairwise_append.2 ⟨h.before, h'.before, fun n hn m hm => (h.inside n hn).before (h'.inside m hm)⟩

theorem cons (h : Laid t lo mid [n]) (h' : Laid t mid hi ns) (hlo : lo ≤ mid) (hhi : mid ≤ hi) :
    Laid t lo hi (n :: ns) := h.append h' hlo hhi

/-- A node without a position is laid as the nodes in it are. -/
theorem free {kind : Kind} (hkind : kind.stands = false) {children : List Node} (h : Laid t lo hi children) :
    Laid t lo hi [.mk kind children none] := h.sublist (by rw [topsAll_singleton, tops_free hkind])

/-- A node of a text is laid where it stands when the nodes in it are. -/
theorem node {references : List Markup.Reference} {kind : Kind} {children : List Node} {first stop : Nat}
    (h : Laid t first stop children) (hcovers : kind.Covers t first stop) (hlt : first < stop) (hstop : stop ≤ t.length) :
    Laid t first stop [(Markup.Scope.ofText t references).node kind first stop children] := by
  have hline := Markup.Scope.lineOf_eq (o := first) (Nat.le_trans (Nat.le_of_lt hlt) hstop) references
  refine ⟨?_, ?_, ?_⟩ <;> rw [topsAll_singleton, Markup.Scope.node, tops_placed]
  · intro n hn
    rw [List.mem_singleton.1 hn]
    exact .mk hlt rfl hline hcovers h.fits h.inside h.before
  · intro n hn p hp
    rw [List.mem_singleton.1 hn] at hp
    obtain rfl := Option.some.inj hp
    exact ⟨Nat.le_refl _, Nat.le_refl _⟩
  · exact List.pairwise_singleton _ _

end Laid

/-! ## Walks -/

namespace Fits

variable {t : Text} {n m : Node}

/-- A node below one that fits stands within it. -/
theorem inside (h : Fits t n) (hm : m ∈ n.walk) : ∀ p ∈ n.position, m.Inside p.start p.stop := by
  induction h with
  | @mk kind children p hlt hcopies hline hcovers hfits hinside hbefore ih =>
    intro _ hp
    obtain rfl := Option.some.inj hp
    intro q hq
    rw [walk] at hm
    rcases List.mem_cons.1 hm with rfl | hm
    · obtain rfl := Option.some.inj hq
      exact ⟨Nat.le_refl _, Nat.le_refl _⟩
    · obtain ⟨x, hx, hmem⟩ := exists_topsAll children m hm (.inl (Option.isSome_of_mem hq))
      cases hfits x hx with
      | @mk _ _ r =>
        have houter := hinside _ hx r rfl
        have hinner := ih _ hx hmem r rfl q hq
        exact ⟨Nat.le_trans houter.1 hinner.1, Nat.le_trans hinner.2 houter.2⟩

/-- A node below one that fits does too when it has a position or is never without one. -/
theorem of_mem_walk (h : Fits t n) (hm : m ∈ n.walk) (hp : m.position.isSome ∨ m.kind.stands) : Fits t m := by
  induction h with
  | @mk kind children p hlt hcopies hline hcovers hfits hinside hbefore ih =>
    rw [walk] at hm
    rcases List.mem_cons.1 hm with rfl | hm
    · exact .mk hlt hcopies hline hcovers hfits hinside hbefore
    · obtain ⟨x, hx, hmem⟩ := exists_topsAll children m hm hp
      exact ih x hx hmem

theorem lt (h : Fits t n) : ∀ p ∈ n.position, p.start < p.stop := by
  cases h with
  | mk hlt =>
    rintro _ ⟨⟩
    exact hlt

theorem addresses (h : Fits t n) (hstop : ∀ p ∈ n.position, p.stop ≤ t.length) : n.Addresses t := by
  cases h with
  | mk hlt _ hline hcovers =>
    refine ⟨fun _ => rfl, ?_⟩
    rintro p ⟨⟩
    exact ⟨⟨Nat.le_of_lt hlt, hstop _ rfl, hline⟩, hcovers⟩

end Fits

namespace Laid

variable {t : Text} {lo hi : Nat} {n : Node} {ns : List Node}

theorem walk_inside (h : Laid t lo hi ns) (hn : n ∈ walkAll ns) : n.Inside lo hi := by
  intro p hp
  obtain ⟨x, hx, hmem⟩ := exists_topsAll ns n hn (.inl (Option.isSome_of_mem hp))
  have hinner := (h.fits x hx).inside hmem
  cases h.fits x hx with
  | @mk _ _ q => exact ((hinner q rfl).mono (h.inside _ hx q rfl).1 (h.inside _ hx q rfl).2) p hp

theorem walk_fits (h : Laid t lo hi ns) (hn : n ∈ walkAll ns) (hp : n.position.isSome ∨ n.kind.stands) : Fits t n := by
  obtain ⟨x, hx, hmem⟩ := exists_topsAll ns n hn hp
  exact (h.fits x hx).of_mem_walk hmem hp

/-- All nodes address the text between whose ends they are laid. -/
theorem addresses (h : Laid t lo hi ns) (hhi : hi ≤ t.length) (hn : n ∈ walkAll ns) : n.Addresses t := by
  have hstop : ∀ q ∈ n.position, q.stop ≤ t.length := fun q hq => Nat.le_trans (h.walk_inside hn q hq).2 hhi
  refine ⟨fun hstands => ((h.walk_fits hn (.inr hstands)).addresses hstop).stands hstands, fun p hp => ?_⟩
  exact ((h.walk_fits hn (.inl (Option.isSome_of_mem hp))).addresses hstop).covers p hp

end Laid

/-! ## Ways through the tree -/

namespace Node

mutual

/-- The walk of a node, each node with the way that leads to it: the number of the child to enter, at every level. -/
def paths : Node → List (List Nat × Node)
  | mk kind children position => ([], mk kind children position) :: pathsAll 0 children

/-- The walks of several nodes in a row, the first of them being the child number `k`. -/
def pathsAll : (k : Nat) → List Node → List (List Nat × Node)
  | _, [] => []
  | k, node :: nodes => (paths node).map (fun x => (k :: x.1, x.2)) ++ pathsAll (k + 1) nodes

end

mutual

theorem map_snd_paths : ∀ n : Node, n.paths.map Prod.snd = n.walk
  | mk kind children position => by rw [paths, walk, List.map_cons, map_snd_pathsAll children 0]

/-- The nodes on the ways are those of the walk. -/
theorem map_snd_pathsAll : ∀ (ns : List Node) (k : Nat), (pathsAll k ns).map Prod.snd = walkAll ns
  | [], k => by rw [pathsAll, walkAll, List.map_nil]
  | n :: ns, k => by
    rw [pathsAll, walkAll, List.map_append, List.map_map, map_snd_pathsAll ns (k + 1), ← map_snd_paths n]
    rfl

end

/-- The node below another one to which a way leads. -/
def follow : Node → List Nat → Option Node
  | n, [] => some n
  | n, i :: is => n.children[i]?.bind fun child => child.follow is

mutual

theorem mem_paths : ∀ (n : Node) (path : List Nat) (m : Node), (path, m) ∈ n.paths ↔ n.follow path = some m
  | mk kind children position, [], m => by
    rw [paths, List.mem_cons, follow, Prod.mk.injEq, Option.some.injEq, eq_comm (a := m)]
    refine ⟨fun h => h.elim And.right fun h => ?_, fun h => .inl ⟨rfl, h⟩⟩
    obtain ⟨i, is, c, heq, -⟩ := (mem_pathsAll children 0 [] m).1 h
    cases heq
  | mk kind children position, i :: is, m => by
    rw [paths, List.mem_cons, mem_pathsAll children 0 (i :: is) m, follow, Option.bind_eq_some_iff]
    constructor
    · rintro (h | ⟨j, js, c, heq, hc, hm⟩)
      · cases h
      · rw [Nat.zero_add, List.cons.injEq] at heq
        obtain ⟨rfl, rfl⟩ := heq
        exact ⟨c, hc, hm⟩
    · rintro ⟨c, hc, hm⟩
      exact .inr ⟨i, is, c, by rw [Nat.zero_add], hc, hm⟩

/-- The walk with ways tells of every way the node that it leads to. -/
theorem mem_pathsAll : ∀ (ns : List Node) (k : Nat) (path : List Nat) (m : Node), (path, m) ∈ pathsAll k ns ↔
    ∃ i is c, path = (k + i) :: is ∧ ns[i]? = some c ∧ c.follow is = some m
  | [], k, path, m => by
    rw [pathsAll]
    simp
  | n :: ns, k, path, m => by
    rw [pathsAll, List.mem_append, List.mem_map, mem_pathsAll ns (k + 1) path m]
    constructor
    · rintro (⟨⟨is, c⟩, hc, heq⟩ | ⟨i, is, c, rfl, hc, hm⟩)
      · cases heq
        exact ⟨0, is, n, rfl, rfl, (mem_paths n is c).1 hc⟩
      · exact ⟨i + 1, is, c, by rw [Nat.add_right_comm, Nat.add_assoc], hc, hm⟩
    · rintro ⟨_ | i, is, c, rfl, hc, hm⟩
      · obtain rfl := Option.some.inj hc
        exact .inl ⟨(is, m), (mem_paths n is m).2 hm, rfl⟩
      · exact .inr ⟨i, is, c, by rw [Nat.add_right_comm, Nat.add_assoc], hc, hm⟩

end

theorem mem_walk_of_mem_paths {n : Node} {x : List Nat × Node} (h : x ∈ n.paths) : x.2 ∈ n.walk :=
  map_snd_paths n ▸ List.mem_map_of_mem h

theorem mem_walkAll_of_mem_pathsAll {ns : List Node} {k : Nat} {x : List Nat × Node} (h : x ∈ pathsAll k ns) :
    x.2 ∈ walkAll ns := map_snd_pathsAll ns k ▸ List.mem_map_of_mem h

theorem exists_of_mem_pathsAll {ns : List Node} {k : Nat} {x : List Nat × Node} (h : x ∈ pathsAll k ns) :
    ∃ i is, k ≤ i ∧ x.1 = i :: is := by
  induction ns generalizing k with
  | nil =>
    rw [pathsAll] at h
    cases h
  | cons n ns ih =>
    rw [pathsAll] at h
    rcases List.mem_append.1 h with h | h
    · obtain ⟨y, -, rfl⟩ := List.mem_map.1 h
      exact ⟨k, y.1, Nat.le_refl k, rfl⟩
    · obtain ⟨i, is, hle, hx⟩ := ih h
      exact ⟨i, is, Nat.le_of_succ_le hle, hx⟩

end Node

/-- Two nodes, the first earlier in the walk. With positions, the second does not begin before the first. It lies within
the first when the way to it leads through the first, and behind it else. -/
def Precedes (x y : List Nat × Node) : Prop :=
  ∀ p ∈ x.2.position, ∀ q ∈ y.2.position,
    p.start ≤ q.start ∧ (x.1 <+: y.1 → q.stop ≤ p.stop) ∧ (¬x.1 <+: y.1 → p.stop ≤ q.start)

theorem Precedes.below {n m : Node} {path : List Nat} (h : ∀ p ∈ n.position, m.Inside p.start p.stop) :
    Precedes ([], n) (path, m) := by
  intro p hp q hq
  exact ⟨(h p hp q hq).1, fun _ => (h p hp q hq).2, fun hnot => absurd List.nil_prefix hnot⟩

theorem Precedes.behind {n m : Node} {as bs : List Nat} (h : ∀ p ∈ n.position, p.start ≤ p.stop) (hnm : n.Before m)
    (hnot : ¬as <+: bs) : Precedes (as, n) (bs, m) := by
  intro p hp q hq
  exact ⟨Nat.le_trans (h p hp) (hnm p hp q hq), fun hpre => absurd hpre hnot, fun _ => hnm p hp q hq⟩

theorem Precedes.enter {x y : List Nat × Node} (h : Precedes x y) (k : Nat) : Precedes (k :: x.1, x.2) (k :: y.1, y.2) := by
  intro p hp q hq
  obtain ⟨hstart, hbelow, hbehind⟩ := h p hp q hq
  have hiff : k :: x.1 <+: k :: y.1 ↔ x.1 <+: y.1 := by simp
  exact ⟨hstart, fun hpre => hbelow (hiff.1 hpre), fun hnot => hbehind fun hpre => hnot (hiff.2 hpre)⟩

section Order
variable {t : Text}

mutual

theorem paths_precedes : ∀ n : Node, (∀ x ∈ n.tops, Fits t x) → n.tops.Pairwise Before → n.paths.Pairwise Precedes
  | mk kind children (some p), hfits, _ => by
    rw [tops_placed] at hfits
    have hn := hfits _ (List.mem_singleton.2 rfl)
    rw [paths]
    refine List.pairwise_cons.2 ⟨fun x hx => ?_, ?_⟩
    · refine .below fun q hq => hn.inside ?_ q hq
      rw [walk]
      exact List.mem_cons_of_mem _ (mem_walkAll_of_mem_pathsAll hx)
    · cases hn with
      | mk _ _ _ _ hchildren _ hbefore => exact pathsAll_precedes children 0 hchildren hbefore
  | mk kind children none, hfits, hbefore => by
    cases hstands : kind.stands with
    | true =>
      rw [tops, if_pos hstands] at hfits
      cases hfits _ (List.mem_singleton.2 rfl)
    | false =>
      rw [tops_free hstands] at hfits hbefore
      rw [paths]
      refine List.pairwise_cons.2 ⟨fun x _ => ?_, pathsAll_precedes children 0 hfits hbefore⟩
      rintro p ⟨⟩

/-- The walk of nodes that fit one after the other keeps to the order of the text. -/
theorem pathsAll_precedes : ∀ (ns : List Node) (k : Nat), (∀ x ∈ topsAll ns, Fits t x) → (topsAll ns).Pairwise Before →
    (pathsAll k ns).Pairwise Precedes
  | [], k, _, _ => by
    rw [pathsAll]
    exact .nil
  | n :: ns, k, hfits, hbefore => by
    rw [topsAll_cons] at hfits hbefore
    obtain ⟨hn, hns, hcross⟩ := List.pairwise_append.1 hbefore
    have hfitsn : ∀ x ∈ n.tops, Fits t x := fun x hx => hfits x (List.mem_append_left _ hx)
    have hfitsns : ∀ x ∈ topsAll ns, Fits t x := fun x hx => hfits x (List.mem_append_right _ hx)
    rw [pathsAll]
    refine List.pairwise_append.2 ⟨?_, pathsAll_precedes ns (k + 1) hfitsns hns, ?_⟩
    · exact List.pairwise_map.2 ((paths_precedes n hfitsn hn).imp fun h => h.enter k)
    · intro x hx y hy
      obtain ⟨x', hx', rfl⟩ := List.mem_map.1 hx
      obtain ⟨j, bs, hj, hpath⟩ := exists_of_mem_pathsAll hy
      have hnot : ¬k :: x'.1 <+: y.1 := by
        rw [hpath, List.cons_prefix_cons]
        omega
      -- both nodes stand in outermost ones, of which the first ends before the second begins
      have hbehind : x'.2.Before y.2 := by
        intro p hp q hq
        obtain ⟨a, ha, hxa⟩ := exists_tops n x'.2 (mem_walk_of_mem_paths hx') (.inl (Option.isSome_of_mem hp))
        obtain ⟨b, hb, hyb⟩ := exists_topsAll ns y.2 (mem_walkAll_of_mem_pathsAll hy) (.inl (Option.isSome_of_mem hq))
        have hxin := (hfitsn a ha).inside hxa
        have hyin := (hfitsns b hb).inside hyb
        have hab := hcross a ha b hb
        cases hfitsn a ha with
        | @mk _ _ r =>
          cases hfitsns b hb with
          | @mk _ _ s => exact Nat.le_trans (hxin r rfl p hp).2 (Nat.le_trans (hab r rfl s rfl) (hyin s rfl q hq).1)
      refine Precedes.behind (fun p hp => ?_) hbehind hnot
      obtain ⟨a, ha, hxa⟩ := exists_tops n x'.2 (mem_walk_of_mem_paths hx') (.inl (Option.isSome_of_mem hp))
      exact Nat.le_of_lt (((hfitsn a ha).of_mem_walk hxa (.inl (Option.isSome_of_mem hp))).lt p hp)

end

end Order
end Narration
