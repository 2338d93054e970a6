import Narration.Proofs.Player.Extracted
import Narration.Proofs.Player.Repeated

/-!
# Injection into a document with narration

Injection exchanges the narration block of a document, and leaves what is narrated as it is.

* `Player.Narrates` : a document that has a narration block where injection puts it;
* `Player.Narrates.exists_split` : its blocks, above the narration block and below it;
* `Player.Passes.exchange_narration` : blocks without content stay when the narration block below them is exchanged;
* `Player.Split.exists_carries` : the text around the block carries any other block of its component.
-/

namespace Narration.Player
open Markup
open Markup.Block
open Tree (Framed frontNodes before lead)
open Text (firstLine EndsLine led)
open Spoken (flatten? passages joinBlocks flatteningBudget)

variable {d t a b f p : Text} {tree : Node} {n n' : Narrated} {ks : List Kind} {front : Option Text}
  {ns above below : List Node} {scope : Scope} {inner : Inner}

/-- The offset of a stamp, if there is one directly before the first content. -/
def stampStart? (nodes : List Node) : Option Nat :=
  (opening nodes).getLast?.bind fun k => if isStamp k then k.position.map (·.start) else none

/-- A document that has the narration block `n` between `a` and `b`, as injection writes it: its stamp stands directly
before the first content, the component is imported above it, and there are neither other stamps nor other uses of the
component. -/
structure Narrates (t : Text) (tree : Node) (n : Narrated) (a b : Text) : Prop where
  text : t = a ++ blockText n ++ b
  starts : a = [] ∨ a.getLast? = some '\n'
  ends : EndsLine b
  carriage : '\r' ∉ t
  read : Tree.read t = .ok tree
  stamp : stampStart? tree.children = some a.length
  clear : ∀ q ∈ opening tree.children, isClear t q
  imports : importsComponent (opening tree.children) n.name
  uses : (uses tree n.name).length = 1
  stamps : tree.walk.countP isStamp = 1
  labels : ∀ l ∈ Text.lines t, Reference.closesLabel l

/-! ## The block among the nodes -/

theorem isStamp_frontNodes {q : Node} (h : q ∈ frontNodes scope f front) : isStamp q = false := by
  obtain ⟨source, rfl⟩ := Tree.exists_of_mem_frontNodes h
  rfl

/-- A stamp directly before the first content is no front matter. -/
theorem exists_stamp {start : Nat} (h : stampStart? (frontNodes scope f front ++ ns) = some start) : ∃ qs k position,
    opening ns = qs ++ [k] ∧ k.position = some position ∧ position.start = start := by
  obtain ⟨k, hk, h⟩ := Option.bind_eq_some_iff.1 h
  rw [opening_append] at hk
  split at h
  · next hstamp =>
    obtain ⟨position, hposition, rfl⟩ := Option.map_eq_some_iff.1 h
    rcases List.eq_nil_or_concat (opening ns) with hnil | ⟨qs, k', hns⟩
    · rw [hnil, List.append_nil] at hk
      rw [isStamp_frontNodes (List.mem_of_getLast? hk)] at hstamp
      cases hstamp
    · rw [List.concat_eq_append] at hns
      rw [hns, ← List.append_assoc, List.getLast?_concat] at hk
      cases hk
      exact ⟨qs, k, position, hns, hposition, rfl⟩
  · cases h

/-- The text from the start of a node on, when a line begins there. -/
theorem exists_reads_at {w y : Text} {k : Node} {position : Position} (h : Reads scope inner true ⟨w.length, y⟩ (k :: ns))
    (hposition : k.position = some position) (hstart : position.start = a.length) (htext : w ++ y = a ++ t)
    (ha : a = [] ∨ a.getLast? = some '\n') :
    ∃ u, y = u ++ t ∧ w ++ u = a ∧ Passes t u [] ∧ Reads scope inner true ⟨a.length, t⟩ (k :: ns) := by
  obtain ⟨u, c, stop, rfl, hu, -, hc, hfilled, hnext, -, hrest⟩ := h.head
  obtain ⟨kind, o, stop', children, rfl, hfront, -⟩ := next_made hnext
  cases hposition
  obtain ⟨v, x, rfl, hv, ho⟩ := exists_atFront hfilled hfront
  have hlength : (w ++ u ++ v).length = a.length := by
    rw [← hstart]
    change _ = o
    simp only [List.length_append]
    omega
  obtain ⟨rfl, rfl⟩ := List.append_inj (by rw [← htext]; simp only [List.append_assoc] : w ++ u ++ v ++ x = a ++ t) hlength
  obtain rfl : v = [] := by
    by_contra hne
    rcases ha with hnil | hlast
    · exact hne (List.append_eq_nil_iff.1 hnil).2
    · rw [List.getLast?_append_of_ne_nil _ hne] at hlast
      exact hv (List.mem_of_getLast? hlast)
  refine ⟨u, rfl, (List.append_nil _).symm, hu, ?_⟩
  rw [List.append_nil, List.length_append]
  rw [List.nil_append] at hc hfilled hnext hrest
  exact (reads_block hc (by rw [lineBlank_mk, hfilled])).2 ⟨_, _, _, hnext, hrest, rfl⟩

/-- The blocks of a document with a narration block: those above it have no content, and those below it are read from its
end on. -/
structure Split (t : Text) (tree : Node) (n : Narrated) (a b f p : Text) (front : Option Text) (scope : Scope)
    (qs ms : List Node) : Prop where
  framed : Framed t f front (Reference.collect t)
  last : f ≠ [] → ∃ c, f.getLast? = some c ∧ c ≠ '\n'
  start : '\n' :: a = before f ++ (lead f ++ p)
  passes : Passes (blockText n ++ b) p (qs.map Node.kind)
  reads : Reads scope (innerOf 957 scope) true ⟨(a ++ blockText n).length, b⟩ ms
  scope_eq : scope = Scope.ofText t (Reference.collect t)
  tree_eq : tree = scope.node .root 0 t.length (withBlock scope a.length n (frontNodes scope f front ++ qs) ms)
  silent : ∀ q ∈ frontNodes scope f front ++ qs, isContent q.kind = false
  imports : importsComponent qs n.name

theorem Narrates.exists_split (h : Narrates t tree n a b) (hn : Writable n) :
    ∃ f p front scope qs ms, Split t tree n a b f p front scope qs ms := by
  obtain ⟨f, r, front, ht, hf, hend⟩ := Tree.exists_front h.carriage
  obtain ⟨ns, hns, htree⟩ := (Tree.read_eq_ok ht hf).1 h.read
  generalize hscope : Scope.ofText t (Reference.collect t) = scope at hns htree
  have hchildren : tree.children = frontNodes scope f front ++ ns := by
    rw [htree]
    rfl
  have hstampStart := h.stamp
  rw [hchildren] at hstampStart
  obtain ⟨qs, k, position, hopening, hposition, hstart⟩ := exists_stamp hstampStart
  have hall : opening tree.children = frontNodes scope f front ++ (qs ++ [k]) := by
    rw [hchildren, opening_append, hopening]
  have hquiet (q : Node) (hq : q ∈ qs) : isContent q.kind = false :=
    isContent_of_mem_opening (hopening ▸ List.mem_append_left _ hq)
  have hclear (q : Node) (hq : q ∈ qs) : isClear t q :=
    h.clear q (hall ▸ List.mem_append_right _ (List.mem_append_left _ hq))
  rw [← append_body ns, hopening, List.append_assoc, List.singleton_append] at hns
  have hdrop : t.drop f.length = r := by rw [ht, List.drop_left]
  obtain ⟨p, c, rfl, hp, hreads, -⟩ := exists_passes hns hdrop hquiet hclear
  rw [← List.length_append] at hreads
  have htext : f ++ p ++ c = a ++ (blockText n ++ b) := by rw [List.append_assoc, ← ht, h.text, List.append_assoc]
  obtain ⟨u, rfl, ha, hu, hreads⟩ := exists_reads_at hreads hposition hstart htext h.starts
  obtain ⟨ms, hms, heq⟩ := (reads_narration hn.digest hn.name h.ends).1 hreads
  obtain ⟨rfl, hbody⟩ := List.cons.inj heq
  refine ⟨f, p ++ u, front, scope, qs, ms, ⟨hf, h.carriage, h.labels, rfl⟩, fun hne => (hend hne).2, ?_, ?_, ?_, hscope.symm,
    ?_, fun q hq => (List.mem_append.1 hq).elim isContent_frontNodes (hquiet q), ?_⟩
  · rw [Tree.before_append, ← List.append_assoc, ha]
  · have happend := hp.append hu
    rwa [List.append_nil] at happend
  · rw [List.length_append]
    exact hms
  · rw [htree, ← append_body ns, hopening, hbody]
    simp only [withBlock, blockNodes, List.append_assoc, List.cons_append, List.nil_append, List.append_eq]
  · have himports := h.imports
    have hnone : importsComponent (frontNodes scope f front) n.name = false := by
      cases front <;> rfl
    rw [hall, importsComponent_append, importsComponent_append, hnone, Bool.false_or] at himports
    simpa [importsComponent, stampNode, Scope.node, Node.kind] using himports

/-! ## Another block in its place -/

/-- Blocks without content are the same when one narration block takes the place of another below them. -/
theorem Passes.exchange_narration (h : Passes (blockText n ++ b) p ks) (hp : p = [] ∨ p.getLast? = some '\n')
    (hn : Writable n) (hn' : Writable n') : Passes (blockText n' ++ b) p ks := by
  refine h.exchange_line ?_ hp ?_ ?_ ?_ fun hback => ?_
  · rw [firstLine_blockText hn, stamp_eq]
    rfl
  · exact List.mem_append_left _ (by simp [blockText])
  · rw [firstLine_blockText hn']
    exact isTableRule_stamp n'.digest
  · rw [firstLine_blockText hn']
    exact fun d hd => isQuote_of_mem_stamp hn'.digest hd
  · have hlast (n : Narrated) : (blockText n).getLast? ≠ some '\\' := by
      rw [getLast?_blockText]
      decide
    rw [Braces.stringTail?_backtick (backtick_notMem_blockText hn') (hlast n')]
    rwa [Braces.stringTail?_backtick (backtick_notMem_blockText hn) (hlast n)] at hback

/-- The text before a narration block ends with a line feed, which stands below the front matter. -/
theorem Split.exists_before {qs ms : List Node} (h : Split t tree n a b f p front scope qs ms)
    (ha : a = [] ∨ a.getLast? = some '\n') : ∃ x, '\n' :: a = x ++ ['\n'] ∧ Tree.before f <+: x ∧
      (p = [] ∨ p.getLast? = some '\n') := by
  have hlast : ('\n' :: a).getLast? = some '\n' := by
    rcases ha with rfl | ha
    · rfl
    · rw [List.getLast?_cons, ha]
      rfl
  have hne : lead f ++ p ≠ [] := by
    intro hnil
    obtain ⟨hlead, rfl⟩ := List.append_eq_nil_iff.1 hnil
    have hf : f ≠ [] := by
      rintro rfl
      cases hlead
    obtain ⟨c, hc, hnot⟩ := h.last hf
    have hbefore : before f = '\n' :: f := if_neg (by simpa using hf)
    rw [h.start, hnil, List.append_nil, hbefore, List.getLast?_cons, hc] at hlast
    exact hnot (Option.some.inj hlast)
  have hend := hlast
  rw [h.start, List.getLast?_append_of_ne_nil _ hne] at hend
  obtain ⟨y, hy⟩ := List.getLast?_eq_some_iff.1 hend
  refine ⟨before f ++ y, by rw [h.start, hy, List.append_assoc], List.prefix_append _ _, ?_⟩
  by_cases hp : p = []
  · exact .inl hp
  · rw [List.getLast?_append_of_ne_nil _ hp] at hend
    exact .inr hend

/-- The text around a narration block carries any other block of its component. -/
theorem Split.exists_carries {qs ms : List Node} (h : Split t tree n a b f p front scope qs ms) (ht : t = a ++ blockText n ++ b)
    (ha : a = [] ∨ a.getLast? = some '\n') (hb : EndsLine b) (hn : Writable n) (hn' : Writable n') (hname : n'.name = n.name) :
    ∃ scope' above below, Carries (frontNodes scope f front ++ qs ++ ms) n' a b scope' above below := by
  obtain ⟨x, hx, hbefore, hp⟩ := h.exists_before ha
  have htext (n : Narrated) : '\n' :: (a ++ blockText n ++ b) = x ++ led (blockLines n) ++ b := by
    rw [led_blockLines, ← List.cons_append, ← List.cons_append, hx]
    simp only [List.append_assoc, List.cons_append, List.nil_append]
  have hframed := h.framed.exchange (by rw [ht, htext]) (htext n') hb (inert_blockLines hn) (inert_blockLines hn')
    (by simp [blockLines]) hbefore
  have hpasses : Passes (blockText n' ++ b) (lead f ++ p) ([] ++ qs.map Node.kind) :=
    (Tree.passes_lead f _).append (Passes.exchange_narration h.passes hp hn hn')
  have hopening : opening (frontNodes scope f front ++ qs ++ ms) = frontNodes scope f front ++ qs ++ opening ms :=
    List.takeWhile_append_of_pos fun q hq => by rw [h.silent q hq]; rfl
  have hbody : body (frontNodes scope f front ++ qs ++ ms) = body ms :=
    List.dropWhile_append_of_pos fun q hq => by rw [h.silent q hq]; rfl
  have hreads := h.reads
  rw [← append_body ms, ← hbody] at hreads
  refine carries_of_passes (u := a ++ blockText n) hframed h.start hpasses ?_ ?_ hb (List.nil_append b).symm .nil
    (by rw [← ht, ← h.scope_eq]; exact hreads) ?_ hn'
  · intro k hk
    obtain ⟨q, hq, rfl⟩ := List.mem_map.1 hk
    rw [hopening]
    exact .inr ⟨q, List.mem_append_left _ (List.mem_append_right _ hq), rfl⟩
  · have himports := h.imports
    rw [importsComponent_eq, List.any_eq_true] at himports
    obtain ⟨q, hq, himports⟩ := himports
    rw [hname]
    exact ⟨q.kind, List.mem_map_of_mem hq, himports⟩
  · intro q hq
    rw [hopening]
    exact List.mem_append_right _ hq

/-- The other nodes of a document with one narration block have no marks. -/
theorem Narrates.unmarked (h : Narrates t tree n a b) (hd : isDigest n.digest) {place stop : Nat}
    (htree : tree = scope.node .root 0 stop (withBlock scope place n above below)) : Unmarked n.name (above ++ below) := by
  have huses := h.uses
  have hstamps := h.stamps
  have hroot : tree.walk = tree :: Node.walkAll (withBlock scope place n above below) := by rw [htree]; rfl
  have huse : Player.uses tree n.name = usesInAll n.name [tree] (withBlock scope place n above below) := by rw [htree]; rfl
  have hblock : Node.walkAll (blockNodes scope place n) = [stampNode scope place n, tagNode scope place n] := rfl
  have hnone : isStamp tree = false := by rw [htree]; rfl
  have htag : isStamp (tagNode scope place n) = false := rfl
  simp only [huse, withBlock, usesInAll_append, usesInAll_blockNodes, List.length_append, List.length_singleton] at huses
  simp only [hroot, withBlock, Node.walkAll_append, hblock, List.countP_append, List.countP_cons, List.countP_nil, hnone,
    htag, isStamp_stampNode hd scope place, if_true, Bool.false_eq_true, if_false] at hstamps
  have huses' : usesInAll n.name [tree] (above ++ below) = [] := by
    rw [usesInAll_append, List.append_eq_nil_iff, ← List.length_eq_zero_iff, ← List.length_eq_zero_iff]
    omega
  have hstamps' : (Node.walkAll (above ++ below)).countP isStamp = 0 := by
    rw [Node.walkAll_append, List.countP_append]
    omega
  exact fun m hm => isMark_eq_false ((usesInAll_eq_nil_iff n.name [tree] _).1 huses' m hm)
    (by simpa using List.countP_eq_zero.1 hstamps' m hm)

/-- Whether a document with some tree has a narration block after `a` characters. -/
def narrates (t : Text) (n : Narrated) (a : Nat) (tree : Node) : Bool :=
  !t.contains '\r' && stampStart? tree.children = some a && (opening tree.children).all (isClear t) &&
    importsComponent (opening tree.children) n.name && (uses tree n.name).length = 1 && tree.walk.countP isStamp = 1 &&
    (Text.lines t).all Reference.closesLabel

theorem narrates_of (hread : Tree.read t = .ok tree) (ht : t = a ++ blockText n ++ b) (ha : a = [] ∨ a.getLast? = some '\n')
    (hb : EndsLine b) (h : narrates t n a.length tree) : Narrates t tree n a b := by
  simp only [narrates, Bool.and_eq_true, Bool.not_eq_true', List.contains_eq_mem, decide_eq_false_iff_not,
    decide_eq_true_eq, List.all_eq_true] at h
  obtain ⟨⟨⟨⟨⟨⟨hcarriage, hstamp⟩, hclear⟩, himports⟩, huses⟩, hstamps⟩, hlabels⟩ := h
  exact ⟨ht, ha, hb, hcarriage, hread, hstamp, hclear, himports, huses, hstamps, hlabels⟩

/-- The text of a page before its narration block, and after it. -/
def guideAbove : Text := (importStatement defaultName defaultPath) ++ "\n\n<!-- draft -->\n".toList
def guideBelow : Text := "\n\n# Guide\n\nRead *this* again.\n".toList

end Narration.Player
