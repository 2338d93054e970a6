import Narration.Proofs.Markup.Revalued
import Narration.Proofs.Player.Repeated
import Narration.Proofs.Spoken.Retold

/-!
# Narration exchanged in place

A document that records narration has it in two places: the stamp, and the value of the voices.

* `Markup.Block.Reads.exists_expression` : an expression among the blocks of a text;
* `Player.exists_restamped` : a stamp takes the place of such an expression;
* `Player.Record`, `Player.Records` : where a document records narration;
* `Player.Record.updated` : the document with other narration in both places, and all else as it is;
* `Player.Record.Blind` : the document does not look into its narration for something else;
* `Player.Records.exists_read` : the blocks above and below stay when other narration is recorded;
* `Player.Records.updates_eq` : the edits are those in the two places;
* `Player.inject_records` : injection into such a document.
-/

namespace Narration
open Markup Markup.Block
open Text (firstLine)

/-! ## An expression among blocks -/

/-- Reading comes to an expression behind the blanks at the front of its line, and goes on behind it. -/
theorem Markup.Block.Reads.exists_expression {scope : Scope} {inner : Inner} {o : Nat} {r source : Text} {as ms : List Node} {k : Node}
    (h : Reads scope inner true ⟨o, r⟩ (as ++ k :: ms)) (hkind : k.kind = .expression source) :
    ∃ u q s t, r = u ++ (q ++ (s ++ t)) ∧ Leads scope inner ⟨o, u ++ (q ++ (s ++ t))⟩ as ⟨o + u.length, q ++ (s ++ t)⟩ ∧
      Text.allBlank q ∧ '\n' ∉ q ∧ s.head? = some '\x7b' ∧ Tag.braced? (s ++ t) = some (source, s.length) ∧
      Text.allBlank (firstLine t) ∧ k.position = some (scope.position (o + (u ++ q).length) (o + (u ++ q ++ s).length)) ∧
      Reads scope inner true ⟨o + (u ++ q ++ s).length, t⟩ ms := by
  obtain ⟨⟨b, c⟩, stop, hleads, hblank, hnext, hrest⟩ := h.leads
  obtain ⟨u, hu, hb⟩ := hleads.exists_append
  dsimp only at hu hb
  subst hu hb
  obtain ⟨q, c, rfl, hq, hline, hexpression⟩ := exists_embedded hblank hnext (by rw [hkind]; rfl)
  obtain ⟨hbrace, hexpression⟩ := hexpression.resolve_right fun hr => by
    obtain ⟨tag, -, hr⟩ := component?_eq_some.1 hr
    cases hr with
    | stray | single | pair => cases hkind
  obtain ⟨source', s, t, rfl, hbraced, hends, rfl, rfl⟩ := exists_of_expression? hexpression
  cases hkind
  have hhead : s.head? = some '\x7b' := by
    cases s with
    | nil => exact absurd (Tag.braced?_pos hbraced) (Nat.lt_irrefl 0)
    | cons c s => exact hbrace
  have hstart : o + u.length + q.length = o + (u ++ q).length := by rw [List.length_append, Nat.add_assoc]
  have hstop : o + u.length + q.length + s.length = o + u.length + (q ++ s).length ∧
      o + u.length + q.length + s.length = o + (u ++ q ++ s).length := by
    simp only [List.length_append]
    omega
  refine ⟨u, q, s, t, rfl, hleads, hq, hline, hhead, hbraced, hends, ?_, ?_⟩
  · rw [← hstart, ← hstop.2]
    rfl
  · rw [hstop.1, ← List.append_assoc, since_append, ← hstop.1, hstop.2] at hrest
    exact hrest

namespace Player

variable {digest : Text} {references : List Reference} {k : Node} {as ns : List Node}

/-- A stamp takes the place of an expression among the blocks of a text, when that closes nothing of what is open above it. -/
theorem exists_restamped {f u q s t t' : Text} (hleads : Leads (Scope.ofText (f ++ (u ++ (q ++ (s ++ t)))) references)
      (innerOf 957 (Scope.ofText (f ++ (u ++ (q ++ (s ++ t)))) references)) ⟨f.length, u ++ (q ++ (s ++ t))⟩ as
      ⟨f.length + u.length, q ++ (s ++ t)⟩)
    (hq : Text.allBlank q) (hline : '\n' ∉ q) (hbrace : s.head? = some '\x7b') (hd : isDigest digest)
    (hends : Text.allBlank (firstLine t'))
    (hsteady : Steady ⟨f ++ (u ++ q), (f ++ (u ++ q)).length, s ++ t, stamp digest ++ t'⟩
      (Scope.ofText (f ++ (u ++ (q ++ (s ++ t)))) references) (innerOf 957 (Scope.ofText (f ++ (u ++ (q ++ (s ++ t)))) references)))
    (hns : Reads (Scope.ofText (f ++ (u ++ q) ++ (stamp digest ++ t')) references)
      (innerOf 957 (Scope.ofText (f ++ (u ++ q) ++ (stamp digest ++ t')) references)) true
      ⟨(f ++ (u ++ q) ++ stamp digest).length, t'⟩ ns) :
    ∃ as' k', Reads (Scope.ofText (f ++ (u ++ q) ++ (stamp digest ++ t')) references)
        (innerOf 957 (Scope.ofText (f ++ (u ++ q) ++ (stamp digest ++ t')) references)) true
        ⟨f.length, u ++ q ++ (stamp digest ++ t')⟩ (as' ++ k' :: ns) ∧
      Same (.within (f ++ (u ++ q)).length) as as' ∧ k'.kind = .expression (stampSource digest) ∧ k'.children = [] := by
  obtain ⟨w, rfl⟩ := List.head?_eq_some_iff.1 hbrace
  have hwhole (y : Text) : f ++ (u ++ (q ++ y)) = f ++ (u ++ q) ++ y := by simp only [List.append_assoc]
  rw [hwhole] at hleads hsteady
  rw [← List.append_assoc u] at hleads
  have hX : (⟨f ++ (u ++ q), (f ++ (u ++ q)).length, '\x7b' :: w ++ t, stamp digest ++ t'⟩ : Exchange).Begins := by
    refine Exchange.begins_of_brace (List.cons_append ..) (v := stampSource digest ++ ['\x7d'] ++ t') ?_ fun hmem => ?_
    · rw [stamp_eq]
      rfl
    · have hbar : '|' ∉ firstLine (stamp digest ++ t') := by
        rw [Text.firstLine_append_of_notMem (notMem_stamp hd (by decide) (by decide) (by decide)), List.mem_append, not_or]
        exact ⟨notMem_stamp hd (by decide) (by decide) (by decide), fun hmem => absurd (List.all_eq_true.1 hends _ hmem) (by decide)⟩
      refine hbar ?_
      rw [stamp_eq, List.cons_append, firstLine, List.takeWhile_cons_of_pos (by decide)]
      exact List.mem_cons_of_mem _ hmem
  -- reading comes to the place of the expression, past the same blocks
  have hfork : (⟨f ++ (u ++ q), (f ++ (u ++ q)).length, '\x7b' :: w ++ t, stamp digest ++ t'⟩ : Exchange).Fork
      ⟨f.length, u ++ q ++ ('\x7b' :: w ++ t)⟩ ⟨f.length, u ++ q ++ (stamp digest ++ t')⟩ :=
    .mk (List.suffix_append _ _) List.length_append.symm
  have hplace : f.length + u.length ≤ (f ++ (u ++ q)).length := by
    simp only [List.length_append]
    omega
  obtain ⟨as', s₁', hleads', hfork', hsame⟩ := hleads.exists_same hX hsteady
    (Scope.seen_append (f ++ (u ++ q)) ('\x7b' :: w ++ t) (stamp digest ++ t') references) hfork (by simp) hplace
  obtain rfl : s₁' = ⟨f.length + u.length, q ++ (stamp digest ++ t')⟩ := by
    generalize hs₁ : (⟨f.length + u.length, q ++ ('\x7b' :: w ++ t)⟩ : Stretch) = s₁ at hfork'
    cases hfork' with
    | @mk a q' _ _ =>
      obtain ⟨rfl, hq'⟩ := Stretch.mk.inj hs₁
      rw [List.append_cancel_right hq']
  -- there stands the stamp
  have hblank : (⟨f.length + u.length, q ++ (stamp digest ++ t')⟩ : Stretch).lineBlank = false :=
    not_blank_indented hline (by rw [stamp_eq]; rfl) rfl _
  have hnext := next_indented_stamp hd hq hline hends (Scope.ofText (f ++ (u ++ q) ++ (stamp digest ++ t')) references)
    (innerOf 957 (Scope.ofText (f ++ (u ++ q) ++ (stamp digest ++ t')) references)) (f.length + u.length)
  have hsince : (⟨f.length + u.length, q ++ (stamp digest ++ t')⟩ : Stretch).since (f.length + u.length + q.length + (stamp digest).length) =
      ⟨(f ++ (u ++ q) ++ stamp digest).length, t'⟩ := by
    have hstop : f.length + u.length + q.length + (stamp digest).length = f.length + u.length + (q ++ stamp digest).length := by
      rw [List.length_append, ← Nat.add_assoc]
    have hend : (f ++ (u ++ q) ++ stamp digest).length = f.length + u.length + (q ++ stamp digest).length := by
      simp only [List.length_append]
      omega
    rw [hstop, hend, ← List.append_assoc, since_append]
  rw [← hsince] at hns
  exact ⟨as', _, hleads'.reads ((reads_block (Stretch.ne_nil_of_not_blank hblank) hblank).2 ⟨_, _, ns, hnext, hns, rfl⟩), hsame, rfl, rfl⟩

/-! ## Voices in a tag -/

/-- The voices as a tag holds them. -/
def braced (voices : List Voice) : Text := '\x7b' :: (Voice.payload voices ++ ['\x7d'])

theorem value?_braced (voices : List Voice) (t : Text) :
    Tag.value? (braced voices ++ t) = some (.expression (Voice.payload voices), (braced voices).length) := by
  have hlength : (braced voices).length = (Voice.payload voices).length + 2 := by simp [braced]
  have htext : braced voices ++ t = '\x7b' :: (Voice.payload voices ++ '\x7d' :: t) := by simp [braced]
  rw [htext, hlength]
  exact value?_passive (Voice.passive_payload voices) t

theorem carriage_notMem_braced (voices : List Voice) : '\r' ∉ braced voices := by
  have hnot : '\r' ∉ Voice.payload voices :=
    Voice.notMem_payload (by decide) (by decide) fun _ _ _ _ => .inr (by decide)
  simp [braced, hnot]

/-- The lines of voices are no hyphens, whatever else stands on the first and the last one. -/
theorem isHyphens_braced {voices : List Voice} {p q l : Text} (hp : '\n' ∉ p) (hq : '\n' ∉ q)
    (hl : l ∈ Text.lines (p ++ (braced voices ++ q))) : Block.isHyphens l = false := by
  obtain ⟨first, rest, hlines, -, hrest⟩ :=
    exists_payload voices (show '\n' ∉ p ++ ['\x7b'] by simp [hp]) (show '\n' ∉ '\x7d' :: q by simp [hq])
  have htext : p ++ (braced voices ++ q) = p ++ ['\x7b'] ++ (Voice.payload voices ++ '\x7d' :: q) := by simp [braced]
  rw [htext, hlines, List.mem_cons] at hl
  rcases hl with rfl | hl
  · exact isHyphens_eq_false (c := '\x7b') (by simp) (by decide) rfl
  · rcases hrest l hl with rfl | ⟨u, rfl, -⟩
    · exact isHyphens_of_space rfl
    · exact isHyphens_of_space rfl

/-! ## Stamps -/

/-- A stamp is no hyphens, whatever else stands on its line. -/
theorem isHyphens_stamp (hd : isDigest digest) {p q l : Text} (hp : '\n' ∉ p) (hq : '\n' ∉ q)
    (hl : l ∈ Text.lines (p ++ (stamp digest ++ q))) : Block.isHyphens l = false := by
  have hnot : '\n' ∉ stamp digest := notMem_stamp hd (by decide) (by decide) (by decide)
  rw [Text.lines_of_notMem (by simp [hp, hq, hnot]), List.mem_singleton] at hl
  exact isHyphens_eq_false (c := '\x7b') (by simp [hl, stamp_eq]) (by decide) rfl

theorem braced?_stamp (hd : isDigest digest) (t : Text) :
    Tag.braced? (stamp digest ++ t) = some (stampSource digest, (stamp digest).length) := by
  have htext : stamp digest ++ t = '\x7b' :: (stampSource digest ++ '\x7d' :: t) := by simp [stamp_eq]
  rw [htext, braced?_passive (passive_stampSource hd), stamp_eq]
  simp

theorem exists_expression_of_isStamp (h : isStamp k) : ∃ source, k.kind = .expression source := by
  unfold isStamp Node.expression? at h
  split at h
  · next heq => exact ⟨_, heq⟩
  · cases h

theorem kind_of_component? {name : Text} {attributes : List Attribute} (h : k.component? name = some attributes) :
    k.kind = .component name attributes := by
  unfold Node.component? at h
  split at h
  · next heq =>
    split at h
    · next hname =>
      cases h
      rw [heq, hname]
    · cases h
  · cases h

/-! ## Where a document records narration -/

/-- Where a document records its narration: the stamp from `start` up to `stop`, and the value of the voices from `first` up to
`last`. -/
structure Record where
  start : Nat
  stop : Nat
  first : Nat
  last : Nat

namespace Record

/-- What follows the start of the stamp when other narration is recorded. -/
def entry (x : Record) (d : Text) (n : Narrated) : Text :=
  stamp n.digest ++ (d.slice x.stop x.first ++ (braced n.voices ++ d.drop x.last))

/-- A document with other narration in both places, and all else as it is. -/
def updated (x : Record) (d : Text) (n : Narrated) : Text := d.take x.start ++ x.entry d n

/-- Other narration in place of that of a document. -/
def exchange (x : Record) (d : Text) (n : Narrated) : Exchange := ⟨d.take x.start, x.start, d.drop x.start, x.entry d n⟩

/-- Whether a document records some narration already. -/
def Holds (x : Record) (d : Text) (n : Narrated) : Prop :=
  d.slice x.start x.stop = stamp n.digest ∧ d.slice x.first x.last = braced n.voices

instance (x : Record) (d : Text) (n : Narrated) : Decidable (x.Holds d n) :=
  inferInstanceAs (Decidable (d.slice x.start x.stop = stamp n.digest ∧ d.slice x.first x.last = braced n.voices))

/-- The document looks into its narration neither for link definitions nor for the end of what is open above. -/
structure Blind (x : Record) (d : Text) (n : Narrated) : Prop where
  references : Reference.collect (x.updated d n) = Reference.collect d
  steady : Block.Steady (x.exchange d n) (Scope.ofText d (Reference.collect d))
    (Block.innerOf 957 (Scope.ofText d (Reference.collect d)))

end Record

variable {d name : Text} {tree m : Node} {x : Record} {above below nodes : List Node} {n : Narrated}

/-- Whether a node is the stamp of a record. -/
def Record.isStampedBy (x : Record) (k : Node) : Bool := isStamp k && k.position.any fun p => p.start = x.start && p.stop = x.stop

/-- Whether a node is the component of a record, with a value for the voices. -/
def Record.isVoicedBy (x : Record) (name : Text) (m : Node) : Bool :=
  (m.component? name).any fun attributes => (attributes.find? (·.name = voicesAttribute)).any fun a =>
    a.value.isSome && a.span = some (x.first, x.last)

theorem Record.exists_of_isStampedBy (h : x.isStampedBy k) :
    isStamp k ∧ ∃ p, k.position = some p ∧ p.start = x.start ∧ p.stop = x.stop := by
  rw [isStampedBy, Bool.and_eq_true, Option.any_eq_true] at h
  obtain ⟨hk, p, hp, hplace⟩ := h
  rw [Bool.and_eq_true, decide_eq_true_eq, decide_eq_true_eq] at hplace
  exact ⟨hk, p, hp, hplace⟩

theorem Record.exists_of_isVoicedBy (h : x.isVoicedBy name m) : ∃ attributes a old, m.component? name = some attributes ∧
    attributes.find? (·.name = voicesAttribute) = some a ∧ a.value = some old ∧ a.span = some (x.first, x.last) := by
  obtain ⟨attributes, hattributes, h⟩ := (Option.any_eq_true _ _).1 h
  obtain ⟨a, ha, h⟩ := (Option.any_eq_true _ _).1 h
  rw [Bool.and_eq_true, decide_eq_true_eq] at h
  obtain ⟨old, hold⟩ := Option.isSome_iff_exists.1 h.1
  exact ⟨attributes, a, old, hattributes, ha, hold, h.2⟩

/-- A document with narration: among its blocks is the only use of the component, with a value for the voices, a stamp is the
block before it, and the component is imported. -/
structure Records (d name : Text) (tree : Node) (x : Record) (above below : List Node) : Prop where
  carriage : '\r' ∉ d
  read : Tree.read d = .ok tree
  once : tree.walk.countP (fun m => (m.component? name).isSome) = 1
  imports : importsComponent tree.children name
  block : ∃ k m, tree.children = above ++ k :: m :: below ∧ x.isStampedBy k ∧ x.isVoicedBy name m

/-- The parts of a document with narration: the stamp `s` and the voices `v`, and what is around them. -/
structure Record.Parts (x : Record) (d a s g v e : Text) : Prop where
  text : d = a ++ (s ++ (g ++ (v ++ e)))
  start : x.start = a.length
  stop : x.stop = (a ++ s).length
  first : x.first = (a ++ s ++ g).length
  last : x.last = (a ++ s ++ g ++ v).length
  apart : g ≠ []
  closed : ∃ source, Tag.braced? (s ++ (g ++ (v ++ e))) = some (source, s.length)

namespace Record.Parts
variable {a s g v e : Text}

theorem slices (h : x.Parts d a s g v e) : d.slice x.start x.stop = s ∧ d.slice x.stop x.first = g ∧ d.slice x.first x.last = v ∧
    d.drop x.last = e := by
  have hslice (u v w : Text) : (u ++ (v ++ w)).slice u.length (u ++ v).length = v := by
    rw [Text.slice, ← List.append_assoc, List.take_left, List.drop_left]
  have hg : d = a ++ s ++ (g ++ (v ++ e)) := by rw [h.text, List.append_assoc a]
  have hv : d = a ++ s ++ g ++ (v ++ e) := by rw [hg, List.append_assoc (a ++ s)]
  have he : d = a ++ s ++ g ++ v ++ e := by rw [hv, List.append_assoc (a ++ s ++ g)]
  refine ⟨?_, ?_, ?_, ?_⟩
  · rw [h.start, h.stop, h.text, hslice]
  · rw [h.stop, h.first, hg, hslice]
  · rw [h.first, h.last, hv, hslice]
  · rw [h.last, he, List.drop_left]

theorem entry_eq (h : x.Parts d a s g v e) (n : Narrated) : x.entry d n = stamp n.digest ++ (g ++ (braced n.voices ++ e)) := by
  rw [Record.entry, h.slices.2.1, h.slices.2.2.2]

theorem updated_eq (h : x.Parts d a s g v e) (n : Narrated) :
    x.updated d n = a ++ (stamp n.digest ++ (g ++ (braced n.voices ++ e))) := by
  rw [Record.updated, h.entry_eq, h.text, h.start, List.take_left]

theorem exchange_eq (h : x.Parts d a s g v e) (n : Narrated) :
    x.exchange d n = ⟨a, a.length, s ++ (g ++ (v ++ e)), stamp n.digest ++ (g ++ (braced n.voices ++ e))⟩ := by
  rw [Record.exchange, h.entry_eq, h.text, h.start, List.take_left, List.drop_left]

theorem carriage_notMem (h : x.Parts d a s g v e) (hr : '\r' ∉ d) (hd : isDigest n.digest) : '\r' ∉ x.updated d n := by
  rw [h.text] at hr
  rw [h.updated_eq]
  simp only [List.mem_append, not_or] at hr ⊢
  exact ⟨hr.1, notMem_stamp hd (by decide) (by decide) (by decide), hr.2.2.1, carriage_notMem_braced n.voices, hr.2.2.2.2⟩

/-- Front matter stays when other narration is recorded below it. -/
theorem front (h : x.Parts d a s g v e) (hr : '\r' ∉ d) (hd : isDigest n.digest) {f : Text} {front : Option Text}
    (hfront : Tree.HasFront d f front) (hf : f = [] ∨ ∃ z, a = f ++ '\n' :: z) : Tree.HasFront (x.updated d n) f front := by
  have hupdated := h.carriage_notMem hr hd
  rw [h.text] at hfront hr
  rw [h.updated_eq] at hupdated ⊢
  have hstamped : '\r' ∉ a ++ (stamp n.digest ++ (g ++ (v ++ e))) := by
    simp only [List.mem_append, not_or] at hr hupdated ⊢
    exact ⟨hr.1, hupdated.2.1, hr.2.2⟩
  have hfirst := hfront.exchangePart hr hstamped hf fun p q hp hq l hl => isHyphens_stamp hd hp hq hl
  have hparts (v : Text) : a ++ (stamp n.digest ++ (g ++ (v ++ e))) = a ++ stamp n.digest ++ g ++ (v ++ e) := by
    simp only [List.append_assoc]
  rw [hparts] at hfirst hstamped hupdated ⊢
  refine hfirst.exchangePart hstamped hupdated (hf.imp_right ?_) fun p q hp hq l hl => isHyphens_braced hp hq hl
  rintro ⟨z, rfl⟩
  exact ⟨z ++ (stamp n.digest ++ g), by simp⟩

/-- A document changes unless it records the narration already. -/
theorem updated_eq_self_iff (h : x.Parts d a s g v e) (hd : isDigest n.digest) : x.updated d n = d ↔ x.Holds d n := by
  obtain ⟨source, hsource⟩ := h.closed
  rw [Record.Holds, h.slices.1, h.slices.2.2.1, h.updated_eq, h.text, List.append_cancel_left_eq]
  constructor
  · intro heq
    rw [← heq, braced?_stamp hd, Option.some.injEq, Prod.mk.injEq] at hsource
    obtain ⟨hs, hrest⟩ := List.append_inj heq hsource.2
    exact ⟨hs.symm, (List.append_inj_left' (List.append_cancel_left hrest) rfl).symm⟩
  · rintro ⟨rfl, rfl⟩
    rfl

end Record.Parts

/-! ## Reading -/

theorem exists_append_of_front {as ns bs : List Node} {f : Text} {front : Option Text} {scope : Scope} {k : Node} (hk : isStamp k)
    (h : as ++ k :: bs = Tree.frontNodes scope f front ++ ns) : ∃ cs, as = Tree.frontNodes scope f front ++ cs ∧ ns = cs ++ k :: bs := by
  rcases List.append_eq_append_iff.1 h with ⟨cs, hfront, hrest⟩ | ⟨cs, has, hns⟩
  · cases cs with
    | nil =>
      rw [List.append_nil] at hfront
      exact ⟨[], by rw [hfront, List.append_nil], hrest.symm⟩
    | cons c cs =>
      obtain ⟨rfl, -⟩ := List.cons.inj hrest
      obtain ⟨source, rfl⟩ := Tree.exists_of_mem_frontNodes (hfront ▸ List.mem_append_right as List.mem_cons_self)
      cases hk
  · exact ⟨cs, has, hns⟩

theorem same_frontNodes {f : Text} {scope scope' : Scope} {v : Position.Views} (h : Scope.Seen scope scope' 0 v) (front : Option Text) :
    Same v (Tree.frontNodes scope f front) (Tree.frontNodes scope' f front) := by
  cases front with
  | none => rfl
  | some source => exact .cons (h.outline_node rfl rfl 0 f.length) .nil

/-- The nodes of a document in which narration is recorded between others. -/
def Narrated.Stands (n : Narrated) (above below nodes : List Node) : Prop :=
  ∃ above' k m below' attributes, nodes = above' ++ k :: m :: below' ∧ SameKinds above above' ∧ SameKinds below below' ∧
    k.kind = .expression (stampSource n.digest) ∧ k.children = [] ∧ m.kind = .component n.name attributes ∧
    (attributes.map Attribute.bare).find? (·.name = voicesAttribute) =
      some ⟨voicesAttribute, some (.expression (Voice.payload n.voices)), none⟩

/-- What follows markup in angle brackets that a blank rest of a line sets off. -/
theorem blank_exchange {g t : Text} (hopen : '<' ∈ g) (h : Text.allBlank (firstLine (g ++ t))) (t' : Text) :
    Text.allBlank (firstLine (g ++ t')) := by
  have hmem : '\n' ∈ g := by
    by_contra hnot
    rw [Text.firstLine_append_of_notMem hnot, Text.allBlank, List.all_append, Bool.and_eq_true, List.all_eq_true] at h
    exact absurd (h.1 _ hopen) (by decide)
  rw [Text.firstLine_append_of_mem hmem] at h ⊢
  exact h

/-- A line feed stands between front matter and an expression below it. -/
theorem exists_feed {f w s t : Text} (hbrace : s.head? = some '\x7b') (h : f ≠ [] → Text.EndsLine (w ++ (s ++ t))) :
    f = [] ∨ ∃ z, f ++ w = f ++ '\n' :: z := by
  refine or_iff_not_imp_left.2 fun hne => ?_
  obtain ⟨u, rfl⟩ := List.head?_eq_some_iff.1 hbrace
  rcases h hne with hnil | ⟨z, hz⟩
  · simp at hnil
  · cases w with
    | nil => cases hz
    | cons c w =>
      rw [(List.cons.inj hz).1]
      exact ⟨w, rfl⟩

/-- The tree when other narration is recorded in a document: the blocks above and below stay. -/
theorem Records.exists_read (h : Records d n.name tree x above below) (hd : isDigest n.digest) (hblind : x.Blind d n) :
    ∃ a s g v e tree', x.Parts d a s g v e ∧ tree.kind = .root ∧ (∃ k m, tree.children = above ++ k :: m :: below ∧
        x.isStampedBy k ∧ x.isVoicedBy n.name m ∧ m.position.isSome) ∧
      Tree.read (x.updated d n) = .ok tree' ∧ tree'.kind = .root ∧ n.Stands above below tree'.children := by
  obtain ⟨k, m, hchildren, hstamped, hvoiced⟩ := h.block
  obtain ⟨hk, p, hp, hstart, hstop⟩ := Record.exists_of_isStampedBy hstamped
  obtain ⟨attributes, carrier, old, hattributes, hcarrier, hold, hspan⟩ := Record.exists_of_isVoicedBy hvoiced
  obtain ⟨source, hsource⟩ := exists_expression_of_isStamp hk
  obtain ⟨f, r, front, ht, hfront, hapart⟩ := Tree.exists_front h.carriage
  obtain ⟨hreferences, hsteady⟩ := hblind
  obtain ⟨ns, hns, htree⟩ := (Tree.read_eq_ok ht hfront).1 h.read
  have hroot : tree.kind = .root := by
    rw [htree]
    rfl
  have hall := hchildren.symm.trans (congrArg Node.children htree)
  generalize Reference.collect d = references at hns hall hsteady hreferences
  obtain ⟨as, rfl, rfl⟩ := exists_append_of_front hk hall
  -- the parts of the document, from its blocks
  rw [ht] at hns
  obtain ⟨u, q, s, t, rfl, hleads, hq, hline, hbrace, hbraced, hends, hposition, hrest⟩ := hns.exists_expression hsource
  have hscope : f ++ (u ++ (q ++ (s ++ t))) = f ++ (u ++ q) ++ s ++ t := by simp only [List.append_assoc]
  have hplace : f.length + (u ++ q).length = (f ++ (u ++ q)).length ∧
      f.length + (u ++ q ++ s).length = (f ++ (u ++ q) ++ s).length := by
    simp only [List.length_append, Nat.add_assoc, and_self]
  rw [hscope, hplace.2] at hrest
  rw [hplace.1, hplace.2] at hposition
  obtain ⟨g, v, e, rfl, hopen, hstands, hspan', hrevalued⟩ :=
    hrest.exists_revalued (kind_of_component? hattributes) hcarrier hold (by decide)
  obtain rfl := Option.some.inj (hp.symm.trans hposition)
  rw [hspan, Option.some.injEq, Prod.mk.injEq] at hspan'
  have hparts : x.Parts d (f ++ (u ++ q)) s g v e := ⟨by rw [ht]; simp only [List.append_assoc], hstart.symm, hstop.symm, hspan'.1,
    hspan'.2, List.ne_nil_of_mem hopen, source, hbraced⟩
  -- the blocks below, with other voices, and those above, with another stamp
  obtain ⟨m', below', attributes', hreads, hm', hvalue', hbelow⟩ := hrevalued (braced n.voices) _ (value?_braced n.voices e)
    (f ++ (u ++ q) ++ stamp n.digest)
  have hupdated := hparts.updated_eq n
  rw [hparts.exchange_eq, ht] at hsteady
  rw [List.append_assoc (f ++ (u ++ q)), ← hupdated] at hreads
  obtain ⟨as', k', hall', hsame, hk', hleaf⟩ :=
    exists_restamped hleads hq hline hbrace hd (blank_exchange hopen hends _) hsteady (hupdated ▸ hreads)
  rw [← hupdated, ← hreferences] at hall'
  have hfront' := hparts.front (n := n) h.carriage hd hfront (exists_feed hbrace fun hne => by
    have hends := (hapart hne).1
    rwa [← List.append_assoc] at hends)
  have hread := (Tree.read_eq_ok (hupdated.trans (List.append_assoc f _ _)) hfront').2 ⟨_, hall', rfl⟩
  have hviews := Scope.seen_append (f ++ (u ++ q)) (s ++ (g ++ (v ++ e))) (stamp n.digest ++ (g ++ (braced n.voices ++ e))) references
  rw [← hparts.text, ← hupdated, ← hreferences] at hviews
  refine ⟨f ++ (u ++ q), s, g, v, e, _, hparts, hroot, ⟨k, m, hchildren, hstamped, hvoiced, hstands⟩, hread, rfl, _, k', m', below',
    attributes', (List.append_assoc _ _ _).symm, ?_, hbelow.kinds, hk', hleaf, hm', hvalue'⟩
  rw [← hreferences]
  exact ((same_frontNodes hviews front).append hsame).kinds

/-! ## Injection -/

theorem importsComponent_iff_bare {ns : List Node} :
    importsComponent ns name = true ↔ ∃ source, .modules source ∈ ns.map (·.kind.bare) ∧ imports source name = true := by
  have hbare {k : Kind} {source : Text} : k.bare = .modules source ↔ k = .modules source := by cases k <;> simp [Kind.bare]
  simp only [importsComponent, List.any_eq_true, List.mem_map, hbare]
  constructor
  · rintro ⟨q, hq, himports⟩
    split at himports
    case h_1 source hsource => exact ⟨source, ⟨q, hq, hsource⟩, himports⟩
    case h_2 => contradiction
  · rintro ⟨source, ⟨q, hq, hsource⟩, himports⟩
    exact ⟨q, hq, by rw [hsource]; exact himports⟩

theorem importsComponent_of_kinds {ns ns' : List Node} (h : SameKinds ns ns') : importsComponent ns' name = importsComponent ns name := by
  rw [Bool.eq_iff_iff, importsComponent_iff_bare, importsComponent_iff_bare, h.1]

/-- Only modules import. -/
theorem importsComponent_around (hk : isStamp k) (hm : (m.component? name).isSome) :
    importsComponent (above ++ k :: m :: below) name = (importsComponent above name || importsComponent below name) := by
  obtain ⟨source, hsource⟩ := exists_expression_of_isStamp hk
  obtain ⟨attributes, hm⟩ := Option.isSome_iff_exists.1 hm
  rw [importsComponent_append]
  simp [importsComponent, hsource, kind_of_component? hm]

/-- The narration in place is the only use of the component, and the edits are those that exchange it. -/
theorem Records.updates_eq (h : Records d name tree x above below) (hroot : tree.kind = .root)
    (hchildren : tree.children = above ++ k :: m :: below) (hk : x.isStampedBy k) (hm : x.isVoicedBy name m)
    (hposition : m.position.isSome) : placementIn tree name = .wellPlaced ∧ (∀ q ∈ Node.walkAll above, q.component? name = none) ∧
      ∀ t, updates t n (uses tree name) = [⟨x.first, x.last, braced n.voices⟩, ⟨x.start, x.stop, stamp n.digest⟩] := by
  obtain ⟨hk, p, hp, hplace⟩ := Record.exists_of_isStampedBy hk
  obtain ⟨attributes, carrier, -, hattributes, hcarrier, -, hspan⟩ := Record.exists_of_isVoicedBy hm
  obtain ⟨q, hq⟩ := Option.isSome_iff_exists.1 hposition
  obtain ⟨source, hsource⟩ := exists_expression_of_isStamp hk
  have hnone : tree.component? name = none := by rw [Node.component?, hroot]
  obtain ⟨huses, habove, -⟩ := uses_of_once hnone hchildren hattributes h.once
  have hstamp : (Use.mk m attributes [tree]).stamp? = some k := by
    refine stamp?_eq hchildren hk fun q hq heq => ?_
    rw [kind_of_component? hattributes] at heq
    rcases List.mem_append.1 hq with hq | hq
    · have hnone := habove q ((Node.mem_walkAll above).2 ⟨q, hq, q.self_mem_walk⟩)
      rw [Node.component?, heq] at hnone
      simp at hnone
    · rw [List.mem_singleton.1 hq, hsource] at heq
      cases heq
  refine ⟨?_, habove, fun t => ?_⟩
  · rw [placementIn, huses]
    simp [Node.isComponent, hroot]
  · have hvoices : (Use.mk m attributes [tree]).voices?.bind (·.span) = some (x.first, x.last) := by
      rw [Use.voices?, hcarrier, Option.bind_some, hspan]
    have hdigest : (Use.mk m attributes [tree]).stamp?.bind Node.position = some p := by rw [hstamp, Option.bind_some, hp]
    rw [huses, updates, hq]
    simp only [voicesEdit, digestEdit, hvoices, hdigest, hplace]
    rfl

/-- Where other narration is recorded, the component is imported as before. -/
theorem Narrated.Stands.imports (h : n.Stands above below nodes) :
    importsComponent nodes name = (importsComponent above name || importsComponent below name) := by
  obtain ⟨above', k, m, below', attributes, rfl, habove, hbelow, hk, -, hm, -⟩ := h
  rw [← importsComponent_of_kinds habove, ← importsComponent_of_kinds hbelow, importsComponent_append]
  simp [importsComponent, hk, hm]

/-- Where other narration is recorded, with nothing of the kind above it, it is found. -/
theorem Narrated.Stands.locate?_eq {t : Text} (h : n.Stands above below tree.children) (hr : '\r' ∉ t) (hread : Tree.read t = .ok tree)
    (hroot : tree.kind = .root) (habove : Unmarked n.name above) (hd : isDigest n.digest) (hvoices : n.voices ≠ [])
    (hids : ∀ v ∈ n.voices, v.id ≠ []) : locate? t n.name = pure (some ⟨some n.digest, n.voices⟩) := by
  obtain ⟨above', k, m, below', attributes, hchildren, hkinds, -, hk, hleaf, hm, hvalue⟩ := h
  have habove' := unmarked_of_kinds hkinds habove
  have hparse : Tree.parse t = pure tree := Tree.parse_eq (by rw [Text.crlfToLf_of_notMem hr, hread])
  rw [List.find?_map] at hvalue
  obtain ⟨carrier, hcarrier, hbare⟩ := Option.map_eq_some_iff.1 hvalue
  have hpayload : Voice.ofPayload carrier.value = pure n.voices := by
    rw [show carrier.value = some (.expression (Voice.payload n.voices)) from congrArg Attribute.value hbare]
    exact Voice.ofPayload_payload hids
  have hfirst : (uses tree n.name).findSome? Use.voices? = some carrier := by
    have hnone : tree.component? n.name = none := by rw [Node.component?, hroot]
    have hsome : m.component? n.name = some attributes := by simp [Node.component?, hm]
    have hstamp : k.component? n.name = none := by rw [Node.component?, hk]
    rw [uses, usesIn_of_none hnone, hchildren, usesInAll_append, habove'.usesInAll, usesInAll, usesIn_of_none hstamp, hleaf,
      usesInAll, usesInAll, usesIn_of_component? hsome]
    simp only [List.nil_append, List.cons_append, List.findSome?_cons]
    rw [show Use.voices? ⟨m, attributes, [tree]⟩ = some carrier from hcarrier]
  have hfingerprint : fingerprint? tree = some n.digest := by
    have hroot : tree.expression?.bind digest? = none := by
      rw [Node.expression?, hroot]
      rfl
    rw [fingerprint?, Node.walk_eq, List.findSome?_cons, hroot, hchildren]
    exact findSome?_stamp habove' hk (digest?_stampSource hd)
  simp only [locate?, hparse, pure_bind, hfirst, hpayload, hfingerprint, List.isEmpty_eq_false_iff.2 hvoices]
  rfl

theorem written_self {t : Text} (hd : '\r' ∉ d) : written d t = t := by
  have hnewline : (Buffer.ofText d).newline = ['\n'] := by
    rw [Buffer.ofText, Text.not_has_crlf hd]
    rfl
  rw [written, hnewline]
  exact Text.unlines_lines t

/-- Injection into a document that records narration exchanges that in its two places and nothing else, and then it is found. -/
theorem inject_records (h : Records d n.name tree x above below) (hd : isDigest n.digest) (hvoices : n.voices ≠ [])
    (hids : ∀ v ∈ n.voices, v.id ≠ []) (hblind : x.Blind d n) :
    inject d n = pure (x.updated d n, if x.Holds d n then .unchanged else .replaced) ∧
      ((∀ q ∈ Node.walkAll above, isStamp q = false) →
        locate? (x.updated d n) n.name = pure (some ⟨some n.digest, n.voices⟩)) := by
  obtain ⟨a, s, g, v, e, tree', hparts, hroot, ⟨k, m, hchildren, hk, hm, hposition⟩, hread', hroot', hstands⟩ := h.exists_read hd hblind
  obtain ⟨hplaced, habove, hupdates⟩ := h.updates_eq (n := n) hroot hchildren hk hm hposition
  have hr' := hparts.carriage_notMem (n := n) h.carriage hd
  have himports : importsComponent tree'.children n.name := by
    rw [hstands.imports, ← importsComponent_around (Bool.and_eq_true_iff.1 hk).1 (Option.isSome_of_any hm), ← hchildren]
    exact h.imports
  have htext (newline t : Text) : (Buffer.mk newline (Text.lines t)).text = t := Text.unlines_lines t
  have hbuffer : Buffer.ofText d = ⟨(Buffer.ofText d).newline, Text.lines d⟩ := by
    rw [Buffer.ofText, Text.crlfToLf_of_notMem h.carriage]
  have hparse : Tree.parse (Buffer.ofText d).text = pure tree := by
    rw [hbuffer, htext]
    exact Tree.parse_eq (by rw [Text.crlfToLf_of_notMem h.carriage, h.read])
  have hparse' : Tree.parse (x.updated d n) = pure tree' := Tree.parse_eq (by rw [Text.crlfToLf_of_notMem hr', hread'])
  have hedited (t : Text) : applyEdits (Buffer.ofText d) (updates t n (uses tree n.name)) =
      ⟨(Buffer.ofText d).newline, Text.lines (x.updated d n)⟩ := by
    have hlines : Text.lines d = Text.lines (a ++ (s ++ (g ++ (v ++ e)))) := congrArg Text.lines hparts.text
    rw [hbuffer, hlines, hupdates, hparts.updated_eq, hparts.start, hparts.stop, hparts.first, hparts.last]
    exact applyEdits_pair hparts.apart
  have hrender : Buffer.render ⟨(Buffer.ofText d).newline, Text.lines (x.updated d n)⟩ = x.updated d n := written_self h.carriage
  refine ⟨?_, fun hstamps => hstands.locate?_eq hr' hread' hroot' (fun q hq => isMark_eq_false (habove q hq) (hstamps q hq)) hd
    hvoices hids⟩
  simp only [inject, hparse, pure_bind, hplaced, updateInPlace, hedited, htext, hparse', himports, if_true, hrender,
    hparts.updated_eq_self_iff hd]

/-! ## Some pages -/

/-- Whether nodes begin with the stamp and the component of a record. -/
def Record.isAt (x : Record) (name : Text) : List Node → Bool
  | k :: m :: _ => x.isStampedBy k && x.isVoicedBy name m
  | _ => false

theorem exists_records (i : Nat) (hr : '\r' ∉ d) (h : (Tree.read d).toOption.any fun tree =>
    tree.walk.countP (fun m => (m.component? name).isSome) = 1 && importsComponent tree.children name &&
      x.isAt name (tree.children.drop i) && (Node.walkAll (tree.children.take i)).all (!isStamp ·)) :
    ∃ tree above below, Records d name tree x above below ∧ ∀ q ∈ Node.walkAll above, isStamp q = false := by
  obtain ⟨tree, hread, h⟩ := Fallible.exists_of_any h
  rw [Bool.and_eq_true, Bool.and_eq_true, Bool.and_eq_true, decide_eq_true_eq] at h
  obtain ⟨⟨⟨honce, himports⟩, hblock⟩, hstamps⟩ := h
  match hdrop : tree.children.drop i with
  | [] | [_] =>
    rw [hdrop] at hblock
    cases hblock
  | k :: m :: below =>
    rw [hdrop, Record.isAt, Bool.and_eq_true] at hblock
    refine ⟨tree, tree.children.take i, below, ⟨hr, hread, honce, himports, k, m, ?_, hblock⟩, by simpa using hstamps⟩
    rw [← hdrop, List.take_append_drop]

/-- A page with the narration of some voice, and other attributes of the component. -/
def narratedPage : Text := ("import \x7b AudioTranscript \x7d from '/a.jsx';\n\n\x7b/* speak-mintlify-hash: 0f */\x7d\n" ++
  "<AudioTranscript id='x' voices=\x7b[]\x7d />\n\nHello.\n").toList

/-- Where the page records its narration. -/
def narratedPlace : Record := ⟨43, 74, 106, 110⟩

theorem inject_records_narratedPage : ∃ tree above below, Records narratedPage defaultName tree narratedPlace above below ∧
    narratedPlace.Blind narratedPage narratedByAda ∧
    inject narratedPage narratedByAda = pure (narratedPlace.updated narratedPage narratedByAda, .replaced) ∧
    locate? (narratedPlace.updated narratedPage narratedByAda) defaultName = pure (some ⟨some "ab".toList, narratedByAda.voices⟩) := by
  obtain ⟨tree, above, below, h, hstamps⟩ : ∃ tree above below, Records narratedPage defaultName tree narratedPlace above below ∧
      ∀ q ∈ Node.walkAll above, isStamp q = false := exists_records 1 (by decide +kernel) (by decide +kernel)
  have hblind : narratedPlace.Blind narratedPage narratedByAda := ⟨by decide +kernel, steady_of_plain (by decide +kernel)⟩
  obtain ⟨hinject, hlocate⟩ := inject_records (n := narratedByAda) h (by decide) (by decide) (by decide) hblind
  rw [if_neg (by decide +kernel)] at hinject
  exact ⟨tree, above, below, h, hblind, hinject, hlocate hstamps⟩

/-- A page in which a tag is open above the narration, up to a quote in the voices. -/
def openTagPage : Text := ("<Y a='\n\n\x7b/* speak-mintlify-hash: ab */\x7d\n<AudioTranscript voices=\x7b['x']\x7d />\n\n" ++
  "import \x7b AudioTranscript \x7d from \"/a.jsx\";\n\nit's> foo\n").toList

/-- Where that page records its narration. -/
def openTagPlace : Record := ⟨8, 39, 64, 71⟩

theorem inject_openTagPage : (∃ tree above below, Records openTagPage defaultName tree openTagPlace above below ∧
      ∀ q ∈ Node.walkAll above, isStamp q = false) ∧
    ((inject openTagPage narratedByBob).outcome.1.toOption.map Prod.fst =
      some (importStatement defaultName defaultPath ++ '\n' :: openTagPlace.updated openTagPage narratedByBob)) ∧
    ((inject openTagPage narratedByBob).outcome.1.toOption.bind fun r => (locate? r.1 defaultName).outcome.1.toOption) = some none := by
  refine ⟨exists_records 1 (by decide +kernel) (by decide +kernel), ?_, ?_⟩
  all_goals
    simp only [inject, updateInPlace, applyEdits_eq]
    decide +kernel

end Player
end Narration
