import Narration.Markup.Tree
import Narration.Proofs.Markup.FrontMatter
import Narration.Proofs.Markup.Passage
import Narration.Proofs.Markup.References

/-!
# The blocks of a document

* `Tree.HasFront` : the front matter of a text, or none;
* `Tree.read_eq_ok` : the tree of a text is made of its front matter and its blocks;
* `Markup.Inert` : lines that are neither hyphens nor definitions;
* `Tree.HasFront.exchange`, `Reference.collect_exchange`, `Tree.Framed.exchange` : such lines may take the place of others,
  or of none;
* `Tree.HasFront.exchangePart` : and so may parts of lines below front matter;
* `Tree.exists_read` : the tree of a text that begins with blocks without content.
-/

namespace Narration
open Markup
open Fallible
open Text (EndsLine led)

namespace Markup

/-- A line that has no part in front matter and in link definitions. -/
structure Inert (line : Text) : Prop where
  newline : '\n' ∉ line
  carriage : '\r' ∉ line
  label : Reference.closesLabel line
  definition : Reference.ofLine? line = none
  hyphens : Block.isHyphens line = false

variable {t t' x y : Text} {old new : List Text}

theorem lines_led (ht : '\n' :: t = x ++ led new ++ y) (hy : EndsLine y) (hnew : ∀ l ∈ new, '\n' ∉ l) :
    Text.lines t = (Text.lines x).tail ++ new ++ (Text.lines y).tail := by
  rw [Text.lines_of_append ht hy, Text.lines_append (Text.endsLine_led new), List.tail_append_of_ne_nil (Text.lines_ne_nil x),
    Text.tail_lines_led hnew]

theorem lines_inert (ht : '\n' :: t = x ++ led new ++ y) (hy : EndsLine y) (hnew : ∀ l ∈ new, Inert l) :
    Text.lines t = (Text.lines x).tail ++ new ++ (Text.lines y).tail :=
  lines_led ht hy fun l hl => (hnew l hl).newline

section Exchange
variable (ht : '\n' :: t = x ++ led old ++ y) (ht' : '\n' :: t' = x ++ led new ++ y) (hy : EndsLine y)
  (hold : ∀ l ∈ old, Inert l) (hnew : ∀ l ∈ new, Inert l)
include ht ht' hy hold hnew

/-- Lines whose labels close take the place of others in a text in which all labels close. -/
theorem Reference.closesLabel_exchange (h : ∀ l ∈ Text.lines t, closesLabel l) : ∀ l ∈ Text.lines t', closesLabel l := by
  simp only [lines_inert ht hy hold, List.mem_append] at h
  intro l hl
  rw [lines_inert ht' hy hnew, List.mem_append, List.mem_append] at hl
  rcases hl with (hl | hl) | hl
  · exact h l (.inl (.inl hl))
  · exact (hnew l hl).label
  · exact h l (.inr hl)

/-- Lines without definitions take the place of others without them, and those of the text stay as they are. -/
theorem Reference.collect_exchange (h : ∀ l ∈ Text.lines t, closesLabel l) : collect t' = collect t := by
  have h' : ∀ l ∈ Text.lines t', closesLabel l := closesLabel_exchange ht ht' hy hold hnew h
  have hnone {ls : List Text} (hls : ∀ l ∈ ls, Inert l) : ls.filterMap ofLine? = [] :=
    List.filterMap_eq_nil_iff.2 fun l hl => (hls l hl).definition
  rw [collect, collect, definitions_eq h, definitions_eq h', lines_inert ht hy hold, lines_inert ht' hy hnew]
  simp only [List.filterMap_append, hnone hold, hnone hnew]

end Exchange

end Markup

namespace Tree

/-- The front matter of a text, up to the end of its last line. -/
def HasFront (t f : Text) : Option Text → Prop
  | none => f = [] ∧ Block.frontMatter? t = none
  | some source => f ≠ [] ∧ Block.frontMatter? t = some (source, f.length)

variable {t t' f r u w x y : Text} {old new : List Text} {front : Option Text} {node : Node}

theorem HasFront.congr (h : HasFront t f front) (hsame : Block.frontMatter? t' = Block.frontMatter? t) : HasFront t' f front := by
  cases front with
  | none => exact ⟨h.1, hsame.trans h.2⟩
  | some source => exact ⟨h.1, hsame.trans h.2⟩

/-- The nodes of front matter. -/
def frontNodes (scope : Scope) (f : Text) (front : Option Text) : List Node :=
  (front.map fun source => scope.node (.frontMatter source) 0 f.length).toList

theorem exists_of_mem_frontNodes {scope : Scope} (h : node ∈ frontNodes scope f front) :
    ∃ source, node = scope.node (.frontMatter source) 0 f.length := by
  cases front with
  | none => cases h
  | some source => exact ⟨source, List.mem_singleton.1 h⟩

theorem exists_front (hr : '\r' ∉ t) : ∃ f r front, t = f ++ r ∧ HasFront t f front ∧
    (f ≠ [] → EndsLine r ∧ ∃ c, f.getLast? = some c ∧ c ≠ '\n') := by
  cases h : Block.frontMatter? t with
  | none => exact ⟨[], t, none, rfl, ⟨rfl, h⟩, nofun⟩
  | some front =>
    obtain ⟨source, n⟩ := front
    obtain ⟨f, r, rfl, rfl, hend, ⟨c, hlast, hc⟩, -⟩ := Block.exists_frontMatter hr h
    refine ⟨f, r, some source, rfl, ⟨?_, h⟩, fun _ => ⟨hend, c, hlast, hc⟩⟩
    rintro rfl
    cases hlast

theorem blocks_eq_ok {scope : Scope} {ns : List Node} (ht : t = f ++ r) (h : HasFront t f front) :
    blocks scope t = .ok ns ↔ ∃ ms, Block.Reads scope (Block.innerOf 957 scope) true ⟨f.length, r⟩ ms ∧
      ns = frontNodes scope f front ++ ms := by
  cases front with
  | none =>
    obtain ⟨rfl, hnone⟩ := h
    rw [blocks, hnone, ht]
    refine Block.readAll_eq_ok.trans ⟨fun hms => ⟨ns, hms, rfl⟩, ?_⟩
    rintro ⟨ms, hms, rfl⟩
    exact hms
  | some source =>
    obtain ⟨-, hsome⟩ := h
    have hdrop : (⟨0, t⟩ : Stretch).drop f.length = ⟨f.length, r⟩ := by
      rw [Stretch.drop, ht, List.drop_left, Nat.min_eq_left (by simp), Nat.zero_add]
    rw [blocks, hsome]
    refine bind_eq_ok.trans ?_
    rw [hdrop]
    constructor
    · rintro ⟨ms, hms, heq⟩
      exact ⟨ms, Block.readAll_eq_ok.1 hms, (pure_eq_ok.1 heq).symm⟩
    · rintro ⟨ms, hms, rfl⟩
      exact ⟨ms, Block.readAll_eq_ok.2 hms, rfl⟩

/-- The tree of a text is made of its front matter and its blocks. -/
theorem read_eq_ok (ht : t = f ++ r) (h : HasFront t f front) : read t = .ok node ↔
    ∃ ns, Block.Reads (Scope.ofText t (Reference.collect t)) (Block.innerOf 957 (Scope.ofText t (Reference.collect t))) true
        ⟨f.length, r⟩ ns ∧
      node = (Scope.ofText t (Reference.collect t)).node .root 0 t.length
        (frontNodes (Scope.ofText t (Reference.collect t)) f front ++ ns) := by
  refine bind_eq_ok.trans ⟨?_, ?_⟩
  · rintro ⟨ns, hns, heq⟩
    obtain ⟨ms, hms, rfl⟩ := (blocks_eq_ok ht h).1 hns
    exact ⟨ms, hms, (pure_eq_ok.1 heq).symm⟩
  · rintro ⟨ms, hms, rfl⟩
    exact ⟨_, (blocks_eq_ok ht h).2 ⟨ms, hms, rfl⟩, rfl⟩

theorem children_of_read (ht : t = f ++ r) (h : HasFront t f front) (hread : read t = .ok node) :
    ∃ ns, Block.Reads (Scope.ofText t (Reference.collect t)) (Block.innerOf 957 (Scope.ofText t (Reference.collect t))) true
        ⟨f.length, r⟩ ns ∧ node.children = frontNodes (Scope.ofText t (Reference.collect t)) f front ++ ns := by
  obtain ⟨ns, hns, rfl⟩ := (read_eq_ok ht h).1 hread
  exact ⟨ns, hns, rfl⟩

/-! ## Exchanging lines -/

/-- Front matter with the line feed before the text, or nothing. -/
def before (f : Text) : Text := if f.isEmpty then [] else '\n' :: f

/-- The line feed before a text without front matter. -/
def lead (f : Text) : Text := if f.isEmpty then ['\n'] else []

theorem before_append (f x : Text) : before f ++ (lead f ++ x) = '\n' :: (f ++ x) := by
  unfold before lead
  cases f <;> simp

theorem passes_lead (f r : Text) : Block.Passes r (lead f) [] := by
  unfold lead
  split
  · exact .blank (l := []) List.not_mem_nil rfl .nil
  · exact .nil

theorem fenced_exchange {as bs : List Text} (hnew : ∀ l ∈ new, Block.isHyphens l = false) (hnil : new = [] → old = [])
    (h : Block.fenced (as ++ old ++ bs) = false) : Block.fenced (as ++ new ++ bs) = false := by
  have hany : new.any Block.isHyphens = false := by simpa using hnew
  cases as with
  | nil =>
    cases new with
    | nil => rwa [hnil rfl] at h
    | cons l new => rw [List.nil_append, List.cons_append, Block.fenced, hnew l List.mem_cons_self, Bool.false_and]
  | cons a as =>
    rw [List.cons_append, List.cons_append, Block.fenced, List.any_append, List.any_append, Bool.and_eq_false_iff,
      Bool.or_eq_false_iff, Bool.or_eq_false_iff] at h
    rw [List.cons_append, List.cons_append, Block.fenced, List.any_append, List.any_append, hany, Bool.or_false,
      Bool.and_eq_false_iff, Bool.or_eq_false_iff]
    exact h.imp_right fun h => ⟨h.1.1, h.2⟩

theorem carriage_notMem_exchange (ht : '\n' :: t = x ++ led old ++ y) (ht' : '\n' :: t' = x ++ led new ++ y) (hr : '\r' ∉ t)
    (hnew : ∀ l ∈ new, '\r' ∉ l) : '\r' ∉ t' := by
  have hold : '\r' ∉ x ++ led old ++ y := by simpa [← ht] using hr
  have hled : '\r' ∉ led new := by
    rw [led, List.mem_flatMap]
    rintro ⟨l, hl, hmem⟩
    exact hnew l hl ((List.mem_cons.1 hmem).resolve_left (by decide))
  intro hmem
  have hall : '\r' ∈ x ++ led new ++ y := ht' ▸ List.mem_cons_of_mem _ hmem
  rw [List.mem_append, List.mem_append] at hall hold
  tauto

/-- Lines that are no hyphens take the place of others below the front matter of a text. -/
theorem HasFront.exchange (h : HasFront t f front) (hr : '\r' ∉ t) (ht : '\n' :: t = x ++ led old ++ y)
    (ht' : '\n' :: t' = x ++ led new ++ y) (hy : EndsLine y) (hold : ∀ l ∈ old, Inert l) (hnew : ∀ l ∈ new, Inert l)
    (hnil : new = [] → old = []) (hx : before f <+: x) : HasFront t' f front := by
  have hr' : '\r' ∉ t' := carriage_notMem_exchange ht ht' hr fun l hl => (hnew l hl).carriage
  have hhyphens : ∀ l ∈ new, Block.isHyphens l = false := fun l hl => (hnew l hl).hyphens
  cases front with
  | none =>
    obtain ⟨rfl, hnone⟩ := h
    have hfenced := Block.frontMatter?_isSome hr
    rw [hnone, lines_inert ht hy hold] at hfenced
    refine ⟨rfl, ?_⟩
    rw [← Option.not_isSome_iff_eq_none, Block.frontMatter?_isSome hr', lines_inert ht' hy hnew,
      fenced_exchange hhyphens hnil hfenced.symm]
    decide
  | some source =>
    obtain ⟨hne, hsome⟩ := h
    obtain ⟨g, rest, rfl, hlength, hend, -, hall⟩ := Block.exists_frontMatter hr hsome
    obtain ⟨w, rfl⟩ := hx
    have hbefore : before f = '\n' :: f := if_neg (by simpa using hne)
    rw [hbefore, List.cons_append, List.cons_append, List.cons_append] at ht
    obtain ⟨rfl, hrest⟩ := List.append_inj
      (by simpa using (List.cons.inj ht).2 : g ++ rest = f ++ (w ++ led old ++ y)) hlength
    have ht' : t' = g ++ (w ++ led new ++ y) := by
      rw [hbefore] at ht'
      simpa using (List.cons.inj ht').2
    subst hrest
    have hw : EndsLine (w ++ led new ++ y) := by
      cases w with
      | nil => exact (Text.endsLine_led new).append hy
      | cons c w =>
        rcases hend with hnil | ⟨v, hv⟩
        · cases hnil
        · rw [(List.cons.inj hv).1]
          exact .inr ⟨_, rfl⟩
    refine ⟨hne, ?_⟩
    rw [ht'] at hr' ⊢
    refine hall _ hw (fun hmem => hr' (List.mem_append_right _ hmem)) fun l hl hyphens => ?_
    rw [Text.lines_append hy, Text.lines_append (Text.endsLine_led new),
      Text.tail_lines_led fun l hl => (hnew l hl).newline, List.mem_append, List.mem_append] at hl
    rw [Text.lines_append hy, Text.lines_append (Text.endsLine_led old), List.mem_append, List.mem_append]
    rcases hl with (hl | hl) | hl
    · exact .inl (.inl hl)
    · rw [hhyphens l hl] at hyphens
      cases hyphens
    · exact .inr hl

/-- A part of a text below its front matter is exchanged, for one that is no hyphens on any of its lines. -/
theorem HasFront.exchangePart {s s' : Text} (h : HasFront (u ++ (s ++ w)) f front) (hr : '\r' ∉ u ++ (s ++ w)) (hr' : '\r' ∉ u ++ (s' ++ w))
    (hf : f = [] ∨ ∃ v, u = f ++ '\n' :: v)
    (hnew : ∀ p q, '\n' ∉ p → '\n' ∉ q → ∀ l ∈ Text.lines (p ++ (s' ++ q)), Block.isHyphens l = false) :
    HasFront (u ++ (s' ++ w)) f front := by
  cases front with
  | none =>
    obtain ⟨rfl, hnone⟩ := h
    obtain ⟨as, p, q, bs, hp, hq, hlines⟩ := Text.exists_lines_around u w
    have hfenced := Block.frontMatter?_isSome hr
    rw [hnone, hlines] at hfenced
    refine ⟨rfl, ?_⟩
    rw [← Option.not_isSome_iff_eq_none, Block.frontMatter?_isSome hr', hlines,
      fenced_exchange (hnew p q hp hq) (fun hnil => absurd hnil (Text.lines_ne_nil _)) hfenced.symm]
    decide
  | some source =>
    obtain ⟨hne, hsome⟩ := h
    obtain ⟨v, rfl⟩ := hf.resolve_left hne
    obtain ⟨g, rest, hg, hlength, -, -, hall⟩ := Block.exists_frontMatter hr hsome
    rw [List.append_assoc] at hg hr' ⊢
    obtain ⟨rfl, rfl⟩ := List.append_inj hg hlength.symm
    obtain ⟨as, p, q, bs, hp, hq, hlines⟩ := Text.exists_lines_around ('\n' :: v) w
    refine ⟨hne, hall _ (.inr ⟨_, rfl⟩) (fun hmem => hr' (List.mem_append_right _ hmem)) fun l hl hhyphens => ?_⟩
    rw [hlines, List.mem_append, List.mem_append] at hl ⊢
    rcases hl with (hl | hl) | hl
    · exact .inl (.inl hl)
    · rw [hnew p q hp hq l hl] at hhyphens
      cases hhyphens
    · exact .inr hl

/-- A text with its front matter and its link definitions, whose labels all close. -/
structure Framed (t f : Text) (front : Option Text) (references : List Reference) : Prop where
  front : HasFront t f front
  carriage : '\r' ∉ t
  labels : ∀ l ∈ Text.lines t, Reference.closesLabel l
  references : Reference.collect t = references

/-- Lines that are neither hyphens nor definitions take the place of others below the front matter of a text. -/
theorem Framed.exchange {references : List Reference} (h : Framed t f front references) (ht : '\n' :: t = x ++ led old ++ y)
    (ht' : '\n' :: t' = x ++ led new ++ y) (hy : EndsLine y) (hold : ∀ l ∈ old, Inert l) (hnew : ∀ l ∈ new, Inert l)
    (hnil : new = [] → old = []) (hx : before f <+: x) : Framed t' f front references :=
  ⟨h.front.exchange h.carriage ht ht' hy hold hnew hnil hx,
    carriage_notMem_exchange ht ht' h.carriage fun l hl => (hnew l hl).carriage,
    Reference.closesLabel_exchange ht ht' hy hold hnew h.labels,
    (Reference.collect_exchange ht ht' hy hold hnew h.labels).trans h.references⟩

/-- Lines that are neither hyphens nor definitions enter a text below its front matter. -/
theorem Framed.enter {references : List Reference} (h : Framed t f front references) (ht : '\n' :: t = x ++ y)
    (ht' : '\n' :: t' = x ++ led new ++ y) (hy : EndsLine y) (hnew : ∀ l ∈ new, Inert l) (hx : before f <+: x) :
    Framed t' f front references := by
  have hnone : '\n' :: t = x ++ led [] ++ y := by rw [Text.led_nil, List.append_nil, ht]
  exact h.exchange hnone ht' hy nofun hnew (fun _ => rfl) hx

/-- The tree of a text whose first blocks have no content. -/
theorem exists_read {e p : Text} {ks : List Kind} {ms : List Node} (ht : '\n' :: t = before f ++ p)
    (hf : HasFront (t ++ e) f front) (hp : Block.Passes e p ks) {scope : Scope}
    (hscope : scope = Scope.ofText (t ++ e) (Reference.collect (t ++ e)))
    (hr : Block.Reads scope (Block.innerOf 957 scope) true ⟨t.length, e⟩ ms) :
    ∃ qs, read (t ++ e) = .ok (scope.node .root 0 (t ++ e).length (frontNodes scope f front ++ (qs ++ ms))) ∧
      qs.map Node.kind = ks ∧ ∀ q ∈ qs, q.children = [] ∧ q.position.isSome := by
  subst hscope
  unfold before at ht
  split at ht
  · next hnil =>
    obtain rfl : f = [] := List.isEmpty_iff.1 hnil
    rw [List.nil_append] at ht
    subst ht
    have hlength : t.length = 0 + t.length := (Nat.zero_add _).symm
    rw [hlength] at hr
    obtain ⟨qs, hqs, hkinds, hleaf⟩ := hp.tail.reads hr
    exact ⟨qs, (read_eq_ok (List.nil_append _).symm hf).2 ⟨_, hqs, rfl⟩, hkinds, hleaf⟩
  · obtain rfl : t = f ++ p := (List.cons.inj ht).2
    rw [List.length_append] at hr
    obtain ⟨qs, hqs, hkinds, hleaf⟩ := hp.reads hr
    exact ⟨qs, (read_eq_ok (List.append_assoc f p e) hf).2 ⟨_, hqs, rfl⟩, hkinds, hleaf⟩

end Tree
end Narration
