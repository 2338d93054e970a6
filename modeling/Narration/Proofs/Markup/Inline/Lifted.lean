import Narration.Proofs.Buffer
import Narration.Proofs.Markup.Inline.Settled
import Narration.Proofs.Markup.Inline.Written
import Narration.Proofs.Markup.Span

/-!
# Nodes lifted out of inline content

* `Ordinary` : a text that writes no placeholders of its own;
* `Lays` : a way to read stretches whose nodes are laid within them;
* `Content.front_laid` : a lifted node is laid where it stands;
* `Content.Lifted` : how a stretch is taken apart;
* `Content.Lifted.laid`, `Content.Lifted.marked`, `Content.Lifted.infix_of_loose` : the nodes and the placeholders, and
  what else is left;
* `Content.read_lays` : inline content is laid within its stretch.
-/

namespace Narration.Markup
open Fallible
open Stretch (In)

/-- The nodes read from a stretch of a text are laid within it. -/
def Lays (t : Text) (inner : Stretch → Except Fault (List Node)) : Prop :=
  ∀ s nodes, In t s → inner s = .ok nodes → Laid t s.start s.stop nodes

/-- A text that writes no placeholders of its own, with no blanks but spaces, tabs and line feeds. -/
structure Ordinary (t : Text) : Prop where
  opening : Content.openPlace ∉ t
  closing : Content.closePlace ∉ t
  uncoded : Uncoded t
  blank : ∀ c ∈ t, Text.isBlank c → c = ' ' ∨ c = '\t' ∨ c = '\n'

theorem Ordinary.within {t u : Text} (h : Ordinary u) (htu : t <:+: u) : Ordinary t :=
  ⟨fun hc => h.opening (htu.subset hc), fun hc => h.closing (htu.subset hc), h.uncoded.within htu,
    fun c hc => h.blank c (htu.subset hc)⟩

theorem Ordinary.unlines {t : Text} {ls : List Text} (h : Ordinary t) (hls : ∀ l ∈ ls, l <:+: t) : Ordinary (Text.unlines ls) := by
  have hmem {c : Char} (hc : c ∈ Text.unlines ls) : c = '\n' ∨ c ∈ t :=
    (Text.mem_join hc).imp List.mem_singleton.1 fun ⟨l, hl, hcl⟩ => (hls l hl).subset hcl
  have hnot {c : Char} (hne : c ≠ '\n') (hc : c ∉ t) : c ∉ Text.unlines ls := fun hcl => (hmem hcl).elim hne hc
  refine ⟨hnot (by decide) h.opening, hnot (by decide) h.closing,
    ⟨hnot (by decide) h.uncoded.ampersand, hnot (by decide) h.uncoded.percent, fun hm => ?_⟩, fun c hc hblank => ?_⟩
  · obtain ⟨l, hl, hwithin⟩ := Text.exists_infix_of_unlines (by decide) (by decide) hm
    exact h.uncoded.punycode (hwithin.trans (hls l hl))
  · rcases hmem hc with rfl | hc
    · exact .inr (.inr rfl)
    · exact h.blank c hc hblank

theorem Ordinary.return_notMem {t : Text} (h : Ordinary t) : '\r' ∉ t := by
  intro hc
  rcases h.blank '\r' hc (by decide) with h | h | h <;> exact absurd h (by decide)

namespace Content

variable {t source : Text} {references : List Reference} {inner : Stretch → Except Fault (List Node)} {s : Stretch}
  {node : Node} {nodes : List Node} {n length stop : Nat}

/-! ## One node -/

/-- A component is laid from its tag to the one that closes it when what it encloses is. -/
theorem component_laid (references : List Reference) (hin : In t s) {tag : Tag} (htag : Tag.Spans t s.start s.chars.length tag) {first : Nat}
    (hclosing : Closing.find? tag.name (s.since tag.stop).start (s.since tag.stop).chars = some (first, stop))
    (hlaid : Laid t ((s.since tag.stop).till first).start ((s.since tag.stop).till first).stop nodes) :
    Laid t s.start stop [(Scope.ofText t references).node (.component tag.name tag.attributes) tag.start stop nodes] ∧
      stop ≤ s.stop := by
  have hattributes := htag.attributes
  obtain ⟨hstart, htagStop, hlt, hhead, -, -⟩ := htag
  have hafterStart : (s.since tag.stop).start = tag.stop := s.start_since (by omega) htagStop
  obtain ⟨hfirst, hfirstStop⟩ := Closing.find?_extent hclosing
  obtain ⟨hstop, hclosed⟩ : stop ≤ (s.since tag.stop).stop ∧ _ := Closing.find?_span (hin.since tag.stop) hclosing
  have hinside := Nat.le_trans ((s.since tag.stop).stop_till_le hfirst) (Nat.le_of_lt hfirstStop)
  rw [Stretch.since, s.stop_drop] at hstop
  rw [hafterStart] at hfirst
  rw [hstart] at hhead ⊢
  refine ⟨(hlaid.mono (s.start_le_since _) hinside).node ⟨hhead, hclosed, hattributes⟩ (by omega) ?_, hstop⟩
  exact Nat.le_trans hstop hin.stop_le

theorem ofTag_laid (hin : In t s) (hinner : Lays t inner) {tag : Tag} (htag : Tag.Spans t s.start s.chars.length tag)
    (h : ofTag (Scope.ofText t references) inner s tag = .ok (node, stop)) :
    Laid t s.start stop [node] ∧ stop ≤ s.stop ∧ node.position.isSome := by
  have halone {kind : Kind} (hcovers : kind.Covers t tag.start tag.stop) :
      Laid t s.start tag.stop [(Scope.ofText t references).node kind tag.start tag.stop] := by
    have hlt := htag.lt
    rw [htag.start] at hcovers hlt ⊢
    exact Laid.nil.node hcovers (by omega) (Nat.le_trans htag.stop_le hin.stop_le)
  unfold ofTag at h
  dsimp only at h
  split at h
  · cases h
    exact ⟨halone trivial, htag.stop_le, rfl⟩
  · split at h
    · cases h
      exact ⟨halone ⟨htag.head, htag.last, htag.attributes⟩, htag.stop_le, rfl⟩
    · next first last hclosing =>
      split at hclosing
      · cases hclosing
      obtain ⟨children, hchildren, h⟩ := bind_eq_ok.1 h
      cases h
      obtain ⟨hlaid, hstop⟩ := component_laid references hin htag hclosing
        (hinner _ children ((hin.since tag.stop).till first) hchildren)
      exact ⟨hlaid, hstop, rfl⟩

/-- A lifted node is laid where it stands. -/
theorem front_laid (hin : In t s) (hinner : Lays t inner)
    (h : front (Scope.ofText t references) inner s = .ok (some node, length)) :
    Laid t s.start (s.start + length) [node] ∧ length ≤ s.chars.length ∧ node.position.isSome := by
  obtain ⟨o, chars⟩ := s
  unfold front at h
  dsimp only at h
  split at h
  · cases h
  · cases h
  · split at h
    · next rest _ source length' hbraced =>
      cases h
      obtain ⟨hwraps, hle⟩ := Tag.braced?_wraps hin hbraced
      have hstop := hin.stop_le
      refine ⟨Laid.nil.node hwraps (by have := hwraps.lt; omega) ?_, hle, rfl⟩
      change o + (rest.length + 1) ≤ t.length at hstop
      exact Nat.le_trans (Nat.add_le_add_left hle o) hstop
    · cases h
  · split at h
    · next tag htag =>
      obtain ⟨⟨node, stop⟩, hnode, h⟩ := bind_eq_ok.1 h
      cases h
      obtain ⟨hlaid, hstop, hsome⟩ := ofTag_laid hin hinner (Tag.read?_span hin htag) hnode
      have hwithin : stop ≤ o + List.length _ := hstop
      exact ⟨hlaid.mono (Nat.le_refl o) (by dsimp only; omega), Nat.sub_le_iff_le_add'.2 hwithin, hsome⟩
    · cases h
  · cases h

/-! ## All nodes -/

/-- How a stretch is taken apart: parts of it are kept, and placeholders stand for the nodes that are lifted. The rest may
be left out. -/
inductive Lifted (scope : Scope) (inner : Stretch → Except Fault (List Node)) : Nat → Stretch → Text → List Node → Prop
  | stop (n : Nat) (s : Stretch) : Lifted scope inner n s [] []
  | keep {n : Nat} {s : Stretch} {source : Text} {nodes : List Node} (length : Nat)
      (h : Lifted scope inner n (s.drop length) source nodes) : Lifted scope inner n s (s.chars.take length ++ source) nodes
  | place {n : Nat} {s : Stretch} {source : Text} {nodes : List Node} {node : Node} {length : Nat}
      (hfront : front scope inner s = .ok (some node, length)) (h : Lifted scope inner (n + 1) (s.drop length) source nodes) :
      Lifted scope inner n s (placeholder n ++ source) (node :: nodes)

theorem lift_lifted {scope : Scope} {fuel : Nat} (h : lift scope inner fuel n s = .ok (source, nodes)) :
    Lifted scope inner n s source nodes := by
  induction fuel generalizing n s source nodes with
  | zero =>
    cases h
    exact .stop n s
  | succ fuel ih =>
    rw [lift] at h
    split at h
    · cases h
      exact .stop n s
    · obtain ⟨⟨node?, length⟩, hfront, h⟩ := bind_eq_ok.1 h
      cases node? with
      | none =>
        obtain ⟨⟨source, nodes⟩, hrest, h⟩ := bind_eq_ok.1 h
        cases h
        exact .keep length (ih hrest)
      | some node =>
        obtain ⟨⟨source, nodes⟩, hrest, h⟩ := bind_eq_ok.1 h
        cases h
        exact .place hfront (ih hrest)

namespace Lifted

variable {scope : Scope}

/-- The lifted nodes stand one after the other. -/
theorem laid (h : Lifted (Scope.ofText t references) inner n s source nodes) (hin : In t s) (hinner : Lays t inner) :
    Laid t s.start s.stop nodes ∧ ∀ node ∈ nodes, node.position.isSome := by
  induction h with
  | stop => exact ⟨.nil, nofun⟩
  | @keep n s source nodes length _ ih =>
    obtain ⟨hlaid, hsome⟩ := ih (hin.drop length)
    rw [s.stop_drop] at hlaid
    exact ⟨hlaid.mono (s.start_le_drop length) (Nat.le_refl _), hsome⟩
  | @place n s source nodes node length hfront _ ih =>
    obtain ⟨hlaid, hsome⟩ := ih (hin.drop length)
    obtain ⟨hnode, hle, hplaced⟩ := front_laid hin hinner hfront
    have hstart : (s.drop length).start = s.start + length := congrArg (s.start + ·) (Nat.min_eq_left hle)
    rw [s.stop_drop, hstart] at hlaid
    exact ⟨hnode.cons hlaid (Nat.le_add_right _ _) (Nat.add_le_add_left hle _), List.forall_mem_cons.2 ⟨hplaced, hsome⟩⟩

/-- The placeholders are numbered in order. -/
theorem marked (h : Lifted scope inner n s source nodes) (hopen : openPlace ∉ s.chars) (hclose : closePlace ∉ s.chars) :
    Marked none source ((List.range' n nodes.length).map Text.digits) := by
  induction h with
  | stop => exact .nil
  | @keep n s source nodes length _ ih =>
    have hrest := ih (fun hc => hopen (List.mem_of_mem_drop hc)) fun hc => hclose (List.mem_of_mem_drop hc)
    have hopen' : openPlace ∉ s.chars.take length := fun hc => hopen (List.mem_of_mem_take hc)
    have hclose' : closePlace ∉ s.chars.take length := fun hc => hclose (List.mem_of_mem_take hc)
    generalize s.chars.take length = u at hopen' hclose'
    induction u with
    | nil => exact hrest
    | cons c u ihu =>
      rw [List.mem_cons, not_or] at hopen' hclose'
      exact .char (Ne.symm hopen'.1) (Ne.symm hclose'.1) (ihu hopen'.2 hclose'.2)
  | @place n s source nodes node length _ _ ih =>
    have hrest := ih (fun hc => hopen (List.mem_of_mem_drop hc)) fun hc => hclose (List.mem_of_mem_drop hc)
    have hdigits (u d : Text) (hu : ∀ c ∈ u, Text.isDigit c) (hd : d ++ u ≠ []) {ds : List Text} (hm : Marked none source ds) :
        Marked (some d) (u ++ closePlace :: source) ((d ++ u) :: ds) := by
      induction u generalizing d with
      | nil =>
        rw [List.append_nil] at hd ⊢
        exact .closing hd hm
      | cons c u ihu =>
        obtain ⟨hc, hu⟩ := List.forall_mem_cons.1 hu
        refine .digit hc ?_
        have hrow := ihu (d ++ [c]) hu (by simp)
        rwa [List.append_assoc] at hrow
    rw [List.length_cons, List.range'_succ, List.map_cons, placeholder, List.append_assoc]
    exact .opening (hdigits _ [] (fun c hc => Text.isDigit_of_mem_digits hc) (Text.digits_ne_nil n) hrest)

theorem not_isLoose_of_mem_placeholder {c : Char} (h : c ∈ placeholder n) : isLoose c = false := by
  rw [placeholder, List.cons_append, List.mem_cons, List.mem_append, List.mem_singleton] at h
  rcases h with rfl | h | rfl
  · decide
  · simp [isLoose, Text.isDigit_of_mem_digits h]
  · decide

/-- Characters in a row that are no part of a placeholder stand in a row in the stretch, too. -/
theorem infix_of_loose (h : Lifted scope inner n s source nodes) {m : Text} (hm : ∀ c ∈ m, isLoose c) :
    (m <+: source → m <+: s.chars) ∧ (m <:+: source → m <:+: s.chars) := by
  induction h generalizing m with
  | stop =>
    exact ⟨fun h => List.prefix_nil.1 h ▸ List.nil_prefix, fun h => List.infix_nil.1 h ▸ List.nil_infix⟩
  | @keep n s source nodes length _ ih =>
    obtain ⟨u, r, hs, htake, hdrop⟩ : ∃ u r, s.chars = u ++ r ∧ s.chars.take length = u ∧ (s.drop length).chars = r :=
      ⟨_, _, (List.take_append_drop length s.chars).symm, rfl, rfl⟩
    rw [hdrop] at ih
    rw [htake, hs]
    have hfront {m : Text} (hm : ∀ c ∈ m, isLoose c) (h : m <+: u ++ source) : m <+: u ++ r := by
      obtain ⟨w, hw⟩ := h
      rcases List.append_eq_append_iff.1 hw with ⟨x, rfl, -⟩ | ⟨x, rfl, hx⟩
      · exact (List.prefix_append m x).trans (List.prefix_append _ r)
      · refine (List.prefix_append_right_inj u).2 ((ih fun c hc => hm c (List.mem_append_right _ hc)).1 ?_)
        exact ⟨w, hx.symm⟩
    refine ⟨hfront hm, fun h => ?_⟩
    rcases List.infix_append_iff.1 h with h | h | ⟨m₁, m₂, rfl, h₁, h₂⟩
    · exact List.infix_append_iff.2 (.inl h)
    · exact List.infix_append_iff.2 (.inr (.inl ((ih hm).2 h)))
    · exact List.infix_append_iff.2 (.inr (.inr ⟨m₁, m₂, rfl, h₁, (ih fun c hc => hm c (List.mem_append_right _ hc)).1 h₂⟩))
  | @place n s source nodes node length _ _ ih =>
    have hnil {m : Text} (hm : ∀ c ∈ m, isLoose c) (hmem : ∀ c ∈ m, c ∈ placeholder n) : m = [] := by
      refine List.eq_nil_iff_forall_not_mem.2 fun c hc => ?_
      have hloose := hm c hc
      rw [not_isLoose_of_mem_placeholder (hmem c hc)] at hloose
      cases hloose
    have hrest {m : Text} (h : m <:+: (s.drop length).chars) : m <:+: s.chars := h.trans (List.drop_suffix _ _).isInfix
    refine ⟨fun h => ?_, fun h => ?_⟩
    · cases m with
      | nil => exact List.nil_prefix
      | cons c m =>
        rw [placeholder, List.cons_append, List.cons_append, List.cons_prefix_cons] at h
        rw [h.1] at hm
        exact absurd (hm _ List.mem_cons_self) (by decide)
    · rcases List.infix_append_iff.1 h with h | h | ⟨m₁, m₂, rfl, h₁, h₂⟩
      · rw [hnil hm fun c hc => h.subset hc]
        exact List.nil_infix
      · exact hrest ((ih hm).2 h)
      · have hm₁ := hnil (fun c hc => hm c (List.mem_append_left _ hc)) fun c hc => h₁.subset hc
        subst hm₁
        exact hrest ((ih hm).1 h₂).isInfix

theorem mem_of_loose (h : Lifted scope inner n s source nodes) {c : Char} (hc : isLoose c) (hmem : c ∈ source) :
    c ∈ s.chars := by
  have hwithin : [c] <:+: source := by
    obtain ⟨u, v, huv⟩ := List.append_of_mem hmem
    exact ⟨u, v, by rw [huv, List.append_assoc, List.singleton_append]⟩
  exact ((h.infix_of_loose (by simpa using hc)).2 hwithin).subset List.mem_cons_self

theorem uncoded (h : Lifted scope inner n s source nodes) (hs : Uncoded s.chars) : Uncoded source :=
  ⟨fun hc => hs.ampersand (h.mem_of_loose (by decide) hc), fun hc => hs.percent (h.mem_of_loose (by decide) hc),
    fun hm => hs.punycode ((h.infix_of_loose (by decide)).2 hm)⟩

end Lifted

/-! ## Whole stretches -/

/-- The nodes of the placeholders of a stretch, each at most once and in order, are some of those lifted out of it. -/
theorem picked_sublist {ds : List Text} (h : ds.Sublist ((List.range' 0 nodes.length).map Text.digits)) :
    (picked nodes ds).Sublist nodes := by
  have hnumbers : ((List.range' 0 nodes.length).map Text.digits).filterMap Text.decimal? = List.range nodes.length := by
    rw [List.filterMap_map, ← List.range_eq_range']
    refine (List.filterMap_congr fun n _ => ?_).trans List.filterMap_some
    exact Text.decimal?_digits n
  have hall (nodes : List Node) : (List.range nodes.length).filterMap (nodes[·]?) = nodes := by
    induction nodes with
    | nil => rfl
    | cons node nodes ih =>
      rw [List.length_cons, List.range_succ_eq_map, List.filterMap_cons_some (by rfl), List.filterMap_map]
      exact congrArg _ ih
  have hsub := (h.filterMap Text.decimal?).filterMap (nodes[·]?)
  rwa [hnumbers, hall] at hsub

/-- The nodes lifted out of a stretch of a text that writes no placeholders of its own are put back in order. -/
theorem read_lays (ht : Ordinary t) (references : List Reference) (budget : Nat) :
    Lays t (read (Scope.ofText t references) budget) := by
  induction budget using Nat.strong_induction_on with
  | _ budget ih =>
    intro s nodes hin h
    have hs := ht.within hin.isInfix
    have hmay : mayWritePlaceholders s.chars = false := by
      rw [← Bool.not_eq_true, mayWritePlaceholders_iff]
      rintro (hc | hc | hc | hm)
      · exact hs.opening hc
      · exact hs.uncoded.ampersand hc
      · exact hs.uncoded.percent hc
      · exact hs.uncoded.punycode hm
    unfold read at h
    split at h
    · next budget =>
      obtain ⟨⟨source, lifted⟩, hlift, h⟩ := bind_eq_ok.1 h
      obtain ⟨tokens, htokens, h⟩ := bind_eq_ok.1 h
      rw [hmay] at h
      have hlifted := lift_lifted hlift
      obtain ⟨hlaid, hplaced⟩ := hlifted.laid hin (ih budget (by omega))
      have hreturn : '\r' ∉ source := fun hc => hs.return_notMem (hlifted.mem_of_loose (by decide) hc)
      have hnumbers := Inline.tokens_numbers (hlifted.uncoded hs.uncoded) hreturn (hlifted.marked hs.opening hs.closing) htokens
      obtain ⟨ds, hds, htops⟩ := topsAll_nodesOf h
      refine hlaid.sublist ?_
      rw [htops, Node.topsAll_of_placed hplaced]
      have hpicked := picked_sublist (hds.trans hnumbers)
      rwa [Node.topsAll_of_placed fun node hnode => hplaced node (hpicked.subset hnode)]
    · cases h

end Content
end Narration.Markup
