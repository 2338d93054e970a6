import Narration.Proofs.Markup.Ends
import Narration.Proofs.Markup.Inline.Resolved
import Narration.Proofs.Markup.Outline
import Narration.Proofs.Text.Excerpt

/-!
# What the nodes of a tree are made from

Quotes and items are read from pieces of lines that are joined anew, so that a node need not stand in the document in one
piece. On each line it does.

* `Markup.Agreed` : texts in whose paragraphs code stands beside no words that two scans read differently;
* `Kind.Stems`, `Node.Stems` : the sources of expressions and modules, and the tags of components, stand in a text, and its
  texts and code hold no placeholders where it writes none;
* `Tag.read?_name` : a tag begins with its name;
* `Content.read_stems` : inline content stems from the stretch that it is read from.
-/

namespace Narration

open Text (Excerpt)

namespace Markup
open Content (openPlace closePlace)

variable {t t' : Text}

theorem Ordinary.excerpt (h : Ordinary t) (ht : Excerpt t' t) : Ordinary t' :=
  ⟨fun hc => h.opening (ht.mem hc), fun hc => h.closing (ht.mem hc),
    ⟨fun hc => h.uncoded.ampersand (ht.mem hc), fun hc => h.uncoded.percent (ht.mem hc),
      fun hm => h.uncoded.punycode (ht.line (by decide) hm)⟩, fun c hc => h.blank c (ht.mem hc)⟩

/-- A word that two scans read differently stands on one line. -/
theorem Hazard.newline_notMem {w : Text} (h : Hazard w) : '\n' ∉ w.dropLast := by
  have hinit {a : Char} {u : Text} {p : Char → Bool} (ha : '\n' ≠ a) (hu : ∀ c ∈ u, p c) (hp : p '\n' = false) (c : Char) :
      '\n' ∉ (a :: (u ++ [c])).dropLast := by
    rw [← List.cons_append, List.dropLast_concat, List.mem_cons, not_or]
    exact ⟨ha, fun hn => Bool.false_ne_true (hp.symm.trans (hu _ hn))⟩
  cases h with
  | target hw _ =>
    rw [List.dropLast_cons_of_ne_nil (List.cons_ne_nil _ _), List.mem_cons, not_or]
    exact ⟨by decide, hinit (by decide) hw (by decide) _⟩
  | address hw | line hw | markup hw => exact hinit (by decide) hw (by decide) _

theorem Harmless.excerpt (h : Harmless t) (ht : Excerpt t' t) : Harmless t' :=
  fun w hw hstands => h w hw (ht.line hw.newline_notMem hstands)

/-- A text in which no paragraph with a backtick holds a word that two scans read differently. -/
def Agreed (t : Text) : Prop := ∀ u, u <:+: t → Text.Solid u → '\x60' ∈ u → Harmless u

theorem Harmless.agreed (h : Harmless t) : Agreed t := fun _ hu _ _ w hw hstands => h w hw (hstands.trans hu)

theorem Agreed.excerpt (h : Agreed t) (ht : Excerpt t' t) : Agreed t' := by
  intro u hu hsolid htick
  obtain ⟨v, hv, hsolid, hexcerpt⟩ := ht.exists_solid hu hsolid
  exact (h v hv hsolid (hexcerpt.mem htick)).excerpt hexcerpt

end Markup

/-! ## Kinds -/

open Markup (Ordinary Agreed Placeless)

/-- What a node of some kind is made from stands in a text: its source line by line, its tag up to the end of the name. Of an
ordinary text no placeholder is left in a text, and none in code either when two scans agree on the text. -/
def Kind.Stems (t : Text) : Kind → Prop
  | .expression source => Excerpt source t
  | .modules source => Excerpt source t
  | .component name _ => '\n' ∉ name ∧ ∃ c, (Tag.isSpace c || c == '/' || c == '>') ∧ '<' :: name ++ [c] <:+: t
  | .text value => Ordinary t → Placeless value
  | .inlineCode code => Ordinary t → '\x60' ∈ t ∧ (Agreed t → Placeless code)
  | _ => True

/-- A node and all nodes below it stem from a text. -/
def Node.Stems (t : Text) (n : Node) : Prop := ∀ m ∈ n.walk, m.kind.Stems t

variable {t t' : Text} {k : Kind} {n : Node} {ns : List Node} {position : Option Position}

theorem Kind.Stems.trans (h : k.Stems t') (ht : Excerpt t' t) : k.Stems t := by
  cases k with
  | expression source => exact Excerpt.trans h ht
  | modules source => exact Excerpt.trans h ht
  | component name attributes =>
    obtain ⟨hline, c, hc, hname⟩ := h
    refine ⟨hline, c, hc, ht.line ?_ hname⟩
    rw [List.dropLast_concat]
    simpa using hline
  | text value => exact fun hordinary => h (hordinary.excerpt ht)
  | inlineCode code =>
    intro hordinary
    obtain ⟨htick, hcode⟩ := h (hordinary.excerpt ht)
    exact ⟨ht.mem htick, fun hagreed => hcode (hagreed.excerpt ht)⟩
  | _ => trivial

namespace Node

theorem Stems.trans (h : n.Stems t') (ht : Excerpt t' t) : n.Stems t := fun m hm => (h m hm).trans ht

theorem stems_mk : Stems t (mk k ns position) ↔ k.Stems t ∧ ∀ n ∈ ns, n.Stems t := forall_walk_mk

theorem stems_leaf (h : k.Stems t) : (leaf k).Stems t := stems_mk.2 ⟨h, List.forall_mem_nil _⟩

theorem Stems.repeated (h : n.Stems t) (i : Nat) : (n.repeated i).Stems t := by
  intro m hm
  rw [walk_repeated] at hm
  obtain ⟨m', hm', rfl⟩ := List.mem_map.1 hm
  rw [kind_repeated]
  exact h m' hm'

end Node

/-! ## Tags -/

namespace Tag

variable {c : Char} {start part : Char → Bool} {name rest : Text} {o : Nat} {tag : Tag}

theorem name?_eq_append (h : name? start part t = some (name, rest)) : t = name ++ rest ∧ ∀ c ∈ name, start c ∨ part c := by
  cases t with
  | nil => cases h
  | cons c t =>
    rw [name?] at h
    split at h
    · next hc =>
      cases h
      refine ⟨by rw [List.cons_append, List.takeWhile_append_dropWhile], fun d hd => ?_⟩
      rcases List.mem_cons.1 hd with rfl | hd
      · exact .inl hc
      · exact .inr (List.mem_takeWhile_imp hd)
    · cases h

/-- A tag that does not close a component begins with its name. -/
theorem read?_name (h : read? o t = some tag) (hopen : tag.closing = false) :
    '\n' ∉ tag.name ∧ ∃ c, (isSpace c || c == '/' || c == '>') ∧ '<' :: tag.name ++ [c] <+: t := by
  have hbody : ∀ closing u, body? o closing u = some tag → tag.closing = closing ∧
      '\n' ∉ tag.name ∧ ∃ c, (isSpace c || c == '/' || c == '>') ∧ tag.name ++ [c] <+: u := by
    intro closing u hu
    unfold body? at hu
    generalize o + (if closing then 2 else 1) = offset at hu
    dsimp only at hu
    split at hu
    · cases hu
      exact ⟨rfl, List.not_mem_nil, '>', by decide, by simp⟩
    · obtain ⟨⟨name, rest⟩, hname, htag⟩ := Option.bind_eq_some_iff.1 hu
      obtain ⟨c, hc, htag⟩ := Option.bind_eq_some_iff.1 htag
      obtain ⟨rfl, hchars⟩ := name?_eq_append hname
      dsimp only at hc htag
      split at htag
      · next hend =>
        obtain ⟨tail, -, htag⟩ := Option.bind_eq_some_iff.1 htag
        cases htag
        obtain ⟨u, rfl⟩ : ∃ u, rest = c :: u := by
          cases rest with
          | nil => cases hc
          | cons d u => exact ⟨u, by rw [Option.some.inj hc]⟩
        refine ⟨rfl, fun hn => ?_, c, hend, by simp⟩
        rcases hchars _ hn with hstart | hpart
        · exact absurd hstart (by decide)
        · exact absurd hpart (by decide)
      · cases htag
  unfold read? at h
  split at h
  · rw [(hbody true _ h).1] at hopen
    cases hopen
  · obtain ⟨-, hline, c, hc, hlead⟩ := hbody false _ h
    exact ⟨hline, c, hc, List.cons_prefix_cons.2 ⟨rfl, hlead⟩⟩
  · cases h

theorem braced?_infix {source : Text} {length : Nat} (h : braced? t = some (source, length)) : source <:+: t := by
  obtain ⟨n, -, hn⟩ := Option.bind_eq_some_iff.1 h
  cases hn
  exact (List.drop_suffix 1 _).isInfix.trans (List.take_prefix _ _).isInfix

end Tag

namespace Markup
open Fallible

variable {scope : Scope} {s : Stretch} {node : Node} {children : List Node} {stop : Nat}

theorem stems_component {tag : Tag} (h : Tag.read? s.start s.chars = some tag) (hopen : tag.closing = false) (position : Option Position)
    (hchildren : ∀ n ∈ children, n.Stems s.chars) : (Node.mk (.component tag.name tag.attributes) children position).Stems s.chars := by
  obtain ⟨hline, c, hc, hname⟩ := Tag.read?_name h hopen
  exact Node.stems_mk.2 ⟨⟨hline, c, hc, hname.isInfix⟩, hchildren⟩

/-! ## Inline content -/

namespace Content

/-- What is read from a stretch without blank lines stems from it. -/
def StemsFrom (read : Stretch → Except Fault (List Node)) : Prop :=
  ∀ s ns, Text.Solid s.chars → read s = .ok ns → ∀ n ∈ ns, n.Stems s.chars

variable {inner : Stretch → Except Fault (List Node)} {lifted nodes : List Node} {o o' : Open} {value : Text}

theorem ofTag_stems (hinner : StemsFrom inner) (hsolid : Text.Solid s.chars) {tag : Tag} (htag : Tag.read? s.start s.chars = some tag)
    (h : ofTag scope inner s tag = .ok (node, stop)) : node.Stems s.chars := by
  unfold ofTag at h
  dsimp only at h
  split at h
  · cases h
    exact Node.stems_mk.2 ⟨trivial, List.forall_mem_nil _⟩
  · next hopen =>
    have hopen : tag.closing = false := by simpa using hopen
    split at h
    · cases h
      exact stems_component htag hopen _ (List.forall_mem_nil _)
    · next first stop _ =>
      obtain ⟨children, hchildren, h⟩ := bind_eq_ok.1 h
      cases h
      have hwithin : ((s.since tag.stop).till first).Within s := (Stretch.within_take _ _).trans (s.within_drop _)
      exact stems_component htag hopen _ fun n hn => (hinner _ _ (hsolid.within hwithin) hchildren n hn).trans (Text.excerpt_of_infix hwithin)

theorem front_stems (hinner : StemsFrom inner) (hsolid : Text.Solid s.chars) {length : Nat}
    (h : front scope inner s = .ok (some node, length)) : node.Stems s.chars := by
  unfold front at h
  split at h
  · cases h
  · cases h
  · split at h
    · next source length hbraced =>
      cases h
      exact Node.stems_mk.2 ⟨Text.excerpt_of_infix (Tag.braced?_infix hbraced), List.forall_mem_nil _⟩
    · cases h
  · split at h
    · next tag htag =>
      obtain ⟨⟨node, stop⟩, hnode, h⟩ := bind_eq_ok.1 h
      cases h
      exact ofTag_stems hinner hsolid htag hnode
    · cases h
  · cases h

theorem lift_stems (hinner : StemsFrom inner) (hsolid : Text.Solid s.chars) {fuel i : Nat} {source : Text}
    (h : lift scope inner fuel i s = .ok (source, lifted)) : ∀ n ∈ lifted, n.Stems s.chars := by
  induction fuel generalizing i s source lifted with
  | zero =>
    cases h
    exact List.forall_mem_nil _
  | succ fuel ih =>
    unfold lift at h
    split at h
    · cases h
      exact List.forall_mem_nil _
    · obtain ⟨⟨node?, length⟩, hfront, h⟩ := bind_eq_ok.1 h
      have hrest {source : Text} {lifted : List Node} {i : Nat} (h : lift scope inner fuel i (s.drop length) = .ok (source, lifted)) :
          ∀ n ∈ lifted, n.Stems s.chars :=
        fun n hn => (ih (hsolid.within (s.within_drop _)) h n hn).trans (Text.excerpt_of_infix (s.within_drop _))
      cases node? with
      | none =>
        obtain ⟨⟨source, lifted⟩, hlift, h⟩ := bind_eq_ok.1 h
        cases h
        exact hrest hlift
      | some node =>
        obtain ⟨⟨source, lifted⟩, hlift, h⟩ := bind_eq_ok.1 h
        cases h
        exact List.forall_mem_cons.2 ⟨front_stems hinner hsolid hfront, hrest hlift⟩

/-- The nodes of all marks that are open stem from a text. -/
structure Open.Stems (t : Text) (o : Open) : Prop where
  nodes : ∀ n ∈ o.nodes, n.Stems t
  outer : ∀ x ∈ o.outer, ∀ n ∈ x.2, n.Stems t

theorem Open.stems_empty (t : Text) : Open.Stems t .empty := ⟨List.forall_mem_nil _, List.forall_mem_nil _⟩

theorem Open.Stems.add (h : o.Stems t) (hnodes : ∀ n ∈ nodes, n.Stems t) : (o.add nodes).Stems t := by
  refine ⟨fun n hn => ?_, h.outer⟩
  rcases List.mem_append.1 hn with hn | hn
  · exact hnodes n (List.mem_reverse.1 hn)
  · exact h.nodes n hn

theorem stems_kindOf (t : Text) (mark : Mark) : (Open.kindOf mark).Stems t := by
  cases mark <;> trivial

theorem Open.Stems.leave (h : o.Stems t) : o.leave.Stems t := by
  obtain ⟨nodes, outer⟩ := o
  unfold Open.leave
  dsimp only
  split
  · exact h
  · next mark before outer =>
    obtain ⟨hbefore, houter⟩ := List.forall_mem_cons.1 h.outer
    refine ⟨List.forall_mem_cons.2 ⟨?_, hbefore⟩, houter⟩
    exact Node.stems_mk.2 ⟨stems_kindOf t mark, fun n hn => h.nodes n (List.mem_reverse.1 hn)⟩

theorem Open.Stems.close (h : o.Stems t) : ∀ n ∈ o.close, n.Stems t := by
  obtain ⟨nodes, outer⟩ := o
  have hall : ∀ n ∈ outer.foldl (fun nodes (x : Mark × List Node) => .mk (Open.kindOf x.1) nodes.reverse none :: x.2) nodes,
      n.Stems t := by
    induction outer generalizing nodes with
    | nil => exact h.nodes
    | cons x outer ih =>
      obtain ⟨hx, houter⟩ := List.forall_mem_cons.1 h.outer
      refine ih _ ⟨List.forall_mem_cons.2 ⟨?_, hx⟩, houter⟩
      exact Node.stems_mk.2 ⟨stems_kindOf t x.1, fun n hn => h.nodes n (List.mem_reverse.1 hn)⟩
  intro n hn
  exact hall n (List.mem_reverse.1 hn)

theorem settle_stems (hlifted : ∀ n ∈ lifted, n.Stems t) (hvalue : Ordinary t → Complete value) (h : settle lifted value = .ok nodes) :
    ∀ n ∈ nodes, n.Stems t := by
  obtain ⟨ps, hps, h⟩ := bind_eq_ok.1 h
  cases h
  intro n hn
  obtain ⟨part, hmem, hpart⟩ := List.mem_filterMap.1 hn
  cases part with
  | text value =>
    cases hpart
    exact Node.stems_leaf fun hordinary => parts_placeless (hvalue hordinary) hps value hmem
  | placeholder number => exact hlifted n (List.mem_of_getElem? hpart)

mutual

theorem addToken_stems (hlifted : ∀ n ∈ lifted, n.Stems t) : (token : InlineToken) →
    (Ordinary t → token.Fine (Agreed t ∧ '\x60' ∈ t) ('\x60' ∈ t)) → (o o' : Open) → o.Stems t → addToken lifted token o = .ok o' → o'.Stems t
  | .text value, hfine, o, o', ho, h => by
    obtain ⟨nodes, hnodes, h⟩ := bind_eq_ok.1 h
    cases h
    simp only [InlineToken.Fine] at hfine
    exact ho.add (settle_stems hlifted hfine hnodes)
  | .special value, hfine, o, o', ho, h => by
    obtain ⟨nodes, hnodes, h⟩ := bind_eq_ok.1 h
    cases h
    simp only [InlineToken.Fine] at hfine
    exact ho.add (settle_stems hlifted hfine hnodes)
  | .lineBreak, _, o, o', ho, h => by
    cases h
    exact ho.add (List.forall_mem_singleton.2 (Node.stems_leaf trivial))
  | .code value, hfine, o, o', ho, h => by
    cases h
    simp only [InlineToken.Fine] at hfine
    refine ho.add (List.forall_mem_singleton.2 (Node.stems_leaf fun ht => ?_))
    exact ⟨(hfine ht).1, fun hagreed => (hfine ht).2 ⟨hagreed, (hfine ht).1⟩⟩
  | .image target alternative, hfine, o, o', ho, h => by
    obtain ⟨inside, hinside, h⟩ := bind_eq_ok.1 h
    cases h
    simp only [InlineToken.Fine] at hfine
    have hclose := (addTokens_stems hlifted alternative hfine .empty inside (Open.stems_empty t) hinside).close
    exact ho.add (List.forall_mem_singleton.2 (Node.stems_mk.2 ⟨trivial, hclose⟩))
  | .opening mark, _, o, o', ho, h => by
    cases h
    exact ⟨List.forall_mem_nil _, List.forall_mem_cons.2 ⟨ho.nodes, ho.outer⟩⟩
  | .closing _, _, o, o', ho, h => by
    cases h
    exact ho.leave

theorem addTokens_stems (hlifted : ∀ n ∈ lifted, n.Stems t) : (tokens : List InlineToken) →
    (Ordinary t → InlineToken.FineAll (Agreed t ∧ '\x60' ∈ t) ('\x60' ∈ t) tokens) → (o o' : Open) → o.Stems t →
    addTokens lifted tokens o = .ok o' → o'.Stems t
  | [], _, o, o', ho, h => by
    cases h
    exact ho
  | token :: tokens, hfine, o, o', ho, h => by
    obtain ⟨next, hnext, h⟩ := bind_eq_ok.1 h
    simp only [InlineToken.FineAll] at hfine
    have hnext := addToken_stems hlifted token (fun ht => (hfine ht).1) o next ho hnext
    exact addTokens_stems hlifted tokens (fun ht => (hfine ht).2) next o' hnext h

end

theorem nodesOf_stems (hlifted : ∀ n ∈ lifted, n.Stems t) {tokens : List InlineToken}
    (hfine : Ordinary t → InlineToken.FineAll (Agreed t ∧ '\x60' ∈ t) ('\x60' ∈ t) tokens) (h : nodesOf lifted tokens = .ok nodes) :
    ∀ n ∈ nodes, n.Stems t := by
  obtain ⟨o, ho, h⟩ := bind_eq_ok.1 h
  cases h
  exact (addTokens_stems hlifted tokens hfine .empty o (Open.stems_empty t) ho).close

theorem counted_stems (hlifted : ∀ n ∈ lifted, n.Stems t) {tokens : List InlineToken} (h : counted lifted tokens = .ok nodes) :
    ∀ n ∈ nodes, n.Stems t := by
  obtain ⟨held, -, h⟩ := bind_eq_ok.1 h
  cases h
  intro n hn
  obtain ⟨i, hi, rfl⟩ := List.mem_mapIdx.1 hn
  exact (hlifted _ (List.getElem_mem hi)).repeated _

theorem read_stems (scope : Scope) (budget : Nat) : StemsFrom (read scope budget) := by
  induction budget using Nat.strongRecOn with
  | _ budget ih =>
    intro s ns hsolid h
    unfold read at h
    split at h
    · next budget =>
      obtain ⟨⟨source, lifted⟩, hlift, h⟩ := bind_eq_ok.1 h
      obtain ⟨tokens, htokens, h⟩ := bind_eq_ok.1 h
      have hlifted := lift_stems (ih budget (by omega)) hsolid hlift
      have hfine (ht : Ordinary s.chars) :
          InlineToken.FineAll (Agreed s.chars ∧ '\x60' ∈ s.chars) ('\x60' ∈ s.chars) tokens := by
        have htaken := lift_lifted hlift
        have hmade := lift_made (Nat.le_refl _) (placeless_iff.2 ⟨ht.opening, ht.closing⟩) hlift
        exact Inline.tokens_fine hmade (htaken.uncoded ht.uncoded)
          (fun hc => ht.return_notMem (htaken.mem_of_loose (by decide) hc))
          (fun h => h.1 _ List.infix_rfl hsolid h.2) htokens
      dsimp only at h
      split at h
      · obtain ⟨lifted', hcounted, h⟩ := bind_eq_ok.1 h
        exact nodesOf_stems (counted_stems hlifted hcounted) hfine h
      · exact nodesOf_stems hlifted hfine h
    · cases h

end Content

end Markup
end Narration
