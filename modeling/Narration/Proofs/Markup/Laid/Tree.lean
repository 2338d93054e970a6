import Narration.Proofs.Markup.Body
import Narration.Proofs.Markup.Laid.Block

/-!
# The tree of a document is laid in order

* `OrdinarySource` : texts that are ordinary once their line ends are line feeds;
* `Tree.blocks_laid` : front matter and blocks stand one after the other;
* `Tree.exists_root` : the tree of a text is a root that covers all of it;
* `Tree.parse_addresses` : positions address the text with line feeds for line ends;
* `Tree.parse_precedes` : the order of the tree is that of the text.
-/

namespace Narration.Markup
open Content (openPlace closePlace)

variable {t u : Text}

/-! ## Line ends -/

/-- A text that writes no placeholders of its own, with no blanks but spaces, tabs and line ends. -/
structure OrdinarySource (t : Text) : Prop where
  opening : openPlace ∉ t
  closing : closePlace ∉ t
  uncoded : Uncoded t
  blank : ∀ c ∈ t, Text.isBlank c → c = ' ' ∨ c = '\t' ∨ c = '\n' ∨ c = '\r'
  carriage : ∀ i < t.length, t[i]? = some '\r' → t[i + 1]? = some '\n'

theorem carriage_notMem_crlfToLf (h : ∀ i < t.length, t[i]? = some '\r' → t[i + 1]? = some '\n') :
    '\r' ∉ Text.crlfToLf t := by
  fun_induction Text.crlfToLf t with
  | case1 => exact List.not_mem_nil
  | case2 t ih =>
    rw [List.mem_cons, not_or]
    exact ⟨by decide, ih fun i hi => h (i + 2) (Nat.add_lt_add_right hi 2)⟩
  | case3 c t hnot ih =>
    rw [List.mem_cons, not_or]
    refine ⟨?_, ih fun i hi => h (i + 1) (Nat.add_lt_add_right hi 1)⟩
    rintro rfl
    have hnext := h 0 (Nat.succ_pos _) rfl
    cases t with
    | nil => cases hnext
    | cons d t => exact hnot t rfl (congrArg (· :: t) (Option.some.inj hnext))

/-- What stands on one line of a text with line feeds stands in the text. -/
theorem infix_of_crlfToLf (hu : '\n' ∉ u) : (u <+: Text.crlfToLf t → u <+: t) ∧ (u <:+: Text.crlfToLf t → u <:+: t) := by
  induction t using Text.crlfToLf.induct generalizing u with
  | case1 => exact ⟨id, id⟩
  | case2 t ih =>
    have hnil : u <+: '\n' :: Text.crlfToLf t → u = [] := by
      intro h
      rcases List.prefix_cons_iff.1 h with rfl | ⟨w, rfl, -⟩
      · rfl
      · exact absurd List.mem_cons_self hu
    rw [Text.crlfToLf]
    refine ⟨fun h => hnil h ▸ List.nil_prefix, fun h => ?_⟩
    rcases List.infix_cons_iff.1 h with h | h
    · exact hnil h ▸ List.nil_infix
    · exact List.infix_cons (List.infix_cons ((ih hu).2 h))
  | case3 c t hnot ih =>
    have hlead : u <+: c :: Text.crlfToLf t → u <+: c :: t := by
      intro h
      rcases List.prefix_cons_iff.1 h with rfl | ⟨w, rfl, hw⟩
      · exact List.nil_prefix
      · exact List.cons_prefix_cons.2 ⟨rfl, (ih fun hn => hu (List.mem_cons_of_mem c hn)).1 hw⟩
    rw [Text.crlfToLf.eq_3 c t hnot]
    refine ⟨hlead, fun h => ?_⟩
    rcases List.infix_cons_iff.1 h with h | h
    · exact (hlead h).isInfix
    · exact List.infix_cons ((ih hu).2 h)

theorem OrdinarySource.ordinary (h : OrdinarySource t) : Ordinary (Text.crlfToLf t) := by
  have hmem {c : Char} (hne : c ≠ '\n') (hc : c ∈ Text.crlfToLf t) : c ∈ t := by
    obtain ⟨u, v, huv⟩ := List.append_of_mem hc
    have hwithin : [c] <:+: Text.crlfToLf t := ⟨u, v, by rw [huv, List.append_assoc, List.singleton_append]⟩
    exact ((infix_of_crlfToLf (by simpa using Ne.symm hne)).2 hwithin).subset List.mem_cons_self
  refine ⟨fun hc => h.opening (hmem (by decide) hc), fun hc => h.closing (hmem (by decide) hc),
    ⟨fun hc => h.uncoded.ampersand (hmem (by decide) hc), fun hc => h.uncoded.percent (hmem (by decide) hc),
      fun hm => h.uncoded.punycode ((infix_of_crlfToLf (by decide)).2 hm)⟩, fun c hc hblank => ?_⟩
  by_cases hne : c = '\n'
  · exact .inr (.inr hne)
  · rcases h.blank c (hmem hne hc) hblank with hc' | hc' | hc' | rfl
    · exact .inl hc'
    · exact .inr (.inl hc')
    · exact .inr (.inr hc')
    · exact absurd hc (carriage_notMem_crlfToLf h.carriage)

end Narration.Markup

/-! ## Trees -/

namespace Narration.Tree
open Markup Fallible

variable {t : Text} {references : List Reference} {tree n : Node} {ns : List Node}

/-- The front matter and the blocks of an ordinary text stand in it one after the other. -/
theorem blocks_laid (ht : Ordinary t) (h : blocks (Scope.ofText t references) t = .ok ns) : Laid t 0 t.length ns := by
  obtain ⟨f, r, front, heq, hfront, -⟩ := exists_front ht.return_notMem
  obtain ⟨ms, hms, rfl⟩ := (blocks_eq_ok heq hfront).1 h
  have hlength : t.length = f.length + r.length := by rw [heq, List.length_append]
  have hin : Stretch.In t ⟨f.length, r⟩ := ⟨Nat.le.intro hlength.symm, by rw [heq, List.drop_left]⟩
  have hbelow : Laid t f.length (f.length + r.length) ms := Block.readAll_lays ht references 960 true _ _ hin (Block.readAll_eq_ok.2 hms)
  rw [← hlength] at hbelow
  have habove : Laid t 0 f.length (frontNodes (Scope.ofText t references) f front) := by
    cases front with
    | none => exact .nil
    | some source => exact Laid.nil.node trivial (List.length_pos_iff.2 hfront.1) (by omega)
  exact habove.append hbelow (Nat.zero_le _) (by omega)

/-- The tree of an ordinary text is a root that covers the text, with nodes in order. -/
theorem exists_root (ht : Ordinary (Text.crlfToLf t)) (h : (parse t).outcome.1 = .ok tree) : ∃ references ns,
    tree = (Scope.ofText (Text.crlfToLf t) references).node .root 0 (Text.crlfToLf t).length ns ∧
      Laid (Text.crlfToLf t) 0 (Text.crlfToLf t).length ns := by
  unfold parse at h
  generalize Text.crlfToLf t = t at ht h ⊢
  dsimp only at h
  split at h
  · next node hread =>
    cases h
    obtain ⟨ns, hns, hroot⟩ := bind_eq_ok.1 hread
    exact ⟨_, ns, (pure_eq_ok.1 hroot).symm, blocks_laid ht hns⟩
  · next hread =>
    cases h
    have hpos : 0 < t.length := by
      cases t with
      | nil => cases hread
      | cons c t => exact Nat.succ_pos _
    have htext : Laid t 0 t.length [(Scope.ofText t []).node (.text t) 0 t.length] := Laid.nil.node trivial hpos (Nat.le_refl _)
    exact ⟨[], _, rfl, htext.node trivial hpos (Nat.le_refl _)⟩
  · cases h

/-- Every node of the tree of an ordinary text addresses the text with line feeds for line ends. -/
theorem parse_addresses (ht : OrdinarySource t) (h : (parse t).outcome.1 = .ok tree) (hn : n ∈ tree.walk) :
    n.Addresses (Text.crlfToLf t) := by
  obtain ⟨references, ns, rfl, hlaid⟩ := exists_root ht.ordinary h
  generalize Text.crlfToLf t = t at hlaid hn ⊢
  rw [Scope.node, Node.walk] at hn
  rcases List.mem_cons.1 hn with rfl | hn
  · refine ⟨fun _ => rfl, ?_⟩
    rintro p ⟨⟩
    exact ⟨⟨Nat.zero_le _, Nat.le_refl _, Scope.lineOf_eq (Nat.zero_le _) references⟩, trivial⟩
  · exact hlaid.addresses (Nat.le_refl _) hn

/-- A page with an expression and a component in a list item in a quote. -/
def nestedPage : Text := "> - Read {a}\r\n>   <Card href='b'>now</Card>\r\n\r\nDone\n".toList

theorem ordinarySource_nestedPage : OrdinarySource nestedPage :=
  ⟨by decide, by decide, ⟨by decide, by decide, by decide⟩, by decide, by decide⟩

theorem parse_addresses_nestedPage : ∃ tree, (parse nestedPage).outcome.1 = .ok tree ∧
    ∃ n ∈ tree.walk, n.kind = .component "Card".toList [⟨"href".toList, some (.literal ['b']), some (28, 31)⟩] ∧
      n.Addresses (Text.crlfToLf nestedPage) := by
  obtain ⟨tree, htree, h⟩ := exists_of_any (by decide +kernel : (parse nestedPage).outcome.1.toOption.any fun tree =>
    tree.walk.any fun n => n.kind = .component "Card".toList [⟨"href".toList, some (.literal ['b']), some (28, 31)⟩])
  obtain ⟨n, hn, hkind⟩ := List.any_eq_true.1 h
  exact ⟨tree, htree, n, hn, of_decide_eq_true hkind, parse_addresses ordinarySource_nestedPage htree hn⟩

/-- The order of the tree of an ordinary text is that of the text. -/
theorem parse_precedes (ht : OrdinarySource t) (h : (parse t).outcome.1 = .ok tree) : tree.paths.Pairwise Precedes := by
  obtain ⟨references, ns, rfl, hlaid⟩ := exists_root ht.ordinary h
  generalize Text.crlfToLf t = t at hlaid ⊢
  rw [Scope.node, Node.paths]
  refine List.pairwise_cons.2 ⟨fun x hx => .below ?_, pathsAll_precedes ns 0 hlaid.fits hlaid.before⟩
  rintro p ⟨⟩
  exact hlaid.walk_inside (Node.mem_walkAll_of_mem_pathsAll hx)

theorem parse_precedes_nestedPage : ∃ tree, (parse nestedPage).outcome.1 = .ok tree ∧ tree.paths.Pairwise Precedes := by
  obtain ⟨tree, htree, -⟩ := exists_of_any (by decide +kernel : (parse nestedPage).outcome.1.toOption.any fun _ => true)
  exact ⟨tree, htree, parse_precedes ordinarySource_nestedPage htree⟩

end Narration.Tree
