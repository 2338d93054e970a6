import Narration.Proofs.Markup.Body
import Narration.Proofs.Markup.LastModules
import Narration.Proofs.Markup.Place

/-!
# The place of an import statement

* `Player.Clear` : modules come before content, and comments there end with their line;
* `Player.Site` : a text cut below its last modules, or below its front matter;
* `Player.exists_site` : the site of a document, and what follows it.
-/

namespace Narration.Player
open Markup
open Markup.Block
open Tree (HasFront frontNodes before lead)
open Text (firstLine EndsLine)

/-- Whether a kind is that of modules. -/
def isModules : Kind → Bool
  | .modules _ => true
  | _ => false

/-- The nodes before the first content. -/
def opening (nodes : List Node) : List Node := nodes.takeWhile fun n => !isContent n.kind

/-- The first content and all nodes after it. -/
def body (nodes : List Node) : List Node := nodes.dropWhile fun n => !isContent n.kind

/-- Nodes among which a narration block can be entered: no modules come after content, and markup in angle brackets
before it is a comment that ends with its line. -/
structure Clear (t : Text) (nodes : List Node) : Prop where
  modules : ∀ n ∈ body nodes, isModules n.kind = false
  markup : ∀ n ∈ opening nodes, isClear t n

/-- A text, after a line feed, cut into `x` up to its last modules, or else its front matter, and the rest. -/
structure Site (t : Text) (nodes : List Node) (f x e : Text) (front : Option Text) : Prop where
  front : HasFront t f front
  text : '\n' :: t = x ++ e
  ends : EndsLine e
  below : before f <+: x
  anchor : anchorLine nodes = x.count '\n'

variable {t f x e : Text} {front : Option Text} {nodes ns : List Node} {tree : Node} {scope : Scope}

theorem append_body (nodes : List Node) : opening nodes ++ body nodes = nodes := List.takeWhile_append_dropWhile

theorem isContent_of_mem_opening {n : Node} (h : n ∈ opening nodes) : isContent n.kind = false := by
  simpa using List.mem_takeWhile_imp h

theorem body_cases (nodes : List Node) : body nodes = [] ∨ ∃ n ms, body nodes = n :: ms ∧ isContent n.kind := by
  unfold body
  cases h : nodes.dropWhile fun n => !isContent n.kind with
  | nil => exact .inl rfl
  | cons n ms =>
    have hhead := List.head_dropWhile_not (p := fun n : Node => !isContent n.kind) (l := nodes) (by simp [h])
    exact .inr ⟨n, ms, rfl, by simpa [h] using hhead⟩

theorem isContent_frontNodes {n : Node} (h : n ∈ frontNodes scope f front) : isContent n.kind = false := by
  obtain ⟨source, rfl⟩ := Tree.exists_of_mem_frontNodes h
  rfl

theorem opening_append (ns : List Node) : opening (frontNodes scope f front ++ ns) = frontNodes scope f front ++ opening ns :=
  List.takeWhile_append_of_pos fun n hn => by rw [isContent_frontNodes hn]; rfl

theorem body_append (ns : List Node) : body (frontNodes scope f front ++ ns) = body ns :=
  List.dropWhile_append_of_pos fun n hn => by rw [isContent_frontNodes hn]; rfl

/-- Either no element has a property, or there is a last one that has it. -/
theorem exists_last {α : Type} (p : α → Bool) (l : List α) :
    (∀ a ∈ l, p a = false) ∨ ∃ as a bs, l = as ++ a :: bs ∧ p a ∧ ∀ b ∈ bs, p b = false := by
  induction l with
  | nil => exact .inl nofun
  | cons a l ih =>
    rcases ih with h | ⟨as, b, bs, rfl, hb, hbs⟩
    · cases ha : p a with
      | true => exact .inr ⟨[], a, l, rfl, ha, h⟩
      | false => exact .inl fun b hb => by rcases List.mem_cons.1 hb with rfl | hb; exacts [ha, h b hb]
    · exact .inr ⟨a :: as, b, bs, rfl, hb, hbs⟩

/-! ## The line of the import -/

/-- The last line of the last of the nodes of some kind. -/
def lastLine (p : Kind → Bool) (nodes : List Node) : Nat :=
  ((nodes.filter (p ·.kind)).getLast?.bind (·.position)).elim 0 (·.endLine)

theorem anchorLine_eq (nodes : List Node) : anchorLine nodes =
    if lastLine isModules nodes = 0 then lastLine isFrontMatter nodes else lastLine isModules nodes := rfl

theorem lastLine_eq_zero {p : Kind → Bool} (h : ∀ n ∈ nodes, p n.kind = false) : lastLine p nodes = 0 := by
  have hnil : nodes.filter (p ·.kind) = [] := List.filter_eq_nil_iff.2 fun n hn => by simp [h n hn]
  rw [lastLine, hnil]
  rfl

theorem lastLine_append {p : Kind → Bool} {l r : List Node} {n : Node} {position : Position} (hn : p n.kind)
    (hbs : ∀ b ∈ r, p b.kind = false) (hposition : n.position = some position) :
    lastLine p (l ++ n :: r) = position.endLine := by
  have hnil : r.filter (p ·.kind) = [] := List.filter_eq_nil_iff.2 fun b hb => by simp [hbs b hb]
  rw [lastLine, List.filter_append, List.filter_cons_of_pos (p := fun n : Node => p n.kind) hn, hnil, List.getLast?_concat, Option.bind_some, hposition]
  rfl

theorem count_before (f : Text) : (before f).count '\n' = if f = [] then 0 else f.count '\n' + 1 := by
  unfold before
  cases f with
  | nil => rfl
  | cons c f => rw [if_neg (by simp), if_neg (by simp), List.count_cons_self]

/-- Without modules the import goes below the front matter. -/
theorem lastLine_frontNodes {r : Text} (hf : HasFront (f ++ r) f front) (hlast : f ≠ [] → f.getLast? ≠ some '\n')
    (references : List Reference) (hns : ∀ n ∈ ns, isFrontMatter n.kind = false) :
    lastLine isFrontMatter (frontNodes (Scope.ofText (f ++ r) references) f front ++ ns) = (before f).count '\n' := by
  rw [count_before]
  cases front with
  | none =>
    obtain ⟨rfl, -⟩ := hf
    rw [if_pos rfl]
    exact lastLine_eq_zero hns
  | some source =>
    obtain ⟨hne, -⟩ := hf
    have hend := Scope.endLine_position hne (hlast hne) [] r references
    rw [List.length_nil, Nat.zero_add, List.nil_append] at hend
    rw [if_neg hne, ← hend]
    exact lastLine_append (l := []) rfl hns rfl

/-! ## Sites -/

/-- What a site has before it: no modules at all, or the last modules. -/
inductive Ends (nodes : List Node) (f x e : Text) : Prop
  | bare (hx : x = before f) (hnone : ∀ n ∈ nodes, isModules n.kind = false)
  | modules {z m : Text} {ks : List Kind} (hx : x = before f ++ (z ++ m)) (hm : UpToModules e z m ks)
      (hkinds : ∀ k ∈ ks ++ [.modules (Text.trimEnd m)], ∃ n ∈ opening nodes, n.kind = k)
      (hall : ∀ n ∈ nodes, isModules n.kind → n.kind ∈ ks ++ [.modules (Text.trimEnd m)])

/-- The blocks below a site: some without content, and those from the first content on. -/
structure Below (t : Text) (nodes : List Node) (e l r : Text) (o : Nat) (qs : List Node) : Prop where
  text : e = l ++ r
  blank : Passes r l []
  start : t.drop o = r
  stop : o + r.length = t.length
  reads : Reads (Scope.ofText t (Reference.collect t)) (innerOf 957 (Scope.ofText t (Reference.collect t))) true ⟨o, r⟩
    (qs ++ body nodes)
  quiet : ∀ q ∈ qs, q ∈ opening nodes

theorem isModules_frontNodes {n : Node} (h : n ∈ frontNodes scope f front) : isModules n.kind = false := by
  obtain ⟨source, rfl⟩ := Tree.exists_of_mem_frontNodes h
  rfl

theorem exists_modules {k : Kind} (h : isModules k) : ∃ source, k = .modules source := by
  unfold isModules at h
  split at h
  · exact ⟨_, rfl⟩
  · cases h

/-- A document has a site. -/
theorem exists_site (hr : '\r' ∉ t) (h : Tree.read t = .ok tree) (hclear : Clear t tree.children) :
    ∃ f front x e l r o qs, Site t tree.children f x e front ∧ Ends tree.children f x e ∧
      Below t tree.children e l r o qs := by
  obtain ⟨f, r, front, ht, hf, hend⟩ := Tree.exists_front hr
  obtain ⟨ns, hns, htree⟩ := (Tree.read_eq_ok ht hf).1 h
  subst ht
  have hchildren : tree.children = frontNodes (Scope.ofText (f ++ r) (Reference.collect (f ++ r))) f front ++ ns := by
    rw [htree]
    rfl
  obtain ⟨hafter, hmarkup⟩ := hclear
  rw [hchildren] at hafter hmarkup ⊢
  rw [body_append] at hafter
  rw [opening_append] at hmarkup
  have hlast : f ≠ [] → f.getLast? ≠ some '\n' := by
    intro hne
    obtain ⟨-, c, hlast, hc⟩ := hend hne
    simpa [hlast] using hc
  have hfront : ∀ n ∈ ns, isFrontMatter n.kind = false := hns.forall_mem fun s node stop _ hnext => (next_made hnext).isFrontMatter_eq
  rcases exists_last (fun n : Node => isModules n.kind) (opening ns) with hnone | ⟨qs, n, ms, hsplit, hn, hms⟩
  · have hmodules : ∀ n ∈ frontNodes (Scope.ofText (f ++ r) (Reference.collect (f ++ r))) f front ++ ns,
        isModules n.kind = false := by
      intro n hn
      rw [← append_body ns, List.mem_append, List.mem_append] at hn
      rcases hn with hn | hn | hn
      · exact isModules_frontNodes hn
      · exact hnone n hn
      · exact hafter n hn
    have hends : EndsLine (lead f ++ r) := by
      unfold lead
      split
      · exact .inr ⟨r, rfl⟩
      · next hne => exact (hend (by simpa using hne)).1
    refine ⟨f, front, before f, lead f ++ r, lead f, r, f.length, opening ns, ?_, .bare rfl hmodules, ?_⟩
    · refine ⟨hf, (Tree.before_append f r).symm, hends, List.prefix_refl _, ?_⟩
      rw [anchorLine_eq, lastLine_eq_zero hmodules, if_pos rfl]
      exact lastLine_frontNodes hf hlast _ hfront
    · refine ⟨rfl, Tree.passes_lead f r, List.drop_left, (List.length_append ..).symm, ?_, ?_⟩
      · rw [body_append, append_body]
        exact hns
      · intro q hq
        rw [opening_append]
        exact List.mem_append_right _ hq
  · obtain ⟨source, hsource⟩ := exists_modules hn
    have hreads : Reads (Scope.ofText (f ++ r) (Reference.collect (f ++ r)))
        (innerOf 957 (Scope.ofText (f ++ r) (Reference.collect (f ++ r)))) true ⟨f.length, r⟩
        (qs ++ n :: (ms ++ body ns)) := by
      rw [← append_body ns, hsplit, List.append_assoc, List.cons_append] at hns
      exact hns
    have hmem : ∀ q ∈ qs ++ n :: ms, q ∈ opening ns := fun q hq => hsplit ▸ hq
    have hqs : ∀ q ∈ qs, q ∈ opening ns := fun q hq => hmem q (List.mem_append_left _ hq)
    obtain ⟨z, m, e, rfl, he, hm, rfl, hmlast, hposition, hrest⟩ := exists_upToModules hreads List.drop_left
      (fun q hq => isContent_of_mem_opening (hqs q hq)) (fun q hq => hmarkup q (List.mem_append_right _ (hqs q hq))) hsource
    have hx : before f ++ (lead f ++ z ++ m) = '\n' :: (f ++ z ++ m) := by
      rw [List.append_assoc, Tree.before_append, List.append_assoc]
    have htext : f ++ (z ++ m ++ e) = f ++ z ++ m ++ e := by simp only [List.append_assoc]
    have hkinds : ∀ k, k ∈ qs.map Node.kind ++ [.modules (Text.trimEnd m)] ↔ ∃ q ∈ qs ++ [n], q.kind = k := by
      intro k
      rw [← hsource, ← List.map_singleton (f := Node.kind), ← List.map_append, List.mem_map]
    have hlead : UpToModules e (lead f ++ z) m (qs.map Node.kind) :=
      ⟨(Tree.passes_lead f _).append hm.before, hm.nonempty, hm.line, hm.reader, hm.length⟩
    refine ⟨f, front, before f ++ (lead f ++ z ++ m), e, [], e, f.length + (z ++ m).length, ms, ?_,
      .modules rfl hlead ?_ ?_, ?_⟩
    · refine ⟨hf, by rw [hx, htext, List.cons_append], he, List.prefix_append _ _, ?_⟩
      rw [htext, ← List.length_append] at hposition
      have hline := Scope.endLine_position hm.nonempty hmlast (f ++ z) e
        (Reference.collect (f ++ z ++ m ++ e))
      have hlater : ∀ b ∈ ms ++ body ns, isModules b.kind = false := fun b hb =>
        (List.mem_append.1 hb).elim (hms b) (hafter b)
      rw [anchorLine_eq, ← append_body ns, hsplit, List.append_assoc qs, List.cons_append, ← List.append_assoc _ qs,
        lastLine_append hn hlater hposition, htext, hline, if_neg (Nat.succ_ne_zero _), hx, List.count_cons_self]
    · intro k hk
      obtain ⟨q, hq, rfl⟩ := (hkinds k).1 hk
      refine ⟨q, ?_, rfl⟩
      rw [opening_append]
      refine List.mem_append_right _ (hmem q ?_)
      rw [← List.singleton_append, ← List.append_assoc]
      exact List.mem_append_left _ hq
    · intro q hq hmodules
      refine (hkinds _).2 ⟨q, ?_, rfl⟩
      have hnot (h : isModules q.kind = false) : q ∈ qs ++ [n] := by
        rw [hmodules] at h
        cases h
      rw [← append_body ns, hsplit, ← List.singleton_append, ← List.append_assoc qs, List.mem_append, List.mem_append,
        List.mem_append (s := qs ++ [n])] at hq
      rcases hq with hq | (hq | hq) | hq
      · exact hnot (isModules_frontNodes hq)
      · exact hq
      · exact hnot (hms q hq)
      · exact hnot (hafter q hq)
    · refine ⟨rfl, .nil, ?_, ?_, ?_, ?_⟩
      · rw [← List.append_assoc, ← List.length_append, List.drop_left]
      · simp only [List.length_append]
        omega
      · rw [body_append]
        exact hrest
      · intro q hq
        rw [opening_append]
        exact List.mem_append_right _ (hmem q (List.mem_append_right _ (List.mem_cons_of_mem _ hq)))

end Narration.Player
