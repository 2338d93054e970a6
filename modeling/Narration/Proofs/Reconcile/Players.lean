import Narration.Proofs.Reconcile

/-!
# Which players refer to audio

The narration of a document is that of its first player with voices. The audio of its other players is not
referred to by that document.

* `Player.locate?_eq` : the narration of a document is that of its first player with voices;
* `Player.find?_walk` : the first player of a tree, in reading order;
* `Reconcile.Records` : a document records an address;
* `Reconcile.mem_referencedBy` : the keys that documents refer to.
-/

namespace Narration

variable {name document url k : Text} {tree node : Node} {voices : List Voice}

/-! ## The voices of a payload -/

namespace Voice
open Fallible (after after_bind)

theorem result_ofEntries (entries : List Value) (ws ws' : List Warning) :
    (after (ofEntries entries) ws).1 = (after (ofEntries entries) ws').1 := by
  induction entries generalizing ws ws' with
  | nil => rfl
  | cons entry entries ih =>
    rw [ofEntries]
    cases ofEntry? entry with
    | none => exact ih _ _
    | some v =>
      have hpure (ws : List Warning) : (after (do return v :: (← ofEntries entries) : Report (List Voice)) ws).1 =
          (after (ofEntries entries) ws).1.map (v :: ·) := Fallible.after_bind_pure _ fun _ _ => rfl
      exact (hpure ws).trans ((congrArg (Except.map (v :: ·)) (ih ws ws')).trans (hpure ws').symm)

/-- What was warned of before does not matter for the voices of a payload. -/
theorem result_ofPayload (value : Option AttributeValue) (ws : List Warning) :
    (after (ofPayload value) ws).1 = (ofPayload value).outcome.1 := by
  have hsource (source : Text) : (after (ofSource source) ws).1 = (after (ofSource source) []).1 := by
    unfold ofSource
    cases Json.read source with
    | error e => cases e <;> rfl
    | ok value =>
      cases value with
      | list entries => exact result_ofEntries entries ws []
      | _ => rfl
  cases value with
  | none => rfl
  | some value => cases value <;> exact hsource _

end Voice

/-! ## The players of a tree -/

namespace Player
open Fallible (after after_bind)

/-- The voices of the first player that has any, or why they cannot be told. -/
def recordedVoices (tree : Node) (name : Text) : Except Markup.Fault (List Voice) :=
  match (uses tree name).findSome? Use.voices? with
  | some carrier => (Voice.ofPayload carrier.value).outcome.1
  | none => .ok []

/-- The narration of a document is that of its first player with voices. -/
theorem locate?_eq (document name : Text) : (locate? document name).outcome.1 = (do
    let tree ← (Tree.parse document).outcome.1
    let voices ← recordedVoices tree name
    return if voices.isEmpty then none else some ⟨fingerprint? tree, voices⟩) := by
  change (after (locate? document name) []).1 = (after (Tree.parse document) []).1 >>= _
  rw [locate?, after_bind]
  rcases after (Tree.parse document) [] with ⟨f | tree, ws⟩
  · rfl
  change (after _ ws).1 = recordedVoices tree name >>= _
  dsimp only
  unfold recordedVoices
  cases (uses tree name).findSome? Use.voices? with
  | none => rfl
  | some carrier =>
    refine (Fallible.after_bind_pure _ fun _ _ => rfl).trans ?_
    rw [Voice.result_ofPayload]
    dsimp only
    cases (Voice.ofPayload carrier.value).outcome.1 <;> rfl

mutual

/-- The first use in a node is the first component of the name, in reading order. -/
theorem find?_walk (name : Text) (around : List Node) : (node : Node) →
    node.walk.find? (fun n => (n.component? name).isSome) = (usesIn name around node).head?.map (·.node)
  | .mk kind children position => by
    rw [usesIn, Node.walk, List.find?_cons]
    cases h : (Node.mk kind children position).component? name with
    | some attributes => rfl
    | none => exact find?_walkAll name (.mk kind children position :: around) children

theorem find?_walkAll (name : Text) (around : List Node) : (nodes : List Node) →
    (Node.walkAll nodes).find? (fun n => (n.component? name).isSome) = (usesInAll name around nodes).head?.map (·.node)
  | [] => rfl
  | node :: nodes => by
    rw [usesInAll, Node.walkAll, List.find?_append, find?_walk name around node, find?_walkAll name around nodes, List.head?_append]
    cases (usesIn name around node).head? <;> rfl

end

mutual

theorem component?_of_mem_usesIn (name : Text) (around : List Node) : (node : Node) →
    ∀ u ∈ usesIn name around node, u.node.component? name = some u.attributes
  | .mk kind children position => by
    rw [usesIn]
    split
    · next attributes h =>
      intro u hu
      rwa [List.mem_singleton.1 hu]
    · exact component?_of_mem_usesInAll name _ children

theorem component?_of_mem_usesInAll (name : Text) (around : List Node) : (nodes : List Node) →
    ∀ u ∈ usesInAll name around nodes, u.node.component? name = some u.attributes
  | [] => nofun
  | node :: nodes => by
    rw [usesInAll]
    intro u hu
    rcases List.mem_append.1 hu with hu | hu
    · exact component?_of_mem_usesIn name around node u hu
    · exact component?_of_mem_usesInAll name around nodes u hu

end

end Player

/-! ## References -/

namespace Reconcile
open Player Work

/-- A document records an address: the first of its players with voices has a voice with it. -/
def Records (name document url : Text) : Prop :=
  ∃ tree before u after a voices, (Tree.parse document).outcome.1 = .ok tree ∧ uses tree name = before ++ u :: after ∧
    (∀ w ∈ before, w.voices? = none) ∧ u.voices? = some a ∧ (Voice.ofPayload a.value).outcome.1 = .ok voices ∧
    ∃ v ∈ voices, v.url = url

theorem records_iff (name document url : Text) : Records name document url ↔
    ∃ block, (locate? document name).outcome.1 = .ok (some block) ∧ ∃ v ∈ block.voices, v.url = url := by
  rw [locate?_eq]
  constructor
  · rintro ⟨tree, before, u, after, a, voices, htree, huses, hbefore, ha, hvoices, v, hv, hurl⟩
    have hfirst : (uses tree name).findSome? Use.voices? = some a :=
      List.findSome?_eq_some_iff.2 ⟨before, u, after, huses, ha, hbefore⟩
    refine ⟨⟨fingerprint? tree, voices⟩, ?_, v, hv, hurl⟩
    refine Fallible.bind_eq_ok.2 ⟨tree, htree, Fallible.bind_eq_ok.2 ⟨voices, by rw [recordedVoices, hfirst]; exact hvoices, ?_⟩⟩
    rw [if_neg (by simpa using List.ne_nil_of_mem hv)]
    rfl
  · rintro ⟨block, hblock, v, hv, hurl⟩
    obtain ⟨tree, htree, hblock⟩ := Fallible.bind_eq_ok.1 hblock
    obtain ⟨voices, hvoices, hblock⟩ := Fallible.bind_eq_ok.1 hblock
    have hblock : (if voices.isEmpty then none else some ⟨fingerprint? tree, voices⟩) = some block := Except.ok.inj hblock
    split at hblock
    · cases hblock
    · cases hblock
      unfold recordedVoices at hvoices
      split at hvoices
      · next a ha =>
        obtain ⟨before, u, after, huses, ha, hbefore⟩ := List.findSome?_eq_some_iff.1 ha
        exact ⟨tree, before, u, after, a, voices, htree, huses, hbefore, ha, hvoices, v, hv, hurl⟩
      · cases hvoices
        cases hv

/-- The first component of the name in a document is the first of its uses. -/
theorem records_of_first {tree node : Node} {attributes : List Attribute} {a : Attribute} {voices : List Voice} {v : Voice}
    (htree : (Tree.parse document).outcome.1 = .ok tree)
    (hnode : tree.walk.find? (fun n => (n.component? name).isSome) = some node) (hattributes : node.component? name = some attributes)
    (ha : attributes.find? (·.name = voicesAttribute) = some a) (hvoices : (Voice.ofPayload a.value).outcome.1 = .ok voices)
    (hv : v ∈ voices) : Records name document v.url := by
  rw [find?_walk name [] tree, Option.map_eq_some_iff] at hnode
  obtain ⟨u, hu, rfl⟩ := hnode
  obtain ⟨after, huses⟩ := List.head?_eq_some_iff.1 hu
  have hsame : u.node.component? name = some u.attributes := component?_of_mem_usesIn name [] tree u (List.mem_of_head? hu)
  obtain rfl : attributes = u.attributes := Option.some.inj (hattributes.symm.trans hsame)
  exact ⟨tree, [], u, after, a, voices, htree, huses, nofun, ha, hvoices, v, hv, rfl⟩

/-- The keys of documents are asked for without any change but for the warnings. -/
theorem consults_referencedBy (files : Files) (keyOf : Text → Except Failure Text) (name : Text) (contents : List Text) :
    Consults files (referencedBy keyOf (.str name) (contents.map pure)) (do
      let keys ← contents.mapM fun content => (locate? content name).outcome.1.mapError Failure.markup >>= keysIn keyOf
      return Text.distinct keys.flatten) := by
  unfold referencedBy
  rw [List.mapM_map]
  exact .bind (.mapM fun content _ => consults_keysBy files keyOf name content) fun kss => .pure (Text.distinct kss.flatten)

theorem exists_keysIn {keyOf : Text → Except Failure Text} (hkeys : ∀ url, ∃ k, keyOf url = .ok k) (found : Option NarrationBlock) :
    ∃ ks, keysIn keyOf found = .ok ks := Fallible.exists_mapM fun url _ => hkeys url

/-- The keys that documents refer to are told if every document can be read and every address has a key, and they are
those of the addresses that the documents record: of the voices of the first player that has any in each. A player
that comes first in its document is one of these. -/
theorem mem_referencedBy (keyOf : Text → Except Failure Text) (name : Text) (contents : List Text) (σ : Studio) :
    ∃ x warnings, (referencedBy keyOf (.str name) (contents.map pure)).after σ = (x, { σ with warnings }) ∧
      ((∀ content ∈ contents, ∃ block, (locate? content name).outcome.1 = .ok block) → (∀ url, ∃ k, keyOf url = .ok k) →
        ∃ keys, x = .ok keys) ∧
      ∀ keys, x = .ok keys →
        (∀ k, k ∈ keys ↔ ∃ content ∈ contents, ∃ url, url ≠ [] ∧ Records name content url ∧ keyOf url = .ok k) ∧
        ∀ content ∈ contents, ∀ tree node attributes a voices, (Tree.parse content).outcome.1 = .ok tree →
          tree.walk.find? (fun n => (n.component? name).isSome) = some node → node.component? name = some attributes →
          attributes.find? (·.name = voicesAttribute) = some a → (Voice.ofPayload a.value).outcome.1 = .ok voices →
          ∀ v ∈ voices, v.url ≠ [] → ∀ k, keyOf v.url = .ok k → k ∈ keys := by
  obtain ⟨warnings, hafter⟩ := consults_referencedBy σ.files keyOf name contents σ rfl
  refine ⟨_, warnings, hafter, fun hblocks hkeys => ?_, fun keys hkeys => ?_⟩
  · have hall : ∀ content ∈ contents, ∃ ks, (locate? content name).outcome.1.mapError Failure.markup >>= keysIn keyOf = .ok ks := by
      intro content hcontent
      obtain ⟨block, hblock⟩ := hblocks content hcontent
      obtain ⟨ks, hks⟩ := exists_keysIn hkeys block
      exact ⟨ks, Fallible.bind_eq_ok.2 ⟨block, Fallible.mapError_eq_ok.2 hblock, hks⟩⟩
    obtain ⟨kss, hkss⟩ := Fallible.exists_mapM hall
    exact ⟨_, Fallible.bind_eq_ok.2 ⟨kss, hkss, rfl⟩⟩
  · obtain ⟨kss, hkss, hkeys⟩ := Fallible.bind_eq_ok.1 hkeys
    cases hkeys
    have hmem (k : Text) : k ∈ Text.distinct kss.flatten ↔
        ∃ content ∈ contents, ∃ url, url ≠ [] ∧ Records name content url ∧ keyOf url = .ok k := by
      rw [Text.distinct, List.mem_eraseDups, List.mem_flatten]
      constructor
      · rintro ⟨ks, hks, hk⟩
        obtain ⟨content, hcontent, hks⟩ := (Fallible.mem_mapM hkss).1 hks
        obtain ⟨found, hfound, hks⟩ := Fallible.bind_eq_ok.1 hks
        obtain ⟨block, rfl, v, hv, hurl, hk⟩ := (mem_keysIn hks).1 hk
        exact ⟨content, hcontent, v.url, hurl, (records_iff name content v.url).2 ⟨block, Fallible.mapError_eq_ok.1 hfound, v, hv, rfl⟩, hk⟩
      · rintro ⟨content, hcontent, url, hurl, hrecords, hk⟩
        obtain ⟨ks, hks⟩ := Fallible.exists_ok_of_mapM hkss content hcontent
        refine ⟨ks, (Fallible.mem_mapM hkss).2 ⟨content, hcontent, hks⟩, ?_⟩
        obtain ⟨found, hfound, hks⟩ := Fallible.bind_eq_ok.1 hks
        obtain ⟨block, hblock, v, hv, rfl⟩ := (records_iff name content url).1 hrecords
        obtain rfl : found = some block := Except.ok.inj ((Fallible.mapError_eq_ok.1 hfound).symm.trans hblock)
        exact (mem_keysIn hks).2 ⟨block, rfl, v, hv, hurl, hk⟩
    refine ⟨hmem, fun content hcontent tree node attributes a voices htree hnode hattributes ha hvoices v hv hurl k hk => ?_⟩
    exact (hmem k).2 ⟨content, hcontent, v.url, hurl, records_of_first htree hnode hattributes ha hvoices hv, hk⟩

/-- A document with two players. -/
def twoPlayers : Text :=
  "<Audio voices=\x7b[\x7b\"id\": \"ada\", \"url\": \"https://cdn/ada.mp3\"\x7d]\x7d />\n\n".toList ++
    "<Audio voices=\x7b[\x7b\"id\": \"bob\", \"url\": \"https://cdn/bob.mp3\"\x7d]\x7d />\n".toList

/-- The voice of the second of them. -/
def bob : Voice := ⟨"bob".toList, [], "https://cdn/bob.mp3".toList⟩

/-- The audio of the second player of a document is not referred to. -/
theorem second_player_unreferenced : (∃ tree, (Tree.parse twoPlayers).outcome.1 = .ok tree ∧ ∃ node ∈ tree.walk, ∃ attributes a,
      node.component? "Audio".toList = some attributes ∧ attributes.find? (·.name = voicesAttribute) = some a ∧
      (Voice.ofPayload a.value).outcome.1 = .ok [bob]) ∧
    bob.url ≠ [] ∧ keyOf cdnLayout bob.url = .ok "bob.mp3".toList ∧
    ((referencedBy (keyOf cdnLayout) (.str "Audio".toList) ([twoPlayers].map pure)).after cdnStudio).1 = .ok ["ada.mp3".toList] := by
  refine ⟨?_, by decide, by decide, Fallible.toOption_eq_some.1 (by decide +kernel)⟩
  have hplayers : (Tree.parse twoPlayers).outcome.1.toOption.any fun tree => tree.walk.any fun node =>
      (node.component? "Audio".toList).any fun attributes => (attributes.find? (·.name = voicesAttribute)).any fun a =>
        (Voice.ofPayload a.value).outcome.1.toOption = some [bob] := by decide +kernel
  obtain ⟨tree, htree, hplayers⟩ := Fallible.exists_of_any hplayers
  obtain ⟨node, hnode, hplayer⟩ := List.any_eq_true.1 hplayers
  obtain ⟨attributes, hattributes, hplayer⟩ := Option.any_eq_true _ _ |>.1 hplayer
  obtain ⟨a, ha, hvoices⟩ := Option.any_eq_true _ _ |>.1 hplayer
  exact ⟨tree, htree, node, hnode, attributes, a, hattributes, ha, Fallible.toOption_eq_some.1 (of_decide_eq_true hvoices)⟩

end Reconcile
end Narration
