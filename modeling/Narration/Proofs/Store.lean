import Narration.Proofs.Fallible
import Narration.Storage.Store

/-!
# What becomes of the keys of a store

* `Store.after_upload` : what is asked for and kept when audio is stored;
* `Store.flatten_pieces`, `Store.mem_listed` : a listing tells the keys it is asked for, whatever the size of its pages;
* `Store.Pruned` : a store that has lost some keys of a list and no others;
* `Store.batchFault?`, `Store.deleted`, `Store.after_deleteBatch` : what becomes of one batch of keys;
* `Store.pruned_delete`, `Store.delete_eq_ok` : what is left when keys are deleted, and when all of it goes well;
* `Store.delete_course` : how far a deletion in batches gets, and what it leaves.
-/

namespace Narration.Store
open Fallible (after after_bind)

variable {α β : Type} {l : Layout} {root k : Text} {keys doomed : List Text} {size : Nat} {s s' s'' : Store}

/-- The store after a request that changes no keys. -/
def asked (s : Store) (r : Request) : Store := { s with requests := s.requests ++ [r] }

theorem after_modify (g : Store → Store) (f : Unit → Action β) (s : Store) : after (modify g >>= f) s = after (f ()) (g s) := rfl

theorem after_get (f : Store → Action β) (s : Store) : after (get >>= f) s = after (f s) s := rfl

theorem after_request (r : Request) (refusal : Refusal → Fault) (trouble : Behaviour → Option Trouble) (s : Store) :
    after (request r refusal trouble) s = (match trouble s.behaviour with
      | some t => .error (faultOf refusal t)
      | none => .ok (), s.asked r) := by
  rw [request, after_modify, after_get]
  dsimp only
  cases trouble s.behaviour <;> rfl

/-- Audio is asked to be stored, and is there when the service does not fail. -/
theorem after_upload (l : Layout) (key : Text) (content : List UInt8) (mediaType : Text) (s : Store) :
    after (upload l key content mediaType) s = match s.behaviour.put key with
      | some t => (.error (faultOf (.upload key) t), s.asked (.put l.bucket key content mediaType))
      | none => (.ok (l.publicUrl key), { s.asked (.put l.bucket key content mediaType) with keys := insert key s.keys }) := by
  rw [upload, after_bind, after_request]
  cases s.behaviour.put key <;> rfl

/-! ## Listings -/

theorem flatten_piecesFrom (hsize : 0 < size) (fuel : Nat) (keys : List Text) (hfuel : keys.length ≤ fuel) :
    (piecesFrom size fuel keys).flatten = keys := by
  induction fuel generalizing keys with
  | zero =>
    rw [List.eq_nil_of_length_eq_zero (Nat.le_zero.1 hfuel)]
    rfl
  | succ fuel ih =>
    unfold piecesFrom
    split
    · next hempty => rw [List.isEmpty_iff.1 hempty, List.flatten_nil]
    · next hempty =>
      have hpos : 0 < keys.length := List.length_pos_iff.2 (by simpa using hempty)
      have hrest : (keys.drop size).length ≤ fuel := by
        rw [List.length_drop]
        omega
      rw [List.flatten_cons, ih _ hrest, List.take_append_drop]

theorem flatten_pieces (hsize : 0 < size) (keys : List Text) : (pieces size keys).flatten = keys :=
  flatten_piecesFrom hsize keys.length keys (Nat.le_refl _)

theorem flatten_batches (keys : List Text) : (batches keys).flatten = keys := flatten_pieces (by decide) keys

/-- The keys of audio files below a root, as they are listed. -/
def listed (s : Store) (root : Text) : List Text := (s.pages root).flatMap (·.filter (Text.finishesWith · Layout.extension))

/-- How many keys a page has is not seen in a listing. -/
theorem listed_eq (s : Store) (root : Text) :
    s.listed root = (Text.sorted (s.keys.filter (Text.beginsWith · root))).filter (Text.finishesWith · Layout.extension) := by
  rw [listed, List.flatMap_def, ← List.filter_flatten, pages, flatten_pieces s.pageSize_pos]

theorem mem_listed : k ∈ s.listed root ↔ k ∈ s.keys ∧ Text.beginsWith k root ∧ Text.finishesWith k Layout.extension := by
  rw [listed_eq, List.mem_filter, Text.sorted, List.mem_mergeSort, List.mem_filter, and_assoc]

theorem after_list (l : Layout) (root : Text) (s : Store) : after (list l root) s = (match s.behaviour.list root with
      | some t => .error (faultOf (.listing root) t)
      | none => .ok (s.listed root), s.asked (.list l.bucket root)) := by
  rw [list, after_bind, after_request]
  cases s.behaviour.list root <;> rfl

/-! ## Deleting -/

/-- The store has lost some of the doomed keys and no others; what it is left with stands in order as before. -/
structure Pruned (doomed : List Text) (s s' : Store) : Prop where
  sublist : s'.keys.Sublist s.keys
  kept : ∀ k ∈ s.keys, k ∉ doomed → k ∈ s'.keys

theorem Pruned.of_keys (h : s'.keys = s.keys) : Pruned doomed s s' :=
  ⟨h ▸ List.Sublist.refl _, fun _ hk _ => h ▸ hk⟩

theorem Pruned.trans (h : Pruned doomed s s') (h' : Pruned doomed s' s'') : Pruned doomed s s'' :=
  ⟨h'.sublist.trans h.sublist, fun k hk hdoomed => h'.kept k (h.kept k hk hdoomed) hdoomed⟩

/-- The keys of a batch that the service keeps, each with its reason. -/
def refused (s : Store) (keys : List Text) : List (Text × Text) := keys.filterMap fun k => (s.behaviour.keep s.requests k).map (k, ·)

/-- The fault of a batch: its request fails, or the service keeps some of its keys. -/
def batchFault? (s : Store) (keys : List Text) : Option Fault :=
  match s.behaviour.delete s.requests keys with
  | some t => some (faultOf .deletion t)
  | none =>
    match s.refused keys with
    | [] => none
    | (key, reason) :: rest => some (.kept (rest.length + 1) key reason)

/-- The keys of a batch that are deleted: none when its request fails, else those that the service does not keep. -/
def deleted (s : Store) (keys : List Text) : List Text :=
  if (s.behaviour.delete s.requests keys).isSome then [] else keys.filter fun k => (s.behaviour.keep s.requests k).isNone

/-- The store without some keys. -/
def without (s : Store) (keys : List Text) : Store := { s with keys := s.keys.filter (!keys.contains ·) }

theorem without_nil (s : Store) : s.without [] = s := by
  rw [without]
  congr 1
  exact List.filter_eq_self.2 fun _ _ => rfl

theorem deleted_subset (s : Store) (keys : List Text) : s.deleted keys ⊆ keys := by
  rw [deleted]
  split
  · exact List.nil_subset keys
  · exact List.filter_subset_self keys

theorem batchFault?_eq_none : s.batchFault? keys = none ↔
    s.behaviour.delete s.requests keys = none ∧ ∀ k ∈ keys, s.behaviour.keep s.requests k = none := by
  have hrefused : s.refused keys = [] ↔ ∀ k ∈ keys, s.behaviour.keep s.requests k = none := by
    rw [refused, List.filterMap_eq_nil_iff]
    simp only [Option.map_eq_none_iff]
  rw [batchFault?, ← hrefused]
  cases s.behaviour.delete s.requests keys with
  | some t => simp
  | none => cases s.refused keys <;> simp

/-- A batch without a fault is deleted as a whole. -/
theorem deleted_of_batchFault? (h : s.batchFault? keys = none) : s.deleted keys = keys := by
  obtain ⟨hdelete, hkeep⟩ := batchFault?_eq_none.1 h
  rw [deleted, hdelete, if_neg (by decide)]
  exact List.filter_eq_self.2 fun k hk => by rw [hkeep k hk]; rfl

/-- A batch is asked to be deleted, and loses the keys that it is to lose, also when there is a fault. -/
theorem after_deleteBatch (l : Layout) (keys : List Text) (s : Store) :
    after (deleteBatch l keys) s = (match s.batchFault? keys with
      | some f => .error f
      | none => .ok keys.length, (s.without (s.deleted keys)).asked (.delete l.bucket keys)) := by
  rw [deleteBatch, after_get]
  dsimp only
  rw [after_bind, after_request]
  unfold batchFault? deleted
  cases hdelete : s.behaviour.delete s.requests keys with
  | some t => exact congrArg (Prod.mk _) (congrArg (asked · _) (without_nil s).symm)
  | none =>
    have hkeys : (s.keys.filter fun k => !(keys.contains k && (s.behaviour.keep s.requests k).isNone)) =
        (s.without (keys.filter fun k => (s.behaviour.keep s.requests k).isNone)).keys := by
      refine List.filter_congr fun k _ => congrArg (!·) ?_
      rw [Bool.eq_iff_iff]
      simp [List.mem_filter]
    dsimp only
    rw [after_get, after_modify]
    change after _ { s.asked (.delete l.bucket keys) with
      keys := s.keys.filter fun k => !(keys.contains k && (s.behaviour.keep s.requests k).isNone) } = _
    rw [hkeys]
    unfold refused asked
    dsimp only
    cases keys.filterMap fun k => (s.behaviour.keep s.requests k).map (k, ·) <;> rfl

theorem pruned_deleteBatch (hkeys : keys ⊆ doomed) (s : Store) : Pruned doomed s (after (deleteBatch l keys) s).2 := by
  rw [after_deleteBatch]
  refine ⟨List.filter_sublist, fun k hk hdoomed => List.mem_filter.2 ⟨hk, ?_⟩⟩
  have hnot : k ∉ s.deleted keys := fun hmem => hdoomed (hkeys (s.deleted_subset keys hmem))
  simpa using hnot

/-- A batch is deleted without a fault when the service keeps none of its keys. -/
theorem deleteBatch_eq_ok {n : Nat} (h : after (deleteBatch l keys) s = (.ok n, s')) :
    n = keys.length ∧ s'.keys = s.keys.filter (!keys.contains ·) := by
  rw [after_deleteBatch] at h
  cases hfault : s.batchFault? keys with
  | some f =>
    rw [hfault] at h
    cases h
  | none =>
    rw [hfault, deleted_of_batchFault? hfault] at h
    cases h
    exact ⟨rfl, rfl⟩

/-- The step of a deletion: one batch more. -/
def step (l : Layout) (n : Nat) (batch : List Text) : Action Nat := return n + (← deleteBatch l batch)

theorem after_step (l : Layout) (n : Nat) (batch : List Text) (f : Nat → Action α) (s : Store) :
    after (step l n batch >>= f) s = match after (deleteBatch l batch) s with
      | (.ok m, t) => after (f (n + m)) t
      | (.error e, t) => (.error e, t) := by
  rw [after_bind, step, after_bind]
  rcases after (deleteBatch l batch) s with ⟨e | m, t⟩ <;> rfl

theorem pruned_foldlM (batches : List (List Text)) (h : ∀ batch ∈ batches, batch ⊆ doomed) (n : Nat) (s : Store) :
    Pruned doomed s (after (batches.foldlM (step l) n) s).2 := by
  induction batches generalizing n s with
  | nil => exact .of_keys rfl
  | cons batch batches ih =>
    obtain ⟨hbatch, hbatches⟩ := List.forall_mem_cons.1 h
    have hpruned := pruned_deleteBatch (l := l) hbatch s
    rw [List.foldlM_cons, after_step]
    rcases hafter : after (deleteBatch l batch) s with ⟨e | m, s'⟩
    · rwa [hafter] at hpruned
    · rw [hafter] at hpruned
      exact hpruned.trans (ih hbatches (n + m) s')

theorem foldlM_eq_ok {batches : List (List Text)} {n m : Nat} (h : after (batches.foldlM (step l) n) s = (.ok m, s')) :
    m = n + batches.flatten.length ∧ s'.keys = s.keys.filter (!batches.flatten.contains ·) := by
  induction batches generalizing n s with
  | nil =>
    cases h
    exact ⟨rfl, (List.filter_eq_self.2 fun _ _ => rfl).symm⟩
  | cons batch batches ih =>
    rw [List.foldlM_cons, after_step] at h
    rcases hbatch : after (deleteBatch l batch) s with ⟨e | p, t⟩
    · rw [hbatch] at h
      cases h
    · rw [hbatch] at h
      obtain ⟨rfl, hkeys⟩ := deleteBatch_eq_ok hbatch
      obtain ⟨hm, hrest⟩ := ih h
      refine ⟨by rw [hm, List.flatten_cons, List.length_append, Nat.add_assoc], ?_⟩
      rw [hrest, hkeys, List.filter_filter, List.flatten_cons]
      refine List.filter_congr fun k _ => ?_
      rw [List.contains_append, Bool.not_or, Bool.and_comm]

/-- However a deletion ends, the store loses no key that was not to be deleted. -/
theorem pruned_delete (l : Layout) (keys : List Text) (s : Store) : Pruned keys s (after (delete l keys) s).2 := by
  refine pruned_foldlM (batches keys) (fun batch hbatch k hk => ?_) 0 s
  rw [← flatten_batches keys]
  exact List.mem_flatten_of_mem hbatch hk

/-- A deletion without a fault deletes all it is to delete. -/
theorem delete_eq_ok {n : Nat} (h : after (delete l keys) s = (.ok n, s')) :
    n = keys.length ∧ s'.keys = s.keys.filter (!keys.contains ·) := by
  have hfold : n = 0 + (batches keys).flatten.length ∧ s'.keys = s.keys.filter (!(batches keys).flatten.contains ·) := foldlM_eq_ok h
  rwa [flatten_batches, Nat.zero_add] at hfold

/-! ## The course of a deletion -/

/-- A fault that storage tells as its own. What else breaks in the client is passed on as it is. -/
def Fault.isOwn : Fault → Bool
  | .broken _ => false
  | _ => true

theorem batchFault?_isOwn {f : Fault} (h : s.batchFault? keys = some f)
    (htold : ∀ m, s.behaviour.delete s.requests keys ≠ some (.broken m)) : f.isOwn := by
  unfold batchFault? at h
  split at h
  · next t ht =>
    cases h
    cases t with
    | refused r => rfl
    | broken m => exact absurd ht (htold m)
  · split at h
    · cases h
    · cases h
      rfl

theorem without_without (s : Store) (keys keys' : List Text) : (s.without keys).without keys' = s.without (keys ++ keys') := by
  simp only [without, List.filter_filter, List.contains_append, Bool.not_or, Bool.and_comm]

/-- The store after requests to delete some batches, with the keys it had. -/
def sent (s : Store) (l : Layout) (batches : List (List Text)) : Store :=
  { s with requests := s.requests ++ batches.map (.delete l.bucket) }

theorem sent_nil (s : Store) (l : Layout) : s.sent l [] = s := by
  rw [sent, List.map_nil, List.append_nil]

theorem sent_cons (s : Store) (l : Layout) (batch : List Text) (batches : List (List Text)) :
    s.sent l (batch :: batches) = (s.asked (.delete l.bucket batch)).sent l batches := by
  simp only [sent, asked, List.map_cons, List.append_assoc, List.singleton_append]

theorem sent_concat (s : Store) (l : Layout) (batches : List (List Text)) (batch : List Text) :
    s.sent l (batches ++ [batch]) = (s.sent l batches).asked (.delete l.bucket batch) := by
  simp only [sent, asked, List.map_append, List.map_singleton, List.append_assoc]

/-- None of some batches, requested one after the other, is at fault. -/
def Clear (s : Store) (l : Layout) (batches : List (List Text)) : Prop :=
  ∀ before batch behind, batches = before ++ batch :: behind → (s.sent l before).batchFault? batch = none

theorem clear_cons {batch : List Text} {batches : List (List Text)} :
    s.Clear l (batch :: batches) ↔ s.batchFault? batch = none ∧ (s.asked (.delete l.bucket batch)).Clear l batches := by
  constructor
  · intro h
    refine ⟨?_, fun before b behind hb => ?_⟩
    · rw [← s.sent_nil l]
      exact h [] batch batches rfl
    · rw [← sent_cons]
      exact h (batch :: before) b behind (congrArg _ hb)
  · rintro ⟨hbatch, h⟩ before b behind hb
    cases before with
    | nil =>
      obtain ⟨rfl, -⟩ := List.cons.inj hb
      rwa [sent_nil]
    | cons b' before =>
      obtain ⟨rfl, hrest⟩ := List.cons.inj hb
      rw [sent_cons]
      exact h before b behind hrest

/-- Batches without a fault are requested in order and deleted. -/
theorem after_foldlM_clear (batches : List (List Text)) (h : s.Clear l batches) (n : Nat) :
    after (batches.foldlM (step l) n) s = (.ok (n + batches.flatten.length), (s.sent l batches).without batches.flatten) := by
  -- the keys that are gone do not bear on the faults of later batches, the requests made do
  have hkeys : ∀ gone : List Text, after (batches.foldlM (step l) n) (s.without gone) =
      (.ok (n + batches.flatten.length), (s.sent l batches).without (gone ++ batches.flatten)) := by
    induction batches generalizing s n with
    | nil =>
      intro gone
      rw [List.flatten_nil, List.append_nil, sent_nil]
      rfl
    | cons batch batches ih =>
      intro gone
      obtain ⟨hbatch, hrest⟩ := clear_cons.1 h
      have hfault : (s.without gone).batchFault? batch = none := hbatch
      have hgone : ((s.without gone).without batch).asked (.delete l.bucket batch) =
          (s.asked (.delete l.bucket batch)).without (gone ++ batch) := by
        rw [without_without]
        rfl
      rw [List.foldlM_cons, after_step, after_deleteBatch, hfault, deleted_of_batchFault? hfault, hgone]
      dsimp only
      rw [ih hrest (n + batch.length) (gone ++ batch), sent_cons, List.flatten_cons, List.length_append, Nat.add_assoc,
        List.append_assoc]
  have hall := hkeys []
  rwa [without_nil, List.nil_append] at hall

/-- The first batch at fault ends a deletion. -/
theorem after_foldlM_fault {before behind : List (List Text)} {batch : List Text} {f : Fault} (h : s.Clear l before)
    (hf : (s.sent l before).batchFault? batch = some f) (n : Nat) :
    after ((before ++ batch :: behind).foldlM (step l) n) s =
      (.error f, (s.sent l (before ++ [batch])).without (before.flatten ++ (s.sent l before).deleted batch)) := by
  have hfault : ((s.sent l before).without before.flatten).batchFault? batch = some f := hf
  have hgone : (((s.sent l before).without before.flatten).without ((s.sent l before).deleted batch)).asked (.delete l.bucket batch) =
      (s.sent l (before ++ [batch])).without (before.flatten ++ (s.sent l before).deleted batch) := by
    rw [without_without, sent_concat]
    rfl
  rw [List.foldlM_append, after_bind, after_foldlM_clear before h]
  dsimp only
  rw [List.foldlM_cons, after_step, after_deleteBatch, hfault, ← hgone]
  rfl

theorem after_delete_clear (h : s.Clear l (batches keys)) :
    after (delete l keys) s = (.ok keys.length, (s.sent l (batches keys)).without keys) := by
  have hrun := after_foldlM_clear _ h 0
  rwa [flatten_batches, Nat.zero_add] at hrun

theorem mem_piecesFrom {fuel : Nat} {piece : List Text} (hsize : 0 < size) (h : piece ∈ piecesFrom size fuel keys) :
    piece ≠ [] ∧ piece.length ≤ size := by
  induction fuel generalizing keys with
  | zero => cases h
  | succ fuel ih =>
    unfold piecesFrom at h
    split at h
    · cases h
    · next hempty =>
      rcases List.mem_cons.1 h with rfl | h
      · refine ⟨fun hnil => ?_, List.length_take_le size keys⟩
        rcases List.take_eq_nil_iff.1 hnil with hzero | hnil
        · exact absurd hzero (Nat.ne_of_gt hsize)
        · exact hempty (List.isEmpty_iff.2 hnil)
      · exact ih h

/-- Keys are deleted in order, in batches of at most 1000, up to the first batch that is at fault. Without a fault all keys
are gone. Else those of the batches before are, and those of the batch at fault that it loses; later ones are not asked for. -/
theorem delete_course (l : Layout) (keys : List Text) (s : Store) :
    (batches keys).flatten = keys ∧ (∀ batch ∈ batches keys, batch ≠ [] ∧ batch.length ≤ 1000) ∧
    (s.Clear l (batches keys) →
      after (delete l keys) s = (.ok keys.length, (s.sent l (batches keys)).without keys)) ∧
    ∀ before batch behind f, batches keys = before ++ batch :: behind → s.Clear l before →
      (s.sent l before).batchFault? batch = some f →
      after (delete l keys) s =
          (.error f, (s.sent l (before ++ [batch])).without (before.flatten ++ (s.sent l before).deleted batch)) ∧
        ((∀ m, s.behaviour.delete (s.sent l before).requests batch ≠ some (.broken m)) → f.isOwn) := by
  have hdelete : delete l keys = (batches keys).foldlM (step l) 0 := rfl
  refine ⟨flatten_batches keys, fun batch hbatch => mem_piecesFrom (by decide) hbatch, after_delete_clear, ?_⟩
  intro before batch behind f hbatches hclear hf
  rw [hdelete, hbatches]
  exact ⟨after_foldlM_fault hclear hf 0, batchFault?_isOwn hf⟩

/-- A store whose service keeps a key when it is asked to delete it in a second request. -/
def wearyStore : Store :=
  { ofKeys [['a'], ['b'], ['c'], ['d']] with
    behaviour := { Behaviour.sound with keep := fun earlier key => if earlier.length = 1 ∧ key = ['b'] then some "denied".toList else none } }

/-- One key a thousand times, and two more. -/
def wearyKeys : List Text := List.replicate 1000 ['a'] ++ [['b'], ['c']]

/-- A layout without a folder or a branch. -/
def bareLayout : Layout := .new "docs-audio".toList "https://cdn.example.com".toList [] none

theorem batches_wearyKeys : batches wearyKeys = [List.replicate 1000 ['a'], [['b'], ['c']]] := by decide +kernel

/-- The thousand repetitions are one batch, and the key that is kept leaves the other one of its batch to be deleted. -/
theorem delete_course_weary : ∃ s', after (delete bareLayout wearyKeys) wearyStore = (.error (.kept 1 ['b'] "denied".toList), s') ∧
    s'.keys = [['b'], ['d']] ∧ s'.requests.length = 2 := by
  have hclear : wearyStore.Clear bareLayout [List.replicate 1000 ['a']] := by
    refine clear_cons.2 ⟨by decide +kernel, fun before batch behind h => ?_⟩
    cases before <;> cases h
  have hrun := ((delete_course bareLayout wearyKeys wearyStore).2.2.2 _ _ [] (.kept 1 ['b'] "denied".toList) batches_wearyKeys
    hclear (by decide +kernel)).1
  refine ⟨_, hrun, ?_, rfl⟩
  decide +kernel
end Narration.Store
