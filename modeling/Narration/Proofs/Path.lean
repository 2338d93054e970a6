import Narration.Files
import Narration.Proofs.Fallible
import Narration.Proofs.Text.Lines

/-!
# Paths and places

A path leads to the segments that are left when all its steps back have been taken, if it leads anywhere. A path as seen
from a directory leads, inside that directory, where it led before.

* `Path.segments_append_cons`, `Path.segments_join` : the segments of paths that are put together;
* `Path.normal_join_relative` : a path as seen from a directory, and back;
* `Files.resolve_eq_normal` : where a path leads.
-/

namespace Narration

namespace Text

theorem splitOn_append_cons (c : Char) (t u : Text) : splitOn c (t ++ c :: u) = splitOn c t ++ splitOn c u := by
  induction t with
  | nil => exact splitOn_cons_self c u
  | cons d t ih =>
    by_cases hd : d = c
    · rw [hd, List.cons_append, splitOn_cons_self, splitOn_cons_self, ih, List.cons_append]
    · obtain ⟨piece, rest, hsplit⟩ := List.exists_cons_of_ne_nil (splitOn_ne_nil c t)
      rw [hsplit] at ih
      rw [List.cons_append, splitOn_cons_of_ne hd ih, splitOn_cons_of_ne hd hsplit]
      rfl

theorem notMem_of_mem_splitOn {c : Char} {t piece : Text} (h : piece ∈ splitOn c t) : c ∉ piece := by
  induction t generalizing piece with
  | nil =>
    rw [List.mem_singleton.1 h]
    exact List.not_mem_nil
  | cons d t ih =>
    by_cases hd : d = c
    · rw [hd, splitOn_cons_self] at h
      rcases List.mem_cons.1 h with rfl | h
      · exact List.not_mem_nil
      · exact ih h
    · obtain ⟨first, rest, hsplit⟩ := List.exists_cons_of_ne_nil (splitOn_ne_nil c t)
      rw [splitOn_cons_of_ne hd hsplit] at h
      rw [hsplit] at ih
      rcases List.mem_cons.1 h with rfl | h
      · exact List.not_mem_cons_of_ne_of_not_mem (Ne.symm hd) (ih List.mem_cons_self)
      · exact ih (List.mem_cons_of_mem _ h)

end Text

namespace Path

theorem segments_append_cons (t u : Text) : segments (t ++ '/' :: u) = segments t ++ segments u := by
  rw [segments, Text.splitOn_append_cons, List.filter_append, segments, segments]

theorem segments_of_notMem {name : Text} (h : '/' ∉ name) :
    segments name = if name = [] ∨ name = ['.'] then [] else [name] := by
  rw [segments, Text.splitOn_of_notMem h, List.filter_singleton]
  cases name with
  | nil => rfl
  | cons c name => by_cases hdot : c :: name = ['.'] <;> simp [hdot]

theorem mem_segments {path s : Text} (h : s ∈ segments path) : s ≠ [] ∧ s ≠ ['.'] ∧ '/' ∉ s := by
  obtain ⟨hs, hname⟩ := List.mem_filter.1 h
  rw [Bool.and_eq_true, Bool.not_eq_true', List.isEmpty_eq_false_iff, decide_eq_true_iff] at hname
  exact ⟨hname.1, hname.2, Text.notMem_of_mem_splitOn hs⟩

/-- A segment that names something. -/
def IsSegment (s : Text) : Prop := s ≠ [] ∧ s ≠ ['.'] ∧ '/' ∉ s

theorem segments_of_isSegment {s : Text} (h : IsSegment s) : segments s = [s] := by
  rw [segments_of_notMem h.2.2, if_neg (not_or.2 ⟨h.1, h.2.1⟩)]

theorem segments_join {ss : List Text} (h : ∀ s ∈ ss, IsSegment s) : segments (Text.join ['/'] ss) = ss := by
  induction ss with
  | nil => rfl
  | cons s ss ih =>
    obtain ⟨hs, hss⟩ := List.forall_mem_cons.1 h
    by_cases hnil : ss = []
    · rw [hnil, Text.join_singleton, segments_of_isSegment hs]
    · rw [Text.join_cons _ _ hnil, List.append_assoc, List.singleton_append, segments_append_cons, segments_of_isSegment hs, ih hss,
        List.singleton_append]

theorem head?_join {ss : List Text} (h : ∀ s ∈ ss, IsSegment s) : (Text.join ['/'] ss).head? ≠ some '/' := by
  cases ss with
  | nil => exact nofun
  | cons s ss =>
    obtain ⟨hempty, -, hslash⟩ := h s List.mem_cons_self
    obtain ⟨c, t, rfl⟩ := List.exists_cons_of_ne_nil hempty
    have hc : c ≠ '/' := fun hc => hslash (hc ▸ List.mem_cons_self)
    by_cases hnil : ss = []
    · rw [hnil, Text.join_singleton]
      exact fun h => hc (Option.some.inj h)
    · rw [Text.join_cons _ _ hnil]
      exact fun h => hc (Option.some.inj h)

/-- A path inside a directory, unless it starts at the root, has the segments of both. -/
theorem segments_pathJoin {path : Text} (h : path.head? ≠ some '/') (directory : Text) :
    segments (join directory path) = segments directory ++ segments path := by
  rw [join, if_neg h]
  split
  · next hend =>
    rcases Bool.or_eq_true_iff.1 hend with hempty | hslash
    · rw [List.isEmpty_iff.1 hempty]
      rfl
    · obtain ⟨above, rfl⟩ := List.getLast?_eq_some_iff.1 (of_decide_eq_true hslash)
      have hnil : segments [] = [] := rfl
      rw [List.append_assoc, List.singleton_append, segments_append_cons, segments_append_cons, hnil, List.append_nil]
  · exact segments_append_cons directory path

/-! ## Steps back -/

theorem mem_foldl_enter {ss entered : List Text} {s : Text} (h : s ∈ ss.foldl enter entered) :
    s ∈ entered ∨ s ∈ ss ∧ s ≠ up := by
  induction ss generalizing entered with
  | nil => exact .inl h
  | cons t ss ih =>
    rcases ih h with h | ⟨h, hup⟩
    · unfold enter at h
      split at h
      · exact .inl (List.mem_of_mem_drop h)
      · next ht =>
        rcases List.mem_cons.1 h with rfl | h
        · exact .inr ⟨List.mem_cons_self, ht⟩
        · exact .inl h
    · exact .inr ⟨List.mem_cons_of_mem t h, hup⟩

/-- Where a path leads, no step back is left. -/
theorem mem_normal {path s : Text} (h : s ∈ normal path) : IsSegment s ∧ s ≠ up := by
  rcases mem_foldl_enter (List.mem_reverse.1 h) with h | ⟨h, hup⟩
  · cases h
  · exact ⟨mem_segments h, hup⟩

theorem foldl_enter_up (ss entered : List Text) : (ss.map fun _ => up).foldl enter entered = entered.drop ss.length := by
  induction ss generalizing entered with
  | nil => rfl
  | cons s ss ih =>
    have hup : enter entered up = entered.drop 1 := if_pos rfl
    rw [List.map_cons, List.foldl_cons, hup, ih, List.drop_drop, List.length_cons, Nat.add_comm]

theorem foldl_enter_names {ss : List Text} (h : ∀ s ∈ ss, s ≠ up) (entered : List Text) :
    ss.foldl enter entered = ss.reverse ++ entered := by
  induction ss generalizing entered with
  | nil => rfl
  | cons s ss ih =>
    obtain ⟨hs, hss⟩ := List.forall_mem_cons.1 h
    have hname : enter entered s = s :: entered := if_neg hs
    rw [List.foldl_cons, hname, ih hss, List.reverse_cons, List.append_assoc, List.singleton_append]

theorem normal_join {path : Text} (h : path.head? ≠ some '/') (directory : Text) :
    normal (join directory path) = ((segments path).foldl enter (normal directory).reverse).reverse := by
  rw [normal, segments_pathJoin h, List.foldl_append, normal, List.reverse_reverse]

/-! ## Paths as seen from a directory -/

theorem withoutCommon_eq (as bs : List Text) :
    ∃ common, as = common ++ (withoutCommon as bs).1 ∧ bs = common ++ (withoutCommon as bs).2 := by
  induction as generalizing bs with
  | nil => exact ⟨[], by cases bs <;> rfl, by cases bs <;> rfl⟩
  | cons a as ih =>
    cases bs with
    | nil => exact ⟨[], rfl, rfl⟩
    | cons b bs =>
      rw [withoutCommon]
      split
      · next hab =>
        obtain ⟨common, has, hbs⟩ := ih bs
        exact ⟨a :: common, congrArg (a :: ·) has, by rw [List.cons_append, ← hbs, hab]⟩
      · exact ⟨[], rfl, rfl⟩

/-- Only where a path leads matters for how it is seen. -/
theorem relative_congr {path path' : Text} (h : normal path = normal path') (directory : Text) :
    relative path directory = relative path' directory := by
  rw [relative, relative, h]

theorem segments_relative (path directory : Text) : (relative path directory).head? ≠ some '/' ∧
    segments (relative path directory) = (withoutCommon (normal path) (normal directory)).2.map (fun _ => up) ++
      (withoutCommon (normal path) (normal directory)).1 := by
  obtain ⟨common, hpath, -⟩ := withoutCommon_eq (normal path) (normal directory)
  have hsegments : ∀ s ∈ (withoutCommon (normal path) (normal directory)).2.map (fun _ => up) ++
      (withoutCommon (normal path) (normal directory)).1, IsSegment s := by
    intro s hs
    rcases List.mem_append.1 hs with hs | hs
    · obtain ⟨_, -, rfl⟩ := List.mem_map.1 hs
      exact ⟨by decide, by decide, by decide⟩
    · have hmem : s ∈ normal path := hpath ▸ List.mem_append_right common hs
      exact (mem_normal hmem).1
  rw [relative]
  dsimp only
  split
  · next hempty =>
    rw [List.isEmpty_iff.1 hempty]
    exact ⟨by decide, rfl⟩
  · exact ⟨head?_join hsegments, segments_join hsegments⟩

/-- A path as seen from a directory leads, inside that directory, where it led before. -/
theorem normal_join_relative (path directory : Text) : normal (join directory (relative path directory)) = normal path := by
  obtain ⟨hhead, hsegments⟩ := segments_relative path directory
  obtain ⟨common, hpath, hdirectory⟩ := withoutCommon_eq (normal path) (normal directory)
  rw [normal_join hhead, hsegments]
  generalize withoutCommon (normal path) (normal directory) = w at hpath hdirectory
  have hnames : ∀ s ∈ w.1, s ≠ up := by
    intro s hs
    have hmem : s ∈ normal path := hpath ▸ List.mem_append_right common hs
    exact (mem_normal hmem).2
  -- The steps back leave what both paths have in common.
  have hback : (common ++ w.2).reverse.drop w.2.length = common.reverse := by
    rw [List.reverse_append, ← List.length_reverse, List.drop_left]
  rw [hdirectory, List.foldl_append, foldl_enter_up, foldl_enter_names hnames, hback, List.reverse_append, List.reverse_reverse,
    List.reverse_reverse, hpath]

end Path

/-! ## Where a path leads -/

namespace Files

variable {f : Files} {place place' : List Text}

theorem step_eq_ok {segment : Text} (h : f.step place segment = .ok place') :
    place' = if segment.isEmpty || segment = ['.'] then place else (Path.enter place.reverse segment).reverse := by
  unfold step at h
  split at h
  · cases h
  · cases h
  · split at h
    · next hstay =>
      cases h
      rw [if_pos hstay]
    · next hmove =>
      rw [if_neg hmove]
      split at h
      · next hup =>
        split at h
        · cases h
        · cases h
          rw [hup, Path.enter, if_pos rfl, List.drop_one, List.tail_reverse, List.reverse_reverse]
      · next hup =>
        cases h
        rw [Path.enter, if_neg hup, List.reverse_cons, List.reverse_reverse]

theorem foldlM_step_eq_ok {ss : List Text} (h : ss.foldlM f.step place = .ok place') :
    place' = ((ss.filter fun s => !s.isEmpty && s ≠ ['.']).foldl Path.enter place.reverse).reverse := by
  induction ss generalizing place with
  | nil =>
    cases h
    exact (List.reverse_reverse _).symm
  | cons s ss ih =>
    rw [List.foldlM_cons] at h
    obtain ⟨next, hstep, h⟩ := Fallible.bind_eq_ok.1 h
    have hnot : (!s.isEmpty && decide (s ≠ ['.'])) = !(s.isEmpty || decide (s = ['.'])) := by rw [Bool.not_or, decide_not]
    rw [ih h, step_eq_ok hstep, List.filter_cons, hnot]
    cases s.isEmpty || decide (s = ['.']) with
    | true => rfl
    | false =>
      rw [if_neg Bool.false_ne_true, List.reverse_reverse]
      rfl

/-- A path leads to the segments that are left when all steps back have been taken, or nowhere. -/
theorem resolve_eq_normal {path : Text} (h : f.resolve path = .ok place) : place = Path.normal path := by
  unfold resolve at h
  split at h
  · cases h
  · exact foldlM_step_eq_ok h

end Files
end Narration
