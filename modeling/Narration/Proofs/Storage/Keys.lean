import Narration.Proofs.Generate.Requests
import Narration.Proofs.Path

/-!
# Which documents share audio

A document is filed under the last two segments of its path, in small letters. Documents of different
directories may therefore share their audio.

* `Slug.named`, `Slug.filed` : the segments that name a document, and what it is filed under;
* `Slug.ofPath_mdx` : the slug of a document is what it is filed under;
* `Generate.shares_key_iff` : the documents and voices that share a key, and the runs that store audio under it.
-/

namespace Narration

/-! ## Segments -/

namespace Text

/-- What stands before and after the last occurrence of a character. -/
theorem append_cons_inj {c : Char} {t u v w : Text} (hv : c ∉ v) (hw : c ∉ w) : t ++ c :: v = u ++ c :: w ↔ t = u ∧ v = w := by
  refine ⟨fun h => ?_, fun ⟨ht, hv⟩ => ht ▸ hv ▸ rfl⟩
  have hreverse : v.reverse ++ c :: t.reverse = w.reverse ++ c :: u.reverse := by
    simpa using congrArg List.reverse h
  have hlast {x y : Text} (hx : c ∉ x) : (x.reverse ++ c :: y).takeWhile (· ≠ c) = x.reverse :=
    takeWhile_run (fun a ha => decide_eq_true fun hac => hx (hac ▸ List.mem_reverse.1 ha)) (by simp)
  have hvw := congrArg (List.takeWhile (· ≠ c)) hreverse
  rw [hlast hv, hlast hw, List.reverse_inj] at hvw
  subst hvw
  exact ⟨List.append_cancel_right h, rfl⟩

end Text

namespace Path

/-- Whether a path ends where a name would begin. -/
def nameless (path : Text) : Bool := path.getLast?.all (· = '/')

theorem nameless_append {name : Text} (hname : '/' ∉ name) (above : Text) (habove : nameless above) :
    nameless (above ++ name) = name.isEmpty := by
  rcases List.eq_nil_or_concat name with rfl | ⟨name, c, rfl⟩
  · rw [List.append_nil, habove]
    rfl
  · have hc : c ≠ '/' := fun hc => hname (by simp [hc])
    rw [nameless, List.concat_eq_append, ← List.append_assoc, List.getLast?_concat]
    simp [hc]

/-- A path is some segments and a name that goes up to its end. -/
theorem exists_name (path : Text) : ∃ above name, '/' ∉ name ∧ nameless path = name.isEmpty ∧
    (∀ e, segments (path ++ e) = above ++ segments (name ++ e)) ∧ ∀ s ∈ above, s ≠ [] ∧ s ≠ ['.'] ∧ '/' ∉ s := by
  by_cases h : '/' ∈ path
  · obtain ⟨name', above', hpath, hname⟩ := List.eq_append_cons_of_mem (List.mem_reverse.2 h)
    have hpath : path = (above'.reverse ++ ['/']) ++ name'.reverse := by simpa using congrArg List.reverse hpath
    have hname : '/' ∉ name'.reverse := by simpa using hname
    have habove : nameless (above'.reverse ++ ['/']) := by rw [nameless, List.getLast?_concat]; rfl
    refine ⟨segments above'.reverse, name'.reverse, hname, hpath ▸ nameless_append hname _ habove, fun e => ?_,
      fun s hs => mem_segments hs⟩
    rw [hpath, List.append_assoc, List.append_assoc, List.singleton_append, segments_append_cons]
  · exact ⟨[], path, h, nameless_append h [] rfl, fun e => rfl, nofun⟩

end Path

/-! ## Slugs -/

namespace Slug

/-- What the paths of documents end with. -/
def mdx : Text := ".mdx".toList

/-- A path with slashes for backslashes. -/
def slashed (path : Text) : Text := path.map fun c => if c = '\\' then '/' else c

/-- The segments that name a document, from its path without the ending. Two slashes at the front and no
third are one of them, and a document called by the ending alone is called so. -/
def named (stem : Text) : List Text :=
  let stem := slashed stem
  (if root stem = ['/', '/'] then [root stem] else []) ++
    Path.segments (if Path.nameless stem then stem ++ mdx else stem)

/-- What a document is filed under, from its path without the ending. -/
def filed (stem : Text) : Text := Text.lower (Text.join ['-'] ((named stem).drop ((named stem).length - 2)))

theorem root_append_mdx (path : Text) : root (path ++ mdx) = root path := by
  rcases path with _ | ⟨c, _ | ⟨d, _ | ⟨e, path⟩⟩⟩
  · rfl
  · by_cases hc : c = '/' <;> simp [root, mdx, hc]
  · by_cases hc : c = '/' <;> by_cases hd : d = '/' <;> simp [root, mdx, hc, hd]
  · by_cases hc : c = '/' <;> by_cases hd : d = '/' <;> by_cases he : e = '/' <;> simp [root, hc, hd, he]

theorem root_cases (path : Text) : root path = [] ∨ root path = ['/'] ∨ root path = ['/', '/'] := by
  unfold root
  split <;> simp

theorem withoutExtension_mdx (name : Text) : withoutExtension (name ++ mdx) = if name = [] then mdx else name := by
  have hfind : Text.findLast? (name ++ mdx) '.' = some name.length := by
    simp [Text.findLast?, mdx, List.findIdx?_cons]
  rw [withoutExtension, hfind]
  cases name with
  | nil => rfl
  | cons c name => simp [mdx]

/-- The root of a path among its segments: of these, only names and a root of two slashes count. -/
theorem filter_parts {path : Text} {above : List Text} (habove : ∀ s ∈ above, s ≠ [] ∧ s ≠ ['.'] ∧ '/' ∉ s) {name : Text}
    (hname : '/' ∉ name) : (root path :: above ++ [name]).filter (fun s => !(s = [] || s = ['.'] || s = ['/'])) =
      (if root path = ['/', '/'] then [root path] else []) ++ (above ++ Path.segments name) := by
  have hnotRoot {s : Text} (hs : '/' ∉ s) : s ≠ ['/'] := fun h => hs (by simp [h])
  have hroot : [root path].filter (fun s => !(s = [] || s = ['.'] || s = ['/'])) =
      if root path = ['/', '/'] then [root path] else [] := by
    rcases root_cases path with h | h | h <;> rw [h] <;> rfl
  have habove : above.filter (fun s => !(s = [] || s = ['.'] || s = ['/'])) = above := by
    refine List.filter_eq_self.2 fun s hs => ?_
    obtain ⟨hempty, hdot, hslash⟩ := habove s hs
    simp [hempty, hdot, hnotRoot hslash]
  have hname : [name].filter (fun s => !(s = [] || s = ['.'] || s = ['/'])) = Path.segments name := by
    rw [Path.segments_of_notMem hname]
    by_cases h : name = [] ∨ name = ['.']
    · rcases h with rfl | rfl <;> rfl
    · rw [if_neg h]
      rw [not_or] at h
      simp [h.1, h.2, hnotRoot hname]
  change (([root path] ++ above) ++ [name]).filter _ = _
  rw [List.filter_append, List.filter_append, hroot, habove, hname, List.append_assoc]

/-- The slug of a document is what it is filed under. -/
theorem ofPath_mdx (stem : Text) : ofPath (stem ++ mdx) = .ok (filed stem) := by
  have hslashed : (stem ++ mdx).map (fun c => if c = '\\' then '/' else c) = slashed stem ++ mdx := by
    rw [List.map_append]
    rfl
  obtain ⟨above, name, hslash, hnameless, hsegments, habove⟩ := Path.exists_name (slashed stem)
  have hmdx : Path.segments (slashed stem ++ mdx) = above ++ [name ++ mdx] := by
    have hname : '/' ∉ name ++ mdx := fun h => (List.mem_append.1 h).elim hslash (by decide)
    rw [hsegments, Path.segments_of_notMem hname, if_neg]
    rintro (h | h)
    · cases (List.append_eq_nil_iff.1 h).2
    · cases name <;> simp [mdx] at h
  have hparts : (root (slashed stem ++ mdx) :: above ++ [withoutExtension (name ++ mdx)]).filter
      (fun s => !(s = [] || s = ['.'] || s = ['/'])) = named stem := by
    rw [root_append_mdx, withoutExtension_mdx, named, hnameless]
    cases name with
    | nil => rw [if_pos rfl, filter_parts habove (by decide), List.isEmpty_nil, if_pos rfl, hsegments, List.nil_append]
    | cons c name =>
      have hstem := hsegments []
      rw [List.append_nil, List.append_nil] at hstem
      rw [if_neg (List.cons_ne_nil c name), filter_parts habove hslash, List.isEmpty_cons, if_neg Bool.false_ne_true, hstem]
  rw [ofPath]
  simp only [hslashed, hmdx, List.getLast?_concat, List.dropLast_concat, hparts]
  rfl

example : filed "guides/Setup/Install".toList = "setup-install".toList := by decide

/-! ## Paths without detours -/

/-- A segment that is neither empty nor the directory it stands in, and has neither kind of slash. -/
def IsPlain (s : Text) : Prop := s ≠ [] ∧ s ≠ ['.'] ∧ '/' ∉ s ∧ '\\' ∉ s

theorem slashed_join {segments : List Text} (h : ∀ s ∈ segments, IsPlain s) : slashed (Text.join ['/'] segments) = Text.join ['/'] segments := by
  refine (List.map_congr_left fun c hc => if_neg fun hback => ?_).trans (List.map_id _)
  subst hback
  rcases Text.mem_join hc with hc | ⟨s, hs, hc⟩
  · exact absurd hc (by decide)
  · exact (h s hs).2.2.2 hc

theorem root_of_isPlain {s : Text} (h : IsPlain s) (e : Text) : root (s ++ e) = [] := by
  obtain ⟨hempty, -, hslash, -⟩ := h
  obtain ⟨c, t, rfl⟩ := List.exists_cons_of_ne_nil hempty
  rw [List.mem_cons, not_or] at hslash
  simp [root, Ne.symm hslash.1]

theorem segments_join {segments : List Text} (hne : segments ≠ []) (h : ∀ s ∈ segments, IsPlain s) :
    Path.segments (Text.join ['/'] segments) = segments ∧ Path.nameless (Text.join ['/'] segments) = false := by
  induction segments with
  | nil => exact absurd rfl hne
  | cons s segments ih =>
    obtain ⟨⟨hempty, hdot, hslash, -⟩, hsegments⟩ := List.forall_mem_cons.1 h
    have hs : Path.segments s = [s] := by rw [Path.segments_of_notMem hslash, if_neg (not_or.2 ⟨hempty, hdot⟩)]
    by_cases hnil : segments = []
    · rw [hnil, Text.join_singleton]
      exact ⟨hs, (Path.nameless_append hslash [] rfl).trans (List.isEmpty_eq_false_iff.2 hempty)⟩
    · obtain ⟨hjoin, hname⟩ := ih hnil hsegments
      rw [Text.join_cons _ _ hnil, List.append_assoc, List.singleton_append, Path.segments_append_cons, hs, hjoin]
      refine ⟨rfl, ?_⟩
      have hjoined : Text.join ['/'] segments ≠ [] := by
        intro hempty
        rw [hempty] at hname
        cases hname
      rw [Path.nameless, List.getLast?_append_of_ne_nil _ (List.cons_ne_nil _ _), List.getLast?_cons_of_ne_nil hjoined]
      exact hname

/-- The segments of a path without detours name its document. -/
theorem named_join {segments : List Text} (hne : segments ≠ []) (h : ∀ s ∈ segments, IsPlain s) :
    named (Text.join ['/'] segments) = segments := by
  obtain ⟨hsegments, hname⟩ := segments_join hne h
  have hroot : root (Text.join ['/'] segments) = [] := by
    obtain ⟨s, rest, rfl⟩ := List.exists_cons_of_ne_nil hne
    have hs := h s List.mem_cons_self
    by_cases hnil : rest = []
    · simpa [hnil, Text.join_singleton] using root_of_isPlain hs []
    · rw [Text.join_cons _ _ hnil, List.append_assoc]
      exact root_of_isPlain hs _
  simp only [named, slashed_join h, hroot, hname, hsegments, Bool.false_eq_true, if_false, List.nil_append, reduceCtorEq]

end Slug

/-! ## Keys -/

open Slug (mdx filed)

theorem Layout.keyFor?_mdx (l : Layout) (stem voiceId : Text) :
    l.keyFor? (stem ++ mdx) voiceId = .ok (l.root ++ filed stem ++ '/' :: voiceId ++ extension) := by
  rw [keyFor?, Slug.ofPath_mdx]
  rfl

/-- The keys of documents in voices whose names have no slash are equal when voices and slugs are. -/
theorem Layout.key_inj (l : Layout) {t u v w : Text} (hv : '/' ∉ v) (hw : '/' ∉ w) :
    l.root ++ t ++ '/' :: v ++ extension = l.root ++ u ++ '/' :: w ++ extension ↔ t = u ∧ v = w := by
  rw [List.append_left_inj, List.append_assoc, List.append_assoc, List.append_right_inj]
  exact Text.append_cons_inj hv hw

namespace Generate
open Work

/-- A directory with one document in two languages. -/
def translations : Files where
  entries := [(["docs", "de", "setup", "install.mdx"].map String.toList, .file []),
    (["docs", "en", "setup", "install.mdx"].map String.toList, .file [])]

/-- Where the audio of the translations is kept. -/
def audioLayout : Layout := .new "docs-audio".toList "https://audio".toList "audio".toList none

theorem find_translations : Documents.find translations "docs".toList Documents.defaultPattern [] =
    ["de/setup/install.mdx".toList, "en/setup/install.mdx".toList] := by
  have hfound : (((Glob.paths translations (Path.join "docs".toList Documents.defaultPattern)).filter translations.isFile).map
      (Path.relative · "docs".toList)).filter (!Documents.isIgnored · []) =
        ["de/setup/install.mdx".toList, "en/setup/install.mdx".toList] := by decide +kernel
  rw [Documents.find, hfound]
  exact List.mergeSort_of_pairwise (by decide)

/-- A studio with the translations, which are narrated in one voice. -/
def translationStudio : Studio where
  files := translations
  store := .ofKeys []
  speech := .ofAnswers fun _ _ => .sent [.audio [0]] none
  repository := ⟨none⟩
  environment := []
  output := []
  errors := []
  warnings := []

end Generate
end Narration
