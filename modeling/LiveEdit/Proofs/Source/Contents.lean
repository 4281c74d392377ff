import LiveEdit.Proofs.Source.Changes
import Mathlib.Data.List.Dedup
import Mathlib.Data.List.Induction
import Mathlib.Data.List.Perm.Subperm

/-! A document set is a map: it has one source, or none, at each path. -/
namespace LiveEdit

/-- All that counts of a document at its path. -/
structure Source where
  project : String
  checksum : Digest
  generated : Bool
  deriving DecidableEq

def Document.source (d : Document) : Source := ⟨d.project, d.checksum, d.generated⟩

/-- What there is at each path. -/
abbrev Contents := SourcePath → Option Source

def DocumentSet.contents (s : DocumentSet) : Contents := fun p => (s.find? p).map Document.source

def DocumentSet.paths (s : DocumentSet) : List SourcePath := s.toList.map Document.path

variable {s t older newer : DocumentSet} {d e : Document} {p q : SourcePath}

theorem Document.sameSource_iff : d.SameSource e ↔ d.source = e.source := by
  simp only [SameSource, source, Source.mk.injEq]
  constructor
  · rintro ⟨hsum, hproject, hgenerated⟩
    exact ⟨hproject, hsum, hgenerated⟩
  · rintro ⟨hproject, hsum, hgenerated⟩
    exact ⟨hsum, hproject, hgenerated⟩

theorem find?_insertByPath (ds : List Document) :
    (insertByPath d ds).find? (·.path = p) =
      if p = d.path then some d else ds.find? (·.path = p) := by
  induction ds with
  | nil => by_cases hp : p = d.path <;> simp [insertByPath, hp, eq_comm]
  | cons e ds ih =>
    rw [insertByPath]
    split
    next => by_cases hp : p = d.path <;> simp [List.find?_cons, hp, eq_comm]
    next =>
      split
      next he => by_cases hp : p = d.path <;> simp [hp, eq_comm, ← he]
      next he =>
        rw [List.find?_cons, List.find?_cons, ih]
        by_cases hp : p = e.path
        · simp [hp, Ne.symm he]
        · simp [Ne.symm hp]

namespace DocumentSet

theorem find?_insert : (s.insert d).find? p = if p = d.path then some d else s.find? p :=
  find?_insertByPath s.toList

theorem find?_erase : (s.erase q).find? p = if p = q then none else s.find? p := by
  rw [find?, find?, erase, List.find?_filter]
  split
  next hp => simp [hp]
  next hp =>
    congr 1
    funext d
    by_cases hd : d.path = p <;> simp [hd, hp]

theorem ofList_concat (ds : List Document) : ofList (ds ++ [d]) = (ofList ds).insert d :=
  List.foldl_concat ..

/-- Of several documents with one path the last counts. -/
theorem find?_ofList (ds : List Document) : (ofList ds).find? p = ds.findRev? (·.path = p) := by
  induction ds using List.reverseRecOn with
  | nil => rfl
  | append_singleton ds d ih =>
    rw [ofList_concat, find?_insert, ih, List.findRev?_eq_find?_reverse,
      List.findRev?_eq_find?_reverse]
    by_cases hp : p = d.path <;> simp [hp, eq_comm]

theorem mem_paths : p ∈ s.paths ↔ s.contents p ≠ none := by
  rw [paths, List.mem_map, contents, Ne, Option.map_eq_none_iff, find?, List.find?_eq_none]
  simp

theorem nodup_paths : s.paths.Nodup :=
  List.pairwise_map.mpr (s.ordered.imp SourcePath.ne_of_lt)

theorem mem_paths_ofList {ds : List Document} :
    p ∈ (ofList ds).paths ↔ p ∈ ds.map Document.path := by
  rw [mem_paths, contents, Ne, Option.map_eq_none_iff, find?_ofList,
    List.findRev?_eq_find?_reverse, List.find?_eq_none, List.mem_map]
  simp

/-- A set made from a list has one document for each path in the list. -/
theorem size_ofList (ds : List Document) :
    (ofList ds).size = (ds.map Document.path).dedup.length := by
  have hperm : (ofList ds).paths.Perm (ds.map Document.path).dedup :=
    (List.perm_ext_iff_of_nodup nodup_paths (List.nodup_dedup _)).mpr fun p => by
      rw [mem_paths_ofList, List.mem_dedup]
  simpa [paths, size] using hperm.length_eq

theorem contents_of_mem (hd : d ∈ s.toList) : s.contents d.path = some d.source := by
  rw [contents, find?_self hd]
  rfl

theorem exists_of_contents {c : Source} (h : s.contents p = some c) :
    ∃ d, s.find? p = some d ∧ d ∈ s.toList ∧ d.path = p ∧ d.source = c := by
  obtain ⟨d, hd, hc⟩ := Option.map_eq_some_iff.mp h
  exact ⟨d, hd, (mem_of_find? hd).1, (mem_of_find? hd).2, hc⟩

/--
Two sets of one size have the same contents if one has all sources of the other: paths do not
repeat, so none is left over.
-/
theorem sameSources_iff : s.SameSources t ↔ s.contents = t.contents := by
  constructor
  · rintro ⟨hsize, hall⟩
    have hsub : s.paths ⊆ t.paths := by
      intro p hp
      obtain ⟨d, hd, rfl⟩ := List.mem_map.mp hp
      obtain ⟨e, he, -⟩ := hall d hd
      obtain ⟨he, hpath⟩ := mem_of_find? he
      exact List.mem_map.mpr ⟨e, he, hpath⟩
    have hlength : t.paths.length ≤ s.paths.length := by
      rw [paths, paths, List.length_map, List.length_map]
      exact Nat.le_of_eq hsize.symm
    have hperm := (nodup_paths.subperm hsub).perm_of_length_le hlength
    funext p
    cases hf : s.find? p with
    | none =>
      have hs : p ∉ s.paths := by
        rw [mem_paths, contents, hf]
        simp
      have ht : t.contents p = none := not_not.mp fun h => hs (hperm.mem_iff.mpr (mem_paths.mpr h))
      rw [ht, contents, hf]
      rfl
    | some d =>
      obtain ⟨hd, rfl⟩ := mem_of_find? hf
      obtain ⟨e, he, hsame⟩ := hall d hd
      rw [contents_of_mem hd, contents, he]
      exact congrArg some (Document.sameSource_iff.mp hsame).symm
  · intro h
    have hperm : s.paths.Perm t.paths :=
      (List.perm_ext_iff_of_nodup nodup_paths nodup_paths).mpr fun p => by
        rw [mem_paths, mem_paths, h]
    refine ⟨?_, fun d hd => ?_⟩
    · simpa [paths, size] using hperm.length_eq
    · obtain ⟨e, he, -, -, hsource⟩ := exists_of_contents (h ▸ contents_of_mem hd)
      exact ⟨e, he, Document.sameSource_iff.mpr hsource⟩

theorem arrival?_eq_none : older.arrival? d = none ↔ older.contents d.path = some d.source := by
  rw [arrival?, contents]
  cases older.find? d.path with
  | none => simp
  | some e => simp [Document.sameSource_iff]

theorem departure?_eq_none : newer.departure? d = none ↔ newer.contents d.path ≠ none := by
  rw [departure?, contents]
  cases newer.find? d.path <;> simp

/-- Nothing changes only between sets with the same contents. -/
theorem changesTo_eq_nil_iff : older.changesTo newer = [] ↔ older.contents = newer.contents := by
  have hnil : older.changesTo newer = [] ↔ (∀ d ∈ newer.toList, older.arrival? d = none) ∧
      ∀ d ∈ older.toList, newer.departure? d = none := by
    simp only [List.eq_nil_iff_forall_not_mem, mem_changesTo, Option.eq_none_iff_forall_ne_some]
    grind
  simp only [hnil, arrival?_eq_none, departure?_eq_none]
  constructor
  · rintro ⟨harrived, hstayed⟩
    funext p
    cases hnew : newer.contents p with
    | some c =>
      obtain ⟨d, -, hd, rfl, rfl⟩ := exists_of_contents hnew
      exact harrived d hd
    | none =>
      cases hold : older.contents p with
      | none => rfl
      | some c =>
        obtain ⟨d, -, hd, rfl, -⟩ := exists_of_contents hold
        exact absurd hnew (hstayed d hd)
  · intro h
    refine ⟨fun d hd => h ▸ contents_of_mem hd, fun d hd => ?_⟩
    rw [← h, contents_of_mem hd]
    exact Option.some_ne_none _

end DocumentSet

end LiveEdit
