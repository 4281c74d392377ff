import LiveEdit.Proofs.Text.Utf8
import LiveEdit.Tree.Scan
import Mathlib.Data.List.TakeDrop
import Mathlib.Data.List.TakeWhile

/-! Which ways the watch settings let a walk go, and which names are those of source files. -/
namespace LiveEdit

/-- A name ends in a dot and an extension, and does not start with this dot. -/
def HasExtension (name extension : FileName) : Prop :=
  ∃ stem, stem ≠ [] ∧ name = stem ++ 0x2e :: extension ∧ 0x2e ∉ extension

/-- The settings let a walk come upon a regular file at a way, and take it for a source file. -/
structure WatchSettings.Admits (settings : WatchSettings) (way : List FileName) : Prop where
  visible : ∀ name ∈ way, name.head? ≠ some 0x2e
  /-- It is folders alone that are left out for their names. -/
  entered : ∀ name ∈ way.dropLast, decodeUtf8Lossy name ∉ settings.ignoredDirs
  watched : settings.extensions = [] ∨ ∃ extension ∈ settings.extensions, ∃ name ∈ way.getLast?,
    HasExtension name extension.toUTF8.data.toList

variable {settings : WatchSettings} {name first extension stem : FileName} {way : List FileName}

theorem dotless (h : 0x2e ∉ name) : ∀ b ∈ name.reverse, decide (b ≠ 0x2e) = true := by
  intro b hb
  refine decide_eq_true fun hdot => h ?_
  rwa [← hdot, ← List.mem_reverse]

theorem extension?_of_notMem (h : 0x2e ∉ name) : extension? name = none := by
  have hrest : name.reverse.dropWhile (· ≠ 0x2e) = [] := List.dropWhile_eq_nil_iff.mpr (dotless h)
  rw [extension?, List.span_eq_takeWhile_dropWhile, hrest]
  rfl

theorem extension?_append (h : 0x2e ∉ extension) :
    extension? (stem ++ 0x2e :: extension) = if stem = [] then none else some extension := by
  have hreverse : (stem ++ 0x2e :: extension).reverse =
      extension.reverse ++ 0x2e :: stem.reverse := by simp
  have hshort : (0x2e :: stem.reverse).length < 2 ↔ stem = [] := by
    rw [List.length_cons, List.length_reverse, ← List.length_eq_zero_iff]
    omega
  rw [extension?, hreverse, List.span_eq_takeWhile_dropWhile,
    List.takeWhile_append_of_pos (dotless h), List.dropWhile_append_of_pos (dotless h)]
  simp only [List.takeWhile_cons, List.dropWhile_cons, ne_eq, not_true_eq_false, decide_false,
    Bool.false_eq_true, if_false, hshort, List.append_nil, List.reverse_reverse]

theorem extension?_eq_some_iff :
    extension? name = some extension ↔ HasExtension name extension := by
  constructor
  · intro h
    by_cases hdot : 0x2e ∈ name
    · obtain ⟨ending, start, hname, hending⟩ :=
        List.eq_append_cons_of_mem (List.mem_reverse.mpr hdot)
      have hname : name = start.reverse ++ 0x2e :: ending.reverse := by
        simpa using congrArg List.reverse hname
      have hending : 0x2e ∉ ending.reverse := mt List.mem_reverse.mp hending
      rw [hname, extension?_append hending] at h
      split at h
      next => cases h
      next hstart =>
        cases h
        exact ⟨_, hstart, hname, hending⟩
    · rw [extension?_of_notMem hdot] at h
      cases h
  · rintro ⟨stem, hstem, rfl, h⟩
    rw [extension?_append h, if_neg hstem]

namespace WatchSettings

theorem watches_iff : settings.watches name = true ↔ settings.extensions = [] ∨
    ∃ extension ∈ settings.extensions, HasExtension name extension.toUTF8.data.toList := by
  rw [watches, Bool.or_eq_true, List.isEmpty_iff, Option.any_eq_true]
  refine or_congr_right ⟨?_, ?_⟩
  · rintro ⟨extension, hext, hmem⟩
    obtain ⟨bytes, hbytes, htext⟩ := Option.bind_eq_some_iff.mp hext
    refine ⟨extension, List.contains_iff_mem.mp hmem, ?_⟩
    rw [decodeUtf8?_eq_some_iff.mp htext]
    exact extension?_eq_some_iff.mp hbytes
  · rintro ⟨extension, hmem, hext⟩
    refine ⟨extension, ?_, List.contains_iff_mem.mpr hmem⟩
    exact Option.bind_eq_some_iff.mpr
      ⟨_, extension?_eq_some_iff.mpr hext, decodeUtf8?_eq_some_iff.mpr rfl⟩

theorem ignores_iff : settings.ignores name = true ↔ decodeUtf8Lossy name ∈ settings.ignoredDirs :=
  List.contains_iff_mem

theorem admits_singleton : settings.Admits [name] ↔
    name.head? ≠ some 0x2e ∧ settings.watches name = true := by
  rw [watches_iff]
  constructor
  · rintro ⟨hvisible, -, hwatched⟩
    exact ⟨hvisible name List.mem_cons_self, by simpa using hwatched⟩
  · rintro ⟨hvisible, hwatched⟩
    exact ⟨by simpa using hvisible, nofun, by simpa using hwatched⟩

theorem admits_cons : settings.Admits (name :: first :: way) ↔
    name.head? ≠ some 0x2e ∧ settings.ignores name = false ∧ settings.Admits (first :: way) := by
  rw [← Bool.not_eq_true, ignores_iff]
  constructor
  · rintro ⟨hvisible, hentered, hwatched⟩
    rw [List.forall_mem_cons] at hvisible
    rw [List.dropLast_cons_cons, List.forall_mem_cons] at hentered
    exact ⟨hvisible.1, hentered.1, hvisible.2, hentered.2, hwatched⟩
  · rintro ⟨hname, hignored, hvisible, hentered, hwatched⟩
    refine ⟨List.forall_mem_cons.mpr ⟨hname, hvisible⟩, ?_, hwatched⟩
    rw [List.dropLast_cons_cons]
    exact List.forall_mem_cons.mpr ⟨hignored, hentered⟩

end WatchSettings

end LiveEdit
