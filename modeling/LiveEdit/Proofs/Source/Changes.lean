import LiveEdit.Engine.Checksum

/-! The changes between two document sets are all of their differences, and nothing else. -/
namespace LiveEdit

namespace DocumentSet

variable {s older newer : DocumentSet} {d e : Document} {p : SourcePath} {change : Change}

theorem mem_of_find? (h : s.find? p = some d) : d ∈ s.toList ∧ d.path = p :=
  ⟨List.mem_of_find?_eq_some h, by simpa using List.find?_some h⟩

/-- No two documents of a set have the same path. -/
theorem eq_of_path_eq (hd : d ∈ s.toList) (he : e ∈ s.toList) (h : d.path = e.path) : d = e := by
  have hne : s.toList.Pairwise fun d e => d.path = e.path → d = e :=
    s.ordered.imp fun hlt heq => absurd heq (SourcePath.ne_of_lt hlt)
  have hflip : s.toList.Pairwise (flip fun d e => d.path = e.path → d = e) :=
    s.ordered.imp fun hlt heq => absurd heq.symm (SourcePath.ne_of_lt hlt)
  exact hne.forall_of_forall_of_flip (fun _ _ _ => rfl) hflip hd he h

theorem find?_eq_some_iff : s.find? p = some d ↔ d ∈ s.toList ∧ d.path = p := by
  constructor
  · exact mem_of_find?
  · rintro ⟨hd, rfl⟩
    cases hf : s.find? d.path with
    | none =>
      have := List.find?_eq_none.mp hf d hd
      simp at this
    | some e =>
      obtain ⟨he, hp⟩ := mem_of_find? hf
      rw [eq_of_path_eq he hd hp]

theorem find?_self (hd : d ∈ s.toList) : s.find? d.path = some d :=
  find?_eq_some_iff.mpr ⟨hd, rfl⟩

theorem mem_changesTo : change ∈ older.changesTo newer ↔
    (∃ d ∈ newer.toList, older.arrival? d = some change) ∨
      ∃ d ∈ older.toList, newer.departure? d = some change := by
  simp [changesTo, List.mem_filterMap]

theorem arrival?_eq_some_iff : older.arrival? d = some change ↔
    change = .added d ∧ older.find? d.path = none ∨
      change = .modified d ∧ ∃ e, older.find? d.path = some e ∧ ¬ e.SameSource d := by
  rw [arrival?]
  cases older.find? d.path with
  | none => simp [eq_comm]
  | some e => simp [eq_comm, and_comm]

theorem departure?_eq_some_iff :
    newer.departure? d = some change ↔ change = .deleted d ∧ newer.find? d.path = none := by
  rw [departure?]
  cases newer.find? d.path <;> simp [eq_comm]

theorem document_of_arrival (h : older.arrival? d = some change) : change.document = d := by
  obtain ⟨rfl, -⟩ | ⟨rfl, -⟩ := arrival?_eq_some_iff.mp h <;> rfl

theorem document_of_departure (h : newer.departure? d = some change) : change.document = d := by
  obtain ⟨rfl, -⟩ := departure?_eq_some_iff.mp h
  rfl

theorem added_mem_changesTo : .added d ∈ older.changesTo newer ↔
    older.find? d.path = none ∧ newer.find? d.path = some d := by
  simp only [mem_changesTo, arrival?_eq_some_iff, departure?_eq_some_iff, find?_eq_some_iff]
  grind

theorem modified_mem_changesTo : .modified d ∈ older.changesTo newer ↔
    ∃ e, older.find? d.path = some e ∧ newer.find? d.path = some d ∧ ¬ e.SameSource d := by
  simp only [mem_changesTo, arrival?_eq_some_iff, departure?_eq_some_iff, find?_eq_some_iff]
  grind

theorem deleted_mem_changesTo : .deleted d ∈ older.changesTo newer ↔
    older.find? d.path = some d ∧ newer.find? d.path = none := by
  simp only [mem_changesTo, arrival?_eq_some_iff, departure?_eq_some_iff, find?_eq_some_iff]
  grind

/-- Every path is listed once at most, and paths come in ascending order. -/
theorem changesTo_ordered (older newer : DocumentSet) :
    (older.changesTo newer).Pairwise (·.document.path < ·.document.path) := by
  let le (a b : Change) : Bool := !decide (b.document.path < a.document.path)
  have hle {a b : Change} : le a b = true ↔ ¬ b.document.path < a.document.path := by simp [le]
  have hsorted : (older.changesTo newer).Pairwise (le · ·) := by
    refine inOrder_pairwise (fun a b h => ?_) (fun a b c h h' => ?_) _
    · have hlt := Decidable.not_not.mp (mt hle.mpr (Bool.eq_false_iff.mp h))
      exact hle.mpr fun h' => SourcePath.lt_irrefl _ (SourcePath.lt_trans hlt h')
    · exact hle.mpr (SourcePath.not_lt_trans (hle.mp h) (hle.mp h'))
  have hdistinct : (older.changesTo newer).Pairwise (·.document.path ≠ ·.document.path) := by
    rw [changesTo, (inOrder_perm _).pairwise_iff Ne.symm, List.pairwise_append]
    refine ⟨?_, ?_, ?_⟩
    · refine newer.ordered.filterMap _ fun d e hlt a ha b hb => ?_
      rw [document_of_arrival ha, document_of_arrival hb]
      exact SourcePath.ne_of_lt hlt
    · refine older.ordered.filterMap _ fun d e hlt a ha b hb => ?_
      rw [document_of_departure ha, document_of_departure hb]
      exact SourcePath.ne_of_lt hlt
    · -- what arrives is in the newer set, and what departs has no path there
      intro a ha b hb heq
      obtain ⟨d, hd, ha⟩ := List.mem_filterMap.mp ha
      obtain ⟨e, -, hb⟩ := List.mem_filterMap.mp hb
      obtain ⟨rfl, hgone⟩ := departure?_eq_some_iff.mp hb
      have hstays := find?_self hd
      rw [← document_of_arrival ha, heq] at hstays
      cases hgone.symm.trans hstays
  refine (hsorted.and hdistinct).imp fun {a b} h => ?_
  exact SourcePath.lt_of_not_lt_of_ne (hle.mp h.1) h.2.symm

/-- What is written is every document of the newer set with another source than before, or none. -/
theorem written_changesTo : (∃ change ∈ older.changesTo newer, change.written? = some d) ↔
    d ∈ newer.toList ∧ ∀ e, older.find? d.path = some e → ¬ e.SameSource d := by
  constructor
  · rintro ⟨change, hc, hw⟩
    cases change with
    | added d' =>
      cases hw
      obtain ⟨hold, hnew⟩ := added_mem_changesTo.mp hc
      exact ⟨(mem_of_find? hnew).1, by simp [hold]⟩
    | modified d' =>
      cases hw
      obtain ⟨e, hold, hnew, hn⟩ := modified_mem_changesTo.mp hc
      exact ⟨(mem_of_find? hnew).1, by simpa [hold] using hn⟩
    | deleted d' => cases hw
  · rintro ⟨hd, hn⟩
    cases hf : older.find? d.path with
    | none => exact ⟨.added d, added_mem_changesTo.mpr ⟨hf, find?_self hd⟩, rfl⟩
    | some e =>
      exact ⟨.modified d, modified_mem_changesTo.mpr ⟨e, hf, find?_self hd, hn e hf⟩, rfl⟩

/-- What is removed is every document of the older set whose path the newer set does not have. -/
theorem removed_changesTo : (∃ change ∈ older.changesTo newer, change.removed? = some d) ↔
    d ∈ older.toList ∧ newer.find? d.path = none := by
  constructor
  · rintro ⟨change, hc, hr⟩
    cases change with
    | deleted d' =>
      cases hr
      obtain ⟨hold, hnew⟩ := deleted_mem_changesTo.mp hc
      exact ⟨(mem_of_find? hold).1, hnew⟩
    | _ => cases hr
  · rintro ⟨hd, hn⟩
    exact ⟨.deleted d, deleted_mem_changesTo.mpr ⟨find?_self hd, hn⟩, rfl⟩

end DocumentSet

/-- A path's project and bytes. -/
abbrev Units := String → Option (String × List UInt8)

def Document.unit (d : Document) : String × List UInt8 := (d.project, encodeUtf8 d.content)

/-- What a set of documents has at each path. -/
def DocumentSet.units (s : DocumentSet) : Units := fun path =>
  (s.toList.find? (·.path.text = path)).map Document.unit

/-- Puts every delta in place of what its path had. -/
def Units.patched (units : Units) (deltas : List Delta) : Units :=
  deltas.foldl (fun units δ path =>
    if δ.path = path then some (δ.project, δ.payload) else units path) units

def Document.delta (d : Document) : Delta := ⟨d.path.text, d.project, encodeUtf8 d.content⟩

def deltasOf (changes : List Change) : List Delta :=
  changes.filterMap fun change => change.written?.map Document.delta

variable {units : Units} {deltas : List Delta} {path : String} {older newer : DocumentSet}
  {changes : List Change} {marker : Option String} {b : Bool} {d : Document}

theorem patched_of_notMem (h : ∀ δ ∈ deltas, δ.path ≠ path) :
    units.patched deltas path = units path := by
  induction deltas generalizing units with
  | nil => rfl
  | cons δ deltas ih =>
    refine (ih fun δ hδ => h δ (List.mem_cons_of_mem _ hδ)).trans ?_
    exact if_neg (h δ List.mem_cons_self)

theorem patched_of_mem {unit : String × List UInt8} (hm : ∃ δ ∈ deltas, δ.path = path)
    (h : ∀ δ ∈ deltas, δ.path = path → (δ.project, δ.payload) = unit) :
    units.patched deltas path = some unit := by
  induction deltas generalizing units with
  | nil => simp at hm
  | cons δ deltas ih =>
    have htail := fun δ hδ => h δ (List.mem_cons_of_mem _ hδ)
    by_cases hrest : ∃ δ ∈ deltas, δ.path = path
    · exact ih hrest htail
    · obtain ⟨δ', hδ', hp⟩ := hm
      rcases List.mem_cons.mp hδ' with rfl | hδ'
      · refine (patched_of_notMem fun δ hδ hp => hrest ⟨δ, hδ, hp⟩).trans ?_
        exact (if_pos hp).trans (congrArg some (h δ' List.mem_cons_self hp))
      · exact absurd ⟨δ', hδ', hp⟩ hrest

theorem units_eq_some {s : DocumentSet} (hd : d ∈ s.toList) :
    s.units d.path.text = some d.unit := by
  have hfind : s.toList.find? (·.path.text = d.path.text) = s.find? d.path := by
    simp [DocumentSet.find?, SourcePath.ext_iff]
  rw [DocumentSet.units, hfind, DocumentSet.find?_self hd]
  rfl

theorem units_eq_none {s : DocumentSet} (h : ∀ d ∈ s.toList, d.path.text ≠ path) :
    s.units path = none := by
  rw [DocumentSet.units, List.find?_eq_none.mpr fun d hd => by simpa using h d hd]
  rfl

theorem mem_deltasOf {δ : Delta} : δ ∈ deltasOf changes ↔
    ∃ d, (∃ change ∈ changes, change.written? = some d) ∧ δ = d.delta := by
  simp only [deltasOf, List.mem_filterMap, Option.map_eq_some_iff]
  constructor
  · rintro ⟨change, hc, d, hd, rfl⟩
    exact ⟨d, ⟨change, hc, hd⟩, rfl⟩
  · rintro ⟨d, ⟨change, hc, hd⟩, rfl⟩
    exact ⟨change, hc, d, hd, rfl⟩

theorem exists_delta_iff : (∃ δ ∈ deltasOf changes, δ.path = path) ↔
    ∃ d, (∃ change ∈ changes, change.written? = some d) ∧ d.path.text = path := by
  constructor
  · rintro ⟨δ, hδ, hp⟩
    obtain ⟨d, hd, rfl⟩ := mem_deltasOf.mp hδ
    exact ⟨d, hd, hp⟩
  · rintro ⟨d, hd, hp⟩
    exact ⟨d.delta, mem_deltasOf.mpr ⟨d, hd, rfl⟩, hp⟩

/-- The same source is the same unit, if equal checksums tell equal contents. -/
theorem units_eq_of_sameSource {e : Document}
    (hc : d.checksum = e.checksum → d.content = e.content) (h : d.SameSource e) :
    d.unit = e.unit := by
  obtain ⟨hsum, hproject, -⟩ := h
  rw [Document.unit, Document.unit, hproject, hc hsum]

/-- The written changes bring an older set's units to the newer's, if nothing is to be removed. -/
theorem patched_changesTo
    (hc : ∀ e ∈ older.toList, ∀ d ∈ newer.toList, e.checksum = d.checksum → e.content = d.content)
    (hr : (older.changesTo newer).filterMap Change.removed? = []) :
    older.units.patched (deltasOf (older.changesTo newer)) = newer.units := by
  funext path
  by_cases hw : ∃ d, (∃ change ∈ older.changesTo newer, change.written? = some d) ∧
      d.path.text = path
  · obtain ⟨d, hd, rfl⟩ := hw
    have hnew := (DocumentSet.written_changesTo.mp hd).1
    rw [units_eq_some hnew]
    refine patched_of_mem (exists_delta_iff.mpr ⟨d, hd, rfl⟩) fun δ hδ hp => ?_
    obtain ⟨d', hd', rfl⟩ := mem_deltasOf.mp hδ
    have hnew' := (DocumentSet.written_changesTo.mp hd').1
    rw [DocumentSet.eq_of_path_eq hnew hnew' (SourcePath.ext hp.symm)]
    rfl
  · rw [patched_of_notMem fun δ hδ hp => hw (exists_delta_iff.mp ⟨δ, hδ, hp⟩)]
    by_cases hnew : ∃ d ∈ newer.toList, d.path.text = path
    · -- the document was there before, with the same source
      obtain ⟨d, hd, rfl⟩ := hnew
      obtain ⟨e, he, hsame⟩ : ∃ e, older.find? d.path = some e ∧ e.SameSource d := by
        refine Decidable.byContradiction fun hn => hw ⟨d, ?_, rfl⟩
        exact DocumentSet.written_changesTo.mpr ⟨hd, fun e he hs => hn ⟨e, he, hs⟩⟩
      obtain ⟨he, hp⟩ := DocumentSet.mem_of_find? he
      rw [units_eq_some hd, ← hp, units_eq_some he,
        units_eq_of_sameSource (hc e he d hd) hsame]
    · -- the path had nothing before, for nothing is to be removed
      rw [units_eq_none fun d hd hp => hnew ⟨d, hd, hp⟩]
      refine units_eq_none fun e he hp => ?_
      have hgone : newer.find? e.path = none := by
        refine List.find?_eq_none.mpr fun d hd => ?_
        have hne : d.path ≠ e.path := fun h => hnew ⟨d, hd, (congrArg _ h).trans hp⟩
        simpa using hne
      obtain ⟨change, hchange, hrem⟩ := DocumentSet.removed_changesTo.mpr ⟨he, hgone⟩
      have hmem := List.mem_filterMap.mpr ⟨change, hchange, hrem⟩
      rw [hr] at hmem
      cases hmem

/-- A ready update removes nothing and has the deltas of all changes. -/
theorem updateOf_ready (h : (updateOf marker b changes).status = .ready) :
    changes.filterMap Change.removed? = [] ∧
      (updateOf marker b changes).deltas = deltasOf changes := by
  cases hm : firstMarkerError? marker changes with
  | some error => simp [updateOf, hm] at h
  | none =>
    cases hr : changes.filterMap Change.removed? with
    | nil =>
      simp only [updateOf, hm, hr]
      exact ⟨trivial, rfl⟩
    | cons d removed => simp [updateOf, hm, hr] at h

end LiveEdit
