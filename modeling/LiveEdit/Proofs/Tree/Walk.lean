import LiveEdit.Proofs.Tree.Admission
import LiveEdit.Proofs.Tree.Proper
import Mathlib.Data.List.Nodup

/-! A walk through a folder comes upon its source files, each once, in the order of their ways. -/
namespace LiveEdit

namespace Node

@[elab_as_elim]
theorem induct {motive : Node → Prop} (file : ∀ content, motive (.file content))
    (link : ∀ target, motive (.link target))
    (folder : ∀ entries, (∀ e ∈ entries, motive e.2) → motive (.folder entries)) (node : Node) :
    motive node :=
  match node with
  | .file content => file content
  | .link target => link target
  | .folder entries => folder entries fun e _ => induct file link folder e.2
termination_by node
decreasing_by
  have hentry : sizeOf e < sizeOf entries := List.sizeOf_lt_of_mem ‹e ∈ entries›
  obtain ⟨name, child⟩ := e
  simp only [Prod.mk.sizeOf_spec, Node.folder.sizeOf_spec] at hentry ⊢
  omega

end Node

/-- The findings are the files that `S` tells of by their ways below `above`, in this order. -/
def ListsFiles (rootName : String) (above : List FileName)
    (S : List FileName → List UInt8 → Prop) (findings : List Finding) : Prop :=
  ∃ files : List (List FileName × List UInt8),
    findings = files.map (fun f => findingAt rootName (above ++ f.1) f.2) ∧
      files.Pairwise (·.1 < ·.1) ∧ ∀ way content, (way, content) ∈ files ↔ S way content

variable {settings : WatchSettings} {rootName : String} {above way : List FileName}
  {name : FileName} {S T : List FileName → List UInt8 → Prop}
  {findings found : List Finding} {content : List UInt8} {node child : Node}
  {entries : List (FileName × Node)}

namespace ListsFiles

theorem congr (h : ListsFiles rootName above S findings)
    (hST : ∀ way content, S way content ↔ T way content) :
    ListsFiles rootName above T findings := by
  obtain ⟨files, hfindings, hsorted, hmem⟩ := h
  exact ⟨files, hfindings, hsorted, fun way content => (hmem way content).trans (hST way content)⟩

theorem nil (h : ∀ way content, ¬ S way content) : ListsFiles rootName above S [] :=
  ⟨[], rfl, .nil, fun way content => iff_of_false nofun (h way content)⟩

theorem singleton (way : List FileName) (content : List UInt8) :
    ListsFiles rootName above (fun w c => w = way ∧ c = content)
      [findingAt rootName (above ++ way) content] :=
  ⟨[(way, content)], rfl, List.pairwise_singleton _ _, by simp⟩

theorem append (hS : ListsFiles rootName above S findings) (hT : ListsFiles rootName above T found)
    (h : ∀ v c w d, S v c → T w d → v < w) :
    ListsFiles rootName above (fun w c => S w c ∨ T w c) (findings ++ found) := by
  obtain ⟨files, rfl, hfiles, hS⟩ := hS
  obtain ⟨others, rfl, hothers, hT⟩ := hT
  refine ⟨files ++ others, (List.map_append).symm, ?_, fun w c => ?_⟩
  · refine List.pairwise_append.mpr ⟨hfiles, hothers, fun v hv w hw => ?_⟩
    exact h _ _ _ _ ((hS _ _).mp hv) ((hT _ _).mp hw)
  · rw [List.mem_append, hS, hT]

/-- Below a folder the order is that of the ways that start with its name. -/
theorem under (h : ListsFiles rootName (above ++ [name]) S findings) :
    ListsFiles rootName above (fun way content => ∃ below, way = name :: below ∧ S below content)
      findings := by
  obtain ⟨files, rfl, hsorted, hmem⟩ := h
  refine ⟨files.map fun f => (name :: f.1, f.2), ?_, ?_, fun way content => ?_⟩
  · rw [List.map_map]
    simp [Function.comp_def]
  · exact List.pairwise_map.mpr (hsorted.imp fun h => List.cons_lt_cons_self.mpr h)
  · simp only [List.mem_map, Prod.mk.injEq, Prod.exists, hmem]
    constructor
    · rintro ⟨below, c, hS, rfl, rfl⟩
      exact ⟨below, rfl, hS⟩
    · rintro ⟨below, rfl, hS⟩
      exact ⟨below, content, hS, rfl, rfl⟩

theorem lt_of_head? {v w : List FileName} {m n : FileName} (hv : v.head? = some m)
    (hw : w.head? = some n) (h : m < n) : v < w := by
  obtain ⟨v, rfl⟩ := List.head?_eq_some_iff.mp hv
  obtain ⟨w, rfl⟩ := List.head?_eq_some_iff.mp hw
  exact List.cons_lt_cons_iff.mpr (.inl h)

/-- What is found entry by entry is in order if the entries are. -/
theorem flatMap {lists : List (FileName × List Finding)} (hsorted : lists.Pairwise (·.1 < ·.1))
    (hlists : ∀ e ∈ lists,
      ListsFiles rootName above (fun way content => way.head? = some e.1 ∧ S way content) e.2) :
    ListsFiles rootName above
      (fun way content => (∃ e ∈ lists, way.head? = some e.1) ∧ S way content)
      (lists.flatMap (·.2)) := by
  induction lists with
  | nil => exact nil (by simp)
  | cons e lists ih =>
    obtain ⟨hfirst, hsorted⟩ := List.pairwise_cons.mp hsorted
    have hhead := hlists e List.mem_cons_self
    have hrest := ih hsorted fun e he => hlists e (List.mem_cons_of_mem _ he)
    refine (hhead.append hrest ?_).congr fun way content => ?_
    · rintro v c w d ⟨hv, -⟩ ⟨⟨e', he', hw⟩, -⟩
      exact lt_of_head? hv hw (hfirst e' he')
    · rw [← or_and_right, List.exists_mem_cons_iff]

end ListsFiles

/-- Items with names of their own are in strict order once they are sorted. -/
theorem inOrder_names_pairwise {α : Type} {items : List (FileName × α)}
    (h : (items.map (·.1)).Nodup) :
    (inOrder (fun e f => decide (e.1 ≤ f.1)) items).Pairwise (·.1 < ·.1) := by
  have htotal (e f : FileName × α) (h : decide (e.1 ≤ f.1) = false) : decide (f.1 ≤ e.1) = true :=
    decide_eq_true ((List.le_total e.1 f.1).resolve_left (of_decide_eq_false h))
  have htrans (e f g : FileName × α) (hef : decide (e.1 ≤ f.1) = true)
      (hfg : decide (f.1 ≤ g.1) = true) : decide (e.1 ≤ g.1) = true :=
    decide_eq_true (List.le_trans (of_decide_eq_true hef) (of_decide_eq_true hfg))
  have hle := inOrder_pairwise htotal htrans items
  have hne : (inOrder (fun e f => decide (e.1 ≤ f.1)) items).Pairwise (·.1 ≠ ·.1) :=
    List.pairwise_map.mp (((inOrder_perm items).map _).nodup_iff.mpr h)
  refine (hle.and hne).imp fun {e f} ⟨hle, hne⟩ => ?_
  by_contra hlt
  exact hne (List.le_antisymm (of_decide_eq_true hle) (List.not_lt.mp hlt))

namespace Node

theorem findingsOf_eq (entries : List (FileName × Node)) :
    findingsOf settings rootName above entries = entries.map fun e =>
      (e.1, if isHidden e.1 then [] else e.2.findings settings rootName above e.1) := by
  induction entries with
  | nil => rfl
  | cons e entries ih => rw [findingsOf, ih, List.map_cons]

theorem map_fst_findingsOf (entries : List (FileName × Node)) :
    (findingsOf settings rootName above entries).map (·.1) = entries.map (·.1) := by
  rw [findingsOf_eq, List.map_map]
  rfl

theorem at?_cons_of_mem (h : (entries.map (·.1)).Nodup) (hmem : (name, child) ∈ entries)
    (below : List FileName) : (folder entries).at? (name :: below) = child.at? below := by
  have hchild : (folder entries).child? name = some child := by
    cases hfind : entries.find? (·.1 = name) with
    | none => exact absurd (List.find?_eq_none.mp hfind _ hmem) (by simp)
    | some e =>
      have hname : e.1 = name := by simpa using List.find?_some hfind
      have he := List.mem_of_find?_eq_some hfind
      rw [child?, hfind, List.inj_on_of_nodup_map h he hmem hname]
      rfl
  rw [at?, hchild, Option.bind_some]

/-- The files that a walk lists below a folder. -/
def Listed (settings : WatchSettings) (root : Node) (way : List FileName)
    (content : List UInt8) : Prop :=
  root.at? way = some (.file content) ∧ settings.Admits way

/-- The files that a walk lists at and below an entry, by their ways below its folder. -/
def ListedAt (settings : WatchSettings) (name : FileName) (node : Node) (way : List FileName)
    (content : List UInt8) : Prop :=
  ∃ below, way = name :: below ∧ node.at? below = some (.file content) ∧ settings.Admits way

theorem not_listedAt_link {target : List UInt8} :
    ¬ (link target).ListedAt settings name way content := by
  rintro ⟨below, rfl, hfile, -⟩
  cases below <;> cases hfile

theorem listedAt_file {bytes : List UInt8} (hname : isHidden name = false) :
    (file bytes).ListedAt settings name way content ↔
      settings.watches name = true ∧ way = [name] ∧ content = bytes := by
  have hvisible : name.head? ≠ some 0x2e := beq_eq_false_iff_ne.mp hname
  constructor
  · rintro ⟨below, rfl, hfile, hadmits⟩
    cases below with
    | nil =>
      cases hfile
      exact ⟨(WatchSettings.admits_singleton.mp hadmits).2, rfl, rfl⟩
    | cons _ _ => cases hfile
  · rintro ⟨hwatches, rfl, rfl⟩
    exact ⟨[], rfl, rfl, WatchSettings.admits_singleton.mpr ⟨hvisible, hwatches⟩⟩

theorem listedAt_folder (hname : isHidden name = false) :
    (folder entries).ListedAt settings name way content ↔
      settings.ignores name = false ∧
        ∃ below, way = name :: below ∧ (folder entries).Listed settings below content := by
  have hvisible : name.head? ≠ some 0x2e := beq_eq_false_iff_ne.mp hname
  constructor
  · rintro ⟨below, rfl, hfile, hadmits⟩
    cases below with
    | nil => cases hfile
    | cons first below =>
      obtain ⟨-, hignores, hadmits⟩ := WatchSettings.admits_cons.mp hadmits
      exact ⟨hignores, _, rfl, hfile, hadmits⟩
  · rintro ⟨hignores, below, rfl, hfile, hadmits⟩
    cases below with
    | nil => cases hfile
    | cons first below =>
      exact ⟨_, rfl, hfile, WatchSettings.admits_cons.mpr ⟨hvisible, hignores, hadmits⟩⟩

theorem listedAt_iff_of_mem (h : (entries.map (·.1)).Nodup) (hmem : (name, child) ∈ entries) :
    child.ListedAt settings name way content ↔
      way.head? = some name ∧ (folder entries).Listed settings way content := by
  constructor
  · rintro ⟨below, rfl, hfile, hadmits⟩
    exact ⟨rfl, (at?_cons_of_mem h hmem below).trans hfile, hadmits⟩
  · rintro ⟨hhead, hfile, hadmits⟩
    obtain ⟨below, rfl⟩ := List.head?_eq_some_iff.mp hhead
    exact ⟨below, rfl, (at?_cons_of_mem h hmem below).symm.trans hfile, hadmits⟩

/-- A file that is listed below a folder is listed with one of its entries. -/
theorem Listed.exists_entry (h : (folder entries).Listed settings way content) :
    ∃ name ∈ entries.map (·.1), way.head? = some name := by
  cases way with
  | nil => cases h.1
  | cons name below =>
    obtain ⟨child, hchild, -⟩ := Option.bind_eq_some_iff.mp h.1
    exact ⟨name, List.mem_map.mpr ⟨_, mem_of_child? hchild, rfl⟩, rfl⟩

/-- Nothing is listed at and below a hidden entry. -/
theorem entry_lists (h : (entries.map (·.1)).Nodup) (hmem : (name, child) ∈ entries)
    (hchild : isHidden name = false →
      ListsFiles rootName above (child.ListedAt settings name)
        (child.findings settings rootName above name)) :
    ListsFiles rootName above
      (fun way content => way.head? = some name ∧ (folder entries).Listed settings way content)
      (if isHidden name then [] else child.findings settings rootName above name) := by
  split
  next hhidden =>
    refine .nil fun way content ⟨hhead, hlisted⟩ => ?_
    exact hlisted.2.visible name (List.mem_of_head? hhead) (beq_iff_eq.mp hhidden)
  next hvisible =>
    exact (hchild (Bool.eq_false_iff.mpr hvisible)).congr fun _ _ => listedAt_iff_of_mem h hmem

theorem folder_lists (h : (entries.map (·.1)).Nodup)
    (hentries : ∀ e ∈ entries, isHidden e.1 = false →
      ListsFiles rootName above (e.2.ListedAt settings e.1)
        (e.2.findings settings rootName above e.1)) :
    ListsFiles rootName above ((folder entries).Listed settings)
      ((inOrder (fun e f => decide (e.1 ≤ f.1))
        (findingsOf settings rootName above entries)).flatMap (·.2)) := by
  have hsorted : (inOrder (fun e f => decide (e.1 ≤ f.1))
      (findingsOf settings rootName above entries)).Pairwise (·.1 < ·.1) :=
    inOrder_names_pairwise (by rwa [map_fst_findingsOf])
  refine (ListsFiles.flatMap (S := (folder entries).Listed settings) hsorted ?_).congr ?_
  · rw [findingsOf_eq]
    simp only [mem_inOrder, List.forall_mem_map]
    exact fun e he => entry_lists h he (hentries e he)
  · intro way content
    refine and_iff_right_of_imp fun hlisted => ?_
    obtain ⟨name, hname, hhead⟩ := hlisted.exists_entry
    have hfound : name ∈ (findingsOf settings rootName above entries).map (·.1) := by
      rwa [map_fst_findingsOf]
    obtain ⟨e, he, rfl⟩ := List.mem_map.mp hfound
    exact ⟨e, mem_inOrder.mpr he, hhead⟩

/-- A walk lists all files at and below an entry, by induction on what is there. -/
theorem findings_lists (node : Node) (h : node.Proper) (above : List FileName) (name : FileName)
    (hname : isHidden name = false) :
    ListsFiles rootName above (node.ListedAt settings name)
      (node.findings settings rootName above name) := by
  induction node using Node.induct generalizing above name with
  | link target => exact .nil fun _ _ => not_listedAt_link
  | file bytes =>
    rw [findings]
    split
    next hwatches =>
      refine (ListsFiles.singleton [name] bytes).congr fun way content => ?_
      rw [listedAt_file hname, and_iff_right hwatches]
    next hwatches => exact .nil fun _ _ hlisted => hwatches ((listedAt_file hname).mp hlisted).1
  | folder entries ih =>
    obtain _ | _ | ⟨hnames, hentries⟩ := h
    rw [findings]
    split
    next hignores =>
      refine .nil fun way content hlisted => ?_
      exact absurd hignores (Bool.eq_false_iff.mp ((listedAt_folder hname).mp hlisted).1)
    next hignores =>
      have hinner (e : FileName × Node) (he : e ∈ entries) (hhidden : isHidden e.1 = false) :
          ListsFiles rootName (above ++ [name]) (e.2.ListedAt settings e.1)
            (e.2.findings settings rootName (above ++ [name]) e.1) :=
        ih e he (hentries e he) (above ++ [name]) e.1 hhidden
      refine (folder_lists hnames hinner).under.congr fun way content => ?_
      rw [listedAt_folder hname, and_iff_right (Bool.eq_false_iff.mpr hignores)]

theorem walk_lists (h : (folder entries).Proper) :
    ListsFiles rootName [] ((folder entries).Listed settings)
      ((folder entries).walk settings rootName) := by
  obtain _ | _ | ⟨hnames, hentries⟩ := h
  exact folder_lists hnames fun e he hname => findings_lists _ (hentries e he) [] _ hname

end Node

end LiveEdit
