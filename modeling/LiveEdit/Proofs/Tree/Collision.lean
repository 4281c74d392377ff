import LiveEdit.Proofs.Source.Store
import LiveEdit.Proofs.Tree.Scan

/-!
Which source files of a folder have documents of one path, so that a store keeps but one of them.
-/
namespace LiveEdit

/-- Both kinds of slashes separate the parts of a path. -/
def isSeparator (c : Char) : Bool := c == '/' || c == '\\'

/-- What a name adds to a path. A separator within the name cuts it into several parts. -/
def nameParts (name : FileName) : List (List Char) :=
  (decodeUtf8Lossy name).toList.splitOnP isSeparator

def wayParts (way : List FileName) : List (List Char) := way.flatMap nameParts

/-- A name without a separator. -/
def IsWhole (name : FileName) : Prop := ∀ c ∈ (decodeUtf8Lossy name).toList, isSeparator c = false

/-- A name that is a text without a separator. -/
def IsPlain (name : FileName) : Prop := (decodeUtf8? name).isSome ∧ IsWhole name

/-- The part of a path before its first slash, or the root's name if there is no slash. -/
def SourcePath.owner (rootName : String) (path : SourcePath) : String :=
  match path.text.toList.splitOn '/' with
  | first :: _ :: _ => String.ofList first
  | _ => rootName

/-- What the paths of a folder's documents tell of its source files, given each with its way. -/
structure SourcesCollide (rootName : String) (sources : List (List FileName × Document)) :
    Prop where
  /-- Two files have the same path if their ways have the same parts. -/
  path_eq {v w : List FileName} {d e : Document} (hd : (v, d) ∈ sources) (he : (w, e) ∈ sources) :
    d.path = e.path ↔ wayParts v = wayParts w
  apart {v w : List FileName} {d e : Document} (hd : (v, d) ∈ sources) (he : (w, e) ∈ sources)
    (hv : ∀ name ∈ v, IsPlain name) (hw : ∀ name ∈ w, IsPlain name) (hne : v ≠ w) :
    d.path ≠ e.path
  /-- A store keeps one document for each path. -/
  size (store : Store) :
    (store.replaceAll (.ofList (sources.map (·.2)))).current.documents.size =
      (sources.map (·.2.path)).dedup.length
  complete (store : Store) :
    (store.replaceAll (.ofList (sources.map (·.2)))).current.documents.size = sources.length ↔
      (sources.map (·.2.path)).Nodup
  owner {first : FileName} {below : List FileName} {d : Document}
    (hd : (first :: below, d) ∈ sources) :
    d.project = d.path.owner rootName ↔
      IsWhole first ∨ below = [] ∧ (nameParts first).head? = some rootName.toList

variable {name first : FileName} {way below v w : List FileName} {rootName : String}
  {cs : List Char} {c : Char} {document : Document} {settings : WatchSettings} {root : Node}

/-- Whatever separated the parts, slashes do afterwards. -/
theorem splitOn_slashed (cs : List Char) : (slashed cs).splitOn '/' = cs.splitOnP isSeparator := by
  induction cs with
  | nil => rfl
  | cons c cs ih =>
    rw [List.splitOn_eq_splitOnP] at ih ⊢
    rw [slashed, List.map_cons, ← slashed, List.splitOnP_cons_eq_if_modifyHead,
      List.splitOnP_cons_eq_if_modifyHead, ih]
    by_cases hback : c = '\\' <;> simp [isSeparator, hback]

theorem splitOnP_intercalate {parts : List (List Char)} (h : parts ≠ []) :
    (['/'].intercalate parts).splitOnP isSeparator = parts.flatMap (·.splitOnP isSeparator) := by
  induction parts with
  | nil => exact absurd rfl h
  | cons part parts ih =>
    cases parts with
    | nil => simp
    | cons next parts =>
      rw [List.intercalate_cons_cons, List.append_assoc, List.singleton_append,
        List.splitOnP_append_cons _ _ rfl, ih (List.cons_ne_nil _ _)]
      rfl

theorem nameParts_ne_nil (name : FileName) : nameParts name ≠ [] := List.splitOnP_ne_nil _ _

theorem IsWhole.nameParts_eq (h : IsWhole name) :
    nameParts name = [(decodeUtf8Lossy name).toList] := List.splitOnP_eq_singleton h

/-- A text with a separator is cut, so that its first part is not all of it. -/
theorem splitOnP_of_mem (hc : c ∈ cs) (h : isSeparator c = true) : ∃ part next parts,
    cs.splitOnP isSeparator = part :: next :: parts ∧ part.length < cs.length := by
  induction cs with
  | nil => cases hc
  | cons d cs ih =>
    rw [List.splitOnP_cons_eq_if_modifyHead]
    split
    next =>
      obtain ⟨next, parts, hparts⟩ :=
        List.exists_cons_of_ne_nil (List.splitOnP_ne_nil isSeparator cs)
      exact ⟨[], next, parts, by rw [hparts], Nat.succ_pos _⟩
    next hd =>
      have hne : c ≠ d := by
        rintro rfl
        exact hd h
      obtain ⟨part, next, parts, hparts, hlt⟩ := ih (List.mem_of_ne_of_mem hne hc)
      exact ⟨d :: part, next, parts, by rw [hparts, List.modifyHead_cons], Nat.succ_lt_succ hlt⟩

theorem nameParts_of_not_isWhole (h : ¬ IsWhole name) : ∃ part next parts,
    nameParts name = part :: next :: parts ∧ part ≠ (decodeUtf8Lossy name).toList := by
  simp only [IsWhole, not_forall, Bool.not_eq_false] at h
  obtain ⟨c, hc, hsep⟩ := h
  obtain ⟨part, next, parts, hparts, hlt⟩ := splitOnP_of_mem hc hsep
  exact ⟨part, next, parts, hparts, fun heq => by simp [heq] at hlt⟩

/-- A name that a walk does not pass over starts with no dot, whatever its bytes are read as. -/
theorem head?_decodeUtf8Lossy (h : name.head? ≠ some 0x2e) :
    (decodeUtf8Lossy name).toList.head? ≠ some '.' := by
  rw [decodeUtf8Lossy, String.toList_ofList]
  cases name with
  | nil => exact (Option.some_ne_none '.').symm
  | cons a rest =>
    rw [utf8Parts]
    split
    next c width hstep =>
      intro hdot
      obtain rfl : c = '.' := Option.some.inj hdot
      obtain ⟨tail, -, hencode, -, -⟩ := Utf8Step.encode_of hstep
      exact h (congrArg some (List.cons.inj hencode).1.symm)
    next => exact fun hdot => absurd (Option.some.inj hdot) (by decide)

theorem head?_wayText (h : first.head? ≠ some 0x2e) :
    (wayText (first :: below)).toList.head? ≠ some '.' := by
  have hfirst := head?_decodeUtf8Lossy h
  rw [wayText, List.map_cons, String.toList_intercalate, List.map_cons]
  cases below with
  | nil => simpa using hfirst
  | cons next below =>
    rw [List.map_cons, List.map_cons, List.intercalate_cons_cons, List.append_assoc,
      List.head?_append]
    cases hhead : (decodeUtf8Lossy first).toList.head? with
    | none => simp
    | some c => rwa [hhead] at hfirst

/-- Such a path is taken as it is but for its backslashes. -/
theorem splitOn_path (h : first.head? ≠ some 0x2e) :
    (SourcePath.ofText (wayText (first :: below))).text.toList.splitOn '/' =
      wayParts (first :: below) := by
  have hdotless : ¬ ['.', '/'] <+: slashed (wayText (first :: below)).toList := by
    rintro ⟨rest, hrest⟩
    have hhead := congrArg List.head? hrest
    rw [slashed, List.head?_map] at hhead
    obtain ⟨c, hc, hdot⟩ := Option.map_eq_some_iff.mp hhead.symm
    have hfirst : (wayText (first :: below)).toList.head? ≠ some '.' := head?_wayText h
    split at hdot
    next => cases hdot
    next => exact hfirst (hdot ▸ hc)
  have htext : (SourcePath.ofText (wayText (first :: below))).text.toList =
      slashed (wayText (first :: below)).toList := by
    change (normalizePath _).toList = _
    rw [normalizePath, undotted_of_not_prefix hdotless, String.toList_ofList]
  rw [htext, splitOn_slashed, wayText, String.toList_intercalate]
  change (['/'].intercalate _).splitOnP isSeparator = _
  rw [splitOnP_intercalate (by simp), List.map_map, List.flatMap_map]
  rfl

/-- Different parts make different paths, as a path is its parts with slashes between them. -/
theorem ofText_wayText_inj {second : FileName} (hv : first.head? ≠ some 0x2e)
    (hw : second.head? ≠ some 0x2e) :
    SourcePath.ofText (wayText (first :: v)) = .ofText (wayText (second :: w)) ↔
      wayParts (first :: v) = wayParts (second :: w) := by
  rw [← splitOn_path hv, ← splitOn_path hw]
  constructor
  · intro h
    rw [h]
  · intro h
    have hjoin := congrArg ['/'].intercalate h
    rw [List.intercalate_splitOn, List.intercalate_splitOn] at hjoin
    exact SourcePath.ext (String.toList_inj.mp hjoin)

/-- The bytes of a plain name can be read back. -/
theorem IsPlain.encode (h : IsPlain name) : encodeUtf8 (decodeUtf8Lossy name) = name := by
  obtain ⟨text, htext⟩ := Option.isSome_iff_exists.mp h.1
  rw [decodeUtf8Lossy_of_decodeUtf8? htext, encodeUtf8_eq, decodeUtf8?_eq_some_iff.mp htext]

/-- Nothing of a way of plain names is lost in its parts. -/
theorem encode_wayParts (h : ∀ name ∈ way, IsPlain name) :
    (wayParts way).map (fun part => encodeUtf8 (String.ofList part)) = way := by
  induction way with
  | nil => rfl
  | cons name way ih =>
    obtain ⟨hname, hway⟩ := List.forall_mem_cons.mp h
    rw [wayParts, List.flatMap_cons, hname.2.nameParts_eq, List.map_append, ← wayParts, ih hway,
      List.map_singleton, String.ofList_toList, hname.encode, List.singleton_append]

/-- The owner is right if the first name is not cut, or if the cut leaves the root's name. -/
theorem projectOf_eq_owner_iff (h : first.head? ≠ some 0x2e) :
    projectOf rootName (first :: below) =
        (SourcePath.ofText (wayText (first :: below))).owner rootName ↔
      IsWhole first ∨ below = [] ∧ (nameParts first).head? = some rootName.toList := by
  rw [SourcePath.owner, splitOn_path h, wayParts, List.flatMap_cons, ← wayParts]
  by_cases hwhole : IsWhole first
  · rw [hwhole.nameParts_eq]
    refine iff_of_true ?_ (.inl hwhole)
    cases below with
    | nil => rfl
    | cons second below =>
      obtain ⟨next, parts, hparts⟩ := List.exists_cons_of_ne_nil (nameParts_ne_nil second)
      rw [wayParts, List.flatMap_cons, hparts]
      exact (String.ofList_toList).symm
  · obtain ⟨part, next, parts, hparts, hpart⟩ := nameParts_of_not_isWhole hwhole
    simp only [hparts, hwhole, false_or, List.cons_append]
    cases below with
    | nil => simp [projectOf, ← String.toList_inj, eq_comm]
    | cons second below =>
      refine iff_of_false (fun heq => hpart ?_) fun h => List.cons_ne_nil _ _ h.1
      have hfirst := congrArg String.toList heq
      rw [String.toList_ofList] at hfirst
      exact hfirst.symm

/-- The file of a document is not the folder itself, and no part of its way is hidden. -/
theorem Node.SourceAt.exists_cons {entries : List (FileName × Node)}
    (h : (Node.folder entries).SourceAt settings rootName way document) :
    ∃ first below, way = first :: below ∧ first.head? ≠ some 0x2e := by
  cases way with
  | nil => cases h.file
  | cons first below => exact ⟨first, below, rfl, h.admitted.visible first List.mem_cons_self⟩

theorem Node.SourceAt.path_eq (h : root.SourceAt settings rootName way document) :
    document.path = .ofText (wayText way) := SourcePath.ext h.path

theorem Node.SourceAt.project_eq (h : root.SourceAt settings rootName way document) :
    document.project = projectOf rootName way :=
  projectOf_eq_iff.mpr ⟨h.outer, fun _ => h.inner⟩

variable {entries : List (FileName × Node)} {sources : List (List FileName × Document)}

theorem sourcesCollide (hsources : ∀ way document, (way, document) ∈ sources →
    (Node.folder entries).SourceAt settings rootName way document) :
    SourcesCollide rootName sources := by
  have hpath {v w : List FileName} {d e : Document} (hd : (v, d) ∈ sources)
      (he : (w, e) ∈ sources) : d.path = e.path ↔ wayParts v = wayParts w := by
    obtain ⟨first, below, rfl, hv⟩ := (hsources _ _ hd).exists_cons
    obtain ⟨second, later, rfl, hw⟩ := (hsources _ _ he).exists_cons
    rw [(hsources _ _ hd).path_eq, (hsources _ _ he).path_eq, ofText_wayText_inj hv hw]
  have hsize (store : Store) :
      (store.replaceAll (.ofList (sources.map (·.2)))).current.documents.size =
        (sources.map (·.2.path)).dedup.length := by
    rw [Store.size_replaceAll, DocumentSet.size_ofList, List.map_map]
    rfl
  constructor
  case path_eq => exact hpath
  case apart =>
    intro v w d e hd he hv hw hne heq
    have hparts := (hpath hd he).mp heq
    refine hne ?_
    rw [← encode_wayParts hv, hparts, encode_wayParts hw]
  case size => exact hsize
  case complete =>
    intro store
    rw [hsize, ← List.dedup_eq_self]
    constructor
    · intro hlength
      exact (List.dedup_sublist _).eq_of_length (hlength.trans (List.length_map _).symm)
    · intro hself
      rw [hself, List.length_map]
  case owner =>
    intro first below d hd
    have hsource := hsources _ _ hd
    have hfirst := hsource.admitted.visible first List.mem_cons_self
    rw [hsource.project_eq, hsource.path_eq, projectOf_eq_owner_iff hfirst]

namespace FileSystem

variable {fs : FileSystem} {base : List FileName} {path : List UInt8}

/-- A scan tells files apart by the parts of their ways, and so does a store that takes it over. -/
theorem scan_tells_files_apart (h : fs.top.Proper) (hreaches : fs.top.Reaches base path way)
    (hnode : fs.top.at? way = some (.folder entries)) (settings : WatchSettings) (shown : String) :
    ∃ found sources, fs.scan settings base shown path = .ok found ∧
      found.filterMap Finding.document? = sources.map (·.2) ∧ sources.Pairwise (·.1 < ·.1) ∧
      (∀ v document, (v, document) ∈ sources ↔ (Node.folder entries).SourceAt settings
        ((way.getLast?.map decodeUtf8Lossy).getD "root") v document) ∧
      SourcesCollide ((way.getLast?.map decodeUtf8Lossy).getD "root") sources := by
  have hscan : fs.scan settings base shown path = .ok ((Node.folder entries).walk settings
      ((way.getLast?.map decodeUtf8Lossy).getD "root")) := by
    rw [scan, Node.resolve_eq_ok_iff.mpr hreaches]
    simp only [hnode]
  generalize (way.getLast?.map decodeUtf8Lossy).getD "root" = rootName at hscan ⊢
  have hfound : (Node.folder entries).HasSources settings rootName
      (((Node.folder entries).walk settings rootName).filterMap Finding.document?) :=
    (Node.walk_lists (h.at? hnode)).hasSources
  obtain ⟨sources, hdocuments, hordered, hmem⟩ := hfound
  exact ⟨_, sources, hscan, hdocuments, hordered, hmem,
    sourcesCollide fun v document hv => (hmem v document).mp hv⟩

/-- Names that are no texts may be read alike. Then one of their files is not stored. -/
theorem scan_of_undecodable_names :
    let root : Node := .folder [(0xff :: encodeUtf8 ".rs", .file (encodeUtf8 "one")),
      (0xfe :: encodeUtf8 ".rs", .file (encodeUtf8 "two")),
      (encodeUtf8 "src", .folder [(encodeUtf8 "a.rs", .file (encodeUtf8 "three"))])]
    let fs : FileSystem := { top := .folder [(encodeUtf8 "w", root)] }
    ∃ found sources, fs.scan {} [] "/w" (encodeUtf8 "/w") = .ok found ∧
      found.filterMap Finding.document? = sources.map (·.2) ∧ SourcesCollide "w" sources ∧
      sources.length = 3 ∧ ∀ store : Store,
        (store.replaceAll (.ofList (sources.map (·.2)))).current.documents.size = 2 := by
  intro root fs
  have hroot : root.Proper := by
    refine .folder (by decide +kernel) ?_
    simp [Node.Proper.file, Node.Proper.folder]
  have hproper : fs.top.Proper := .folder (by decide +kernel) (by simpa using hroot)
  have hreaches : fs.top.Reaches [] (encodeUtf8 "/w") [encodeUtf8 "w"] :=
    Node.resolve_eq_ok_iff.mp rfl
  obtain ⟨found, sources, hfound, hdocuments, -, -, hcollide⟩ :=
    scan_tells_files_apart hproper hreaches rfl {} "/w"
  cases hfound
  have hname : ([encodeUtf8 "w"].getLast?.map decodeUtf8Lossy).getD "root" = "w" := by
    decide +kernel
  have hpaths : sources.map (·.2.path) =
      [.ofText "src/a.rs", .ofText "\ufffd.rs", .ofText "\ufffd.rs"] := by
    have hmap : sources.map (·.2.path) = (sources.map (·.2)).map Document.path := by
      rw [List.map_map]
      rfl
    rw [hmap, ← hdocuments]
    decide +kernel
  have hlength : sources.length = 3 := by simpa using congrArg List.length hpaths
  rw [hname] at hcollide
  refine ⟨_, sources, rfl, hdocuments, hcollide, hlength, fun store => ?_⟩
  rw [hcollide.size store, hpaths]
  decide +kernel

/--
A name with a backslash makes the path of a file in a folder, which is then not stored. And its
project is not the one that the path tells.
-/
theorem backslash_hides_file :
    let root : Node := .folder [(encodeUtf8 "a\\b.rs", .file (encodeUtf8 "one")),
      (encodeUtf8 "a", .folder [(encodeUtf8 "b.rs", .file (encodeUtf8 "two"))])]
    let fs : FileSystem := { top := .folder [(encodeUtf8 "w", root)] }
    ∃ found, fs.scan {} [] "/w" (encodeUtf8 "/w") = .ok found ∧
      let documents := found.filterMap Finding.document?
      documents.length = 2 ∧ ¬ (documents.map Document.path).Nodup ∧
        ((Store.new 0).replaceAll (.ofList documents)).current.documents.size = 1 ∧
          ∃ d ∈ documents, d.project ≠ d.path.owner "w" := by
  intro root fs
  refine ⟨_, rfl, ?_⟩
  decide +kernel

end FileSystem

end LiveEdit
