import LiveEdit.Proofs.Tree.Walk

/-! A scan comes to the source documents of the folder that its path leads to, and to no other. -/
namespace LiveEdit

/-- The document of a source file at a way below the root. -/
structure Node.SourceAt (settings : WatchSettings) (rootName : String) (root : Node)
    (way : List FileName) (document : Document) : Prop where
  file : root.at? way = some (.file document.content.toUTF8.data.toList)
  admitted : settings.Admits way
  path : document.path.text = normalizePath ("/".intercalate (way.map decodeUtf8Lossy))
  outer (h : way.length ≤ 1) : document.project = rootName
  inner {first : FileName} (hfirst : way.head? = some first) (h : 1 < way.length) :
    document.project = decodeUtf8Lossy first
  handWritten : document.generated = false

/-- Each source file has its document among these, once, and they are in the order of the ways. -/
def Node.HasSources (settings : WatchSettings) (rootName : String) (root : Node)
    (documents : List Document) : Prop :=
  ∃ sources : List (List FileName × Document), documents = sources.map (·.2) ∧
    sources.Pairwise (·.1 < ·.1) ∧
      ∀ way document, (way, document) ∈ sources ↔ root.SourceAt settings rootName way document

/-- What a scan of the folder at the end of a path comes to. -/
structure FileSystem.Scans (fs : FileSystem) (settings : WatchSettings) (base : List FileName)
    (shown : String) (path : List UInt8) : Prop where
  nowhere (h : ∀ way, ¬ fs.top.Reaches base path way) :
    ∃ error, fs.scan settings base shown path = .error (.invalidRoot shown error)
  noFolder {way : List FileName} (h : fs.top.Reaches base path way)
    (hnode : ∀ entries, fs.top.at? way ≠ some (.folder entries)) :
    fs.scan settings base shown path = .error (.notFolder (fs.realPathText way))
  folder {way : List FileName} {entries : List (FileName × Node)}
    (h : fs.top.Reaches base path way) (hnode : fs.top.at? way = some (.folder entries)) :
    ∃ found, fs.scan settings base shown path = .ok found ∧
      (Node.folder entries).HasSources settings ((way.getLast?.map decodeUtf8Lossy).getD "root")
        (found.filterMap Finding.document?)

variable {settings : WatchSettings} {rootName : String} {way : List FileName}
  {content : List UInt8} {document : Document} {root : Node} {findings : List Finding}

theorem document?_findingAt : (findingAt rootName way content).document? = some document ↔
    document.content.toUTF8.data.toList = content ∧ document.path = .ofText (wayText way) ∧
      document.project = projectOf rootName way ∧ document.generated = false := by
  obtain ⟨path, project, text, generated⟩ := document
  rw [← decodeUtf8?_eq_some_iff, findingAt]
  cases decodeUtf8? content with
  | none => simp [Finding.document?]
  | some decoded =>
    simp only [Finding.document?, Option.some.injEq, Document.mk.injEq]
    tauto

theorem projectOf_eq_iff {project : String} : project = projectOf rootName way ↔
    (way.length ≤ 1 → project = rootName) ∧
      ∀ first, way.head? = some first → 1 < way.length → project = decodeUtf8Lossy first := by
  match way with
  | [] => simp [projectOf]
  | [name] => simp [projectOf]
  | first :: second :: below => simp [projectOf]

theorem Node.sourceAt_iff : root.SourceAt settings rootName way document ↔
    ∃ content, root.Listed settings way content ∧
      (findingAt rootName way content).document? = some document := by
  simp only [document?_findingAt, SourcePath.ext_iff, projectOf_eq_iff]
  constructor
  · rintro ⟨hfile, hadmitted, hpath, houter, hinner, hwritten⟩
    exact ⟨_, ⟨hfile, hadmitted⟩, rfl, hpath, ⟨houter, fun _ => hinner⟩, hwritten⟩
  · rintro ⟨_, ⟨hfile, hadmitted⟩, rfl, hpath, ⟨houter, hinner⟩, hwritten⟩
    exact ⟨hfile, hadmitted, hpath, houter, hinner _, hwritten⟩

/-- Of the files that a walk lists, those that are texts are documents. -/
theorem ListsFiles.hasSources (h : ListsFiles rootName [] (root.Listed settings) findings) :
    root.HasSources settings rootName (findings.filterMap Finding.document?) := by
  obtain ⟨files, rfl, hsorted, hmem⟩ := h
  let source? (f : List FileName × List UInt8) : Option (List FileName × Document) :=
    (findingAt rootName f.1 f.2).document?.map (Prod.mk f.1)
  have hsource {f : List FileName × List UInt8} {way : List FileName} {document : Document} :
      source? f = some (way, document) ↔
        f.1 = way ∧ (findingAt rootName f.1 f.2).document? = some document := by
    rw [Option.map_eq_some_iff]
    constructor
    · rintro ⟨document, hdocument, ⟨⟩⟩
      exact ⟨rfl, hdocument⟩
    · rintro ⟨rfl, hdocument⟩
      exact ⟨document, hdocument, rfl⟩
  refine ⟨files.filterMap source?, ?_, ?_, fun way document => ?_⟩
  · rw [List.filterMap_map, List.map_filterMap]
    simp [source?, Function.comp_def]
  · refine hsorted.filterMap _ fun f g hfg v hv w hw => ?_
    rwa [← (hsource.mp hv).1, ← (hsource.mp hw).1]
  · rw [List.mem_filterMap, Node.sourceAt_iff]
    constructor
    · rintro ⟨f, hf, hfound⟩
      obtain ⟨rfl, hdocument⟩ := hsource.mp hfound
      exact ⟨f.2, (hmem _ _).mp hf, hdocument⟩
    · rintro ⟨content, hlisted, hdocument⟩
      exact ⟨(way, content), (hmem _ _).mpr hlisted, hsource.mpr ⟨rfl, hdocument⟩⟩

namespace FileSystem

variable {fs : FileSystem}

theorem scan_finds_sources (h : fs.top.Proper) (settings : WatchSettings) (base : List FileName)
    (shown : String) (path : List UInt8) : fs.Scans settings base shown path := by
  constructor
  case nowhere =>
    intro hnone
    cases hresolve : fs.top.resolve base path with
    | ok way => exact absurd (Node.resolve_eq_ok_iff.mp hresolve) (hnone way)
    | error error => exact ⟨error, by rw [scan, hresolve]⟩
  case noFolder =>
    intro way hreaches hnode
    rw [scan, Node.resolve_eq_ok_iff.mpr hreaches]
    rcases hat : fs.top.at? way with _ | _ | entries | _
    case some.folder => exact absurd hat (hnode entries)
    all_goals simp only [hat]
  case folder =>
    intro way entries hreaches hnode
    refine ⟨_, ?_, (Node.walk_lists (h.at? hnode)).hasSources⟩
    rw [scan, Node.resolve_eq_ok_iff.mpr hreaches]
    simp only [hnode]

/--
Folders are left out by name, but neither files nor the root are. Links are not followed, and no
file gets in whose name starts with a dot or whose bytes are no text.
-/
theorem scan_of_crowded_folder :
    let source : Node := .file (encodeUtf8 "one")
    let inner : Node := .folder [(encodeUtf8 "b.rs", source), (encodeUtf8 "notes", source),
      (encodeUtf8 "a.rs", .file [0xff]), (encodeUtf8 ".c.rs", source)]
    let root : Node := .folder [(encodeUtf8 "src", inner), (encodeUtf8 "target", inner),
      (encodeUtf8 "link.rs", .link (encodeUtf8 "src/b.rs")), (encodeUtf8 "main.rs", source)]
    let fs : FileSystem := { top := .folder [(encodeUtf8 ".app", root)] }
    let settings : WatchSettings := { ignoredDirs := ["b.rs", "target"] }
    fs.top.Proper ∧ fs.Scans settings [] "/.app" (encodeUtf8 "/.app") ∧
      ∃ found, fs.scan settings [] "/.app" (encodeUtf8 "/.app") = .ok found ∧
        found.filterMap Finding.document? =
          [⟨.ofText "main.rs", ".app", "one", false⟩, ⟨.ofText "src/b.rs", "src", "one", false⟩] := by
  intro source inner root fs settings
  have hinner : inner.Proper := by
    refine .folder (by decide +kernel) ?_
    simp [source, Node.Proper.file]
  have hroot : root.Proper := by
    refine .folder (by decide +kernel) ?_
    simp [source, hinner, Node.Proper.file, Node.Proper.link]
  have hproper : fs.top.Proper := .folder (by decide +kernel) (by simpa using hroot)
  refine ⟨hproper, scan_finds_sources hproper settings [] "/.app" _, _, rfl, ?_⟩
  decide +kernel

end FileSystem

end LiveEdit
