import LiveEdit.Proofs.Source.Contents
import LiveEdit.Source.Store
import Mathlib.Data.List.Chain
import Mathlib.Logic.Function.Basic

/-!
A store takes its requests at their word, and publishes a snapshot whenever one of them changes
what there is at some path, and at no other time.
-/
namespace LiveEdit

/--
What a store can be asked for. A document has its path in the one spelling; a path to be removed
comes in any spelling. Paths may repeat.
-/
inductive StoreRequest where
  | upsert (d : Document)
  | remove (spelling : String)
  | replaceAll (documents : List Document)
  | clear
  | release

/-- Whether all identities are to be forgotten. -/
def StoreRequest.forgets : StoreRequest → Bool
  | .clear | .release => true
  | _ => false

inductive StoreReply where
  | version (version : Nat)
  /-- There was nothing to remove. -/
  | absent
  | done
  deriving DecidableEq

/-- The reply, if the contents were these before and the version is this afterwards. -/
def StoreRequest.reply (before : Contents) (version : Nat) : StoreRequest → StoreReply
  | .upsert _ | .replaceAll _ => .version version
  | .remove spelling => if (before (.ofText spelling)).isSome then .version version else .absent
  | .clear | .release => .done

/-- What there is at each path, once the request is taken at its word. -/
def Contents.after (m : Contents) : StoreRequest → Contents
  | .upsert d => Function.update m d.path (some d.source)
  | .remove spelling => Function.update m (.ofText spelling) none
  | .replaceAll ds => fun p => (ds.findRev? (·.path = p)).map Document.source
  | .clear | .release => m

open Classical in
/-- Whether a request makes a difference, as a number. -/
noncomputable def Contents.change (m : Contents) (r : StoreRequest) : Nat :=
  if m.after r = m then 0 else 1

/-- How many of the requests make a difference. -/
noncomputable def Contents.changes (m : Contents) : List StoreRequest → Nat
  | [] => 0
  | r :: rs => m.change r + changes (m.after r) rs

/-- What the world sees of a store. -/
inductive StoreEvent where
  | published (s : Snapshot)
  /-- Every identity given out so far is forgotten. -/
  | forgot
  deriving DecidableEq

def StoreEvent.published? : StoreEvent → Option Snapshot
  | .published s => some s
  | .forgot => none

def publications (es : List StoreEvent) : List Snapshot := es.filterMap StoreEvent.published?

/-- The versions of a store count its publications. -/
structure Store.Counts (store : Store) : Prop where
  id : store.current.id = ⟨store.publisher, store.published⟩
  version : store.current.version = store.published

/-- The snapshot is one of those that the store published so far. -/
structure Store.Issued (store : Store) (p : Snapshot) : Prop where
  id : p.id = ⟨store.publisher, p.version⟩
  version : p.version ≤ store.current.version
  current : p.version = store.current.version → p = store.current

namespace Store

def contents (store : Store) : Contents := store.documents.contents

def serve (store : Store) : StoreRequest → StoreReply × Store
  | .upsert d =>
    let (version, store) := store.upserting d
    (.version version, store)
  | .remove spelling =>
    let (version, store) := store.removing (.ofText spelling)
    (version.elim .absent .version, store)
  | .replaceAll ds =>
    let (version, store) := store.replacing (.ofList ds)
    (.version version, store)
  | .clear | .release => (.done, store.clear)

/-- The store that serves the requests, one after the other. -/
def after (store : Store) (rs : List StoreRequest) : Store :=
  rs.foldl (fun store r => (store.serve r).2) store

/-- What the world sees while a request is served. -/
def tells (store : Store) (r : StoreRequest) : List StoreEvent :=
  if r.forgets then [.forgot]
  else if (store.serve r).2.current.id = store.current.id then []
  else [.published (store.serve r).2.current]

def tellsAll (store : Store) : List StoreRequest → List StoreEvent
  | [] => []
  | r :: rs => store.tells r ++ tellsAll (store.serve r).2 rs

/-- What the world sees of a new store, from its first snapshot on. -/
def history (publisher limit : Nat) (rs : List StoreRequest) : List StoreEvent :=
  .published (new publisher limit).current :: (new publisher limit).tellsAll rs

variable {store : Store} {p s : Snapshot} {r : StoreRequest} {rs : List StoreRequest}
  {es : List StoreEvent} {documents : DocumentSet}

theorem counts_new (publisher limit : Nat) : (new publisher limit).Counts := ⟨rfl, rfl⟩

theorem Counts.publish (h : store.Counts) (documents : DocumentSet) :
    (store.publish documents).Counts := by
  refine ⟨rfl, ?_⟩
  show store.current.version + 1 = store.published + 1
  rw [h.version]

theorem Counts.issued (h : store.Counts) : store.Issued store.current where
  id := by rw [h.id, h.version]
  version := Nat.le_refl _
  current _ := rfl

/-- A new publication has a version of its own. -/
theorem Issued.publish (h : store.Issued p) (documents : DocumentSet) :
    (store.publish documents).Issued p where
  id := h.id
  version := Nat.le_succ_of_le h.version
  current heq := by
    have hlt : p.version < store.current.version + 1 := Nat.lt_succ_of_le h.version
    exact absurd heq (Nat.ne_of_lt hlt)

/-- Two snapshots with one identity have one version. -/
theorem Issued.eq_current_of_id (h : store.Issued p) (hc : store.Counts)
    (hid : p.id = store.current.id) : p = store.current := by
  rw [h.id, hc.issued.id] at hid
  exact h.current (congrArg SnapshotId.serial hid)

/-- A new publication has an identity of its own. -/
theorem Issued.id_ne_publish (h : store.Issued p) (hc : store.Counts) (documents : DocumentSet) :
    p.id ≠ (store.publish documents).current.id := by
  intro hid
  rw [h.id, (hc.publish documents).issued.id] at hid
  have hserial : p.version = store.current.version + 1 := congrArg SnapshotId.serial hid
  have := h.version
  omega

/--
What a request makes of a store, and what the world sees of it. It publishes what it changes,
and nothing else.
-/
inductive Becomes (store : Store) (r : StoreRequest) : List StoreEvent → Store → Prop
  | publishes {documents : DocumentSet} (hr : r.forgets = false)
      (hd : documents.contents = store.contents.after r)
      (hne : store.contents.after r ≠ store.contents) :
    Becomes store r [.published (store.publish documents).current] (store.publish documents)
  | stays (hr : r.forgets = false) (hsame : store.contents.after r = store.contents) :
    Becomes store r [] store
  | forgets (hr : r.forgets = true) (hsame : store.contents.after r = store.contents) :
    Becomes store r [.forgot] store.clear

theorem contents_insert {s : DocumentSet} {d : Document} :
    (s.insert d).contents = Function.update s.contents d.path (some d.source) := by
  funext p
  rw [DocumentSet.contents, DocumentSet.find?_insert, Function.update_apply]
  split <;> rfl

theorem contents_erase {s : DocumentSet} {p : SourcePath} :
    (s.erase p).contents = Function.update s.contents p none := by
  funext q
  rw [DocumentSet.contents, DocumentSet.find?_erase, Function.update_apply]
  split <;> rfl

theorem contents_ofList (ds : List Document) :
    (DocumentSet.ofList ds).contents = fun p => (ds.findRev? (·.path = p)).map Document.source := by
  funext p
  rw [DocumentSet.contents, DocumentSet.find?_ofList]

theorem contents_replaceAll (store : Store) (documents : DocumentSet) :
    (store.replaceAll documents).current.documents.contents = documents.contents := by
  rw [replaceAll, replacing]
  split
  next hsame =>
    rw [store.in_step]
    exact (DocumentSet.sameSources_iff.mp hsame).symm
  next => rfl

/-- What a store takes over is all that there is afterwards. -/
theorem size_replaceAll (store : Store) (documents : DocumentSet) :
    (store.replaceAll documents).current.documents.size = documents.size :=
  (DocumentSet.sameSources_iff.mpr (store.contents_replaceAll documents)).1

theorem becomes_upsert (d : Document) :
    ∃ es, store.Becomes (.upsert d) es (store.upsert d) := by
  have hinsert : (store.documents.insert d).contents = store.contents.after (.upsert d) :=
    contents_insert
  have hsame : store.contents.after (.upsert d) = store.contents ↔
      some d.source = store.contents d.path := Function.update_eq_self_iff
  rw [upsert, upserting]
  cases hf : store.documents.find? d.path with
  | none =>
    have hnone : store.contents d.path = none := by rw [contents, DocumentSet.contents, hf]; rfl
    refine ⟨_, .publishes rfl hinsert (mt hsame.mp ?_)⟩
    rw [hnone]
    exact Option.some_ne_none _
  | some e =>
    have hsome : store.contents d.path = some e.source := by
      rw [contents, DocumentSet.contents, hf]
      rfl
    rw [hsome, Option.some.injEq, @eq_comm _ d.source, ← Document.sameSource_iff] at hsame
    dsimp only
    split
    next he => exact ⟨_, .stays rfl (hsame.mpr he)⟩
    next he => exact ⟨_, .publishes rfl hinsert (mt hsame.mp he)⟩

theorem becomes_remove (spelling : String) :
    ∃ es, store.Becomes (.remove spelling) es (store.remove (.ofText spelling)) := by
  have herase : (store.documents.erase (.ofText spelling)).contents =
      store.contents.after (.remove spelling) := contents_erase
  have hsame : store.contents.after (.remove spelling) = store.contents ↔
      none = store.contents (.ofText spelling) := Function.update_eq_self_iff
  rw [remove, removing]
  cases hf : store.documents.find? (.ofText spelling) with
  | none =>
    have hnone : none = store.contents (.ofText spelling) := by
      simp [contents, DocumentSet.contents, hf]
    exact ⟨_, .stays rfl (hsame.mpr hnone)⟩
  | some e =>
    have hsome : none ≠ store.contents (.ofText spelling) := by
      simp [contents, DocumentSet.contents, hf]
    exact ⟨_, .publishes rfl herase (mt hsame.mp hsome)⟩

theorem becomes_replaceAll (ds : List Document) :
    ∃ es, store.Becomes (.replaceAll ds) es (store.replaceAll (.ofList ds)) := by
  have hof : (DocumentSet.ofList ds).contents = store.contents.after (.replaceAll ds) :=
    contents_ofList ds
  rw [replaceAll, replacing]
  split
  next hs => exact ⟨_, .stays rfl (hof.symm.trans (DocumentSet.sameSources_iff.mp hs))⟩
  next hs =>
    have hne : store.contents.after (.replaceAll ds) ≠ store.contents := fun h =>
      hs (DocumentSet.sameSources_iff.mpr (hof.trans h))
    exact ⟨_, .publishes rfl hof hne⟩

theorem tells_eq (hc : store.Counts) (h : store.Becomes r es (store.serve r).2) :
    store.tells r = es := by
  rw [tells]
  generalize (store.serve r).2 = next at h ⊢
  cases h with
  | publishes hr =>
    have hid := hc.issued.id_ne_publish hc
    simp [hr, Ne.symm (hid _)]
  | stays hr => simp [hr]
  | forgets hr => simp [hr]

theorem serve_becomes (hc : store.Counts) (r : StoreRequest) :
    store.Becomes r (store.tells r) (store.serve r).2 := by
  have h : ∃ es, store.Becomes r es (store.serve r).2 := by
    cases r with
    | upsert d => exact becomes_upsert d
    | remove spelling => exact becomes_remove spelling
    | replaceAll ds => exact becomes_replaceAll ds
    | clear => exact ⟨_, .forgets rfl rfl⟩
    | release => exact ⟨_, .forgets rfl rfl⟩
  obtain ⟨es, h⟩ := h
  rwa [tells_eq hc h]

/-- The reply tells the version that is current afterwards. -/
theorem serve_reply (store : Store) (r : StoreRequest) :
    (store.serve r).1 = r.reply store.contents (store.serve r).2.current.version := by
  cases r with
  | upsert d =>
    simp only [serve, upserting, StoreRequest.reply]
    split
    · split <;> rfl
    · rfl
  | remove spelling =>
    simp only [serve, removing, StoreRequest.reply, contents, DocumentSet.contents]
    cases store.documents.find? (.ofText spelling) <;> rfl
  | replaceAll ds =>
    simp only [serve, replacing, StoreRequest.reply]
    split <;> rfl
  | clear => rfl
  | release => rfl

theorem after_concat : store.after (rs ++ [r]) = ((store.after rs).serve r).2 :=
  List.foldl_concat ..

theorem tellsAll_concat :
    store.tellsAll (rs ++ [r]) = store.tellsAll rs ++ (store.after rs).tells r := by
  induction rs generalizing store with
  | nil => simp [tellsAll, after]
  | cons q rs ih => simp [tellsAll, ih, after]

theorem history_concat {publisher limit : Nat} : history publisher limit (rs ++ [r]) =
    history publisher limit rs ++ ((new publisher limit).after rs).tells r := by
  rw [history, history, tellsAll_concat, List.cons_append]

theorem publications_append (es es' : List StoreEvent) :
    publications (es ++ es') = publications es ++ publications es' := List.filterMap_append

end Store

theorem Contents.changes_concat {m : Contents} {rs : List StoreRequest} {r : StoreRequest} :
    m.changes (rs ++ [r]) = m.changes rs + (rs.foldl after m).change r := by
  induction rs generalizing m with
  | nil => simp [changes]
  | cons q rs ih => simp [changes, ih, Nat.add_assoc]

theorem Contents.changes_le (m : Contents) (rs : List StoreRequest) : m.changes rs ≤ rs.length := by
  induction rs generalizing m with
  | nil => exact Nat.le_refl _
  | cons r rs ih =>
    have hone : m.change r ≤ 1 := by
      rw [change]
      split <;> omega
    have hrest := ih (m.after r)
    rw [changes, List.length_cons]
    omega

namespace Store

variable {store : Store} {r : StoreRequest} {rs : List StoreRequest} {es : List StoreEvent}

/-- Between a publication and the next something changes, and the version goes up by one. -/
def Succeeds (p q : Snapshot) : Prop :=
  p.documents.changesTo q.documents ≠ [] ∧ q.version = p.version + 1

/-- What a store is after the requests that it has served, and what the world saw of it. -/
structure Tracks (rs : List StoreRequest) (es : List StoreEvent) (store : Store) : Prop where
  counts : store.Counts
  contents : store.contents = rs.foldl Contents.after fun _ => none
  issued : ∀ p ∈ publications es, store.Issued p
  last : (publications es).getLast? = some store.current
  chain : (publications es).IsChain Succeeds
  version : store.current.version = 1 + Contents.changes (fun _ => none) rs

theorem tracks_becomes (h : Tracks rs es store) {es' : List StoreEvent} {next : Store}
    (hb : store.Becomes r es' next) : Tracks (rs ++ [r]) (es ++ es') next := by
  have hafter : store.contents.after r = (rs ++ [r]).foldl Contents.after fun _ => none := by
    rw [List.foldl_concat, h.contents]
  have hchanges : Contents.changes (fun _ => none) (rs ++ [r]) = _ := Contents.changes_concat
  rw [← h.contents] at hchanges
  have unchanged (hsame : store.contents.after r = store.contents) :
      store.contents = (rs ++ [r]).foldl Contents.after (fun _ => none) ∧
        store.current.version = 1 + Contents.changes (fun _ => none) (rs ++ [r]) := by
    rw [hchanges, Contents.change, if_pos hsame, ← hafter, hsame]
    exact ⟨rfl, h.version⟩
  cases hb with
  | @publishes documents hr hd hne =>
    have hsucceeds : Succeeds store.current (store.publish documents).current := by
      refine ⟨fun hnil => hne ?_, rfl⟩
      have hsame := DocumentSet.changesTo_eq_nil_iff.mp hnil
      rw [store.in_step] at hsame
      exact hd.symm.trans hsame.symm
    constructor
    case counts => exact h.counts.publish documents
    case contents => exact hd.trans hafter
    case version =>
      rw [hchanges, Contents.change, if_neg hne]
      exact congrArg (· + 1) h.version
    all_goals rw [publications_append]
    case issued =>
      intro p hp
      rcases List.mem_append.mp hp with hp | hp
      · exact (h.issued p hp).publish documents
      · cases List.mem_singleton.mp hp
        exact (h.counts.publish documents).issued
    case last => exact List.getLast?_concat
    case chain =>
      refine List.isChain_append.mpr ⟨h.chain, .singleton _, fun p hp q hq => ?_⟩
      rw [h.last] at hp
      cases hp
      cases hq
      exact hsucceeds
  | stays hr hsame =>
    rw [List.append_nil]
    exact ⟨h.counts, (unchanged hsame).1, h.issued, h.last, h.chain, (unchanged hsame).2⟩
  | forgets hr hsame =>
    have hp : publications (es ++ [.forgot]) = publications es :=
      (publications_append es _).trans (List.append_nil _)
    refine ⟨⟨h.counts.id, h.counts.version⟩, (unchanged hsame).1, ?_, ?_, ?_, (unchanged hsame).2⟩
    · intro p hp'
      rw [hp] at hp'
      exact ⟨(h.issued p hp').id, (h.issued p hp').version, (h.issued p hp').current⟩
    · rw [hp]
      exact h.last
    · rw [hp]
      exact h.chain

theorem tracks_after (publisher limit : Nat) (rs : List StoreRequest) :
    Tracks rs (history publisher limit rs) ((new publisher limit).after rs) := by
  induction rs using List.reverseRecOn with
  | nil =>
    refine ⟨counts_new publisher limit, rfl, fun p hp => ?_, rfl, .singleton _, rfl⟩
    cases List.mem_singleton.mp hp
    exact (counts_new publisher limit).issued
  | append_singleton rs r ih =>
    rw [history_concat, after_concat]
    exact tracks_becomes ih (serve_becomes ih.counts r)

/-- A store has a next version, and publishes it, if it served fewer requests than 64 bits count. -/
theorem publishes_next_version (publisher limit : Nat) (h : rs.length + 2 < versionLimit)
    (documents : DocumentSet) :
    nextVersion? ((new publisher limit).after rs).current.version =
      some (((new publisher limit).after rs).publishing documents).1 := by
  have hversion := (tracks_after publisher limit rs).version
  have hchanges := Contents.changes_le (fun _ => none) rs
  have hnext : nextVersion? ((new publisher limit).after rs).current.version =
      some (((new publisher limit).after rs).current.version + 1) := if_pos (by omega)
  rw [hnext, publishing_version hnext]

/-- The store takes requests at their word, and publishes what they change. -/
structure PublishesChanges (rs : List StoreRequest) (es : List StoreEvent) (store : Store) :
    Prop where
  contents : store.contents = rs.foldl Contents.after fun _ => none
  current : store.current.documents.contents = store.contents
  /-- A request that changes something publishes a snapshot, and it is the next. -/
  effective {r : StoreRequest} (h : store.contents.after r ≠ store.contents) :
    (store.serve r).2.current.version = store.current.version + 1 ∧
      ∀ p ∈ publications es, p.id ≠ (store.serve r).2.current.id
  idle {r : StoreRequest} (h : store.contents.after r = store.contents) :
    (store.serve r).2.current = store.current
  reply (r : StoreRequest) :
    (store.serve r).1 = r.reply store.contents (store.serve r).2.current.version
  /-- The publications end with the current snapshot, and each differs from the one before it. -/
  chain : (publications es).IsChain Succeeds
  last : (publications es).getLast? = some store.current
  version : store.current.version = 1 + Contents.changes (fun _ => none) rs
  forgets {r : StoreRequest} (h : r.forgets = true) :
    (store.serve r).2.documents = store.documents ∧ (store.serve r).2.current = store.current

/-- Whatever it is asked for, a store publishes exactly what changes. -/
theorem publications_are_changes (publisher limit : Nat) (rs : List StoreRequest) :
    PublishesChanges rs (history publisher limit rs) ((new publisher limit).after rs) := by
  have h := tracks_after publisher limit rs
  constructor
  case contents => exact h.contents
  case current => exact congrArg _ (in_step _)
  case reply => exact serve_reply _
  case chain => exact h.chain
  case last => exact h.last
  case version => exact h.version
  all_goals
    intro r hr
    have hb := serve_becomes h.counts r
    generalize ((new publisher limit).after rs).tells r = seen at hb
    generalize (((new publisher limit).after rs).serve r).2 = next at hb ⊢
  case effective =>
    cases hb with
    | @publishes documents =>
      exact ⟨rfl, fun p hp => (h.issued p hp).id_ne_publish h.counts documents⟩
    | stays _ hsame => exact absurd hsame hr
    | forgets _ hsame => exact absurd hsame hr
  case idle =>
    cases hb with
    | publishes _ _ hne => exact absurd hr hne
    | stays => rfl
    | forgets => rfl
  case forgets =>
    cases hb with
    | publishes hf => cases hf.symm.trans hr
    | stays => exact ⟨rfl, rfl⟩
    | forgets => exact ⟨rfl, rfl⟩

end Store

end LiveEdit
