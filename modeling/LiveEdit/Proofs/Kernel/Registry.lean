import LiveEdit.Kernel.World
import LiveEdit.Proofs.Source.Store
import Mathlib.Data.List.DropRight
import Mathlib.Data.List.Nodup
import Mathlib.Logic.Relation

/-!
The registry holds the last snapshots that were published since identities were last forgotten:
as many as its limit allows, and no other ones.
-/
namespace LiveEdit

namespace Registry

/-- A registry of these snapshots, whose queue is in step with them. -/
def of (held : List Snapshot) : Registry := ⟨held.map Snapshot.id, held⟩

/-- One pass of the loop that makes room: too many are left, and the next is dropped. -/
def Passes (limit : Nat) (registry next : Registry) : Prop :=
  limit ≤ registry.order.length ∧ next = registry.dropNext

variable {limit n : Nat} {registry next : Registry} {held : List Snapshot} {s : Snapshot}
  {id : SnapshotId}

theorem passes_shorter (h : registry.Passes limit next) (hlimit : 0 < limit) :
    next.order.length < registry.order.length := by
  obtain ⟨hlength, rfl⟩ := h
  obtain ⟨order, held⟩ := registry
  cases order with
  | nil => exact absurd hlength (Nat.not_le.mpr hlimit)
  | cons id order => exact Nat.lt_succ_self _

/-- Every pass shortens the queue, so there is no end to the loop only if the limit is none. -/
theorem passes_wellFounded (hlimit : 0 < limit) :
    WellFounded fun next registry => Passes limit registry next :=
  Subrelation.wf (fun h => passes_shorter h hlimit) (measure fun r : Registry => r.order.length).wf

theorem passes_makeRoom (limit : Nat) (registry : Registry) :
    Relation.ReflTransGen (Passes limit) registry (registry.makeRoom limit) := by
  obtain ⟨order, held⟩ := registry
  induction order generalizing held with
  | nil => exact .refl
  | cons id order ih =>
    rw [makeRoom, dropUntil]
    split
    next hlength => exact .head ⟨hlength, rfl⟩ (ih _)
    next => exact .refl

theorem makeRoom_length (hlimit : 0 < limit) (registry : Registry) :
    (registry.makeRoom limit).order.length < limit := by
  obtain ⟨order, held⟩ := registry
  induction order generalizing held with
  | nil => exact hlimit
  | cons id order ih =>
    rw [makeRoom, dropUntil]
    split
    next => exact ih _
    next hlength => exact Nat.not_le.mp hlength

theorem filter_id_ne (h : id ∉ held.map Snapshot.id) : held.filter (·.id ≠ id) = held := by
  rw [List.filter_eq_self]
  intro s hs
  simpa using fun heq : s.id = id => h (heq ▸ List.mem_map_of_mem hs)

/-- Dropping goes from the front, so what is left is the end. -/
theorem makeRoom_of (h : (held.map Snapshot.id).Nodup) :
    (of held).makeRoom (n + 1) = of (held.rtake n) := by
  induction held with
  | nil => rw [List.rtake_nil]; rfl
  | cons s held ih =>
    obtain ⟨hs, hheld⟩ := List.nodup_cons.mp h
    have hdrop : (s :: held).filter (·.id ≠ s.id) = held := by
      rw [List.filter_cons_of_neg (by simp), filter_id_ne hs]
    change dropUntil (n + 1) (s.id :: held.map Snapshot.id) (s :: held) = _
    rw [dropUntil, List.length_map]
    split
    next hlength =>
      rw [hdrop, List.rtake, List.length_cons, Nat.succ_sub (Nat.le_of_succ_le_succ hlength)]
      exact ih hheld
    next hlength =>
      rw [List.rtake, List.length_cons, Nat.sub_eq_zero_of_le (by omega)]
      rfl

theorem rtake_rtake_succ {α : Type} (n : Nat) (xs : List α) :
    (xs.rtake (n + 1)).rtake n = xs.rtake n := by
  simp [List.rtake_eq_reverse_take_reverse, List.take_take]

/-- A registry that holds the end of a list holds the end of the list with one more. -/
theorem register_of {xs : List Snapshot} (h : ((xs ++ [s]).map Snapshot.id).Nodup)
    (hlimit : 0 < limit) :
    (of (xs.rtake limit)).register limit s = of ((xs ++ [s]).rtake limit) := by
  obtain ⟨n, rfl⟩ := Nat.exists_eq_succ_of_ne_zero (Nat.ne_of_gt hlimit)
  have hsub {k : Nat} : (xs.rtake k).Sublist xs := List.drop_sublist ..
  obtain ⟨hxs, -, hs⟩ := List.nodup_append.mp (List.map_append ▸ h)
  have hnew : s.id ∉ (xs.rtake n).map Snapshot.id := fun hmem =>
    hs _ ((hsub.map _).mem hmem) _ List.mem_cons_self rfl
  rw [register, makeRoom_of (hxs.sublist (hsub.map _)), rtake_rtake_succ, List.rtake_concat_succ,
    of, of, List.map_append]
  rw [filter_id_ne hnew]
  rfl

theorem find?_of (h : (held.map Snapshot.id).Nodup) :
    (of held).find? id = some s ↔ s ∈ held ∧ s.id = id := by
  have hfound {t : Snapshot} (ht : (of held).find? id = some t) : t ∈ held ∧ t.id = id :=
    ⟨List.mem_of_find?_eq_some ht, by simpa using List.find?_some ht⟩
  refine ⟨hfound, fun ⟨hs, hid⟩ => ?_⟩
  cases ht : (of held).find? id with
  | none => exact absurd hid (by simpa using List.find?_eq_none.mp ht s hs)
  | some t => rw [List.inj_on_of_nodup_map h hs (hfound ht).1 (hid.trans (hfound ht).2.symm)]

end Registry

/-- What is left of the snapshots that can be found, apart from the limit. -/
def remember (kept : List Snapshot) : StoreEvent → List Snapshot
  | .published s => kept ++ [s]
  | .forgot => []

/-- The snapshots published since identities were last forgotten. -/
def remembered (es : List StoreEvent) : List Snapshot := es.foldl remember []

variable {es later : List StoreEvent} {e : StoreEvent} {p s : Snapshot} {n : Nat}

theorem remembered_concat : remembered (es ++ [e]) = remember (remembered es) e :=
  List.foldl_concat ..

theorem remembered_suffix (es : List StoreEvent) : remembered es <:+ publications es := by
  induction es using List.reverseRecOn with
  | nil => exact List.suffix_rfl
  | append_singleton es e ih =>
    rw [remembered_concat, Store.publications_append]
    cases e with
    | published s => exact (List.suffix_append_inj_of_length_eq rfl).mpr ⟨ih, rfl⟩
    | forgot => exact List.nil_suffix

theorem remembered_append (es later : List StoreEvent) : remembered (es ++ later) =
    if .forgot ∈ later then remembered later else remembered es ++ publications later := by
  induction later using List.reverseRecOn with
  | nil => simp [publications]
  | append_singleton later e ih =>
    rw [← List.append_assoc, remembered_concat, remembered_concat, ih, Store.publications_append]
    cases e with
    | published s =>
      split
      next h => simp [h]
      next h => simp [h, remember, publications, StoreEvent.published?]
    | forgot => simp [remember]

/-- The end of a list has an element if not too much comes after it. -/
theorem mem_rtake {before after : List Snapshot} (h : s ∉ after) :
    s ∈ (before ++ s :: after).rtake n ↔ after.length < n := by
  have hlength : (before ++ s :: after).length - n =
      before.length + (after.length + 1) - n := by simp
  rw [List.rtake, hlength]
  by_cases hn : after.length < n
  · rw [List.drop_append_of_le_length (by omega)]
    simp [hn]
  · have hdrop : before.length + (after.length + 1) - n =
        (before ++ [s]).length + (after.length - n) := by
      simp only [List.length_append, List.length_singleton]
      omega
    rw [List.append_cons before, hdrop, List.drop_length_add_append]
    exact iff_of_false (fun hs => h (List.mem_of_mem_drop hs)) hn

namespace Store

variable {store next : Store} {rs : List StoreRequest} {r : StoreRequest} {es' : List StoreEvent}
  {limit : Nat} {id : SnapshotId}

/-- The registry of a store, told by what the world saw of the store. -/
structure Recalls (limit : Nat) (es : List StoreEvent) (store : Store) : Prop where
  capacity : store.capacity = max limit 1
  registry : store.registry = .of ((remembered es).rtake store.capacity)
  distinct : ((publications es).map Snapshot.id).Nodup

theorem Recalls.capacity_pos (h : Recalls limit es store) : 0 < store.capacity := by
  have := h.capacity
  omega

theorem Recalls.remembered_distinct (h : Recalls limit es store) :
    ((remembered es).map Snapshot.id).Nodup :=
  h.distinct.sublist ((remembered_suffix es).sublist.map _)

theorem recalls_becomes (h : Recalls limit es store) (ht : Tracks rs es store)
    (hb : store.Becomes r es' next) : Recalls limit (es ++ es') next := by
  cases hb with
  | @publishes documents =>
    have hdistinct : ((publications (es ++ [.published (store.publish documents).current])).map
        Snapshot.id).Nodup := by
      rw [publications_append, List.map_append]
      refine List.nodup_append.mpr ⟨h.distinct, List.nodup_singleton _, ?_⟩
      rintro _ hid _ hnew rfl
      obtain ⟨p, hp, hpid⟩ := List.mem_map.mp hid
      rw [List.mem_singleton.mp hnew] at hpid
      exact (ht.issued p hp).id_ne_publish ht.counts documents hpid
    refine ⟨h.capacity, ?_, hdistinct⟩
    have hremembered := hdistinct.sublist ((remembered_suffix _).sublist.map _)
    rw [remembered_concat] at hremembered ⊢
    change store.registry.register store.capacity _ = _
    rw [h.registry]
    exact Registry.register_of hremembered h.capacity_pos
  | stays =>
    rw [List.append_nil]
    exact h
  | forgets =>
    refine ⟨h.capacity, ?_, ?_⟩
    · rw [remembered_concat, remember, List.rtake_nil]
      rfl
    · rw [publications_append]
      exact (List.append_nil _).symm ▸ h.distinct

theorem recalls_after (publisher limit : Nat) (rs : List StoreRequest) :
    Recalls limit (history publisher limit rs) ((new publisher limit).after rs) := by
  induction rs using List.reverseRecOn with
  | nil =>
    have hlimit : 0 < max limit 1 := by omega
    have hdistinct : (([] ++ [(new publisher limit).current]).map Snapshot.id).Nodup :=
      List.nodup_singleton _
    have hregister := Registry.register_of hdistinct hlimit
    rw [List.rtake_nil] at hregister
    exact ⟨rfl, hregister, hdistinct⟩
  | append_singleton rs r ih =>
    have ht := tracks_after publisher limit rs
    rw [history_concat, after_concat]
    exact recalls_becomes ih ht (serve_becomes ht.counts r)

/-- A snapshot is found exactly if it is held, and what is held was published. -/
theorem Recalls.find? (h : Recalls limit es store) :
    store.find? id = some s ↔ s ∈ (remembered es).rtake store.capacity ∧ s.id = id := by
  rw [Store.find?, h.registry]
  exact Registry.find?_of (h.remembered_distinct.sublist ((List.drop_sublist ..).map _))

theorem Recalls.published_of_find? (h : Recalls limit es store) (hs : store.find? id = some s) :
    s ∈ publications es ∧ s.id = id := by
  obtain ⟨hs, hid⟩ := h.find?.mp hs
  exact ⟨(remembered_suffix es).mem ((List.drop_sublist ..).mem hs), hid⟩

theorem Recalls.find?_self (h : Recalls limit es store) (hs : s ∈ publications es) :
    store.find? s.id = if s ∈ (remembered es).rtake store.capacity then some s else none := by
  split
  next hheld => exact h.find?.mpr ⟨hheld, rfl⟩
  next hheld =>
    cases ht : store.find? s.id with
    | none => rfl
    | some t =>
      obtain ⟨hpublished, hid⟩ := h.published_of_find? ht
      obtain rfl := List.inj_on_of_nodup_map h.distinct hpublished hs hid
      exact absurd (h.find?.mp ht).1 hheld

theorem Recalls.registered (h : Recalls limit es store) :
    store.registered = (remembered es).rtake store.capacity := congrArg Registry.held h.registry

/-- The registry has all publications that are found, in their order. -/
theorem Recalls.registered_eq_filter (h : Recalls limit es store) :
    store.registered = (publications es).filter fun s => (store.find? s.id).isSome := by
  have hsuffix : (remembered es).rtake store.capacity <:+ publications es :=
    (List.drop_suffix ..).trans (remembered_suffix es)
  obtain ⟨lost, heq⟩ := hsuffix
  have hdistinct := h.distinct
  rw [← heq, List.map_append] at hdistinct
  have hlost : ∀ s ∈ lost, ¬(store.find? s.id).isSome := by
    intro s hs hfound
    obtain ⟨t, ht⟩ := Option.isSome_iff_exists.mp hfound
    obtain ⟨ht, hid⟩ := h.find?.mp ht
    exact (List.nodup_append.mp hdistinct).2.2 _ (List.mem_map_of_mem hs) _
      (List.mem_map_of_mem ht) hid.symm
  have hheld : ∀ s ∈ (remembered es).rtake store.capacity, (store.find? s.id).isSome :=
    fun s hs => Option.isSome_iff_exists.mpr ⟨s, h.find?.mpr ⟨hs, rfl⟩⟩
  rw [h.registered, ← heq, List.filter_append, List.filter_eq_nil_iff.mpr hlost,
    List.filter_eq_self.mpr hheld, List.nil_append]

/-- Whether a publication is held depends on what was seen since then. -/
theorem Recalls.mem_held_iff {before later : List StoreEvent}
    (h : Recalls limit (before ++ .published s :: later) store) :
    s ∈ (remembered (before ++ .published s :: later)).rtake store.capacity ↔
      .forgot ∉ later ∧ (publications later).length < store.capacity := by
  have hlater : s ∉ publications later := by
    have hdistinct := h.distinct
    rw [publications_append, List.map_append] at hdistinct
    have hs := (List.nodup_cons.mp (List.nodup_append.mp hdistinct).2.1).1
    exact fun hmem => hs (List.mem_map_of_mem hmem)
  rw [List.append_cons, remembered_append, remembered_concat, remember]
  split
  next hforgot =>
    refine iff_of_false (fun hs => hlater ?_) fun hc => hc.1 hforgot
    exact (remembered_suffix later).mem ((List.drop_sublist ..).mem hs)
  next hforgot =>
    rw [← List.append_cons, mem_rtake hlater, and_iff_right hforgot]

/-- A store finds the last of its publications, each as it was published, and no other ones. -/
structure FindsRecent (limit : Nat) (es : List StoreEvent) (store : Store) : Prop where
  /-- A snapshot is found until it is forgotten, or has been followed by as many as the limit. -/
  resolve {before later : List StoreEvent} {s : Snapshot}
    (hes : es = before ++ .published s :: later) :
    store.resolve s.id =
      if .forgot ∉ later ∧ (publications later).length < max limit 1 then .ok s
      else .error (.notRegistered s.id)
  unknown {id : SnapshotId} (h : ∀ s ∈ publications es, s.id ≠ id) :
    store.resolve id = .error (.notRegistered id)
  find? (id : SnapshotId) : store.find? id = (store.resolve id).toOption
  /-- A coordinator over the store finds the same. -/
  coordinator {w : Kernel.World} (hw : w.store = store) (hb : w.bare = false) (id : SnapshotId) :
    w.resolve id = store.resolve id
  registered : store.registered = (publications es).filter fun s => (store.find? s.id).isSome
  bounded : store.registered.length ≤ max limit 1
  queue : store.registry.order = store.registered.map Snapshot.id
  nodup : store.registry.order.Nodup
  /-- The loop that makes room goes on to its end, whatever registry it starts from. -/
  terminates : WellFounded fun next registry => Registry.Passes store.capacity registry next
  makeRoom (registry : Registry) :
    Relation.ReflTransGen (Registry.Passes store.capacity) registry
        (registry.makeRoom store.capacity) ∧
      ∀ next, ¬(registry.makeRoom store.capacity).Passes store.capacity next

/-- After any requests, a store of any limit finds its most recent snapshots. -/
theorem recent_snapshots_are_found (publisher limit : Nat) (rs : List StoreRequest) :
    FindsRecent limit (history publisher limit rs) ((new publisher limit).after rs) := by
  have h := recalls_after publisher limit rs
  generalize history publisher limit rs = es at h ⊢
  generalize (new publisher limit).after rs = store at h ⊢
  have hqueue : store.registry.order = store.registered.map Snapshot.id := by
    rw [h.registered, h.registry]
    rfl
  constructor
  case resolve =>
    intro before later s hes
    subst hes
    have hs : s ∈ publications (before ++ .published s :: later) := by
      rw [publications_append]
      exact List.mem_append_right _ List.mem_cons_self
    rw [Store.resolve, h.find?_self hs, ← h.capacity]
    by_cases hc : .forgot ∉ later ∧ (publications later).length < store.capacity
    · rw [if_pos (h.mem_held_iff.mpr hc), if_pos hc]
    · rw [if_neg (mt h.mem_held_iff.mp hc), if_neg hc]
  case unknown =>
    intro id hne
    rw [Store.resolve]
    cases hs : store.find? id with
    | none => rfl
    | some s => exact absurd (h.published_of_find? hs).2 (hne s (h.published_of_find? hs).1)
  case find? =>
    intro id
    rw [Store.resolve]
    cases store.find? id <;> rfl
  case coordinator =>
    rintro w rfl hb id
    rw [Kernel.World.resolve, hb]
    rfl
  case registered => exact h.registered_eq_filter
  case bounded =>
    rw [h.registered, List.rtake, List.length_drop, ← h.capacity]
    omega
  case queue => exact hqueue
  case nodup =>
    rw [hqueue, h.registered]
    exact h.remembered_distinct.sublist ((List.drop_sublist ..).map _)
  case terminates => exact Registry.passes_wellFounded h.capacity_pos
  case makeRoom =>
    intro registry
    have hlength := Registry.makeRoom_length h.capacity_pos registry
    exact ⟨Registry.passes_makeRoom _ registry, fun _ hp => Nat.not_le.mpr hlength hp.1⟩

end Store

end LiveEdit
