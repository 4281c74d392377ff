import LiveEdit.Proofs.Tree.Path
import LiveEdit.Tree.Edit
import Mathlib.Data.List.Nodup

/-! In a folder each name is that of one entry. Edits, failed ones included, leave it so. -/
namespace LiveEdit

namespace Node

/-- In every folder of a tree each name is that of one entry. -/
inductive Proper : Node → Prop
  | file (content : List UInt8) : Proper (.file content)
  | link (target : List UInt8) : Proper (.link target)
  | folder {entries : List (FileName × Node)} (names : (entries.map (·.1)).Nodup)
      (proper : ∀ e ∈ entries, e.2.Proper) : Proper (.folder entries)

variable {top child : Node} {name : FileName} {way : List FileName}
  {entries : List (FileName × Node)}

theorem mem_putEntry {e : FileName × Node} (h : e ∈ putEntry name child entries) :
    e = (name, child) ∨ e ∈ entries := by
  induction entries with
  | nil => exact .inl (List.mem_singleton.mp h)
  | cons f entries ih =>
    rw [putEntry] at h
    split at h
    next => exact (List.mem_cons.mp h).imp_right (List.mem_cons_of_mem _)
    next =>
      rcases List.mem_cons.mp h with rfl | h
      · exact .inr List.mem_cons_self
      · exact (ih h).imp_right (List.mem_cons_of_mem _)

theorem putEntry_nodup (h : (entries.map (·.1)).Nodup) :
    ((putEntry name child entries).map (·.1)).Nodup := by
  induction entries with
  | nil => exact List.nodup_singleton _
  | cons f entries ih =>
    rw [List.map_cons, List.nodup_cons] at h
    rw [putEntry]
    split
    next hf => exact List.nodup_cons.mpr ⟨hf ▸ h.1, h.2⟩
    next hf =>
      refine List.nodup_cons.mpr ⟨fun hmem => ?_, ih h.2⟩
      obtain ⟨e, he, hname⟩ := List.mem_map.mp hmem
      rcases mem_putEntry he with rfl | he
      · exact hf hname.symm
      · exact h.1 (List.mem_map.mpr ⟨e, he, hname⟩)

namespace Proper

theorem empty : Node.empty.Proper := .folder .nil nofun

theorem child? (h : top.Proper) (hchild : top.child? name = some child) : child.Proper := by
  obtain ⟨entries, rfl⟩ := child?_eq_some hchild
  obtain _ | _ | ⟨-, hentries⟩ := h
  exact hentries _ (mem_of_child? hchild)

theorem at? (h : top.Proper) (hchild : top.at? way = some child) : child.Proper := by
  induction way generalizing top with
  | nil =>
    cases hchild
    exact h
  | cons name way ih =>
    obtain ⟨inner, hinner, hbelow⟩ := Option.bind_eq_some_iff.mp hchild
    exact ih (h.child? hinner) hbelow

theorem putEntry (h : (Node.folder entries).Proper) (hchild : child.Proper) (name : FileName) :
    (Node.folder (Node.putEntry name child entries)).Proper := by
  obtain _ | _ | ⟨hnames, hentries⟩ := h
  refine .folder (putEntry_nodup hnames) fun e he => ?_
  rcases mem_putEntry he with rfl | he
  · exact hchild
  · exact hentries e he

theorem filter (h : (Node.folder entries).Proper) (keep : FileName × Node → Bool) :
    (Node.folder (entries.filter keep)).Proper := by
  obtain _ | _ | ⟨hnames, hentries⟩ := h
  refine .folder (hnames.sublist (List.filter_sublist.map _)) fun e he => ?_
  exact hentries e (List.mem_of_mem_filter he)

theorem put (h : top.Proper) (hchild : child.Proper) (way : List FileName) :
    (child.put top way).Proper := by
  induction way generalizing top with
  | nil => exact hchild
  | cons name way ih =>
    cases top with
    | file _ => exact h
    | link _ => exact h
    | folder entries =>
      rw [Node.put]
      refine h.putEntry (ih ?_) name
      cases hinner : (Node.folder entries).child? name with
      | none => exact empty
      | some inner => exact h.child? hinner

theorem erase (h : top.Proper) (way : List FileName) : (top.erase way).Proper := by
  induction way generalizing top with
  | nil => exact h
  | cons name way ih =>
    cases top with
    | file _ => cases way <;> exact h
    | link _ => cases way <;> exact h
    | folder entries =>
      cases way with
      | nil => exact h.filter _
      | cons second way =>
        simp only [Node.erase]
        split
        next inner hinner => exact h.putEntry (ih (h.child? hinner)) name
        next => exact h

end Proper

end Node

namespace Editing

variable {α β : Type}

/-- A change leaves a proper tree proper, also where it fails. -/
def Keeps (change : Editing α) : Prop :=
  ∀ top : Node, top.Proper → match change.run top with
    | .ok _ after => after.Proper
    | .error _ after => after.Proper

theorem keeps_pure (a : α) : Keeps (pure a) := fun _ h => h

theorem keeps_throw (e : PathError) : Keeps (throw e : Editing α) := fun _ h => h

theorem keeps_get : Keeps get := fun _ h => h

theorem keeps_modify {f : Node → Node} (h : ∀ top, top.Proper → (f top).Proper) :
    Keeps (modify f) := h

theorem Keeps.bind {change : Editing α} {next : α → Editing β} (h : Keeps change)
    (hnext : ∀ a, Keeps (next a)) : Keeps (change >>= next) := by
  intro top htop
  have hchange := h top htop
  cases hrun : change.run top with
  | ok a after =>
    rw [hrun] at hchange
    have hbind : (change >>= next).run top = (next a).run after := by
      rw [EStateM.run_bind, hrun]
    rw [hbind]
    exact hnext a after hchange
  | error e after =>
    rw [hrun] at hchange
    have hbind : (change >>= next).run top = .error e after := by
      rw [EStateM.run_bind, hrun]
    rw [hbind]
    exact hchange

theorem keeps_guard {p : Prop} [Decidable p] {e : PathError} {next : PUnit → Editing α}
    (h : ∀ u, Keeps (next u)) : Keeps (if p then throw e >>= next else next ⟨⟩) := by
  split
  · exact (keeps_throw e).bind h
  · exact h _

theorem keeps_follow (isFree : Bool) (way : List FileName) (steps : List PathStep) :
    Keeps (follow isFree way steps) := by
  refine keeps_get.bind fun top => ?_
  split
  · exact keeps_pure _
  · exact keeps_throw _

theorem keeps_place {node : Node} (h : node.Proper) (way : List FileName) (name : FileName) :
    Keeps (place node way name) :=
  keeps_guard fun _ => keeps_modify fun _ htop => htop.put h _

theorem keeps_enter (way : List FileName) (step : PathStep) (isLast : Bool) :
    Keeps (enter way step isLast) := by
  cases step with
  | stay => exact keeps_pure _
  | up => exact keeps_pure _
  | down name =>
    refine keeps_get.bind fun top => ?_
    split
    · exact (keeps_place .empty way name).bind fun _ => keeps_pure _
    · split
      · split
        · exact keeps_pure _
        · split <;> exact keeps_throw _
      · exact keeps_throw _

theorem keeps_enterAll (way : List FileName) (steps : List PathStep) :
    Keeps (enterAll way steps) := by
  induction steps generalizing way with
  | nil => exact keeps_pure _
  | cons step steps ih => exact (keeps_enter way step _).bind fun _ => ih _

theorem keeps_enterPath (base : List FileName) (path : List UInt8)
    (limit : List PathStep → List PathStep) : Keeps (enterPath base path limit) :=
  keeps_guard fun _ => keeps_enterAll _ _

theorem keeps_write (base : List FileName) (path content : List UInt8) :
    Keeps (write base path content) := by
  refine (keeps_enterPath base path outerSteps).bind fun way => ?_
  split
  · refine (keeps_follow true way _).bind fun file => keeps_get.bind fun top => ?_
    exact keeps_guard fun _ => keeps_modify fun _ htop => htop.put (.file content) _
  · exact keeps_throw _

theorem keeps_makeLink (base : List FileName) (path target : List UInt8) :
    Keeps (makeLink base path target) := by
  refine (keeps_enterPath base path outerSteps).bind fun way => ?_
  split
  · refine keeps_guard fun _ => keeps_guard fun _ => keeps_get.bind fun top => ?_
    exact keeps_guard fun _ => keeps_place (.link target) way _
  · exact keeps_throw _

theorem keeps_remove (base : List FileName) (path : List UInt8) : Keeps (remove base path) := by
  have herase (way : List FileName) : Keeps (do
      if ((← get).at? way).isNone then throw .missing
      modify (·.erase way)) :=
    keeps_get.bind fun top => keeps_guard fun _ => keeps_modify fun _ htop => htop.erase way
  unfold remove
  refine keeps_guard fun _ => ?_
  dsimp only
  split
  · exact (keeps_follow false _ _).bind fun _ => (keeps_pure _).bind herase
  · exact (keeps_follow false _ _).bind herase

theorem keeps_perform (base : List FileName) (e : TreeEdit) : Keeps (perform base e) := by
  cases e with
  | write path content => exact keeps_write base path content
  | makeFolder path => exact (keeps_enterPath base path id).bind fun _ => keeps_pure _
  | makeLink path target => exact keeps_makeLink base path target
  | remove path => exact keeps_remove base path

end Editing

namespace Node

theorem Proper.edit {top : Node} (h : top.Proper) (base : List FileName) (e : TreeEdit) :
    (top.edit base e).2.Proper := by
  have hkeeps := Editing.keeps_perform base e top h
  rw [Node.edit]
  cases hrun : (Editing.perform base e).run top <;> rwa [hrun] at hkeeps

/-- Whatever was done to a tree that was empty at first, it is a proper one. -/
theorem proper_of_edits (base : List FileName) (es : List TreeEdit) :
    (es.foldl (fun top e => (top.edit base e).2) Node.empty).Proper :=
  List.foldlRecOn es _ .empty fun _ htop e _ => htop.edit base e

end Node

end LiveEdit
