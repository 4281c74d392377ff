import LiveEdit.Tree.Resolve
import Mathlib.Data.List.Basic

/-! Which paths lead somewhere in a tree. The bound on the steps never keeps one from its end. -/
namespace LiveEdit

namespace Node

/--
The steps lead from the folder at a way to `goal`, where `links` tells how many links were met
before. A link leads on by its target's steps, from where it is or from the top.
-/
inductive Leads (top : Node) (goal : List FileName) :
    (links : Nat) → (way : List FileName) → List PathStep → Prop
  | arrive {links : Nat} (h : (top.at? goal).isSome) : Leads top goal links goal []
  | stay {links : Nat} {way : List FileName} {steps : List PathStep}
      {entries : List (FileName × Node)} (h : top.at? way = some (.folder entries))
      (rest : Leads top goal links way steps) : Leads top goal links way (.stay :: steps)
  | up {links : Nat} {way : List FileName} {steps : List PathStep}
      {entries : List (FileName × Node)} (h : top.at? way = some (.folder entries))
      (rest : Leads top goal links way.dropLast steps) : Leads top goal links way (.up :: steps)
  | down {links : Nat} {way : List FileName} {name : FileName} {steps : List PathStep}
      {child : Node} (h : top.at? (way ++ [name]) = some child)
      (hlink : ∀ target, child ≠ .link target) (hname : name.length ≤ maxNameBytes)
      (rest : Leads top goal links (way ++ [name]) steps) :
      Leads top goal links way (.down name :: steps)
  | link {links : Nat} {way : List FileName} {name : FileName} {steps : List PathStep}
      {target : List UInt8} (h : top.at? (way ++ [name]) = some (.link target))
      (hlinks : links < maxLinks) (hname : name.length ≤ maxNameBytes)
      (rest : Leads top goal (links + 1) (pathStart way target) (pathSteps target ++ steps)) :
      Leads top goal links way (.down name :: steps)

/-- A path that starts in the folder at `base` leads to `way`. -/
structure Reaches (top : Node) (base : List FileName) (path : List UInt8) (way : List FileName) :
    Prop where
  nonempty : path ≠ []
  noZero : 0 ∉ path
  leads : top.Leads way 0 (pathStart base path) (pathSteps path)

variable {top node child : Node} {way ways goal base : List FileName} {name : FileName}
  {entries : List (FileName × Node)} {links fuel : Nat} {steps : List PathStep}
  {path target : List UInt8}

theorem at?_append (node : Node) (way rest : List FileName) :
    node.at? (way ++ rest) = (node.at? way).bind (·.at? rest) := by
  induction way generalizing node with
  | nil => rfl
  | cons name way ih =>
    rw [List.cons_append, at?, at?, Option.bind_assoc]
    exact congrArg _ (funext ih)

theorem child?_eq_some (h : node.child? name = some child) : ∃ entries, node = .folder entries := by
  cases node with
  | folder entries => exact ⟨entries, rfl⟩
  | file _ => cases h
  | link _ => cases h

theorem at?_concat_eq_some_iff : top.at? (way ++ [name]) = some child ↔
    ∃ entries, top.at? way = some (.folder entries) ∧
      (folder entries).child? name = some child := by
  rw [at?_append, Option.bind_eq_some_iff]
  simp only [at?, Option.bind_fun_some]
  constructor
  · rintro ⟨node, hnode, hchild⟩
    obtain ⟨entries, rfl⟩ := child?_eq_some hchild
    exact ⟨entries, hnode, hchild⟩
  · rintro ⟨entries, hnode, hchild⟩
    exact ⟨_, hnode, hchild⟩

theorem at?_dropLast (h : (top.at? way).isSome) : (top.at? way.dropLast).isSome := by
  rcases List.eq_nil_or_concat way with rfl | ⟨way, name, rfl⟩
  · exact h
  · rw [List.concat_eq_append] at h ⊢
    rw [at?_append] at h
    rw [List.dropLast_concat]
    exact Option.isSome_of_isSome_bind h

theorem mem_of_child? (h : (folder entries).child? name = some child) :
    (name, child) ∈ entries := by
  obtain ⟨e, he, rfl⟩ := Option.map_eq_some_iff.mp h
  obtain rfl : e.1 = name := by simpa using List.find?_some he
  exact List.mem_of_find?_eq_some he

theorem linkBytes_le_of_mem (h : (name, child) ∈ entries) :
    child.linkBytes ≤ linkBytesOf entries := by
  induction entries with
  | nil => cases h
  | cons e entries ih =>
    rw [linkBytesOf]
    rcases List.mem_cons.mp h with rfl | h
    · exact Nat.le_add_right _ _
    · exact Nat.le_trans (ih h) (Nat.le_add_left _ _)

/-- Nothing in a tree has more link bytes than the tree. -/
theorem linkBytes_le (h : top.at? way = some node) : node.linkBytes ≤ top.linkBytes := by
  induction way generalizing top with
  | nil =>
    cases h
    exact Nat.le_refl _
  | cons name way ih =>
    obtain ⟨child, hchild, hnode⟩ := Option.bind_eq_some_iff.mp h
    obtain ⟨entries, rfl⟩ := child?_eq_some hchild
    exact Nat.le_trans (ih hnode) (linkBytes_le_of_mem (mem_of_child? hchild))

theorem splitSlashes_ne_nil (path : List UInt8) : splitSlashes path ≠ [] := by
  cases path with
  | nil => simp [splitSlashes]
  | cons b bs =>
    rw [splitSlashes]
    split
    · simp
    · split <;> simp

theorem length_splitSlashes_le (path : List UInt8) :
    (splitSlashes path).length ≤ path.length + 1 := by
  induction path with
  | nil => simp [splitSlashes]
  | cons b bs ih =>
    rw [splitSlashes]
    split
    · simpa using ih
    · split
      next h => simp
      next h =>
        rw [h] at ih
        simp only [List.length_cons] at ih ⊢
        omega

theorem pathSteps_ne_nil (path : List UInt8) : pathSteps path ≠ [] :=
  mt List.map_eq_nil_iff.mp (splitSlashes_ne_nil path)

theorem length_pathSteps_le (path : List UInt8) : (pathSteps path).length ≤ path.length + 1 := by
  rw [pathSteps, List.length_map]
  exact length_splitSlashes_le path

theorem follow_stay_iff :
    top.follow false (fuel + 1) links way (.stay :: steps) = .ok goal ↔
      ∃ entries, top.at? way = some (.folder entries) ∧
        top.follow false fuel links way steps = .ok goal := by
  rw [follow]
  rcases top.at? way with _ | _ | entries | _ <;> simp

theorem follow_up_iff :
    top.follow false (fuel + 1) links way (.up :: steps) = .ok goal ↔
      ∃ entries, top.at? way = some (.folder entries) ∧
        top.follow false fuel links way.dropLast steps = .ok goal := by
  rw [follow]
  rcases top.at? way with _ | _ | entries | _ <;> simp

theorem follow_down_iff :
    top.follow false (fuel + 1) links way (.down name :: steps) = .ok goal ↔
      name.length ≤ maxNameBytes ∧ ∃ child, top.at? (way ++ [name]) = some child ∧
        match child with
        | .link target => links < maxLinks ∧
          top.follow false fuel (links + 1) (pathStart way target) (pathSteps target ++ steps) =
            .ok goal
        | _ => top.follow false fuel links (way ++ [name]) steps = .ok goal := by
  rw [follow]
  simp only [at?_concat_eq_some_iff]
  rcases top.at? way with _ | _ | entries | _
  case some.folder =>
    by_cases hname : maxNameBytes < name.length
    · simp [hname, Nat.not_le.mpr hname]
    · have hle := Nat.le_of_not_lt hname
      rcases hchild : (folder entries).child? name with _ | _ | _ | target
      case some.link => by_cases hlinks : links < maxLinks <;> simp [hname, hle, hchild, hlinks]
      all_goals simp [hname, hle, hchild]
  all_goals simp

/-- Where the steps end, something is, if something is where no steps are left. -/
theorem leads_of_follow (h : top.follow false fuel links way steps = .ok goal)
    (hway : steps = [] → (top.at? way).isSome) : top.Leads goal links way steps := by
  induction fuel generalizing links way steps with
  | zero => cases h
  | succ fuel ih =>
    cases steps with
    | nil =>
      cases h
      exact .arrive (hway rfl)
    | cons step steps =>
      cases step with
      | stay =>
        obtain ⟨entries, hfolder, h⟩ := follow_stay_iff.mp h
        exact .stay hfolder (ih h fun _ => Option.isSome_of_eq_some hfolder)
      | up =>
        obtain ⟨entries, hfolder, h⟩ := follow_up_iff.mp h
        exact .up hfolder (ih h fun _ => at?_dropLast (Option.isSome_of_eq_some hfolder))
      | down name =>
        obtain ⟨hname, child, hchild, h⟩ := follow_down_iff.mp h
        have hsome := Option.isSome_of_eq_some hchild
        cases child with
        | file content => exact .down hchild nofun hname (ih h fun _ => hsome)
        | folder entries => exact .down hchild nofun hname (ih h fun _ => hsome)
        | link target =>
          refine .link hchild h.1 hname (ih h.2 fun hnil => ?_)
          exact absurd (List.append_eq_nil_iff.mp hnil).1 (pathSteps_ne_nil target)

/-- A link costs the steps of its target, and links are met only so often. -/
theorem follow_of_leads (h : top.Leads goal links way steps)
    (hfuel : steps.length + 1 + (maxLinks - links) * top.linkBytes ≤ fuel) :
    top.follow false fuel links way steps = .ok goal := by
  induction h generalizing fuel with
  | arrive h =>
    obtain ⟨fuel, rfl⟩ := Nat.exists_eq_add_one_of_ne_zero (n := fuel) (by omega)
    rfl
  | stay h rest ih =>
    obtain ⟨fuel, rfl⟩ := Nat.exists_eq_add_one_of_ne_zero (n := fuel) (by omega)
    rw [List.length_cons] at hfuel
    exact follow_stay_iff.mpr ⟨_, h, ih (by omega)⟩
  | up h rest ih =>
    obtain ⟨fuel, rfl⟩ := Nat.exists_eq_add_one_of_ne_zero (n := fuel) (by omega)
    rw [List.length_cons] at hfuel
    exact follow_up_iff.mpr ⟨_, h, ih (by omega)⟩
  | @down links way name steps child h hlink hname rest ih =>
    obtain ⟨fuel, rfl⟩ := Nat.exists_eq_add_one_of_ne_zero (n := fuel) (by omega)
    rw [List.length_cons] at hfuel
    have hrest : top.follow false fuel links (way ++ [name]) steps = .ok goal := ih (by omega)
    refine follow_down_iff.mpr ⟨hname, child, h, ?_⟩
    cases child with
    | link target => exact absurd rfl (hlink target)
    | file _ => exact hrest
    | folder _ => exact hrest
  | @link links way name steps target h hlinks hname rest ih =>
    obtain ⟨fuel, rfl⟩ := Nat.exists_eq_add_one_of_ne_zero (n := fuel) (by omega)
    have htarget : target.length + 2 ≤ top.linkBytes := linkBytes_le h
    have hsteps := length_pathSteps_le target
    have hleft : (maxLinks - links) * top.linkBytes =
        (maxLinks - (links + 1)) * top.linkBytes + top.linkBytes := by
      rw [← Nat.succ_mul]
      congr 1
      omega
    rw [List.length_cons] at hfuel
    refine follow_down_iff.mpr ⟨hname, _, h, hlinks, ih ?_⟩
    rw [List.length_append]
    omega

theorem resolve_eq_ok_iff : top.resolve base path = .ok way ↔ top.Reaches base path way := by
  have hfollow : top.follow false (top.stepBound (pathSteps path)) 0 (pathStart base path)
      (pathSteps path) = .ok way ↔ top.Leads way 0 (pathStart base path) (pathSteps path) :=
    ⟨fun h => leads_of_follow h fun hnil => absurd hnil (pathSteps_ne_nil path),
      fun h => follow_of_leads h (Nat.le_refl _)⟩
  rw [resolve]
  split
  next hzero =>
    exact ⟨nofun, fun h => absurd (List.contains_iff_mem.mp hzero) h.noZero⟩
  next hzero =>
    split
    next hempty => exact ⟨nofun, fun h => absurd (List.isEmpty_iff.mp hempty) h.nonempty⟩
    next hempty =>
      rw [hfollow]
      exact ⟨fun h => ⟨mt List.isEmpty_iff.mpr hempty, mt List.contains_iff_mem.mpr hzero, h⟩,
        Reaches.leads⟩

end Node
end LiveEdit
