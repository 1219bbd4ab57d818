import TaskGraph.Proofs.Subgraph.Apply
import TaskGraph.Proofs.Validation.Exact

/-!
# Applying a pack to any parent

A pack may be applied to a parent that has changed since, or with another selection. Its id may then
be taken, and the sites that it maps may be gone, selected, or mapped twice. Whatever the pack says,
applying it puts the wrapper beside the tasks that are not selected and changes nothing but the
sites that some mapping targets, for each of which the last such mapping counts.
-/
namespace TaskGraph

/-- The mapping is the last one that targets the site. -/
def Mapping.IsLast (mappings : List Mapping) (site : Site) (m : Mapping) : Prop :=
  ∃ before after, mappings = before ++ m :: after ∧ m.target = site ∧
    ∀ later ∈ after, later.target ≠ site

/-- The site is an output binding or belongs to a task of the graph that is not selected. -/
def Graph.keeps (g : Graph) (selection : Selection) : Site → Bool
  | .argument id _ => g.containsTask id && !selection.tasks.contains id
  | .output _ => true

/-- What applying a pack leaves as it was in `parent` and in its graph `g`, and what the mappings
change; `graph` is then the graph of `result`. -/
structure AppliedFrame (packed : Packed) (selection : Selection) (parent : Component) (g : Graph)
    (result : Component) (graph : Graph) (wrapperId : String) : Prop where
  ids : graph.tasks.keys.Perm (wrapperId :: g.tasks.keys.filter (!selection.tasks.contains ·))
  wrapperId_free : wrapperId ∉ g.tasks.keys.filter (!selection.tasks.contains ·)
  wrapperId_kept : packed.wrapperId ∉ g.tasks.keys.filter (!selection.tasks.contains ·) →
    wrapperId = packed.wrapperId
  wrapper : graph.task? wrapperId = some packed.wrapper
  unselected : ∀ id t, g.task? id = some t → ¬ selection.tasks.contains id →
    ∃ arguments, graph.task? id = some { t with arguments }
  argument : ∀ id name, g.containsTask id → ¬ selection.tasks.contains id →
    (∀ m ∈ packed.mappings, m.target ≠ .argument id name) ∧
      graph.argument? id name = g.argument? id name ∨
    ∃ m : Mapping, m.IsLast packed.mappings (.argument id name) ∧
      graph.argument? id name = some (.taskOutput ⟨wrapperId, m.nestedOutput⟩)
  binding : ∀ name,
    (∀ m ∈ packed.mappings, m.target ≠ .output name) ∧
      graph.outputValues.get? name = g.outputValues.get? name ∨
    ∃ m : Mapping, m.IsLast packed.mappings (.output name) ∧
      graph.outputValues.get? name = some ⟨wrapperId, m.nestedOutput⟩
  /-- Only the mappings of kept sites count. -/
  absent : ∀ mappings, mappings.filter (g.keeps selection ·.target) =
      packed.mappings.filter (g.keeps selection ·.target) →
    { packed with mappings }.apply selection parent = .ok result
  inputs : result.inputs = parent.inputs.filter fun i =>
    ¬ packed.lifted.contains i.name ∨ graph.ReadsInput i.name
  outputs : result.outputs = parent.outputs
  name : result.name = parent.name
  description : result.description = parent.description
  metadata : result.metadata = parent.metadata

namespace Packed

variable {packed : Packed} {selection : Selection} {parent : Component} {g : Graph}

theorem lastOutput?_cases (site : Site) (mappings : List Mapping) :
    (∀ m ∈ mappings, m.target ≠ site) ∧ lastOutput? site mappings = none ∨
      ∃ m : Mapping, m.IsLast mappings site ∧
        lastOutput? site mappings = some m.nestedOutput := by
  induction mappings with
  | nil => exact .inl ⟨nofun, rfl⟩
  | cons m mappings ih =>
    rcases ih with ⟨hnone, hlast⟩ | ⟨l, ⟨before, after, heq, htarget, hafter⟩, hlast⟩
    · by_cases hm : m.target = site
      · refine .inr ⟨m, ⟨[], mappings, rfl, hm, hnone⟩, ?_⟩
        rw [lastOutput?, hlast, if_pos hm, Option.none_or]
      · refine .inl ⟨List.forall_mem_cons.2 ⟨hm, hnone⟩, ?_⟩
        rw [lastOutput?, hlast, if_neg hm, Option.none_or]
    · refine .inr ⟨l, ⟨m :: before, after, by rw [heq, List.cons_append], htarget, hafter⟩, ?_⟩
      rw [lastOutput?, hlast, Option.some_or]

theorem rewire_of_absent {wrapperId : String} {m : Mapping} {id name : String}
    (htarget : m.target = .argument id name) (h : g.task? id = none) :
    rewire wrapperId g m = g := by
  obtain ⟨tasks, outputValues⟩ := g
  rw [rewire, htarget]
  dsimp only
  congr 1
  ext k t
  rw [NameMap.get?_modify]
  by_cases hk : k = id
  · rw [if_pos hk, hk, show tasks.get? id = none from h, Option.map_none]
  · rw [if_neg hk]

theorem keeps_eq_false {id name : String} (h : g.keeps selection (.argument id name) = false) :
    (rest selection g).task? id = none := by
  rw [task?_rest]
  rw [Graph.keeps, Bool.and_eq_false_iff, Bool.not_eq_false'] at h
  rcases h with h | h
  · have habsent : g.task? id = none := NameMap.From.contains_eq_false_iff.1 h
    rw [habsent, ite_self]
  · rw [if_pos h]

/-- What is not there stays away while other sites are rewired, so the mappings of kept sites do the
same alone. -/
theorem foldl_rewire_filter (wrapperId : String) (mappings : List Mapping) {h : Graph}
    (hrest : ∀ id, (rest selection g).task? id = none → h.task? id = none) :
    (mappings.filter (g.keeps selection ·.target)).foldl (rewire wrapperId) h =
      mappings.foldl (rewire wrapperId) h := by
  induction mappings generalizing h with
  | nil => rfl
  | cons m mappings ih =>
    rw [List.foldl_cons, List.filter_cons]
    split
    · rw [List.foldl_cons]
      refine ih fun id hid => ?_
      rw [task?_rewire, hrest id hid, Option.map_none]
    · rename_i hkeeps
      rw [Bool.not_eq_true] at hkeeps
      cases htarget : m.target with
      | output name =>
        rw [htarget] at hkeeps
        cases hkeeps
      | argument id name =>
        rw [htarget] at hkeeps
        rw [rewire_of_absent htarget (hrest id (keeps_eq_false hkeeps)), ih hrest]

theorem applied_congr {mappings : List Mapping}
    (h : mappings.filter (g.keeps selection ·.target) =
      packed.mappings.filter (g.keeps selection ·.target)) :
    { packed with mappings }.applied selection parent g = packed.applied selection parent g := by
  have hrewired : mappings.foldl (rewire (packed.appliedId selection g)) (rest selection g) =
      packed.mappings.foldl (rewire (packed.appliedId selection g)) (rest selection g) := by
    rw [← foldl_rewire_filter _ mappings fun _ => id, h, foldl_rewire_filter _ _ fun _ => id]
  have hgraph : { packed with mappings }.appliedGraph selection g =
      packed.appliedGraph selection g := by
    have hid : { packed with mappings }.appliedId selection g = packed.appliedId selection g := rfl
    simp only [appliedGraph, hid, hrewired]
  unfold applied
  rw [hgraph]

theorem keys_rest_perm (selection : Selection) (g : Graph) :
    (rest selection g).tasks.keys.Perm (g.tasks.keys.filter (!selection.tasks.contains ·)) := by
  rw [List.perm_ext_iff_of_nodup (NameMap.From.keys_nodup _)
    ((NameMap.From.keys_nodup _).filter _)]
  intro id
  rw [List.mem_filter, Graph.mem_taskKeys_iff, Graph.mem_taskKeys_iff, Graph.containsTask_iff,
    Graph.containsTask_iff, task?_rest]
  by_cases h : selection.tasks.contains id <;> simp [h]

theorem appliedId_notMem (packed : Packed) (selection : Selection) (g : Graph) :
    packed.appliedId selection g ∉ g.tasks.keys.filter (!selection.tasks.contains ·) :=
  fun hmem => freshName_notMem _ _ ((keys_rest_perm selection g).mem_iff.2 hmem)

theorem keys_appliedGraph_perm (packed : Packed) (selection : Selection) (g : Graph) :
    (packed.appliedGraph selection g).tasks.keys.Perm
      (packed.appliedId selection g :: g.tasks.keys.filter (!selection.tasks.contains ·)) := by
  have hnodup : (packed.appliedId selection g ::
      g.tasks.keys.filter (!selection.tasks.contains ·)).Nodup :=
    List.nodup_cons.2 ⟨packed.appliedId_notMem selection g,
      (NameMap.From.keys_nodup _).filter _⟩
  rw [List.perm_ext_iff_of_nodup (NameMap.From.keys_nodup _) hnodup]
  intro id
  rw [List.mem_cons, ← (keys_rest_perm selection g).mem_iff, Graph.mem_taskKeys_iff,
    Graph.mem_taskKeys_iff, Graph.containsTask_iff, Graph.containsTask_iff, task?_appliedGraph,
    task?_rest]
  by_cases hid : id = packed.appliedId selection g
  · simp [hid]
  · by_cases hselected : selection.tasks.contains id <;> simp [hid, hselected]

theorem appliedFrame (packed : Packed) (selection : Selection) (hg : parent.graph? = some g) :
    AppliedFrame packed selection parent g (packed.applied selection parent g)
      (packed.appliedGraph selection g) (packed.appliedId selection g) := by
  have hne {id : String} (hid : g.containsTask id) (hunselected : ¬ selection.tasks.contains id) :
      id ≠ packed.appliedId selection g := by
    rintro rfl
    refine packed.appliedId_notMem selection g
      (List.mem_filter.2 ⟨Graph.mem_taskKeys_iff.2 hid, ?_⟩)
    simpa using hunselected
  constructor
  case ids => exact packed.keys_appliedGraph_perm selection g
  case wrapperId_free => exact packed.appliedId_notMem selection g
  case wrapperId_kept =>
    exact fun hnew => freshName_of_notMem fun hmem =>
      hnew ((keys_rest_perm selection g).mem_iff.1 hmem)
  case wrapper => exact task?_appliedGraph_appliedId packed selection g
  case unselected => exact fun id t ht hid => ⟨_, task?_appliedGraph_of_rest ht hid⟩
  case argument =>
    intro id name hid hunselected
    rw [argument?_appliedGraph (hne hid hunselected) hunselected, if_pos hid]
    rcases lastOutput?_cases (.argument id name) packed.mappings with
      ⟨hnone, hlast⟩ | ⟨m, hm, hlast⟩
    · exact .inl ⟨hnone, by rw [hlast, Option.map_none, Option.none_or]⟩
    · exact .inr ⟨m, hm, by rw [hlast, Option.map_some, Option.some_or]⟩
  case binding =>
    intro name
    rw [get?_outputValues_appliedGraph]
    rcases lastOutput?_cases (.output name) packed.mappings with ⟨hnone, hlast⟩ | ⟨m, hm, hlast⟩
    · exact .inl ⟨hnone, by rw [hlast, Option.map_none, Option.none_or]⟩
    · exact .inr ⟨m, hm, by rw [hlast, Option.map_some, Option.some_or]⟩
  case absent =>
    intro mappings h
    rw [apply_eq_ok hg, applied_congr h]
  case inputs =>
    refine List.filter_congr fun i _ => ?_
    rw [Bool.eq_iff_iff, Bool.or_eq_true, decide_eq_true_eq, Graph.contains_referencedInputs_iff,
      Bool.not_eq_true', Bool.not_eq_true]
    rfl
  all_goals rfl

end Packed

/-- Applying any pack to a graph replaces the selected tasks by the wrapper and touches nothing but
what the mappings target and the lifted inputs. -/
theorem Component.frame_of_apply {packed : Packed} {selection : Selection} {parent : Component}
    {g : Graph} (hg : parent.graph? = some g) :
    ∃ result graph wrapperId, packed.apply selection parent = .ok result ∧
      result.graph? = some graph ∧
      AppliedFrame packed selection parent g result graph wrapperId :=
  ⟨_, _, _, Packed.apply_eq_ok hg, Packed.graph?_applied, Packed.appliedFrame packed selection hg⟩

def draftGraph : Graph where
  tasks := NameMap.ofList [
    ("Subgraph", { reference := {} }),
    ("clean", {
      reference := {}
      arguments := .ofList [("rows", .taskOutput ⟨"Subgraph", "rows"⟩)] }),
    ("plot", {
      reference := {}
      arguments := .ofList [("rows", .taskOutput ⟨"clean", "rows"⟩)] })]

def draftPipeline : Component where
  inputs := [{ name := "seed", value := some "1" }, { name := "rate", value := some "0.5" }]
  implementation := some (.graph draftGraph)

/-- A pack of another version of the pipeline: its id is taken, one consumer is gone, another is
selected, and a third one is mapped twice. -/
def stalePack : Packed where
  wrapperId := "Subgraph"
  wrapper := { reference := {}, arguments := .ofList [("seed", .graphInput "seed")] }
  mappings := [
    ⟨⟨"clean", "rows"⟩, "rows", .argument "plot" "rows"⟩,
    ⟨⟨"clean", "rows"⟩, "rows", .argument "merge" "rows"⟩,
    ⟨⟨"load", "rows"⟩, "raw", .argument "clean" "rows"⟩,
    ⟨⟨"clean", "table"⟩, "table", .argument "plot" "rows"⟩,
    ⟨⟨"clean", "table"⟩, "table", .output "table"⟩]
  lifted := NameSet.ofList ["rate", "seed"]

def draftSelection : Selection := { tasks := NameSet.ofList ["clean", "load"] }

theorem frame_of_apply_stale :
    draftPipeline.graph? = some draftGraph ∧
    ∃ result graph wrapperId, stalePack.apply draftSelection draftPipeline = .ok result ∧
      result.graph? = some graph ∧
      AppliedFrame stalePack draftSelection draftPipeline draftGraph result graph wrapperId :=
  ⟨rfl, Component.frame_of_apply rfl⟩

end TaskGraph
