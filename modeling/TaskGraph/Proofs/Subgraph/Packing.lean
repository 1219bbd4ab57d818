import TaskGraph.Proofs.FreshName
import TaskGraph.Proofs.Graph
import TaskGraph.Subgraph.Pack

/-!
# What packing makes of a selection

The new component has one input for each selected input and one inlet for each outside source that
a selected task reads; the names of all of them are distinct, and the wrapper feeds each of them.
It has one outlet for each selected output that is bound inside, and one for every other output of
a selected task that is read from outside. Every outside site that reads a selected task has a
mapping, and every mapping leads its target to an outlet of exactly what the target reads.
-/
namespace TaskGraph

namespace Selection

theorem stranger?_eq_none_iff {s : Selection} {c : Component} {g : Graph} :
    s.stranger? c g = none ↔ (∀ id, s.tasks.contains id → g.containsTask id) ∧
      (∀ name, s.inputs.contains name → c.hasInput name) ∧
      (∀ name, s.outputs.contains name → c.hasOutput name) := by
  simp [stranger?, List.find?_eq_none, NameMap.From.mem_keys_iff_contains]

theorem check_eq_ok_iff {s : Selection} {c : Component} {g : Graph} :
    s.check c g = .ok () ↔ s.stranger? c g = none := by
  rw [check]
  split <;> simp_all

end Selection

theorem Argument.argument_of_crossing {tasks inputs : NameSet} {a : Argument} {source : Source}
    (h : a.relation tasks inputs = .crossing source) : source.argument = a := by
  cases a with
  | literal value => cases h
  | secret name => cases h
  | graphInput name =>
    rw [relation] at h
    split at h <;> cases h
    rfl
  | taskOutput o =>
    rw [relation] at h
    split at h <;> cases h
    rfl

theorem Argument.of_includedInput {tasks inputs : NameSet} {a : Argument} {name : String}
    (h : a.relation tasks inputs = .includedInput name) :
    a = .graphInput name ∧ inputs.contains name := by
  cases a with
  | literal value => cases h
  | secret name => cases h
  | graphInput other =>
    rw [relation] at h
    split at h <;> cases h
    rename_i hother
    exact ⟨rfl, hother⟩
  | taskOutput o =>
    rw [relation] at h
    split at h <;> cases h

namespace Packing

variable {p : Packing}

theorem unselected_of_crossing {o : TaskOutput} {source : Source}
    (h : p.relation (.taskOutput o) = .crossing source) : ¬ p.selection.tasks.contains o.task := by
  intro htask
  rw [relation, Argument.relation, if_pos htask] at h
  cases h

theorem unselected_input_of_crossing {name : String} {source : Source}
    (h : p.relation (.graphInput name) = .crossing source) :
    ¬ p.selection.inputs.contains name := by
  intro hname
  rw [relation, Argument.relation, if_pos hname] at h
  cases h

theorem get?_selectedTasks (id : String) :
    p.selectedTasks.get? id =
      if p.selection.tasks.contains id then p.graph.task? id else none := by
  rw [selectedTasks, NameMap.From.get?_filter, Graph.task?]
  by_cases h : p.selection.tasks.contains id <;>
    cases p.graph.tasks.get? id <;> simp [h, Option.filter]

theorem mem_selectedInputs_iff {i : Input} :
    i ∈ p.selectedInputs ↔
      p.selection.inputs.contains i.name ∧ p.parent.input? i.name = some i := by
  simp only [selectedInputs, List.mem_filterMap, NameMap.From.mem_keys_iff_contains]
  constructor
  · rintro ⟨name, hname, hi⟩
    rw [Component.name_of_input? hi]
    exact ⟨hname, hi⟩
  · rintro ⟨hname, hi⟩
    exact ⟨i.name, hname, hi⟩

theorem nodup_selectedInputs (p : Packing) : (p.selectedInputs.map (·.name)).Nodup :=
  nodup_map_filterMap (fun _ _ => Component.name_of_input?)
    (by simpa using NameMap.From.keys_nodup _)

theorem mem_selectedOutputs_iff {o : Output} :
    o ∈ p.selectedOutputs ↔
      p.selection.outputs.contains o.name ∧ p.parent.output? o.name = some o := by
  simp only [selectedOutputs, List.mem_filterMap, NameMap.From.mem_keys_iff_contains]
  constructor
  · rintro ⟨name, hname, ho⟩
    rw [Component.name_of_output? ho]
    exact ⟨hname, ho⟩
  · rintro ⟨hname, ho⟩
    exact ⟨o.name, hname, ho⟩

theorem nodup_selectedOutputs (p : Packing) : (p.selectedOutputs.map (·.name)).Nodup :=
  nodup_map_filterMap (fun _ _ => Component.name_of_output?)
    (by simpa using NameMap.From.keys_nodup _)

theorem contains_lifted_iff {name : String} :
    p.lifted.contains name ↔ p.selection.inputs.contains name ∧
      ∃ i value, p.parent.input? name = some i ∧ i.value = some value := by
  simp only [lifted, NameSet.contains_ofList_iff, List.mem_map, List.mem_filter,
    mem_selectedInputs_iff, Option.isSome_iff_exists]
  constructor
  · rintro ⟨i, ⟨⟨hselected, hi⟩, value, hvalue⟩, rfl⟩
    exact ⟨hselected, i, value, hi, hvalue⟩
  · rintro ⟨hselected, i, value, hi, hvalue⟩
    have hname := Component.name_of_input? hi
    exact ⟨i, ⟨⟨hname ▸ hselected, hname ▸ hi⟩, value, hvalue⟩, hname⟩

/-- Either the source has an inlet already, or it gets one with a free name. -/
theorem addInlet_cases (p : Packing) (position : Option Position) (before : Nat)
    (inlets : List Inlet) (source : Source) :
    (source ∈ inlets.map (·.source) ∧ p.addInlet position before inlets source = inlets) ∨
      (source ∉ inlets.map (·.source) ∧ ∃ annotations,
        p.addInlet position before inlets source = inlets ++ [⟨source, {
          name := freshName source.baseName
            (p.selectedInputs.map (·.name) ++ inlets.map (·.input.name))
          type := p.typeOf? source
          annotations }⟩]) := by
  rw [addInlet]
  by_cases h : source ∈ inlets.map (·.source)
  · left
    refine ⟨h, if_pos ?_⟩
    simpa using h
  · right
    refine ⟨h, ?_⟩
    rw [if_neg (by simpa using h)]
    cases position with
    | none => exact ⟨_, rfl⟩
    | some anchor => exact ⟨_, rfl⟩

theorem foldl_addInlet_induction {motive : List Inlet → Prop} {position : Option Position}
    {before : Nat} (add : ∀ inlets source, motive inlets →
      motive (p.addInlet position before inlets source))
    (arguments : List Argument) {inlets : List Inlet} (h : motive inlets) :
    motive (arguments.foldl (fun acc a =>
      match p.relation a with
      | .crossing source => p.addInlet position before acc source
      | _ => acc) inlets) := by
  induction arguments generalizing inlets with
  | nil => exact h
  | cons a arguments ih =>
    rw [List.foldl_cons]
    apply ih
    split
    · exact add _ _ h
    · exact h

/-- What holds of no inlets and is kept by adding one holds of all of them. -/
theorem inlets_induction {motive : List Inlet → Prop} (nil : motive [])
    (add : ∀ position before inlets source, motive inlets →
      motive (p.addInlet position before inlets source)) : motive p.inlets := by
  have htasks (tasks : List Task) {inlets : List Inlet} (h : motive inlets) :
      motive (tasks.foldl p.addInletsOf inlets) := by
    induction tasks generalizing inlets with
    | nil => exact h
    | cons t tasks ih => exact ih (foldl_addInlet_induction (add _ _) _ h)
  exact htasks _ nil

theorem nodup_inlets (p : Packing) :
    (p.selectedInputs.map (·.name) ++ p.inlets.map (·.input.name)).Nodup := by
  refine inlets_induction (motive := fun inlets =>
    (p.selectedInputs.map (·.name) ++ inlets.map (·.input.name)).Nodup) ?_ ?_
  · simpa using p.nodup_selectedInputs
  · intro position before inlets source ih
    rcases p.addInlet_cases position before inlets source with ⟨-, heq⟩ | ⟨-, annotations, heq⟩
    · rw [heq]
      exact ih
    · rw [heq, List.map_append, ← List.append_assoc, List.map_singleton, ← List.concat_eq_append]
      exact ih.concat (freshName_notMem _ _)

theorem nodup_sources_inlets (p : Packing) : (p.inlets.map (·.source)).Nodup := by
  refine inlets_induction (motive := fun inlets => (inlets.map (·.source)).Nodup) ?_ ?_
  · exact List.nodup_nil
  · intro position before inlets source ih
    rcases p.addInlet_cases position before inlets source with ⟨-, heq⟩ | ⟨hnew, annotations, heq⟩
    · rw [heq]
      exact ih
    · rw [heq, List.map_append, List.map_singleton, ← List.concat_eq_append]
      exact ih.concat hnew

theorem mem_sources_addInlet {position : Option Position} {before : Nat} {inlets : List Inlet}
    {source s : Source} :
    s ∈ (p.addInlet position before inlets source).map (·.source) ↔
      s ∈ inlets.map (·.source) ∨ s = source := by
  rcases p.addInlet_cases position before inlets source with ⟨hold, heq⟩ | ⟨-, annotations, heq⟩
  · rw [heq]
    exact ⟨.inl, fun h => h.elim id fun hs => hs ▸ hold⟩
  · simp [heq]

theorem mem_sources_addInletsOf {inlets : List Inlet} {t : Task} {s : Source} :
    s ∈ (p.addInletsOf inlets t).map (·.source) ↔
      s ∈ inlets.map (·.source) ∨ ∃ a ∈ t.arguments.values, p.relation a = .crossing s := by
  have hfold (before : Nat) (arguments : List Argument) (acc : List Inlet) :
      s ∈ (arguments.foldl (fun acc a =>
        match p.relation a with
        | .crossing source => p.addInlet t.position? before acc source
        | _ => acc) acc).map (·.source) ↔
      s ∈ acc.map (·.source) ∨ ∃ a ∈ arguments, p.relation a = .crossing s := by
    induction arguments generalizing acc with
    | nil => simp
    | cons a arguments ih =>
      rw [List.foldl_cons, ih]
      cases hrel : p.relation a with
      | crossing source =>
        simp only [mem_sources_addInlet, List.mem_cons, exists_eq_or_imp, hrel,
          Relation.crossing.injEq, or_assoc, eq_comm (a := s)]
      | inner => simp [hrel]
      | includedInput name => simp [hrel]
      | constant => simp [hrel]
  exact hfold _ _ _

/-- A selected task reads the source, which lies outside the selection. -/
def ReadsOutside (p : Packing) (source : Source) : Prop :=
  ∃ id name a, p.selection.tasks.contains id ∧ p.graph.argument? id name = some a ∧
    p.relation a = .crossing source

theorem mem_sources_inlets_iff {s : Source} :
    s ∈ p.inlets.map (·.source) ↔ p.ReadsOutside s := by
  have hfold (tasks : List Task) (acc : List Inlet) :
      s ∈ (tasks.foldl p.addInletsOf acc).map (·.source) ↔ s ∈ acc.map (·.source) ∨
        ∃ t ∈ tasks, ∃ a ∈ t.arguments.values, p.relation a = .crossing s := by
    induction tasks generalizing acc with
    | nil => simp
    | cons t tasks ih =>
      rw [List.foldl_cons, ih, mem_sources_addInletsOf]
      simp only [List.mem_cons, exists_eq_or_imp, or_assoc]
  rw [inlets, hfold]
  simp only [List.map_nil, List.not_mem_nil, false_or, NameMap.From.mem_values_iff,
    get?_selectedTasks]
  constructor
  · rintro ⟨t, ⟨id, ht⟩, a, ⟨name, ha⟩, hrel⟩
    rw [Option.ite_none_right_eq_some] at ht
    exact ⟨id, name, a, ht.1, by rw [Graph.argument?_of_task? ht.2, ha], hrel⟩
  · rintro ⟨id, name, a, hid, ha, hrel⟩
    obtain ⟨t, ht, hget⟩ := Graph.argument?_eq_some_iff.1 ha
    exact ⟨t, ⟨id, by rw [if_pos hid, ht]⟩, a, ⟨name, hget⟩, hrel⟩

/-- An inlet has a free name that comes from the name of its source, and the type of the source. -/
theorem inlet_spec {inlet : Inlet} (h : inlet ∈ p.inlets) : ∃ taken annotations, inlet.input = {
    name := freshName inlet.source.baseName taken
    type := p.typeOf? inlet.source
    annotations } := by
  revert inlet
  refine inlets_induction (motive := fun inlets => ∀ {inlet : Inlet}, inlet ∈ inlets →
    ∃ taken annotations, inlet.input = {
      name := freshName inlet.source.baseName taken
      type := p.typeOf? inlet.source
      annotations }) (fun h => by cases h) ?_
  intro position before inlets source ih
  rcases p.addInlet_cases position before inlets source with ⟨-, heq⟩ | ⟨-, annotations, heq⟩
  · rw [heq]
    exact ih
  · rw [heq]
    intro inlet hinlet
    rcases List.mem_append.1 hinlet with hold | hnew
    · exact ih hold
    · obtain rfl := List.mem_singleton.1 hnew
      exact ⟨_, _, rfl⟩

theorem mem_selectedOutlets_iff {outlet : Outlet} :
    outlet ∈ p.selectedOutlets ↔ outlet.output ∈ p.selectedOutputs ∧
      p.graph.outputValues.get? outlet.output.name = some outlet.source ∧
      p.selection.tasks.contains outlet.source.task := by
  rw [selectedOutlets, List.mem_filterMap]
  constructor
  · rintro ⟨o, ho, h⟩
    split at h
    · rename_i source hsource
      rw [Option.ite_none_right_eq_some, Option.some.injEq] at h
      obtain ⟨htask, rfl⟩ := h
      exact ⟨ho, hsource, htask⟩
    · cases h
  · rintro ⟨ho, hsource, htask⟩
    refine ⟨outlet.output, ho, ?_⟩
    rw [hsource]
    exact if_pos htask

theorem nodup_selectedOutlets (p : Packing) :
    (p.selectedOutlets.map (·.output.name)).Nodup := by
  refine nodup_map_filterMap ?_ p.nodup_selectedOutputs
  intro o outlet houtlet
  split at houtlet
  · rw [Option.ite_none_right_eq_some, Option.some.injEq] at houtlet
    rw [← houtlet.2]
  · cases houtlet

theorem mem_consumers_iff {site : Site} {o : TaskOutput} :
    (site, o) ∈ p.consumers ↔ p.graph.source? site = some o ∧
      p.selection.tasks.contains o.task ∧
      site.isOutside p.selection.tasks p.selection.outputs := by
  rw [consumers, Graph.externalConsumers, List.mem_filter, Graph.mem_references_iff,
    Bool.and_eq_true]

theorem addOutlet_cases (p : Packing) (selected outlets : List Outlet) (source : TaskOutput) :
    (source ∈ (selected ++ outlets).map (·.source) ∧
        p.addOutlet selected outlets source = outlets) ∨
      (source ∉ (selected ++ outlets).map (·.source) ∧ ∃ annotations,
        p.addOutlet selected outlets source = outlets ++ [⟨source, {
          name := freshName source.output ((selected ++ outlets).map (·.output.name))
          type := p.typeOfTaskOutput? source
          annotations }⟩]) := by
  rw [addOutlet]
  by_cases h : source ∈ (selected ++ outlets).map (·.source)
  · left
    refine ⟨h, if_pos ?_⟩
    simpa using h
  · right
    refine ⟨h, ?_⟩
    rw [if_neg (by simpa using h)]
    cases (p.graph.task? source.task).bind (·.position?) with
    | none => exact ⟨_, rfl⟩
    | some anchor => exact ⟨_, rfl⟩

/-- The outlets that stand for no selected output. -/
def consumedOutlets (p : Packing) : List Outlet :=
  (p.consumers.map (·.2)).foldl (p.addOutlet p.selectedOutlets) []

theorem outlets_eq (p : Packing) : p.outlets = p.selectedOutlets ++ p.consumedOutlets := rfl

theorem consumedOutlets_induction {motive : List Outlet → Prop} (nil : motive [])
    (add : ∀ outlets source, motive outlets →
      motive (p.addOutlet p.selectedOutlets outlets source)) : motive p.consumedOutlets :=
  List.foldlRecOn _ _ nil fun outlets h source _ => add outlets source h

theorem outlets_induction {motive : List Outlet → Prop} (selected : motive p.selectedOutlets)
    (add : ∀ outlets source, motive (p.selectedOutlets ++ outlets) →
      motive (p.selectedOutlets ++ p.addOutlet p.selectedOutlets outlets source)) :
    motive p.outlets := by
  rw [outlets_eq]
  refine consumedOutlets_induction (motive := fun outlets => motive (p.selectedOutlets ++ outlets))
    ?_ add
  rwa [List.append_nil]

/-- No source has two of the outlets that stand for no selected output, nor is it the source of a
selected one. -/
theorem nodup_sources_consumedOutlets (p : Packing) : (p.consumedOutlets.map (·.source)).Nodup ∧
    ∀ outlet ∈ p.consumedOutlets, outlet.source ∉ p.selectedOutlets.map (·.source) := by
  refine consumedOutlets_induction (motive := fun outlets => (outlets.map (·.source)).Nodup ∧
    ∀ outlet ∈ outlets, outlet.source ∉ p.selectedOutlets.map (·.source)) ?_ ?_
  · exact ⟨List.nodup_nil, by simp⟩
  · rintro outlets source ⟨hnodup, hothers⟩
    rcases p.addOutlet_cases p.selectedOutlets outlets source with ⟨-, heq⟩ | ⟨hnew, _, heq⟩
    · rw [heq]
      exact ⟨hnodup, hothers⟩
    · rw [List.map_append, List.mem_append, not_or] at hnew
      rw [heq, List.map_append, List.map_singleton, ← List.concat_eq_append]
      refine ⟨hnodup.concat hnew.2, fun outlet houtlet => ?_⟩
      rcases List.mem_append.1 houtlet with hold | hlast
      · exact hothers outlet hold
      · obtain rfl := List.mem_singleton.1 hlast
        exact hnew.1

theorem nodup_outlets (p : Packing) : (p.outlets.map (·.output.name)).Nodup := by
  refine outlets_induction (motive := fun outlets => (outlets.map (·.output.name)).Nodup)
    p.nodup_selectedOutlets fun outlets source ih => ?_
  rcases p.addOutlet_cases p.selectedOutlets outlets source with ⟨-, heq⟩ | ⟨-, annotations, heq⟩
  · rw [heq]
    exact ih
  · rw [heq, ← List.append_assoc, List.map_append, List.map_singleton, ← List.concat_eq_append]
    exact ih.concat (freshName_notMem _ _)

theorem mem_sources_addOutlet {selected outlets : List Outlet} {source s : TaskOutput} :
    s ∈ (selected ++ p.addOutlet selected outlets source).map (·.source) ↔
      s ∈ (selected ++ outlets).map (·.source) ∨ s = source := by
  rcases p.addOutlet_cases selected outlets source with ⟨hold, heq⟩ | ⟨-, annotations, heq⟩
  · rw [heq]
    exact ⟨.inl, fun h => h.elim id fun hs => hs ▸ hold⟩
  · simp [heq, or_assoc]

/-- The outlets expose the selected outputs that are bound inside and what is read from outside. -/
theorem mem_sources_outlets_iff {s : TaskOutput} :
    s ∈ p.outlets.map (·.source) ↔
      s ∈ p.selectedOutlets.map (·.source) ∨ ∃ site, (site, s) ∈ p.consumers := by
  have hfold (sources : List TaskOutput) (outlets : List Outlet) :
      s ∈ (p.selectedOutlets ++
        sources.foldl (p.addOutlet p.selectedOutlets) outlets).map (·.source) ↔
      s ∈ (p.selectedOutlets ++ outlets).map (·.source) ∨ s ∈ sources := by
    induction sources generalizing outlets with
    | nil => simp
    | cons source sources ih =>
      rw [List.foldl_cons, ih, mem_sources_addOutlet, List.mem_cons, or_assoc]
  have houtlets := hfold (p.consumers.map (·.2)) []
  rw [List.append_nil] at houtlets
  refine houtlets.trans (or_congr_right ?_)
  simp

/-- An outlet that is not a selected one is the only one of its source. -/
theorem outlet_cases {outlet : Outlet} (h : outlet ∈ p.outlets) :
    outlet ∈ p.selectedOutlets ∨
      ∀ other ∈ p.outlets, other.source = outlet.source → other = outlet := by
  revert outlet
  refine outlets_induction (motive := fun outlets => ∀ {outlet : Outlet}, outlet ∈ outlets →
    outlet ∈ p.selectedOutlets ∨ ∀ other ∈ outlets, other.source = outlet.source →
      other = outlet) (fun h => .inl h) fun outlets source ih => ?_
  rcases p.addOutlet_cases p.selectedOutlets outlets source with
    ⟨-, heq⟩ | ⟨hnew, annotations, heq⟩
  · rw [heq]
    exact ih
  · rw [heq, ← List.append_assoc]
    intro outlet houtlet
    rcases List.mem_append.1 houtlet with hold | hlast
    · refine (ih hold).imp_right fun hunique other hother hsource => ?_
      rcases List.mem_append.1 hother with hother | hother
      · exact hunique other hother hsource
      · obtain rfl := List.mem_singleton.1 hother
        exact absurd (List.mem_map.2 ⟨outlet, hold, hsource.symm⟩) hnew
    · right
      obtain rfl := List.mem_singleton.1 hlast
      intro other hother hsource
      rcases List.mem_append.1 hother with hother | hother
      · exact absurd (List.mem_map.2 ⟨other, hother, hsource⟩) hnew
      · exact List.mem_singleton.1 hother

/-- A mapping leads its target, which lies outside, to an outlet of what the target reads. -/
theorem outlet_of_mem_mappings {m : Mapping} (h : m ∈ p.mappings p.outlets) :
    p.graph.source? m.target = some m.source ∧ p.selection.tasks.contains m.source.task ∧
      m.target.isOutside p.selection.tasks ∅ ∧
      ∃ outlet ∈ p.outlets, outlet.source = m.source ∧ outlet.output.name = m.nestedOutput := by
  rw [mappings, List.mem_append, List.mem_map, List.mem_filterMap] at h
  rcases h with ⟨outlet, hmem, rfl⟩ | ⟨⟨site, source⟩, hmem, hfind⟩
  · obtain ⟨-, hsource, htask⟩ := mem_selectedOutlets_iff.1 hmem
    exact ⟨hsource, htask, rfl, outlet, List.mem_append_left _ hmem, rfl, rfl⟩
  · obtain ⟨outlet, houtlet, rfl⟩ := Option.map_eq_some_iff.1 hfind
    obtain ⟨hsource, htask, hside⟩ := mem_consumers_iff.1 hmem
    refine ⟨hsource, htask, ?_, outlet, List.mem_of_find?_eq_some houtlet, ?_, rfl⟩
    · cases site with
      | argument task name => exact hside
      | output name => rfl
    · simpa using List.find?_some houtlet

theorem nestedOutput_of_target {m : Mapping} {name : String} (h : m ∈ p.mappings p.outlets)
    (htarget : m.target = .output name) (hselected : p.selection.outputs.contains name) :
    m.nestedOutput = name := by
  rw [mappings, List.mem_append, List.mem_map, List.mem_filterMap] at h
  rcases h with ⟨outlet, -, rfl⟩ | ⟨⟨site, source⟩, hmem, hfind⟩
  · exact Site.output.inj htarget
  · obtain ⟨outlet, -, rfl⟩ := Option.map_eq_some_iff.1 hfind
    obtain rfl : site = .output name := htarget
    have hexcluded := (mem_consumers_iff.1 hmem).2.2
    simp [Site.isOutside, hselected] at hexcluded

/-- Every outside site that reads a selected task is the target of a mapping. -/
theorem exists_mapping (hcheck : p.selection.stranger? p.parent p.graph = none) {site : Site}
    {o : TaskOutput} (hsource : p.graph.source? site = some o)
    (htask : p.selection.tasks.contains o.task)
    (hside : site.isOutside p.selection.tasks ∅) :
    ∃ m ∈ p.mappings p.outlets, m.target = site := by
  by_cases hexcluded : site.isOutside p.selection.tasks p.selection.outputs
  · have hmem : (site, o) ∈ p.consumers := mem_consumers_iff.2 ⟨hsource, htask, hexcluded⟩
    have hexposed : o ∈ p.outlets.map (·.source) := mem_sources_outlets_iff.2 (.inr ⟨site, hmem⟩)
    obtain ⟨outlet, houtlet⟩ : ∃ outlet, p.outlets.find? (·.source = o) = some outlet := by
      rw [← Option.isSome_iff_exists, List.find?_isSome]
      simpa using hexposed
    refine ⟨⟨o, outlet.output.name, site⟩, ?_, rfl⟩
    rw [mappings, List.mem_append, List.mem_filterMap]
    exact .inr ⟨(site, o), hmem, Option.map_eq_some_iff.2 ⟨outlet, houtlet, rfl⟩⟩
  · cases site with
    | argument task name => exact absurd hside hexcluded
    | output name =>
      have hselected : p.selection.outputs.contains name := by
        simpa [Site.isOutside] using hexcluded
      have hdeclared := (Selection.stranger?_eq_none_iff.1 hcheck).2.2 name hselected
      obtain ⟨output, houtput⟩ := Component.exists_output?_of_hasOutput hdeclared
      have hname := Component.name_of_output? houtput
      subst hname
      have hmem : (⟨o, output⟩ : Outlet) ∈ p.selectedOutlets :=
        mem_selectedOutlets_iff.2 ⟨mem_selectedOutputs_iff.2 ⟨hselected, houtput⟩, hsource, htask⟩
      refine ⟨⟨o, output.name, .output output.name⟩, ?_, rfl⟩
      rw [mappings, List.mem_append, List.mem_map]
      exact .inl ⟨⟨o, output⟩, hmem, rfl⟩

end Packing

end TaskGraph
