import TaskGraph.Proofs.Subgraph.Nested

/-!
# Putting the wrapper in the place of a selection

The graph after applying a pack is read site by site: a site that some mapping targets reads the
wrapper output of the last such mapping, and every other site of a task that stays reads what it
read before. Among the inputs of the parent only those are dropped that were lifted and that nothing
reads any more. The first part holds of any pack; the second is about a pack of the same parent.
-/
namespace TaskGraph

namespace Packed

variable {packed : Packed} {selection : Selection} {parent : Component} {g : Graph}

/-- The output of the wrapper that the mappings lead a site to; the last mapping counts. -/
def lastOutput? (site : Site) : List Mapping → Option String
  | [] => none
  | m :: mappings =>
    (lastOutput? site mappings).or (if m.target = site then some m.nestedOutput else none)

theorem exists_mapping_of_lastOutput? {site : Site} {mappings : List Mapping} {output : String}
    (h : lastOutput? site mappings = some output) :
    ∃ m ∈ mappings, m.target = site ∧ m.nestedOutput = output := by
  induction mappings with
  | nil => cases h
  | cons m mappings ih =>
    rw [lastOutput?, Option.or_eq_some_iff, Option.ite_none_right_eq_some] at h
    rcases h with h | ⟨-, htarget, heq⟩
    · obtain ⟨m', hm', h'⟩ := ih h
      exact ⟨m', List.mem_cons_of_mem _ hm', h'⟩
    · exact ⟨m, List.mem_cons_self, htarget, Option.some.inj heq⟩

theorem lastOutput?_eq_none_iff {site : Site} {mappings : List Mapping} :
    lastOutput? site mappings = none ↔ ∀ m ∈ mappings, m.target ≠ site := by
  induction mappings with
  | nil => simp [lastOutput?]
  | cons m mappings ih => simp [lastOutput?, ih, and_comm]

def rewireArguments (wrapperId id : String) (arguments : NameMap Argument) (m : Mapping) :
    NameMap Argument :=
  match m.target with
  | .argument task name =>
    if id = task then arguments.insert name (.taskOutput ⟨wrapperId, m.nestedOutput⟩) else arguments
  | .output _ => arguments

theorem task?_rewire (wrapperId id : String) (g : Graph) (m : Mapping) :
    (rewire wrapperId g m).task? id = (g.task? id).map fun t =>
      { t with arguments := rewireArguments wrapperId id t.arguments m } := by
  simp only [rewire, rewireArguments]
  cases m.target with
  | output name => simp [Graph.task?]
  | argument task name =>
    by_cases h : id = task
    · simp [Graph.task?, NameMap.get?_modify, h]
    · simp [Graph.task?, NameMap.get?_modify, h]

theorem task?_foldl_rewire (wrapperId id : String) (mappings : List Mapping) (g : Graph) :
    (mappings.foldl (rewire wrapperId) g).task? id = (g.task? id).map fun t =>
      { t with arguments := mappings.foldl (rewireArguments wrapperId id) t.arguments } := by
  induction mappings generalizing g with
  | nil => cases hid : g.task? id <;> simp [hid]
  | cons m mappings ih =>
    rw [List.foldl_cons, ih, task?_rewire, Option.map_map]
    rfl

theorem get?_foldl_rewireArguments (wrapperId id name : String) (mappings : List Mapping)
    (arguments : NameMap Argument) :
    (mappings.foldl (rewireArguments wrapperId id) arguments).get? name =
      ((lastOutput? (.argument id name) mappings).map fun output =>
        Argument.taskOutput ⟨wrapperId, output⟩).or (arguments.get? name) := by
  induction mappings generalizing arguments with
  | nil => rfl
  | cons m mappings ih =>
    rw [List.foldl_cons, ih, lastOutput?]
    cases lastOutput? (.argument id name) mappings with
    | some output => rfl
    | none =>
      simp only [rewireArguments, Option.none_or, Option.map_none]
      cases m.target with
      | output other => simp
      | argument task other =>
        by_cases hid : id = task
        · by_cases hname : name = other
          · simp [hid, hname]
          · simp [hid, hname, Ne.symm hname]
        · simp [hid, Ne.symm hid]

theorem get?_outputValues_foldl_rewire (wrapperId name : String) (mappings : List Mapping)
    (g : Graph) :
    (mappings.foldl (rewire wrapperId) g).outputValues.get? name =
      ((lastOutput? (.output name) mappings).map (TaskOutput.mk wrapperId)).or
        (g.outputValues.get? name) := by
  induction mappings generalizing g with
  | nil => rfl
  | cons m mappings ih =>
    rw [List.foldl_cons, ih, lastOutput?]
    cases lastOutput? (.output name) mappings with
    | some output => rfl
    | none =>
      simp only [rewire, Option.none_or, Option.map_none]
      cases m.target with
      | argument task other => simp
      | output other =>
        by_cases hname : name = other
        · simp [hname]
        · simp [hname, Ne.symm hname]

def rest (selection : Selection) (g : Graph) : Graph :=
  { g with tasks := g.tasks.filter fun id _ => !selection.tasks.contains id }

/-- The id that the wrapper gets in the parent. -/
def appliedId (packed : Packed) (selection : Selection) (g : Graph) : String :=
  freshName packed.wrapperId (rest selection g).tasks.keys

def appliedGraph (packed : Packed) (selection : Selection) (g : Graph) : Graph :=
  let id := packed.appliedId selection g
  let rewired := packed.mappings.foldl (rewire id) (rest selection g)
  { rewired with tasks := NameMap.insert rewired.tasks id packed.wrapper }

/-- The parent with the wrapper in the place of the selected tasks. -/
def applied (packed : Packed) (selection : Selection) (parent : Component) (g : Graph) :
    Component :=
  let graph := packed.appliedGraph selection g
  { parent.withGraph graph with
    inputs := parent.inputs.filter fun i =>
      !packed.lifted.contains i.name || graph.referencedInputs.contains i.name }

theorem apply_eq_ok (hg : parent.graph? = some g) :
    packed.apply selection parent = .ok (packed.applied selection parent g) := by
  rw [apply, Component.requireGraph_eq_ok_iff.2 hg]
  rfl

theorem apply_eq_ok_iff {result : Component} :
    packed.apply selection parent = .ok result ↔
      ∃ g, parent.graph? = some g ∧ packed.applied selection parent g = result := by
  cases hg : parent.graph? with
  | none => simp [apply, Component.requireGraph, hg, bind, Except.bind]
  | some g => simp [apply_eq_ok hg]

theorem graph?_applied :
    (packed.applied selection parent g).graph? = some (packed.appliedGraph selection g) := rfl

theorem task?_rest (id : String) :
    (rest selection g).task? id = if selection.tasks.contains id then none else g.task? id := by
  rw [Graph.task?, rest, NameMap.From.get?_filter]
  cases hid : g.tasks.get? id <;> by_cases h : selection.tasks.contains id <;>
    simp [Graph.task?, hid, h, Option.filter]

theorem task?_rest_appliedId (packed : Packed) (selection : Selection) (g : Graph) :
    (rest selection g).task? (packed.appliedId selection g) = none := by
  have hfree : packed.appliedId selection g ∉ (rest selection g).tasks.keys := freshName_notMem _ _
  rw [Graph.mem_taskKeys_iff, Graph.containsTask, Bool.not_eq_true,
    NameMap.From.contains_eq_false_iff] at hfree
  exact hfree

theorem task?_appliedGraph (id : String) :
    (packed.appliedGraph selection g).task? id =
      if id = packed.appliedId selection g then some packed.wrapper
      else if selection.tasks.contains id then none
      else (g.task? id).map fun t => { t with
        arguments := packed.mappings.foldl
          (rewireArguments (packed.appliedId selection g) id) t.arguments } := by
  rw [Graph.task?, appliedGraph, NameMap.get?_insert]
  by_cases h : id = packed.appliedId selection g
  · rw [if_pos h, if_pos h]
  · rw [if_neg h, if_neg h]
    refine (task?_foldl_rewire _ _ _ _).trans ?_
    rw [task?_rest]
    by_cases hid : selection.tasks.contains id <;> simp [hid]

theorem task?_appliedGraph_appliedId (packed : Packed) (selection : Selection) (g : Graph) :
    (packed.appliedGraph selection g).task? (packed.appliedId selection g) =
      some packed.wrapper := by
  rw [task?_appliedGraph, if_pos rfl]

theorem task?_appliedGraph_of_rest {id : String} {t : Task} (ht : g.task? id = some t)
    (hid : ¬ selection.tasks.contains id) :
    (packed.appliedGraph selection g).task? id = some { t with
      arguments := packed.mappings.foldl
        (rewireArguments (packed.appliedId selection g) id) t.arguments } := by
  have hne : id ≠ packed.appliedId selection g := by
    rintro rfl
    have hfree := task?_rest_appliedId packed selection g
    rw [task?_rest, if_neg hid, ht] at hfree
    cases hfree
  rw [task?_appliedGraph, if_neg hne, if_neg hid, ht, Option.map_some]

/-- A site of a task that stays reads the wrapper if a mapping targets it, and else as before. -/
theorem argument?_appliedGraph {id : String} (hne : id ≠ packed.appliedId selection g)
    (hid : ¬ selection.tasks.contains id) (name : String) :
    (packed.appliedGraph selection g).argument? id name =
      if g.containsTask id then
        ((lastOutput? (.argument id name) packed.mappings).map fun output =>
          Argument.taskOutput ⟨packed.appliedId selection g, output⟩).or (g.argument? id name)
      else none := by
  rw [Graph.argument?, Graph.argument?, task?_appliedGraph, if_neg hne, if_neg hid]
  cases ht : g.task? id with
  | none =>
    have hcontains : g.containsTask id = false := NameMap.From.contains_eq_false_iff.2 ht
    simp [hcontains]
  | some t =>
    have hcontains : g.containsTask id := NameMap.From.contains_of_get? ht
    simp [hcontains, get?_foldl_rewireArguments]

theorem get?_outputValues_appliedGraph (name : String) :
    (packed.appliedGraph selection g).outputValues.get? name =
      ((lastOutput? (.output name) packed.mappings).map
        (TaskOutput.mk (packed.appliedId selection g))).or (g.outputValues.get? name) :=
  get?_outputValues_foldl_rewire _ _ _ _

theorem mem_inputs_applied_iff {i : Input} :
    i ∈ (packed.applied selection parent g).inputs ↔ i ∈ parent.inputs ∧
      (packed.lifted.contains i.name → ∃ id name,
        (packed.appliedGraph selection g).argument? id name = some (.graphInput i.name)) := by
  rw [← Graph.contains_referencedInputs_iff]
  simp only [applied, List.mem_filter, Bool.or_eq_true, Bool.not_eq_true']
  by_cases h : packed.lifted.contains i.name <;> simp [h]

end Packed

/-- How the reading of a task output changes when tasks are replaced by a wrapper: what read one of
them reads an output of the wrapper that its component binds to what was read. -/
inductive Rewired (selected : NameSet) (wrapperId : String) (nested : Component) (inner : Graph) :
    TaskOutput → TaskOutput → Prop
  | kept {o : TaskOutput} (unselected : ¬ selected.contains o.task) :
      Rewired selected wrapperId nested inner o o
  | moved {o : TaskOutput} {output : String} (selected_task : selected.contains o.task)
      (declared : nested.hasOutput output) (bound : inner.outputValues.get? output = some o) :
      Rewired selected wrapperId nested inner o ⟨wrapperId, output⟩

/-- Both arguments read related task outputs, or else they are the same. -/
inductive Argument.Rel (r : TaskOutput → TaskOutput → Prop) : Argument → Argument → Prop
  | taskOutput {o o' : TaskOutput} (h : r o o') : Rel r (.taskOutput o) (.taskOutput o')
  | literal (value : String) : Rel r (.literal value) (.literal value)
  | graphInput (name : String) : Rel r (.graphInput name) (.graphInput name)
  | secret (name : String) : Rel r (.secret name) (.secret name)

namespace Packing.Yields

variable {p : Packing} {packed : Packed} {nested : Component}

theorem graph?_eq (h : p.Yields packed nested) : nested.graph? = some p.innerGraph := by
  obtain ⟨name, author, rfl⟩ := h.nested_eq
  exact p.graph?_nested name author

theorem hasInput_iff (h : p.Yields packed nested) {name : String} :
    nested.hasInput name ↔ name ∈ p.selectedInputs.map (·.name) ++ p.inlets.map (·.input.name) := by
  obtain ⟨componentName, author, rfl⟩ := h.nested_eq
  rw [Component.hasInput_iff, names_inputs_nested]

theorem nodup_inputs (h : p.Yields packed nested) : (nested.inputs.map (·.name)).Nodup := by
  obtain ⟨name, author, rfl⟩ := h.nested_eq
  rw [names_inputs_nested]
  exact p.nodup_inlets

theorem hasOutput_iff (h : p.Yields packed nested) {name : String} :
    nested.hasOutput name ↔ ∃ outlet ∈ p.outlets, outlet.output.name = name := by
  obtain ⟨componentName, author, rfl⟩ := h.nested_eq
  rw [Component.hasOutput_iff, names_outputs_nested, List.mem_map]

theorem appliedId_eq (h : p.Yields packed nested) :
    packed.appliedId p.selection p.graph = packed.wrapperId := by
  apply freshName_of_notMem
  intro hmem
  apply h.wrapperId_free
  rw [NameMap.From.mem_keys_iff] at hmem ⊢
  obtain ⟨t, ht⟩ := hmem
  change (Packed.rest p.selection p.graph).task? packed.wrapperId = some t at ht
  rw [Packed.task?_rest, Option.ite_none_left_eq_some] at ht
  exact ⟨t, ht.2⟩

theorem task?_wrapperId (h : p.Yields packed nested) :
    (packed.appliedGraph p.selection p.graph).task? packed.wrapperId = some packed.wrapper := by
  rw [← h.appliedId_eq, Packed.task?_appliedGraph_appliedId]

theorem ne_wrapperId (h : p.Yields packed nested) {id : String} (hid : p.graph.containsTask id) :
    id ≠ packed.wrapperId := by
  rintro rfl
  exact h.wrapperId_free (Graph.mem_taskKeys_iff.2 hid)

theorem contains_selected (h : p.Yields packed nested) {id : String}
    (hid : p.selection.tasks.contains id) : p.graph.containsTask id :=
  (Selection.stranger?_eq_none_iff.1 h.accepted).1 id hid

/-- An outside site that read a selected task is led to an outlet of what it read. -/
theorem exists_outlet (h : p.Yields packed nested) {site : Site} {o : TaskOutput}
    (hsource : p.graph.source? site = some o) (htask : p.selection.tasks.contains o.task)
    (hside : site.isOutside p.selection.tasks ∅) :
    ∃ outlet ∈ p.outlets, outlet.source = o ∧
      Packed.lastOutput? site packed.mappings = some outlet.output.name := by
  rw [h.mappings_eq]
  cases hlast : Packed.lastOutput? site (p.mappings p.outlets) with
  | none =>
    obtain ⟨m, hm, htarget⟩ := exists_mapping h.accepted hsource htask hside
    exact absurd htarget (Packed.lastOutput?_eq_none_iff.1 hlast m hm)
  | some output =>
    obtain ⟨m, hm, rfl, rfl⟩ := Packed.exists_mapping_of_lastOutput? hlast
    obtain ⟨hread, -, -, outlet, houtlet, hexposed, hname⟩ := outlet_of_mem_mappings hm
    have ho : m.source = o := Option.some.inj (hread.symm.trans hsource)
    exact ⟨outlet, houtlet, hexposed.trans ho, by rw [hname]⟩

theorem lastOutput?_eq_none (h : p.Yields packed nested) {site : Site}
    (hsource : ∀ o, p.graph.source? site = some o → ¬ p.selection.tasks.contains o.task) :
    Packed.lastOutput? site packed.mappings = none := by
  rw [h.mappings_eq, Packed.lastOutput?_eq_none_iff]
  rintro m hm rfl
  obtain ⟨hread, htask, -⟩ := outlet_of_mem_mappings hm
  exact hsource m.source hread htask

theorem source?_appliedGraph (h : p.Yields packed nested) {site : Site} {o : TaskOutput}
    {output : String} (hsource : p.graph.source? site = some o)
    (hside : site.isOutside p.selection.tasks ∅)
    (hlast : Packed.lastOutput? site packed.mappings = some output) :
    (packed.appliedGraph p.selection p.graph).source? site = some ⟨packed.wrapperId, output⟩ := by
  cases site with
  | output name =>
    rw [Graph.source?, Packed.get?_outputValues_appliedGraph, hlast, h.appliedId_eq]
    rfl
  | argument id name =>
    have hgraph := Graph.containsTask_of_argument? (Graph.source?_argument_eq_some_iff.1 hsource)
    have hid : ¬ p.selection.tasks.contains id := by simpa [Site.isOutside] using hside
    have hne : id ≠ packed.appliedId p.selection p.graph := by
      rw [h.appliedId_eq]
      exact h.ne_wrapperId hgraph
    rw [Graph.source?_argument_eq_some_iff, Packed.argument?_appliedGraph hne hid, if_pos hgraph,
      hlast, h.appliedId_eq]
    rfl

/-- Every output of the new component is read in the packed parent. -/
theorem exists_reader (h : p.Yields packed nested) {outlet : Outlet}
    (houtlet : outlet ∈ p.outlets) :
    ∃ site, (packed.appliedGraph p.selection p.graph).source? site =
      some ⟨packed.wrapperId, outlet.output.name⟩ := by
  by_cases hselected : outlet ∈ p.selectedOutlets
  · obtain ⟨houtput, hsource, htask⟩ := mem_selectedOutlets_iff.1 hselected
    have hread : p.graph.source? (.output outlet.output.name) = some outlet.source := hsource
    obtain ⟨other, -, -, hlast⟩ := h.exists_outlet hread htask rfl
    have hname : other.output.name = outlet.output.name := by
      rw [h.mappings_eq] at hlast
      obtain ⟨m, hm, htarget, heq⟩ := Packed.exists_mapping_of_lastOutput? hlast
      rw [← heq]
      exact nestedOutput_of_target hm htarget (mem_selectedOutputs_iff.1 houtput).1
    rw [hname] at hlast
    exact ⟨_, h.source?_appliedGraph hread rfl hlast⟩
  · have hunique := (outlet_cases houtlet).resolve_left hselected
    rcases mem_sources_outlets_iff.1 (List.mem_map_of_mem (f := (·.source)) houtlet) with
      hmem | ⟨site, hconsumer⟩
    · obtain ⟨other, hother, hsource⟩ := List.mem_map.1 hmem
      have heq := hunique other (List.mem_append_left _ hother) hsource
      exact absurd (heq ▸ hother) hselected
    · obtain ⟨hread, htask, hside⟩ := mem_consumers_iff.1 hconsumer
      have hside' : site.isOutside p.selection.tasks ∅ := by
        cases site with
        | argument id name => exact hside
        | output name => rfl
      obtain ⟨other, hother, hsource, hlast⟩ := h.exists_outlet hread htask hside'
      rw [hunique other hother hsource] at hlast
      exact ⟨site, h.source?_appliedGraph hread hside' hlast⟩

theorem rewired_of_outlet (h : p.Yields packed nested) {outlet : Outlet}
    (houtlet : outlet ∈ p.outlets) (htask : p.selection.tasks.contains outlet.source.task) :
    Rewired p.selection.tasks packed.wrapperId nested p.innerGraph outlet.source
      ⟨packed.wrapperId, outlet.output.name⟩ :=
  .moved htask (h.hasOutput_iff.2 ⟨outlet, houtlet, rfl⟩) (get?_outputValues_innerGraph houtlet)

theorem rel_argument? (h : p.Yields packed nested) {id : String}
    (hgraph : p.graph.containsTask id) (hid : ¬ p.selection.tasks.contains id) (name : String) :
    Option.Rel
      (Argument.Rel (Rewired p.selection.tasks packed.wrapperId nested p.innerGraph))
      (p.graph.argument? id name)
      ((packed.appliedGraph p.selection p.graph).argument? id name) := by
  have hne : id ≠ packed.appliedId p.selection p.graph := by
    rw [h.appliedId_eq]
    exact h.ne_wrapperId hgraph
  rw [Packed.argument?_appliedGraph hne hid, if_pos hgraph, h.appliedId_eq]
  by_cases hread : ∃ o, p.graph.source? (.argument id name) = some o ∧
      p.selection.tasks.contains o.task
  · obtain ⟨o, hsource, htask⟩ := hread
    have hside : (Site.argument id name).isOutside p.selection.tasks ∅ := by
      simpa [Site.isOutside] using hid
    obtain ⟨outlet, houtlet, rfl, hlast⟩ := h.exists_outlet hsource htask hside
    rw [hlast, Graph.source?_argument_eq_some_iff.1 hsource]
    exact .some (.taskOutput (h.rewired_of_outlet houtlet htask))
  · rw [h.lastOutput?_eq_none fun o ho htask => hread ⟨o, ho, htask⟩, Option.map_none,
      Option.none_or]
    cases ha : p.graph.argument? id name with
    | none => exact .none
    | some a =>
      apply Option.Rel.some
      cases a with
      | literal value => exact .literal value
      | graphInput input => exact .graphInput input
      | secret name => exact .secret name
      | taskOutput o =>
        have hsource := Graph.source?_argument_eq_some_iff.2 ha
        exact .taskOutput (.kept fun htask => hread ⟨o, hsource, htask⟩)

theorem rel_outputValues (h : p.Yields packed nested) (name : String) :
    Option.Rel (Rewired p.selection.tasks packed.wrapperId nested p.innerGraph)
      (p.graph.outputValues.get? name)
      ((packed.appliedGraph p.selection p.graph).outputValues.get? name) := by
  rw [Packed.get?_outputValues_appliedGraph, h.appliedId_eq]
  cases hsource : p.graph.outputValues.get? name with
  | none =>
    have hread : p.graph.source? (.output name) = none := hsource
    rw [h.lastOutput?_eq_none fun o ho => by rw [hread] at ho; cases ho]
    exact .none
  | some o =>
    have hread : p.graph.source? (.output name) = some o := hsource
    by_cases htask : p.selection.tasks.contains o.task
    · obtain ⟨outlet, houtlet, rfl, hlast⟩ := h.exists_outlet hread htask rfl
      rw [hlast]
      exact .some (h.rewired_of_outlet houtlet htask)
    · rw [h.lastOutput?_eq_none fun o' ho' => by
        rw [hread] at ho'
        obtain rfl := Option.some.inj ho'
        exact htask]
      exact .some (.kept htask)

end Packing.Yields

end TaskGraph
