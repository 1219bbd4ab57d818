import TaskGraph.Proofs.Subgraph.Packing

/-!
# The new component and its wrapper

The graph of the new component holds the selected tasks. Their arguments are unchanged, except that
one which reads a source outside reads an inlet instead; the wrapper then feeds this inlet with the
source. A selected input keeps its name, and the wrapper feeds it with its value or, where it has
none, with the input of the parent. `Packing.Yields` collects what packing returns.
-/
namespace TaskGraph

/-- The value that a selected input of a component carries. -/
def Selection.value? (s : Selection) (c : Component) (name : String) : Option String :=
  if s.inputs.contains name then (c.input? name).bind (·.value) else none

theorem Selection.exists_of_isSome_value? {s : Selection} {c : Component} {name : String}
    (h : (s.value? c name).isSome) :
    ∃ i value, c.input? name = some i ∧ s.value? c name = some value := by
  obtain ⟨value, hvalue⟩ := Option.isSome_iff_exists.1 h
  have hi := hvalue
  rw [Selection.value?, Option.ite_none_right_eq_some, Option.bind_eq_some_iff] at hi
  obtain ⟨-, i, hi, -⟩ := hi
  exact ⟨i, value, hi, hvalue⟩

/-- What the wrapper has to read for an argument of a selected task: the value of a selected input
that carries one, and what the argument read otherwise. -/
def Selection.feed (s : Selection) (c : Component) : Argument → Argument
  | .graphInput name =>
    match s.value? c name with
    | some value => .literal value
    | none => .graphInput name
  | a => a

theorem Selection.feed_graphInput_cases {s : Selection} {c : Component} {name : String}
    {a : Argument} (h : s.feed c (.graphInput name) = a) :
    (∃ value, s.value? c name = some value ∧ a = .literal value) ∨
      s.value? c name = none ∧ a = .graphInput name := by
  rw [feed] at h
  cases hvalue : s.value? c name with
  | none =>
    rw [hvalue] at h
    exact .inr ⟨rfl, h.symm⟩
  | some value =>
    rw [hvalue] at h
    exact .inl ⟨value, rfl, h.symm⟩

namespace Packing

variable {p : Packing}

theorem contains_lifted_iff_value? {name : String} :
    p.lifted.contains name ↔ ∃ value, p.selection.value? p.parent name = some value := by
  rw [contains_lifted_iff, Selection.value?]
  simp only [Option.ite_none_right_eq_some, Option.bind_eq_some_iff]
  constructor
  · rintro ⟨hname, i, value, hi, hvalue⟩
    exact ⟨value, hname, i, hi, hvalue⟩
  · rintro ⟨value, hname, i, hi, hvalue⟩
    exact ⟨hname, i, value, hi, hvalue⟩

theorem innerArgument_of_not_crossing {a : Argument}
    (h : ∀ source, p.relation a ≠ .crossing source) : p.innerArgument p.inlets a = a := by
  rw [innerArgument]
  split
  · rename_i source hsource
    exact absurd hsource (h source)
  · rfl

theorem innerArgument_of_crossing {id name : String} {a : Argument} {source : Source}
    (hid : p.selection.tasks.contains id) (ha : p.graph.argument? id name = some a)
    (hrel : p.relation a = .crossing source) :
    ∃ inlet ∈ p.inlets, inlet.source = source ∧
      p.innerArgument p.inlets a = .graphInput inlet.input.name := by
  have hmem : source ∈ p.inlets.map (·.source) :=
    mem_sources_inlets_iff.2 ⟨id, name, a, hid, ha, hrel⟩
  obtain ⟨inlet, hinlet⟩ : ∃ inlet, p.inlets.find? (·.source = source) = some inlet := by
    rw [← Option.isSome_iff_exists, List.find?_isSome]
    simpa using hmem
  refine ⟨inlet, List.mem_of_find?_eq_some hinlet, by simpa using List.find?_some hinlet, ?_⟩
  simp only [innerArgument, hrel, hinlet]

theorem wrapperArguments_eq (p : Packing) :
    p.wrapperArguments p.inlets = .ofList
      (p.selectedInputs.map (fun i => (i.name, p.selection.feed p.parent (.graphInput i.name))) ++
        p.inlets.map fun inlet => (inlet.input.name, inlet.source.argument)) := by
  have hfeed :
      p.selectedInputs.map (fun i => (i.name, p.selection.feed p.parent (.graphInput i.name))) =
      p.selectedInputs.map fun i => (i.name, match i.value with
        | some value => Argument.literal value
        | none => .graphInput i.name) := by
    apply List.map_congr_left
    intro i hi
    obtain ⟨hselected, hinput⟩ := mem_selectedInputs_iff.1 hi
    simp only [Selection.feed, Selection.value?, hselected, if_true, hinput, Option.bind_some]
  rw [hfeed]
  rfl

theorem nodup_wrapperEntries (p : Packing) :
    ((p.selectedInputs.map (fun i => (i.name, p.selection.feed p.parent (.graphInput i.name))) ++
      p.inlets.map fun inlet => (inlet.input.name, inlet.source.argument)).map (·.1)).Nodup := by
  simpa [Function.comp_def] using p.nodup_inlets

theorem get?_wrapperArguments_selected {i : Input} (h : i ∈ p.selectedInputs) :
    (p.wrapperArguments p.inlets).get? i.name =
      some (p.selection.feed p.parent (.graphInput i.name)) := by
  rw [wrapperArguments_eq]
  exact NameMap.get?_ofList_of_mem p.nodup_wrapperEntries
    (List.mem_append_left _ (List.mem_map_of_mem h))

theorem get?_wrapperArguments_inlet {inlet : Inlet} (h : inlet ∈ p.inlets) :
    (p.wrapperArguments p.inlets).get? inlet.input.name = some inlet.source.argument := by
  rw [wrapperArguments_eq]
  exact NameMap.get?_ofList_of_mem p.nodup_wrapperEntries
    (List.mem_append_right _ (List.mem_map_of_mem h))

/-- The wrapper has no other arguments than those for the selected inputs and the inlets. -/
theorem of_get?_wrapperArguments {name : String} {a : Argument}
    (h : (p.wrapperArguments p.inlets).get? name = some a) :
    (∃ i ∈ p.selectedInputs, i.name = name ∧ p.selection.feed p.parent (.graphInput name) = a) ∨
      ∃ inlet ∈ p.inlets, inlet.input.name = name ∧ inlet.source.argument = a := by
  rw [wrapperArguments_eq] at h
  have hmem := NameMap.mem_of_get?_ofList h
  rw [List.mem_append, List.mem_map, List.mem_map] at hmem
  rcases hmem with ⟨i, hi, heq⟩ | ⟨inlet, hinlet, heq⟩
  · rw [Prod.mk.injEq] at heq
    obtain ⟨rfl, rfl⟩ := heq
    exact .inl ⟨i, hi, rfl, rfl⟩
  · rw [Prod.mk.injEq] at heq
    exact .inr ⟨inlet, hinlet, heq.1, heq.2⟩

/-- The argument of a selected task that reads something of the parent outside reads a nested input
inside, and the wrapper feeds this input. -/
theorem exists_inner_input (hcheck : p.selection.stranger? p.parent p.graph = none)
    {id name : String} {a : Argument} (hid : p.selection.tasks.contains id)
    (ha : p.graph.argument? id name = some a) (hinner : p.relation a ≠ .inner)
    (hconstant : p.relation a ≠ .constant) :
    ∃ x, x ∈ p.selectedInputs.map (·.name) ++ p.inlets.map (·.input.name) ∧
      p.innerArgument p.inlets a = .graphInput x ∧
      (p.wrapperArguments p.inlets).get? x = some (p.selection.feed p.parent a) := by
  cases hrel : p.relation a with
  | inner => exact absurd hrel hinner
  | constant => exact absurd hrel hconstant
  | includedInput input =>
    obtain ⟨rfl, hselected⟩ := Argument.of_includedInput hrel
    have hdeclared := (Selection.stranger?_eq_none_iff.1 hcheck).2.1 input hselected
    obtain ⟨i, hi⟩ := Component.exists_input?_of_hasInput hdeclared
    have hname := Component.name_of_input? hi
    subst hname
    have hmem : i ∈ p.selectedInputs := mem_selectedInputs_iff.2 ⟨hselected, hi⟩
    refine ⟨i.name, List.mem_append_left _ (List.mem_map_of_mem hmem), ?_,
      get?_wrapperArguments_selected hmem⟩
    exact innerArgument_of_not_crossing fun source => by rw [hrel]; exact fun h => by cases h
  | crossing source =>
    obtain ⟨inlet, hinlet, hsource, heq⟩ := innerArgument_of_crossing hid ha hrel
    refine ⟨inlet.input.name, List.mem_append_right _ (List.mem_map_of_mem hinlet), heq, ?_⟩
    have hargument := Argument.argument_of_crossing hrel
    rw [get?_wrapperArguments_inlet hinlet, hsource, hargument]
    cases a with
    | graphInput n =>
      rw [Selection.feed, Selection.value?, if_neg (unselected_input_of_crossing hrel)]
    | taskOutput o => rfl
    | literal value => rfl
    | secret n => rfl

def innerInputs (p : Packing) : List Input :=
  (p.selectedInputs.map fun i => { i with value := none }) ++ p.inlets.map (·.input)

def nestedPlace (p : Packing) (a : Annotations) : Annotations :=
  match Bounds.ofList? <| (p.innerTasks p.inlets).values.filterMap (·.position?) ++
      p.innerInputs.filterMap (·.position?) ++
      (p.outlets.map (·.output)).filterMap (·.position?) with
  | some b => a.mapPosition (b.normalize p.layout.padding)
  | none => a

theorem agree_nestedPlace (p : Packing) (a : Annotations) :
    (p.nestedPlace a).AgreeButPosition a := by
  rw [nestedPlace]
  split
  · exact Annotations.agreeButPosition_mapPosition _ a
  · exact Annotations.AgreeButPosition.refl a

def innerTask (p : Packing) (t : Task) : Task :=
  { t with
    arguments := t.arguments.map fun _ a => p.innerArgument p.inlets a
    annotations := p.nestedPlace t.annotations }

def innerGraph (p : Packing) : Graph where
  tasks := (p.innerTasks p.inlets).map fun _ t =>
    { t with annotations := p.nestedPlace t.annotations }
  outputValues := .ofList (p.outlets.map fun o => (o.output.name, o.source))

theorem graph?_nested (p : Packing) (name author : String) :
    (p.nested name author p.inlets p.outlets).graph? = some p.innerGraph := rfl

theorem inputs_nested (p : Packing) (name author : String) :
    (p.nested name author p.inlets p.outlets).inputs =
      p.innerInputs.map fun i => { i with annotations := p.nestedPlace i.annotations } := rfl

theorem names_inputs_nested (p : Packing) (name author : String) :
    (p.nested name author p.inlets p.outlets).inputs.map (·.name) =
      p.selectedInputs.map (·.name) ++ p.inlets.map (·.input.name) := by
  simp [inputs_nested, innerInputs, Function.comp_def]

theorem names_outputs_nested (p : Packing) (name author : String) :
    (p.nested name author p.inlets p.outlets).outputs.map (·.name) =
      p.outlets.map (·.output.name) := by
  simp [nested, Function.comp_def]

/-- A selected input is declared in the new component as in the parent, but without its value. -/
theorem exists_nested_input {i : Input} (h : i ∈ p.selectedInputs) (name author : String) :
    ∃ annotations, annotations.AgreeButPosition i.annotations ∧
      { i with value := none, annotations } ∈ (p.nested name author p.inlets p.outlets).inputs := by
  refine ⟨p.nestedPlace i.annotations, p.agree_nestedPlace _, ?_⟩
  rw [inputs_nested]
  exact List.mem_map.2 ⟨{ i with value := none },
    List.mem_append_left _ (List.mem_map_of_mem h), rfl⟩

theorem task?_innerGraph (id : String) :
    p.innerGraph.task? id =
      if p.selection.tasks.contains id then (p.graph.task? id).map p.innerTask else none := by
  rw [Graph.task?, innerGraph, NameMap.From.get?_map, innerTasks, NameMap.From.get?_map,
    get?_selectedTasks]
  by_cases h : p.selection.tasks.contains id
  · simp only [h, if_true, Option.map_map]
    rfl
  · simp [h]

theorem argument?_innerGraph {id : String} (h : p.selection.tasks.contains id) (name : String) :
    p.innerGraph.argument? id name =
      (p.graph.argument? id name).map (p.innerArgument p.inlets) := by
  rw [Graph.argument?, Graph.argument?, task?_innerGraph, if_pos h]
  cases p.graph.task? id with
  | none => rfl
  | some t => simp [innerTask]

theorem get?_outputValues_innerGraph {outlet : Outlet} (h : outlet ∈ p.outlets) :
    p.innerGraph.outputValues.get? outlet.output.name = some outlet.source := by
  apply NameMap.get?_ofList_of_mem
  · simpa [Function.comp_def] using p.nodup_outlets
  · exact List.mem_map.2 ⟨outlet, h, rfl⟩

theorem of_get?_outputValues_innerGraph {name : String} {o : TaskOutput}
    (h : p.innerGraph.outputValues.get? name = some o) :
    ∃ outlet ∈ p.outlets, outlet.output.name = name ∧ outlet.source = o := by
  have hmem := NameMap.mem_of_get?_ofList h
  obtain ⟨outlet, houtlet, heq⟩ := List.mem_map.1 hmem
  rw [Prod.mk.injEq] at heq
  exact ⟨outlet, houtlet, heq.1, heq.2⟩

/-- `packed` is the result of packing, and `nested` is the new component. -/
structure Yields (p : Packing) (packed : Packed) (nested : Component) : Prop where
  accepted : p.selection.stranger? p.parent p.graph = none
  wrapperId_free : packed.wrapperId ∉ p.graph.tasks.keys
  nested_eq : ∃ name author, nested = p.nested name author p.inlets p.outlets
  spec_eq : packed.wrapper.reference.spec = some nested
  arguments_eq : packed.wrapper.arguments = p.wrapperArguments p.inlets
  mappings_eq : packed.mappings = p.mappings p.outlets
  lifted_eq : packed.lifted = p.lifted

/-- The wrapper holds the new component, so that no catalog is asked for it. -/
theorem Yields.resolve_wrapper {packed : Packed} {nested : Component} (h : p.Yields packed nested)
    (provider : Provider) : provider.resolve packed.wrapper.reference = some nested := by
  cases provider with
  | inline => exact h.spec_eq
  | catalog catalog => exact catalog.resolve_of_spec h.spec_eq

def packed (p : Packing) (wrapperId : String) (reference : Reference) : Packed :=
  let wrapper : Task := { reference, arguments := p.wrapperArguments p.inlets }
  { wrapperId
    wrapper := match p.centre with
      | some position => wrapper.placeAt position
      | none => wrapper
    mappings := p.mappings p.outlets
    lifted := p.lifted }

theorem reference_wrapper_packed (wrapperId : String) (reference : Reference) :
    (p.packed wrapperId reference).wrapper.reference = reference := by
  rw [packed]
  cases p.centre <;> rfl

theorem arguments_wrapper_packed (wrapperId : String) (reference : Reference) :
    (p.packed wrapperId reference).wrapper.arguments = p.wrapperArguments p.inlets := by
  rw [packed]
  cases p.centre <;> rfl

end Packing

theorem Reference.complete_eq_ok_iff {codec : Codec} {c : Component} {r : Reference} :
    Reference.complete codec c = .ok r ↔ ∃ text, codec.serialize c = .ok text ∧ r = {
      name := c.name
      digest := some (TaskGraph.digest text)
      spec := some c
      text := some text } := by
  rw [Reference.complete]
  cases codec.serialize c with
  | error e => simp [bind, Except.bind]
  | ok text => simp [bind, Except.bind, pure, Except.pure, eq_comm]

namespace Component

variable {host : Host} {options : PackOptions} {selection : Selection} {parent : Component}
  {g : Graph} {packed : Packed}

/-- Packing succeeds exactly for an accepted selection of a graph whose new component the codec can
write. -/
theorem pack_eq_ok_iff :
    parent.pack host options selection = .ok packed ↔ ∃ g reference, parent.graph? = some g ∧
      selection.check parent g = .ok () ∧
      let p : Packing := ⟨parent, g, selection, options.layout, host.resolve⟩
      let wrapperId := freshName options.baseName g.tasks.keys
      Reference.complete host.codec
        (p.nested wrapperId (authorName host.author) p.inlets p.outlets) = .ok reference ∧
      packed = p.packed wrapperId reference := by
  rw [pack]
  cases hg : parent.graph? with
  | none => simp [requireGraph, hg, bind, Except.bind]
  | some g =>
    cases hcheck : selection.check parent g with
    | error e => simp [requireGraph, hg, hcheck, bind, Except.bind]
    | ok u =>
      simp only [requireGraph, hg, hcheck, bind, Except.bind, Option.some.injEq, exists_and_left,
        exists_eq_left', true_and]
      cases Reference.complete host.codec _ with
      | error e => simp [Except.mapError]
      | ok reference =>
        simp only [Except.mapError, pure, Except.pure, Except.ok.injEq, exists_eq_left',
          Packing.packed]
        exact eq_comm

/-- An accepted selection is packed by every host whose codec writes components. -/
theorem exists_pack (hg : parent.graph? = some g) (hcheck : selection.check parent g = .ok ())
    (hcodec : ∀ c, ∃ text, host.codec.serialize c = .ok text) :
    ∃ packed, parent.pack host options selection = .ok packed := by
  obtain ⟨text, htext⟩ := hcodec _
  have hcomplete := Reference.complete_eq_ok_iff.2 ⟨text, htext, rfl⟩
  exact ⟨_, pack_eq_ok_iff.2 ⟨g, _, hg, hcheck, hcomplete, rfl⟩⟩

theorem yields_of_pack (hg : parent.graph? = some g)
    (h : parent.pack host options selection = .ok packed) :
    packed.wrapperId = freshName options.baseName g.tasks.keys ∧ ∃ nested,
      Packing.Yields ⟨parent, g, selection, options.layout, host.resolve⟩ packed nested := by
  obtain ⟨g', reference, hg', hcheck, hcomplete, rfl⟩ := pack_eq_ok_iff.1 h
  obtain rfl : g = g' := Option.some.inj (hg.symm.trans hg')
  obtain ⟨text, -, rfl⟩ := Reference.complete_eq_ok_iff.1 hcomplete
  let p : Packing := ⟨parent, g, selection, options.layout, host.resolve⟩
  refine ⟨rfl, p.nested (freshName options.baseName g.tasks.keys) (authorName host.author) p.inlets
    p.outlets, ?_⟩
  exact {
    accepted := Selection.check_eq_ok_iff.1 hcheck
    wrapperId_free := freshName_notMem _ _
    nested_eq := ⟨_, _, rfl⟩
    spec_eq := by rw [Packing.reference_wrapper_packed]
    arguments_eq := by rw [Packing.arguments_wrapper_packed]
    mappings_eq := rfl
    lifted_eq := rfl }

end Component

end TaskGraph
