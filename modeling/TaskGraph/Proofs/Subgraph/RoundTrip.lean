import TaskGraph.Proofs.Subgraph.PackWiring
import TaskGraph.Proofs.Subgraph.UnpackWiring

/-!
# Unpacking undoes packing

Packing a selection, putting the wrapper in its place and unpacking the wrapper gives back the graph
with the ids of all its tasks. What is not restored are positions, and the inputs whose values were
lifted: a selected task that read such an input then reads a new one, which has the value as its
default.
-/
namespace TaskGraph

namespace Selection

def restore (s : Selection) (c : Component) (rename : String → String) : Argument → Argument
  | .graphInput name => .graphInput (if (s.value? c name).isSome then rename name else name)
  | a => a

/-- The input is not lifted, or a task outside the selection reads it. -/
def keepsInput (s : Selection) (c : Component) (g : Graph) (name : String) : Bool :=
  (s.value? c name).isNone ||
    g.arguments.any fun (id, _, a) => !s.tasks.contains id && a = .graphInput name

end Selection

/-- The graph of `result` is that of `parent`, but for the lifted inputs. Each of these is declared
again once, under a name that no other input has. -/
structure Restored (selection : Selection) (parent : Component) (g : Graph) (result : Component)
    (graph : Graph) (rename : String → String) : Prop where
  name : result.name = parent.name
  description : result.description = parent.description
  metadata : result.metadata = parent.metadata
  outputs : result.outputs = parent.outputs
  bindings : graph.outputValues = g.outputValues
  tasks : ∀ id, graph.containsTask id ↔ g.containsTask id
  unselected : ∀ id, ¬ selection.tasks.contains id → graph.task? id = g.task? id
  selected : ∀ id t, selection.tasks.contains id → g.task? id = some t →
    ∃ annotations, annotations.AgreeButPosition t.annotations ∧ graph.task? id = some { t with
      arguments := t.arguments.map fun _ a => selection.restore parent rename a, annotations }
  rename_injective : ∀ m n, (selection.value? parent m).isSome →
    (selection.value? parent n).isSome → rename m = rename n → m = n
  lifted : ∀ n i value, parent.input? n = some i → selection.value? parent n = some value →
    ∃ annotations, annotations.AgreeButPosition i.annotations ∧ result.input? (rename n) = some
      { i with name := rename n, default := some value, value := none, annotations }
  inputs : ∃ added, result.inputs =
      parent.inputs.filter (fun i => selection.keepsInput parent g i.name) ++ added ∧
    (added.map (·.name)).Nodup ∧
    (∀ name, name ∈ added.map (·.name) ↔
      ∃ n, (selection.value? parent n).isSome ∧ name = rename n) ∧
    ∀ i ∈ parent.inputs, selection.keepsInput parent g i.name → i.name ∉ added.map (·.name)

def Packing.unpacking (p : Packing) (packed : Packed) (nested : Component) : Unpacking where
  wrapperId := packed.wrapperId
  wrapper := packed.wrapper
  nested := nested
  inner := p.innerGraph
  parent := packed.applied p.selection p.parent p.graph
  outer := packed.appliedGraph p.selection p.graph

namespace Packing.Yields

variable {p : Packing} {packed : Packed} {nested : Component}

theorem containsTask_wrapperId (h : p.Yields packed nested) :
    (p.unpacking packed nested).outer.containsTask packed.wrapperId :=
  h.containsTask_appliedGraph_iff.2 (.inl rfl)

theorem newId_unpacking (h : p.Yields packed nested) (id : String) :
    (p.unpacking packed nested).newId id = id := by
  apply Unpacking.newId_of_disjoint
  intro id hinner houter
  have hselected := h.containsTask_innerGraph_iff.1 hinner
  rcases h.containsTask_appliedGraph_iff.1 houter with rfl | ⟨-, hunselected⟩
  · exact h.wrapperId_unselected hselected
  · exact hunselected hselected

/-- All outputs of the new component are read, so there are no new outputs. -/
theorem outputs_unpacking (h : p.Yields packed nested) :
    (p.unpacking packed nested).outputs = {} := by
  have hnone : nested.outputs.filterMap (p.unpacking packed nested).newOutput? = [] := by
    rw [List.filterMap_eq_nil_iff]
    intro o ho
    cases hnew : (p.unpacking packed nested).newOutput? o with
    | none => rfl
    | some o' =>
      have houtput := Component.hasOutput_iff.2 (List.mem_map_of_mem (f := (·.name)) ho)
      obtain ⟨outlet, houtlet, hname⟩ := h.hasOutput_iff.1 houtput
      obtain ⟨site, hsite⟩ := h.exists_reader houtlet
      rw [hname] at hsite
      exact absurd hsite ((Unpacking.newOutput?_eq_some_iff.1 hnew).1 site)
  rw [Unpacking.outputs_eq, show (p.unpacking packed nested).nested = nested from rfl, hnone]
  rfl

theorem reconnect_of_rewired (h : p.Yields packed nested) {o o' : TaskOutput}
    (hne : o.task ≠ packed.wrapperId)
    (hr : Rewired p.selection.tasks packed.wrapperId nested p.innerGraph o o') :
    (p.unpacking packed nested).reconnect (p.unpacking packed nested).taskIds o' = some o := by
  cases hr with
  | kept => exact if_neg hne
  | moved hselected hdeclared hbound =>
    refine (if_pos rfl).trans ?_
    change (p.innerGraph.outputValues.get? _).map _ = some o
    rw [hbound, Option.map_some, Unpacking.redirect_taskIds, h.newId_unpacking]

theorem reconnectArgument_of_rel (h : p.Yields packed nested) {a a' : Argument}
    (hne : ∀ o, a = .taskOutput o → o.task ≠ packed.wrapperId)
    (hrel : a.Rel (Rewired p.selection.tasks packed.wrapperId nested p.innerGraph) a') :
    (p.unpacking packed nested).reconnectArgument a' = some a := by
  cases hrel with
  | literal value => rfl
  | graphInput name => rfl
  | secret name => rfl
  | taskOutput hr =>
    rw [Unpacking.reconnectArgument, h.reconnect_of_rewired (hne _ rfl) hr, Option.map_some]

theorem exists_lifted_input (h : p.Yields packed nested) {n value : String} {i : Input}
    (hi : p.parent.input? n = some i) (hvalue : p.selection.value? p.parent n = some value) :
    packed.wrapper.arguments.get? n = some (.literal value) ∧
      ∃ annotations, annotations.AgreeButPosition i.annotations ∧
        nested.input? n = some { i with value := none, annotations } := by
  have hname := Component.name_of_input? hi
  subst hname
  have hselected : p.selection.inputs.contains i.name := by
    rw [Selection.value?, Option.ite_none_right_eq_some] at hvalue
    exact hvalue.1
  have hmem : i ∈ p.selectedInputs := mem_selectedInputs_iff.2 ⟨hselected, hi⟩
  constructor
  · rw [h.arguments_eq, get?_wrapperArguments_selected hmem, Selection.feed, hvalue]
  · have hnodup := h.nodup_inputs
    obtain ⟨name, author, rfl⟩ := h.nested_eq
    obtain ⟨annotations, hagree, hinput⟩ := exists_nested_input hmem name author
    exact ⟨annotations, hagree, Component.input?_of_mem hnodup hinput⟩

/-- The wrapper gives a literal only to a lifted input, and leaves no input open otherwise. -/
theorem lifted_of_newInput? (h : p.Yields packed nested) {i j : Input} (hi : i ∈ nested.inputs)
    (hj : (p.unpacking packed nested).newInput? i = some j) :
    (p.selection.value? p.parent i.name).isSome := by
  have hdeclared := h.hasInput_iff.1 (Component.hasInput_iff.2 (List.mem_map_of_mem hi))
  have harguments : (p.unpacking packed nested).wrapper.arguments =
      p.wrapperArguments p.inlets := h.arguments_eq
  rw [Unpacking.newInput?, harguments] at hj
  rcases List.mem_append.1 hdeclared with hselected | hinlet
  · obtain ⟨k, hk, hname⟩ := List.mem_map.1 hselected
    rw [← hname] at hj ⊢
    rw [get?_wrapperArguments_selected hk, Selection.feed] at hj
    cases hvalue : p.selection.value? p.parent k.name with
    | some value => rfl
    | none =>
      rw [hvalue] at hj
      cases hj
  · obtain ⟨inlet, hinlet, hname⟩ := List.mem_map.1 hinlet
    rw [← hname, get?_wrapperArguments_inlet hinlet] at hj
    cases hsource : inlet.source with
    | taskOutput o =>
      rw [hsource] at hj
      cases hj
    | graphInput name =>
      rw [hsource] at hj
      cases hj

/-- A lifted input comes back under a new name, with its value as its default. -/
theorem lifted_input (h : p.Yields packed nested) {n value : String} {i : Input}
    (hi : p.parent.input? n = some i) (hvalue : p.selection.value? p.parent n = some value) :
    (p.unpacking packed nested).inputs.names.get? n =
        some ((p.unpacking packed nested).inputName n) ∧
      ∃ annotations, annotations.AgreeButPosition i.annotations ∧
        (p.unpacking packed nested).result.input? ((p.unpacking packed nested).inputName n) = some
          { i with
            name := (p.unpacking packed nested).inputName n
            default := some value
            value := none
            annotations } := by
  obtain ⟨hfed, annotations, hagree, hinput⟩ := h.exists_lifted_input hi hvalue
  have hname := Component.name_of_input? hi
  have hnew : (p.unpacking packed nested).newInput? { i with value := none, annotations } = some
      { i with
        default := some value
        value := none
        annotations := (p.unpacking packed nested).place annotations } := by
    have hfed' : (p.unpacking packed nested).wrapper.arguments.get? i.name =
        some (.literal value) := hname ▸ hfed
    rw [Unpacking.newInput?, hfed']
  obtain ⟨hget, -, hresult⟩ :=
    Unpacking.newInput_spec (u := p.unpacking packed nested) h.nodup_inputs hinput hnew
  exact ⟨hget, _, (Unpacking.agree_place _ _).trans hagree, hresult⟩

theorem inputName_injective (h : p.Yields packed nested) {m n : String}
    (hm : (p.selection.value? p.parent m).isSome) (hn : (p.selection.value? p.parent n).isSome)
    (heq : (p.unpacking packed nested).inputName m = (p.unpacking packed nested).inputName n) :
    m = n := by
  obtain ⟨i, value, hi, hvalue⟩ := Selection.exists_of_isSome_value? hm
  obtain ⟨j, value', hj, hvalue'⟩ := Selection.exists_of_isSome_value? hn
  exact Unpacking.eq_of_inputName_eq (h.lifted_input hi hvalue).1 (h.lifted_input hj hvalue').1 heq

theorem mem_names_newInputs_iff (h : p.Yields packed nested) {name : String} :
    name ∈ (p.unpacking packed nested).inputs.elements.map (·.name) ↔
      ∃ n, (p.selection.value? p.parent n).isSome ∧
        name = (p.unpacking packed nested).inputName n := by
  rw [List.mem_map]
  constructor
  · rintro ⟨j, hj, rfl⟩
    have hnodup := Unpacking.nodup_newInputs (u := p.unpacking packed nested) h.nodup_inputs
    rw [Unpacking.inputs_eq] at hj
    obtain ⟨a, ha, name, hget, rfl⟩ := Materialized.exists_of_mem_elements hnodup hj
    rw [← Unpacking.inputs_eq] at hget
    obtain ⟨i, hi, hnew⟩ := List.mem_filterMap.1 ha
    rw [Unpacking.name_of_newInput? hnew] at hget
    refine ⟨i.name, h.lifted_of_newInput? hi hnew, ?_⟩
    rw [Unpacking.inputName, hget]
    rfl
  · rintro ⟨n, hn, rfl⟩
    obtain ⟨i, value, hi, hvalue⟩ := Selection.exists_of_isSome_value? hn
    have hget := (h.lifted_input hi hvalue).1
    rw [Unpacking.inputs_eq] at hget
    obtain ⟨j, -, -, hmem⟩ := Materialized.exists_of_get?_names hget
    rw [← Unpacking.inputs_eq] at hmem
    exact ⟨_, hmem, rfl⟩

/-- A lifted input is read in the packed parent if and only if an unselected task read it before. -/
theorem read_lifted_iff (h : p.Yields packed nested) {n : String}
    (hn : (p.selection.value? p.parent n).isSome) :
    (packed.appliedGraph p.selection p.graph).referencedInputs.contains n ↔
      ∃ id name, ¬ p.selection.tasks.contains id ∧
        p.graph.argument? id name = some (.graphInput n) := by
  rw [Graph.contains_referencedInputs_iff]
  constructor
  · rintro ⟨id, name, hread⟩
    rcases h.argument_cases hread with ⟨-, hwrapper⟩ | ⟨hunselected, a, ha, hrel⟩
    · rw [(h.unlifted_of_wrapper hwrapper).1] at hn
      cases hn
    · cases hrel
      exact ⟨id, name, hunselected, ha⟩
  · rintro ⟨id, name, hunselected, hread⟩
    have hrel := h.rel_argument? (Graph.containsTask_of_argument? hread) hunselected name
    rw [hread] at hrel
    obtain ⟨a, ha, hrel⟩ := exists_of_some_rel hrel
    cases hrel
    exact ⟨id, name, ha⟩

theorem inputs_applied (h : p.Yields packed nested) :
    (packed.applied p.selection p.parent p.graph).inputs =
      p.parent.inputs.filter fun i => p.selection.keepsInput p.parent p.graph i.name := by
  apply List.filter_congr
  intro i hi
  rw [Bool.eq_iff_iff, h.lifted_eq, Selection.keepsInput]
  cases hvalue : p.selection.value? p.parent i.name with
  | none =>
    have hlifted : ¬ p.lifted.contains i.name := by
      rw [contains_lifted_iff_value?, hvalue]
      simp
    simp [hlifted]
  | some value =>
    have hlifted : p.lifted.contains i.name := contains_lifted_iff_value?.2 ⟨value, hvalue⟩
    have hn : (p.selection.value? p.parent i.name).isSome := by rw [hvalue, Option.isSome_some]
    rw [hlifted, Bool.not_true, Bool.false_or, Option.isNone_some, Bool.false_or,
      h.read_lifted_iff hn, List.any_eq_true]
    simp only [Bool.and_eq_true, Bool.not_eq_true', decide_eq_true_eq]
    constructor
    · rintro ⟨id, name, hunselected, hread⟩
      exact ⟨(id, name, .graphInput i.name), Graph.mem_arguments_iff.2 hread,
        by simpa using hunselected, rfl⟩
    · rintro ⟨⟨id, name, a⟩, hmem, hunselected, rfl⟩
      exact ⟨id, name, by simp [hunselected], Graph.mem_arguments_iff.1 hmem⟩

theorem notMem_names_newInputs (h : p.Yields packed nested) {i : Input} (hi : i ∈ p.parent.inputs)
    (hkept : p.selection.keepsInput p.parent p.graph i.name) :
    i.name ∉ (p.unpacking packed nested).inputs.elements.map (·.name) := by
  intro hnew
  obtain ⟨j, hj, hname⟩ := List.mem_map.1 hnew
  have hmem : i ∈ (packed.applied p.selection p.parent p.graph).inputs := by
    rw [h.inputs_applied]
    exact List.mem_filter.2 ⟨hi, hkept⟩
  have hinput : (packed.applied p.selection p.parent p.graph).hasInput j.name := by
    rw [hname]
    exact Component.hasInput_iff.2 (List.mem_map_of_mem hmem)
  exact Unpacking.notHasInput_of_new hj hinput

theorem spliceArgument_of_fed {x : String} {a : Argument}
    (ha : packed.wrapper.arguments.get? x = some a) (hliteral : ∀ value, a ≠ .literal value) :
    (p.unpacking packed nested).spliceArgument (.graphInput x) =
      (p.unpacking packed nested).reconnectArgument a := by
  have ha' : (p.unpacking packed nested).wrapper.arguments.get? x = some a := ha
  rw [Unpacking.spliceArgument, Unpacking.outerArgument,
    Unpacking.get?_inputNames_of_fed ha' hliteral, ha', Option.getD_some]

theorem spliceArgument_lifted (h : p.Yields packed nested) {n : String}
    (hn : (p.selection.value? p.parent n).isSome) :
    (p.unpacking packed nested).spliceArgument (p.innerArgument p.inlets (.graphInput n)) =
      some (.graphInput ((p.unpacking packed nested).inputName n)) := by
  obtain ⟨i, value, hi, hvalue⟩ := Selection.exists_of_isSome_value? hn
  have hinner : p.innerArgument p.inlets (.graphInput n) = .graphInput n := by
    apply innerArgument_of_not_crossing
    intro source hsource
    rw [Selection.value?, if_neg (unselected_input_of_crossing hsource)] at hn
    cases hn
  rw [hinner, Unpacking.spliceArgument, Unpacking.outerArgument, (h.lifted_input hi hvalue).1]
  rfl

/-- An argument of a selected task comes back, except that a lifted input has its new name. -/
theorem spliceArgument_innerArgument (h : p.Yields packed nested) {id name : String} {a : Argument}
    (hid : p.selection.tasks.contains id) (ha : p.graph.argument? id name = some a)
    (hne : ∀ o, a = .taskOutput o → o.task ≠ packed.wrapperId) :
    (p.unpacking packed nested).spliceArgument (p.innerArgument p.inlets a) =
      some (p.selection.restore p.parent (p.unpacking packed nested).inputName a) := by
  have hfed := h.fed_innerArgument hid ha
  generalize hinner : p.innerArgument p.inlets a = b at hfed
  cases hfed with
  | literal value => rfl
  | secret secret => rfl
  | inner hselected =>
    have ho := h.containsTask_innerGraph_iff.2 hselected
    rw [Unpacking.spliceArgument, Unpacking.outerArgument, Unpacking.reconnectArgument,
      Unpacking.reconnect_redirect h.containsTask_wrapperId ho, h.newId_unpacking]
    rfl
  | taskOutput hunselected hdeclared hwrapper =>
    rw [spliceArgument_of_fed hwrapper fun value => Argument.noConfusion]
    exact h.reconnectArgument_of_rel hne (.taskOutput (.kept hunselected))
  | graphInput hvalueless hdeclared hwrapper =>
    rw [spliceArgument_of_fed hwrapper fun value => Argument.noConfusion, Selection.restore,
      hvalueless]
    rfl
  | value hcarried =>
    have hn := Option.isSome_iff_exists.2 ⟨_, hcarried⟩
    rw [← hinner, h.spliceArgument_lifted hn, Selection.restore, if_pos hn]

theorem argument?_unselected (h : p.Yields packed nested)
    (hw : ∀ r ∈ p.graph.references, r.2.task ≠ packed.wrapperId) {id : String}
    (hgraph : p.graph.containsTask id) (hid : ¬ p.selection.tasks.contains id) (name : String) :
    (p.unpacking packed nested).graph.argument? id name = p.graph.argument? id name := by
  have houter : (p.unpacking packed nested).outer.containsTask id :=
    h.containsTask_appliedGraph_iff.2 (.inr ⟨hgraph, hid⟩)
  have hrel := h.rel_argument? hgraph hid name
  rw [Unpacking.argument?_graph_of_outer houter (h.ne_wrapperId hgraph)]
  cases ha : p.graph.argument? id name with
  | none =>
    rw [ha] at hrel
    have hnone : (p.unpacking packed nested).outer.argument? id name = none :=
      eq_none_of_none_rel hrel
    rw [hnone, Option.bind_none]
  | some a =>
    rw [ha] at hrel
    obtain ⟨b, hb, hrel⟩ := exists_of_some_rel hrel
    have hb' : (p.unpacking packed nested).outer.argument? id name = some b := hb
    rw [hb', Option.bind_some]
    apply h.reconnectArgument_of_rel ?_ hrel
    rintro o rfl
    exact hw _ (Graph.mem_references_iff.2 (Graph.source?_argument_eq_some_iff.2 ha))

theorem task?_unselected (h : p.Yields packed nested)
    (hw : ∀ r ∈ p.graph.references, r.2.task ≠ packed.wrapperId) {id : String}
    (hid : ¬ p.selection.tasks.contains id) :
    (p.unpacking packed nested).graph.task? id = p.graph.task? id := by
  cases ht : p.graph.task? id with
  | none =>
    have hnone : ¬ (p.unpacking packed nested).graph.containsTask id := by
      rw [Unpacking.containsTask_graph_iff h.containsTask_wrapperId]
      rintro (⟨i, hi, heq⟩ | ⟨houter, hne⟩)
      · rw [h.newId_unpacking] at heq
        exact hid (heq ▸ h.containsTask_innerGraph_iff.1 hi)
      · have hgraph := ((h.containsTask_appliedGraph_iff.1 houter).resolve_left hne).1
        obtain ⟨t, ht'⟩ := Graph.containsTask_iff.1 hgraph
        rw [ht] at ht'
        cases ht'
    rw [Graph.containsTask, Bool.not_eq_true, NameMap.From.contains_eq_false_iff] at hnone
    exact hnone
  | some t =>
    have hgraph : p.graph.containsTask id := Graph.containsTask_iff.2 ⟨t, ht⟩
    have hresult := Unpacking.task?_graph_of_outer (u := p.unpacking packed nested)
      (Packed.task?_appliedGraph_of_rest ht hid) (h.ne_wrapperId hgraph)
    rw [hresult, Option.some.injEq]
    refine Eq.trans ?_ (Task.eta t)
    congr 1
    ext name : 1
    rw [← Graph.argument?_of_task? ht name, ← h.argument?_unselected hw hgraph hid,
      Graph.argument?_of_task? hresult]

theorem task?_selected (h : p.Yields packed nested)
    (hw : ∀ r ∈ p.graph.references, r.2.task ≠ packed.wrapperId) {id : String} {t : Task}
    (hid : p.selection.tasks.contains id) (ht : p.graph.task? id = some t) :
    ∃ annotations, annotations.AgreeButPosition t.annotations ∧
      (p.unpacking packed nested).graph.task? id = some { t with
        arguments := t.arguments.map fun _ a =>
          p.selection.restore p.parent (p.unpacking packed nested).inputName a
        annotations } := by
  have hinner : (p.unpacking packed nested).inner.task? id = some (p.innerTask t) := by
    refine (task?_innerGraph id).trans ?_
    rw [if_pos hid, ht, Option.map_some]
  have hresult := Unpacking.task?_graph_newId h.containsTask_wrapperId hinner
  rw [h.newId_unpacking] at hresult
  refine ⟨_, ((p.unpacking packed nested).agree_place _).trans (p.agree_nestedPlace _),
    hresult.trans ?_⟩
  rw [Option.some.injEq]
  refine congrArg (fun arguments => (⟨t.reference, arguments, _, t.execution⟩ : Task)) ?_
  ext name : 1
  rw [innerTask, NameMap.From.get?_filterMap, NameMap.From.get?_map, NameMap.From.get?_map]
  cases ha : t.arguments.get? name with
  | none => rfl
  | some a =>
    have hread : p.graph.argument? id name = some a := by rw [Graph.argument?_of_task? ht, ha]
    rw [Option.map_some, Option.bind_some, h.spliceArgument_innerArgument hid hread]
    · rfl
    · rintro o rfl
      exact hw _ (Graph.mem_references_iff.2 (Graph.source?_argument_eq_some_iff.2 hread))

theorem outputValues_unpacking (h : p.Yields packed nested)
    (hw : ∀ r ∈ p.graph.references, r.2.task ≠ packed.wrapperId) :
    (p.unpacking packed nested).graph.outputValues = p.graph.outputValues := by
  ext name : 1
  rw [Unpacking.get?_outputValues_graph_of_ne]
  · have hrel := h.rel_outputValues name
    cases ho : p.graph.outputValues.get? name with
    | none =>
      rw [ho] at hrel
      have hnone : (p.unpacking packed nested).outer.outputValues.get? name = none :=
        eq_none_of_none_rel hrel
      rw [hnone, Option.bind_none]
    | some o =>
      rw [ho] at hrel
      obtain ⟨o', ho', hr⟩ := exists_of_some_rel hrel
      have houter : (p.unpacking packed nested).outer.outputValues.get? name = some o' := ho'
      rw [houter, Option.bind_some]
      exact h.reconnect_of_rewired (hw (.output name, o) (Graph.mem_references_iff.2 ho)) hr
  · intro x
    rw [h.outputs_unpacking]
    intro hx
    cases hx

theorem restored (h : p.Yields packed nested)
    (hw : ∀ r ∈ p.graph.references, r.2.task ≠ packed.wrapperId) :
    Restored p.selection p.parent p.graph (p.unpacking packed nested).result
      (p.unpacking packed nested).graph (p.unpacking packed nested).inputName where
  name := rfl
  description := rfl
  metadata := rfl
  outputs := by
    rw [Unpacking.outputs_result, h.outputs_unpacking]
    exact List.append_nil _
  bindings := h.outputValues_unpacking hw
  tasks := by
    intro id
    by_cases hid : p.selection.tasks.contains id
    · have hgraph := h.contains_selected hid
      obtain ⟨t, ht⟩ := Graph.containsTask_iff.1 hgraph
      obtain ⟨annotations, -, hresult⟩ := h.task?_selected hw hid ht
      exact iff_of_true (Graph.containsTask_iff.2 ⟨_, hresult⟩) hgraph
    · rw [Graph.containsTask_iff, Graph.containsTask_iff, h.task?_unselected hw hid]
  unselected := fun id hid => h.task?_unselected hw hid
  selected := fun id t hid ht => h.task?_selected hw hid ht
  rename_injective := fun m n hm hn heq => h.inputName_injective hm hn heq
  lifted := fun n i value hi hvalue => (h.lifted_input hi hvalue).2
  inputs := by
    refine ⟨_, ?_, Unpacking.nodup_inputs_elements _, fun name => h.mem_names_newInputs_iff, ?_⟩
    · rw [Unpacking.inputs_result, ← h.inputs_applied]
      rfl
    · exact fun i hi hkept => h.notMem_names_newInputs hi hkept

end Packing.Yields

/-- Packing a selection, putting the wrapper in its place and unpacking it succeeds and restores the
graph, unless the graph reads the wrapper's id while no task has it. -/
theorem Component.restored_of_pack_apply_unpack (codec : Codec) (author : Option String)
    (provider : Provider) (options : PackOptions) (selection : Selection) {parent : Component}
    {g : Graph} (hg : parent.graph? = some g) (hcheck : selection.check parent g = .ok ())
    (hcodec : ∀ c, ∃ text, codec.serialize c = .ok text)
    (hw : ∀ r ∈ g.references, r.2.task ≠ freshName options.baseName g.tasks.keys) :
    ∃ packed applied result graph rename,
      parent.pack { codec, resolve := provider.resolve, author } options selection = .ok packed ∧
      packed.apply selection parent = .ok applied ∧
      applied.unpack provider.resolve packed.wrapperId = .ok result ∧
      result.graph? = some graph ∧ Restored selection parent g result graph rename := by
  obtain ⟨packed, hpack⟩ : ∃ packed,
      parent.pack { codec, resolve := provider.resolve, author } options selection = .ok packed :=
    exists_pack hg hcheck hcodec
  obtain ⟨hid, nested, hyields⟩ := yields_of_pack hg hpack
  rw [← hid] at hw
  refine ⟨packed, _, _, _, _, hpack, Packed.apply_eq_ok hg, ?_, Unpacking.graph?_result _,
    hyields.restored hw⟩
  exact unpack_eq_ok Packed.graph?_applied hyields.task?_wrapperId
    (hyields.resolve_wrapper provider) hyields.graph?_eq

theorem restored_of_pack_apply_unpack_training :
    trainingPipeline.graph? = some trainingGraph ∧
    trainingSelection.check trainingPipeline trainingGraph = .ok () ∧
    (∀ r ∈ trainingGraph.references,
      r.2.task ≠ freshName defaultSubgraphName trainingGraph.tasks.keys) ∧
    ∃ packed applied result graph rename,
      trainingPipeline.pack { resolve := Provider.inline.resolve } {} trainingSelection =
        .ok packed ∧
      packed.apply trainingSelection trainingPipeline = .ok applied ∧
      applied.unpack Provider.inline.resolve packed.wrapperId = .ok result ∧
      result.graph? = some graph ∧
      Restored trainingSelection trainingPipeline trainingGraph result graph rename := by
  have hg : trainingPipeline.graph? = some trainingGraph := rfl
  have hcheck : trainingSelection.check trainingPipeline trainingGraph = .ok () := rfl
  have hw : ∀ r ∈ trainingGraph.references,
      r.2.task ≠ freshName defaultSubgraphName trainingGraph.tasks.keys := by decide
  exact ⟨hg, hcheck, hw, Component.restored_of_pack_apply_unpack .compact none .inline {}
    trainingSelection hg hcheck (fun c => ⟨c.text, rfl⟩) hw⟩

end TaskGraph
