import TaskGraph.Proofs.FreshName
import TaskGraph.Proofs.Graph
import TaskGraph.Subgraph.Unpack

/-!
# What unpacking makes of a wrapper

The inner tasks, the new inputs and the new outputs get free names one after another, so that no two
of them share a name and none takes a name of the parent. The graph of the result is read site by
site: an argument of an inner task is first put in terms of the parent, and then every reading of
the wrapper, in whatever task it stands, is replaced by what the wrapper bound to that output.
-/
namespace TaskGraph

namespace Materialized

variable {α : Type} {nameOf : α → String} {rename : α → String → α} {taken : List String}

/-- The elements with one more, which gets a free name. -/
def add (nameOf : α → String) (rename : α → String → α) (taken : List String)
    (m : Materialized α) (a : α) : Materialized α :=
  let name := freshName (nameOf a) (taken ++ m.elements.map nameOf)
  { elements := m.elements ++ [rename a name], names := m.names.insert (nameOf a) name }

/-- The elements of a list under free names. -/
def addAll (nameOf : α → String) (rename : α → String → α) (taken : List String) (l : List α) :
    Materialized α :=
  let entries := freshNames nameOf taken l
  { elements := entries.map fun e => rename e.1 e.2
    names := .ofList (entries.map fun e => (nameOf e.1, e.2)) }

theorem foldl_add (hname : ∀ a name, nameOf (rename a name) = name) (l : List α) :
    l.foldl (add nameOf rename taken) {} = addAll nameOf rename taken l := by
  have hfold (m : Materialized α) :
      l.foldl (add nameOf rename taken) m =
        let entries := freshNames nameOf (taken ++ m.elements.map nameOf) l
        { elements := m.elements ++ entries.map fun e => rename e.1 e.2
          names := m.names.insertAll (entries.map fun e => (nameOf e.1, e.2)) } := by
    induction l generalizing m with
    | nil => simp [freshNames, NameMap.insertAll]
    | cons a l ih =>
      rw [List.foldl_cons, ih]
      simp [add, freshNames, hname, NameMap.insertAll]
  rw [hfold]
  simp [addAll, NameMap.ofList_eq_insertAll]

theorem names_elements_addAll (hname : ∀ a name, nameOf (rename a name) = name) (l : List α) :
    (addAll nameOf rename taken l).elements.map nameOf = (freshNames nameOf taken l).map (·.2) := by
  simp [addAll, hname, Function.comp_def]

theorem nodup_elements (hname : ∀ a name, nameOf (rename a name) = name) (l : List α) :
    ((addAll nameOf rename taken l).elements.map nameOf).Nodup := by
  rw [names_elements_addAll hname]
  exact nodup_freshNames

theorem notMem_of_mem_elements (hname : ∀ a name, nameOf (rename a name) = name) {l : List α}
    {b : α} (h : b ∈ (addAll nameOf rename taken l).elements) : nameOf b ∉ taken := by
  obtain ⟨⟨a, name⟩, hentry, rfl⟩ := List.mem_map.1 h
  rw [hname]
  exact notMem_of_mem_freshNames hentry

theorem not_isBlank_of_mem_elements (hname : ∀ a name, nameOf (rename a name) = name) {l : List α}
    (hl : ∀ a ∈ l, ¬ isBlank (nameOf a)) {b : α}
    (h : b ∈ (addAll nameOf rename taken l).elements) : ¬ isBlank (nameOf b) := by
  obtain ⟨⟨a, name⟩, hentry, rfl⟩ := List.mem_map.1 h
  rw [hname]
  exact not_isBlank_of_mem_freshNames hl hentry

theorem nodup_append (hname : ∀ a name, nameOf (rename a name) = name) (htaken : taken.Nodup)
    {l : List α} : (taken ++ (addAll nameOf rename taken l).elements.map nameOf).Nodup := by
  refine htaken.append (nodup_elements hname l) ?_
  intro name hold hnew
  obtain ⟨b, hb, rfl⟩ := List.mem_map.1 hnew
  exact notMem_of_mem_elements hname hb hold

theorem exists_of_get?_names {l : List α} {x name : String}
    (h : (addAll nameOf rename taken l).names.get? x = some name) :
    ∃ a ∈ l, nameOf a = x ∧ rename a name ∈ (addAll nameOf rename taken l).elements := by
  have hmem := NameMap.mem_of_get?_ofList h
  obtain ⟨⟨a, n⟩, hentry, heq⟩ := List.mem_map.1 hmem
  cases heq
  exact ⟨a, mem_of_mem_freshNames hentry, rfl, List.mem_map.2 ⟨(a, n), hentry, rfl⟩⟩

theorem map_fst_addAll (nameOf : α → String) (taken : List String) (l : List α) :
    ((freshNames nameOf taken l).map fun e => (nameOf e.1, e.2)).map (·.1) = l.map nameOf := by
  have hcomp : (fun e : String × String => e.1) ∘ (fun e : α × String => (nameOf e.1, e.2)) =
      nameOf ∘ (·.1) := rfl
  rw [List.map_map, hcomp, ← List.map_map, map_fst_freshNames]

theorem exists_get?_names (rename : α → String → α) (taken : List String) {l : List α}
    (hnodup : (l.map nameOf).Nodup) {a : α} (h : a ∈ l) :
    ∃ name, (addAll nameOf rename taken l).names.get? (nameOf a) = some name ∧
      rename a name ∈ (addAll nameOf rename taken l).elements := by
  obtain ⟨name, hentry⟩ := exists_mem_freshNames nameOf taken h
  refine ⟨name, NameMap.get?_ofList_of_mem ?_ ?_, List.mem_map.2 ⟨(a, name), hentry, rfl⟩⟩
  · rw [map_fst_addAll]
    exact hnodup
  · exact List.mem_map.2 ⟨(a, name), hentry, rfl⟩

theorem exists_of_mem_elements {l : List α} (hnodup : (l.map nameOf).Nodup) {b : α}
    (h : b ∈ (addAll nameOf rename taken l).elements) :
    ∃ a ∈ l, ∃ name, (addAll nameOf rename taken l).names.get? (nameOf a) = some name ∧
      b = rename a name := by
  obtain ⟨⟨a, name⟩, hentry, rfl⟩ := List.mem_map.1 h
  refine ⟨a, mem_of_mem_freshNames hentry, name, NameMap.get?_ofList_of_mem ?_ ?_, rfl⟩
  · rw [map_fst_addAll]
    exact hnodup
  · exact List.mem_map.2 ⟨(a, name), hentry, rfl⟩

/-- Elements of different names get different names. -/
theorem eq_of_get?_names {l : List α} {x y name : String}
    (hx : (addAll nameOf rename taken l).names.get? x = some name)
    (hy : (addAll nameOf rename taken l).names.get? y = some name) : x = y := by
  obtain ⟨⟨a, n⟩, ha, heq⟩ := List.mem_map.1 (NameMap.mem_of_get?_ofList hx)
  obtain ⟨⟨b, k⟩, hb, heq'⟩ := List.mem_map.1 (NameMap.mem_of_get?_ofList hy)
  cases heq
  cases heq'
  rw [eq_of_mem_freshNames ha hb]

theorem notMem_of_get?_names {l : List α} {x name : String}
    (h : (addAll nameOf rename taken l).names.get? x = some name) : name ∉ taken := by
  obtain ⟨⟨a, n⟩, ha, heq⟩ := List.mem_map.1 (NameMap.mem_of_get?_ofList h)
  cases heq
  exact notMem_of_mem_freshNames ha

theorem exists_get?_names_of_mem (rename : α → String → α) (taken : List String) {l : List α}
    {x : String} (h : x ∈ l.map nameOf) :
    ∃ name, (addAll nameOf rename taken l).names.get? x = some name := by
  rw [← NameMap.From.contains_iff, addAll, NameMap.contains_ofList_iff, map_fst_addAll]
  exact h

/-- A free name of some element is given to one of the elements. -/
theorem exists_get?_names_eq (rename : α → String → α) {l : List α} (hnodup : (l.map nameOf).Nodup)
    {a : α} (ha : a ∈ l) (hfree : nameOf a ∉ taken) :
    ∃ x, (addAll nameOf rename taken l).names.get? x = some (nameOf a) := by
  obtain ⟨b, hentry⟩ := exists_mem_freshNames_of_notMem ha hfree
  refine ⟨nameOf b, NameMap.get?_ofList_of_mem ?_ (List.mem_map.2 ⟨_, hentry, rfl⟩)⟩
  rw [map_fst_addAll]
  exact hnodup

theorem get?_names_of_notMem {l : List α} {x : String} (h : x ∉ l.map nameOf) :
    (addAll nameOf rename taken l).names.get? x = none := by
  cases hget : (addAll nameOf rename taken l).names.get? x with
  | none => rfl
  | some name =>
    obtain ⟨a, ha, hname, -⟩ := exists_of_get?_names hget
    exact absurd (List.mem_map.2 ⟨a, ha, hname⟩) h

end Materialized

namespace Unpacking

variable {u : Unpacking}

theorem taskIds_eq (u : Unpacking) :
    u.taskIds = .ofList (freshNames id u.outer.tasks.keys u.inner.tasks.keys) := by
  have hfold (keys taken : List String) (ids : NameMap String) :
      (keys.foldl (fun state id =>
        let new := freshName id state.2
        (NameMap.insert state.1 id new, state.2 ++ [new])) (ids, taken)).1 =
      ids.insertAll (freshNames id taken keys) := by
    induction keys generalizing taken ids with
    | nil => rfl
    | cons key keys ih => exact ih _ _
  exact hfold _ _ _

def newId (u : Unpacking) (id : String) : String := (u.taskIds.get? id).getD id

theorem redirect_taskIds (o : TaskOutput) : redirect u.taskIds o = ⟨u.newId o.task, o.output⟩ := rfl

theorem mem_freshNames_newId {i : String} (h : u.inner.containsTask i) :
    (i, u.newId i) ∈ freshNames id u.outer.tasks.keys u.inner.tasks.keys := by
  obtain ⟨new, hnew⟩ :=
    exists_mem_freshNames id u.outer.tasks.keys (Graph.mem_taskKeys_iff.2 h)
  have hget : u.taskIds.get? i = some new := by
    rw [taskIds_eq]
    refine NameMap.get?_ofList_of_mem ?_ hnew
    rw [map_fst_freshNames]
    exact NameMap.From.keys_nodup _
  rw [newId, hget]
  exact hnew

theorem newId_injective {i j : String} (hi : u.inner.containsTask i) (hj : u.inner.containsTask j)
    (h : u.newId i = u.newId j) : i = j := by
  have hmem := mem_freshNames_newId hi
  rw [h] at hmem
  exact eq_of_mem_freshNames hmem (mem_freshNames_newId hj)

theorem newId_fresh {i : String} (h : u.inner.containsTask i) :
    ¬ u.outer.containsTask (u.newId i) := by
  rw [← Graph.mem_taskKeys_iff]
  exact notMem_of_mem_freshNames (mem_freshNames_newId h)

/-- An id that no inner task has stays as it is. -/
theorem newId_of_notContainsTask {i : String} (h : ¬ u.inner.containsTask i) : u.newId i = i := by
  have hget : u.taskIds.get? i = none := by
    rw [← NameMap.From.contains_eq_false_iff, ← Bool.not_eq_true, taskIds_eq,
      NameMap.contains_ofList_iff, map_fst_freshNames, Graph.mem_taskKeys_iff]
    exact h
  rw [newId, hget, Option.getD_none]

/-- Ids that are free in the parent are kept. -/
theorem newId_of_disjoint (h : ∀ i, u.inner.containsTask i → ¬ u.outer.containsTask i)
    (i : String) : u.newId i = i := by
  have hids : u.taskIds = .ofList (u.inner.tasks.keys.map fun k => (k, k)) := by
    rw [taskIds_eq, freshNames_of_disjoint]
    · rfl
    · simpa using NameMap.From.keys_nodup u.inner.tasks
    · intro k hk houter
      exact h k (Graph.mem_taskKeys_iff.1 hk) (Graph.mem_taskKeys_iff.1 houter)
  rw [newId]
  cases hget : u.taskIds.get? i with
  | none => rfl
  | some new =>
    rw [hids] at hget
    obtain ⟨k, -, heq⟩ := List.mem_map.1 (NameMap.mem_of_get?_ofList hget)
    cases heq
    rfl

/-- The input that is to stand for a nested input, if the wrapper gives it a literal or nothing. -/
def newInput? (u : Unpacking) (i : Input) : Option Input :=
  match u.wrapper.arguments.get? i.name with
  | some (.literal value) =>
    some { i with default := some value, value := none, annotations := u.place i.annotations }
  | none => some { i with value := none, annotations := u.place i.annotations }
  | some _ => none

/-- The output that is to stand for a nested output, if that is bound and not read. -/
def newOutput? (u : Unpacking) (o : Output) : Option Output :=
  if o.name ∈ (u.outer.consumersOf u.wrapperId).map (·.2.output) ||
      !u.inner.outputValues.contains o.name then none
  else some { o with annotations := u.place o.annotations }

def renameInput (i : Input) (name : String) : Input := { i with name }

def renameOutput (o : Output) (name : String) : Output := { o with name }

theorem inputs_eq (u : Unpacking) :
    u.inputs = .addAll (·.name) renameInput (u.parent.inputs.map (·.name))
      (u.nested.inputs.filterMap u.newInput?) := by
  rw [← Materialized.foldl_add fun _ _ => rfl, List.foldl_filterMap, inputs]
  congr 1
  funext m i
  rw [newInput?]
  cases u.wrapper.arguments.get? i.name with
  | none => rfl
  | some a => cases a <;> rfl

theorem outputs_eq (u : Unpacking) :
    u.outputs = .addAll (·.name) renameOutput (u.parent.outputs.map (·.name))
      (u.nested.outputs.filterMap u.newOutput?) := by
  rw [← Materialized.foldl_add fun _ _ => rfl, List.foldl_filterMap, outputs]
  congr 1
  funext m o
  rw [newOutput?]
  split <;> rfl

theorem name_of_newInput? {i j : Input} (h : u.newInput? i = some j) : j.name = i.name := by
  rw [newInput?] at h
  split at h <;> cases h <;> rfl

theorem name_of_newOutput? {o o' : Output} (h : u.newOutput? o = some o') : o'.name = o.name := by
  rw [newOutput?] at h
  split at h <;> cases h
  rfl

/-- A nested output gets a new output if it is bound and no site reads it. -/
theorem newOutput?_eq_some_iff {o o' : Output} :
    u.newOutput? o = some o' ↔ (∀ site, u.outer.source? site ≠ some ⟨u.wrapperId, o.name⟩) ∧
      u.inner.outputValues.contains o.name ∧
      o' = { o with annotations := u.place o.annotations } := by
  have hread : o.name ∈ (u.outer.consumersOf u.wrapperId).map (·.2.output) ↔
      ∃ site, u.outer.source? site = some ⟨u.wrapperId, o.name⟩ := by
    rw [List.mem_map]
    constructor
    · rintro ⟨⟨site, source⟩, hmem, hname⟩
      obtain ⟨hsource, htask⟩ := Graph.mem_consumersOf_iff.1 hmem
      exact ⟨site, by rw [hsource, ← hname, ← htask]⟩
    · rintro ⟨site, hsource⟩
      exact ⟨(site, _), Graph.mem_consumersOf_iff.2 ⟨hsource, rfl⟩, rfl⟩
  rw [newOutput?, Option.ite_none_left_eq_some, Bool.or_eq_true, not_or, decide_eq_true_eq, hread,
    not_exists, Bool.not_eq_true', Bool.not_eq_false, Option.some.injEq, and_assoc,
    eq_comm (a := o')]

theorem nodup_newInputs (h : (u.nested.inputs.map (·.name)).Nodup) :
    ((u.nested.inputs.filterMap u.newInput?).map (·.name)).Nodup :=
  nodup_map_filterMap (fun _ _ => name_of_newInput?) h

/-- A nested input gets a new input of the parent exactly if the wrapper gives it a literal or
nothing. -/
theorem exists_newInput (hnodup : (u.nested.inputs.map (·.name)).Nodup) {i j : Input}
    (hi : i ∈ u.nested.inputs) (hj : u.newInput? i = some j) :
    ∃ new, u.inputs.names.get? i.name = some new ∧ renameInput j new ∈ u.inputs.elements := by
  rw [inputs_eq, ← name_of_newInput? hj]
  exact Materialized.exists_get?_names _ _ (nodup_newInputs hnodup)
    (List.mem_filterMap.2 ⟨i, hi, hj⟩)

theorem agree_place (u : Unpacking) (a : Annotations) : (u.place a).AgreeButPosition a := by
  rw [place]
  split
  · exact Annotations.agreeButPosition_mapPosition _ a
  · exact Annotations.AgreeButPosition.refl a

theorem notHasInput_of_new {j : Input} (hj : j ∈ u.inputs.elements) :
    ¬ u.parent.hasInput j.name := by
  rw [inputs_eq] at hj
  rw [Component.hasInput_iff]
  exact Materialized.notMem_of_mem_elements (fun _ _ => rfl) hj

theorem notHasOutput_of_new {x new : String} (h : u.outputs.names.get? x = some new) :
    ¬ u.parent.hasOutput new := by
  rw [outputs_eq] at h
  rw [Component.hasOutput_iff]
  exact Materialized.notMem_of_get?_names h

theorem nodup_inputs_elements (u : Unpacking) : (u.inputs.elements.map (·.name)).Nodup := by
  rw [inputs_eq]
  exact Materialized.nodup_elements (fun _ _ => rfl) _

theorem input?_result_of_new {j : Input} (hj : j ∈ u.inputs.elements) :
    u.result.input? j.name = some j := by
  have hparent : u.parent.input? j.name = none := by
    rw [← Option.not_isSome_iff_eq_none]
    exact notHasInput_of_new hj
  have hfind : u.result.input? j.name =
      (u.parent.input? j.name).or (u.inputs.elements.find? (·.name == j.name)) :=
    List.find?_append
  rw [hfind, hparent, Option.none_or]
  exact find?_of_mem u.nodup_inputs_elements hj

theorem get?_inputNames_of_fed {x : String} {a : Argument}
    (ha : u.wrapper.arguments.get? x = some a) (hliteral : ∀ value, a ≠ .literal value) :
    u.inputs.names.get? x = none := by
  rw [inputs_eq]
  apply Materialized.get?_names_of_notMem
  intro hmem
  obtain ⟨j, hj, rfl⟩ := List.mem_map.1 hmem
  obtain ⟨i, -, hij⟩ := List.mem_filterMap.1 hj
  rw [name_of_newInput? hij] at ha
  rw [newInput?, ha] at hij
  cases a with
  | literal value => exact hliteral value rfl
  | graphInput name => cases hij
  | taskOutput o => cases hij
  | secret name => cases hij

/-- Each nested output that is bound and not read is to get a new output. -/
theorem exists_mem_newOutputs {output : String} (houtput : u.nested.hasOutput output)
    (hbound : u.inner.outputValues.contains output)
    (hunread : ∀ site, u.outer.source? site ≠ some ⟨u.wrapperId, output⟩) :
    ∃ o ∈ u.nested.outputs.filterMap u.newOutput?, o.name = output := by
  obtain ⟨o, ho⟩ := Component.exists_output?_of_hasOutput houtput
  obtain rfl := Component.name_of_output? ho
  have hnew := newOutput?_eq_some_iff.2 ⟨hunread, hbound, rfl⟩
  exact ⟨_, List.mem_filterMap.2 ⟨o, Component.mem_of_output? ho, hnew⟩, rfl⟩

theorem exists_get?_outputNames {output : String} (houtput : u.nested.hasOutput output)
    (hbound : u.inner.outputValues.contains output)
    (hunread : ∀ site, u.outer.source? site ≠ some ⟨u.wrapperId, output⟩) :
    ∃ new, u.outputs.names.get? output = some new := by
  obtain ⟨o, ho, rfl⟩ := exists_mem_newOutputs houtput hbound hunread
  rw [outputs_eq]
  exact Materialized.exists_get?_names_of_mem renameOutput _ (List.mem_map_of_mem ho)

theorem exists_newOutput (hnodup : (u.nested.outputs.map (·.name)).Nodup) {output : String}
    (houtput : u.nested.hasOutput output) (hbound : u.inner.outputValues.contains output)
    (hunread : ∀ site, u.outer.source? site ≠ some ⟨u.wrapperId, output⟩) :
    ∃ new, u.outputs.names.get? output = some new := by
  obtain ⟨o, ho, rfl⟩ := exists_mem_newOutputs houtput hbound hunread
  have hkeys := nodup_map_filterMap (fun _ _ => name_of_newOutput? (u := u)) hnodup
  obtain ⟨new, hget, -⟩ := Materialized.exists_get?_names renameOutput
    (u.parent.outputs.map (·.name)) hkeys ho
  rw [← outputs_eq] at hget
  exact ⟨new, hget⟩

theorem hasOutput_result_of_new {x new : String} (h : u.outputs.names.get? x = some new) :
    u.result.hasOutput new := by
  rw [outputs_eq] at h
  obtain ⟨o, -, -, helement⟩ := Materialized.exists_of_get?_names h
  rw [← outputs_eq] at helement
  rw [Component.hasOutput_iff]
  exact List.mem_map.2 ⟨_, List.mem_append_right _ helement, rfl⟩

theorem nodup_inputs_result (h : (u.parent.inputs.map (·.name)).Nodup) :
    (u.result.inputs.map (·.name)).Nodup := by
  have heq : u.result.inputs = u.parent.inputs ++ u.inputs.elements := rfl
  rw [heq, List.map_append, inputs_eq]
  apply Materialized.nodup_append (fun _ _ => rfl) h

theorem nodup_outputs_result (h : (u.parent.outputs.map (·.name)).Nodup) :
    (u.result.outputs.map (·.name)).Nodup := by
  have heq : u.result.outputs = u.parent.outputs ++ u.outputs.elements := rfl
  rw [heq, List.map_append, outputs_eq]
  apply Materialized.nodup_append (fun _ _ => rfl) h

/-- A new output stands for a nested output that is bound and not read. -/
theorem of_get?_outputNames {x new : String} (h : u.outputs.names.get? x = some new) :
    u.nested.hasOutput x ∧ u.inner.outputValues.contains x ∧
      ∀ site, u.outer.source? site ≠ some ⟨u.wrapperId, x⟩ := by
  rw [outputs_eq] at h
  obtain ⟨o', ho', rfl, -⟩ := Materialized.exists_of_get?_names h
  obtain ⟨o, ho, hnew⟩ := List.mem_filterMap.1 ho'
  rw [name_of_newOutput? hnew]
  obtain ⟨hunread, hbound, -⟩ := newOutput?_eq_some_iff.1 hnew
  exact ⟨Component.hasOutput_iff.2 (List.mem_map_of_mem ho), hbound, hunread⟩

end Unpacking

end TaskGraph
