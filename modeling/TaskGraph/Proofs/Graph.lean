import TaskGraph.Subgraph.Selection
import TaskGraph.Proofs.NameMap

/-!
# Reading components and graphs

The lists that a graph computes of itself (arguments, references, consumers, inputs read) list
exactly what a look-up of a task and of an argument gives. The declared inputs and outputs of a
component are found by their names, and where the names are distinct each of them is found.
-/
namespace TaskGraph

/-- Among elements with distinct keys each is found by its key. -/
theorem find?_of_mem {α : Type u} {key : α → String} {l : List α} (hnodup : (l.map key).Nodup)
    {a : α} (h : a ∈ l) : l.find? (key · == key a) = some a := by
  induction l with
  | nil => cases h
  | cons b l ih =>
    rw [List.map_cons, List.nodup_cons] at hnodup
    rcases List.mem_cons.1 h with rfl | hmem
    · simp
    · have hne : key b ≠ key a := fun heq => hnodup.1 (heq ▸ List.mem_map_of_mem hmem)
      rw [List.find?_cons_of_neg (by simpa using hne)]
      exact ih hnodup.2 hmem

theorem isSome_find?_iff {α : Type u} {key : α → String} {l : List α} {k : String} :
    (l.find? (key · == k)).isSome ↔ k ∈ l.map key := by
  rw [List.find?_isSome, List.mem_map]
  simp

/-- A list that keeps some elements of another one, each with its key, has distinct keys too. -/
theorem nodup_map_filterMap {α : Type u} {β : Type v} {γ : Type w} {f : α → Option β}
    {key : α → γ} {key' : β → γ} (hkey : ∀ a b, f a = some b → key' b = key a) {l : List α}
    (hnodup : (l.map key).Nodup) : ((l.filterMap f).map key').Nodup := by
  have hsub : ((l.filterMap f).map key').Sublist (l.map key) := by
    clear hnodup
    induction l with
    | nil => exact List.Sublist.slnil
    | cons a l ih =>
      cases ha : f a with
      | none =>
        rw [List.filterMap_cons_none ha]
        exact ih.cons _
      | some b =>
        rw [List.filterMap_cons_some ha, List.map_cons, List.map_cons, hkey a b ha]
        exact ih.cons_cons _
  exact hsub.nodup hnodup

theorem exists_of_rel_some {α : Type u} {β : Type v} {r : α → β → Prop} {x : Option α} {b : β}
    (h : Option.Rel r x (some b)) : ∃ a, x = some a ∧ r a b := by
  cases h with
  | some hr => exact ⟨_, rfl, hr⟩

theorem exists_of_some_rel {α : Type u} {β : Type v} {r : α → β → Prop} {a : α} {y : Option β}
    (h : Option.Rel r (some a) y) : ∃ b, y = some b ∧ r a b := by
  cases h with
  | some hr => exact ⟨_, rfl, hr⟩

theorem eq_none_of_none_rel {α : Type u} {β : Type v} {r : α → β → Prop} {y : Option β}
    (h : Option.Rel r none y) : y = none := by
  cases h
  rfl

namespace Annotations

/-- The annotations are the same but for the position. -/
def AgreeButPosition (a b : Annotations) : Prop :=
  ∀ key, key ≠ positionKey → a.get? key = b.get? key

theorem AgreeButPosition.refl (a : Annotations) : a.AgreeButPosition a := fun _ _ => rfl

theorem AgreeButPosition.trans {a b c : Annotations} (hab : a.AgreeButPosition b)
    (hbc : b.AgreeButPosition c) : a.AgreeButPosition c :=
  fun key hkey => (hab key hkey).trans (hbc key hkey)

theorem agreeButPosition_mapPosition (f : Position → Position) (a : Annotations) :
    (a.mapPosition f).AgreeButPosition a := by
  intro key hkey
  rw [mapPosition]
  split
  · rw [Position.write, NameMap.get?_insert, if_neg hkey]
  · rfl

end Annotations

namespace Argument

theorem taskOutput?_eq_some_iff {a : Argument} {o : TaskOutput} :
    a.taskOutput? = some o ↔ a = .taskOutput o := by
  cases a <;> simp [taskOutput?]

theorem graphInput?_eq_some_iff {a : Argument} {name : String} :
    a.graphInput? = some name ↔ a = .graphInput name := by
  cases a <;> simp [graphInput?]

end Argument

/-- A task is made of its parts; its type refers to itself, so this is not so by definition. -/
@[simp] theorem Task.eta (t : Task) :
    (⟨t.reference, t.arguments, t.annotations, t.execution⟩ : Task) = t := by
  cases t
  rfl

namespace Graph

variable {g : Graph}

theorem containsTask_iff {id : String} : g.containsTask id ↔ ∃ t, g.task? id = some t :=
  NameMap.From.contains_iff

theorem mem_taskKeys_iff {id : String} : id ∈ g.tasks.keys ↔ g.containsTask id :=
  NameMap.From.mem_keys_iff_contains

/-- The argument of a task under a name. -/
def argument? (g : Graph) (task name : String) : Option Argument :=
  (g.task? task).bind (·.arguments.get? name)

theorem argument?_of_task? {id : String} {t : Task} (h : g.task? id = some t) (name : String) :
    g.argument? id name = t.arguments.get? name := by
  rw [argument?, h, Option.bind_some]

theorem argument?_eq_some_iff {id name : String} {a : Argument} :
    g.argument? id name = some a ↔ ∃ t, g.task? id = some t ∧ t.arguments.get? name = some a :=
  Option.bind_eq_some_iff

theorem containsTask_of_argument? {id name : String} {a : Argument}
    (h : g.argument? id name = some a) : g.containsTask id := by
  obtain ⟨t, ht, -⟩ := argument?_eq_some_iff.1 h
  exact containsTask_iff.2 ⟨t, ht⟩

theorem mem_arguments_iff {id name : String} {a : Argument} :
    (id, name, a) ∈ g.arguments ↔ g.argument? id name = some a := by
  rw [argument?_eq_some_iff]
  simp only [arguments, List.mem_flatMap, List.mem_map]
  constructor
  · rintro ⟨⟨i, t⟩, ht, ⟨n, b⟩, hb, heq⟩
    simp only [Prod.mk.injEq] at heq
    obtain ⟨rfl, rfl, rfl⟩ := heq
    exact ⟨t, NameMap.From.mem_toList_iff.1 ht, NameMap.From.mem_toList_iff.1 hb⟩
  · rintro ⟨t, ht, ha⟩
    exact ⟨(id, t), NameMap.From.mem_toList_iff.2 ht, (name, a),
      NameMap.From.mem_toList_iff.2 ha, rfl⟩

/-- The task output that a site reads, if it reads one. -/
def source? (g : Graph) : Site → Option TaskOutput
  | .argument task name => (g.argument? task name).bind (·.taskOutput?)
  | .output name => g.outputValues.get? name

theorem source?_argument_eq_some_iff {id name : String} {o : TaskOutput} :
    g.source? (.argument id name) = some o ↔ g.argument? id name = some (.taskOutput o) := by
  simp [source?, Option.bind_eq_some_iff, Argument.taskOutput?_eq_some_iff]

theorem mem_references_iff {site : Site} {o : TaskOutput} :
    (site, o) ∈ g.references ↔ g.source? site = some o := by
  simp only [references, List.mem_append, List.mem_filterMap, List.mem_map]
  constructor
  · rintro (⟨⟨id, name, a⟩, ha, hread⟩ | ⟨⟨name, source⟩, hv, heq⟩)
    · rw [Option.map_eq_some_iff] at hread
      obtain ⟨source, hsource, heq⟩ := hread
      simp only [Prod.mk.injEq] at heq
      obtain ⟨rfl, rfl⟩ := heq
      rw [source?, mem_arguments_iff.1 ha, Option.bind_some]
      exact hsource
    · simp only [Prod.mk.injEq] at heq
      obtain ⟨rfl, rfl⟩ := heq
      exact NameMap.From.mem_toList_iff.1 hv
  · intro h
    cases site with
    | argument id name =>
      rw [source?_argument_eq_some_iff] at h
      exact .inl ⟨(id, name, .taskOutput o), mem_arguments_iff.2 h, rfl⟩
    | output name =>
      exact .inr ⟨(name, o), NameMap.From.mem_toList_iff.2 h, rfl⟩

/-- No argument is listed twice. -/
theorem nodup_places_arguments (g : Graph) : (g.arguments.map fun e => (e.1, e.2.1)).Nodup := by
  have hparts : (g.arguments.map fun e => (e.1, e.2.1)) =
      g.tasks.toList.flatMap fun e => e.2.arguments.keys.map (e.1, ·) := by
    rw [arguments, List.map_flatMap]
    apply List.flatMap_congr
    intro e _
    rw [NameMap.From.keys_eq_map, List.map_map, List.map_map]
    rfl
  rw [hparts, List.nodup_flatMap]
  refine ⟨fun e _ => (NameMap.From.keys_nodup _).map fun _ _ h => (Prod.mk.inj h).2, ?_⟩
  have hids := NameMap.From.keys_nodup g.tasks
  rw [NameMap.From.keys_eq_map, List.Nodup, List.pairwise_map] at hids
  refine hids.imp fun hne place he he' => ?_
  obtain ⟨_, -, rfl⟩ := List.mem_map.1 he
  obtain ⟨_, -, heq⟩ := List.mem_map.1 he'
  exact hne (Prod.mk.inj heq).1.symm

/-- No site is listed twice. -/
theorem nodup_sites_references (g : Graph) : (g.references.map (·.1)).Nodup := by
  rw [references, List.map_append]
  refine List.Nodup.append ?_ ?_ ?_
  · have hsites := g.nodup_places_arguments.map (f := fun place => Site.argument place.1 place.2)
      fun _ _ h => Prod.ext (Site.argument.inj h).1 (Site.argument.inj h).2
    rw [List.map_map] at hsites
    refine nodup_map_filterMap ?_ hsites
    rintro e r heq
    obtain ⟨o, -, rfl⟩ := Option.map_eq_some_iff.1 heq
    rfl
  · have hsites := (NameMap.From.keys_nodup g.outputValues).map fun _ _ => Site.output.inj
    rw [NameMap.From.keys_eq_map, List.map_map] at hsites
    rw [List.map_map]
    exact hsites
  · intro site hargument houtput
    obtain ⟨_, hmem, rfl⟩ := List.mem_map.1 hargument
    obtain ⟨_, -, heq⟩ := List.mem_filterMap.1 hmem
    obtain ⟨_, -, rfl⟩ := Option.map_eq_some_iff.1 heq
    simp at houtput

theorem mem_consumersOf_iff {id : String} {site : Site} {o : TaskOutput} :
    (site, o) ∈ g.consumersOf id ↔ g.source? site = some o ∧ o.task = id := by
  rw [consumersOf, List.mem_filter, mem_references_iff, beq_iff_eq]

theorem contains_referencedInputs_iff {name : String} :
    g.referencedInputs.contains name ↔
      ∃ id argument, g.argument? id argument = some (.graphInput name) := by
  rw [referencedInputs, NameSet.contains_ofList_iff, List.mem_filterMap]
  constructor
  · rintro ⟨⟨id, argument, a⟩, ha, hread⟩
    rw [mem_arguments_iff] at ha
    exact ⟨id, argument, Argument.graphInput?_eq_some_iff.1 hread ▸ ha⟩
  · rintro ⟨id, argument, ha⟩
    exact ⟨(id, argument, .graphInput name), mem_arguments_iff.2 ha, rfl⟩

end Graph

namespace Component

variable {c : Component} {name : String}

theorem requireGraph_eq_ok_iff {g : Graph} : c.requireGraph = .ok g ↔ c.graph? = some g := by
  rw [requireGraph]
  split <;> simp_all

theorem hasInput_iff : c.hasInput name ↔ name ∈ c.inputs.map (·.name) := isSome_find?_iff

theorem hasOutput_iff : c.hasOutput name ↔ name ∈ c.outputs.map (·.name) := isSome_find?_iff

theorem name_of_input? {i : Input} (h : c.input? name = some i) : i.name = name := by
  simpa using List.find?_some h

theorem name_of_output? {o : Output} (h : c.output? name = some o) : o.name = name := by
  simpa using List.find?_some h

theorem mem_of_input? {i : Input} (h : c.input? name = some i) : i ∈ c.inputs :=
  List.mem_of_find?_eq_some h

theorem mem_of_output? {o : Output} (h : c.output? name = some o) : o ∈ c.outputs :=
  List.mem_of_find?_eq_some h

theorem hasInput_of_input? {i : Input} (h : c.input? name = some i) : c.hasInput name := by
  rw [hasInput, h, Option.isSome_some]

theorem exists_input?_of_hasInput (h : c.hasInput name) : ∃ i, c.input? name = some i :=
  Option.isSome_iff_exists.1 h

theorem exists_output?_of_hasOutput (h : c.hasOutput name) : ∃ o, c.output? name = some o :=
  Option.isSome_iff_exists.1 h

theorem input?_of_mem (hnodup : (c.inputs.map (·.name)).Nodup) {i : Input} (h : i ∈ c.inputs) :
    c.input? i.name = some i :=
  find?_of_mem hnodup h

end Component

end TaskGraph
