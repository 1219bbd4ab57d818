import TaskGraph.Validation.Report
import TaskGraph.Proofs.Graph
import Mathlib.Data.List.Nodup

/-!
# Where findings belong

Every finding about a graph belongs to a place in it: to a site that reads something, to a task, or
to the graph as a whole. It is reported as often as the check of this place reports it, whatever is
found elsewhere. What a site is found to do wrong is at most one thing of each kind.
-/
namespace TaskGraph

namespace Graph

/-- The component of a task, if the task exists and its component resolves. -/
def component? (g : Graph) (resolve : Resolver) (id : String) : Option Component :=
  (g.task? id).bind (resolve ·.reference)

def ReadsTask (g : Graph) (site : Site) (id : String) : Prop :=
  ∃ output, g.source? site = some ⟨id, output⟩

def ReadsInput (g : Graph) (input : String) : Prop :=
  ∃ id name, g.argument? id name = some (.graphInput input)

def Unresolved (g : Graph) (resolve : Resolver) (id : String) : Prop :=
  g.containsTask id ∧ g.component? resolve id = none

/-- The task exists and its component resolves, but does not declare the output. -/
def Undeclared (g : Graph) (resolve : Resolver) (o : TaskOutput) : Prop :=
  ∃ c, g.component? resolve o.task = some c ∧ ¬ c.hasOutput o.output

variable {g : Graph} {resolve : Resolver}

theorem readsTask_and_iff (g : Graph) (site : Site) (id : String) (p : String → Prop) :
    (∃ o, g.source? site = some o ∧ p o.task ∧ id = o.task) ↔ g.ReadsTask site id ∧ p id := by
  constructor
  · rintro ⟨⟨task, output⟩, hsource, hp, rfl⟩
    exact ⟨⟨output, hsource⟩, hp⟩
  · rintro ⟨⟨output, hsource⟩, hp⟩
    exact ⟨_, hsource, hp, rfl⟩

end Graph

/-- How severe it is that a component that is read from does not resolve. -/
def UnresolvedPolicy.severity : UnresolvedPolicy → Severity
  | .warn => .warning
  | .error => .error

/-- The part of a component that a finding is about. -/
inductive Place where
  | component
  | graph
  | task (id : String)
  | site (site : Site)

def Issue.place : Issue → Place
  | noTasks | unconnectedInput _ | unconnectedOutput _ | circularDependency _ => .graph
  | missingReference id | missingArgument id _ => .task id
  | unknownGraphInput id name _ | unknownTask id name _ | unknownTaskOutput id name _ =>
    .site (.argument id name)
  | unresolvedComponent reader _ => .site reader
  | undeclaredOutput name | outputOfUnknownTask name _ | outputOfUnknownOutput name _ =>
    .site (.output name)
  | _ => .component

namespace Site

def unknownTask (site : Site) (target : String) : Issue :=
  match site with
  | .argument id name => .unknownTask id name target
  | .output name => .outputOfUnknownTask name target

def unknownOutput (site : Site) (source : TaskOutput) : Issue :=
  match site with
  | .argument id name => .unknownTaskOutput id name source
  | .output name => .outputOfUnknownOutput name source

end Site

namespace Wiring

variable {w : Wiring}

/-- What is found of a task apart from its arguments. -/
def frameFindings (w : Wiring) (id : String) (t : Task) : List Finding :=
  (if t.reference.isEmpty then [.error (.missingReference id)] else []) ++
    w.requirementFindings id t

/-- What is found of a graph apart from its tasks and bindings. -/
def overallFindings (w : Wiring) : List Finding :=
  (if w.graph.tasks.isEmpty then [.error .noTasks] else []) ++ w.connectionFindings ++
    w.graph.circularTasks.map fun id => .error (.circularDependency id)

def readFindings (w : Wiring) (reader : Site) (source : TaskOutput) : List Finding :=
  match w.graph.task? source.task with
  | none => [.error (reader.unknownTask source.task)]
  | some target => w.targetFindings reader target source (reader.unknownOutput source)

/-- What is found in a place. -/
def findingsAt (w : Wiring) : Place → List Finding
  | .component => []
  | .graph => w.overallFindings
  | .task id => (w.graph.task? id).elim [] (w.frameFindings id)
  | .site (.argument id name) => (w.graph.argument? id name).elim [] (w.argumentFindings id name)
  | .site (.output name) => (w.graph.outputValues.get? name).elim [] (w.bindingFindings name)

theorem place_of_mem_targetFindings {reader : Site} {target : Task} {source : TaskOutput}
    {undeclared : Issue} (hundeclared : undeclared.place = .site reader) {f : Finding}
    (h : f ∈ w.targetFindings reader target source undeclared) : f.issue.place = .site reader := by
  rw [targetFindings] at h
  split at h
  · split at h
    · cases h
    · obtain rfl := List.mem_singleton.1 h
      exact hundeclared
  · obtain rfl := List.mem_singleton.1 h
    cases w.policy <;> rfl

theorem place_of_mem_argumentFindings {id name : String} {a : Argument} {f : Finding}
    (h : f ∈ w.argumentFindings id name a) : f.issue.place = .site (.argument id name) := by
  cases a with
  | graphInput input =>
    rw [argumentFindings] at h
    split at h
    · cases h
    · obtain rfl := List.mem_singleton.1 h
      rfl
  | taskOutput source =>
    rw [argumentFindings] at h
    split at h
    · obtain rfl := List.mem_singleton.1 h
      rfl
    · exact place_of_mem_targetFindings rfl h
  | literal value => cases h
  | secret secret => cases h

theorem place_of_mem_bindingFindings {name : String} {source : TaskOutput} {f : Finding}
    (h : f ∈ w.bindingFindings name source) : f.issue.place = .site (.output name) := by
  rw [bindingFindings, List.mem_append] at h
  rcases h with h | h
  · split at h
    · cases h
    · obtain rfl := List.mem_singleton.1 h
      rfl
  · split at h
    · obtain rfl := List.mem_singleton.1 h
      rfl
    · exact place_of_mem_targetFindings rfl h

theorem place_of_mem_frameFindings {id : String} {t : Task} {f : Finding}
    (h : f ∈ w.frameFindings id t) : f.issue.place = .task id := by
  rw [frameFindings, List.mem_append] at h
  rcases h with h | h
  · split at h
    · obtain rfl := List.mem_singleton.1 h
      rfl
    · cases h
  · rw [requirementFindings] at h
    split at h
    · obtain ⟨i, -, rfl⟩ := List.mem_map.1 h
      rfl
    · cases h

theorem place_of_mem_overallFindings {f : Finding} (h : f ∈ w.overallFindings) :
    f.issue.place = .graph := by
  simp only [overallFindings, connectionFindings, List.mem_append, List.mem_map,
    List.mem_ite_nil_right, List.mem_singleton] at h
  rcases h with (⟨-, rfl⟩ | ⟨_, -, rfl⟩ | ⟨_, -, rfl⟩) | ⟨_, -, rfl⟩ <;> rfl

theorem count_elim {α : Type u} {part : α → List Finding} {f : Finding} (x : Option α) :
    (x.elim [] part).count f = x.elim 0 fun v => (part v).count f := by
  cases x <;> rfl

theorem count_taskFindings {id : String} {t : Task} {f : Finding} :
    (w.taskFindings id t).count f = (w.frameFindings id t).count f +
      (t.arguments.toList.flatMap fun e => w.argumentFindings id e.1 e.2).count f := by
  simp only [taskFindings, frameFindings, List.count_append]
  omega

theorem place_of_mem_taskFindings {id : String} {t : Task} {f : Finding}
    (h : f ∈ w.taskFindings id t) :
    f.issue.place = .task id ∨ ∃ name, f.issue.place = .site (.argument id name) := by
  rw [← List.count_pos_iff, count_taskFindings, Nat.add_pos_iff_pos_or_pos, List.count_pos_iff,
    List.count_pos_iff, List.mem_flatMap] at h
  rcases h with h | ⟨e, -, h⟩
  · exact .inl (place_of_mem_frameFindings h)
  · exact .inr ⟨e.1, place_of_mem_argumentFindings h⟩

theorem count_taskFindings_of_task {id : String} {t : Task} {f : Finding}
    (hplace : f.issue.place = .task id) :
    (w.taskFindings id t).count f = (w.frameFindings id t).count f := by
  have harguments : (t.arguments.toList.flatMap fun e =>
      w.argumentFindings id e.1 e.2).count f = 0 := by
    refine List.count_eq_zero.2 fun hmem => ?_
    obtain ⟨e, -, hmem⟩ := List.mem_flatMap.1 hmem
    cases hplace.symm.trans (place_of_mem_argumentFindings hmem)
  rw [count_taskFindings, harguments, Nat.add_zero]

theorem count_taskFindings_of_argument {id name : String} {t : Task} {f : Finding}
    (hplace : f.issue.place = .site (.argument id name)) :
    (w.taskFindings id t).count f =
      (t.arguments.get? name).elim 0 fun a => (w.argumentFindings id name a).count f := by
  have hframe : (w.frameFindings id t).count f = 0 := by
    refine List.count_eq_zero.2 fun hmem => ?_
    cases hplace.symm.trans (place_of_mem_frameFindings hmem)
  rw [count_taskFindings, hframe, Nat.zero_add, NameMap.From.count_flatMap_toList (k := name)]
  intro j a hmem
  cases hplace.symm.trans (place_of_mem_argumentFindings hmem)
  rfl

/-- What is found of the tasks is found in a task or at an argument. -/
theorem count_tasks (f : Finding) :
    (w.graph.tasks.toList.flatMap fun e => w.taskFindings e.1 e.2).count f =
      match f.issue.place with
      | .task id => (w.findingsAt (.task id)).count f
      | .site (.argument id name) => (w.findingsAt (.site (.argument id name))).count f
      | _ => 0 := by
  split
  · rename_i id hplace
    rw [NameMap.From.count_flatMap_toList (k := id), findingsAt, count_elim]
    · simp only [count_taskFindings_of_task hplace, Graph.task?]
    · intro j t hmem
      rcases place_of_mem_taskFindings hmem with h | ⟨name, h⟩ <;> cases hplace.symm.trans h
      rfl
  · rename_i id name hplace
    rw [NameMap.From.count_flatMap_toList (k := id), findingsAt, count_elim, Graph.argument?]
    · simp only [count_taskFindings_of_argument hplace, Graph.task?]
      cases w.graph.tasks.get? id <;> rfl
    · intro j t hmem
      rcases place_of_mem_taskFindings hmem with h | ⟨name, h⟩ <;> cases hplace.symm.trans h
      rfl
  · rename_i htask hargument
    refine List.count_eq_zero.2 fun hmem => ?_
    obtain ⟨e, -, hmem⟩ := List.mem_flatMap.1 hmem
    rcases place_of_mem_taskFindings hmem with h | ⟨name, h⟩
    · exact htask _ h
    · exact hargument _ _ h

theorem count_bindings (f : Finding) :
    (w.graph.outputValues.toList.flatMap fun e => w.bindingFindings e.1 e.2).count f =
      match f.issue.place with
      | .site (.output name) => (w.findingsAt (.site (.output name))).count f
      | _ => 0 := by
  split
  · rename_i name hplace
    rw [NameMap.From.count_flatMap_toList (k := name), findingsAt, count_elim]
    intro j source hmem
    cases hplace.symm.trans (place_of_mem_bindingFindings hmem)
    rfl
  · rename_i hother
    refine List.count_eq_zero.2 fun hmem => ?_
    obtain ⟨e, -, hmem⟩ := List.mem_flatMap.1 hmem
    exact hother _ (place_of_mem_bindingFindings hmem)

theorem count_overallFindings (f : Finding) :
    w.overallFindings.count f =
      match f.issue.place with
      | .graph => (w.findingsAt .graph).count f
      | _ => 0 := by
  split
  · rfl
  · rename_i hother
    exact List.count_eq_zero.2 fun hmem => hother (place_of_mem_overallFindings hmem)

/-- A finding is reported as often as it is found in its place. -/
theorem count_findings (f : Finding) :
    w.findings.count f = (w.findingsAt f.issue.place).count f := by
  have hparts : w.findings.count f = w.overallFindings.count f +
      (w.graph.tasks.toList.flatMap fun e => w.taskFindings e.1 e.2).count f +
      (w.graph.outputValues.toList.flatMap fun e => w.bindingFindings e.1 e.2).count f := by
    simp only [findings, overallFindings, List.count_append]
    omega
  rw [hparts, count_overallFindings, count_tasks, count_bindings]
  rcases f.issue.place with _ | _ | id | (⟨id, name⟩ | name)
  · rfl
  · simp
  · simp
  · simp
  · simp

theorem argumentFindings_taskOutput {id name : String} {o : TaskOutput} :
    w.argumentFindings id name (.taskOutput o) = w.readFindings (.argument id name) o := rfl

theorem bindingFindings_eq {name : String} {o : TaskOutput} :
    w.bindingFindings name o =
      (if w.component.hasOutput name then [] else [.error (.undeclaredOutput name)]) ++
        w.readFindings (.output name) o := rfl

theorem mem_readFindings_iff {reader : Site} {o : TaskOutput} {f : Finding} :
    f ∈ w.readFindings reader o ↔
      ¬ w.graph.containsTask o.task ∧ f = .error (reader.unknownTask o.task) ∨
      w.graph.Undeclared w.resolve o ∧ f = .error (reader.unknownOutput o) ∨
      w.graph.Unresolved w.resolve o.task ∧
        f = ⟨w.policy.severity, .unresolvedComponent reader o.task⟩ := by
  rw [readFindings, Graph.containsTask_iff, Graph.Undeclared, Graph.Unresolved, Graph.component?,
    Graph.containsTask_iff]
  cases w.graph.task? o.task with
  | none => simp
  | some t =>
    cases hc : w.resolve t.reference with
    | none =>
      cases hp : w.policy <;>
        simp [targetFindings, hc, hp, UnresolvedPolicy.severity, Finding.error, Finding.warning]
    | some c => cases ho : c.hasOutput o.output <;> simp [targetFindings, hc, ho]

theorem nodup_readFindings (w : Wiring) (reader : Site) (o : TaskOutput) :
    (w.readFindings reader o).Nodup := by
  rw [readFindings]
  cases w.graph.task? o.task with
  | none => simp
  | some t =>
    cases hc : w.resolve t.reference with
    | none => simp [targetFindings, hc]
    | some c => cases ho : c.hasOutput o.output <;> simp [targetFindings, hc, ho]

theorem mem_findingsAt_argument_iff {id name : String} {f : Finding} :
    f ∈ w.findingsAt (.site (.argument id name)) ↔
      (∃ input, w.graph.argument? id name = some (.graphInput input) ∧
        ¬ w.component.hasInput input ∧ f = .error (.unknownGraphInput id name input)) ∨
      ∃ o, w.graph.source? (.argument id name) = some o ∧
        f ∈ w.readFindings (.argument id name) o := by
  simp only [findingsAt, Graph.source?_argument_eq_some_iff]
  cases w.graph.argument? id name with
  | none => simp
  | some a =>
    cases a with
    | graphInput input => simp [argumentFindings]
    | taskOutput o => simp [argumentFindings_taskOutput]
    | literal value => simp [argumentFindings]
    | secret secret => simp [argumentFindings]

theorem mem_findingsAt_output_iff {name : String} {f : Finding} :
    f ∈ w.findingsAt (.site (.output name)) ↔
      w.graph.outputValues.contains name ∧ ¬ w.component.hasOutput name ∧
        f = .error (.undeclaredOutput name) ∨
      ∃ o, w.graph.source? (.output name) = some o ∧ f ∈ w.readFindings (.output name) o := by
  simp only [findingsAt, Graph.source?, NameMap.From.contains]
  cases w.graph.outputValues.get? name with
  | none => simp
  | some o => simp [bindingFindings_eq]

theorem nodup_findingsAt_site (w : Wiring) (site : Site) : (w.findingsAt (.site site)).Nodup := by
  cases site with
  | argument id name =>
    rw [findingsAt]
    cases w.graph.argument? id name with
    | none => exact List.nodup_nil
    | some a =>
      cases a with
      | graphInput input =>
        rw [Option.elim_some, argumentFindings]
        split
        · exact List.nodup_nil
        · exact List.nodup_singleton _
      | taskOutput o =>
        rw [Option.elim_some, argumentFindings_taskOutput]
        exact w.nodup_readFindings _ o
      | literal value => exact List.nodup_nil
      | secret secret => exact List.nodup_nil
  | output name =>
    rw [findingsAt]
    cases w.graph.outputValues.get? name with
    | none => exact List.nodup_nil
    | some o =>
      rw [Option.elim_some, bindingFindings_eq]
      split
      · exact w.nodup_readFindings _ o
      · refine List.nodup_cons.2 ⟨fun hmem => ?_, w.nodup_readFindings _ o⟩
        rcases mem_readFindings_iff.1 hmem with ⟨-, h⟩ | ⟨-, h⟩ | ⟨-, h⟩ <;>
          cases congrArg Finding.issue h

end Wiring

end TaskGraph
