import TaskGraph.Proofs.Validation.Cycle
import TaskGraph.Proofs.Validation.Findings
import Mathlib.Data.List.Basic
import Mathlib.Data.List.Count
import Mathlib.Data.List.Induction

/-!
# Checking reports exactly the violations

A component without a name or an implementation is found to be unfit, and nothing else. For every
other component the errors and the warnings are counted: each finding occurs as often as the
component gives reason for it, which is once for a site, a task or a repeated name, and once for
each declaration of an input or an output. The tasks found to be circular lie on cycles, and no
cycle goes without one.
-/
open Relation

namespace TaskGraph

namespace Graph

variable {g : Graph} {resolve : Resolver}

theorem any_source?_iff {site : Site} {id : String} :
    (g.source? site).any (·.task = id) ↔ g.ReadsTask site id := by
  rw [ReadsTask, Option.any_eq_true]
  constructor
  · rintro ⟨⟨task, output⟩, hsource, htask⟩
    obtain rfl : task = id := by simpa using htask
    exact ⟨output, hsource⟩
  · rintro ⟨output, hsource⟩
    exact ⟨_, hsource, by simp⟩

theorem any_component?_iff {o : TaskOutput} :
    (g.component? resolve o.task).any (!·.hasOutput o.output) ↔ g.Undeclared resolve o := by
  rw [Undeclared, Option.any_eq_true]
  simp

instance (site : Site) (id : String) : Decidable (g.ReadsTask site id) :=
  decidable_of_iff _ any_source?_iff

instance (input : String) : Decidable (g.ReadsInput input) :=
  decidable_of_iff _ contains_referencedInputs_iff

instance (id : String) : Decidable (g.Unresolved resolve id) :=
  decidable_of_iff (g.containsTask id ∧ (g.component? resolve id).isNone)
    (by rw [Option.isNone_iff_eq_none, Unresolved])

instance (o : TaskOutput) : Decidable (g.Undeclared resolve o) :=
  decidable_of_iff _ any_component?_iff

end Graph

/-- How often a finding is reported on a graph. -/
def Wiring.multiplicity (w : Wiring) : Finding → Nat
  | ⟨.error, .noTasks⟩ => if w.graph.tasks.keys = [] then 1 else 0
  | ⟨.error, .missingReference id⟩ =>
    if (w.graph.task? id).any (·.reference.isEmpty) then 1 else 0
  | ⟨.error, .unknownGraphInput id name input⟩ =>
    if w.graph.argument? id name = some (.graphInput input) ∧ ¬ w.component.hasInput input
    then 1 else 0
  | ⟨.error, .unknownTask id name target⟩ =>
    if w.graph.ReadsTask (.argument id name) target ∧ ¬ w.graph.containsTask target then 1 else 0
  | ⟨.error, .unknownTaskOutput id name source⟩ =>
    if w.graph.source? (.argument id name) = some source ∧ w.graph.Undeclared w.resolve source
    then 1 else 0
  | ⟨.error, .missingArgument id input⟩ =>
    if w.graph.argument? id input = none then
      (w.graph.component? w.resolve id).elim 0 (·.inputs.countP fun i =>
        i.name = input ∧ i.isRequired)
    else 0
  | ⟨.error, .undeclaredOutput name⟩ =>
    if w.graph.outputValues.contains name ∧ ¬ w.component.hasOutput name then 1 else 0
  | ⟨.error, .outputOfUnknownTask name target⟩ =>
    if w.graph.ReadsTask (.output name) target ∧ ¬ w.graph.containsTask target then 1 else 0
  | ⟨.error, .outputOfUnknownOutput name source⟩ =>
    if w.graph.source? (.output name) = some source ∧ w.graph.Undeclared w.resolve source
    then 1 else 0
  | ⟨severity, .unresolvedComponent reader target⟩ =>
    if severity = w.policy.severity ∧ w.graph.ReadsTask reader target ∧
      w.graph.Unresolved w.resolve target
    then 1 else 0
  | ⟨.error, .circularDependency id⟩ => if id ∈ w.graph.circularTasks then 1 else 0
  | ⟨.warning, .unconnectedInput name⟩ =>
    if w.graph.ReadsInput name then 0 else (w.component.inputs.map (·.name)).count name
  | ⟨.warning, .unconnectedOutput name⟩ =>
    if w.graph.outputValues.contains name then 0
    else (w.component.outputs.map (·.name)).count name
  | _ => 0

namespace Component

/-- The name is missing or blank, or there is no implementation. -/
def Unfit (c : Component) : Prop := c.name.all isBlank ∨ c.implementation.isNone

instance (c : Component) : Decidable c.Unfit := inferInstanceAs (Decidable (_ ∨ _))

/-- How often a finding is reported on a component that is not unfit. -/
def multiplicity (resolve : Resolver) (options : ValidationOptions) (c : Component) : Finding → Nat
  | ⟨.error, .blankInput index⟩ => if (c.inputs[index]?).any (isBlank ·.name) then 1 else 0
  | ⟨.error, .duplicateInput name⟩ =>
    if ¬ isBlank name ∧ 2 ≤ (c.inputs.map (·.name)).count name then 1 else 0
  | ⟨.error, .blankOutput index⟩ => if (c.outputs[index]?).any (isBlank ·.name) then 1 else 0
  | ⟨.error, .duplicateOutput name⟩ =>
    if ¬ isBlank name ∧ 2 ≤ (c.outputs.map (·.name)).count name then 1 else 0
  | ⟨.error, .missingInputValue name⟩ =>
    if options.skipInputValues then 0
    else c.inputs.countP fun i => i.name = name ∧ i.isRequired ∧ i.value.isNone
  | f => c.graph?.elim 0 fun g => Wiring.multiplicity ⟨c, g, resolve, options.unresolved⟩ f

/-- How often a finding is reported on a component that is unfit. -/
def unfitMultiplicity (c : Component) : Finding → Nat
  | ⟨.error, .missingName⟩ => if c.name.all isBlank then 1 else 0
  | ⟨.error, .missingImplementation⟩ => if c.implementation.isNone then 1 else 0
  | _ => 0

end Component

namespace Wiring

variable {w : Wiring}

theorem mem_findingsAt_unresolved_iff {severity : Severity} {reader : Site} {target : String} :
    ⟨severity, .unresolvedComponent reader target⟩ ∈ w.findingsAt (.site reader) ↔
      severity = w.policy.severity ∧ w.graph.ReadsTask reader target ∧
        w.graph.Unresolved w.resolve target := by
  have hreads := Graph.readsTask_and_iff w.graph reader target fun id =>
    w.graph.Unresolved w.resolve id ∧ severity = w.policy.severity
  rw [← and_assoc, and_comm, and_comm (a := severity = _), and_left_comm]
  cases reader <;>
    simpa [mem_findingsAt_argument_iff, mem_findingsAt_output_iff, mem_readFindings_iff,
      Finding.error, Site.unknownTask, Site.unknownOutput, and_assoc] using hreads

theorem multiplicity_site {f : Finding} {site : Site} (hplace : f.issue.place = .site site) :
    w.multiplicity f = if f ∈ w.findingsAt (.site site) then 1 else 0 := by
  rcases f with ⟨severity, issue⟩
  have hdangling (site : Site) (target : String) :=
    Graph.readsTask_and_iff w.graph site target (w.graph.containsTask · = false)
  cases issue with
  | unresolvedComponent reader target =>
    cases hplace
    cases severity <;> exact if_congr mem_findingsAt_unresolved_iff.symm rfl rfl
  | unknownGraphInput | unknownTask | unknownTaskOutput =>
    cases hplace
    cases severity <;>
      simp [multiplicity, mem_findingsAt_argument_iff, mem_readFindings_iff, Finding.error,
        Site.unknownTask, Site.unknownOutput, hdangling]
  | undeclaredOutput | outputOfUnknownTask | outputOfUnknownOutput =>
    cases hplace
    cases severity <;>
      simp [multiplicity, mem_findingsAt_output_iff, mem_readFindings_iff, Finding.error,
        Site.unknownTask, Site.unknownOutput, hdangling]
  | _ => cases hplace

theorem count_map_filter {α : Type u} {key : α → String} {p : α → Bool}
    {finding : String → Finding} (hfinding : Function.Injective finding) (l : List α)
    (name : String) :
    ((l.filter p).map fun a => finding (key a)).count (finding name) =
      l.countP fun a => key a = name ∧ p a := by
  rw [List.count, List.countP_map, List.countP_filter]
  refine List.countP_congr fun a _ => ?_
  simp [hfinding.eq_iff]

/-- A condition on the name alone holds of all elements with the name, or of none. -/
theorem countP_named {α : Type u} (key : α → String) (p : α → Bool) (q : String → Bool)
    (l : List α) (name : String) :
    (l.countP fun a => key a = name ∧ (p a && q (key a))) =
      if q name then l.countP fun a => key a = name ∧ p a else 0 := by
  split
  · rename_i hq
    refine List.countP_congr fun a _ => ?_
    simp +contextual [hq]
  · rename_i hq
    rw [List.countP_eq_zero]
    intro a _ ha
    simp only [Bool.and_eq_true, decide_eq_true_eq] at ha
    obtain ⟨rfl, -, ha⟩ := ha
    exact hq ha

theorem count_map_unlisted {α : Type u} {β : Type v} {key : α → String} {finding : String → Finding}
    (hfinding : Function.Injective finding) (listed : NameMap β) (l : List α) (name : String) :
    ((l.filter fun a => !listed.contains (key a)).map fun a => finding (key a)).count
      (finding name) = if listed.contains name then 0 else (l.map key).count name := by
  have hcount : (l.map key).count name = l.countP fun a => key a = name := by
    rw [List.count, List.countP_map]
    rfl
  have hnamed := countP_named key (fun _ => true) (!listed.contains ·) l name
  rw [count_map_filter hfinding, hcount]
  by_cases h : listed.contains name <;> simpa [h] using hnamed

theorem count_map_of_ne {α : Type u} {finding : α → Finding} {f : Finding} (l : List α)
    (h : ∀ a, finding a ≠ f) : (l.map finding).count f = 0 := by
  rw [List.count_eq_zero, List.mem_map]
  rintro ⟨a, -, ha⟩
  exact h a ha

theorem severity_of_mem_frameFindings {id : String} {t : Task} {f : Finding}
    (h : f ∈ w.frameFindings id t) : f.severity = .error := by
  rw [frameFindings, requirementFindings, List.mem_append] at h
  rcases h with h | h
  · split at h
    · obtain rfl := List.mem_singleton.1 h
      rfl
    · cases h
  · split at h
    · obtain ⟨i, -, rfl⟩ := List.mem_map.1 h
      rfl
    · cases h

theorem count_missingReference (w : Wiring) (id : String) (t : Task) :
    (w.frameFindings id t).count ⟨.error, .missingReference id⟩ =
      if t.reference.isEmpty then 1 else 0 := by
  have hrequirement : (w.requirementFindings id t).count ⟨.error, .missingReference id⟩ = 0 := by
    rw [requirementFindings]
    split
    · exact count_map_of_ne _ fun i h => by cases congrArg Finding.issue h
    · rfl
  rw [frameFindings, List.count_append, hrequirement]
  split
  · exact List.count_singleton_self
  · rfl

theorem count_missingArgument (w : Wiring) (id input : String) (t : Task) :
    (w.frameFindings id t).count ⟨.error, .missingArgument id input⟩ =
      if t.arguments.get? input = none then
        (w.resolve t.reference).elim 0 (·.inputs.countP fun i => i.name = input ∧ i.isRequired)
      else 0 := by
  have hreference : (if t.reference.isEmpty then [Finding.error (.missingReference id)]
      else []).count ⟨.error, .missingArgument id input⟩ = 0 := by
    split
    · exact List.count_eq_zero.2 fun h => by cases congrArg Finding.issue (List.mem_singleton.1 h)
    · rfl
  rw [frameFindings, List.count_append, hreference, Nat.zero_add, requirementFindings]
  cases w.resolve t.reference with
  | none => exact (ite_self 0).symm
  | some c =>
    have hinjective : Function.Injective fun name => Finding.error (.missingArgument id name) :=
      fun a b h => by cases h; rfl
    refine (count_map_filter hinjective c.inputs input).trans ?_
    refine (countP_named (·.name) (·.isRequired) (!t.arguments.contains ·) c.inputs input).trans ?_
    simp [NameMap.From.contains_eq_false_iff]

theorem count_findingsAt_task {f : Finding} {id : String} (hplace : f.issue.place = .task id) :
    (w.findingsAt (.task id)).count f = w.multiplicity f := by
  rw [findingsAt, count_elim]
  rcases f with ⟨severity, issue⟩
  cases severity with
  | warning =>
    have hframe (t : Task) : (w.frameFindings id t).count ⟨.warning, issue⟩ = 0 :=
      List.count_eq_zero.2 fun h => by cases severity_of_mem_frameFindings h
    simp only [hframe]
    cases issue <;> cases hplace <;> cases w.graph.task? id <;> rfl
  | error =>
    cases issue with
    | missingReference id =>
      cases hplace
      simp only [count_missingReference, multiplicity]
      cases w.graph.task? id <;> simp
    | missingArgument id input =>
      cases hplace
      simp only [count_missingArgument, multiplicity]
      cases ht : w.graph.task? id <;> simp [Graph.component?, Graph.argument?, ht]
    | _ => cases hplace

theorem count_noTasks (w : Wiring) (f : Finding) :
    (if w.graph.tasks.isEmpty then [Finding.error .noTasks] else []).count f =
      match f with
      | ⟨.error, .noTasks⟩ => if w.graph.tasks.keys = [] then 1 else 0
      | _ => 0 := by
  have hkeys : w.graph.tasks.isEmpty ↔ w.graph.tasks.keys = [] := by
    cases w.graph.tasks <;> simp [NameMap.From.isEmpty, NameMap.From.keys]
  by_cases hempty : w.graph.tasks.isEmpty
  · rw [if_pos hempty, if_pos (hkeys.1 hempty)]
    split
    · exact List.count_singleton_self
    · rename_i hother
      exact List.count_eq_zero.2 fun h => hother (List.mem_singleton.1 h)
  · rw [if_neg hempty, if_neg fun h => hempty (hkeys.2 h)]
    split <;> rfl

theorem count_unconnectedInput (w : Wiring) (f : Finding) :
    ((w.component.inputs.filter fun i => !w.graph.referencedInputs.contains i.name).map fun i =>
      Finding.warning (.unconnectedInput i.name)).count f =
      match f with
      | ⟨.warning, .unconnectedInput name⟩ =>
        if w.graph.ReadsInput name then 0 else (w.component.inputs.map (·.name)).count name
      | _ => 0 := by
  have hinjective : Function.Injective fun name => Finding.warning (.unconnectedInput name) :=
    fun a b h => by cases h; rfl
  split
  · rename_i name
    refine (count_map_unlisted hinjective w.graph.referencedInputs w.component.inputs name).trans ?_
    exact if_congr Graph.contains_referencedInputs_iff rfl rfl
  · rename_i hother
    exact count_map_of_ne _ fun i h => hother _ h.symm

theorem count_unconnectedOutput (w : Wiring) (f : Finding) :
    ((w.component.outputs.filter fun o => !w.graph.outputValues.contains o.name).map fun o =>
      Finding.warning (.unconnectedOutput o.name)).count f =
      match f with
      | ⟨.warning, .unconnectedOutput name⟩ =>
        if w.graph.outputValues.contains name then 0
        else (w.component.outputs.map (·.name)).count name
      | _ => 0 := by
  have hinjective : Function.Injective fun name => Finding.warning (.unconnectedOutput name) :=
    fun a b h => by cases h; rfl
  split
  · rename_i name
    exact count_map_unlisted hinjective w.graph.outputValues w.component.outputs name
  · rename_i hother
    exact count_map_of_ne _ fun o h => hother _ h.symm

theorem count_circularDependency (w : Wiring) (f : Finding) :
    (w.graph.circularTasks.map fun id => Finding.error (.circularDependency id)).count f =
      match f with
      | ⟨.error, .circularDependency id⟩ => if id ∈ w.graph.circularTasks then 1 else 0
      | _ => 0 := by
  have hinjective : Function.Injective fun id => Finding.error (.circularDependency id) :=
    fun a b h => by cases h; rfl
  split
  · rename_i id
    rw [← w.graph.nodup_circularTasks.count]
    exact List.count_map_of_injective w.graph.circularTasks _ hinjective id
  · rename_i hother
    exact count_map_of_ne _ fun id h => hother _ h.symm

theorem count_findingsAt_graph {f : Finding} (hplace : f.issue.place = .graph) :
    (w.findingsAt .graph).count f = w.multiplicity f := by
  rw [findingsAt, overallFindings, connectionFindings, List.count_append, List.count_append,
    List.count_append, count_noTasks, count_unconnectedInput, count_unconnectedOutput,
    count_circularDependency]
  rcases f with ⟨severity, issue⟩
  cases issue with
  | noTasks | unconnectedInput | unconnectedOutput | circularDependency =>
    cases severity <;> simp [multiplicity]
  | _ => cases hplace

theorem count_eq_multiplicity (w : Wiring) (f : Finding) :
    w.findings.count f = w.multiplicity f := by
  rw [count_findings]
  cases hplace : f.issue.place with
  | component =>
    rcases f with ⟨severity, issue⟩
    cases issue <;> cases hplace <;> cases severity <;> rfl
  | graph => exact count_findingsAt_graph hplace
  | task id => exact count_findingsAt_task hplace
  | site site =>
    rw [(w.nodup_findingsAt_site site).count, multiplicity_site hplace]

end Wiring

namespace Component

section

variable {blank : Nat → Issue} {duplicate : String → Issue}

/-- What is found of a name that stands after others. -/
def findingsAfter (blank : Nat → Issue) (duplicate : String → Issue) (names : List String)
    (name : String) : List Finding :=
  if isBlank name then [.error (blank names.length)]
  else if names.count name = 1 then [.error (duplicate name)] else []

theorem nameFindings_concat (names : List String) (name : String) :
    nameFindings blank duplicate (names ++ [name]) =
      nameFindings blank duplicate names ++ findingsAfter blank duplicate names name := by
  rw [nameFindings, List.zipIdx_append, List.filterMap_append]
  congr 1
  · refine List.filterMap_congr fun e he => ?_
    have hindex : e.2 ≤ names.length := Nat.le_of_lt (by simpa using List.snd_lt_of_mem_zipIdx he)
    simp only [List.take_append_of_le_length hindex]
  · rw [List.zipIdx_singleton, Nat.zero_add, findingsAfter]
    by_cases hname : isBlank name
    · simp [hname]
    · by_cases hcount : names.count name = 1 <;> simp [hname, hcount]

theorem count_findingsAfter_blank (hblank : Function.Injective blank)
    (hduplicate : ∀ i name, blank i ≠ duplicate name) (names : List String) (name : String)
    (index : Nat) :
    (findingsAfter blank duplicate names name).count ⟨.error, blank index⟩ =
      if isBlank name ∧ index = names.length then 1 else 0 := by
  rw [findingsAfter]
  by_cases hname : isBlank name
  · by_cases hindex : index = names.length
    · simp [hname, hindex, Finding.error]
    · simp [hname, hindex, Finding.error, hblank.eq_iff, Ne.symm hindex]
  · by_cases hcount : names.count name = 1
    · simp [hname, hcount, Finding.error, (hduplicate _ _).symm]
    · simp [hname, hcount]

theorem count_findingsAfter_duplicate (hduplicate : Function.Injective duplicate)
    (hblank : ∀ i name, blank i ≠ duplicate name) (names : List String) (last name : String) :
    (findingsAfter blank duplicate names last).count ⟨.error, duplicate name⟩ =
      if ¬ isBlank name ∧ last = name ∧ names.count name = 1 then 1 else 0 := by
  rw [findingsAfter]
  by_cases hlast : last = name
  · subst hlast
    by_cases hname : isBlank last
    · simp [hname, Finding.error, hblank]
    · by_cases hcount : names.count last = 1 <;> simp [hname, hcount, Finding.error]
  · by_cases hname : isBlank last
    · simp [hname, hlast, Finding.error, hblank]
    · by_cases hcount : names.count last = 1
      · simp [hname, hcount, hlast, Finding.error, hduplicate.eq_iff]
      · simp [hname, hcount, hlast]

/-- A blank name is reported once, with its position. -/
theorem count_blank (hblank : Function.Injective blank)
    (hduplicate : ∀ i name, blank i ≠ duplicate name) (names : List String) (index : Nat) :
    (nameFindings blank duplicate names).count ⟨.error, blank index⟩ =
      if (names[index]?).any isBlank then 1 else 0 := by
  induction names using List.reverseRecOn with
  | nil => rfl
  | append_singleton names name ih =>
    rw [nameFindings_concat, List.count_append, ih, count_findingsAfter_blank hblank hduplicate]
    rcases Nat.lt_trichotomy index names.length with h | h | h
    · simp [List.getElem?_append_left h, Nat.ne_of_lt h]
    · simp [h]
    · have hbeyond : (names ++ [name])[index]? = none :=
        List.getElem?_eq_none (by rw [List.length_append]; exact h)
      simp [hbeyond, List.getElem?_eq_none (Nat.le_of_lt h), Nat.ne_of_gt h]

/-- Any other name is reported once if it stands in the list more than once. -/
theorem count_duplicate (hduplicate : Function.Injective duplicate)
    (hblank : ∀ i name, blank i ≠ duplicate name) (names : List String) (name : String) :
    (nameFindings blank duplicate names).count ⟨.error, duplicate name⟩ =
      if ¬ isBlank name ∧ 2 ≤ names.count name then 1 else 0 := by
  induction names using List.reverseRecOn with
  | nil => simp [nameFindings]
  | append_singleton names last ih =>
    rw [nameFindings_concat, List.count_append, ih, List.count_append,
      count_findingsAfter_duplicate hduplicate hblank, List.count_singleton]
    by_cases hname : isBlank name
    · simp [hname]
    · by_cases hlast : last = name
      · rcases Nat.lt_trichotomy (names.count name) 1 with h | h | h
        · simp [hname, hlast, Nat.lt_one_iff.1 h]
        · simp [hname, hlast, h]
        · have hmore : 2 ≤ names.count name + 1 := by omega
          simp [hname, hlast, hmore, Nat.ne_of_gt h, Nat.succ_le_of_lt h]
      · simp [hlast]

theorem count_other {f : Finding} (hblank : ∀ i, f ≠ .error (blank i))
    (hduplicate : ∀ name, f ≠ .error (duplicate name)) (names : List String) :
    (nameFindings blank duplicate names).count f = 0 := by
  rw [List.count_eq_zero, nameFindings, List.mem_filterMap]
  rintro ⟨⟨name, index⟩, -, he⟩
  dsimp only at he
  split at he
  · exact hblank _ (Option.some.inj he).symm
  · split at he
    · exact hduplicate _ (Option.some.inj he).symm
    · cases he

end

variable {resolve : Resolver} {options : ValidationOptions} {c : Component}

theorem count_missingInputValue (name : String) :
    (c.valueFindings options).count ⟨.error, .missingInputValue name⟩ =
      if options.skipInputValues then 0
      else c.inputs.countP fun i => i.name = name ∧ i.isRequired ∧ i.value.isNone := by
  have hinjective : Function.Injective fun name => Finding.error (.missingInputValue name) :=
    fun a b h => by cases h; rfl
  rw [valueFindings]
  split
  · rfl
  · refine (Wiring.count_map_filter hinjective c.inputs name).trans ?_
    simp

theorem count_valueFindings_other {f : Finding} (h : ∀ name, f ≠ .error (.missingInputValue name)) :
    (c.valueFindings options).count f = 0 := by
  rw [valueFindings]
  split
  · rfl
  · exact Wiring.count_map_of_ne _ fun i heq => h i.name heq.symm

theorem isEmpty_fatalFindings (hfit : ¬ c.Unfit) : c.fatalFindings.isEmpty := by
  simp only [Unfit, not_or] at hfit
  simp [fatalFindings, hfit]

theorem findings_of_graph? (hfit : ¬ c.Unfit) {g : Graph} (hg : c.graph? = some g) :
    c.findings resolve options = c.interfaceFindings ++ c.valueFindings options ++
      Wiring.findings ⟨c, g, resolve, options.unresolved⟩ := by
  rw [findings, if_pos (isEmpty_fatalFindings hfit), hg]

theorem count_findings_split (hfit : ¬ c.Unfit) (f : Finding) :
    (c.findings resolve options).count f =
      (nameFindings .blankInput .duplicateInput (c.inputs.map (·.name))).count f +
      (nameFindings .blankOutput .duplicateOutput (c.outputs.map (·.name))).count f +
      (c.valueFindings options).count f +
      c.graph?.elim 0 fun g => Wiring.multiplicity ⟨c, g, resolve, options.unresolved⟩ f := by
  rw [findings, if_pos (isEmpty_fatalFindings hfit), List.count_append, List.count_append,
    interfaceFindings, List.count_append]
  congr 1
  cases c.graph? with
  | none => rfl
  | some g => exact Wiring.count_eq_multiplicity _ f

theorem count_findings_of_fit (hfit : ¬ c.Unfit) (f : Finding) :
    (c.findings resolve options).count f = c.multiplicity resolve options f := by
  have hinputs (names : List String) (hblank : ∀ i, f ≠ .error (.blankInput i))
      (hduplicate : ∀ name, f ≠ .error (.duplicateInput name)) :
      (nameFindings .blankInput .duplicateInput names).count f = 0 :=
    count_other hblank hduplicate names
  have houtputs (names : List String) (hblank : ∀ i, f ≠ .error (.blankOutput i))
      (hduplicate : ∀ name, f ≠ .error (.duplicateOutput name)) :
      (nameFindings .blankOutput .duplicateOutput names).count f = 0 :=
    count_other hblank hduplicate names
  have hvalues (h : ∀ name, f ≠ .error (.missingInputValue name)) :
      (c.valueFindings options).count f = 0 := count_valueFindings_other h
  have hgraph (h : ∀ w : Wiring, w.multiplicity f = 0) :
      (c.graph?.elim 0 fun g => Wiring.multiplicity ⟨c, g, resolve, options.unresolved⟩ f) = 0 := by
    cases c.graph? with
    | none => rfl
    | some g => exact h _
  rw [count_findings_split hfit]
  rcases f with ⟨severity, issue⟩
  cases severity with
  | warning =>
    rw [hinputs _ (by rintro _ ⟨⟩) (by rintro _ ⟨⟩), houtputs _ (by rintro _ ⟨⟩) (by rintro _ ⟨⟩),
      hvalues (by rintro _ ⟨⟩)]
    cases issue <;> exact Nat.zero_add _
  | error =>
    cases issue with
    | blankInput index =>
      rw [count_blank (by rintro _ _ ⟨⟩; rfl) (by rintro _ _ ⟨⟩),
        houtputs _ (by rintro _ ⟨⟩) (by rintro _ ⟨⟩), hvalues (by rintro _ ⟨⟩), hgraph fun _ => rfl,
        List.getElem?_map, Option.any_map]
      rfl
    | duplicateInput name =>
      rw [count_duplicate (by rintro _ _ ⟨⟩; rfl) (by rintro _ _ ⟨⟩),
        houtputs _ (by rintro _ ⟨⟩) (by rintro _ ⟨⟩), hvalues (by rintro _ ⟨⟩), hgraph fun _ => rfl]
      rfl
    | blankOutput index =>
      rw [hinputs _ (by rintro _ ⟨⟩) (by rintro _ ⟨⟩),
        count_blank (by rintro _ _ ⟨⟩; rfl) (by rintro _ _ ⟨⟩), hvalues (by rintro _ ⟨⟩),
        hgraph fun _ => rfl, List.getElem?_map, Option.any_map, Nat.zero_add]
      rfl
    | duplicateOutput name =>
      rw [hinputs _ (by rintro _ ⟨⟩) (by rintro _ ⟨⟩),
        count_duplicate (by rintro _ _ ⟨⟩; rfl) (by rintro _ _ ⟨⟩), hvalues (by rintro _ ⟨⟩),
        hgraph fun _ => rfl, Nat.zero_add]
      rfl
    | missingInputValue name =>
      rw [hinputs _ (by rintro _ ⟨⟩) (by rintro _ ⟨⟩),
        houtputs _ (by rintro _ ⟨⟩) (by rintro _ ⟨⟩), count_missingInputValue, hgraph fun _ => rfl,
        Nat.zero_add]
      rfl
    | _ =>
      rw [hinputs _ (by rintro _ ⟨⟩) (by rintro _ ⟨⟩),
        houtputs _ (by rintro _ ⟨⟩) (by rintro _ ⟨⟩), hvalues (by rintro _ ⟨⟩)]
      exact Nat.zero_add _

theorem count_findings_of_unfit (hunfit : c.Unfit) (f : Finding) :
    (c.findings resolve options).count f = c.unfitMultiplicity f := by
  have hfatal : ¬ c.fatalFindings.isEmpty := by
    rw [Unfit] at hunfit
    rcases hunfit with h | h <;> simp [fatalFindings, h]
  have hother (h₁ : f ≠ .error .missingName) (h₂ : f ≠ .error .missingImplementation) :
      c.fatalFindings.count f = 0 := by
    rw [List.count_eq_zero, fatalFindings]
    simp [h₁, h₂]
  rw [findings, if_neg hfatal]
  rcases f with ⟨severity, issue⟩
  cases severity with
  | warning =>
    rw [hother (by rintro ⟨⟩) (by rintro ⟨⟩)]
    cases issue <;> rfl
  | error =>
    cases issue with
    | missingName =>
      cases hname : c.name.all isBlank <;> simp [fatalFindings, unfitMultiplicity, hname,
        Finding.error, List.count_eq_zero]
    | missingImplementation =>
      cases himplementation : c.implementation.isNone <;> simp [fatalFindings, unfitMultiplicity,
        himplementation, Finding.error, List.count_eq_zero]
    | _ => exact hother (by rintro ⟨⟩) (by rintro ⟨⟩)

end Component

namespace Report

theorem count_errors (findings : List Finding) (issue : Issue) :
    (ofFindings findings).errors.count issue = findings.count (.error issue) := by
  rw [ofFindings, List.count, List.countP_map, List.countP_filter]
  refine List.countP_congr fun f _ => ?_
  rcases f with ⟨severity, other⟩
  cases severity <;> simp [Finding.isError, Finding.error]

theorem count_warnings (findings : List Finding) (issue : Issue) :
    (ofFindings findings).warnings.count issue = findings.count (.warning issue) := by
  rw [ofFindings, List.count, List.countP_map, List.countP_filter]
  refine List.countP_congr fun f _ => ?_
  rcases f with ⟨severity, other⟩
  cases severity <;> simp [Finding.isError, Finding.warning]

end Report

namespace Component

variable {resolve : Resolver} {options : ValidationOptions} {c : Component}

theorem warnings_of_unfit (hunfit : c.Unfit) : (c.validate resolve options).warnings = [] := by
  rw [List.eq_nil_iff_forall_not_mem]
  intro issue hissue
  rw [validate, ← List.count_pos_iff, Report.count_warnings,
    count_findings_of_unfit hunfit] at hissue
  cases issue <;> exact absurd hissue (Nat.lt_irrefl 0)

/-- An unfit component gets the errors that say so, and nothing else. Any other one gets exactly the
errors and warnings that it gives reason for, each as often as it does. Those about circular
dependencies are about tasks on cycles, and each cycle has one of them. -/
theorem validate_reports_exactly (resolve : Resolver) (options : ValidationOptions)
    (c : Component) :
    (c.Unfit → (c.validate resolve options).warnings = [] ∧
      ∀ issue, (c.validate resolve options).errors.count issue =
        c.unfitMultiplicity (.error issue)) ∧
    (¬ c.Unfit →
      (∀ issue, (c.validate resolve options).errors.count issue =
          c.multiplicity resolve options (.error issue) ∧
        (c.validate resolve options).warnings.count issue =
          c.multiplicity resolve options (.warning issue)) ∧
      ∀ g, c.graph? = some g →
        (∀ id, .circularDependency id ∈ (c.validate resolve options).errors →
          TransGen g.DependsOn id id) ∧
        ∀ id, ¬ TransGen (fun a b => g.DependsOn a b ∧
          .circularDependency b ∉ (c.validate resolve options).errors) id id) := by
  refine ⟨fun hunfit => ⟨warnings_of_unfit hunfit, fun issue => ?_⟩,
    fun hfit => ⟨fun issue => ?_, ?_⟩⟩
  · rw [validate, Report.count_errors, count_findings_of_unfit hunfit]
  · rw [validate, Report.count_errors, Report.count_warnings, count_findings_of_fit hfit,
      count_findings_of_fit hfit]
    exact ⟨rfl, rfl⟩
  · intro g hg
    have hcircular (id : String) : .circularDependency id ∈ (c.validate resolve options).errors ↔
        id ∈ g.circularTasks := by
      rw [validate, ← List.count_pos_iff, Report.count_errors, count_findings_of_fit hfit]
      by_cases hid : id ∈ g.circularTasks <;>
        simp [Finding.error, multiplicity, hg, Wiring.multiplicity, hid]
    simp only [hcircular]
    exact ⟨fun id => Graph.onCycle_of_mem_circularTasks, g.no_cycle_avoids_circularTasks⟩

end Component

/-- Two tasks that read each other, one of them also a task that does not exist. -/
def flawedGraph : Graph where
  tasks := NameMap.ofList [
    ("fit", { reference := {}, arguments := .ofList [("start", .taskOutput ⟨"score", "loss"⟩)] }),
    ("score", { reference := {}, arguments := .ofList [("model", .taskOutput ⟨"fit", "model"⟩),
      ("rows", .taskOutput ⟨"load", "rows"⟩)] })]

def flawedPipeline : Component where
  name := some "flawed"
  inputs := [{ name := "seed", value := some "1" }, { name := "seed" }, { name := "seed" }]
  implementation := some (.graph flawedGraph)

theorem validate_reports_exactly_flawed :
    ({} : Component).Unfit ∧ (({} : Component).validate .inline {}).warnings = [] ∧
    ¬ flawedPipeline.Unfit ∧ flawedPipeline.graph? = some flawedGraph ∧
    (flawedPipeline.validate .inline {}).errors.count (.duplicateInput "seed") = 1 ∧
    (flawedPipeline.validate .inline {}).errors.count (.missingInputValue "seed") = 2 ∧
    (flawedPipeline.validate .inline {}).errors.count (.unknownTask "score" "rows" "load") =
      1 ∧
    (.circularDependency "fit" ∈ (flawedPipeline.validate .inline {}).errors ∨
      .circularDependency "score" ∈ (flawedPipeline.validate .inline {}).errors) := by
  have hunfit : ({} : Component).Unfit := by decide
  have hfit : ¬ flawedPipeline.Unfit := by decide
  have hg : flawedPipeline.graph? = some flawedGraph := rfl
  obtain ⟨hnothing, -⟩ := (Component.validate_reports_exactly .inline {} {}).1 hunfit
  obtain ⟨hcount, hcircular⟩ :=
    (Component.validate_reports_exactly .inline {} flawedPipeline).2 hfit
  refine ⟨hunfit, hnothing, hfit, hg, (hcount _).1, (hcount _).1, (hcount _).1, ?_⟩
  by_contra hnone
  rw [not_or] at hnone
  exact (hcircular flawedGraph hg).2 "fit" (.tail
    (.single ⟨⟨rfl, "start", "loss", rfl⟩, hnone.2⟩) ⟨⟨rfl, "model", "model", rfl⟩, hnone.1⟩)

end TaskGraph
