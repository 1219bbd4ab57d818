import TaskGraph.Proofs.Closed
import TaskGraph.Proofs.Validation.Exact

/-!
# Valid components

A component is valid if checking it finds no error. This comes down to one condition for each kind
of error: the names are there, distinct and not blank, required inputs have their values and
required arguments their sources, no edge dangles, and no task depends on itself.
-/
namespace TaskGraph

variable {resolve : Resolver}

/-- A graph that implements `c` and gives no reason for an error. -/
structure Graph.Valid (resolve : Resolver) (policy : UnresolvedPolicy) (c : Component) (g : Graph) :
    Prop where
  nonempty : ∃ id, g.containsTask id
  referenced : ∀ id t, g.task? id = some t → ¬ t.reference.isEmpty
  wired : g.WellWired resolve c
  resolved : policy = .error → ∀ site o, g.source? site = some o → ¬ g.Unresolved resolve o.task
  supplied : ∀ id d, g.component? resolve id = some d → ∀ i ∈ d.inputs, i.isRequired →
    ∃ a, g.argument? id i.name = some a
  acyclic : g.Acyclic

/-- A component that gives no reason for an error. -/
structure Component.Valid (resolve : Resolver) (options : ValidationOptions) (c : Component) :
    Prop where
  named : ∃ name, c.name = some name ∧ ¬ isBlank name
  implemented : c.implementation.isSome
  inputNames : ∀ i ∈ c.inputs, ¬ isBlank i.name
  inputs : (c.inputs.map (·.name)).Nodup
  outputNames : ∀ o ∈ c.outputs, ¬ isBlank o.name
  outputs : (c.outputs.map (·.name)).Nodup
  valued : ¬ options.skipInputValues → ∀ i ∈ c.inputs, i.isRequired → ∃ value, i.value = some value
  graph : ∀ g, c.graph? = some g → g.Valid resolve options.unresolved c

namespace Graph

variable {g : Graph}

theorem component?_eq_some_iff {id : String} {c : Component} :
    g.component? resolve id = some c ↔ ∃ t, g.task? id = some t ∧ resolve t.reference = some c :=
  Option.bind_eq_some_iff

theorem provides_iff_not_undeclared {o : TaskOutput} :
    g.provides resolve o ↔ g.containsTask o.task ∧ ¬ g.Undeclared resolve o := by
  rw [provides, containsTask_iff, Undeclared, component?]
  cases g.task? o.task with
  | none => simp
  | some t => cases hc : resolve t.reference <;> simp [hc]

end Graph

namespace Wiring

variable {w : Wiring}

theorem provides_of_source? (h : ∀ issue, w.multiplicity (.error issue) = 0) {site : Site}
    {o : TaskOutput} (ho : w.graph.source? site = some o) : w.graph.provides w.resolve o := by
  have hreads : w.graph.ReadsTask site o.task := ⟨o.output, ho⟩
  rw [Graph.provides_iff_not_undeclared]
  cases site with
  | argument id name =>
    have hunknown := h (.unknownTask id name o.task)
    have hundeclared := h (.unknownTaskOutput id name o)
    simp_all [multiplicity, Finding.error]
  | output name =>
    have hunknown := h (.outputOfUnknownTask name o.task)
    have hundeclared := h (.outputOfUnknownOutput name o)
    simp_all [multiplicity, Finding.error]

theorem wellWired_of_faultless (h : ∀ issue, w.multiplicity (.error issue) = 0) :
    w.graph.WellWired w.resolve w.component := by
  apply Graph.WellWired.of_reads
  · intro id name a ha
    cases a with
    | literal value => exact trivial
    | secret secret => exact trivial
    | graphInput input =>
      have hdeclared := h (.unknownGraphInput id name input)
      simpa [multiplicity, Finding.error, ha, Graph.Supplies] using hdeclared
    | taskOutput o => exact provides_of_source? h (Graph.source?_argument_eq_some_iff.2 ha)
  · intro name o ho
    have hdeclared := h (.undeclaredOutput name)
    have hsource : w.graph.source? (.output name) = some o := ho
    refine ⟨provides_of_source? h hsource, ?_⟩
    simpa [multiplicity, Finding.error, NameMap.From.contains_of_get? ho] using hdeclared

theorem valid_of_faultless (h : ∀ issue, w.multiplicity (.error issue) = 0) :
    w.graph.Valid w.resolve w.policy w.component where
  nonempty := by
    have hnonempty : w.graph.tasks.keys ≠ [] := by
      simpa [multiplicity, Finding.error] using h .noTasks
    obtain ⟨id, hid⟩ := List.exists_mem_of_ne_nil _ hnonempty
    exact ⟨id, Graph.mem_taskKeys_iff.1 hid⟩
  referenced := by
    intro id t ht
    simpa [multiplicity, Finding.error, ht] using h (.missingReference id)
  wired := wellWired_of_faultless h
  resolved := by
    intro hpolicy site o ho hunresolved
    have hreads : w.graph.ReadsTask site o.task := ⟨o.output, ho⟩
    have hresolved := h (.unresolvedComponent site o.task)
    simp [multiplicity, Finding.error, hpolicy, UnresolvedPolicy.severity, hreads,
      hunresolved] at hresolved
  supplied := by
    intro id d hd i hi hrequired
    by_contra hnone
    rw [← Option.isSome_iff_exists, Option.not_isSome_iff_eq_none] at hnone
    have hsupplied := h (.missingArgument id i.name)
    simp only [multiplicity, Finding.error, hnone, hd, if_true, Option.elim_some,
      List.countP_eq_zero] at hsupplied
    exact hsupplied i hi (decide_eq_true ⟨rfl, hrequired⟩)
  acyclic := by
    rw [← Graph.circularTasks_eq_nil_iff, List.eq_nil_iff_forall_not_mem]
    intro id hid
    have hcircular := h (.circularDependency id)
    simp [multiplicity, Finding.error, hid] at hcircular

theorem faultless_of_valid (h : w.graph.Valid w.resolve w.policy w.component) (issue : Issue) :
    w.multiplicity (.error issue) = 0 := by
  have hexists {site : Site} {target : String} (hreads : w.graph.ReadsTask site target) :
      w.graph.containsTask target := by
    obtain ⟨output, ho⟩ := hreads
    exact Graph.containsTask_of_provides (h.wired.provides_source ho)
  have hdeclared {site : Site} {source : TaskOutput} (ho : w.graph.source? site = some source) :
      ¬ w.graph.Undeclared w.resolve source :=
    (Graph.provides_iff_not_undeclared.1 (h.wired.provides_source ho)).2
  cases issue with
  | noTasks =>
    obtain ⟨id, hid⟩ := h.nonempty
    exact if_neg (List.ne_nil_of_mem (Graph.mem_taskKeys_iff.2 hid))
  | missingReference id =>
    refine if_neg fun hany => ?_
    obtain ⟨t, ht, hempty⟩ := Option.any_eq_true _ _ |>.1 hany
    exact h.referenced id t ht hempty
  | unknownGraphInput id name input =>
    refine if_neg ?_
    rintro ⟨hread, hnone⟩
    exact hnone (h.wired.hasInput hread)
  | unknownTask id name target =>
    refine if_neg ?_
    rintro ⟨hreads, hnone⟩
    exact hnone (hexists hreads)
  | unknownTaskOutput id name source =>
    refine if_neg ?_
    rintro ⟨ho, hnone⟩
    exact hdeclared ho hnone
  | missingArgument id input =>
    rw [Finding.error, multiplicity]
    split
    · rename_i hnone
      cases hd : w.graph.component? w.resolve id with
      | none => rfl
      | some d =>
        rw [Option.elim_some, List.countP_eq_zero]
        intro i hi hmissing
        obtain ⟨rfl, hrequired⟩ := of_decide_eq_true hmissing
        obtain ⟨a, ha⟩ := h.supplied id d hd i hi hrequired
        rw [hnone] at ha
        cases ha
    · rfl
  | undeclaredOutput name =>
    refine if_neg ?_
    rintro ⟨hbound, hnone⟩
    obtain ⟨o, ho⟩ := NameMap.From.contains_iff.1 hbound
    exact hnone (h.wired.hasOutput ho)
  | outputOfUnknownTask name target =>
    refine if_neg ?_
    rintro ⟨hreads, hnone⟩
    exact hnone (hexists hreads)
  | outputOfUnknownOutput name source =>
    refine if_neg ?_
    rintro ⟨ho, hnone⟩
    exact hdeclared ho hnone
  | unresolvedComponent reader target =>
    refine if_neg ?_
    rintro ⟨hseverity, ⟨output, ho⟩, hunresolved⟩
    have hpolicy : w.policy = .error := by
      cases hpolicy : w.policy with
      | warn =>
        rw [hpolicy] at hseverity
        cases hseverity
      | error => rfl
    exact h.resolved hpolicy reader _ ho hunresolved
  | circularDependency id =>
    refine if_neg fun hid => ?_
    rw [Graph.circularTasks_eq_nil_iff.2 h.acyclic] at hid
    cases hid
  | _ => rfl

end Wiring

theorem Report.isValid_iff (findings : List Finding) :
    (ofFindings findings).isValid ↔ ∀ issue, findings.count (.error issue) = 0 := by
  rw [isValid, List.isEmpty_iff, List.eq_nil_iff_forall_not_mem]
  simp only [← List.count_eq_zero, count_errors]

namespace Component

variable {options : ValidationOptions} {c : Component}

theorem Valid.sound (h : c.Valid resolve options) : c.Sound resolve where
  inputs := h.inputs
  outputs := h.outputs
  wired := fun g hg => (h.graph g hg).wired

/-- A component that is valid is so without regard to the values of its inputs. -/
theorem Valid.nested (h : c.Valid resolve options) : c.Valid resolve options.nested :=
  { h with valued := fun hchecked => absurd rfl hchecked, graph := h.graph }

theorem fit_iff : ¬ c.Unfit ↔
    (∃ name, c.name = some name ∧ ¬ isBlank name) ∧ c.implementation.isSome := by
  rw [Unfit, not_or]
  refine and_congr ?_ (by cases c.implementation <;> simp)
  cases c.name <;> simp

theorem nodup_of_count {names : List String} (hblank : ∀ name ∈ names, ¬ isBlank name)
    (h : ∀ name, ¬ (¬ isBlank name ∧ 2 ≤ names.count name)) : names.Nodup := by
  rw [List.nodup_iff_count_le_one]
  intro name
  by_contra hmore
  have hmem : name ∈ names := List.count_pos_iff.1 (by omega)
  exact h name ⟨hblank name hmem, by omega⟩

theorem valid_of_faultless (hfit : ¬ c.Unfit)
    (h : ∀ issue, c.multiplicity resolve options (.error issue) = 0) :
    c.Valid resolve options := by
  have hinputs : ∀ i ∈ c.inputs, ¬ isBlank i.name := by
    intro i hi hblank
    obtain ⟨index, hindex⟩ := List.getElem?_of_mem hi
    have hnone := h (.blankInput index)
    simp [multiplicity, Finding.error, hindex, hblank] at hnone
  have houtputs : ∀ o ∈ c.outputs, ¬ isBlank o.name := by
    intro o ho hblank
    obtain ⟨index, hindex⟩ := List.getElem?_of_mem ho
    have hnone := h (.blankOutput index)
    simp [multiplicity, Finding.error, hindex, hblank] at hnone
  refine ⟨(fit_iff.1 hfit).1, (fit_iff.1 hfit).2, hinputs, ?_, houtputs, ?_, ?_, ?_⟩
  · refine nodup_of_count (List.forall_mem_map.2 hinputs) fun name hmore => ?_
    have hnone := h (.duplicateInput name)
    simp only [multiplicity, Finding.error, if_pos hmore, Nat.one_ne_zero] at hnone
  · refine nodup_of_count (List.forall_mem_map.2 houtputs) fun name hmore => ?_
    have hnone := h (.duplicateOutput name)
    simp only [multiplicity, Finding.error, if_pos hmore, Nat.one_ne_zero] at hnone
  · intro hchecked i hi hrequired
    by_contra hnone
    rw [← Option.isSome_iff_exists, Option.not_isSome_iff_eq_none] at hnone
    have hmissing := h (.missingInputValue i.name)
    simp only [multiplicity, Finding.error, if_neg hchecked, List.countP_eq_zero] at hmissing
    exact hmissing i hi (by simp [hrequired, hnone])
  · intro g hg
    refine Wiring.valid_of_faultless (w := ⟨c, g, resolve, options.unresolved⟩) fun issue => ?_
    have hnone := h issue
    cases issue with
    | blankInput | duplicateInput | blankOutput | duplicateOutput | missingInputValue => rfl
    | _ => simpa [multiplicity, Finding.error, hg] using hnone

theorem faultless_of_valid (h : c.Valid resolve options) (issue : Issue) :
    c.multiplicity resolve options (.error issue) = 0 := by
  have hgraph : (c.graph?.elim 0 fun g =>
      Wiring.multiplicity ⟨c, g, resolve, options.unresolved⟩ (.error issue)) = 0 := by
    cases hg : c.graph? with
    | none => rfl
    | some g => exact Wiring.faultless_of_valid (h.graph g hg) issue
  cases issue with
  | blankInput index =>
    refine if_neg fun hany => ?_
    obtain ⟨i, hi, hblank⟩ := Option.any_eq_true _ _ |>.1 hany
    exact h.inputNames i (List.mem_of_getElem? hi) hblank
  | duplicateInput name =>
    refine if_neg ?_
    rintro ⟨-, hmore⟩
    have hone := List.nodup_iff_count_le_one.1 h.inputs name
    omega
  | blankOutput index =>
    refine if_neg fun hany => ?_
    obtain ⟨o, ho, hblank⟩ := Option.any_eq_true _ _ |>.1 hany
    exact h.outputNames o (List.mem_of_getElem? ho) hblank
  | duplicateOutput name =>
    refine if_neg ?_
    rintro ⟨-, hmore⟩
    have hone := List.nodup_iff_count_le_one.1 h.outputs name
    omega
  | missingInputValue name =>
    rw [Finding.error, multiplicity]
    split
    · rfl
    · rename_i hchecked
      rw [List.countP_eq_zero]
      intro i hi hmissing
      obtain ⟨-, hrequired, hnone⟩ := of_decide_eq_true hmissing
      obtain ⟨value, hvalue⟩ := h.valued hchecked i hi hrequired
      rw [hvalue] at hnone
      cases hnone
  | _ => exact hgraph

/-- Checking a component finds no error exactly if it is valid. -/
theorem isValid_validate_iff :
    (c.validate resolve options).isValid ↔ c.Valid resolve options := by
  rw [validate, Report.isValid_iff]
  constructor
  · intro h
    have hfit : ¬ c.Unfit := by
      rintro hunfit
      simp only [count_findings_of_unfit hunfit] at h
      rcases hunfit with hname | himplementation
      · have hnone := h .missingName
        simp [unfitMultiplicity, Finding.error, hname] at hnone
      · have hnone := h .missingImplementation
        simp [unfitMultiplicity, Finding.error, himplementation] at hnone
    simp only [count_findings_of_fit hfit] at h
    exact valid_of_faultless hfit h
  · intro h issue
    rw [count_findings_of_fit (fit_iff.2 ⟨h.named, h.implemented⟩)]
    exact faultless_of_valid h issue

end Component

end TaskGraph
