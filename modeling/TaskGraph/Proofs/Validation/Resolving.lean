import TaskGraph.Proofs.Anonymous
import TaskGraph.Proofs.Validation.Exact

/-!
# Resolving more hides no error

A check consults the components of tasks as far as they resolve. If a second resolver gives a
component wherever the first one does, and one that declares the same, then the check finds every
error again: what the first component lacks, the second one lacks too. It may find more errors, in
components that only the second resolver gives, and fewer warnings about components that are not
given.
-/
namespace TaskGraph

/-- The components declare inputs of the same names, required alike, and outputs of the same
names. -/
structure Component.SameInterface (c d : Component) : Prop where
  inputs : (c.inputs.map fun i => (i.name, i.isRequired)) =
    d.inputs.map fun i => (i.name, i.isRequired)
  outputs : c.outputs.map (·.name) = d.outputs.map (·.name)

/-- Wherever `r` gives a component, `s` gives one that declares the same. -/
def Resolver.CoveredBy (r s : Resolver) : Prop :=
  ∀ reference c, r reference = some c → ∃ d, s reference = some d ∧ c.SameInterface d

namespace Component.SameInterface

variable {c d : Component}

theorem of_anonymous_eq (h : c.anonymous = d.anonymous) : c.SameInterface d := by
  rw [anonymous_eq, anonymous_eq, Component.mk.injEq] at h
  obtain ⟨-, -, hinputs, houtputs, -⟩ := h
  exact ⟨by rw [hinputs], by rw [houtputs]⟩

theorem hasOutput_iff (h : c.SameInterface d) {name : String} :
    c.hasOutput name ↔ d.hasOutput name := by
  rw [Component.hasOutput_iff, Component.hasOutput_iff, h.outputs]

theorem countP_required (h : c.SameInterface d) (name : String) :
    (c.inputs.countP fun i => i.name = name ∧ i.isRequired) =
      d.inputs.countP fun i => i.name = name ∧ i.isRequired := by
  have hcount (inputs : List Input) : (inputs.countP fun i => i.name = name ∧ i.isRequired) =
      (inputs.map fun i => (i.name, i.isRequired)).countP fun e => e.1 = name ∧ e.2 := by
    rw [List.countP_map]
    rfl
  rw [hcount, hcount, h.inputs]

end Component.SameInterface

namespace Resolver.CoveredBy

variable {r s : Resolver} {g : Graph}

/-- In particular, the second resolver may give components that say the same. -/
theorem of_anonymous_eq (h : ∀ reference c, r reference = some c →
    ∃ d, s reference = some d ∧ c.anonymous = d.anonymous) : r.CoveredBy s := by
  intro reference c hc
  obtain ⟨d, hd, heq⟩ := h reference c hc
  exact ⟨d, hd, .of_anonymous_eq heq⟩

theorem inline_catalog (k : Catalog) : Resolver.inline.CoveredBy k.resolve := by
  exact of_anonymous_eq fun _ c hc => ⟨c, k.resolve_of_spec hc, rfl⟩

theorem exists_component? (h : r.CoveredBy s) {id : String} {c : Component}
    (hc : g.component? r id = some c) : ∃ d, g.component? s id = some d ∧ c.SameInterface d := by
  obtain ⟨t, ht, hresolve⟩ := Option.bind_eq_some_iff.1 hc
  obtain ⟨d, hd, hsame⟩ := h t.reference c hresolve
  exact ⟨d, Option.bind_eq_some_iff.2 ⟨t, ht, hd⟩, hsame⟩

theorem undeclared (h : r.CoveredBy s) {o : TaskOutput} (ho : g.Undeclared r o) :
    g.Undeclared s o := by
  obtain ⟨c, hc, hundeclared⟩ := ho
  obtain ⟨d, hd, hsame⟩ := h.exists_component? hc
  exact ⟨d, hd, fun hdeclared => hundeclared (hsame.hasOutput_iff.2 hdeclared)⟩

theorem unresolved (h : r.CoveredBy s) {id : String} (hid : g.Unresolved s id) :
    g.Unresolved r id := by
  obtain ⟨hcontains, hnone⟩ := hid
  refine ⟨hcontains, Option.eq_none_iff_forall_ne_some.2 fun c hc => ?_⟩
  obtain ⟨d, hd, -⟩ := h.exists_component? hc
  rw [hnone] at hd
  cases hd

theorem ite_le_ite_of_imp {p q : Prop} [Decidable p] [Decidable q] (h : p → q) :
    (if p then 1 else 0) ≤ if q then 1 else 0 := by
  by_cases hp : p
  · rw [if_pos hp, if_pos (h hp)]
  · rw [if_neg hp]
    exact Nat.zero_le _

theorem multiplicity_error_le (h : r.CoveredBy s) (c : Component) (g : Graph) (issue : Issue) :
    Wiring.multiplicity ⟨c, g, r, .warn⟩ (.error issue) ≤
      Wiring.multiplicity ⟨c, g, s, .warn⟩ (.error issue) := by
  cases issue with
  | unknownTaskOutput | outputOfUnknownOutput =>
    exact ite_le_ite_of_imp fun ⟨ho, hundeclared⟩ => ⟨ho, h.undeclared hundeclared⟩
  | missingArgument id input =>
    simp only [Finding.error, Wiring.multiplicity]
    split
    · cases hc : g.component? r id with
      | none => exact Nat.zero_le _
      | some d =>
        obtain ⟨e, he, hsame⟩ := h.exists_component? hc
        rw [he, Option.elim_some, Option.elim_some, hsame.countP_required]
    · exact Nat.le_refl _
  | unresolvedComponent =>
    simp [Finding.error, Wiring.multiplicity, UnresolvedPolicy.severity]
  | _ => exact Nat.le_refl _

theorem multiplicity_warning_le (h : r.CoveredBy s) (c : Component) (g : Graph) (issue : Issue) :
    Wiring.multiplicity ⟨c, g, s, .warn⟩ (.warning issue) ≤
      Wiring.multiplicity ⟨c, g, r, .warn⟩ (.warning issue) := by
  cases issue with
  | unresolvedComponent =>
    exact ite_le_ite_of_imp fun ⟨hseverity, hreads, hunresolved⟩ =>
      ⟨hseverity, hreads, h.unresolved hunresolved⟩
  | _ => exact Nat.le_refl _

end Resolver.CoveredBy

namespace Component

variable {r s : Resolver} {options : ValidationOptions} {c : Component}

theorem elim_graph?_le {m n : Graph → Nat} (h : ∀ g, m g ≤ n g) :
    c.graph?.elim 0 m ≤ c.graph?.elim 0 n := by
  cases c.graph? with
  | none => exact Nat.le_refl 0
  | some g => exact h g

theorem count_errors_le (h : r.CoveredBy s) (hpolicy : options.unresolved = .warn)
    (issue : Issue) :
    (c.validate r options).errors.count issue ≤ (c.validate s options).errors.count issue := by
  rw [validate, validate, Report.count_errors, Report.count_errors]
  by_cases hfit : c.Unfit
  · rw [count_findings_of_unfit hfit, count_findings_of_unfit hfit]
  · rw [count_findings_split hfit, count_findings_split hfit, hpolicy]
    exact Nat.add_le_add_left (elim_graph?_le fun g => h.multiplicity_error_le c g issue) _

theorem count_warnings_le (h : r.CoveredBy s) (hpolicy : options.unresolved = .warn)
    (issue : Issue) :
    (c.validate s options).warnings.count issue ≤ (c.validate r options).warnings.count issue := by
  rw [validate, validate, Report.count_warnings, Report.count_warnings]
  by_cases hfit : c.Unfit
  · rw [count_findings_of_unfit hfit, count_findings_of_unfit hfit]
  · rw [count_findings_split hfit, count_findings_split hfit, hpolicy]
    exact Nat.add_le_add_left (elim_graph?_le fun g => h.multiplicity_warning_le c g issue) _

theorem isValid_of_coveredBy (h : r.CoveredBy s) (hpolicy : options.unresolved = .warn)
    (hvalid : (c.validate s options).isValid) : (c.validate r options).isValid := by
  rw [Report.isValid, List.isEmpty_iff, List.eq_nil_iff_forall_not_mem] at hvalid ⊢
  intro issue hissue
  have hmore := Nat.lt_of_lt_of_le (List.count_pos_iff.2 hissue)
    (count_errors_le (c := c) h hpolicy issue)
  exact hvalid issue (List.count_pos_iff.1 hmore)

/-- Where unresolved references are warnings, resolving more keeps every error and adds no warning,
whatever the component. A catalog resolves more than the references alone do. -/
theorem validate_of_coveredBy (hpolicy : options.unresolved = .warn) (c : Component) :
    (∀ r s : Resolver, r.CoveredBy s →
      (∀ issue,
        (c.validate r options).errors.count issue ≤ (c.validate s options).errors.count issue) ∧
      (∀ issue,
        (c.validate s options).warnings.count issue ≤
          (c.validate r options).warnings.count issue) ∧
      ((c.validate s options).isValid → (c.validate r options).isValid)) ∧
    ∀ k : Catalog, Resolver.inline.CoveredBy k.resolve ∧
      ((c.validate k.resolve options).isValid → (c.validate .inline options).isValid) := by
  refine ⟨fun r s h => ⟨count_errors_le h hpolicy, count_warnings_le h hpolicy,
    isValid_of_coveredBy h hpolicy⟩, fun k => ?_⟩
  have h := Resolver.CoveredBy.inline_catalog k
  exact ⟨h, isValid_of_coveredBy h hpolicy⟩

end Component

def alignComponent : Component where
  name := some "align"
  inputs := [{ name := "reads" }]
  outputs := [{ name := "bam" }]
  implementation := some (.container { image := "aligner" })

def alignCatalog : Catalog := (Catalog.empty.registerUrl "hub/align" alignComponent).1

/-- One task lacks an argument and the other one reads an output that does not exist, which only the
catalog can tell. -/
def remotePipeline : Component where
  name := some "remote"
  implementation := some (.graph {
    tasks := NameMap.ofList [
      ("align", { reference := { url := some "hub/align" } }),
      ("sort", { reference := { url := some "hub/sort" }, arguments := .ofList [
        ("bam", .taskOutput ⟨"align", "sam"⟩)] })] })

theorem validate_of_coveredBy_remote :
    ({} : ValidationOptions).unresolved = .warn ∧
    Resolver.inline.CoveredBy alignCatalog.resolve ∧
    (∀ issue, (remotePipeline.validate .inline {}).errors.count issue ≤
      (remotePipeline.validate alignCatalog.resolve {}).errors.count issue) ∧
    (∀ issue, (remotePipeline.validate alignCatalog.resolve {}).warnings.count issue ≤
      (remotePipeline.validate .inline {}).warnings.count issue) ∧
    (remotePipeline.validate .inline {}).errors.count (.missingArgument "align" "reads") = 0 ∧
    (remotePipeline.validate alignCatalog.resolve {}).errors.count
      (.missingArgument "align" "reads") = 1 := by
  have hpolicy : ({} : ValidationOptions).unresolved = .warn := rfl
  have hfit : ¬ remotePipeline.Unfit := by decide
  have hcount (resolve : Resolver) (issue : Issue) :
      (remotePipeline.validate resolve {}).errors.count issue =
        remotePipeline.multiplicity resolve {} (.error issue) := by
    rw [Component.validate, Report.count_errors, Component.count_findings_of_fit hfit]
  obtain ⟨hmore, hcatalog⟩ := Component.validate_of_coveredBy hpolicy remotePipeline
  obtain ⟨hcovered, -⟩ := hcatalog alignCatalog
  obtain ⟨herrors, hwarnings, -⟩ := hmore .inline alignCatalog.resolve hcovered
  exact ⟨hpolicy, hcovered, herrors, hwarnings, hcount _ _, hcount _ _⟩

end TaskGraph
