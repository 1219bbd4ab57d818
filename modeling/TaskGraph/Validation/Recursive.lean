import TaskGraph.Component.Weight
import TaskGraph.Validation.Report

/-!
# Checking everything below a component

The search goes from the root to the components of its tasks, as far as they are graphs, and so on
down. A component with an identity is checked once, wherever it occurs; all others are checked where
they occur.
-/
namespace TaskGraph

/-- A component on the way from the root, and the tasks that lead to it. -/
structure Visit where
  path : List String
  component : Component

namespace Visit

def child? (provider : Provider) (v : Visit) (id : String) (t : Task) : Option Visit :=
  ((provider.resolve t.reference).filter (·.isGraph)).map fun c => ⟨v.path ++ [id], c⟩

def children (provider : Provider) (v : Visit) : List Visit :=
  match v.component.graph? with
  | some g => g.tasks.toList.filterMap fun e => v.child? provider e.1 e.2
  | none => []

/-- What the visit may cost: one for a component with an identity, which is entered at most once,
and the weight of any other. -/
def cost (v : Visit) : Nat := if v.component.identity.isSome then 1 else v.component.weight

theorem cost_pos (v : Visit) : 0 < v.cost := by
  unfold cost
  split
  · exact Nat.one_pos
  · exact v.component.weight_pos

theorem cost_le_weight (v : Visit) : v.cost ≤ v.component.weight := by
  unfold cost
  split
  · exact v.component.weight_pos
  · exact Nat.le_refl _

theorem cost_of_identity_none (v : Visit) (h : v.component.identity = none) :
    v.cost = v.component.weight := by
  simp [cost, h]

/-- What a task leads to costs no more than the task weighs: the component stands in its reference,
or has an identity, or is read from the text of the reference. -/
theorem cost_le_of_child? {provider : Provider} {v w : Visit} {id : String} {t : Task}
    (h : v.child? provider id t = some w) : w.cost ≤ t.weight := by
  obtain ⟨c, hc, rfl⟩ := Option.map_eq_some_iff.1 h
  obtain ⟨hc, -⟩ := Option.filter_eq_some_iff.1 hc
  rw [Task.weight_eq]
  have hle := cost_le_weight ⟨v.path ++ [id], c⟩
  rcases provider.of_resolve hc with hs | ⟨n, hn⟩ | ⟨text, ht, hr⟩
  · exact Nat.le_trans hle (Nat.le_of_lt (Reference.weight_spec_lt hs))
  · simpa [cost, hn, Nat.succ_le_iff] using t.reference.weight_pos
  · have := Component.weight_le_of_ofText? hr
    have := Reference.length_text_lt ht
    dsimp only at hle
    omega

theorem cost_children_lt (provider : Provider) (v : Visit) :
    total ((v.children provider).map cost) < v.component.weight := by
  unfold children
  split
  · rename_i g hg
    rw [Component.weight_of_graph? hg, weightOfTasks_eq, Nat.add_comm]
    refine Nat.lt_succ_of_le ?_
    induction g.tasks.toList with
    | nil => exact Nat.le_refl _
    | cons e es ih =>
      rw [List.filterMap_cons]
      split
      · simp only [List.map_cons, total_cons]
        omega
      · have := cost_le_of_child? ‹_›
        simp only [List.map_cons, total_cons]
        omega
  · exact v.component.weight_pos

end Visit

/-- The visits that follow from those on the agenda, in the order in which they are made. The
identities of `pending` are those of components not yet entered. -/
def visitsFrom (provider : Provider) (pending : List Nat) (agenda : List Visit) : List Visit :=
  match agenda with
  | [] => []
  | v :: rest =>
    match _h : v.component.identity with
    | some n =>
      if n ∈ pending then
        v :: visitsFrom provider (pending.removeAll [n]) (v.children provider ++ rest)
      else visitsFrom provider pending rest
    | none => v :: visitsFrom provider pending (v.children provider ++ rest)
termination_by (pending.length, total (agenda.map Visit.cost))
decreasing_by
  · exact Prod.Lex.left _ _
      (List.length_filter_lt_length_iff_exists.2 ⟨n, ‹n ∈ pending›, by simp⟩)
  · simp [Prod.lex_def, v.cost_pos]
  · simpa [Prod.lex_def, v.cost_of_identity_none _h] using v.cost_children_lt provider

structure LocatedIssue where
  /-- The tasks that lead from the root to the component. -/
  path : List String
  component : Option String
  finding : Finding
deriving DecidableEq

namespace LocatedIssue

def location (i : LocatedIssue) : String :=
  if i.path.isEmpty then "<root>" else " > ".intercalate i.path

def display (i : LocatedIssue) : String :=
  "[" ++ i.finding.severity.label ++ "] " ++ i.location ++ ": " ++ i.finding.issue.message

end LocatedIssue

structure RecursiveReport where
  issues : List LocatedIssue
deriving DecidableEq

namespace RecursiveReport

def errors (r : RecursiveReport) : List LocatedIssue := r.issues.filter (·.finding.isError)

def isValid (r : RecursiveReport) : Bool := r.errors.isEmpty

def errorsAt (r : RecursiveReport) (path : List String) : List LocatedIssue :=
  r.errors.filter (·.path == path)

def display (r : RecursiveReport) : String := String.join (r.issues.map (·.display ++ "\n"))

end RecursiveReport

namespace Component

/-- The root and the graphs below it, each as often as it is checked. -/
def visits (provider : Provider) (root : Component) : List Visit :=
  visitsFrom provider (root.identities ++ provider.identities) [⟨[], root⟩]

/-- Checks a component and all graphs below it. Only the root has to have values for its inputs. -/
def validateRecursive (provider : Provider) (options : ValidationOptions) (root : Component) :
    RecursiveReport where
  issues := (root.visits provider).flatMap fun v =>
    let options := { options with skipInputValues := !v.path.isEmpty }
    (v.component.validate provider.resolve options).findings.map fun f =>
      ⟨v.path, v.component.name, f⟩

end Component

end TaskGraph
