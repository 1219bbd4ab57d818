import TaskGraph.NameMap
import TaskGraph.Number.Double

/-!
# TOML tables

A TOML document builds a tree of tables. Which of them a later line may still add to depends on how
they came about: by a header, as a parent of a headed table, or through a dotted key.
-/
namespace TaskGraph.Toml

/-- A value as far as it matters here: a number, or anything else. -/
inductive Scalar where
  | integer (i : Int)
  | real (d : Double)
  | other
deriving DecidableEq

inductive Origin where
  | headed
  | parent
  | dotted
deriving DecidableEq

inductive Item where
  | value (v : Scalar)
  | table (origin : Origin) (entries : NameMap.From Item none)
  | tables (items : List (NameMap.From Item none))

abbrev Table := NameMap Item

namespace Table

/-- Adds a value under a dotted key. Only tables that came about through dotted keys take it, and
nothing is overwritten. -/
def addDotted (key : String) (v : Scalar) : (path : List String) → Bool → Table → Option Table
  | [], takes, t => if takes && !t.contains key then some (t.insert key (.value v)) else none
  | k :: ks, _, t =>
    match t.get? k with
    | none => (addDotted key v ks true ∅).map fun inner => t.insert k (.table .dotted inner)
    | some (.table .headed _) => none
    | some (.table origin inner) =>
      (addDotted key v ks (origin = .dotted) inner).map fun inner =>
        t.insert k (.table origin inner)
    | some (.tables items) =>
      match items.getLast? with
      | none => none
      | some last => (addDotted key v ks false last).map fun last =>
        t.insert k (.tables (items.dropLast ++ [last]))
    | some (.value _) => none

/-- Changes the table at a path, making the tables on the way that are missing. A list of tables
stands for its last one. -/
def modifyAt? (f : Table → Option Table) : (path : List String) → Table → Option Table
  | [], t => f t
  | k :: ks, t =>
    match t.get? k with
    | none => (modifyAt? f ks ∅).map fun inner => t.insert k (.table .parent inner)
    | some (.table origin inner) => (modifyAt? f ks inner).map fun inner =>
      t.insert k (.table origin inner)
    | some (.tables items) =>
      match items.getLast? with
      | none => none
      | some last => (modifyAt? f ks last).map fun last =>
        t.insert k (.tables (items.dropLast ++ [last]))
    | some (.value _) => none

/-- Opens the table of a header. It is new, or it has so far been a mere parent. -/
def openTable (key : String) (t : Table) : Option Table :=
  match t.get? key with
  | none => some (t.insert key (.table .headed ∅))
  | some (.table .parent inner) => some (t.insert key (.table .headed inner))
  | _ => none

def openListed (key : String) (t : Table) : Option Table :=
  match t.get? key with
  | none => some (t.insert key (.tables [∅]))
  | some (.tables items) => some (t.insert key (.tables (items ++ [∅])))
  | _ => none

end Table

end TaskGraph.Toml
