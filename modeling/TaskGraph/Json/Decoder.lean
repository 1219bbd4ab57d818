import TaskGraph.Json.Reader
import TaskGraph.NameMap

/-!
# Values out of JSON documents

A decoder gives the value that a document stands for. It is told how many arrays and objects may
still nest, and gives nothing for a document that nests deeper. Parts of a document that no decoder
asks for may nest as they like.
-/
namespace TaskGraph.Json

/-- How to read a value out of a document inside which `room` arrays and objects may nest. -/
abbrev Decoder (α : Type) := (room : Nat) → Document → Option α

/-- The number of arrays and objects that may nest in a text. -/
def maxNesting : Nat := 127

namespace Decoder

variable {α : Type}

def ofText? (d : Decoder α) (text : String) : Option α :=
  (Document.read? text).bind (d maxNesting)

def text : Decoder String
  | _, .string s => s
  | _, _ => none

def bool : Decoder Bool
  | _, .bool b => some b
  | _, _ => none

def double : Decoder Double
  | _, .number n => Double.ofDecimal? n.toDecimal
  | _, _ => none

def natBelow (bound : Nat) : Decoder Nat
  | _, .number n => if n.isInteger && !n.negative && n.whole < bound then some n.whole else none
  | _, _ => none

/-- `null` stands for a value that is not there. -/
def optional (d : Decoder α) : Decoder (Option α)
  | _, .null => some none
  | room, doc => (d room doc).map some

def list (d : Decoder α) : Decoder (List α)
  | room + 1, .array items => items.mapM (d room)
  | _, _ => none

def member? (read : Document → Option α) (m : Literal × Document) : Option (String × α) := do
  some (← m.1, ← read m.2)

/-- The values of the members of an object; a repeated name keeps its last value. -/
def members? (read : Document → Option α) (members : List (Literal × Document)) :
    Option (NameMap α) :=
  (members.mapM (member? read)).map NameMap.ofList

def names (d : Decoder α) : Decoder (NameMap α)
  | room + 1, .object members => members? (d room) members
  | _, _ => none

/-- The name of the one member of an object, its value, and the room that is left for it. -/
def variant : Decoder (String × Document × Nat)
  | room + 1, .object [(some tag, payload)] => some (tag, payload, room)
  | _, _ => none

end Decoder

structure Fields where
  find? : String → Option Document
  room : Nat

namespace Fields

variable {α : Type}

/-- The fields of a record, in either of its two forms: an object, in which unknown members are
passed over and no known one is repeated, or an array of the values in the order of the names. -/
def decoder (names : List String) : Decoder Fields
  | room + 1, .object members =>
    let keys := members.map (·.1)
    if keys.all (·.isSome) && names.all (fun name => keys.count (some name) ≤ 1) then
      some ⟨fun name => (members.find? (·.1 == some name)).map (·.2), room⟩
    else none
  | room + 1, .array items =>
    if items.length ≤ names.length then some ⟨fun name => items[names.idxOf name]?, room⟩ else none
  | _, _ => none

def required (f : Fields) (name : String) (d : Decoder α) : Option α :=
  (f.find? name).bind (d f.room)

def defaulted (f : Fields) (name : String) (d : Decoder α) (default : α) : Option α :=
  match f.find? name with
  | none => some default
  | some doc => d f.room doc

def optional (f : Fields) (name : String) (d : Decoder α) : Option (Option α) :=
  f.defaulted name d.optional none

theorem find?_of_required {f : Fields} {name : String} {d : Decoder α} {a : α}
    (h : f.required name d = some a) : ∃ doc, f.find? name = some doc ∧ d f.room doc = some a :=
  Option.bind_eq_some_iff.1 h

theorem find?_of_optional {f : Fields} {name : String} {d : Decoder α} {a : α}
    (h : f.optional name d = some (some a)) :
    ∃ doc, f.find? name = some doc ∧ d f.room doc = some a := by
  unfold optional defaulted at h
  split at h
  · simp at h
  · rename_i doc hdoc
    exact ⟨doc, hdoc, by cases doc <;> simp_all [Decoder.optional]⟩

end Fields

end TaskGraph.Json
