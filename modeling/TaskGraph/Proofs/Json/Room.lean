import TaskGraph.Proofs.Codec.Recursion
import TaskGraph.Proofs.Identity

/-!
# The room that a value is written in

A decoder is told how many arrays and objects may nest in the document that it reads. If what it
gives can be written within that room again, it is confined to the room. A document may spell a
value in other ways than the writer does, so this is shown from the value that comes out of each
combinator, not from the document that goes in.
-/
namespace TaskGraph.Json

variable {α : Type}

/-- What the decoder gives in this room is written within it. -/
def Decoder.Confined (decoder : Decoder α) (document : α → Document) (room : Nat) : Prop :=
  ∀ doc a, decoder room doc = some a → (document a).nesting ≤ room

theorem nesting_array_succ_le {items : List Document} {room : Nat}
    (h : ∀ d ∈ items, d.nesting ≤ room) : (Document.array items).nesting ≤ room + 1 :=
  Nat.succ_le_succ (nestingOfItems_le_iff.2 h)

theorem nesting_object_succ_le {members : List (Literal × Document)} {room : Nat}
    (h : ∀ m ∈ members, m.2.nesting ≤ room) : (Document.object members).nesting ≤ room + 1 :=
  Nat.succ_le_succ (nestingOfMembers_le_iff.2 h)

theorem nesting_record_succ_le {members : List (String × Document)} {room : Nat}
    (h : ∀ m ∈ members, m.2.nesting ≤ room) : (Document.record members).nesting ≤ room + 1 :=
  nesting_object_succ_le (List.forall_mem_map.2 h)

theorem nesting_tagged_le (tag : String) {payload : Document} {room : Nat}
    (h : payload.nesting ≤ room) : (Document.record [(tag, payload)]).nesting ≤ room + 1 :=
  nesting_record_succ_le (List.forall_mem_singleton.2 h)

namespace Decoder

variable {decoder : Decoder α} {document : α → Document} {room : Nat}

/-- The values of a list of documents, each of which was read in this room. -/
theorem Confined.mapM (h : decoder.Confined document room) {docs : List Document}
    {values : List α} (hread : docs.mapM (decoder room) = some values) :
    ∀ a ∈ values, (document a).nesting ≤ room := by
  induction docs generalizing values with
  | nil =>
    obtain rfl : [] = values := Option.some.inj hread
    exact List.forall_mem_nil _
  | cons doc docs ih =>
    simp only [List.mapM_cons, Option.bind_eq_bind, Option.bind_eq_some_iff, Option.pure_def,
      Option.some.injEq] at hread
    obtain ⟨value, hvalue, rest, hrest, rfl⟩ := hread
    exact List.forall_mem_cons.2 ⟨h doc value hvalue, ih hrest⟩

theorem Confined.members? (h : decoder.Confined document room)
    {members : List (Literal × Document)} {m : NameMap α}
    (hread : Decoder.members? (decoder room) members = some m) :
    ∀ e ∈ m.toList, (document e.2).nesting ≤ room := by
  intro e he
  obtain ⟨doc, hdoc⟩ := exists_of_members? hread he
  exact h doc e.2 hdoc

theorem Confined.text (room : Nat) : Confined Decoder.text .text room :=
  fun _ _ _ => Nat.zero_le room

theorem Confined.list (h : ∀ inner, room = inner + 1 → decoder.Confined document inner) :
    (list decoder).Confined (fun values => .array (values.map document)) room := by
  intro doc values hread
  unfold Decoder.list at hread
  split at hread
  · exact nesting_array_succ_le (List.forall_mem_map.2 ((h _ rfl).mapM hread))
  · cases hread

theorem Confined.names (h : ∀ inner, room = inner + 1 → decoder.Confined document inner) :
    (names decoder).Confined
      (fun m => .record (m.toList.map fun e => (e.1, document e.2))) room := by
  intro doc m hread
  unfold Decoder.names at hread
  split at hread
  · exact nesting_record_succ_le (List.forall_mem_map.2 ((h _ rfl).members? hread))
  · cases hread

end Decoder

section

variable {fields : List (String × Option Document)} {room : Nat} {name : String}
  {doc? : Option Document}

theorem fit_singleton_iff : Fit [(name, doc?)] room ↔ ∀ doc ∈ doc?, doc.nesting ≤ room := by
  simp only [Fit, List.mem_singleton, Prod.mk.injEq]
  exact ⟨fun h doc hdoc => h name doc ⟨rfl, hdoc.symm⟩, fun h _ doc hdoc => h doc hdoc.2.symm⟩

theorem Fit.cons (hfield : Fit [(name, doc?)] room) (h : Fit fields room) :
    Fit ((name, doc?) :: fields) room := by
  intro key doc hmem
  rcases List.mem_cons.1 hmem with heq | hmem
  · exact hfield key doc (List.mem_singleton.2 heq)
  · exact h key doc hmem

theorem Fit.nesting_le (h : Fit fields room) :
    (Document.record (present fields)).nesting ≤ room + 1 :=
  nesting_record_succ_le fun m hm => h m.1 m.2 (mem_of_mem_present hm)

end

namespace Fields

variable {f : Fields} {decoder : Decoder α} {document : α → Document} {name : String}

theorem fit_of_nesting_le {doc : Document} {room : Nat} (h : doc.nesting ≤ room) :
    Fit [(name, some doc)] room :=
  fit_singleton_iff.2 fun _ hmem => Option.some.inj hmem ▸ h

theorem fit_if {written : Bool} {doc : Document} {room : Nat} (h : doc.nesting ≤ room) :
    Fit [(name, if written then some doc else none)] room := by
  cases written with
  | false => exact fit_singleton_iff.2 nofun
  | true => exact fit_of_nesting_le h

theorem fit_text (name s : String) (room : Nat) : Fit [(name, some (.text s))] room :=
  fit_of_nesting_le (Nat.zero_le room)

theorem fit_optional_text (name : String) (s? : Option String) (room : Nat) :
    Fit [(name, s?.map .text)] room := by
  cases s? with
  | none => exact fit_singleton_iff.2 nofun
  | some s => exact fit_text name s room

theorem fit_flag (name : String) (b : Bool) (room : Nat) :
    Fit [(name, if b then some (.bool true) else none)] room :=
  fit_if (Nat.zero_le room)

theorem fit_required (h : decoder.Confined document f.room) {key : String} {a : α}
    (hread : f.required key decoder = some a) : Fit [(name, some (document a))] f.room := by
  obtain ⟨doc, -, hdoc⟩ := find?_of_required hread
  exact fit_of_nesting_le (h doc a hdoc)

theorem fit_optional (h : decoder.Confined document f.room) {key : String} {a? : Option α}
    (hread : f.optional key decoder = some a?) : Fit [(name, a?.map document)] f.room := by
  cases a? with
  | none => exact fit_singleton_iff.2 nofun
  | some a =>
    obtain ⟨doc, -, hdoc⟩ := find?_of_optional hread
    exact fit_of_nesting_le (h doc a hdoc)

/-- A field with a default has the default, or a value of its own that is written in its room. -/
theorem eq_default_or_nesting_le (h : decoder.Confined document f.room) {key : String}
    {a default : α} (hread : f.defaulted key decoder default = some a) :
    a = default ∨ (document a).nesting ≤ f.room := by
  unfold defaulted at hread
  split at hread
  · exact .inl (Option.some.inj hread).symm
  · exact .inr (h _ a hread)

theorem fit_list (h : ∀ inner, f.room = inner + 1 → decoder.Confined document inner) {key : String}
    {values : List α} (hread : f.defaulted key (Decoder.list decoder) [] = some values) :
    Fit [(name, if !values.isEmpty then some (.array (values.map document)) else none)]
      f.room := by
  rcases eq_default_or_nesting_le (Decoder.Confined.list h) hread with rfl | hnesting
  · exact fit_singleton_iff.2 nofun
  · exact fit_if hnesting

theorem fit_names (h : ∀ inner, f.room = inner + 1 → decoder.Confined document inner) {key : String}
    {m : NameMap α} (hread : f.defaulted key (Decoder.names decoder) ∅ = some m) :
    Fit [(name, if !m.isEmpty then
      some (.record (m.toList.map fun e => (e.1, document e.2))) else none)] f.room := by
  rcases eq_default_or_nesting_le (Decoder.Confined.names h) hread with rfl | hnesting
  · exact fit_singleton_iff.2 nofun
  · exact fit_if hnesting

end Fields

end TaskGraph.Json
