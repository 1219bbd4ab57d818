import TaskGraph.Component.Document
import TaskGraph.Proofs.Json.Decoding

/-!
# Reading components inside components

A component is read by reading the components in it with less room. The guard that says so is never
met, so the decoder is the one that reads the components in it like itself.
-/
namespace TaskGraph

open Json

namespace Json

variable {α : Type}

theorem Decoder.optional_congr {d d' : Decoder α} {room : Nat} (h : d room = d' room) :
    d.optional room = d'.optional room := by
  funext doc
  cases doc <;> simp [optional, h]

theorem Decoder.names_congr {d d' : Decoder α} {room : Nat}
    (h : ∀ inner, inner < room → d inner = d' inner) : names d room = names d' room := by
  cases room with
  | zero => rfl
  | succ inner =>
    funext doc
    cases doc <;> simp [names, h inner (Nat.lt_succ_self inner)]

namespace Fields

variable {names : List String} {room : Nat} {doc : Document} {f : Fields} {d d' : Decoder α}

/-- The fields of a record have one level of room less than the record. -/
theorem room_eq (h : decoder names room doc = some f) : room = f.room + 1 := by
  have hsucc {inner : Nat} {g : Fields} (hg : g.room = inner) (h : some g = some f) :
      inner + 1 = f.room + 1 := by
    rw [← Option.some.inj h, hg]
  unfold decoder at h
  split at h
  · dsimp only at h
    split at h
    · exact hsucc rfl h
    · cases h
  · split at h
    · exact hsucc rfl h
    · cases h
  · cases h

theorem room_lt (h : decoder names room doc = some f) : f.room < room := by
  rw [room_eq h]
  exact Nat.lt_succ_self f.room

theorem required_congr (h : d f.room = d' f.room) (name : String) :
    f.required name d = f.required name d' := by
  rw [required, required, h]

theorem defaulted_congr (h : d f.room = d' f.room) (name : String) (default : α) :
    f.defaulted name d default = f.defaulted name d' default := by
  rw [defaulted, defaulted, h]

theorem optional_congr (h : d f.room = d' f.room) (name : String) :
    f.optional name d = f.optional name d' :=
  defaulted_congr (Decoder.optional_congr h) name none

end Fields

theorem Decoder.variant_room_eq {room inner : Nat} {doc payload : Document} {tag : String}
    (h : variant room doc = some (tag, payload, inner)) : room = inner + 1 := by
  unfold variant at h
  split at h
  · cases h
    rfl
  · cases h

theorem Decoder.variant_room_lt {room inner : Nat} {doc payload : Document} {tag : String}
    (h : variant room doc = some (tag, payload, inner)) : inner < room := by
  rw [variant_room_eq h]
  exact Nat.lt_succ_self inner

end Json

section

variable {d d' : Decoder Component} {room : Nat} (h : ∀ inner, inner < room → d inner = d' inner)

include h

theorem Reference.decoderWith_congr :
    Reference.decoderWith d room = Reference.decoderWith d' room := by
  funext doc
  refine Option.bind_congr fun f hf => ?_
  rw [Fields.optional_congr (h f.room (Fields.room_lt hf))]

theorem Task.decoderWith_congr : Task.decoderWith d room = Task.decoderWith d' room := by
  funext doc
  refine Option.bind_congr fun f hf => ?_
  have hreference : Reference.decoderWith d f.room = Reference.decoderWith d' f.room :=
    Reference.decoderWith_congr fun inner hinner =>
      h inner (Nat.lt_trans hinner (Fields.room_lt hf))
  rw [Fields.required_congr hreference]

theorem Graph.decoderWith_congr : Graph.decoderWith d room = Graph.decoderWith d' room := by
  funext doc
  refine Option.bind_congr fun f hf => ?_
  have htasks : Decoder.names (Task.decoderWith d) f.room =
      Decoder.names (Task.decoderWith d') f.room :=
    Decoder.names_congr fun inner hinner => Task.decoderWith_congr fun innermost hinnermost =>
      h innermost (Nat.lt_trans hinnermost (Nat.lt_trans hinner (Fields.room_lt hf)))
  rw [Fields.defaulted_congr htasks]

theorem Implementation.decoderWith_congr :
    Implementation.decoderWith d room = Implementation.decoderWith d' room := by
  funext doc
  refine Option.bind_congr fun ⟨tag, payload, inner⟩ hvariant => ?_
  have hgraph : Graph.decoderWith d inner = Graph.decoderWith d' inner :=
    Graph.decoderWith_congr fun innermost hinnermost =>
      h innermost (Nat.lt_trans hinnermost (Decoder.variant_room_lt hvariant))
  simp only [hgraph]

theorem Component.decoderWith_congr :
    Component.decoderWith d room = Component.decoderWith d' room := by
  funext doc
  refine Option.bind_congr fun f hf => ?_
  have himplementation : Implementation.decoderWith d f.room =
      Implementation.decoderWith d' f.room :=
    Implementation.decoderWith_congr fun inner hinner =>
      h inner (Nat.lt_trans hinner (Fields.room_lt hf))
  rw [Fields.optional_congr himplementation]

end

/-- A component is read by reading the components in it in the same way. -/
theorem Component.decoder_eq (room : Nat) (doc : Document) :
    decoder room doc = decoderWith decoder room doc := by
  rw [decoder]
  refine congrFun (decoderWith_congr fun inner hinner => ?_) doc
  funext d
  exact if_pos hinner

end TaskGraph
