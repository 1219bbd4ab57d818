import TaskGraph.Proofs.Codec.Depth

/-!
# Canonical texts

There are many texts for one component, but one canonical text. Whatever text a component is read
from, its canonical text is read back as the same component, so making a text canonical twice is
making it canonical once. In the other direction the canonical text says everything: components with
one canonical text are equal but for their identities, however deep they nest, and components with
one digest are so unless their texts collide.
-/
namespace TaskGraph

open Json

def Codec.canonicalize (codec : Codec) (text : String) : Except CodecError String := do
  Codec.compact.serialize (← codec.deserialize text)

/-- Two different texts have one digest. -/
def DigestsCollide (s t : String) : Prop := s ≠ t ∧ digest s = digest t

variable {c d : Component}

namespace Component

theorem ofText?_of_deserialize {codec : Codec} (hcodec : codec = .compact ∨ codec = .indented)
    {text : String} (h : codec.deserialize text = .ok c) : ofText? text = some c := by
  have hread : Codec.readText text = .ok c := by
    rcases hcodec with rfl | rfl <;> exact h
  unfold Codec.readText at hread
  split at hread
  · rename_i d hd
    rw [hd, Except.ok.inj hread]
  · cases hread

theorem deserialize_of_ofText? {codec : Codec} (hcodec : codec = .compact ∨ codec = .indented)
    {text : String} (h : ofText? text = some c) : codec.deserialize text = .ok c := by
  have hread : Codec.readText text = .ok c := by rw [Codec.readText, h]
  rcases hcodec with rfl | rfl <;> exact hread

theorem anonymous_eq_of_ofText? {text : String} (h : ofText? text = some c) : c.anonymous = c :=
  c.anonymous_eq_self (identities_of_ofText? h)

theorem ofText?_text_of_ofText? {text : String} (h : ofText? text = some c) (hreal : c.isRealFree) :
    ofText? c.text = some c := by
  rw [ofText?_text hreal (nesting_le_of_ofText? h), anonymous_eq_of_ofText? h]

/-- However a component without doubles was spelled, its canonical text does not nest too deep to be
read, is read as the component, and is made canonical already, with the same digest. -/
theorem canonical_of_deserialize {codec : Codec} (hcodec : codec = .compact ∨ codec = .indented)
    {text : String} (hread : codec.deserialize text = .ok c) (hreal : c.isRealFree) :
    c.document.nesting ≤ maxNesting ∧
    codec.canonicalize text = .ok c.text ∧
    codec.deserialize c.text = .ok c ∧
    codec.canonicalize c.text = .ok c.text ∧
    (codec.deserialize c.text).map digest = .ok c.digest := by
  have htext := ofText?_of_deserialize hcodec hread
  have hcanonical : codec.deserialize c.text = .ok c :=
    deserialize_of_ofText? hcodec (ofText?_text_of_ofText? htext hreal)
  refine ⟨nesting_le_of_ofText? htext, ?_, hcanonical, ?_, ?_⟩
  · rw [Codec.canonicalize, hread]
    rfl
  · rw [Codec.canonicalize, hcanonical]
    rfl
  · rw [hcanonical]
    rfl

end Component

/-- A spelling far from the canonical one: a member that no component has, a repeated name, `null`
for what is absent, an input and an output binding as arrays, and a graph without its tasks. -/
def looseDocument : Document :=
  .record [
    ("note", .array [.number (.ofNat 1)]),
    ("metadata", .record [
      ("annotations", .record [("b", .text "old"), ("a", .text "1"), ("b", .text "2")])]),
    ("implementation", .record [
      ("graph", .record [("outputValues", .record [("y", .array [.text "t", .text "out"])])])]),
    ("inputs", .array [.array [.text "x", .null, .text "first"]]),
    ("description", .null),
    ("name", .text "loose")]

def looseComponent : Component where
  name := some "loose"
  inputs := [{ name := "x", description := some "first" }]
  implementation := some (.graph { outputValues := .ofList [("y", ⟨"t", "out"⟩)] })
  metadata := some (.ofList [("a", "1"), ("b", "2")])

theorem deserialize_loose :
    Codec.compact.deserialize looseDocument.indented = .ok looseComponent := by
  have hplain : looseDocument.Plain := by
    unfold Document.Plain
    decide
  have hread : Component.decoder maxNesting looseDocument = some looseComponent := by
    rw [Component.decoder_eq]
    rfl
  have htext : Component.ofText? looseDocument.indented = some looseComponent := by
    rw [Component.ofText?, Decoder.ofText?, Document.read?_indented hplain]
    exact hread
  exact Component.deserialize_of_ofText? (.inl rfl) htext

theorem canonical_loose :
    Codec.compact.deserialize looseDocument.indented = .ok looseComponent ∧
    looseComponent.isRealFree ∧
    Codec.compact.canonicalize looseDocument.indented = .ok looseComponent.text ∧
    Codec.compact.canonicalize looseComponent.text = .ok looseComponent.text := by
  have hreal : looseComponent.isRealFree := by decide
  obtain ⟨-, hloose, -, hcanonical, -⟩ :=
    Component.canonical_of_deserialize (.inl rfl) deserialize_loose hreal
  exact ⟨deserialize_loose, hreal, hloose, hcanonical⟩

namespace Component

theorem text_anonymous (c : Component) : c.anonymous.text = c.text := by
  rw [text, document_anonymous, text]

theorem document_eq_of_text_eq (hc : c.isRealFree) (hd : d.isRealFree) (h : c.text = d.text) :
    c.document = d.document := by
  have hread : Document.read? c.text = some d.document := by
    rw [h]
    exact Document.read?_compact (d.plain_document hd)
  exact Option.some.inj ((Document.read?_compact (c.plain_document hc)).symm.trans hread)

/-- No text limits the nesting here: a document is read back as a component wherever there is room
enough for it. -/
theorem anonymous_eq_of_document_eq (hc : c.isRealFree) (hd : d.isRealFree)
    (h : c.document = d.document) : c.anonymous = d.anonymous := by
  have hread := d.reads hd d.document.nesting (Nat.le_refl _)
  rw [← h] at hread
  exact Option.some.inj ((c.reads hc c.document.nesting (Nat.le_refl _)).symm.trans hread)

theorem text_eq_iff (hc : c.isRealFree) (hd : d.isRealFree) :
    c.text = d.text ↔ c.anonymous = d.anonymous := by
  refine ⟨fun h => anonymous_eq_of_document_eq hc hd (document_eq_of_text_eq hc hd h), fun h => ?_⟩
  rw [← c.text_anonymous, h, d.text_anonymous]

theorem anonymous_eq_or_collide (hc : c.isRealFree) (hd : d.isRealFree) (h : c.digest = d.digest) :
    c.anonymous = d.anonymous ∨ DigestsCollide c.text d.text := by
  by_cases htext : c.text = d.text
  · exact .inl ((text_eq_iff hc hd).1 htext)
  · exact .inr ⟨htext, h⟩

/-- At any depth, the canonical text of a component without doubles determines all that the
component says, and so does its digest unless two texts collide. -/
theorem determined_by_text (hc : c.isRealFree) (hd : d.isRealFree) :
    (c.text = d.text ↔ c.anonymous = d.anonymous) ∧
    (c.identities = [] → d.identities = [] → c.text = d.text → c = d) ∧
    (c.digest = d.digest → c.anonymous = d.anonymous ∨ DigestsCollide c.text d.text) := by
  refine ⟨text_eq_iff hc hd, fun hcnone hdnone h => ?_, anonymous_eq_or_collide hc hd⟩
  have heq := (text_eq_iff hc hd).1 h
  rwa [c.anonymous_eq_self hcnone, d.anonymous_eq_self hdnone] at heq

end Component

theorem determined_by_text_quoting :
    quotingPipeline.isRealFree ∧ quotingComponent.isRealFree ∧
    quotingPipeline.text ≠ quotingComponent.text ∧
    (quotingPipeline.digest = quotingComponent.digest →
      DigestsCollide quotingPipeline.text quotingComponent.text) := by
  have hpipeline : quotingPipeline.isRealFree := by decide
  have hcomponent : quotingComponent.isRealFree := by decide
  obtain ⟨htext, -, hdigest⟩ := Component.determined_by_text hpipeline hcomponent
  have hne : quotingPipeline.anonymous ≠ quotingComponent.anonymous := fun h =>
    nomatch congrArg Component.name h
  exact ⟨hpipeline, hcomponent, fun h => hne (htext.1 h), fun h => (hdigest h).resolve_left hne⟩

end TaskGraph
