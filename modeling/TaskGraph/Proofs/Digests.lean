import TaskGraph.Proofs.Hydration
import TaskGraph.Proofs.Subgraph.Nested

/-!
# The digests that references carry

A reference that is made complete or hydrated, and the one in the wrapper of a pack, carry the
digest of the text that the codec at hand writes. A catalog goes by the digest of the canonical
text. The codec of canonical texts therefore makes references that the catalog finds. The codec of
indented texts does not: apart from the component that says nothing, no component has one text in
both layouts.
-/
namespace TaskGraph

open Json

namespace Json.Document

theorem head?_memberTokens (m : Literal × Document) (ms : List (Literal × Document)) :
    ((memberTokens (m :: ms)).flatMap Token.text).head? = some '"' := by
  obtain ⟨k, d⟩ := m
  cases ms <;> cases k <;> simp [memberTokens, Token.text, quote]

theorem head?_indentedMembers (depth : Nat) (m : Literal × Document)
    (ms : List (Literal × Document)) :
    (indentedMembers depth (m :: ms)).head? = some '\n' := by
  obtain ⟨k, d⟩ := m
  cases ms <;> simp [indentedMembers, newLine]

/-- An object has one text in both layouts only if it is empty: the first member stands on a line of
its own or right behind the brace. -/
theorem indented_object_eq_compact_iff {members : List (Literal × Document)} :
    (object members).indented = (object members).compact ↔ members = [] := by
  cases members with
  | nil => exact iff_of_true rfl rfl
  | cons m ms =>
    refine iff_of_false (fun h => ?_) nofun
    rw [indented, compact, String.ofList_inj, indentedAt, tokens, List.flatMap_cons] at h
    have hrest := congrArg (·.tail.head?) h
    simp [Token.text, head?_memberTokens, head?_indentedMembers] at hrest

end Json.Document

namespace Component

variable {c : Component}

theorem present_fields_eq_nil_iff : present c.fields = [] ↔ c.anonymous = {} := by
  rw [anonymous_eq]
  obtain ⟨name, description, inputs, outputs, implementation, metadata, identity⟩ := c
  have hnil : present [] = [] := rfl
  simp [fields, present_cons, hnil]

/-- The component without anything to say is written as an empty object, and only this one is. -/
theorem indentedText_eq_text_iff : c.indentedText = c.text ↔ c.anonymous = {} := by
  rw [indentedText, text, document_eq, Document.record, Document.indented_object_eq_compact_iff,
    List.map_eq_nil_iff, present_fields_eq_nil_iff]

theorem digest_indentedText_eq_iff : TaskGraph.digest c.indentedText = c.digest ↔
    c.anonymous = {} ∨ DigestsCollide c.indentedText c.text := by
  rw [← indentedText_eq_text_iff, DigestsCollide, digest]
  constructor
  · intro h
    by_cases htext : c.indentedText = c.text
    · exact .inl htext
    · exact .inr ⟨htext, h⟩
  · rintro (htext | ⟨-, h⟩)
    · rw [htext]
    · exact h

end Component

/-- With this codec, every reference that is derived from the component carries the digest. -/
structure Codec.Stamps (codec : Codec) (c : Component) (digest : String) : Prop where
  complete : ∃ r, Reference.complete codec c = .ok r ∧ r.digest = some digest
  hydrated : ∀ (resolve : Resolver) (r : Reference), r.spec = some c → r.text = none →
    ∃ r', r.hydrate codec resolve = .ok r' ∧ r'.digest = some digest
  packed : ∀ (host : Host) (options : PackOptions) (selection : Selection) (parent : Component)
    (packed : Packed), host.codec = codec → parent.pack host options selection = .ok packed →
    packed.wrapper.reference.spec = some c → packed.wrapper.reference.digest = some digest

theorem Codec.stamps_of_serialize {codec : Codec} {c : Component} {text : String}
    (h : codec.serialize c = .ok text) : codec.Stamps c (digest text) where
  complete := ⟨_, Reference.complete_eq_ok_iff.2 ⟨text, h, rfl⟩, rfl⟩
  hydrated resolve r hspec htext := by
    have hcomponent : r.componentToHydrate codec resolve = .ok c :=
      Reference.componentToHydrate_eq_ok_iff.2 (.inl hspec)
    refine ⟨_, Reference.hydrate_eq_ok_iff.2
      (.inr ⟨?_, c, text, hcomponent, .inr ⟨htext, h⟩, rfl⟩), rfl⟩
    simp [Reference.isHydrated, htext]
  packed host options selection parent packed hcodec hpack hspec := by
    obtain ⟨g, reference, -, -, hcomplete, rfl⟩ := Component.pack_eq_ok_iff.1 hpack
    obtain ⟨written, hwritten, rfl⟩ := Reference.complete_eq_ok_iff.1 hcomplete
    rw [Packing.reference_wrapper_packed] at hspec ⊢
    rw [Option.some.inj hspec, hcodec, h] at hwritten
    rw [Except.ok.inj hwritten]

theorem Catalog.resolve_of_digest (k : Catalog) (digest : String) :
    k.resolve { digest := some digest } = (k.byDigest.get? digest).map (·.val) := by
  simp [resolve]

namespace Registration

variable (r : Registration) (k : Catalog)

theorem resolve_perform (digest : String) : (r.perform k).1.resolve { digest := some digest } =
    if digest = (r.perform k).2 then some (k.enroll r.spec).2.val
    else k.resolve { digest := some digest } := by
  rw [Catalog.resolve_of_digest, Catalog.resolve_of_digest, byDigest_perform, NameMap.get?_insert,
    perform_snd]
  split <;> rfl

/-- The codec of canonical texts stamps the digest under which a catalog registers the component.
The codec of indented texts stamps another one, unless the component says nothing or its two texts
collide, and only under the digest of the canonical text does registering make anything found. -/
theorem digests_of_codecs :
    Codec.compact.Stamps r.spec (r.perform k).2 ∧
    Codec.indented.Stamps r.spec (digest r.spec.indentedText) ∧
    (digest r.spec.indentedText = (r.perform k).2 ↔
      r.spec.anonymous = {} ∨ DigestsCollide r.spec.indentedText r.spec.text) ∧
    (k.enroll r.spec).2.val.anonymous = r.spec.anonymous ∧
    ∀ digest, (r.perform k).1.resolve { digest := some digest } =
      if digest = (r.perform k).2 then some (k.enroll r.spec).2.val
      else k.resolve { digest := some digest } := by
  refine ⟨?_, Codec.stamps_of_serialize rfl, ?_, r.anonymous_enroll k, r.resolve_perform k⟩
  · rw [perform_snd]
    exact Codec.stamps_of_serialize rfl
  · rw [perform_snd]
    exact Component.digest_indentedText_eq_iff

end Registration

/-- A reference with an indented text is not found in the catalog that has its component. -/
theorem digest_lost_by_indentation : ∃ r,
    Reference.complete .indented sayComponent = .ok r ∧
    r.digest ≠ some (Catalog.empty.register sayComponent).2 ∧
    (Catalog.empty.register sayComponent).1.resolve { digest := r.digest } = none := by
  have hne : digest sayComponent.indentedText ≠ sayComponent.digest := by decide +kernel
  refine ⟨_, rfl, fun h => hne (Option.some.inj h), ?_⟩
  refine ((Registration.mk sayComponent none).resolve_perform .empty _).trans (if_neg ?_)
  exact hne

end TaskGraph
