import TaskGraph.Hydration
import TaskGraph.Proofs.Registration

/-!
# What a hydrated reference denotes

A catalog and hydration look for the component of a reference in different orders. Both take the
component that the reference holds first. Hydration then reads the text, and asks the catalog only
if there is none; the catalog reads the text last, after what it has under the digest and under the
URL. So they differ on a reference without a component whose text is not what is registered, and
nowhere else. Once hydrated, a reference holds its component, and the catalog gives the same one.
-/
namespace TaskGraph

open Registration

namespace Reference

variable {codec : Codec} {resolve : Resolver} {r r' : Reference} {c : Component}

/-- The component comes from the reference, from its text, or from the resolver, whichever is there
first. -/
theorem componentToHydrate_eq_ok_iff : r.componentToHydrate codec resolve = .ok c ↔
    r.spec = some c ∨ r.spec = none ∧
      ((∃ text, r.text = some text ∧ codec.deserialize text = .ok c) ∨
        r.text = none ∧ resolve r = some c) := by
  rw [componentToHydrate]
  cases hspec : r.spec with
  | some d => simp
  | none =>
    cases htext : r.text with
    | some text => cases hread : codec.deserialize text <;> simp [Except.mapError, hread]
    | none => cases hresolve : resolve r <;> simp

theorem hydrate_eq_ok_iff : r.hydrate codec resolve = .ok r' ↔
    r.isHydrated ∧ r' = r ∨ ¬ r.isHydrated ∧ ∃ c text,
      r.componentToHydrate codec resolve = .ok c ∧
      (r.text = some text ∨ r.text = none ∧ codec.serialize c = .ok text) ∧
      r' = { r with
        name := r.name <|> c.name
        digest := some (TaskGraph.digest text)
        spec := some c
        text := some text } := by
  rw [hydrate]
  by_cases hhydrated : r.isHydrated
  · simp [hhydrated, eq_comm]
  · rw [if_neg hhydrated]
    cases hcomponent : r.componentToHydrate codec resolve with
    | error e => simp [hhydrated, bind, Except.bind]
    | ok c =>
      cases htext : r.text with
      | some text => simp [hhydrated, bind, Except.bind, pure, Except.pure, eq_comm]
      | none =>
        cases hserialize : codec.serialize c <;>
          simp [hhydrated, hserialize, bind, Except.bind, pure, Except.pure, Except.mapError,
            eq_comm]

theorem spec_of_hydrate (h : r.hydrate codec resolve = .ok r') :
    ∃ c, r'.spec = some c ∧ r.componentToHydrate codec resolve = .ok c := by
  rcases hydrate_eq_ok_iff.1 h with ⟨hhydrated, rfl⟩ | ⟨-, c, text, hcomponent, -, rfl⟩
  · simp only [isHydrated, Bool.and_eq_true] at hhydrated
    obtain ⟨c, hc⟩ := Option.isSome_iff_exists.1 hhydrated.1.2
    exact ⟨c, hc, componentToHydrate_eq_ok_iff.2 (.inl hc)⟩
  · exact ⟨c, rfl, hcomponent⟩

theorem hydrate_of_text (hspec : r.spec = none) {text : String} (htext : r.text = some text)
    (hread : Component.ofText? text = some c) : r.hydrate .compact resolve = .ok { r with
      name := r.name <|> c.name
      digest := some (TaskGraph.digest text)
      spec := some c
      text := some text } := by
  have hcomponent : r.componentToHydrate .compact resolve = .ok c :=
    componentToHydrate_eq_ok_iff.2 (.inr ⟨hspec, .inl ⟨text, htext,
      Component.deserialize_of_ofText? (.inl rfl) hread⟩⟩)
  refine hydrate_eq_ok_iff.2 (.inr ⟨?_, c, text, hcomponent, .inl htext, rfl⟩)
  simp [isHydrated, hspec]

end Reference

namespace Registration

/-- What was registered last under the digest of a reference, or else under its URL. -/
def registered? (calls : List Registration) (r : Reference) : Option Component :=
  r.digest.bind (underDigest? calls) <|> r.url.bind (underUrl? calls)

/-- The reference holds no component but a text, and what is registered for it says something else
than the text. -/
def Overrules (calls : List Registration) (r : Reference) : Prop :=
  r.spec = none ∧ ∃ text c d, r.text = some text ∧ Component.ofText? text = some c ∧
    registered? calls r = some d ∧ c.anonymous ≠ d.anonymous

end Registration

namespace Catalog

variable {k : Catalog} {calls : List Registration} {r r' : Reference} {c d : Component}

theorem Records.resolve_of_spec_none (h : k.Records calls) (hspec : r.spec = none) :
    (k.resolve r).map (·.anonymous) =
      (registered? calls r <|> r.text.bind Component.ofText?).map (·.anonymous) := by
  rw [h.resolve, hspec, registered?]
  simp only [Option.orElse_eq_orElse, Option.orElse_eq_or, Option.none_or, Option.or_assoc]

theorem Records.anonymous_eq_iff_of_text (h : k.Records calls) (hspec : r.spec = none)
    {text : String} (htext : r.text = some text) (hread : Component.ofText? text = some d)
    (hresolve : k.resolve r = some c) :
    d.anonymous = c.anonymous ↔ ¬ Overrules calls r := by
  have hanonymous := h.resolve_of_spec_none hspec
  rw [hresolve, htext, Option.bind_some, hread, Option.orElse_eq_orElse, Option.orElse_eq_or,
    Option.map_some] at hanonymous
  have hoverrules : Overrules calls r ↔
      ∃ e, registered? calls r = some e ∧ d.anonymous ≠ e.anonymous := by
    simp [Overrules, hspec, htext, hread]
  rw [hoverrules]
  cases hregistered : registered? calls r with
  | none =>
    rw [hregistered, Option.none_or, Option.map_some, Option.some.injEq] at hanonymous
    simp [hanonymous]
  | some e =>
    rw [hregistered, Option.some_or, Option.map_some, Option.some.injEq] at hanonymous
    simp [hanonymous]

/-- A hydrated reference holds the component that the catalog then gives for it. This is the one
that the catalog gave before, unless a text was read that says something else than what is
registered under the digest or the URL. -/
theorem denoted_of_hydrate (hresolve : (empty.registerAll calls).1.resolve r = some c)
    (hhydrate : r.hydrate .compact (empty.registerAll calls).1.resolve = .ok r') :
    ∃ d, r'.spec = some d ∧ (empty.registerAll calls).1.resolve r' = some d ∧
      (d.anonymous = c.anonymous ↔ ¬ Overrules calls r) ∧
      (r.spec = none → ∀ text, r.text = some text → Component.ofText? text = some d) := by
  obtain ⟨d, hd, hcomponent⟩ := Reference.spec_of_hydrate hhydrate
  refine ⟨d, hd, resolve_of_spec _ hd, ?_⟩
  rcases Reference.componentToHydrate_eq_ok_iff.1 hcomponent with
    hspec | ⟨hspec, ⟨text, htext, hread⟩ | ⟨htext, hgiven⟩⟩
  · obtain rfl : d = c := Option.some.inj ((resolve_of_spec _ hspec).symm.trans hresolve)
    simp [Overrules, hspec]
  · have hread := Component.ofText?_of_deserialize (.inl rfl) hread
    refine ⟨(records_registerAll calls).anonymous_eq_iff_of_text hspec htext hread hresolve, ?_⟩
    rintro - text' htext'
    obtain rfl : text = text' := Option.some.inj (htext.symm.trans htext')
    exact hread
  · obtain rfl : d = c := Option.some.inj (hgiven.symm.trans hresolve)
    simp [Overrules, htext]

end Catalog

def voiceReference (text : String) : Reference := { url := some "hub/voice", text := some text }

theorem registered?_voiceReference (text : String) :
    registered? movingCalls (voiceReference text) = some hearComponent := rfl

theorem resolve_voiceReference (text : String) :
    ∃ c, (Catalog.empty.registerAll movingCalls).1.resolve (voiceReference text) = some c ∧
      c.anonymous = hearComponent := by
  have hresolve := (Catalog.records_registerAll movingCalls).resolve_of_spec_none
    (r := voiceReference text) rfl
  rw [registered?_voiceReference, Option.orElse_eq_orElse, Option.orElse_eq_or,
    Option.some_or] at hresolve
  exact Option.map_eq_some_iff.1 hresolve

/-- The text is that of a component registered under the URL before, and not that of the latest
one. The catalog gives the latest one before hydration and the other one after it. -/
theorem denoted_changes_by_hydrate : ∃ c r',
    (Catalog.empty.registerAll movingCalls).1.resolve (voiceReference sayComponent.text) = some c ∧
    (voiceReference sayComponent.text).hydrate .compact
      (Catalog.empty.registerAll movingCalls).1.resolve = .ok r' ∧
    r'.spec = some sayComponent ∧
    (Catalog.empty.registerAll movingCalls).1.resolve r' = some sayComponent ∧
    sayComponent.anonymous ≠ c.anonymous := by
  obtain ⟨c, hresolve, hc⟩ := resolve_voiceReference sayComponent.text
  have hread : Component.ofText? sayComponent.text = some sayComponent :=
    Component.ofText?_text (by decide) (by decide)
  refine ⟨c, _, hresolve, Reference.hydrate_of_text rfl rfl hread, rfl, rfl, ?_⟩
  rw [hc]
  exact fun h => nomatch congrArg Component.name h

theorem denoted_of_hydrate_voice : ∃ c r' d,
    (Catalog.empty.registerAll movingCalls).1.resolve (voiceReference hearComponent.text) =
      some c ∧
    (voiceReference hearComponent.text).hydrate .compact
      (Catalog.empty.registerAll movingCalls).1.resolve = .ok r' ∧
    r'.spec = some d ∧ (Catalog.empty.registerAll movingCalls).1.resolve r' = some d ∧
    d.anonymous = c.anonymous := by
  obtain ⟨c, hresolve, -⟩ := resolve_voiceReference hearComponent.text
  have hread : Component.ofText? hearComponent.text = some hearComponent :=
    Component.ofText?_text (by decide) (by decide)
  obtain ⟨r', hhydrate⟩ : ∃ r', (voiceReference hearComponent.text).hydrate .compact
      (Catalog.empty.registerAll movingCalls).1.resolve = .ok r' :=
    ⟨_, Reference.hydrate_of_text rfl rfl hread⟩
  obtain ⟨d, hspec, hagain, hsame, -⟩ := Catalog.denoted_of_hydrate hresolve hhydrate
  refine ⟨c, r', d, hresolve, hhydrate, hspec, hagain, hsame.2 ?_⟩
  rintro ⟨-, text, e, f, htext, he, hf, hne⟩
  obtain rfl : hearComponent.text = text := Option.some.inj htext
  obtain rfl : hearComponent = e := Option.some.inj (hread.symm.trans he)
  obtain rfl : hearComponent = f := Option.some.inj hf
  exact hne rfl

end TaskGraph
