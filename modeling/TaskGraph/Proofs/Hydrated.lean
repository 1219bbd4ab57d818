import TaskGraph.Proofs.Hydration

/-!
# What hydration adds

A reference that has everything stays as it is. Hydrating any other adds the component, a text, and
the name if the component has one, and keeps what is there of these; only the digest is made anew,
to be that of the text. It fails exactly if the component or the text is missing and cannot be had.
What it gives it gives again, by whatever means it is hydrated a second time: the name that an
unnamed component leaves open stays open. A JSON text that was read or written on the way is read as
the component beside it, within the limits of what is read back.
-/
namespace TaskGraph

open Json

/-- Why a reference cannot be hydrated: nothing gives a component, or its text gives none, or the
component cannot be written. -/
inductive Reference.FailsToHydrate (codec : Codec) (resolve : Resolver) (r : Reference) :
    HydrationError → Prop
  | unresolvable (noSpec : r.spec = none) (noText : r.text = none) (unknown : resolve r = none) :
      FailsToHydrate codec resolve r .unresolvable
  | unreadable {text : String} {e : CodecError} (noSpec : r.spec = none)
      (hasText : r.text = some text) (unread : codec.deserialize text = .error e) :
      FailsToHydrate codec resolve r (.codec e)
  | unwritable {c : Component} {e : CodecError} (noText : r.text = none)
      (known : r.spec = some c ∨ r.spec = none ∧ resolve r = some c)
      (unwritten : codec.serialize c = .error e) : FailsToHydrate codec resolve r (.codec e)

/-- What hydrating `r` with the codec makes of it. If the component or the text was missing, a JSON
codec reads the text as the component; where it wrote the text itself, it does so within the limits
of what is read back. -/
structure Reference.HydratesTo (codec : Codec) (r r' : Reference) : Prop where
  known : r'.spec.isSome ∧ r'.text.isSome ∧ r'.digest.isSome
  url : r'.url = r.url
  name : ∀ name, r.name = some name → r'.name = some name
  spec : ∀ c, r.spec = some c → r'.spec = some c
  text : ∀ text, r.text = some text → r'.text = some text
  digest : ¬ r.isHydrated → r'.digest = r'.text.map TaskGraph.digest
  settled : ∀ anyCodec anyResolve, r'.hydrate anyCodec anyResolve = .ok r'
  coherent : codec = .compact ∨ codec = .indented → r.spec = none ∨ r.text = none →
    ∀ c text, r'.spec = some c → r'.text = some text →
      r.text.isSome ∨ c.isRealFree ∧ c.document.nesting ≤ maxNesting →
      codec.deserialize text = .ok c.anonymous

theorem Codec.deserialize_of_serialize {codec : Codec}
    (hcodec : codec = .compact ∨ codec = .indented) {c : Component} {text : String}
    (hwrite : codec.serialize c = .ok text) (hreal : c.isRealFree)
    (hnesting : c.document.nesting ≤ maxNesting) : codec.deserialize text = .ok c.anonymous := by
  apply Component.deserialize_of_ofText? hcodec
  rcases hcodec with rfl | rfl
  · obtain rfl : c.text = text := Except.ok.inj hwrite
    exact Component.ofText?_text hreal hnesting
  · obtain rfl : c.indentedText = text := Except.ok.inj hwrite
    exact Component.ofText?_indentedText hreal hnesting

namespace Reference

variable {codec : Codec} {resolve : Resolver} {r r' : Reference} {c : Component}

theorem componentToHydrate_eq_error_iff {e : HydrationError} :
    r.componentToHydrate codec resolve = .error e ↔ r.spec = none ∧
      (r.text = none ∧ resolve r = none ∧ e = .unresolvable ∨
        ∃ text e', r.text = some text ∧ codec.deserialize text = .error e' ∧ e = .codec e') := by
  rw [componentToHydrate]
  cases hspec : r.spec with
  | some d => simp
  | none =>
    cases htext : r.text with
    | some text => cases hread : codec.deserialize text <;> simp [Except.mapError, hread, eq_comm]
    | none => cases hresolve : resolve r <;> simp [eq_comm]

theorem hydrate_eq_error_iff_of_not_isHydrated {e : HydrationError} (h : ¬ r.isHydrated) :
    r.hydrate codec resolve = .error e ↔ r.componentToHydrate codec resolve = .error e ∨
      r.text = none ∧ ∃ c e', r.componentToHydrate codec resolve = .ok c ∧
        codec.serialize c = .error e' ∧ e = .codec e' := by
  rw [hydrate, if_neg h]
  cases hcomponent : r.componentToHydrate codec resolve with
  | error e' => simp [bind, Except.bind]
  | ok c =>
    cases htext : r.text with
    | some text => simp [bind, Except.bind, pure, Except.pure]
    | none =>
      cases hwrite : codec.serialize c <;>
        simp [bind, Except.bind, pure, Except.pure, Except.mapError, hwrite, eq_comm]

theorem FailsToHydrate.not_isHydrated {e : HydrationError}
    (h : r.FailsToHydrate codec resolve e) : ¬ r.isHydrated := by
  cases h with
  | unresolvable hspec => simp [isHydrated, hspec]
  | unreadable hspec => simp [isHydrated, hspec]
  | unwritable htext => simp [isHydrated, htext]

theorem hydrate_eq_error_iff {e : HydrationError} :
    r.hydrate codec resolve = .error e ↔ r.FailsToHydrate codec resolve e := by
  by_cases hhydrated : r.isHydrated
  · rw [hydrate, if_pos hhydrated]
    refine iff_of_false (fun h => ?_) fun h => h.not_isHydrated hhydrated
    cases h
  · rw [hydrate_eq_error_iff_of_not_isHydrated hhydrated, componentToHydrate_eq_error_iff]
    constructor
    · rintro (⟨hspec, ⟨htext, hresolve, rfl⟩ | ⟨text, e', htext, hread, rfl⟩⟩ |
        ⟨htext, c, e', hcomponent, hwrite, rfl⟩)
      · exact .unresolvable hspec htext hresolve
      · exact .unreadable hspec htext hread
      · refine .unwritable htext ?_ hwrite
        simpa [htext] using componentToHydrate_eq_ok_iff.1 hcomponent
    · intro h
      cases h with
      | unresolvable hspec htext hresolve => exact .inl ⟨hspec, .inl ⟨htext, hresolve, rfl⟩⟩
      | unreadable hspec htext hread => exact .inl ⟨hspec, .inr ⟨_, _, htext, hread, rfl⟩⟩
      | unwritable htext hknown hwrite =>
        refine .inr ⟨htext, _, _, componentToHydrate_eq_ok_iff.2 ?_, hwrite, rfl⟩
        simpa [htext] using hknown

/-- The component, its text and the digest of the text are enough: hydrating such a reference keeps
it, unless it takes its name from the component. -/
theorem hydrate_of_known {text : String} (hspec : r.spec = some c) (htext : r.text = some text)
    (hdigest : r.digest = some (TaskGraph.digest text)) (hname : r.name = none → c.name = none) :
    r.hydrate codec resolve = .ok r := by
  have hcomponent : r.componentToHydrate codec resolve = .ok c :=
    componentToHydrate_eq_ok_iff.2 (.inl hspec)
  have hsame : (r.name <|> c.name) = r.name := by
    cases hr : r.name with
    | some name => rfl
    | none => rw [hname hr]; rfl
  refine hydrate_eq_ok_iff.2 ?_
  by_cases hhydrated : r.isHydrated
  · exact .inl ⟨hhydrated, rfl⟩
  · refine .inr ⟨hhydrated, c, text, hcomponent, .inl htext, ?_⟩
    rw [hsame, ← hspec, ← htext, ← hdigest]
    cases r
    rfl

theorem deserialize_of_hydrate (hcodec : codec = .compact ∨ codec = .indented)
    (hlacks : r.spec = none ∨ r.text = none)
    (hcomponent : r.componentToHydrate codec resolve = .ok c) {text : String}
    (htext : r.text = some text ∨ r.text = none ∧ codec.serialize c = .ok text)
    (hlimits : r.text.isSome ∨ c.isRealFree ∧ c.document.nesting ≤ maxNesting) :
    codec.deserialize text = .ok c.anonymous := by
  rcases htext with htext | ⟨htext, hwrite⟩
  · have hspec : r.spec = none := by simpa [htext] using hlacks
    have hread : codec.deserialize text = .ok c := by
      simpa [hspec, htext] using componentToHydrate_eq_ok_iff.1 hcomponent
    rw [Component.anonymous_eq_of_ofText? (Component.ofText?_of_deserialize hcodec hread), hread]
  · obtain ⟨hreal, hnesting⟩ : c.isRealFree ∧ c.document.nesting ≤ maxNesting := by
      simpa [htext] using hlimits
    exact Codec.deserialize_of_serialize hcodec hwrite hreal hnesting

theorem isHydrated_iff :
    r.isHydrated ↔ r.name.isSome ∧ r.digest.isSome ∧ r.spec.isSome ∧ r.text.isSome := by
  simp [isHydrated, and_assoc]

theorem hydratesTo_self (h : r.isHydrated) : HydratesTo codec r r where
  known := by
    obtain ⟨-, hdigest, hspec, htext⟩ := isHydrated_iff.1 h
    exact ⟨hspec, htext, hdigest⟩
  url := rfl
  name := fun _ hname => hname
  spec := fun _ hspec => hspec
  text := fun _ htext => htext
  digest := fun hnot => absurd h hnot
  settled := fun _ _ => hydrate_eq_ok_iff.2 (.inl ⟨h, rfl⟩)
  coherent := by
    rintro - (hspec | htext)
    · simp [isHydrated, hspec] at h
    · simp [isHydrated, htext] at h

theorem hydratesTo_of_eq_ok (h : r.hydrate codec resolve = .ok r') : HydratesTo codec r r' := by
  rcases hydrate_eq_ok_iff.1 h with ⟨hhydrated, rfl⟩ | ⟨hnot, c, text, hcomponent, htext, rfl⟩
  · exact hydratesTo_self hhydrated
  · exact {
      known := ⟨rfl, rfl, rfl⟩
      url := rfl
      name := by
        intro name hname
        rw [hname]
        rfl
      spec := by
        intro d hd
        rcases componentToHydrate_eq_ok_iff.1 hcomponent with hspec | ⟨hspec, -⟩
        · rw [← hd, hspec]
        · rw [hspec] at hd
          cases hd
      text := by
        intro text' htext'
        rcases htext with htext | ⟨htext, -⟩
        · rw [← htext', htext]
        · rw [htext] at htext'
          cases htext'
      digest := fun _ => rfl
      settled := by
        intro anyCodec anyResolve
        refine hydrate_of_known rfl rfl rfl fun hname => ?_
        rw [Option.orElse_eq_orElse, Option.orElse_eq_or, Option.or_eq_none_iff] at hname
        exact hname.2
      coherent := by
        rintro hcodec hlacks _ _ ⟨⟩ ⟨⟩ hlimits
        exact deserialize_of_hydrate hcodec hlacks hcomponent htext hlimits }

/-- Hydration keeps what is known and adds what follows from it; what it gives stays the same if it
is hydrated again, by whatever means. It fails only where something is missing that can neither be
read nor written nor resolved. -/
theorem hydrate_completes_or_fails (codec : Codec) (resolve : Resolver) (r : Reference) :
    (∀ r', r.hydrate codec resolve = .ok r' → HydratesTo codec r r') ∧
    ∀ e, r.hydrate codec resolve = .error e ↔
      ¬ r.isHydrated ∧ r.FailsToHydrate codec resolve e := by
  refine ⟨fun r' => hydratesTo_of_eq_ok, fun e => ?_⟩
  rw [hydrate_eq_error_iff]
  exact ⟨fun h => ⟨h.not_isHydrated, h⟩, fun h => h.2⟩

end Reference

end TaskGraph
