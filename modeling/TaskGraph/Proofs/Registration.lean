import Mathlib.Data.Finset.Card
import TaskGraph.Proofs.Codec.Canonical

/-!
# What a catalog keeps

A catalog is filled by calls that register components under their digests, and some of them under
URLs. Under a digest and under a URL it has what the last call put there, except that the component
has been numbered. That every digest still leads to the component it was given out for, although
later calls may overwrite its entry, rests on the canonical text: a component with the same digest
says the same, unless two of the registered texts collide.
-/
namespace TaskGraph

/-- A call that registers a component, and also under a URL if there is one. -/
structure Registration where
  spec : Component
  url : Option String := none

namespace Registration

/-- The catalog after the call, and the digest that the call returns. -/
def perform (r : Registration) (k : Catalog) : Catalog × String :=
  match r.url with
  | none => k.register r.spec
  | some url => k.registerUrl url r.spec

/-- The component of the last of the calls that have the property. -/
def latest? (calls : List Registration) (p : Registration → Bool) : Option Component :=
  (calls.reverse.find? p).map (·.spec)

/-- The component registered last under the digest. -/
def underDigest? (calls : List Registration) (digest : String) : Option Component :=
  latest? calls (·.spec.digest == digest)

/-- The component registered last under the URL. -/
def underUrl? (calls : List Registration) (url : String) : Option Component :=
  latest? calls (·.url == some url)

/-- No two of the registered components have different texts with one digest. -/
def CollisionFree (calls : List Registration) : Prop :=
  ∀ r ∈ calls, ∀ s ∈ calls, ¬ DigestsCollide r.spec.text s.spec.text

end Registration

/-- The catalog after the calls, and the digests that they return. -/
def Catalog.registerAll (k : Catalog) : List Registration → Catalog × List String
  | [] => (k, [])
  | r :: rest =>
    let (k, digest) := r.perform k
    let (k, digests) := k.registerAll rest
    (k, digest :: digests)

namespace Registration

variable {calls : List Registration} {r : Registration} {p : Registration → Bool} {c : Component}

theorem latest?_concat (calls : List Registration) (r : Registration) (p : Registration → Bool) :
    latest? (calls ++ [r]) p = if p r then some r.spec else latest? calls p := by
  rw [latest?, latest?, List.reverse_concat, List.find?_cons]
  cases p r <;> rfl

theorem underDigest?_concat (calls : List Registration) (r : Registration) (digest : String) :
    underDigest? (calls ++ [r]) digest =
      if digest = r.spec.digest then some r.spec else underDigest? calls digest := by
  rw [underDigest?, latest?_concat]
  simp only [beq_iff_eq, eq_comm (a := digest)]
  rfl

theorem underUrl?_concat (calls : List Registration) (r : Registration) (url : String) :
    underUrl? (calls ++ [r]) url =
      if r.url = some url then some r.spec else underUrl? calls url := by
  simp only [underUrl?, latest?_concat, beq_iff_eq]

theorem exists_of_latest? (h : latest? calls p = some c) : ∃ r ∈ calls, p r ∧ r.spec = c := by
  obtain ⟨r, hr, hspec⟩ := Option.map_eq_some_iff.1 h
  exact ⟨r, List.mem_reverse.1 (List.mem_of_find?_eq_some hr), List.find?_some hr, hspec⟩

theorem exists_latest? (hr : r ∈ calls) (hp : p r) : ∃ c, latest? calls p = some c := by
  have hsome : (calls.reverse.find? p).isSome :=
    List.find?_isSome.2 ⟨r, List.mem_reverse.2 hr, hp⟩
  obtain ⟨s, hs⟩ := Option.isSome_iff_exists.1 hsome
  exact ⟨s.spec, by rw [latest?, hs, Option.map_some]⟩

theorem exists_of_underDigest? {digest : String} (h : underDigest? calls digest = some c) :
    ∃ r ∈ calls, r.spec.digest = digest ∧ r.spec = c := by
  obtain ⟨r, hr, hdigest, hspec⟩ := exists_of_latest? h
  exact ⟨r, hr, beq_iff_eq.1 hdigest, hspec⟩

/-- What is registered under the digest of a registered component says the same. -/
theorem exists_underDigest? (hreal : ∀ r ∈ calls, r.spec.isRealFree) (hfree : CollisionFree calls)
    (hr : r ∈ calls) :
    ∃ c, underDigest? calls r.spec.digest = some c ∧ c.anonymous = r.spec.anonymous := by
  obtain ⟨c, hc⟩ : ∃ c, underDigest? calls r.spec.digest = some c :=
    exists_latest? hr (beq_self_eq_true _)
  obtain ⟨s, hs, hdigest, rfl⟩ := exists_of_underDigest? hc
  have hsame := Component.anonymous_eq_or_collide (hreal s hs) (hreal r hr) hdigest
  exact ⟨s.spec, hc, hsame.resolve_right (hfree s hs r hr)⟩

section

variable (r : Registration) (k : Catalog)

theorem perform_snd : (r.perform k).2 = r.spec.digest := by
  unfold perform
  split <;> rfl

theorem byDigest_perform :
    (r.perform k).1.byDigest = k.byDigest.insert r.spec.digest (k.enroll r.spec).2 := by
  unfold perform
  split <;> rfl

theorem get?_byUrl_perform (url : String) : (r.perform k).1.byUrl.get? url =
    if r.url = some url then some (k.enroll r.spec).2 else k.byUrl.get? url := by
  unfold perform
  split
  · rename_i hurl
    rw [hurl, if_neg nofun]
    rfl
  · rename_i u hurl
    have hinsert := NameMap.get?_insert k.byUrl u (k.enroll r.spec).2 url
    rw [hurl]
    simp only [Option.some.injEq, eq_comm (a := u)]
    exact hinsert

theorem anonymous_enroll : (k.enroll r.spec).2.val.anonymous = r.spec.anonymous :=
  r.spec.anonymous_numbered _

end

end Registration

open Registration

namespace Catalog

variable {k : Catalog} {calls : List Registration}

/-- Under every digest and every URL, the catalog has what the last call has put there. -/
structure Records (k : Catalog) (calls : List Registration) : Prop where
  byDigest : ∀ digest, (k.byDigest.get? digest).map (·.val.anonymous) =
    (underDigest? calls digest).map (·.anonymous)
  byUrl : ∀ url, (k.byUrl.get? url).map (·.val.anonymous) =
    (underUrl? calls url).map (·.anonymous)

theorem records_empty : empty.Records [] := ⟨fun _ => rfl, fun _ => rfl⟩

theorem Records.perform (h : k.Records calls) (r : Registration) :
    (r.perform k).1.Records (calls ++ [r]) := by
  refine ⟨fun digest => ?_, fun url => ?_⟩
  · rw [byDigest_perform, NameMap.get?_insert, underDigest?_concat]
    split
    · exact congrArg some (r.anonymous_enroll k)
    · exact h.byDigest digest
  · rw [get?_byUrl_perform, underUrl?_concat]
    split
    · exact congrArg some (r.anonymous_enroll k)
    · exact h.byUrl url

theorem Records.registerAll (h : k.Records calls) (later : List Registration) :
    (k.registerAll later).1.Records (calls ++ later) := by
  induction later generalizing k calls with
  | nil => rwa [List.append_nil]
  | cons r later ih =>
    have hlater := ih (h.perform r)
    rwa [List.append_assoc] at hlater

theorem records_registerAll (calls : List Registration) :
    (empty.registerAll calls).1.Records calls :=
  records_empty.registerAll calls

theorem registerAll_snd (k : Catalog) (calls : List Registration) :
    (k.registerAll calls).2 = calls.map (·.spec.digest) := by
  induction calls generalizing k with
  | nil => rfl
  | cons r calls ih => rw [registerAll, List.map_cons, ← r.perform_snd k, ← ih (r.perform k).1]

theorem Records.digest_eq (h : k.Records calls) {digest : String} {e : Registered}
    (he : k.byDigest.get? digest = some e) : e.val.digest = digest := by
  have hrecord := h.byDigest digest
  rw [he, Option.map_some] at hrecord
  obtain ⟨c, hc, hanonymous⟩ := Option.map_eq_some_iff.1 hrecord.symm
  obtain ⟨r, -, rfl, rfl⟩ := exists_of_underDigest? hc
  have htext : e.val.text = r.spec.text := by
    rw [← Component.text_anonymous, ← hanonymous, Component.text_anonymous]
  rw [Component.digest, htext, Component.digest]

theorem Records.resolve (h : k.Records calls) (r : Reference) :
    (k.resolve r).map (·.anonymous) =
      (r.spec <|> r.digest.bind (underDigest? calls) <|> r.url.bind (underUrl? calls) <|>
        r.text.bind Component.ofText?).map (·.anonymous) := by
  have hdigest : (r.digest.bind k.byDigest.get?).map (·.val.anonymous) =
      (r.digest.bind (underDigest? calls)).map (·.anonymous) := by
    cases r.digest with
    | none => rfl
    | some digest => exact h.byDigest digest
  have hurl : (r.url.bind k.byUrl.get?).map (·.val.anonymous) =
      (r.url.bind (underUrl? calls)).map (·.anonymous) := by
    cases r.url with
    | none => rfl
    | some url => exact h.byUrl url
  simp only [Catalog.resolve, Option.orElse_eq_orElse, Option.orElse_eq_or, Option.map_or,
    Option.map_map, Function.comp_def, hdigest, hurl]

theorem Records.resolve_digest (h : k.Records calls) (hreal : ∀ r ∈ calls, r.spec.isRealFree)
    (hfree : CollisionFree calls) {r : Registration} (hr : r ∈ calls) :
    ∃ c, k.resolve { digest := some r.spec.digest } = some c ∧
      c.anonymous = r.spec.anonymous := by
  obtain ⟨c, hc, hsame⟩ := exists_underDigest? hreal hfree hr
  have hresolve := h.resolve { digest := some r.spec.digest }
  simp only [Option.bind_some, Option.bind_none, hc, Option.orElse_eq_orElse, Option.orElse_eq_or,
    Option.none_or, Option.or_none, Option.map_some] at hresolve
  obtain ⟨d, hd, hanonymous⟩ := Option.map_eq_some_iff.1 hresolve
  exact ⟨d, hd, hanonymous.trans hsame⟩

theorem Records.resolve_url (h : k.Records calls) (url : String) :
    (k.resolve { url := some url }).map (·.anonymous) =
      (underUrl? calls url).map (·.anonymous) := by
  rw [h.resolve]
  simp only [Option.bind_some, Option.bind_none, Option.orElse_eq_orElse, Option.orElse_eq_or,
    Option.none_or, Option.or_none]

theorem Records.mem_keys_iff (h : k.Records calls) {digest : String} :
    digest ∈ k.byDigest.keys ↔ digest ∈ calls.map (·.spec.digest) := by
  rw [NameMap.From.mem_keys_iff, List.mem_map, ← Option.isSome_iff_exists,
    ← Option.isSome_map (f := (·.val.anonymous)), h.byDigest, Option.isSome_map]
  constructor
  · intro hsome
    obtain ⟨c, hc⟩ := Option.isSome_iff_exists.1 hsome
    obtain ⟨r, hr, hdigest, -⟩ := exists_of_underDigest? hc
    exact ⟨r, hr, hdigest⟩
  · rintro ⟨r, hr, rfl⟩
    exact Option.isSome_iff_exists.2 (exists_latest? hr (beq_self_eq_true _))

theorem Records.size_eq (h : k.Records calls) :
    k.size = (calls.map (·.spec.digest)).toFinset.card := by
  have hkeys : k.byDigest.keys.toFinset = (calls.map (·.spec.digest)).toFinset := by
    ext digest
    rw [List.mem_toFinset, List.mem_toFinset, h.mem_keys_iff]
  rw [← hkeys, List.toFinset_card_of_nodup k.byDigest.keys_nodup, ← NameMap.From.size_eq_length]
  rfl

/-- What holds of a catalog after the calls, for which it returned the digests. -/
structure Keeps (k : Catalog) (calls : List Registration) (digests : List String) : Prop where
  returned : digests = calls.map (·.spec.digest)
  /-- Every entry stands under the digest of its canonical text. -/
  keyed : ∀ digest e, k.byDigest.get? digest = some e → TaskGraph.digest e.val.text = digest
  /-- The digest alone leads to what the call registered that returned it. -/
  retained : CollisionFree calls → ∀ e ∈ calls.zip digests, ∃ c,
    k.resolve { digest := some e.2 } = some c ∧ c.anonymous = e.1.spec.anonymous
  /-- A URL leads to what was registered last under it. -/
  published : ∀ url, (k.resolve { url := some url }).map (·.anonymous) =
    (underUrl? calls url).map (·.anonymous)
  /-- A reference denotes the component that it holds, or else what was registered last under its
  digest, or else under its URL, or else what its text is read as. -/
  resolved : ∀ r, (k.resolve r).map (·.anonymous) =
    (r.spec <|> r.digest.bind (underDigest? calls) <|> r.url.bind (underUrl? calls) <|>
      r.text.bind Component.ofText?).map (·.anonymous)
  /-- There is one entry for every digest that was given out. -/
  counted : k.size = digests.toFinset.card

/-- A catalog that was filled by calls has kept what they registered, and never becomes smaller. -/
theorem keeps_registerAll (calls : List Registration) (hreal : ∀ r ∈ calls, r.spec.isRealFree) :
    (empty.registerAll calls).1.Keeps calls (empty.registerAll calls).2 ∧
    ∀ later, (empty.registerAll calls).1.size ≤ (empty.registerAll (calls ++ later)).1.size := by
  have hrecords := records_registerAll calls
  have hreturned := registerAll_snd empty calls
  refine ⟨⟨hreturned, fun _ _ => hrecords.digest_eq, fun hfree e he => ?_, hrecords.resolve_url,
    hrecords.resolve, by rw [hreturned, hrecords.size_eq]⟩, fun later => ?_⟩
  · rw [hreturned, ← List.map_prod_left_eq_zip] at he
    obtain ⟨r, hr, rfl⟩ := List.mem_map.1 he
    exact hrecords.resolve_digest hreal hfree hr
  · rw [hrecords.size_eq, (records_registerAll (calls ++ later)).size_eq, List.map_append]
    refine Finset.card_le_card fun digest hdigest => ?_
    exact List.mem_toFinset.2 (List.mem_append_left _ (List.mem_toFinset.1 hdigest))

end Catalog

def sayComponent : Component := { name := some "say" }

def hearComponent : Component := { name := some "hear" }

/-- Two components registered twice each, and a URL that moves from one to the other. -/
def movingCalls : List Registration := [
  { spec := sayComponent, url := some "hub/voice" },
  { spec := hearComponent },
  { spec := sayComponent },
  { spec := hearComponent, url := some "hub/voice" }]

theorem digest_say_ne_hear : sayComponent.digest ≠ hearComponent.digest := by decide +kernel

theorem collisionFree_movingCalls : CollisionFree movingCalls := by
  have hspec : ∀ r ∈ movingCalls, r.spec = sayComponent ∨ r.spec = hearComponent := by
    simp [movingCalls]
  rintro r hr s hs ⟨htext, hsame⟩
  rcases hspec r hr with hr | hr <;> rcases hspec s hs with hs | hs
  · exact htext (by rw [hr, hs])
  · rw [hr, hs] at hsame
    exact digest_say_ne_hear hsame
  · rw [hr, hs] at hsame
    exact digest_say_ne_hear hsame.symm
  · exact htext (by rw [hr, hs])

theorem keeps_registerAll_moving :
    (∀ r ∈ movingCalls, r.spec.isRealFree) ∧
    (Catalog.empty.registerAll movingCalls).1.size = 2 ∧
    (∃ c, (Catalog.empty.registerAll movingCalls).1.resolve { url := some "hub/voice" } = some c ∧
      c.anonymous = hearComponent) ∧
    ∃ c, (Catalog.empty.registerAll movingCalls).1.resolve
      { digest := some sayComponent.digest } = some c ∧ c.anonymous = sayComponent := by
  have hreal : ∀ r ∈ movingCalls, r.spec.isRealFree := by decide
  obtain ⟨hkeeps, -⟩ := Catalog.keeps_registerAll movingCalls hreal
  have hdigests : (movingCalls.map (·.spec.digest)).toFinset =
      {sayComponent.digest, hearComponent.digest} := by
    ext digest
    simp [movingCalls]
  have hurl := hkeeps.published "hub/voice"
  have hretained := hkeeps.retained collisionFree_movingCalls
  rw [hkeeps.returned] at hretained
  refine ⟨hreal, ?_, Option.map_eq_some_iff.1 hurl, ?_⟩
  · rw [hkeeps.counted, hkeeps.returned, hdigests, Finset.card_pair digest_say_ne_hear]
  · exact hretained ({ spec := sayComponent }, sayComponent.digest) (by simp [movingCalls])

end TaskGraph
