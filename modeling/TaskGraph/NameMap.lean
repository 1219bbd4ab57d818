/-!
# Maps keyed by names

A `NameMap` lists its entries in ascending order of their names. The order is part of the type:
every entry carries the proof that its name lies above the one before it. Two maps that answer
every look-up alike are therefore equal, and a type that nests maps of itself needs no
well-formedness predicate.
-/
namespace TaskGraph

/-- A name lies above a bound; every name lies above the missing bound. -/
def AboveBound : Option String → String → Prop
  | none, _ => True
  | some j, k => j < k

theorem aboveBound_none (k : String) : AboveBound none k := trivial

/-- The entries of a map whose names all lie above `lo`, in ascending order. -/
inductive NameMap.From (α : Type u) : Option String → Type u
  | nil {lo : Option String} : From α lo
  | cons {lo : Option String} (k : String) (v : α) (h : AboveBound lo k)
      (rest : From α (some k)) : From α lo

/-- A finite map from names to values. -/
abbrev NameMap (α : Type u) := NameMap.From α none

/-- A finite set of names. -/
abbrev NameSet := NameMap Unit

namespace NameMap.From

variable {α : Type u} {β : Type v} {lo : Option String}

instance : EmptyCollection (From α lo) := ⟨.nil⟩
instance : Inhabited (From α lo) := ⟨.nil⟩

/-- The same entries under a lower bound. -/
def lower {k : String} (h : AboveBound lo k) : From α (some k) → From α lo
  | .nil => .nil
  | .cons j v hj rest => .cons j v (by cases lo with
      | none => trivial
      | some i => exact String.lt_trans h hj) rest

def toList : {lo : Option String} → From α lo → List (String × α)
  | _, .nil => []
  | _, .cons k v _ rest => (k, v) :: rest.toList

def keys : {lo : Option String} → From α lo → List String
  | _, .nil => []
  | _, .cons k _ _ rest => k :: rest.keys

def values : {lo : Option String} → From α lo → List α
  | _, .nil => []
  | _, .cons _ v _ rest => v :: rest.values

def size : {lo : Option String} → From α lo → Nat
  | _, .nil => 0
  | _, .cons _ _ _ rest => rest.size + 1

def isEmpty : From α lo → Bool
  | .nil => true
  | .cons .. => false

def get? : {lo : Option String} → From α lo → String → Option α
  | _, .nil, _ => none
  | _, .cons k v _ rest, j => if j = k then some v else rest.get? j

def contains (m : From α lo) (k : String) : Bool := (m.get? k).isSome

/-- Binds `k` to `v`, replacing the value that `k` had. -/
def insertAbove (k : String) (v : α) :
    {lo : Option String} → AboveBound lo k → From α lo → From α lo
  | _, h, .nil => .cons k v h .nil
  | _, h, .cons j w hj rest =>
    if hkj : k < j then .cons k v h (.cons j w hkj rest)
    else if heq : k = j then .cons k v h (heq ▸ rest)
    else .cons j w hj (insertAbove k v (by simp only [AboveBound]; grind) rest)

/-- Drops the entries on which `f` gives nothing and replaces the values of the others. -/
def filterMap (f : String → α → Option β) : {lo : Option String} → From α lo → From β lo
  | _, .nil => .nil
  | _, .cons k v h rest =>
    match f k v with
    | some w => .cons k w h (rest.filterMap f)
    | none => (rest.filterMap f).lower h

def map (f : String → α → β) : {lo : Option String} → From α lo → From β lo
  | _, .nil => .nil
  | _, .cons k v h rest => .cons k (f k v) h (rest.map f)

def filter (p : String → α → Bool) (m : From α lo) : From α lo :=
  m.filterMap fun k v => if p k v then some v else none

def erase (m : From α lo) (k : String) : From α lo :=
  m.filter fun j _ => j != k

theorem keys_eq_map (m : From α lo) : m.keys = m.toList.map (·.1) := by
  induction m with
  | nil => rfl
  | cons _ _ _ _ ih => simp [keys, toList, ih]

theorem values_eq_map (m : From α lo) : m.values = m.toList.map (·.2) := by
  induction m with
  | nil => rfl
  | cons _ _ _ _ ih => simp [values, toList, ih]

@[simp] theorem toList_lower {k : String} (h : AboveBound lo k) :
    (m : From α (some k)) → (m.lower h).toList = m.toList
  | .nil => rfl
  | .cons .. => rfl

@[simp] theorem get?_lower {k : String} (h : AboveBound lo k) (m : From α (some k)) (j : String) :
    (m.lower h).get? j = m.get? j := by
  cases m <;> rfl

theorem above_of_get? {m : From α lo} {k : String} {v : α} (h : m.get? k = some v) :
    AboveBound lo k := by
  induction m with
  | nil => simp [get?] at h
  | @cons lo j w hj rest ih =>
    cases lo with
    | none => trivial
    | some i =>
      simp only [get?] at h
      split at h
      · simp_all
      · have := ih h
        simp only [AboveBound] at *
        grind

theorem get?_insertAbove (k : String) (v : α) (h : AboveBound lo k) (m : From α lo) (i : String) :
    (m.insertAbove k v h).get? i = if i = k then some v else m.get? i := by
  induction m with
  | nil => simp [insertAbove, get?]
  | cons j w hj rest ih =>
    simp only [insertAbove]
    split
    · simp [get?]
    · split
      · rename_i heq
        subst heq
        simp [get?]
        grind
      · simp only [get?, ih]
        grind

theorem get?_filterMap (f : String → α → Option β) (m : From α lo) (i : String) :
    (m.filterMap f).get? i = (m.get? i).bind (f i) := by
  induction m with
  | nil => rfl
  | @cons lo j w hj rest ih =>
    have hrest : rest.get? j = none := by
      cases hg : rest.get? j with
      | none => rfl
      | some v => exact absurd (above_of_get? hg) (String.lt_irrefl j)
    simp only [filterMap]
    split <;> simp only [get?, get?_lower, ih] <;> by_cases hij : i = j <;> simp_all

@[simp] theorem get?_map (f : String → α → β) (m : From α lo) (i : String) :
    (m.map f).get? i = (m.get? i).map (f i) := by
  induction m with
  | nil => rfl
  | cons j w hj rest ih =>
    simp only [map, get?, ih]
    by_cases hij : i = j <;> simp_all

theorem get?_filter (p : String → α → Bool) (m : From α lo) (i : String) :
    (m.filter p).get? i = (m.get? i).filter (p i) := by
  rw [filter, get?_filterMap]
  cases m.get? i <;> simp [Option.filter]

theorem get?_erase (m : From α lo) (k i : String) :
    (m.erase k).get? i = if i = k then none else m.get? i := by
  rw [erase, get?_filter]
  by_cases h : i = k <;> cases hg : m.get? i <;> simp [h, Option.filter]

theorem mem_toList_iff {m : From α lo} {k : String} {v : α} :
    (k, v) ∈ m.toList ↔ m.get? k = some v := by
  induction m with
  | nil => simp [toList, get?]
  | @cons lo j w hj rest ih =>
    have hrest : rest.get? j = none := by
      cases hg : rest.get? j with
      | none => rfl
      | some v => exact absurd (above_of_get? hg) (String.lt_irrefl j)
    simp only [toList, List.mem_cons, Prod.mk.injEq, get?, ih]
    by_cases hkj : k = j
    · subst hkj
      simp [hrest, eq_comm]
    · simp [hkj]

/-- Maps that answer every look-up alike are equal. -/
@[ext] theorem ext_get? {m n : From α lo} (h : ∀ k, m.get? k = n.get? k) : m = n := by
  induction m with
  | nil =>
    cases n with
    | nil => rfl
    | cons k v hk rest => have := h k; simp [get?] at this
  | @cons lo k v hk rest ih =>
    cases n with
    | nil => have := h k; simp [get?] at this
    | cons k' v' hk' rest' =>
      have hkk : k = k' := by
        have h1 := h k
        have h2 := h k'
        simp only [get?, if_true] at h1 h2
        by_cases hne : k = k'
        · exact hne
        · rw [if_neg hne] at h1
          rw [if_neg (Ne.symm hne)] at h2
          have a1 := above_of_get? h1.symm
          have a2 := above_of_get? h2
          simp only [AboveBound] at a1 a2
          exact absurd (String.lt_trans a1 a2) (String.lt_irrefl _)
      subst hkk
      have hv : v = v' := by have := h k; simpa [get?] using this
      subst hv
      have hr : rest = rest' := by
        apply ih
        intro i
        have hi := h i
        simp only [get?] at hi
        by_cases hik : i = k
        · subst hik
          have e1 : rest.get? i = none := by
            cases hg : rest.get? i with
            | none => rfl
            | some v => exact absurd (above_of_get? hg) (String.lt_irrefl i)
          have e2 : rest'.get? i = none := by
            cases hg : rest'.get? i with
            | none => rfl
            | some v => exact absurd (above_of_get? hg) (String.lt_irrefl i)
          rw [e1, e2]
        · simpa [hik] using hi
      subst hr
      rfl

end NameMap.From

namespace NameMap

variable {α : Type u} {β : Type v}

/-- Binds `k` to `v`, replacing the value that `k` had. -/
def insert (m : NameMap α) (k : String) (v : α) : NameMap α :=
  From.insertAbove k v (aboveBound_none k) m

/-- Among entries of one name the last wins. -/
def ofList (entries : List (String × α)) : NameMap α :=
  entries.foldl (fun m e => m.insert e.1 e.2) .nil

@[simp] theorem get?_insert (m : NameMap α) (k : String) (v : α) (i : String) :
    (m.insert k v).get? i = if i = k then some v else m.get? i :=
  From.get?_insertAbove k v (aboveBound_none k) m i

/-- Replaces the value of `k`, if it has one. -/
def modify (m : NameMap α) (k : String) (f : α → α) : NameMap α :=
  m.map fun j v => if j = k then f v else v

end NameMap

namespace NameSet

def ofList (names : List String) : NameSet :=
  NameMap.ofList (names.map (·, ()))

def insert (s : NameSet) (name : String) : NameSet := NameMap.insert s name ()

end NameSet

end TaskGraph
