import TaskGraph.Json.Decoder

/-!
# How much a text can say

The extent of a document counts its values and the characters of its strings. A document is never
larger than the text that it is read from, and the fields of a record share the extent of the record
between them.
-/
namespace TaskGraph

/-- The sum of some sizes. -/
def total : List Nat → Nat
  | [] => 0
  | n :: ns => n + total ns

@[simp] theorem total_nil : total [] = 0 := rfl

@[simp] theorem total_cons (n : Nat) (ns : List Nat) : total (n :: ns) = n + total ns := rfl

@[simp] theorem total_append (ms ns : List Nat) : total (ms ++ ns) = total ms + total ns := by
  induction ms with
  | nil => simp
  | cons m ms ih => simp [ih, Nat.add_assoc]

theorem le_total_of_mem {n : Nat} {ns : List Nat} (h : n ∈ ns) : n ≤ total ns := by
  induction ns with
  | nil => cases h
  | cons m ns ih =>
    rcases List.mem_cons.1 h with rfl | h
    · exact Nat.le_add_right _ _
    · exact Nat.le_trans (ih h) (Nat.le_add_left _ _)

@[simp] theorem total_reverse (ns : List Nat) : total ns.reverse = total ns := by
  induction ns with
  | nil => rfl
  | cons n ns ih => simp [ih, Nat.add_comm]

namespace Json

mutual

/-- One for each value of the document, and one for each character of its strings. -/
def Document.extent : Document → Nat
  | .null => 1
  | .bool _ => 1
  | .number _ => 1
  | .string s => 1 + (s.getD "").length
  | .array items => 1 + extentOfItems items
  | .object members => 1 + extentOfMembers members

def extentOfItems : List Document → Nat
  | [] => 0
  | d :: ds => d.extent + extentOfItems ds

def extentOfMembers : List (Literal × Document) → Nat
  | [] => 0
  | (_, d) :: ms => d.extent + extentOfMembers ms

end

theorem Document.extent_pos (d : Document) : 0 < d.extent := by
  cases d <;> simp only [Document.extent] <;> omega

theorem extentOfItems_eq (items : List Document) :
    extentOfItems items = total (items.map Document.extent) := by
  induction items with
  | nil => rfl
  | cons d ds ih => simp [extentOfItems, ih]

theorem extentOfMembers_eq (members : List (Literal × Document)) :
    extentOfMembers members = total (members.map (·.2.extent)) := by
  induction members with
  | nil => rfl
  | cons m ms ih => simp [extentOfMembers, ih]

def Token.extent : Token → Nat
  | .string s => 1 + (s.getD "").length
  | _ => 1

theorem length_charsOfUnits {done cs : List Char} {units : List Nat}
    (h : charsOfUnits done units = some cs) : cs.length ≤ done.length + units.length := by
  fun_induction charsOfUnits done units with
  | case1 | case3 => simp_all [← Option.some.inj h]
  | case2 | case5 | case6 => simp at h
  | case4 done u v rest hu hv ih =>
    have := ih h
    simp at *
    omega
  | case7 done u v rest hu hl ih =>
    have := ih h
    simp at *
    omega

theorem length_literalOfUnits (units : List Nat) :
    ((literalOfUnits units).getD "").length ≤ units.length := by
  unfold literalOfUnits
  cases h : charsOfUnits [] units with
  | none => simp
  | some cs => simpa using length_charsOfUnits h

theorem length_units_scanString {done units : List Nat} {cs rest : List Char}
    (h : scanString done cs = some (units, rest)) :
    units.length + rest.length < done.length + cs.length := by
  fun_induction scanString done cs with
  | case1 | case4 | case6 | case7 => simp at h
  | case2 done rest =>
    obtain ⟨rfl, rfl⟩ : done.reverse = units ∧ rest = _ := by simpa using h
    simp
  | case3 done a b c d rest u hu ih =>
    have := ih h
    simp at *
    omega
  | case5 done e rest hu c hc ih =>
    have := ih h
    simp at *
    omega
  | case8 done c rest hq hu he hc ih =>
    have := ih h
    simp at *
    omega

theorem scanString_of_scanToken {c : Char} {cs rest : List Char} {s : Literal}
    (h : scanToken c cs = some (.string s, rest)) :
    ∃ units, scanString [] cs = some (units, rest) ∧ literalOfUnits units = s := by
  unfold scanToken at h
  split at h <;> simp_all

theorem extent_scanToken {c : Char} {cs rest : List Char} {t : Token}
    (h : scanToken c cs = some (t, rest)) : t.extent + rest.length ≤ cs.length + 1 := by
  cases t with
  | string s =>
    obtain ⟨units, hs, rfl⟩ := scanString_of_scanToken h
    have := length_units_scanString hs
    have := length_literalOfUnits units
    simp only [Token.extent, List.length_nil] at *
    omega
  | _ =>
    have := length_scanToken h
    simp only [Token.extent]
    omega

theorem extent_lexFrom {done ts : List Token} {cs : List Char} (h : lexFrom done cs = some ts) :
    total (ts.map Token.extent) ≤ total (done.map Token.extent) + cs.length := by
  fun_induction lexFrom done cs with
  | case1 done =>
    obtain rfl : done.reverse = ts := by simpa using h
    simp
  | case2 done c rest hc ih => have := ih h; simp; omega
  | case3 => simp at h
  | case4 done c rest hc t rest' ht ih =>
    have := ih h
    have := extent_scanToken ht
    simp at *
    omega

theorem extent_lex {cs : List Char} {ts : List Token} (h : lex cs = some ts) :
    total (ts.map Token.extent) ≤ cs.length := by
  simpa using extent_lexFrom h

def Opened.extent : Opened → Nat
  | .array items => 1 + total (items.map Document.extent)
  | .object members _ => 1 + total (members.map (·.2.extent))

mutual

theorem extent_readValue {outer : List Opened} {d : Document} {ts : List Token}
    (h : readValue outer ts = some d) :
    d.extent ≤ total (outer.map Opened.extent) + total (ts.map Token.extent) := by
  unfold readValue at h
  split at h
  case h_9 => simp at h
  case h_6 | h_8 =>
    have := extent_readValue h
    simp [Token.extent, Opened.extent] at *
    omega
  all_goals
    have := extent_readRest h
    simp [Token.extent, Document.extent, extentOfItems, extentOfMembers] at *
    omega
termination_by ts.length

theorem extent_readRest {v d : Document} {outer : List Opened} {ts : List Token}
    (h : readRest v outer ts = some d) :
    d.extent ≤ v.extent + total (outer.map Opened.extent) + total (ts.map Token.extent) := by
  unfold readRest at h
  split at h
  case h_1 => simp_all
  case h_6 => simp at h
  case h_2 | h_4 =>
    have := extent_readValue h
    simp [Token.extent, Opened.extent] at *
    omega
  all_goals
    have := extent_readRest h
    simp [Token.extent, Opened.extent, Document.extent, extentOfItems_eq, extentOfMembers_eq] at *
    omega
termination_by ts.length

end

/-- A document is no larger than the text that says it. -/
theorem Document.extent_le_of_read? {text : String} {d : Document}
    (h : Document.read? text = some d) : d.extent ≤ text.length := by
  obtain ⟨ts, hl, hr⟩ := Option.bind_eq_some_iff.1 h
  have := extent_lex hl
  have := extent_readValue hr
  simp only [String.length_toList, List.map_nil, total_nil] at *
  omega

theorem extent_le_of_mem_items {d : Document} {items : List Document} (h : d ∈ items) :
    d.extent ≤ extentOfItems items := by
  induction items with
  | nil => simp at h
  | cons x xs ih =>
    simp only [extentOfItems]
    rcases List.mem_cons.1 h with rfl | h
    · omega
    · have := ih h
      omega

theorem extent_le_of_mem_members {m : Literal × Document} {members : List (Literal × Document)}
    (h : m ∈ members) : m.2.extent ≤ extentOfMembers members := by
  induction members with
  | nil => simp at h
  | cons x xs ih =>
    simp only [extentOfMembers]
    rcases List.mem_cons.1 h with rfl | h
    · omega
    · have := ih h
      omega

theorem extent_add_le_of_getElem? {items : List Document} {i j : Nat} {d e : Document}
    (hij : i ≠ j) (hi : items[i]? = some d) (hj : items[j]? = some e) :
    d.extent + e.extent ≤ extentOfItems items := by
  induction items generalizing i j with
  | nil => simp at hi
  | cons x xs ih =>
    simp only [extentOfItems]
    match i, j with
    | 0, 0 => exact absurd rfl hij
    | 0, j + 1 =>
      obtain rfl : x = d := by simpa using hi
      have := extent_le_of_mem_items (List.mem_of_getElem? (List.getElem?_cons_succ.symm.trans hj))
      omega
    | i + 1, 0 =>
      obtain rfl : x = e := by simpa using hj
      have := extent_le_of_mem_items (List.mem_of_getElem? (List.getElem?_cons_succ.symm.trans hi))
      omega
    | i + 1, j + 1 =>
      have := ih (by omega) (List.getElem?_cons_succ.symm.trans hi)
        (List.getElem?_cons_succ.symm.trans hj)
      omega

theorem extent_add_le_of_find? {members : List (Literal × Document)} {j k : Literal}
    {m n : Literal × Document} (hjk : j ≠ k) (hm : members.find? (·.1 == j) = some m)
    (hn : members.find? (·.1 == k) = some n) :
    m.2.extent + n.2.extent ≤ extentOfMembers members := by
  induction members with
  | nil => simp at hm
  | cons x xs ih =>
    simp only [List.find?_cons] at hm hn
    simp only [extentOfMembers]
    by_cases hxj : x.1 = j
    · have hxk : x.1 ≠ k := fun h => hjk (hxj.symm.trans h)
      simp only [hxj, BEq.rfl, Option.some.injEq, beq_eq_false_iff_ne.2 hjk] at hm hn
      subst hm
      have := extent_le_of_mem_members (List.mem_of_find?_eq_some hn)
      omega
    · simp only [beq_eq_false_iff_ne.2 hxj] at hm
      by_cases hxk : x.1 = k
      · simp only [hxk, BEq.rfl, Option.some.injEq] at hn
        subst hn
        have := extent_le_of_mem_members (List.mem_of_find?_eq_some hm)
        omega
      · simp only [beq_eq_false_iff_ne.2 hxk] at hn
        have := ih hm hn
        omega

namespace Fields

variable {names : List String} {room : Nat} {doc d e : Document} {f : Fields} {name other : String}

theorem extent_lt (h : Fields.decoder names room doc = some f) (hd : f.find? name = some d) :
    d.extent < doc.extent := by
  unfold Fields.decoder at h
  split at h
  · dsimp only at h
    split at h
    · obtain rfl := Option.some.inj h
      obtain ⟨m, hm, rfl⟩ := Option.map_eq_some_iff.1 hd
      have := extent_le_of_mem_members (List.mem_of_find?_eq_some hm)
      simp only [Document.extent]
      omega
    · simp at h
  · split at h
    · obtain rfl := Option.some.inj h
      have := extent_le_of_mem_items (List.mem_of_getElem? hd)
      simp only [Document.extent]
      omega
    · simp at h
  · simp at h

theorem idxOf_ne_of_getElem? {items : List Document} (hne : name ≠ other)
    (hlen : items.length ≤ names.length) (hd : items[names.idxOf name]? = some d) :
    names.idxOf name ≠ names.idxOf other := by
  intro heq
  obtain ⟨hi, -⟩ := List.getElem?_eq_some_iff.1 hd
  have hj : names.idxOf other < names.length := heq ▸ Nat.lt_of_lt_of_le hi hlen
  apply hne
  rw [← List.getElem_idxOf (Nat.lt_of_lt_of_le hi hlen), ← List.getElem_idxOf hj]
  simp only [heq]

/-- Two fields of a record share the extent of the record. -/
theorem extent_add_lt (h : Fields.decoder names room doc = some f) (hne : name ≠ other)
    (hd : f.find? name = some d) (he : f.find? other = some e) :
    d.extent + e.extent < doc.extent := by
  unfold Fields.decoder at h
  split at h
  · dsimp only at h
    split at h
    · obtain rfl := Option.some.inj h
      obtain ⟨m, hm, rfl⟩ := Option.map_eq_some_iff.1 hd
      obtain ⟨n, hn, rfl⟩ := Option.map_eq_some_iff.1 he
      have := extent_add_le_of_find? (by simpa using hne) hm hn
      simp only [Document.extent]
      omega
    · simp at h
  · split at h
    · rename_i hlen
      obtain rfl := Option.some.inj h
      have := extent_add_le_of_getElem? (idxOf_ne_of_getElem? hne hlen hd) hd he
      simp only [Document.extent]
      omega
    · simp at h
  · simp at h

end Fields

end Json

end TaskGraph
