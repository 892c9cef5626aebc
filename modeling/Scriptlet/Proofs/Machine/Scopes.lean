import Scriptlet.Machine.Scope
import Scriptlet.Proofs.Bytecode.Emission

/-! Variables by slot and by name. -/
namespace Scriptlet

namespace Scope

variable {sc : Scope} {x y : String} {slot : Nat} {v : Value}

theorem named?_eq_bind (sc : Scope) (x : String) :
    sc.named? x = (sc.names.idxOf? x).bind sc.get? := rfl

/-- Where no name occurs twice, a slot holds what its name holds. -/
theorem named?_of_slot (hn : sc.names.toList.Nodup) (hx : sc.names[slot]? = some x) :
    sc.named? x = sc.get? slot := by
  rw [named?_eq_bind, idxOf?_of_getElem? hn hx, Option.bind_some]

theorem get?_set (h : slot < sc.vars.size) (i : Nat) :
    get? { sc with vars := sc.vars.setIfInBounds slot (some v) } i =
      if i = slot then some v else sc.get? i := by
  by_cases hi : i = slot
  · subst hi
    simp [get?, h]
  · simp [get?, hi, Ne.symm hi]

/-- Between `sc` and `sc'` no value has come in but `v`. -/
structure Adds (v : Value) (sc sc' : Scope) : Prop where
  names : sc'.names = sc.names
  parent : sc'.parent = sc.parent
  size : sc'.vars.size = sc.vars.size
  values : ∀ i u, sc'.get? i = some u → u = v ∨ sc.get? i = some u

/-- An assignment changes the variable with that slot and no other. -/
theorem named?_set (hn : sc.names.toList.Nodup) (hx : sc.names[slot]? = some x)
    (h : slot < sc.vars.size) :
    named? { sc with vars := sc.vars.setIfInBounds slot (some v) } y =
      if y = x then some v else sc.named? y := by
  have hi := idxOf?_of_getElem? hn hx
  rw [named?_eq_bind, named?_eq_bind]
  change (sc.names.idxOf? y).bind _ = _
  cases hy : sc.names.idxOf? y with
  | none =>
    have hne : y ≠ x := by
      rintro rfl
      rw [hi] at hy
      cases hy
    simp [hne]
  | some i =>
    rw [Option.bind_some, Option.bind_some, get?_set h]
    by_cases hxy : y = x
    · subst hxy
      rw [hi] at hy
      cases hy
      simp
    · have hne : i ≠ slot := by
        rintro rfl
        have hyi := getElem?_of_idxOf? hy
        rw [hx] at hyi
        exact hxy (Option.some.inj hyi).symm
      rw [if_neg hxy, if_neg hne]

theorem named?_eq_none (h : x ∉ sc.names.toList) : sc.named? x = none := by
  have hi : sc.names.idxOf? x = none := by simpa using h
  rw [named?_eq_bind, hi, Option.bind_none]

/-- A layout that continues the old one keeps the values where they are. -/
theorem named?_extend {rest : List String} {names : Array String} (hs : sc.vars.size = sc.names.size)
    (hn : names.toList = sc.names.toList ++ rest) (k : Nat) :
    named? { sc with names, vars := sc.vars ++ Array.replicate k none } x = sc.named? x := by
  rw [named?_eq_bind, named?_eq_bind]
  change (names.idxOf? x).bind _ = _
  rw [← Array.idxOf?_toList, ← Array.idxOf?_toList, hn]
  simp only [List.idxOf?, List.findIdx?_append]
  cases hx : List.findIdx? (fun y => y == x) sc.names.toList with
  | some i =>
    obtain ⟨hi, -⟩ := List.findIdx?_eq_some_iff_getElem.mp hx
    have hv : i < sc.vars.size := by simpa [hs] using hi
    simp [get?, Array.getElem?_append, hv]
  | none =>
    cases hy : List.findIdx? (fun y => y == x) rest with
    | none => simp
    | some j =>
      have hv : ¬ j + sc.names.toList.length < sc.vars.size := by simp [hs]
      simp only [Option.map_some, Option.none_or, Option.bind_some, get?, Array.getElem?_append,
        if_neg hv, Array.getElem?_replicate, Option.bind_none]
      split <;> rfl

/-- Adopting a layout keeps the values of the names in it, whichever way is taken. -/
theorem named?_adopt (hs : sc.vars.size = sc.names.size) (names : Array String) :
    (sc.adopt names).named? x = if x ∈ names.toList then sc.named? x else none := by
  unfold adopt
  split
  · next hp =>
    rw [← Array.isPrefixOf_toList, List.isPrefixOf_iff_prefix] at hp
    obtain ⟨rest, hr⟩ := hp
    rw [named?_extend hs hr.symm]
    by_cases hx : x ∈ names.toList
    · rw [if_pos hx]
    · rw [if_neg hx, named?_eq_none]
      rw [← hr] at hx
      exact fun h => hx (List.mem_append_left _ h)
  · rw [named?_eq_bind]
    change (names.idxOf? x).bind _ = _
    cases hi : names.idxOf? x with
    | none =>
      have hx : x ∉ names.toList := by simpa using hi
      rw [if_neg hx, Option.bind_none]
    | some i =>
      have hx := getElem?_of_idxOf? hi
      have hm : x ∈ names.toList := List.mem_of_getElem? (by simpa using hx)
      rw [if_pos hm]
      simp [get?, hx]

theorem size_adopt (hs : sc.vars.size = sc.names.size) (names : Array String) :
    (sc.adopt names).vars.size = names.size := by
  unfold adopt
  split
  · next hp =>
    rw [← Array.isPrefixOf_toList, List.isPrefixOf_iff_prefix] at hp
    have := hp.length_le
    simp only [Array.length_toList] at this
    simp only [Array.size_append, Array.size_replicate]
    omega
  · simp

theorem names_adopt (sc : Scope) (names : Array String) : (sc.adopt names).names = names := by
  unfold adopt
  split <;> rfl

theorem parent_adopt (sc : Scope) (names : Array String) : (sc.adopt names).parent = sc.parent := by
  unfold adopt
  split <;> rfl

/-- A change of layout brings in no value. -/
theorem exists_get?_of_adopt {sc : Scope} {names : Array String} {slot : Nat} {v : Value}
    (h : (sc.adopt names).get? slot = some v) : ∃ i, sc.get? i = some v := by
  unfold adopt at h
  split at h
  · simp only [get?, Array.getElem?_append, Array.getElem?_replicate] at h
    split at h
    · exact ⟨slot, h⟩
    · split at h <;> cases h
  · simp only [get?, Array.getElem?_map, Option.join_eq_some_iff, Option.map_eq_some_iff] at h
    obtain ⟨x, -, hx⟩ := h
    obtain ⟨i, -, hi⟩ := Option.bind_eq_some_iff.mp hx
    exact ⟨i, hi⟩

/-- The scope of a call: the first slots hold the arguments, the others are unassigned. -/
def ofCall (g : Closure) (args : List Value) : Scope :=
  let given := (List.range g.code.argCount).map fun i => some (args.getD i .undefined)
  ⟨g.code.names, given.toArray ++ Array.replicate (g.code.names.size - g.code.argCount) none,
    some g.scope⟩

theorem get?_ofCall (g : Closure) (args : List Value) (slot : Nat) :
    (ofCall g args).get? slot =
      if slot < g.code.argCount then some (args.getD slot .undefined) else none := by
  by_cases h : slot < g.code.argCount
  · simp [get?, ofCall, h, Array.getElem?_append]
  · simp only [get?, ofCall, Array.getElem?_append, List.size_toArray, List.length_map,
      List.length_range, if_neg h, Array.getElem?_replicate]
    split <;> rfl

/-- In a new call's scope just the parameters have values. -/
theorem named?_ofCall {g : Closure} {params : List String} (hp : params <+: g.code.names.toList)
    (hc : g.code.argCount = params.length) (args : List Value) (x : String) :
    (ofCall g args).named? x = (params.idxOf? x).map fun i => args.getD i .undefined := by
  obtain ⟨rest, hr⟩ := hp
  rw [named?_eq_bind]
  change (g.code.names.idxOf? x).bind _ = _
  rw [← Array.idxOf?_toList, ← hr]
  simp only [List.idxOf?, List.findIdx?_append]
  cases hx : List.findIdx? (fun y => y == x) params with
  | some i =>
    obtain ⟨hi, -⟩ := List.findIdx?_eq_some_iff_getElem.mp hx
    simp [get?_ofCall, hc, hi]
  | none =>
    cases hy : List.findIdx? (fun y => y == x) rest with
    | none => simp
    | some j => simp [get?_ofCall, hc]

theorem size_ofCall {g : Closure} (h : g.code.argCount ≤ g.code.names.size) (args : List Value) :
    (ofCall g args).vars.size = g.code.names.size := by
  simp [ofCall, h]

end Scope

namespace Store

variable {st : Store} {id slot : Nat} {sc : Scope} {x : String}

/-- Looking up a slot is looking up its name. -/
theorem slot?_eq_named? (h : st.scopes[id]? = some sc) (hn : sc.names.toList.Nodup)
    (hp : ∀ p, sc.parent = some p → p < id) (hx : sc.names[slot]? = some x) :
    st.slot? id slot = st.named? x id := by
  rw [named?, slot?]
  simp only [h, Scope.named?_of_slot hn hx, Option.bind_eq_bind, Option.bind_some]
  cases sc.get? slot with
  | some v => rfl
  | none =>
    cases hpar : sc.parent with
    | none => simp [hx]
    | some p => simp [hx, hp p hpar]

/-- A value that is found is that of a variable, in a scope that was come to from the first one by
way of enclosing scopes. -/
theorem exists_of_named? {R : Nat → Prop} {v : Value}
    (hR : ∀ id sc p, R id → st.scopes[id]? = some sc → sc.parent = some p → R p) (hid : R id)
    (h : st.named? x id = some v) :
    ∃ id' sc i, R id' ∧ st.scopes[id']? = some sc ∧ sc.get? i = some v := by
  induction id using Nat.strong_induction_on with
  | _ id ih =>
    rw [named?] at h
    cases hs : st.scopes[id]? with
    | none => simp [hs] at h
    | some sc =>
      simp only [hs] at h
      cases hx : sc.named? x with
      | some u =>
        simp only [hx, Option.some.injEq] at h
        subst h
        obtain ⟨i, -, hi⟩ := Option.bind_eq_some_iff.mp hx
        exact ⟨id, sc, i, hid, hs, hi⟩
      | none =>
        cases hp : sc.parent with
        | none => simp [hx, hp] at h
        | some p =>
          simp only [hx, hp] at h
          split at h
          · next hlt => exact ih p hlt (hR id sc p hid hs hp) h
          · cases h

theorem exists_of_slot? {R : Nat → Prop} {v : Value}
    (hR : ∀ id sc p, R id → st.scopes[id]? = some sc → sc.parent = some p → R p) (hid : R id)
    (h : st.slot? id slot = some v) :
    ∃ id' sc i, R id' ∧ st.scopes[id']? = some sc ∧ sc.get? i = some v := by
  unfold slot? at h
  cases hs : st.scopes[id]? with
  | none => simp [hs] at h
  | some sc =>
    simp only [hs, Option.bind_eq_bind, Option.bind_some] at h
    cases hg : sc.get? slot with
    | some u =>
      simp only [hg, Option.some.injEq] at h
      subst h
      exact ⟨id, sc, slot, hid, hs, hg⟩
    | none =>
      simp only [hg, Option.bind_eq_some_iff] at h
      obtain ⟨y, -, p, hp, h⟩ := h
      exact exists_of_named? hR (hR id sc p hid hs hp) h

/-- From `st` to `st'` no scope changes its names. -/
def Keeps (st st' : Store) : Prop :=
  ∀ (id : Nat) (sc : Scope), st.scopes[id]? = some sc →
    ∃ sc', st'.scopes[id]? = some sc' ∧ sc'.names = sc.names

namespace Keeps

variable {st₁ st₂ : Store}

theorem refl (st : Store) : st.Keeps st := fun _ sc h => ⟨sc, h, rfl⟩

theorem trans (h : st.Keeps st₁) (h' : st₁.Keeps st₂) : st.Keeps st₂ := by
  intro id sc hs
  obtain ⟨sc₁, hs₁, hn₁⟩ := h id sc hs
  obtain ⟨sc₂, hs₂, hn₂⟩ := h' id sc₁ hs₁
  exact ⟨sc₂, hs₂, hn₂.trans hn₁⟩

theorem size_le (h : st.Keeps st₁) : st.scopes.size ≤ st₁.scopes.size := by
  by_contra hlt
  obtain ⟨_, hs, -⟩ := h _ _ (Array.getElem?_eq_getElem (Nat.lt_of_not_le hlt))
  exact absurd (lt_size_of_getElem? hs) (by omega)

theorem push (st : Store) (sc : Scope) : st.Keeps ⟨st.scopes.push sc⟩ := by
  intro id sc' hs
  have hi := lt_size_of_getElem? hs
  exact ⟨sc', by rw [Array.getElem?_push_lt hi, ← hs, Array.getElem?_eq_getElem hi], rfl⟩

end Keeps

theorem set?_eq (h : st.scopes[id]? = some sc) (hslot : slot < sc.vars.size) (v : Value) :
    st.set? id slot v = some ⟨st.scopes.setIfInBounds id
      { sc with vars := sc.vars.setIfInBounds slot (some v) }⟩ := by
  simp [set?, h, Scope.set?, hslot]

theorem Keeps.set (h : st.scopes[id]? = some sc) (vars : Array (Option Value)) :
    st.Keeps ⟨st.scopes.setIfInBounds id { sc with vars }⟩ := by
  intro j sc' hs
  have hid := lt_size_of_getElem? h
  simp only [Array.getElem?_setIfInBounds]
  by_cases hj : id = j
  · subst hj
    rw [h] at hs
    cases hs
    exact ⟨{ sc with vars }, by simp [hid], rfl⟩
  · exact ⟨sc', by rw [if_neg hj]; exact hs, rfl⟩

theorem exists_of_set? {st' : Store} {v : Value} (h : st.set? id slot v = some st') :
    ∃ sc, st.scopes[id]? = some sc ∧ slot < sc.vars.size ∧
      st' = ⟨st.scopes.setIfInBounds id { sc with vars := sc.vars.setIfInBounds slot (some v) }⟩ := by
  cases hs : st.scopes[id]? with
  | none => simp [set?, hs] at h
  | some sc =>
    by_cases hslot : slot < sc.vars.size
    · rw [set?_eq hs hslot, Option.some.injEq] at h
      exact ⟨sc, rfl, hslot, h.symm⟩
    · simp [set?, Scope.set?, hs, hslot] at h

/-- Apart from the assigned value, every scope is as it was before an assignment. -/
theorem exists_adds_of_set? {st' : Store} {v : Value} (h : st.set? id slot v = some st') {j : Nat}
    {sc' : Scope} (hj : st'.scopes[j]? = some sc') :
    ∃ old, st.scopes[j]? = some old ∧ old.Adds v sc' := by
  obtain ⟨sc, hs, hslot, rfl⟩ := exists_of_set? h
  have hid := lt_size_of_getElem? hs
  simp only [Array.getElem?_setIfInBounds] at hj
  by_cases heq : id = j
  · simp only [if_pos heq, if_pos hid, Option.some.injEq] at hj
    subst heq hj
    refine ⟨sc, hs, rfl, rfl, by simp, ?_⟩
    intro i u hu
    rw [Scope.get?_set hslot] at hu
    split at hu
    · exact .inl (Option.some.inj hu).symm
    · exact .inr hu
  · rw [if_neg heq] at hj
    exact ⟨sc', hj, rfl, rfl, rfl, fun _ _ => .inr⟩

theorem Keeps.of_set? {st' : Store} {v : Value} (h : st.set? id slot v = some st') :
    st.Keeps st' := by
  obtain ⟨sc, hs, -, rfl⟩ := exists_of_set? h
  exact .set hs _

end Store
end Scriptlet
