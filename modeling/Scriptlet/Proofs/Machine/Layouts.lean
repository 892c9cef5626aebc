import Scriptlet.Proofs.Machine.Scopes

/-! Changes of layout: whether the slots are only continued or all of them are filled anew, every
name keeps its value. -/
namespace Scriptlet

namespace Scope

variable {sc : Scope} {names : Array String} {slot : Nat} {x : String}

/-- What the scope itself has for a name: what the first slot with this name has, and nothing if
there is no such slot. -/
inductive Holds (sc : Scope) (x : String) : Option Value → Prop
  | first {slot : Nat} (named : sc.names[slot]? = some x)
      (none_before : ∀ i < slot, sc.names[i]? ≠ some x) : Holds sc x (sc.get? slot)
  | absent (unnamed : x ∉ sc.names.toList) : Holds sc x none

theorem holds_named? (sc : Scope) (x : String) : sc.Holds x (sc.named? x) := by
  cases hi : sc.names.idxOf? x with
  | none =>
    have hx : x ∉ sc.names.toList := by simpa using hi
    rw [named?_eq_none hx]
    exact .absent hx
  | some slot =>
    have hvalue : sc.named? x = sc.get? slot := by rw [named?_eq_bind, hi, Option.bind_some]
    rw [hvalue]
    refine .first (getElem?_of_idxOf? hi) fun i hlt heq => ?_
    rw [← Array.idxOf?_toList, List.idxOf?, List.findIdx?_eq_some_iff_getElem] at hi
    obtain ⟨hslot, -, hbefore⟩ := hi
    have hne := hbefore i hlt
    rw [← Array.getElem?_toList, List.getElem?_eq_getElem (hlt.trans hslot), Option.some.injEq] at heq
    simp [heq] at hne

theorem Holds.unique {v w : Option Value} (h : sc.Holds x v) (h' : sc.Holds x w) : v = w := by
  have hmem {slot : Nat} (hslot : sc.names[slot]? = some x) : x ∈ sc.names.toList :=
    List.mem_of_getElem? (by simpa using hslot)
  cases h with
  | absent unnamed =>
    cases h' with
    | absent _ => rfl
    | first named _ => exact absurd (hmem named) unnamed
  | @first i named none_before =>
    cases h' with
    | absent unnamed => exact absurd (hmem named) unnamed
    | @first j named' none_before' =>
      obtain hlt | rfl | hlt := Nat.lt_trichotomy i j
      · exact absurd named (none_before' i hlt)
      · rfl
      · exact absurd named' (none_before j hlt)

/-- Whichever way is taken, a slot of the new layout has the value of its name. -/
theorem get?_adopt (hs : sc.vars.size = sc.names.size) (hn : names.toList.Nodup)
    (hx : names[slot]? = some x) : (sc.adopt names).get? slot = sc.named? x := by
  have hnodup : (sc.adopt names).names.toList.Nodup := by rwa [names_adopt]
  have hslot : (sc.adopt names).names[slot]? = some x := by rwa [names_adopt]
  have hmem : x ∈ names.toList := List.mem_of_getElem? (by simpa using hx)
  rw [← named?_of_slot hnodup hslot, named?_adopt hs, if_pos hmem]

/-- Continuing the slots gives what filling them anew by name would give. -/
theorem vars_adopt (hs : sc.vars.size = sc.names.size) (hn : names.toList.Nodup) :
    (sc.adopt names).vars = names.map sc.named? := by
  apply Array.ext
  · rw [size_adopt hs, Array.size_map]
  · intro slot hslot hslot'
    have hlt : slot < names.size := by rwa [Array.size_map] at hslot'
    have hvalue := get?_adopt hs hn (Array.getElem?_eq_getElem hlt)
    rw [get?, Array.getElem?_eq_getElem hslot, Option.join_some] at hvalue
    rw [Array.getElem_map, hvalue]

end Scope

namespace Store

variable {st : Store} {id : Nat} {sc : Scope} {x : String}

/-- What a scope with these names answers: its own value, else what is found further outward. -/
theorem named?_eq_or (h : st.scopes[id]? = some sc) (hp : ∀ p, sc.parent = some p → p < id) :
    st.named? x id = (sc.named? x).or (sc.parent.bind (st.named? x)) := by
  rw [named?]
  simp only [h]
  cases sc.named? x with
  | some v => rfl
  | none =>
    cases hpar : sc.parent with
    | none => rfl
    | some p => simp [hp p hpar]

/-- A change of one scope is not seen from the older ones. -/
theorem named?_modify (f : Scope → Scope) {p : Nat} (hp : p < id) :
    (st.modify id f).named? x p = st.named? x p := by
  induction p using Nat.strong_induction_on with
  | _ p ih =>
    have hsame : (st.modify id f).scopes[p]? = st.scopes[p]? := by
      simp [modify, Array.getElem?_modify, Nat.ne_of_gt hp]
    rw [named?, named?, hsame]
    cases st.scopes[p]? with
    | none => rfl
    | some sc =>
      dsimp only
      cases sc.named? x with
      | some v => rfl
      | none =>
        cases sc.parent with
        | none => rfl
        | some q =>
          dsimp only
          split
          · next hlt => exact ih q hlt (hlt.trans hp)
          · rfl

theorem named?_adopted (h : st.scopes[id]? = some sc) (hp : ∀ p, sc.parent = some p → p < id)
    (hs : sc.vars.size = sc.names.size) (names : Array String) :
    (st.modify id (·.adopt names)).named? x id =
      if x ∈ names.toList then st.named? x id else sc.parent.bind (st.named? x) := by
  have hscope : (st.modify id (·.adopt names)).scopes[id]? = some (sc.adopt names) := by
    simp [modify, Array.getElem?_modify, h]
  have hparent : ∀ p, (sc.adopt names).parent = some p → p < id := by rwa [Scope.parent_adopt]
  have houter : sc.parent.bind ((st.modify id (·.adopt names)).named? x) =
      sc.parent.bind (st.named? x) := by
    cases hpar : sc.parent with
    | none => rfl
    | some p => exact named?_modify _ (hp p hpar)
  rw [named?_eq_or hscope hparent, Scope.parent_adopt, houter, Scope.named?_adopt hs]
  by_cases hx : x ∈ names.toList
  · rw [if_pos hx, if_pos hx, named?_eq_or h hp]
  · rw [if_neg hx, if_neg hx, Option.none_or]

end Store

/-- A change of layout keeps values by name, whichever way it is made. In a scope with a place for
each of its names that adopts names without repetition, each slot of the new layout holds what the
first slot of that name held before. So every name of the new layout is looked up as before, while
any other name is looked for in the enclosing scope, which has not changed. -/
theorem Scope.layouts_keep_by_name {sc : Scope} {names : Array String}
    (hs : sc.vars.size = sc.names.size) (hn : names.toList.Nodup) :
    (sc.adopt names).names = names ∧ (sc.adopt names).vars = names.map sc.named? ∧
      (∀ (slot : Nat) (x : String) (v : Option Value), names[slot]? = some x →
        ((sc.adopt names).get? slot = v ↔ sc.Holds x v)) ∧
      ∀ (st : Store) (id : Nat), st.scopes[id]? = some sc →
        (∀ p, sc.parent = some p → p < id) →
        (∀ x ∈ names.toList, (st.modify id (·.adopt names)).named? x id = st.named? x id) ∧
        (∀ x, x ∉ names.toList →
          (st.modify id (·.adopt names)).named? x id = sc.parent.bind (st.named? x)) ∧
        ∀ p < id, ∀ x, (st.modify id (·.adopt names)).named? x p = st.named? x p := by
  refine ⟨names_adopt sc names, vars_adopt hs hn, ?_, ?_⟩
  · intro slot x v hx
    rw [get?_adopt hs hn hx]
    constructor
    · rintro rfl
      exact sc.holds_named? x
    · exact (sc.holds_named? x).unique
  · intro st id hid hp
    refine ⟨fun x hx => ?_, fun x hx => ?_, fun p hlt x => Store.named?_modify _ hlt⟩
    · rw [Store.named?_adopted hid hp hs, if_pos hx]
    · rw [Store.named?_adopted hid hp hs, if_neg hx]

/-- A function's scope in which one name stands twice. -/
def Scope.repeating : Scope :=
  ⟨#["a", "b", "a"], #[some (.boolean true), none, some .undefined], some 0⟩

/-- That scope inside a global one. -/
def Store.repeating : Store := ⟨#[.ofNames #["b"] none, Scope.repeating]⟩

/-- Adopting other names keeps the value of the first of the two slots. -/
theorem Scope.layouts_keep_by_name_repeating :
    Scope.repeating.vars.size = Scope.repeating.names.size ∧
      (#["c", "a"] : Array String).toList.Nodup ∧
      (Scope.repeating.adopt #["c", "a"]).get? 1 = some (.boolean true) ∧
      (Store.repeating.modify 1 (·.adopt #["c", "a"])).named? "a" 1 = some (.boolean true) := by
  obtain ⟨-, -, hslots, hstore⟩ :=
    @Scope.layouts_keep_by_name Scope.repeating #["c", "a"] rfl (by decide)
  have hfirst : Scope.repeating.Holds "a" (some (.boolean true)) :=
    @Holds.first Scope.repeating "a" 0 rfl (fun i hi => absurd hi (Nat.not_lt_zero i))
  have hparent : ∀ p, Scope.repeating.parent = some p → p < 1 := by
    intro p hp
    cases hp
    decide
  have hscope : Store.repeating.scopes[1]? = some Scope.repeating := rfl
  have hlookup := (hstore Store.repeating 1 hscope hparent).1 "a" (by decide)
  have hown := (Scope.repeating.holds_named? "a").unique hfirst
  refine ⟨rfl, by decide, (hslots 1 "a" _ rfl).mpr hfirst, hlookup.trans ?_⟩
  rw [Store.named?_eq_or hscope hparent, hown, Option.some_or]

end Scriptlet
