import Mathlib.Data.List.Perm.Basic
import Mathlib.Data.List.Perm.Subperm
import Mathlib.Data.List.Dedup
import Scriptlet.Machine.Basic

/-! Who holds what: counts of the holders of scopes and functions, and what can be reached at all.
A scope that is held by nothing but its own functions, which it alone holds, is out of reach. -/
namespace Scriptlet

open Machine (globalScope)

/-- The function that a value is, if a script made it. -/
def Value.closure? : Value → Option Closure
  | .function g => some g
  | _ => none

/-- The functions that a scope holds, each as often as it is held there. -/
def Scope.closures (sc : Scope) : List Closure := sc.vars.toList.filterMap (·.bind Value.closure?)

/-- What is held from outside all scopes, besides the global scope: the frames, values in hand and
scopes in hand. -/
structure Roots where
  frames : List Frame
  values : List Value
  handles : List Nat

/-- The scopes, and which of them are allocated. -/
structure Heap where
  store : Store
  live : List Nat

namespace Heap

def parent? (h : Heap) (id : Nat) : Option Nat := h.store.scopes[id]?.bind (·.parent)

def closuresAt (h : Heap) (id : Nat) : List Closure :=
  (h.store.scopes[id]?.map Scope.closures).getD []

/-- All functions that are held, each as often as it is held. -/
def closures (h : Heap) (r : Roots) : List Closure :=
  r.values.filterMap Value.closure? ++
    (r.frames.flatMap fun f => f.stack.filterMap Value.closure?) ++ h.live.flatMap h.closuresAt

/-- How often a function is held. -/
def closureCount (h : Heap) (r : Roots) (id : Nat) : Nat := ((h.closures r).map (·.id)).count id

/-- How often a scope is held. A function that remembers the scope counts once, however often the
function itself is held. -/
def scopeCount (h : Heap) (r : Roots) (s : Nat) : Nat :=
  (if s = globalScope then 1 else 0) + r.handles.count s + (r.frames.map (·.scope)).count s +
    (h.live.map h.parent?).count (some s) +
    (((h.closures r).filter (·.scope = s)).map (·.id)).dedup.length

/-- The functions that a scope holds and that remember it, by identity. -/
def ownIds (h : Heap) (s : Nat) : List Nat := ((h.closuresAt s).filter (·.scope = s)).map (·.id)

/-- Whether only one handle and the scope's own functions hold a scope, and nothing but the scope
holds these. -/
def onlySelfReferenced (h : Heap) (r : Roots) (s : Nat) : Bool :=
  h.scopeCount r s = 1 + (h.ownIds s).dedup.length &&
    (h.ownIds s).all fun id => (h.ownIds s).count id = h.closureCount r id

/-- The allocated scopes that have a holder. -/
def held (r : Roots) (h : Heap) : List Nat := h.live.filter fun id => 0 < h.scopeCount r id

/-- Frees the scopes that nothing holds, then those that only these held, and so on. -/
def settle (r : Roots) (h : Heap) : Heap :=
  if (h.held r).length < h.live.length then settle r { h with live := h.held r } else h
termination_by h.live.length

end Heap

/-- The scopes that can be reached: a function leads to the scope that it remembers, a scope to the
enclosing one and to the functions that it holds. -/
inductive Reaches (st : Store) (r : Roots) : Nat → Prop
  | globals : Reaches st r globalScope
  | handle {id : Nat} (held : id ∈ r.handles) : Reaches st r id
  | value {g : Closure} (held : .function g ∈ r.values) : Reaches st r g.scope
  | frame {f : Frame} (held : f ∈ r.frames) : Reaches st r f.scope
  | operand {f : Frame} {g : Closure} (running : f ∈ r.frames) (held : .function g ∈ f.stack) :
      Reaches st r g.scope
  | enclosing {id p : Nat} {sc : Scope} (inner : Reaches st r id) (found : st.scopes[id]? = some sc)
      (held : sc.parent = some p) : Reaches st r p
  | binding {id slot : Nat} {sc : Scope} {g : Closure} (inner : Reaches st r id)
      (found : st.scopes[id]? = some sc) (held : sc.get? slot = some (.function g)) :
      Reaches st r g.scope

theorem Value.mem_closures {vs : List Value} {g : Closure} :
    g ∈ vs.filterMap Value.closure? ↔ .function g ∈ vs := by
  rw [List.mem_filterMap]
  constructor
  · intro h
    obtain ⟨v, hv, hg⟩ := h
    cases v <;> simp only [Value.closure?, reduceCtorEq, Option.some.injEq] at hg
    subst hg
    exact hv
  · intro h
    exact ⟨_, h, rfl⟩

theorem Scope.mem_closures {sc : Scope} {g : Closure} :
    g ∈ sc.closures ↔ ∃ slot, sc.get? slot = some (.function g) := by
  unfold Scope.closures Scope.get?
  rw [List.mem_filterMap]
  constructor
  · intro h
    obtain ⟨v, hv, hg⟩ := h
    obtain ⟨slot, hslot⟩ := List.getElem?_of_mem hv
    rw [Array.getElem?_toList] at hslot
    obtain ⟨u, rfl, hu⟩ := Option.bind_eq_some_iff.mp hg
    cases u <;> simp only [Value.closure?, reduceCtorEq, Option.some.injEq] at hu
    subst hu
    exact ⟨slot, by simp [hslot]⟩
  · intro h
    obtain ⟨slot, hslot⟩ := h
    have hat : sc.vars[slot]? = some (some (.function g)) := Option.join_eq_some_iff.mp hslot
    rw [← Array.getElem?_toList] at hat
    exact ⟨_, List.mem_of_getElem? hat, rfl⟩

namespace Heap

variable {h : Heap} {r : Roots} {s id slot : Nat} {sc : Scope} {g : Closure}

theorem mem_closuresAt (hat : h.store.scopes[id]? = some sc)
    (hg : sc.get? slot = some (.function g)) : g ∈ h.closuresAt id := by
  have hmem : g ∈ sc.closures := Scope.mem_closures.mpr ⟨slot, hg⟩
  simpa [closuresAt, hat] using hmem

theorem mem_closures_value (hg : .function g ∈ r.values) : g ∈ h.closures r := by
  have hmem := Value.mem_closures.mpr hg
  simp [closures, hmem]

theorem mem_closures_operand {f : Frame} (hf : f ∈ r.frames) (hg : .function g ∈ f.stack) :
    g ∈ h.closures r := by
  have hmem : g ∈ r.frames.flatMap fun f => f.stack.filterMap Value.closure? :=
    List.mem_flatMap.mpr ⟨f, hf, Value.mem_closures.mpr hg⟩
  simp only [closures, List.mem_append]
  exact .inl (.inr hmem)

theorem mem_closures_live (hid : id ∈ h.live) (hg : g ∈ h.closuresAt id) : g ∈ h.closures r := by
  have hmem : g ∈ h.live.flatMap h.closuresAt := List.mem_flatMap.mpr ⟨id, hid, hg⟩
  simp only [closures, List.mem_append]
  exact .inr hmem

/-- A function that is held holds the scope that it remembers. -/
theorem scopeCount_pos_of_closure (hg : g ∈ h.closures r) : 0 < h.scopeCount r g.scope := by
  have hmem : g.id ∈ (((h.closures r).filter (·.scope = g.scope)).map (·.id)).dedup := by
    rw [List.mem_dedup]
    exact List.mem_map_of_mem (List.mem_filter.mpr ⟨hg, by simp⟩)
  have hlength := List.length_pos_of_mem hmem
  unfold scopeCount
  omega

/-- If all that can be reached is allocated, then it has a holder. Further handles do no harm. -/
theorem scopeCount_pos (hlive : ∀ id, Reaches h.store r id → id ∈ h.live)
    (hid : Reaches h.store r id) (extra : List Nat) :
    0 < h.scopeCount { r with handles := extra ++ r.handles } id := by
  cases hid with
  | globals =>
    simp only [scopeCount, if_true]
    omega
  | handle held =>
    have hcount := List.count_pos_iff.mpr (List.mem_append_right extra held)
    simp only [scopeCount]
    omega
  | value held => exact scopeCount_pos_of_closure (mem_closures_value held)
  | @frame f held =>
    have hcount : 0 < (r.frames.map (·.scope)).count f.scope :=
      List.count_pos_iff.mpr (List.mem_map_of_mem held)
    simp only [scopeCount]
    omega
  | operand running held => exact scopeCount_pos_of_closure (mem_closures_operand running held)
  | @enclosing child _ sc inner found held =>
    have hparent : h.parent? child = some id := by simp [parent?, found, held]
    have hmem : some id ∈ h.live.map h.parent? :=
      hparent ▸ List.mem_map_of_mem (hlive child inner)
    have hcount := List.count_pos_iff.mpr hmem
    simp only [scopeCount]
    omega
  | @binding holder slot sc g inner found held =>
    have hmem := mem_closuresAt found held
    exact scopeCount_pos_of_closure (mem_closures_live (hlive holder inner) hmem)

/-- Nothing that can be reached is freed. -/
theorem mem_live_settle (hlive : ∀ id, Reaches h.store r id → id ∈ h.live) (extra : List Nat) :
    ∀ id, Reaches h.store r id → id ∈ (h.settle { r with handles := extra ++ r.handles }).live := by
  fun_induction settle { r with handles := extra ++ r.handles } h with
  | case1 h hlt ih =>
    apply ih
    intro id hid
    have hpos := scopeCount_pos hlive hid extra
    exact List.mem_filter.mpr ⟨hlive id hid, by simpa using hpos⟩
  | case2 h hge => exact hlive

/-- Nothing holds the scope but functions of its own, which are held nowhere else. -/
structure Isolated (h : Heap) (r : Roots) (s : Nat) : Prop where
  notGlobal : s ≠ globalScope
  handles : s ∉ r.handles
  frames : ∀ f ∈ r.frames, f.scope ≠ s
  children : ∀ id ∈ h.live, h.parent? id ≠ some s
  functions : ∀ g ∈ h.closures r, g.scope = s → h.closureCount r g.id = (h.ownIds s).count g.id

/-- The test of the counts, made with one handle more, finds isolated scopes. -/
theorem isolated_of_onlySelfReferenced (hlive : s ∈ h.live)
    (hs : h.onlySelfReferenced { r with handles := s :: r.handles } s = true) :
    h.Isolated r s := by
  simp only [onlySelfReferenced, Bool.and_eq_true, decide_eq_true_eq, List.all_eq_true] at hs
  obtain ⟨hcount, hown⟩ := hs
  let ids := ((h.closures r).filter (·.scope = s)).map (·.id)
  have hsubset : (h.ownIds s).dedup ⊆ ids.dedup := by
    intro i hi
    rw [List.mem_dedup] at hi ⊢
    obtain ⟨g, hg, rfl⟩ := List.mem_map.mp hi
    obtain ⟨hmem, hscope⟩ := List.mem_filter.mp hg
    have hheld := mem_closures_live (r := r) hlive hmem
    exact List.mem_map_of_mem (List.mem_filter.mpr ⟨hheld, hscope⟩)
  have hsubperm := List.subperm_of_subset (List.nodup_dedup _) hsubset
  have hle := hsubperm.length_le
  have hparts : (if s = globalScope then 1 else 0) + (r.handles.count s + 1) +
      (r.frames.map (·.scope)).count s + (h.live.map h.parent?).count (some s) +
      ids.dedup.length = 1 + (h.ownIds s).dedup.length := by
    rw [← hcount]
    simp only [scopeCount, List.count_cons_self]
    rfl
  -- the handle and the own functions use up the count
  have hsame : (h.ownIds s).dedup.Perm ids.dedup := hsubperm.perm_of_length_le (by omega)
  constructor
  · intro hglobal
    rw [if_pos hglobal] at hparts
    omega
  · intro hmem
    have hpos := List.count_pos_iff.mpr hmem
    omega
  · intro f hf hscope
    have hpos : 0 < (r.frames.map (·.scope)).count s :=
      List.count_pos_iff.mpr (List.mem_map.mpr ⟨f, hf, hscope⟩)
    omega
  · intro id hid hparent
    have hpos : 0 < (h.live.map h.parent?).count (some s) :=
      List.count_pos_iff.mpr (List.mem_map.mpr ⟨id, hid, hparent⟩)
    omega
  · intro g hg hscope
    have hmem : g.id ∈ ids.dedup := by
      rw [List.mem_dedup]
      exact List.mem_map_of_mem (List.mem_filter.mpr ⟨hg, by simpa using hscope⟩)
    have hid : g.id ∈ h.ownIds s := List.mem_dedup.mp (hsame.mem_iff.mpr hmem)
    exact (hown g.id hid).symm

/-- Two members of a list contribute to what is counted over all of it. -/
theorem count_flatMap_pair {α β : Type} [DecidableEq α] [DecidableEq β] {l : List α} {a b : α}
    (ha : a ∈ l) (hb : b ∈ l) (hne : b ≠ a) (F : α → List β) (x : β) :
    (F a).count x + (F b).count x ≤ (l.flatMap F).count x := by
  have hfirst := List.perm_cons_erase ha
  have hsecond := List.perm_cons_erase ((List.mem_erase_of_ne hne).mpr hb)
  have hperm := hfirst.trans (hsecond.cons a)
  rw [(hperm.flatMap_right F).count_eq x]
  simp only [List.flatMap_cons, List.count_append]
  omega

/-- What an isolated scope holds of a function of its own is all that is held of it. -/
theorem Isolated.count_le (hiso : h.Isolated r s) (hg : g ∈ h.closures r) (hscope : g.scope = s) :
    h.closureCount r g.id ≤ ((h.closuresAt s).map (·.id)).count g.id := by
  rw [hiso.functions g hg hscope]
  exact (List.filter_sublist.map _).count_le g.id

theorem closureCount_eq (i : Nat) :
    h.closureCount r i = ((r.values.filterMap Value.closure?).map (·.id)).count i +
      ((r.frames.flatMap fun f => f.stack.filterMap Value.closure?).map (·.id)).count i +
      (h.live.flatMap fun id => (h.closuresAt id).map (·.id)).count i := by
  simp only [closureCount, closures, List.map_append, List.count_append, List.map_flatMap]

/-- An isolated scope cannot be reached: the way to it would end with a holder that is not there. -/
theorem Isolated.not_reaches (hiso : h.Isolated r s) (hs : s ∈ h.live)
    (hlive : ∀ id, Reaches h.store r id → id ∈ h.live) : ¬ Reaches h.store r s := by
  have hstay : ((h.closuresAt s).map (·.id)).Sublist
      (h.live.flatMap fun id => (h.closuresAt id).map (·.id)) :=
    List.sublist_flatten_of_mem (List.mem_map_of_mem hs)
  have hall : ∀ id, Reaches h.store r id → id ≠ s := by
    intro id hid
    induction hid with
    | globals => exact hiso.notGlobal.symm
    | handle held => exact fun heq => hiso.handles (heq ▸ held)
    | @value g held =>
      intro hscope
      have hle := hiso.count_le (mem_closures_value held) hscope
      have hhere : 0 < ((r.values.filterMap Value.closure?).map (·.id)).count g.id :=
        List.count_pos_iff.mpr (List.mem_map_of_mem (Value.mem_closures.mpr held))
      have hthere := hstay.count_le g.id
      rw [closureCount_eq] at hle
      omega
    | frame held => exact hiso.frames _ held
    | @operand f g running held =>
      intro hscope
      have hle := hiso.count_le (mem_closures_operand running held) hscope
      have hhere : 0 < ((r.frames.flatMap fun f =>
          f.stack.filterMap Value.closure?).map (·.id)).count g.id := by
        apply List.count_pos_iff.mpr
        apply List.mem_map_of_mem
        exact List.mem_flatMap.mpr ⟨f, running, Value.mem_closures.mpr held⟩
      have hthere := hstay.count_le g.id
      rw [closureCount_eq] at hle
      omega
    | @enclosing child p sc inner found held =>
      intro hparent
      subst hparent
      exact hiso.children child (hlive child inner) (by simp [parent?, found, held])
    | @binding holder slot sc g inner found held hne =>
      intro hscope
      have hmem := mem_closuresAt found held
      have hle := hiso.count_le (mem_closures_live (hlive holder inner) hmem) hscope
      have hhere : 0 < ((h.closuresAt holder).map (·.id)).count g.id :=
        List.count_pos_iff.mpr (List.mem_map_of_mem hmem)
      have hboth := count_flatMap_pair hs (hlive holder inner) hne
        (fun id => (h.closuresAt id).map (·.id)) g.id
      rw [closureCount_eq] at hle
      omega
  exact fun hreach => hall s hreach rfl

end Heap

end Scriptlet
