import Scriptlet.Proofs.Bytecode.Statements
import Scriptlet.Proofs.Session.Provenance

/-! Every statement finds an empty stack, and at each place of its code a frame's stack has one
height. -/
namespace Scriptlet

/-- The stack of a frame, with the values it waits for, has the height of its place. -/
theorem Frame.Valid.height_eq {st : Store} {pending last : Nat} {f : Frame} {body : List Stmt}
    (h : f.Valid st pending) (hruns : f.code.Runs body last) :
    (blockHeights body ++ [0])[f.pc]? = some (f.stack.length + pending) := by
  obtain ⟨hs, hc, hheight⟩ := h.height
  rwa [hruns.heights_unique hc] at hheight

theorem Frame.Valid.stack_nil {st : Store} {pending : Nat} {f : Frame} {body : List Stmt}
    (h : f.Valid st pending) (hat : f.code.StatementAt body f.pc) : f.stack = [] := by
  obtain ⟨hs, hc, hheight⟩ := h.height
  rw [hat.height hc] at hheight
  have hzero : 0 = f.stack.length + pending := Option.some.inj hheight
  exact List.length_eq_zero_iff.mp (by omega)

namespace Machine

/-- Stacks neither leak nor mix. Where a statement begins, or the final return stands, the frame's
stack is empty; a return finds the value it hands over and nothing else; and each place of compiled
code has a height that the stack has there, however the frame came to it. A frame that waits for a
call is one value short. -/
theorem stacks_neither_leak_nor_mix :
    (∀ m : Machine, m.Reachable →
      (∀ f ∈ m.frames, (∃ body, f.code.Of body) ∧
        ∀ body, f.code.Of body → (∃ last, f.code.Runs body last) ∧
          (f.code.StatementAt body f.pc → f.stack = [])) ∧
      ∀ f cs, m.frames = f :: cs →
        (f.code.code[f.pc]? = some ⟨.ret, 1⟩ → ∃ v, f.stack = [v]) ∧
        (f.code.code[f.pc]? = some ⟨.ret, 0⟩ → f.stack = [])) ∧
    ∀ c : Code, c.Compiled → ∃ heights : List Nat, heights.length = c.code.size ∧
      ∀ m : Machine, m.Reachable → ∀ f cs, m.frames = f :: cs →
        (f.code = c → heights[f.pc]? = some f.stack.length) ∧
        ∀ g ∈ cs, g.code = c → heights[g.pc]? = some (g.stack.length + 1) := by
  constructor
  · intro m hm
    have hv := hm.valid
    constructor
    · intro f hf
      obtain ⟨pending, hfv⟩ := hv.frame hf
      exact ⟨(hm.sourced.frames f hf).code, fun body hc => ⟨hc.runs, fun hat => hfv.stack_nil hat⟩⟩
    · intro f cs hfr
      have hfv := hv.innermost hfr
      constructor
      · intro hi
        exact List.length_eq_one_iff.mp (hfv.length_stack_of_ret hi)
      · intro hi
        exact List.length_eq_zero_iff.mp (hfv.length_stack_of_ret hi)
  · intro c hc
    obtain ⟨body, hc⟩ := hc
    obtain ⟨last, hruns⟩ := hc.runs
    refine ⟨blockHeights body ++ [0], ?_, fun m hm f cs hfr => ⟨?_, ?_⟩⟩
    · rw [hruns.size, BlockPlaced.length body hruns.placed]
      simp
    · rintro rfl
      exact (hm.valid.innermost hfr).height_eq hruns
    · rintro g hg rfl
      exact (hm.valid.caller hfr hg).height_eq hruns

/-- A loop that is gone through once. -/
def onceAround : Program :=
  ⟨[.assign "x" (.boolean true), .loop (.name "x") [.assign "x" (.boolean false)]]⟩

/-- When the loop comes back to its test, the stack is empty. -/
theorem stacks_neither_leak_nor_mix_onceAround :
    ∃ m f, (Session.start {} .unlimited).midway? onceAround 7 = some m ∧ m.frames = [f] ∧
      f.pc = 2 ∧ f.code.Of onceAround.body ∧ f.code.StatementAt onceAround.body f.pc ∧
      f.stack = [] := by
  have hmidway : ((Session.start {} .unlimited).midway? onceAround 7).map (·.frames) =
      ((Session.start {} .unlimited).compile onceAround).toOption.map fun c => [⟨c, 2, [], 0⟩] := by
    with_unfolding_all rfl
  have hcompiles : ((Session.start {} .unlimited).compile onceAround).isOk = true := by
    decide +kernel
  cases hc : (Session.start {} .unlimited).compile onceAround with
  | error e =>
    rw [hc] at hcompiles
    cases hcompiles
  | ok code =>
    rw [hc] at hmidway
    obtain ⟨m, hm, hfr⟩ := Option.map_eq_some_iff.mp hmidway
    have hof : code.Of onceAround.body := .script hc
    have hat : code.StatementAt onceAround.body 2 := by
      obtain ⟨last, hruns⟩ := hof.runs
      have hplaced := hruns.placed
      refine ⟨last, hruns, .inl ?_⟩
      cases hplaced with
      | cons assign rest =>
        cases rest with
        | cons loop nothing =>
          have hlater : Begins code onceAround.body 0 last _ := .later assign (.first loop nothing)
          cases assign with
          | assign value =>
            cases value with
            | boolean => exact hlater
    have hreach : m.Reachable := @Session.reachable_midway? {} .unlimited [] _ _ m hm
    have hframe := (stacks_neither_leak_nor_mix.1 m hreach).1 ⟨code, 2, [], 0⟩ (by simp [hfr])
    exact ⟨m, _, hm, hfr, rfl, hof, hat, (hframe.2 _ hof).2 hat⟩

end Machine
end Scriptlet
