import Scriptlet.Proofs.Collection.Holders
import Scriptlet.Proofs.Machine.Settings
import Scriptlet.Proofs.Session.Invariants

/-! The limit on calls in progress: it is exact, and scripts that stay below it cannot see it. -/
namespace Scriptlet

namespace Machine

/-- The next instruction calls the function `g`. -/
def AtCall (m : Machine) (g : Closure) : Prop :=
  ∃ (f : Frame) (cs : List Frame) (args rest : List Value), m.frames = f :: cs ∧
    f.code.code[f.pc]? = some ⟨.call, args.length⟩ ∧ f.stack = args.reverse ++ .function g :: rest

/-- The next instruction is a return. -/
def AtReturn (m : Machine) : Prop :=
  ∃ f cs n, m.frames = f :: cs ∧ f.code.code[f.pc]? = some ⟨.ret, n⟩

/-- On its way from `m₀` to `m` the machine has entered functions, and `k` of them it has not left. -/
inductive Active (m₀ : Machine) : Nat → Machine → Prop
  | start : Active m₀ 0 m₀
  | call {k : Nat} {m m' : Machine} {g : Closure} (before : Active m₀ k m) (next : m.AtCall g)
      (step : m.step = (.running, m')) : Active m₀ (k + 1) m'
  | ret {k : Nat} {m m' : Machine} (before : Active m₀ (k + 1) m) (next : m.AtReturn)
      (step : m.step = (.running, m')) : Active m₀ k m'
  | other {k : Nat} {m m' : Machine} (before : Active m₀ k m) (no_call : ∀ g, ¬ m.AtCall g)
      (no_return : ¬ m.AtReturn) (step : m.step = (.running, m')) : Active m₀ k m'

section Frames
variable {m m' m₀ : Machine} {f : Frame} {cs : List Frame} {i : Instruction} {g : Closure} {k n : Nat}

theorem atReturn_iff (hfr : m.frames = f :: cs) (hi : f.code.code[f.pc]? = some i) :
    m.AtReturn ↔ i.op = .ret := by
  constructor
  · intro h
    obtain ⟨f', cs', n, hfr', hi'⟩ := h
    rw [hfr] at hfr'
    cases hfr'
    rw [hi] at hi'
    cases hi'
    rfl
  · intro hop
    exact ⟨f, cs, i.arg, hfr, by rw [hi, ← hop]⟩

theorem atCall_iff (hfr : m.frames = f :: cs) (hi : f.code.code[f.pc]? = some i) :
    m.AtCall g ↔ ∃ args rest, Calls { f with pc := f.pc + 1 } i (.function g) args rest := by
  constructor
  · intro h
    obtain ⟨f', cs', args, rest, hfr', hi', hstack⟩ := h
    rw [hfr] at hfr'
    cases hfr'
    rw [hi] at hi'
    exact ⟨args, rest, Option.some.inj hi', hstack⟩
  · intro h
    obtain ⟨args, rest, rfl, hstack⟩ := h
    exact ⟨f, cs, args, rest, hfr, hi, hstack⟩

/-- An instruction calls one value. -/
theorem Calls.unique {u v : Value} {args rest args' rest' : List Value} (h : Calls f i u args rest)
    (h' : Calls f i v args' rest') : u = v := by
  have hcount := h.instruction.symm.trans h'.instruction
  have hstack := h.stack.symm.trans h'.stack
  have hlength : args.reverse.length = args'.reverse.length := by simpa using hcount
  have htails := (List.append_inj hstack hlength).2
  exact (List.cons.inj htails).1

theorem AtCall.not_atReturn (h : m.AtCall g) : ¬ m.AtReturn := by
  obtain ⟨f, cs, args, rest, hfr, hi, -⟩ := h
  rw [atReturn_iff hfr hi]
  simp

/-- A call adds a frame, a return takes one away, and nothing else changes their number. -/
theorem length_frames_step (h : m.step = (.running, m')) :
    (∃ g, m.AtCall g ∧ m'.frames.length = m.frames.length + 1) ∨
      (m.AtReturn ∧ 0 < m'.frames.length ∧ m'.frames.length + 1 = m.frames.length) ∨
      ((∀ g, ¬ m.AtCall g) ∧ ¬ m.AtReturn ∧ m'.frames.length = m.frames.length) := by
  cases hfr : m.frames with
  | nil => simp [step, hfr] at h
  | cons f cs =>
    cases hi : f.code.code[f.pc]? with
    | none => simp [step, hfr, hi] at h
    | some i =>
      have hcall (hop : i.op ≠ .call) (g : Closure) : ¬ m.AtCall g := by
        rw [atCall_iff hfr hi]
        intro hc
        obtain ⟨args, rest, rfl, -⟩ := hc
        exact hop rfl
      have hret := atReturn_iff hfr hi
      have ht := transition_step hfr hi
      rw [h] at ht
      cases ht with
      | moves op => exact .inr (.inr ⟨hcall op.1, by rw [hret]; exact op.2, rfl⟩)
      | makes op => exact .inr (.inr ⟨hcall (by simp [op]), by simp [hret, op], rfl⟩)
      | assigns op => exact .inr (.inr ⟨hcall (by simp [op]), by simp [hret, op], rfl⟩)
      | asks call =>
        have hnot (g : Closure) : ¬ m.AtCall g := by
          rw [atCall_iff hfr hi]
          intro hc
          obtain ⟨args, rest, hc⟩ := hc
          cases hc.unique call
        exact .inr (.inr ⟨hnot, by simp [hret, call.instruction], rfl⟩)
      | enters call => exact .inl ⟨_, (atCall_iff hfr hi).mpr ⟨_, _, call⟩, rfl⟩
      | returns op _ waiting =>
        subst waiting
        exact .inr (.inl ⟨hret.mpr op, by simp [within], rfl⟩)

/-- A step runs into the limit just when a function is called and too many frames are there. -/
theorem step_exceeds_iff {limit : Nat} (hlength : m.frames.length = k + 1) :
    (∃ m', m.step = (.failed (.callDepthExceeded limit), m')) ↔
      (∃ g, m.AtCall g) ∧ m.maxCallDepth ≤ k ∧ limit = m.maxCallDepth := by
  cases hfr : m.frames with
  | nil => simp [hfr] at hlength
  | cons f cs =>
    have hk : cs.length = k := by simpa [hfr] using hlength
    constructor
    · intro h
      obtain ⟨m', hs⟩ := h
      cases hi : f.code.code[f.pc]? with
      | none => simp [step, hfr, hi] at hs
      | some i =>
        have ht := transition_step hfr hi
        rw [hs] at ht
        cases ht with
        | refuses call deep =>
          exact ⟨⟨_, (atCall_iff hfr hi).mpr ⟨_, _, call⟩⟩, hk ▸ deep, rfl⟩
        | fails other => exact absurd rfl (other limit)
    · intro h
      obtain ⟨⟨g, f', cs', args, rest, hfr', hi, hstack⟩, hdeep, rfl⟩ := h
      rw [hfr] at hfr'
      cases hfr'
      rw [step_enter hfr hi hstack, enter_of_le args (by omega)]
      exact ⟨_, rfl⟩

theorem maxCallDepth_step (m : Machine) : m.step.2.maxCallDepth = m.maxCallDepth := by
  obtain ⟨status, hs, -⟩ | ⟨f, cs, i, -, -, ht⟩ := m.step_cases
  · rw [hs]
  · generalize m.step = r at ht ⊢
    cases ht <;> rfl

/-- However a step ends, there are no more frames than before or than the limit permits. -/
theorem shallow_step (h : m.frames.length ≤ m.maxCallDepth + 1) :
    m.step.2.frames.length ≤ m.maxCallDepth + 1 := by
  obtain ⟨status, hs, -⟩ | ⟨f, cs, i, hfr, -, ht⟩ := m.step_cases
  · rwa [hs]
  · rw [hfr, List.length_cons] at h
    generalize m.step = r at ht ⊢
    cases ht with
    | enters _ shallow => exact Nat.succ_le_succ shallow
    | returns _ _ waiting =>
      rw [waiting, List.length_cons] at h
      exact Nat.le_of_succ_le h
    | ends => exact Nat.zero_le _
    | _ => exact h

/-- There is a frame for each call in progress, and one for the script. -/
theorem Active.length (h : Active m₀ k m) (h₀ : m₀.frames.length = 1) : m.frames.length = k + 1 := by
  induction h with
  | start => exact h₀
  | call _ next step ih =>
    rcases length_frames_step step with ⟨g, -, hlength⟩ | ⟨hret, -⟩ | ⟨hcall, -⟩
    · omega
    · exact absurd hret next.not_atReturn
    · exact absurd next (hcall _)
  | ret _ next step ih =>
    rcases length_frames_step step with ⟨g, hcall, -⟩ | ⟨-, -, hlength⟩ | ⟨-, hret, -⟩
    · exact absurd next hcall.not_atReturn
    · omega
    · exact absurd next hret
  | other _ no_call no_return step ih =>
    rcases length_frames_step step with ⟨g, hcall, -⟩ | ⟨hret, -⟩ | ⟨-, -, hlength⟩
    · exact absurd hcall (no_call g)
    · exact absurd hret no_return
    · omega

theorem Active.step (h : Active m₀ k m) (h₀ : m₀.frames.length = 1)
    (hs : m.step = (.running, m')) : ∃ k', Active m₀ k' m' := by
  have hk := h.length h₀
  rcases length_frames_step hs with ⟨g, hcall, -⟩ | ⟨hret, hpos, hlength⟩ | ⟨hcall, hret, -⟩
  · exact ⟨k + 1, h.call hcall hs⟩
  · obtain ⟨j, rfl⟩ : ∃ j, k = j + 1 := Nat.exists_eq_succ_of_ne_zero (by omega)
    exact ⟨j, h.ret hret hs⟩
  · exact ⟨k, h.other hcall hret hs⟩

theorem Active.steps (h : Active m₀ k m) (h₀ : m₀.frames.length = 1) (hs : Steps n m m') :
    ∃ k', Active m₀ k' m' := by
  induction hs generalizing k with
  | refl => exact ⟨k, h⟩
  | head first _ ih =>
    obtain ⟨k₁, h₁⟩ := h.step h₀ first
    exact ih h₁

theorem Active.exists_steps (h : Active m₀ k m) : ∃ n, Steps n m₀ m := by
  induction h with
  | start => exact ⟨0, .refl m₀⟩
  | call _ _ step ih =>
    obtain ⟨n, hn⟩ := ih
    exact ⟨n + 1, hn.trans (.single step)⟩
  | ret _ _ step ih =>
    obtain ⟨n, hn⟩ := ih
    exact ⟨n + 1, hn.trans (.single step)⟩
  | other _ _ _ step ih =>
    obtain ⟨n, hn⟩ := ih
    exact ⟨n + 1, hn.trans (.single step)⟩

end Frames

/-- At most `d` calls are in progress, and more are not permitted. -/
structure Shallow (d : Nat) (m : Machine) : Prop where
  limit : m.maxCallDepth = d
  frames : m.frames.length ≤ d + 1

theorem Shallow.step {d : Nat} {m : Machine} (h : m.Shallow d) : m.step.2.Shallow d := by
  obtain ⟨rfl, hlength⟩ := h
  exact ⟨m.maxCallDepth_step, shallow_step hlength⟩

theorem shallow_invariant (d : Nat) : Invariant (Shallow d) (Shallow d) where
  print _ _ h := ⟨h.limit, h.frames⟩
  load _ _ _ h _ := ⟨h.limit, by simp [load]⟩
  step m m' h hs := by
    have hstep := h.step
    rwa [hs] at hstep
  pause _ h := h
  stop _ h := h.step
  discard _ h := ⟨h.limit, Nat.zero_le _⟩

/-- The machine with another limit. -/
def withLimit (d : Nat) (m : Machine) : Machine := { m with maxCallDepth := d }

/-- Unless the limit is exceeded in the first, the second result is the same but for the limit. -/
def Lifts (d : Nat) (r r' : Status × Machine) : Prop :=
  (∀ n, r.1 ≠ .failed (.callDepthExceeded n)) → r' = (r.1, r.2.withLimit d)

section Limits
variable {m m' : Machine} {f : Frame} {cs : List Frame} {d : Nat}

theorem lifts_withTop {k k' : Value → Frame → Status × Machine} (h : ∀ v f, Lifts d (k v f) (k' v f)) :
    Lifts d (m.withTop f cs k) ((m.withLimit d).withTop f cs k') := by
  unfold withTop
  cases f.pop with
  | error e => exact fun _ => rfl
  | ok top => exact h top.1 top.2

/-- A higher limit refuses no call that a lower one permits. -/
theorem lifts_enter (hd : m.maxCallDepth ≤ d) (g : Closure) (args : List Value) :
    Lifts d (m.enter f cs g args) ((m.withLimit d).enter f cs g args) := by
  intro hnot
  unfold enter at hnot ⊢
  have hlimit : (m.withLimit d).maxCallDepth = d := rfl
  by_cases hdeep : m.maxCallDepth < cs.length + 1
  · rw [if_pos hdeep] at hnot
    exact absurd rfl (hnot m.maxCallDepth)
  · have hdeep' : ¬ d < cs.length + 1 := by omega
    rw [hlimit, if_neg hdeep, if_neg hdeep']
    split <;> rfl

theorem lifts_call (hd : m.maxCallDepth ≤ d) (n : Nat) :
    Lifts d (m.call f cs n) ((m.withLimit d).call f cs n) := by
  unfold call
  cases f.popArgs n with
  | error e => exact fun _ => rfl
  | ok popped =>
    apply lifts_withTop
    intro callee f
    have houtput : (m.withLimit d).output = m.output := rfl
    cases callee with
    | builtin b =>
      intro _
      dsimp only
      rw [houtput]
      cases hb : b.call popped.1 m.output with
      | mk answer output => cases answer <;> rfl
    | function g => exact lifts_enter hd g popped.1
    | _ => exact fun _ => rfl

theorem lifts_execute (hd : m.maxCallDepth ≤ d) (i : Instruction) :
    Lifts d (m.execute f cs i) ((m.withLimit d).execute f cs i) := by
  by_cases hop : i.op = .call
  · unfold execute
    rw [hop]
    exact lifts_call hd i.arg
  · have hrefit : (m.refit (fun _ => d) id).execute f cs i = _ := execute_refit hop
    exact fun _ => hrefit

theorem lifts_step (hd : m.maxCallDepth ≤ d) : Lifts d m.step (m.withLimit d).step := by
  unfold step
  have hframes : (m.withLimit d).frames = m.frames := rfl
  rw [hframes]
  cases m.frames with
  | nil => exact fun _ => rfl
  | cons f cs =>
    dsimp only
    cases f.code.code[f.pc]? with
    | none => exact fun _ => rfl
    | some i => exact lifts_execute hd i

/-- A run that does not exceed the limit is the same under a higher one. -/
theorem run_withLimit (fuel : Nat) (hd : m.maxCallDepth ≤ d)
    (hnot : ∀ limit place, (m.run fuel).1 ≠ .failed (.callDepthExceeded limit) place) :
    (m.withLimit d).run fuel = ((m.run fuel).1, (m.run fuel).2.withLimit d) := by
  induction fuel generalizing m with
  | zero => rfl
  | succ fuel ih =>
    have hlift := lifts_step hd
    have hlimit := m.maxCallDepth_step
    rw [run] at hnot
    rw [run, run]
    cases hs : m.step with
    | mk status m' =>
      rw [hs] at hnot hlift hlimit
      cases status with
      | running =>
        rw [hlift (by simp)]
        exact ih (hlimit.trans_le hd) hnot
      | done v =>
        rw [hlift (by simp)]
      | failed e =>
        have he (n : Nat) : e ≠ .callDepthExceeded n := by
          intro he
          exact hnot n m'.location (by rw [he])
        rw [hlift (by simpa using he)]
        rfl

end Limits
end Machine

namespace Session

open Machine (Active Steps)

/-- What a request has led to: its result, what the output holds, and the global variables. -/
structure Answer where
  result : Except ScriptError Value
  output : Output
  globals : List (String × Option Value)

/-- The answers to several requests, each with its number of steps. -/
def answers (s : Session) : List (Nat × Request) → List Answer
  | [] => []
  | (fuel, r) :: later =>
    let served := s.serve fuel r
    ⟨served.1, served.2.output, served.2.globals⟩ :: served.2.answers later

def withLimit (d : Nat) (s : Session) : Session := { s with machine := s.machine.withLimit d }

/-- The request failed because too many calls were in progress. -/
def Exceeds (result : Except ScriptError Value) : Prop :=
  ∃ limit place, result = .error (.runtime (.callDepthExceeded limit) place)

section Limits
variable {s : Session} {d : Nat}

theorem execute_withLimit (fuel : Nat) (code : Code) (hd : s.machine.maxCallDepth ≤ d)
    (hnot : ¬ Exceeds (s.execute fuel code).1) :
    (s.withLimit d).execute fuel code =
      ((s.execute fuel code).1, (s.execute fuel code).2.withLimit d) := by
  have hrun := Machine.run_withLimit (m := s.machine.load code) (d := d) fuel hd
  have hload : (s.withLimit d).machine.load code = (s.machine.load code).withLimit d := rfl
  unfold execute at hnot ⊢
  rw [hload]
  cases hr : (s.machine.load code).run fuel with
  | mk finish m =>
    rw [hr] at hrun hnot
    cases finish with
    | returned v =>
      rw [hrun (by simp)]
      rfl
    | unfinished =>
      rw [hrun (by simp)]
      rfl
    | failed e place =>
      have hlimit (limit : Nat) (place' : String) :
          Finish.failed e place ≠ .failed (.callDepthExceeded limit) place' := by
        intro heq
        cases heq
        exact hnot ⟨limit, place, rfl⟩
      rw [hrun hlimit]
      rfl

theorem runProgram_withLimit (fuel : Nat) (p : Program) (hd : s.machine.maxCallDepth ≤ d)
    (hnot : ¬ Exceeds (s.runProgram fuel p).1) :
    (s.withLimit d).runProgram fuel p =
      ((s.runProgram fuel p).1, (s.runProgram fuel p).2.withLimit d) := by
  have hcompile : (s.withLimit d).compile p = s.compile p := rfl
  unfold runProgram at hnot ⊢
  rw [hcompile]
  cases hc : s.compile p with
  | error e => rfl
  | ok code =>
    have hprint : (s.withLimit d).print code.listing =
      ((s.print code.listing).1, (s.print code.listing).2.withLimit d) := rfl
    have hlimit : (s.print code.listing).2.machine.maxCallDepth = s.machine.maxCallDepth := rfl
    have hdebug : (s.withLimit d).debug = s.debug := rfl
    simp only [hc] at hnot
    dsimp only
    rw [hdebug, hprint]
    by_cases hon : s.debug = true
    · simp only [hon, if_true] at hnot ⊢
      cases hpr : s.print code.listing with
      | mk ok s' =>
        rw [hpr] at hnot hlimit
        cases ok with
        | true => exact execute_withLimit fuel code (hlimit.trans_le hd) hnot
        | false => rfl
    · simp only [hon] at hnot ⊢
      exact execute_withLimit fuel code hd hnot

theorem serve_withLimit (fuel : Nat) (r : Request) (hd : s.machine.maxCallDepth ≤ d)
    (hnot : ¬ Exceeds (s.serve fuel r).1) :
    (s.withLimit d).serve fuel r = ((s.serve fuel r).1, (s.serve fuel r).2.withLimit d) := by
  cases r with
  | program p =>
    simp only [serve] at hnot ⊢
    exact runProgram_withLimit fuel p hd hnot
  | source text =>
    simp only [serve] at hnot ⊢
    unfold run at hnot ⊢
    cases hp : Program.parse text with
    | error e => rfl
    | ok p =>
      simp only [hp] at hnot
      exact runProgram_withLimit fuel p hd hnot
  | redirect output => rfl

/-- Where no request exceeds the limit, a higher limit gives the same answers. -/
theorem answers_withLimit {d₀ : Nat} (past : List (Nat × Request)) (hs : s.machine.Shallow d₀)
    (hd : d₀ ≤ d) (hnot : ∀ a ∈ s.answers past, ¬ Exceeds a.result) :
    (s.withLimit d).answers past = s.answers past := by
  induction past generalizing s with
  | nil => rfl
  | cons r later ih =>
    obtain ⟨fuel, r⟩ := r
    simp only [answers, List.forall_mem_cons] at hnot ⊢
    obtain ⟨hfirst, hlater⟩ := hnot
    have hserved := (Machine.shallow_invariant d₀).serve fuel r hs
    rw [serve_withLimit fuel r (hs.limit.trans_le hd) hfirst, ih hserved hlater]
    rfl

end Limits

/-- The limit on calls in progress is exact and otherwise cannot be seen. There are never more frames
than one for each permitted call and one for the script; a step fails because of the limit just when
it calls a function while as many calls as permitted are in progress; and where no request fails so,
every higher limit gives the same answers. -/
theorem call_limit_is_exact (limits : Limits) (output : Output) (past : List (Nat × Request)) :
    (∀ p code out, ((start limits output).after past).compile p = .ok code →
      let m₀ := { ((start limits output).after past).machine with output := out }.load code
      (∀ m, (∃ n, Steps n m₀ m) ↔ ∃ k, Active m₀ k m) ∧
      ∀ k m, Active m₀ k m →
        m.frames.length = k + 1 ∧ k ≤ limits.maxCallDepth ∧
        m.step.2.frames.length ≤ limits.maxCallDepth + 1 ∧
        ∀ limit, (∃ m', m.step = (.failed (.callDepthExceeded limit), m')) ↔
          (∃ g, m.AtCall g) ∧ k = limits.maxCallDepth ∧ limit = limits.maxCallDepth) ∧
    ((start limits output).after past).machine.frames.length ≤ limits.maxCallDepth + 1 ∧
    ∀ d, limits.maxCallDepth ≤ d →
      (∀ a ∈ (start limits output).answers past, ¬ Exceeds a.result) →
      (start { limits with maxCallDepth := d } output).answers past =
        (start limits output).answers past := by
  have hinv := Machine.shallow_invariant limits.maxCallDepth
  have hstart : (start limits output).machine.Shallow limits.maxCallDepth := ⟨rfl, Nat.zero_le _⟩
  have hafter := hinv.after past hstart
  constructor
  · intro p code out hc m₀
    have h₀ : m₀.Shallow limits.maxCallDepth := hinv.load _ p code (hinv.print _ out hafter) hc
    constructor
    · intro m
      constructor
      · intro hsteps
        obtain ⟨n, hsteps⟩ := hsteps
        exact Active.start.steps rfl hsteps
      · intro hactive
        obtain ⟨k, hk⟩ := hactive
        exact hk.exists_steps
    · intro k m hk
      have hlength : m.frames.length = k + 1 := hk.length rfl
      obtain ⟨n, hsteps⟩ := hk.exists_steps
      have hm := hinv.steps hsteps h₀
      have hframes := hm.frames
      have hlimit := hm.limit
      refine ⟨hlength, by omega, hm.step.frames, fun limit => ?_⟩
      rw [Machine.step_exceeds_iff hlength, hlimit]
      have hexact : limits.maxCallDepth ≤ k ↔ k = limits.maxCallDepth := by omega
      rw [hexact]
  · exact ⟨hafter.frames, fun d hd hnot => answers_withLimit past hstart hd hnot⟩

/-- Makes two functions, one of which calls the other. -/
def definitions : Program :=
  ⟨[.expr (.function "f" [] [.ret (some (.boolean true))]),
    .expr (.function "g" [] [.ret (some (.call (.name "f") []))])]⟩

/-- Calls a function without arguments. -/
def calling (x : String) : Program := ⟨[.ret (some (.call (.name x) []))]⟩

/-- With a limit of one call the inner of two calls fails. A single call does not, and cannot tell
this limit from another. -/
theorem call_limit_is_exact_nested :
    (∃ m m', ((start { maxCallDepth := 1 } .unlimited).after [(9, .program definitions)]).midway?
        (calling "g") 3 = some m ∧ m.step = (.failed (.callDepthExceeded 1), m')) ∧
      (start { maxCallDepth := 1000 } .unlimited).answers
          [(9, .program definitions), (9, .program (calling "f"))] =
        (start { maxCallDepth := 1 } .unlimited).answers
          [(9, .program definitions), (9, .program (calling "f"))] := by
  constructor
  · let s := (start { maxCallDepth := 1 } .unlimited).after [(9, .program definitions)]
    have hmidway : (s.midway? (calling "g") 3).any (fun m => m.frames.length == 2 &&
        m.frames.head?.any fun f => f.code.code[f.pc]? == some ⟨.call, 0⟩ &&
          (f.stack.head?.bind Value.closure?).isSome) = true := by
      decide +kernel
    obtain ⟨m, hm, hcall⟩ := (Option.any_eq_true _ _).mp hmidway
    obtain ⟨code, hc, hsteps⟩ := midway?_eq_some hm
    obtain ⟨hactive, hall⟩ := (call_limit_is_exact { maxCallDepth := 1 } .unlimited
      [(9, .program definitions)]).1 (calling "g") code s.machine.output hc
    obtain ⟨k, hk⟩ := (hactive m).mp ⟨3, hsteps⟩
    obtain ⟨hlength, -, -, hexceeds⟩ := hall k m hk
    simp only [Bool.and_eq_true, beq_iff_eq, Option.any_eq_true, Option.isSome_iff_exists,
      Option.bind_eq_some_iff] at hcall
    obtain ⟨htwo, f, hhead, hi, g, v, hv, hg⟩ := hcall
    obtain ⟨cs, hfr⟩ := List.head?_eq_some_iff.mp hhead
    obtain ⟨rest, hstack⟩ := List.head?_eq_some_iff.mp hv
    have hat : ∃ g, m.AtCall g := by
      cases v <;> simp only [Value.closure?, reduceCtorEq, Option.some.injEq] at hg
      exact ⟨_, f, cs, [], rest, hfr, hi, hstack⟩
    have hone : k = 1 := by omega
    obtain ⟨m', hstep⟩ := (hexceeds 1).mpr ⟨hat, hone, rfl⟩
    exact ⟨m, m', hm, hstep⟩
  · have hok : ((start { maxCallDepth := 1 } .unlimited).answers
        [(9, .program definitions), (9, .program (calling "f"))]).all
          (fun a => a.result.isOk) = true := by
      decide +kernel
    apply (call_limit_is_exact { maxCallDepth := 1 } .unlimited
      [(9, .program definitions), (9, .program (calling "f"))]).2.2 1000 (by decide)
    intro a ha hexceeds
    obtain ⟨limit, place, hresult⟩ := hexceeds
    have hok' := List.all_eq_true.mp hok a ha
    rw [hresult] at hok'
    cases hok'

end Session
end Scriptlet
