import Scriptlet.Proofs.Machine.Lockstep
import Scriptlet.Proofs.Session.Validity

/-! Two scripts run one after the other do what they do as one script. -/
namespace Scriptlet

open Machine (globalScope Steps)

section Adopt
variable {sc : Scope} {names : Array String} {extra rest : List String}

theorem Scope.widen_nil (sc : Scope) : sc.widen [] = sc := by
  simp [Scope.widen]

theorem Scope.widen_widen (sc : Scope) (extra rest : List String) :
    (sc.widen extra).widen rest = sc.widen (extra ++ rest) := by
  simp [Scope.widen, Array.append_assoc, Array.replicate_append_replicate]

/-- Adopting a layout that continues the old one adds names without values. -/
theorem Scope.adopt_eq_widen (hs : sc.vars.size = sc.names.size)
    (hn : names.toList = sc.names.toList ++ extra) : sc.adopt names = sc.widen extra := by
  obtain rfl : names = sc.names ++ extra.toArray := Array.toList_inj.mp (by simpa using hn)
  have hp : sc.names.isPrefixOf (sc.names ++ extra.toArray) = true := by
    rw [← Array.isPrefixOf_toList, List.isPrefixOf_iff_prefix]
    simp
  simp [Scope.adopt, Scope.widen, hp, hs]

end Adopt

namespace Machine

/-- The script's own frame has come to a return that is not the last instruction of its code. -/
def returnsEarly (m : Machine) : Bool :=
  match m.frames with
  | [f] =>
    match f.code.code[f.pc]? with
    | some ⟨.ret, _⟩ => f.pc + 1 != f.code.code.size
    | _ => false
  | _ => false

variable {m m' : Machine} {extra : List String}

/-- The further names have slots at the end, without values. -/
theorem Twin.globals (h : m.Twin extra m') :
    m'.globals = m.globals ++ extra.map fun x => (x, none) := by
  obtain ⟨sc, hs, hsized, hs'⟩ := h.store.global
  simp [Machine.globals, hs, hs', Scope.slots_widen hsized]

/-- Codes whose layouts continue one another give twins when they are loaded. -/
theorem twin_load {c c' : Code} {sc : Scope} {more : List String}
    (hs : m.store.scopes[globalScope]? = some sc) (hsized : sc.vars.size = sc.names.size)
    (hc : c.names.toList = sc.names.toList ++ more)
    (hc' : c'.names.toList = c.names.toList ++ extra) : (m.load c).Twin extra (m.load c') := by
  have hc₂ : c'.names.toList = sc.names.toList ++ (more ++ extra) := by
    rw [hc', hc, List.append_assoc]
  refine ⟨⟨?_, fun id hid => ?_, sc.widen more, ?_, ?_, ?_⟩, rfl, rfl, rfl⟩
  · simp [load, Store.modify]
  · simp [load, Store.modify, Array.getElem?_modify, Ne.symm hid]
  · rw [globalScope_load c hs, Scope.adopt_eq_widen hsized hc]
  · simp [Scope.widen, hsized]
  · rw [globalScope_load c' hs, Scope.adopt_eq_widen hsized hc₂, Scope.widen_widen]

/-- When a script has come to its end, loading the next one gives what a longer script has there. -/
theorem Twin.load {c : Code} {sc : Scope} (h : m.Twin extra m')
    (hs : m.store.scopes[globalScope]? = some sc)
    (hc : c.names.toList = sc.names.toList ++ extra) : (m.load c).Twin [] m' := by
  obtain ⟨sc', hs₁, hsized, hs'⟩ := h.store.global
  obtain rfl : sc = sc' := Option.some.inj (hs.symm.trans hs₁)
  refine ⟨⟨?_, fun id hid => ?_, sc.widen extra, ?_, ?_, ?_⟩, h.closures, h.depth, h.output⟩
  · simpa [Machine.load, Store.modify] using h.store.size
  · simpa [Machine.load, Store.modify, Array.getElem?_modify, Ne.symm hid] using h.store.others id hid
  · rw [globalScope_load c hs, Scope.adopt_eq_widen hsized hc]
  · simp [Scope.widen, hsized]
  · rw [hs', Scope.widen_nil]

/-- A run that ends does so with a return of the script's own frame. -/
theorem Valid.step_done {m₁ : Machine} {v : Value} (h : m.Valid) (hstep : m.step = (.done v, m₁)) :
    ∃ f arg, m.frames = [f] ∧ f.code.code[f.pc]? = some ⟨.ret, arg⟩ ∧
      m₁ = { m with frames := [] } := by
  obtain ⟨f, cs, hfr, hf, -⟩ := h.frames
  obtain ⟨hs, hc, hh⟩ := hf.height
  obtain ⟨⟨op, arg⟩, hi, -⟩ := hc.fits hh
  rw [step_of_frames hfr hi] at hstep
  obtain ⟨hop, rfl, hm₁⟩ := execute_done hstep
  obtain rfl : op = .ret := hop
  exact ⟨f, arg, hfr, hi, hm₁⟩

/-- The stack is empty before a return without value. -/
theorem Valid.stack_nil (h : m.Valid) {f : Frame} (hfr : m.frames = [f])
    (hi : f.code.code[f.pc]? = some ⟨.ret, 0⟩) : f.stack = [] :=
  List.eq_nil_of_length_eq_zero ((h.innermost hfr).length_stack_of_ret hi)

end Machine

def Finish.isEnd : Finish → Bool
  | unfinished => false
  | _ => true

namespace ScriptError

/-- The error without the place at which it came up. -/
def unplaced : ScriptError → ScriptError
  | runtime e _ => runtime e ""
  | e => e

end ScriptError

namespace Session

variable {s s' : Session} {p : Program} {code : Code}

/-- The requests ended in the same way, and left the same output and the same variables. -/
def SameOutcome (r r' : Except ScriptError Value × Session) : Prop :=
  r'.1.mapError ScriptError.unplaced = r.1.mapError ScriptError.unplaced ∧
    r'.2.output = r.2.output ∧ r'.2.globals = r.2.globals

/-- The script executes no return outside functions, but for the one that ends its code. -/
def NeverReturns (s : Session) (p : Program) : Prop :=
  ∀ code n m, s.compile p = .ok code → Steps n (s.machine.load code) m → m.returnsEarly = false

/-- Runs a script and sees whether it ends within some steps and does not return early. -/
def endsInOrder (s : Session) (fuel : Nat) (p : Program) : Bool :=
  match s.compile p with
  | .ok code =>
    let m := s.machine.load code
    (m.run fuel).1.isEnd && (List.range fuel).all fun n => !(m.run n).2.returnsEarly
  | .error _ => false

theorem neverReturns_of_endsInOrder (fuel : Nat) (h : s.endsInOrder fuel p = true) :
    s.NeverReturns p := by
  intro code n m hc hm
  simp only [endsInOrder, hc, Bool.and_eq_true, List.all_eq_true, List.mem_range,
    Bool.not_eq_true'] at h
  have hn : n < fuel := by
    by_contra hge
    have hu := hm.run_unfinished (k := fuel) (Nat.le_of_not_lt hge)
    simp [hu, Finish.isEnd] at h
  have hm₀ : (s.machine.load code).run n = (.unfinished, m) := hm.run_add 0
  simpa [hm₀] using h.2 n hn

theorem runProgram_eq (hd : s.debug = false) (hc : s.compile p = .ok code) (fuel : Nat) :
    s.runProgram fuel p = s.execute fuel code := by
  simp [runProgram, hc, hd]

theorem sameOutcome_execute {fuel fuel' : Nat} {code code' : Code}
    (h : Machine.SameEnd ((s.machine.load code).run fuel).1 ((s'.machine.load code').run fuel').1)
    (ht : ((s.machine.load code).run fuel).2.Twin [] ((s'.machine.load code').run fuel').2) :
    SameOutcome (s.execute fuel code) (s'.execute fuel' code') := by
  unfold execute
  have hg := ht.globals
  have ho := ht.output
  generalize (s.machine.load code).run fuel = r, (s'.machine.load code').run fuel' = r' at h ht hg ho
  obtain ⟨finish, machine⟩ := r
  obtain ⟨finish', machine'⟩ := r'
  simp only [List.map_nil, List.append_nil] at hg
  cases finish <;> cases finish' <;> first | exact h.elim | skip
  · exact ⟨by rw [show _ = _ from h], ho, hg⟩
  · exact ⟨by simp [Except.mapError, ScriptError.unplaced, show _ = _ from h], ho, hg⟩
  · exact ⟨rfl, ho, hg⟩

theorem Valid.globals_scope (h : s.Valid) :
    ∃ sc, s.machine.store.scopes[globalScope]? = some sc ∧ sc.vars.size = sc.names.size ∧
      s.machine.globalNames = sc.names.toList := by
  have h₀ := Array.getElem?_eq_getElem h.store.globals
  refine ⟨_, h₀, (h.store.scopes 0 _ h₀).sized, ?_⟩
  simp [Machine.globalNames, globalScope, h₀]

/-- Code for a script continues the names of the session. -/
theorem Valid.names_compile {code : Code} (h : s.Valid) (hc : s.compile p = .ok code) :
    s.machine.globalNames <+: code.names.toList := by
  have hn : ((#[] : Array String).toList ++ s.machine.globalNames).Nodup := h.names
  rw [(Program.compileWith_runs hc).2]
  nth_rewrite 1 [show s.machine.globalNames = (internAll #[] s.machine.globalNames).toList from
    (internAll_of_nodup #[] hn).symm]
  exact internAll_extends _ _

/-- What one gets by compiling two scripts as one, in a valid session. -/
theorem Valid.joined {p₁ p₂ : Program} {c₁ : Code} (h : s.Valid) (h₁ : s.compile p₁ = .ok c₁)
    (h₂ : p₂.distinct = true) :
    ∃ c₂ c mid extra, p₂.compileWith c₁.names.toList = .ok c₂ ∧
      s.compile ⟨p₁.body ++ p₂.body⟩ = .ok c ∧ Code.Joins c₁ c₂ c mid ∧
      c₂.names.toList = c₁.names.toList ++ extra ∧
      (s.machine.load c₁).Twin extra (s.machine.load c) := by
  have hd₁ : p₁.distinct = true := (p₁.compileWith_accepts _).mp ⟨c₁, h₁⟩
  obtain ⟨c₂, hc₂⟩ := (p₂.compileWith_accepts c₁.names.toList).mpr h₂
  have hd : Program.distinct ⟨p₁.body ++ p₂.body⟩ = true := by
    rw [Program.distinct, blockDistinct_append, Bool.and_eq_true]
    exact ⟨hd₁, h₂⟩
  obtain ⟨c, hc⟩ := (Program.compileWith_accepts _ s.machine.globalNames).mpr hd
  obtain ⟨mid, hj⟩ := Program.compileWith_joins h₁ hc₂ hc
  obtain ⟨extra, hextra⟩ := hj.layout
  obtain ⟨sc, hsc, hsized, hnames⟩ := h.globals_scope
  obtain ⟨more, hmore⟩ := h.names_compile h₁
  rw [hnames] at hmore
  refine ⟨c₂, c, mid, extra, hc₂, hc, hj, hextra.symm, ?_⟩
  exact Machine.twin_load hsc hsized hmore.symm (by rw [hj.names, hextra])

variable {s s₁ : Session} {p₁ p₂ : Program} {c₁ : Code} {fuel : Nat}

theorem execute_ok {v : Value} (h : s.execute fuel c₁ = (.ok v, s₁)) :
    ∃ m, (s.machine.load c₁).run fuel = (.returned v, m) ∧ s₁ = { s with machine := m } := by
  unfold execute at h
  cases hr : (s.machine.load c₁).run fuel with
  | mk finish m =>
    rw [hr] at h
    cases finish <;> cases h
    exact ⟨m, rfl, rfl⟩

theorem execute_failed {e : RuntimeError} {place : String}
    (h : s.execute fuel c₁ = (.error (.runtime e place), s₁)) :
    ∃ m, (s.machine.load c₁).run fuel = (.failed e place, m) ∧ s₁ = { s with machine := m } := by
  unfold execute at h
  cases hr : (s.machine.load c₁).run fuel with
  | mk finish m =>
    rw [hr] at h
    cases finish <;> cases h
    exact ⟨m, rfl, rfl⟩

/-- Where the first script comes to its end, the joined script stands before the second one. -/
theorem Valid.joined_at_end (h : s.Valid) (h₁ : s.compile p₁ = .ok c₁) (h₂ : p₂.distinct = true)
    {n : Nat} {m₁ m₂ : Machine} {v : Value} (hsteps : Steps n (s.machine.load c₁) m₁)
    (hdone : m₁.step = (.done v, m₂)) (hret : m₁.returnsEarly = false) :
    v = .undefined ∧ ∃ c₂ c mid m', p₂.compileWith m₂.globalNames = .ok c₂ ∧
      s.compile ⟨p₁.body ++ p₂.body⟩ = .ok c ∧ Code.Joins c₁ c₂ c mid ∧
      Steps n (s.machine.load c) m' ∧ (m₂.load c₂).Valid ∧ (m₂.load c₂).Twin [] m' ∧
      Machine.Frames mid c₂ c (m₂.load c₂).frames m'.frames := by
  obtain ⟨c₂, c, mid, extra, hc₂, hc, hj, hextra, ht⟩ := h.joined h₁ h₂
  have hv := Machine.valid_load h.store h₁
  have hv₁ := hv.steps hsteps
  obtain ⟨m', hsteps', ht₁, hf₁⟩ :=
    Machine.Frames.steps hj.first hj.size hj.ret hsteps hv ht (.base 0 [])
  obtain ⟨f, arg, hfr, hi, rfl⟩ := hv₁.step_done hdone
  have hend : f.pc + 1 = f.code.code.size := by
    simpa [Machine.returnsEarly, hfr, hi] using hret
  generalize hfr' : m'.frames = fs' at hf₁
  rw [hfr] at hf₁
  cases hf₁ with
  | above _ rest => cases rest
  | base pc st =>
    obtain rfl : pc = mid := by
      have hsize := hj.size
      simp only at hend
      omega
    obtain rfl : st = [] := hv₁.stack_nil hfr hj.ret
    have hvalue : v = .undefined := by
      rw [Machine.step_of_frames hfr hj.ret] at hdone
      cases hdone
      rfl
    obtain ⟨sc, hsc, hnames⟩ := (hv₁.innermost hfr).scope
    have hc₂' : p₂.compileWith m₁.globalNames = .ok c₂ := by
      simpa [Machine.globalNames, hsc, hnames] using hc₂
    have hload : (m₁.load c₂).Twin [] m' := ht₁.load hsc (by rw [hextra, hnames])
    refine ⟨hvalue, c₂, c, pc, m', hc₂', hc, hj, hsteps', Machine.valid_load hv₁.store hc₂, hload, ?_⟩
    rw [hfr', Nat.zero_add]
    exact .base 0 []

/-- If the first script comes to its end, the joined script goes on as the second one would. -/
theorem Valid.runProgram_append (h : s.Valid) (hd : s.debug = false) (h₁ : s.compile p₁ = .ok c₁)
    (h₂ : p₂.distinct = true) {v : Value} (hrun : s.runProgram fuel p₁ = (.ok v, s₁))
    (hret : s.NeverReturns p₁) :
    ∃ n < fuel, ∀ fuel₂, SameOutcome (s₁.runProgram fuel₂ p₂)
      (s.runProgram (n + fuel₂) ⟨p₁.body ++ p₂.body⟩) := by
  rw [runProgram_eq hd h₁] at hrun
  obtain ⟨m₂, hr, rfl⟩ := execute_ok hrun
  obtain ⟨n, hn, m₁, hsteps, hdone⟩ := Machine.exists_steps_of_returned hr
  obtain ⟨-, c₂, c, mid, m', hc₂, hc, hj, hsteps', hv₂, htwin, hframes⟩ :=
    h.joined_at_end h₁ h₂ hsteps hdone (hret c₁ n m₁ h₁ hsteps)
  refine ⟨n, hn, fun fuel₂ => ?_⟩
  obtain ⟨hsame, htwin₂⟩ := hframes.run hj.second hv₂ htwin fuel₂
  rw [runProgram_eq (s := { s with machine := m₂ }) hd hc₂, runProgram_eq hd hc]
  refine sameOutcome_execute ?_ ?_
  · rw [hsteps'.run_add]
    exact hsame
  · rw [hsteps'.run_add]
    exact htwin₂

/-- If the first script fails, the joined script fails with it. -/
theorem Valid.runProgram_append_failed (h : s.Valid) (hd : s.debug = false)
    (h₁ : s.compile p₁ = .ok c₁) (h₂ : p₂.distinct = true) {e : RuntimeError} {place : String}
    (hrun : s.runProgram fuel p₁ = (.error (.runtime e place), s₁)) :
    ∃ s' c₂ extra,
      s.runProgram fuel ⟨p₁.body ++ p₂.body⟩ = (.error (.runtime e place), s') ∧
      s'.output = s₁.output ∧ s₁.compile p₂ = .ok c₂ ∧
      c₂.names.toList = s₁.machine.globalNames ++ extra ∧
      s'.globals = s₁.globals ++ extra.map fun x => (x, none) := by
  obtain ⟨c₂, c, mid, extra, hc₂, hc, hj, hextra, ht⟩ := h.joined h₁ h₂
  have hv := Machine.valid_load h.store h₁
  rw [runProgram_eq hd h₁] at hrun
  obtain ⟨m₂, hr, rfl⟩ := execute_failed hrun
  have hnames : m₂.globalNames = c₁.names.toList := by
    have hrun₁ := Machine.globalNames_run h.store.globals c₁ fuel
    rwa [hr] at hrun₁
  obtain ⟨n, hn, m₁, m₁₁, hsteps, hstep, rfl, rfl⟩ := Machine.exists_steps_of_failed hr
  obtain ⟨m', hsteps', ht₁, hf₁⟩ :=
    Machine.Frames.steps hj.first hj.size hj.ret hsteps hv ht (.base 0 [])
  have hplace (pc : Nat) (hpc : pc < mid) : c.location (0 + pc) = c₁.location pc := by
    simp only [Nat.zero_add, Code.location, hj.name, hj.same pc hpc]
  obtain ⟨m'₁, hstep', ht₂, hloc⟩ := hf₁.step_failed hj.first hj.size hj.ret hplace
    (hv.steps hsteps) ht₁ hstep
  have hrun' : (s.machine.load c).run fuel = (.failed e m'₁.location, m'₁.discard) := by
    obtain ⟨k, rfl⟩ : ∃ k, fuel = n + (k + 1) := ⟨fuel - n - 1, by omega⟩
    rw [hsteps'.run_add, Machine.run, hstep']
  have htwin : m₁₁.discard.Twin extra m'₁.discard := { ht₂ with }
  refine ⟨{ s with machine := m'₁.discard }, c₂, extra, ?_, htwin.output, ?_, ?_, htwin.globals⟩
  · rw [runProgram_eq hd hc, Session.execute, hrun', hloc]
  · rw [Session.compile, hnames]
    exact hc₂
  · rw [hnames, hextra]

theorem debug_execute (s : Session) (fuel : Nat) (code : Code) :
    (s.execute fuel code).2.debug = s.debug := by
  unfold execute
  split <;> rfl

theorem debug_runProgram (s : Session) (fuel : Nat) (p : Program) :
    (s.runProgram fuel p).2.debug = s.debug := by
  unfold runProgram
  split
  · rfl
  · split
    · split
      · next hp => rw [debug_execute, ← congrArg (·.2.debug) hp]; rfl
      · next hp => rw [← congrArg (·.2.debug) hp]; rfl
    · exact debug_execute _ _ _

theorem debug_serve (s : Session) (fuel : Nat) (r : Request) :
    (s.serve fuel r).2.debug = s.debug := by
  cases r with
  | program p => exact debug_runProgram s fuel p
  | source text =>
    unfold serve run
    cases hp : Program.parse text with
    | error e => simp only [hp]
    | ok p =>
      simp only [hp]
      exact debug_runProgram s fuel p
  | redirect output => rfl

theorem debug_after (s : Session) (past : List (Nat × Request)) :
    (s.after past).debug = s.debug := by
  induction past generalizing s with
  | nil => rfl
  | cons r past ih => exact (ih _).trans (debug_serve s r.1 r.2)

/-- Running two scripts and running them as one have the same result, output and variables, if the
first one comes to its end. If it fails, the joined script fails in the same place, with the same
output and variables, and the names that only the second script has get no values. -/
theorem scripts_compose {s : Session} {limits : Limits} {output : Output}
    {past : List (Nat × Request)} (hs : s = (start limits output).after past)
    (hd : limits.debug = false) {p₁ p₂ : Program} (h₁ : ∃ c, s.compile p₁ = .ok c)
    (h₂ : ∃ c, s.compile p₂ = .ok c) :
    (∀ fuel v s₁, s.runProgram fuel p₁ = (.ok v, s₁) → s.NeverReturns p₁ →
      ∃ n < fuel, ∀ fuel₂, SameOutcome (s₁.runProgram fuel₂ p₂)
        (s.runProgram (n + fuel₂) ⟨p₁.body ++ p₂.body⟩)) ∧
    ∀ fuel e place s₁, s.runProgram fuel p₁ = (.error (.runtime e place), s₁) →
      ∃ s' c₂ extra,
        s.runProgram fuel ⟨p₁.body ++ p₂.body⟩ = (.error (.runtime e place), s') ∧
        s'.output = s₁.output ∧ s₁.compile p₂ = .ok c₂ ∧
        c₂.names.toList = s₁.machine.globalNames ++ extra ∧
        s'.globals = s₁.globals ++ extra.map fun x => (x, none) := by
  obtain ⟨c₁, hc₁⟩ := h₁
  have hv : s.Valid := hs ▸ (valid_start limits output).after past
  have hdebug : s.debug = false := by rw [hs, debug_after, start, hd]
  have hd₂ : p₂.distinct = true := (p₂.compileWith_accepts _).mp h₂
  exact ⟨fun fuel v s₁ hrun hret => hv.runProgram_append hdebug hc₁ hd₂ hrun hret,
    fun fuel e place s₁ hrun => hv.runProgram_append_failed hdebug hc₁ hd₂ hrun⟩

/-- Defines a function that reads a variable which only `reader` gives a value. -/
def definer : Program := ⟨[.expr (.function "f" [] [.ret (some (.name "y"))])]⟩

def reader : Program := ⟨[.assign "y" (.text "a"), .ret (some (.call (.name "f") []))]⟩

/-- Reads the variable before it has a value. -/
def hasty : Program := ⟨[.assign "x" (.text "b"), .expr (.name "y")]⟩

theorem scripts_compose_failedOnce :
    ((failedOnce.runProgram 9 definer).1 = .ok .undefined ∧ failedOnce.NeverReturns definer ∧
      ∃ n < 9, ∀ fuel₂, SameOutcome ((failedOnce.runProgram 9 definer).2.runProgram fuel₂ reader)
        (failedOnce.runProgram (n + fuel₂) ⟨definer.body ++ reader.body⟩)) ∧
    ∃ e place s', (failedOnce.runProgram 9 hasty).1 = .error (.runtime e place) ∧
      failedOnce.runProgram 9 ⟨hasty.body ++ reader.body⟩ = (.error (.runtime e place), s') := by
  have hcompiles (p : Program) (hp : p.distinct = true) : ∃ c, failedOnce.compile p = .ok c :=
    (p.compileWith_accepts _).mpr hp
  have hreader := hcompiles reader (by decide)
  constructor
  · have hdefiner := hcompiles definer (by decide)
    have hend : (failedOnce.runProgram 9 definer).1 = .ok .undefined := by with_unfolding_all rfl
    have hret : failedOnce.NeverReturns definer :=
      neverReturns_of_endsInOrder 9 (by decide +kernel)
    exact ⟨hend, hret, (scripts_compose rfl rfl hdefiner hreader).1 9 _ _ (Prod.ext hend rfl) hret⟩
  · have hfail : (failedOnce.runProgram 9 hasty).1 =
        .error (.runtime (.undefinedVariable "y") "<main> #2 LOAD_VAR 0") := by
      with_unfolding_all rfl
    obtain ⟨s', _, _, hrun, -⟩ := (scripts_compose rfl rfl (hcompiles hasty (by decide))
      hreader).2 9 _ _ _ (Prod.ext hfail rfl)
    exact ⟨_, _, s', hfail, hrun⟩

end Session

end Scriptlet
