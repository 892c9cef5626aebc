import Scriptlet.Session
import Scriptlet.Proofs.Machine.Effects
import Scriptlet.Proofs.Machine.Validity

/-! Whatever a session ran before, the code of the next script finds all it needs. -/
namespace Scriptlet

namespace Machine

/-- The machine can carry out its next instruction, and all its frames have code that fits. -/
structure Executable (m : Machine) : Prop where
  next : ∃ f cs i, m.frames = f :: cs ∧ f.code.code[f.pc]? = some i ∧ i.operands ≤ f.stack.length
  code : ∀ f ∈ m.frames, ∀ (pc : Nat) (i : Instruction), f.code.code[pc]? = some i →
    i.InRange f.code
  scope : ∀ f ∈ m.frames, ∃ sc, m.store.scopes[f.scope]? = some sc ∧ sc.names = f.code.names ∧
    sc.vars.size = f.code.names.size
  /-- A function that may be called has slots for its parameters. -/
  params : ∀ f ∈ m.frames, ∀ g, Value.function g ∈ f.stack → g.code.argCount ≤ g.code.names.size

variable {m : Machine}

theorem Valid.executable (h : m.Valid) : m.Executable := by
  refine ⟨?_, fun g hg pc i hi => ?_, fun g hg => ?_, fun g hg k hk => ?_⟩
  · obtain ⟨f, cs, hfr, hf, -⟩ := h.frames
    obtain ⟨hs, hc, hh⟩ := hf.height
    obtain ⟨i, hi, hfit⟩ := hc.fits hh
    exact ⟨f, cs, i, hfr, hi, hfit.operands_le⟩
  · obtain ⟨_, hgv⟩ := h.frame hg
    obtain ⟨hs, hc, -⟩ := hgv.height
    exact hc.inRange hi
  · obtain ⟨_, hgv⟩ := h.frame hg
    obtain ⟨sc, hsc, hn⟩ := hgv.scope
    exact ⟨sc, hsc, hn, by rw [(h.store.scopes _ sc hsc).sized, hn]⟩
  · obtain ⟨_, hgv⟩ := h.frame hg
    obtain ⟨hkv, -⟩ := hgv.values _ hk k rfl
    obtain ⟨-, params, -⟩ := hkv
    exact params

theorem globalScope_load (code : Code) {sc : Scope} (hs : m.store.scopes[globalScope]? = some sc) :
    (m.load code).store.scopes[globalScope]? = some (sc.adopt code.names) := by
  simp [load, Store.modify, Array.getElem?_modify, hs]

/-- A script leaves the names of its code. -/
theorem globalNames_run (hglobals : globalScope < m.store.scopes.size) (code : Code) (fuel : Nat) :
    ((m.load code).run fuel).2.globalNames = code.names.toList := by
  have h₀ := globalScope_load code (Array.getElem?_eq_getElem hglobals)
  obtain ⟨sc, hs, hn⟩ := (m.load code).run_keeps fuel _ _ h₀
  simp [globalNames, hs, hn, Scope.names_adopt]

theorem valid_load {p : Program} {names : List String} {code : Code} (hst : m.store.Valid)
    (hc : p.compileWith names = .ok code) : (m.load code).Valid := by
  have h₀ := Array.getElem?_eq_getElem hst.globals
  have hcode := Program.compileWith_valid hc
  have hstore : (m.load code).store.Valid := by
    refine ⟨by simpa [load, Store.modify] using hst.globals, fun id sc hs => ?_⟩
    simp only [load, Store.modify, Array.getElem?_modify, Array.size_modify] at hs ⊢
    split at hs
    · obtain ⟨old, ho, rfl⟩ := Option.map_eq_some_iff.mp hs
      exact (hst.scopes id old ho).adopt code.names
    · exact hst.scopes id sc hs
  obtain ⟨checked, -, -⟩ := id hcode
  exact ⟨hstore, .start code globalScope, [], rfl, ⟨hcode, ⟨_, checked, checked.entry⟩,
    by simp [Frame.start], _, globalScope_load code h₀, Scope.names_adopt _ _⟩, by simp⟩

end Machine

namespace Session

variable {s : Session} {p : Program} {code : Code}

/-- All values of a session can be used by the scripts to come. -/
structure Valid (s : Session) : Prop where
  store : s.machine.store.Valid
  names : s.machine.globalNames.Nodup

theorem valid_start (limits : Limits) (output : Output) : (start limits output).Valid := by
  refine ⟨⟨by simp [start, Machine.start], fun id sc hs => ?_⟩, List.nodup_nil⟩
  obtain ⟨hid, rfl⟩ := Array.getElem?_eq_some_iff.mp hs
  obtain rfl : id = 0 := by simpa [start, Machine.start] using hid
  exact ⟨rfl, by simp [start, Machine.start, Scope.ofNames, Scope.get?]⟩

theorem Valid.print (h : s.Valid) (text : String) : (s.print text).2.Valid := ⟨h.store, h.names⟩

/-- However a run ends, its code was not at fault and the session stays valid. -/
theorem Valid.execute (h : s.Valid) {names : List String} (hc : p.compileWith names = .ok code)
    (fuel : Nat) :
    (s.execute fuel code).2.Valid ∧
      ∀ fault location, (s.execute fuel code).1 ≠ .error (.runtime (.invalidCode fault) location) := by
  obtain ⟨hstore, hfault⟩ := (Machine.valid_load h.store hc).run fuel
  have hnames : ((s.machine.load code).run fuel).2.globalNames.Nodup := by
    obtain ⟨⟨last, hruns⟩, -⟩ := Program.compileWith_runs hc
    rw [Machine.globalNames_run h.store.globals]
    exact hruns.nodup
  unfold Session.execute
  cases hr : (s.machine.load code).run fuel with
  | mk finish machine =>
    rw [hr] at hstore hfault hnames
    cases finish with
    | returned v => exact ⟨⟨hstore, hnames⟩, by simp⟩
    | unfinished => exact ⟨⟨hstore, hnames⟩, by simp⟩
    | failed e location =>
      refine ⟨⟨hstore, hnames⟩, fun fault location he => hfault fault location ?_⟩
      simpa using he

theorem Valid.runProgram (h : s.Valid) (fuel : Nat) (p : Program) :
    (s.runProgram fuel p).2.Valid ∧
      ∀ fault location, (s.runProgram fuel p).1 ≠ .error (.runtime (.invalidCode fault) location) := by
  unfold Session.runProgram
  cases hc : s.compile p with
  | error e => exact ⟨h, by simp⟩
  | ok code =>
    by_cases hd : s.debug = true
    · have hp := h.print code.listing
      simp only [hd, if_true]
      cases hpr : s.print code.listing with
      | mk ok s' =>
        rw [hpr] at hp
        cases ok with
        | true => exact hp.execute hc fuel
        | false => exact ⟨hp, by simp⟩
    · simpa [hd] using h.execute hc fuel

theorem Valid.run (h : s.Valid) (fuel : Nat) (source : String) :
    (s.run fuel source).2.Valid ∧
      ∀ fault location, (s.run fuel source).1 ≠ .error (.runtime (.invalidCode fault) location) := by
  unfold Session.run
  cases Program.parse source with
  | error e => exact ⟨h, by simp⟩
  | ok p => exact h.runProgram fuel p

end Session

/-- What a session can be asked for: to run a script, as text or as a tree, or to print to another
output from now on, for instance because the one that it has is full. -/
inductive Request where
  | source (text : String)
  | program (p : Program)
  | redirect (output : Output)

namespace Session

def redirect (s : Session) (output : Output) : Session :=
  { s with machine := { s.machine with output } }

def serve (fuel : Nat) (s : Session) : Request → Except ScriptError Value × Session
  | .source text => s.run fuel text
  | .program p => s.runProgram fuel p
  | .redirect output => (.ok .undefined, s.redirect output)

/-- The session after several requests, each with its number of steps, whatever became of them. -/
def after (s : Session) (past : List (Nat × Request)) : Session :=
  past.foldl (fun s r => (s.serve r.1 r.2).2) s

variable {s : Session}

theorem serve_source (s : Session) (fuel : Nat) (text : String) :
    s.serve fuel (.source text) = s.run fuel text := rfl

theorem Valid.redirect (h : s.Valid) (output : Output) : (s.redirect output).Valid :=
  ⟨h.store, h.names⟩

theorem Valid.serve (h : s.Valid) (fuel : Nat) (r : Request) :
    (s.serve fuel r).2.Valid ∧
      ∀ fault location, (s.serve fuel r).1 ≠ .error (.runtime (.invalidCode fault) location) := by
  cases r with
  | source text => exact h.run fuel text
  | program p => exact h.runProgram fuel p
  | redirect output => exact ⟨h.redirect output, by simp [Session.serve]⟩

theorem Valid.after (h : s.Valid) (past : List (Nat × Request)) : (s.after past).Valid := by
  induction past generalizing s with
  | nil => exact h
  | cons r past ih => exact ih (h.serve r.1 r.2).1

/-- No request ever ends with a fault of compiled code, and the machine can carry out its next
instruction at every step of every script, whatever the session was asked for before. -/
theorem compiled_code_never_at_fault (limits : Limits) (output : Output)
    (past : List (Nat × Request)) :
    (∀ fuel r fault location, (((start limits output).after past).serve fuel r).1 ≠
      .error (.runtime (.invalidCode fault) location)) ∧
    ∀ p code out n m, ((start limits output).after past).compile p = .ok code →
      Machine.Steps n
        ({ ((start limits output).after past).machine with output := out }.load code) m →
      m.Executable ∧ ∀ fault m', m.step ≠ (.failed (.invalidCode fault), m') := by
  have h := (valid_start limits output).after past
  refine ⟨fun fuel r => (h.serve fuel r).2, fun p code out n m hc hm => ?_⟩
  have hload := Machine.valid_load
    (m := { ((start limits output).after past).machine with output := out }) h.store hc
  have hv := hload.steps hm
  refine ⟨hv.executable, fun fault m' hs => ?_⟩
  have hsafe := hv.step
  rw [hs] at hsafe
  exact hsafe.2 fault rfl

/-- A session whose first script failed. -/
def failedOnce : Session :=
  (start {} .unlimited).after [(9, .program ⟨[.assign "x" (.name "y")]⟩)]

/-- A script that is inside a call after five steps. -/
def callOnce : Program :=
  ⟨[.expr (.call (.function "f" ["v"] [.ret (some (.name "v"))]) [.boolean true])]⟩

theorem compiled_code_never_at_fault_failedOnce :
    ∃ code m, failedOnce.compile callOnce = .ok code ∧
      Machine.Steps 5 (failedOnce.machine.load code) m ∧ m.Executable ∧
      ∀ fault m', m.step ≠ (.failed (.invalidCode fault), m') := by
  have hrun : (failedOnce.compile callOnce).map (fun code =>
      ((failedOnce.machine.load code).run 5).1) = .ok .unfinished := by
    with_unfolding_all rfl
  cases hc : failedOnce.compile callOnce with
  | error e =>
    rw [hc] at hrun
    cases hrun
  | ok code =>
    have hu : ((failedOnce.machine.load code).run 5).1 = .unfinished := by
      rw [hc] at hrun
      exact Except.ok.inj hrun
    have h := (compiled_code_never_at_fault {} .unlimited
      [(9, .program ⟨[.assign "x" (.name "y")]⟩)]).2 callOnce code _ 5 _ hc (.of_unfinished hu)
    exact ⟨code, _, rfl, .of_unfinished hu, h⟩

end Session
end Scriptlet
