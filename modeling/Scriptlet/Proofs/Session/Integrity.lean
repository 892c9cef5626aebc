import Scriptlet.Proofs.Session.Calls
import Scriptlet.Proofs.Session.Parts

/-! Scripts that fail do no harm: whatever was run before, a session is ready for the next script,
and its global variables are those that were there, with the values that were assigned. -/
namespace Scriptlet

namespace Machine

/-- The next instruction stands outside functions and assigns this slot. -/
def AssignsGlobal (m : Machine) (slot : Nat) : Prop :=
  ∃ f, m.frames = [f] ∧ f.code.code[f.pc]? = some ⟨.assign, slot⟩

instance (m : Machine) (slot : Nat) : Decidable (m.AssignsGlobal slot) :=
  match h : m.frames with
  | [f] => decidable_of_iff (f.code.code[f.pc]? = some ⟨.assign, slot⟩) (by simp [AssignsGlobal, h])
  | [] | _ :: _ :: _ => isFalse (by simp [AssignsGlobal, h])

/-- Whether the run ends within this many steps and none of them assigns the slot outside
functions. -/
def spares (slot : Nat) : Nat → Machine → Bool
  | 0, _ => false
  | fuel + 1, m => !decide (m.AssignsGlobal slot) &&
    match m.step with
    | (.running, m') => spares slot fuel m'
    | _ => true

/-- The value of a global variable by its slot. -/
def globalAt? (m : Machine) (slot : Nat) : Option Value :=
  m.store.scopes[globalScope]?.bind (·.get? slot)

section Runs
variable {m : Machine} {slot : Nat}

theorem global?_eq (m : Machine) (x : String) :
    m.global? x = m.store.scopes[globalScope]?.bind (·.named? x) := by
  unfold global?
  rw [Store.named?]
  cases m.store.scopes[globalScope]? with
  | none => rfl
  | some sc =>
    -- nothing is outside the global scope
    cases hx : sc.named? x with
    | some v => simp [hx]
    | none => cases hp : sc.parent <;> simp [hx, hp, globalScope]

theorem Change.globalAt? {st : Store} {s : Nat} {i : Instruction} (h : Change m.store s i st)
    (hglobals : globalScope < m.store.scopes.size) (hi : i ≠ ⟨.assign, slot⟩) :
    st.scopes[globalScope]?.bind (·.get? slot) = m.globalAt? slot := by
  unfold Machine.globalAt?
  cases h with
  | same => rfl
  | opens sc => rw [Array.getElem?_push_lt hglobals, Array.getElem?_eq_getElem hglobals]
  | assigns op set =>
    obtain ⟨sc, hs, hslot, rfl⟩ := Store.exists_of_set? set
    have hne : slot ≠ i.arg := by
      intro heq
      apply hi
      rw [heq, ← op]
    by_cases hs₀ : s = globalScope
    · subst hs₀
      rw [hs]
      simp [hglobals, Scope.get?_set hslot, hne]
    · simp [hs₀]

theorem Rooted.globalAt?_step (h : Rooted m.frames) (hglobals : globalScope < m.store.scopes.size)
    (hnot : ¬ m.AssignsGlobal slot) : m.step.2.globalAt? slot = m.globalAt? slot := by
  by_cases hdeep : 1 < m.frames.length
  · unfold globalAt?
    rw [h.globalScope_step hglobals hdeep]
  · generalize hfr : m.frames = fs at h hdeep
    cases h with
    | above inner rest => cases rest <;> simp at hdeep
    | base f =>
      cases hi : f.code.code[f.pc]? with
      | none => simp only [step, hfr, hi]
      | some i =>
        have hother : i ≠ ⟨.assign, slot⟩ := by
          intro heq
          exact hnot ⟨f, hfr, heq ▸ hi⟩
        exact (change_step hfr hi).globalAt? hglobals hother

theorem globalAt?_run (fuel : Nat) (h : Rooted m.frames)
    (hglobals : globalScope < m.store.scopes.size)
    (hnot : ∀ n m', Steps n m m' → ¬ m'.AssignsGlobal slot) :
    (m.run fuel).2.globalAt? slot = m.globalAt? slot := by
  induction fuel generalizing m with
  | zero => rfl
  | succ fuel ih =>
    have hstep := h.globalAt?_step hglobals (hnot 0 m (.refl m))
    have hkeeps := m.step_keeps.size_le
    rw [run]
    cases hs : m.step with
    | mk status m' =>
      rw [hs] at hstep hkeeps
      cases status with
      | running =>
        have hrooted : Rooted m'.frames := h.steps hglobals (.single hs)
        have hrest := ih hrooted (hglobals.trans_le hkeeps)
          fun n m₁ hsteps => hnot (n + 1) m₁ (.head hs hsteps)
        exact hrest.trans hstep
      | done v => exact hstep
      | failed e => exact hstep

theorem not_assignsGlobal_of_spares {fuel n : Nat} {m' : Machine} (h : spares slot fuel m = true)
    (hs : Steps n m m') : ¬ m'.AssignsGlobal slot := by
  induction hs generalizing fuel with
  | refl m =>
    cases fuel with
    | zero => cases h
    | succ fuel =>
      rw [spares, Bool.and_eq_true] at h
      simpa using h.1
  | head first _ ih =>
    cases fuel with
    | zero => cases h
    | succ fuel =>
      rw [spares, first, Bool.and_eq_true] at h
      exact ih h.2

/-- A run that has ended has left every frame. -/
theorem frames_run {fuel : Nat} (h : (m.run fuel).1 ≠ .unfinished) : (m.run fuel).2.frames = [] := by
  induction fuel generalizing m with
  | zero => exact absurd rfl h
  | succ fuel ih =>
    rw [run] at h ⊢
    cases hs : m.step with
    | mk status m' =>
      rw [hs] at h
      cases status with
      | running => exact ih h
      | failed e => rfl
      | done v =>
        cases hfr : m.frames with
        | nil =>
          simp only [step, hfr] at hs
          obtain ⟨-, rfl⟩ := Prod.mk.inj hs
          exact hfr
        | cons f cs =>
          have hmove := (effect_step hfr).move
          rw [hs] at hmove
          cases hmove with
          | stays _ unfinished => exact absurd rfl (unfinished v)
          | ends _ _ frames => exact frames

/-- A global variable that a script does not assign keeps its value. -/
theorem global?_run {code : Code} {sc : Scope} {x : String}
    (hsc : m.store.scopes[globalScope]? = some sc) (hsized : sc.vars.size = sc.names.size)
    (hmore : sc.names.toList ⊆ code.names.toList) (hnodup : code.names.toList.Nodup) (fuel : Nat)
    (hnot : ∀ slot n m', code.names[slot]? = some x → Steps n (m.load code) m' →
      ¬ m'.AssignsGlobal slot) :
    ((m.load code).run fuel).2.global? x = m.global? x := by
  have hload := globalScope_load code hsc
  obtain ⟨last, hlast, hnames⟩ := (m.load code).run_keeps fuel _ _ hload
  rw [Scope.names_adopt] at hnames
  rw [global?_eq, global?_eq, hlast, hsc, Option.bind_some, Option.bind_some]
  by_cases hx : x ∈ code.names.toList
  · obtain ⟨slot, hslot⟩ := List.mem_iff_getElem?.mp hx
    rw [Array.getElem?_toList] at hslot
    have hkept := globalAt?_run fuel (.base _) (lt_size_of_getElem? hload) (hnot slot · · hslot)
    simp only [globalAt?, hlast, hload, Option.bind_some] at hkept
    have hadopted : (sc.adopt code.names).named? x = (sc.adopt code.names).get? slot := by
      apply Scope.named?_of_slot
      · rw [Scope.names_adopt]
        exact hnodup
      · rw [Scope.names_adopt]
        exact hslot
    calc last.named? x = last.get? slot := Scope.named?_of_slot (hnames ▸ hnodup) (hnames ▸ hslot)
      _ = (sc.adopt code.names).named? x := hkept.trans hadopted.symm
      _ = sc.named? x := by rw [Scope.named?_adopt hsized, if_pos hx]
  · rw [Scope.named?_eq_none (hnames ▸ hx), Scope.named?_eq_none fun hold => hx (hmore hold)]

end Runs
end Machine

namespace Session

open Machine (globalScope Steps)

/-- No frame is left, no global name occurs twice, and each name has one place for its value. -/
structure Sound (s : Session) : Prop where
  frames : s.machine.frames = []
  names : s.machine.globalNames.Nodup
  slots : ∃ sc, s.machine.store.scopes[globalScope]? = some sc ∧ sc.vars.size = sc.names.size

/-- The script is read, compiled to this code and, if asked for, listed. -/
structure Starts (s : Session) (source : String) (code : Code) : Prop where
  compiled : ∃ p, Program.parse source = .ok p ∧ s.compile p = .ok code
  printed : s.debug = true → (s.print code.listing).1 = true

/-- The session when the code begins to run. -/
def listed (s : Session) (code : Code) : Session :=
  if s.debug then (s.print code.listing).2 else s

instance (r : Except ScriptError Value) : Decidable (r = .error .unfinished) :=
  match r with
  | .error .unfinished => isTrue rfl
  | .ok _ | .error (.parse _) | .error (.compile _) | .error (.runtime _ _)
  | .error (.unreadable _ _) => isFalse (by simp)

/-- Each of the requests comes to an end. -/
def Ends (s : Session) : List (Nat × Request) → Prop
  | [] => True
  | r :: later => (s.serve r.1 r.2).1 ≠ .error .unfinished ∧ (s.serve r.1 r.2).2.Ends later

instance decidableEnds (s : Session) : (past : List (Nat × Request)) → Decidable (s.Ends past)
  | [] => isTrue trivial
  | r :: later =>
    have := decidableEnds (s.serve r.1 r.2).2 later
    inferInstanceAs (Decidable (_ ∧ _))

variable {s : Session} {source : String} {code : Code} {fuel : Nat}

theorem store_listed (s : Session) (code : Code) :
    (s.listed code).machine.store = s.machine.store := by
  unfold listed
  split <;> rfl

theorem run_of_starts (h : s.Starts source code) (fuel : Nat) :
    s.run fuel source = (s.listed code).execute fuel code := by
  obtain ⟨p, hp, hc⟩ := h.compiled
  rw [run_of_parse hp]
  unfold runProgram listed
  by_cases hd : s.debug = true
  · have hok := h.printed hd
    simp only [hc, if_pos hd]
    cases hpr : s.print code.listing with
    | mk ok s' =>
      rw [hpr] at hok
      obtain rfl : ok = true := hok
      rfl
  · simp only [hc, if_neg hd]

/-- A script that does not get as far as running changes nothing but the output. -/
theorem run_of_not_starts (h : ∀ code, ¬ s.Starts source code) (fuel : Nat) :
    ∃ e, (s.run fuel source).1 = .error e ∧
      (s.run fuel source).2.machine = { s.machine with output := (s.run fuel source).2.output } := by
  cases hp : Program.parse source with
  | error e =>
    unfold run
    simp only [hp]
    exact ⟨_, rfl, rfl⟩
  | ok p =>
    rw [run_of_parse hp]
    unfold runProgram
    cases hc : s.compile p with
    | error e => exact ⟨_, rfl, rfl⟩
    | ok code =>
      by_cases hd : s.debug = true
      · have hfull : (s.print code.listing).1 = false := by
          by_contra hok
          exact h code ⟨⟨p, hp, hc⟩, fun _ => by simpa using hok⟩
        simp only [if_pos hd]
        cases hpr : s.print code.listing with
        | mk ok s' =>
          rw [hpr] at hfull
          obtain rfl : ok = false := hfull
          have hs' : s' = (s.print code.listing).2 := by rw [hpr]
          subst hs'
          exact ⟨_, rfl, rfl⟩
      · exact absurd ⟨⟨p, hp, hc⟩, fun hd' => absurd hd' hd⟩ (h code)

theorem machine_execute (s : Session) (fuel : Nat) (code : Code) :
    (s.execute fuel code).2.machine = ((s.machine.load code).run fuel).2 := by
  unfold execute
  cases (s.machine.load code).run fuel with
  | mk finish m => cases finish <;> rfl

theorem run_of_finished (h : (s.execute fuel code).1 ≠ .error .unfinished) :
    ((s.machine.load code).run fuel).1 ≠ .unfinished := by
  intro hu
  apply h
  unfold execute
  cases hr : (s.machine.load code).run fuel with
  | mk finish m =>
    rw [hr] at hu
    obtain rfl : finish = .unfinished := hu
    rfl

theorem frames_execute (ended : (s.execute fuel code).1 ≠ .error .unfinished) :
    (s.execute fuel code).2.machine.frames = [] := by
  rw [machine_execute]
  exact Machine.frames_run (run_of_finished ended)

theorem frames_runProgram {p : Program} (h : s.machine.frames = [])
    (ended : (s.runProgram fuel p).1 ≠ .error .unfinished) :
    (s.runProgram fuel p).2.machine.frames = [] := by
  unfold runProgram at ended ⊢
  cases hc : s.compile p with
  | error e => exact h
  | ok code =>
    simp only [hc] at ended ⊢
    by_cases hd : s.debug = true
    · simp only [if_pos hd] at ended ⊢
      have hprinted : (s.print code.listing).2.machine.frames = [] := h
      cases hpr : s.print code.listing with
      | mk ok s' =>
        rw [hpr] at ended hprinted
        cases ok with
        | true => exact frames_execute ended
        | false => exact hprinted
    · simp only [if_neg hd] at ended ⊢
      exact frames_execute ended

theorem frames_serve {r : Request} (h : s.machine.frames = [])
    (ended : (s.serve fuel r).1 ≠ .error .unfinished) : (s.serve fuel r).2.machine.frames = [] := by
  cases r with
  | redirect output => exact h
  | program p => exact frames_runProgram h ended
  | source text =>
    rw [serve_source] at ended ⊢
    cases hp : Program.parse text with
    | error e =>
      unfold run
      simp only [hp]
      exact h
    | ok p =>
      rw [run_of_parse hp] at ended ⊢
      exact frames_runProgram h ended

theorem Valid.sound (h : s.Valid) (hframes : s.machine.frames = []) : s.Sound := by
  obtain ⟨sc, hsc, hsized, -⟩ := h.globals_scope
  exact ⟨hframes, h.names, sc, hsc, hsized⟩

/-- What one request leaves behind, if it has come to an end. -/
theorem Sound.serve {r : Request} (h : s.Sound) (hv : s.Valid)
    (ended : (s.serve fuel r).1 ≠ .error .unfinished) : (s.serve fuel r).2.Sound :=
  (hv.serve fuel r).1.sound (frames_serve h.frames ended)

theorem Sound.run (h : s.Sound) (hv : s.Valid) (ended : (s.run fuel source).1 ≠ .error .unfinished) :
    (s.run fuel source).2.Sound := by
  rw [← serve_source] at ended ⊢
  exact h.serve hv ended

theorem Sound.after {past : List (Nat × Request)} (h : s.Sound) (hv : s.Valid)
    (hends : s.Ends past) : (s.after past).Sound := by
  induction past generalizing s with
  | nil => exact h
  | cons r later ih => exact ih (h.serve hv hends.1) (hv.serve r.1 r.2).1 hends.2

theorem sound_start (limits : Limits) (output : Output) : (start limits output).Sound :=
  (valid_start limits output).sound rfl

/-- A script that runs leaves the names of its code, which continue those that were there, and the
values of all global variables that it does not assign. -/
theorem Valid.run_of_starts (h : s.Valid) (hcode : s.Starts source code) (fuel : Nat) :
    (s.run fuel source).2.machine.globalNames = code.names.toList ∧
      s.machine.globalNames <+: code.names.toList ∧
      ∀ x, (∀ slot n m, code.names[slot]? = some x →
          Steps n ((s.listed code).machine.load code) m → ¬ m.AssignsGlobal slot) →
        (s.run fuel source).2.global? x = s.global? x := by
  obtain ⟨p, -, hc⟩ := hcode.compiled
  obtain ⟨⟨last, hruns⟩, -⟩ := Program.compileWith_runs hc
  have hstore := s.store_listed code
  have hglobals : globalScope < (s.listed code).machine.store.scopes.size := hstore ▸ h.store.globals
  have hnames := Machine.globalNames_run hglobals code fuel
  have hmore := h.names_compile hc
  rw [Session.run_of_starts hcode]
  unfold global?
  rw [machine_execute]
  refine ⟨hnames, hmore, fun x hnot => ?_⟩
  obtain ⟨sc, hsc, hsized, hold⟩ := h.globals_scope
  rw [← hstore] at hsc
  have hlisted : (s.listed code).machine.global? x = s.machine.global? x := by
    unfold Machine.global?
    rw [hstore]
  rw [← hlisted]
  rw [hold] at hmore
  exact Machine.global?_run hsc hsized hmore.subset hruns.nodup fuel hnot

/-- Failures never harm a session. Whatever scripts were run before, with whatever outputs, after
every call that has come to an end no frame is left, the global names are all different with one place
for a value each, and they continue the names before the call. A script that fails before it runs,
also because its listing cannot be printed, leaves all variables as they were. One that runs, however
it ends, leaves the names of its code, and a global variable that no instruction outside functions
has assigned has its old value. -/
theorem failures_do_no_harm {limits : Limits} {output : Output} {past : List (Nat × Request)}
    (hs : s = (start limits output).after past) (hends : (start limits output).Ends past)
    (ended : (s.run fuel source).1 ≠ .error .unfinished) :
    (s.run fuel source).2.Sound ∧
      s.machine.globalNames <+: (s.run fuel source).2.machine.globalNames ∧
      ((∀ code, ¬ s.Starts source code) →
        (s.run fuel source).2.machine.store = s.machine.store) ∧
      ∀ code, s.Starts source code →
        (s.run fuel source).2.machine.globalNames = code.names.toList ∧
        ∀ x, (∀ slot n m, code.names[slot]? = some x →
            Steps n ((s.listed code).machine.load code) m → ¬ m.AssignsGlobal slot) →
          (s.run fuel source).2.global? x = s.global? x := by
  have hvalid : s.Valid := hs ▸ (valid_start limits output).after past
  have hsound : s.Sound := hs ▸ (sound_start limits output).after (valid_start limits output) hends
  have hunchanged : (∀ code, ¬ s.Starts source code) →
      (s.run fuel source).2.machine.store = s.machine.store := by
    intro hnot
    obtain ⟨e, -, hmachine⟩ := run_of_not_starts hnot fuel
    rw [hmachine]
  have hmore : s.machine.globalNames <+: (s.run fuel source).2.machine.globalNames := by
    by_cases hstarts : ∃ code, s.Starts source code
    · obtain ⟨code, hcode⟩ := hstarts
      obtain ⟨hnames, hmore, -⟩ := hvalid.run_of_starts hcode fuel
      rwa [hnames]
    · unfold Machine.globalNames
      rw [hunchanged (not_exists.mp hstarts)]
  refine ⟨hsound.run hvalid ended, hmore, hunchanged, ?_⟩
  intro code hcode
  obtain ⟨hnames, -, hvalues⟩ := hvalid.run_of_starts hcode fuel
  exact ⟨hnames, hvalues⟩

/-- The code of a script, if it has any. -/
def code? (s : Session) (source : String) : Option Code :=
  (Program.parse source).toOption.bind fun p => (s.compile p).toOption

theorem code?_eq_some : s.code? source = some code ↔
    ∃ p, Program.parse source = .ok p ∧ s.compile p = .ok code := by
  unfold code?
  cases Program.parse source with
  | error e => simp [Except.toOption]
  | ok p => cases hc : s.compile p <;> simp [Except.toOption, hc]

/-- A session that lists its scripts and has room for three bytes. -/
def crowded : Session := start { debug := true } (.limited 3)

/-- A script whose listing is longer than that. -/
def tooLong : List (Nat × Request) := [(9, .source "x = true; y;")]

/-- The script once more, with another output. -/
def secondTry : List (Nat × Request) := tooLong ++ (0, .redirect .unlimited) :: tooLong

/-- The second try has assigned one variable and failed at another. -/
def failedHalfway : Session := crowded.after secondTry

/-- The listing of the first script fails and leaves no trace. With another output the script runs,
and after its failure so does the next one, which leaves the variable alone that has a value. -/
theorem failures_do_no_harm_failedHalfway :
    ((∃ code, crowded.code? "x = true; y;" = some code ∧ (crowded.print code.listing).1 = false) ∧
      (crowded.run 9 "x = true; y;").2.Sound ∧
      (crowded.run 9 "x = true; y;").2.machine.store = crowded.machine.store) ∧
    failedHalfway.machine.globalNames = ["x", "y"] ∧
    (failedHalfway.global? "x").map Value.display = some "true" ∧
    ∃ code, failedHalfway.Starts "y = x; z;" code ∧
      (failedHalfway.run 9 "y = x; z;").2.Sound ∧
      failedHalfway.machine.globalNames <+:
        (failedHalfway.run 9 "y = x; z;").2.machine.globalNames ∧
      (failedHalfway.run 9 "y = x; z;").2.machine.globalNames = ["x", "y", "z"] ∧
      (failedHalfway.run 9 "y = x; z;").2.global? "x" = failedHalfway.global? "x" := by
  have hfull : (crowded.code? "x = true; y;").map (fun code => (crowded.print code.listing).1) =
      some false := by decide +kernel
  have hnot : ∀ code, ¬ crowded.Starts "x = true; y;" code := by
    intro code hcode
    rw [code?_eq_some.mpr hcode.compiled, Option.map_some, hcode.printed rfl] at hfull
    cases hfull
  have hstart : crowded = (start { debug := true } (.limited 3)).after [] := rfl
  have hfirst : (crowded.run 9 "x = true; y;").1 ≠ .error .unfinished := by decide +kernel
  obtain ⟨hunlisted, -, hkept, -⟩ := failures_do_no_harm hstart trivial hfirst
  have hruns : (failedHalfway.code? "y = x; z;").map (fun code => (code.names.toList,
      (failedHalfway.print code.listing).1,
      Machine.spares 0 9 ((failedHalfway.listed code).machine.load code))) =
      some (["x", "y", "z"], true, true) := by decide +kernel
  obtain ⟨code, hcode, hchecks⟩ := Option.map_eq_some_iff.mp hruns
  obtain ⟨hnames, hprinted, hspares⟩ : code.names.toList = ["x", "y", "z"] ∧
      (failedHalfway.print code.listing).1 = true ∧
      Machine.spares 0 9 ((failedHalfway.listed code).machine.load code) = true := by
    simpa using hchecks
  have hstarts : failedHalfway.Starts "y = x; z;" code :=
    ⟨code?_eq_some.mp hcode, fun _ => hprinted⟩
  have hpast : failedHalfway = (start { debug := true } (.limited 3)).after secondTry := rfl
  have hends : (start { debug := true } (.limited 3)).Ends secondTry := by decide +kernel
  have hlast : (failedHalfway.run 9 "y = x; z;").1 ≠ .error .unfinished := by decide +kernel
  obtain ⟨hsound, hmore, -, hrun⟩ := failures_do_no_harm hpast hends hlast
  obtain ⟨hleft, hkeeps⟩ := hrun code hstarts
  refine ⟨⟨Option.map_eq_some_iff.mp hfull, hunlisted, hkept hnot⟩, by decide +kernel,
    by decide +kernel, code, hstarts, hsound, hmore, hleft.trans hnames, hkeeps "x" ?_⟩
  intro slot n m hslot hsteps
  -- the variable has the first slot and no other
  have hnodup : code.names.toList.Nodup := by
    rw [hnames]
    decide
  have hfirstSlot : code.names[0]? = some "x" := by
    rw [← Array.getElem?_toList, hnames]
    rfl
  obtain rfl : slot = 0 := getElem?_unique hnodup hslot hfirstSlot
  exact Machine.not_assignsGlobal_of_spares hspares hsteps

end Session

end Scriptlet
