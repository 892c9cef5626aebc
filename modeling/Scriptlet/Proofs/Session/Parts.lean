import Scriptlet.Proofs.Machine.Effects
import Scriptlet.Proofs.Session.Composition

/-! A script that comes to its end does the same when its parts are run one after the other. -/
namespace Scriptlet

open Machine (globalScope Steps)

namespace Machine

variable {k last : Nat} {c c' : Code} {extra : List String} {m m' : Machine}

/-- Before the end of both codes a return is early in both machines. -/
theorem Frames.returnsEarly (hf : Frames k c c' m.frames m'.frames)
    (hat : ∀ pc < last, c.MovedAt k c' pc) (hsize : c.code.size = last + 1)
    (htotal : k + c.code.size ≤ c'.code.size) (h : m.returnsEarly = true) :
    m'.returnsEarly = true := by
  unfold Machine.returnsEarly at h ⊢
  generalize m.frames = fs, m'.frames = fs' at hf h
  cases hf with
  | above _ rest => cases rest <;> cases h
  | base pc stack =>
    dsimp only at h
    cases hi : c.code[pc]? with
    | none => simp [hi] at h
    | some i =>
      obtain ⟨op, arg⟩ := i
      have hop : op = .ret := by
        cases op <;> simp [hi] at h ⊢
      subst hop
      have hpc := lt_size_of_getElem? hi
      have hne : pc + 1 ≠ c.code.size := by simpa [hi] using h
      obtain ⟨j, j', hj, hj', hmoved, -⟩ := hat pc (by omega)
      obtain rfl : j = ⟨.ret, arg⟩ := Option.some.inj (hj.symm.trans hi)
      obtain ⟨op', arg'⟩ := j'
      obtain rfl : op' = .ret := hmoved
      have hne' : k + pc + 1 ≠ c'.code.size := by omega
      simp [hj', hne']

/-- If the second machine never returns early, the first one does not. -/
theorem Frames.never_returns (hf : Frames k c c' m.frames m'.frames)
    (hat : ∀ pc < last, c.MovedAt k c' pc) (hsize : c.code.size = last + 1)
    (hret : c.code[last]? = some ⟨.ret, 0⟩) (htotal : k + c.code.size ≤ c'.code.size)
    (hv : m.Valid) (ht : m.Twin extra m')
    (h : ∀ n m₁, Steps n m' m₁ → m₁.returnsEarly = false) :
    ∀ n m₁, Steps n m m₁ → m₁.returnsEarly = false := by
  intro n m₁ hsteps
  obtain ⟨m₁', hsteps', -, hf₁⟩ := Frames.steps hat hsize hret hsteps hv ht hf
  have hnot := h n m₁' hsteps'
  by_contra hearly
  have hearly' := hf₁.returnsEarly hat hsize htotal (by simpa using hearly)
  rw [hnot] at hearly'
  cases hearly'

/-- Code that has just the variables of the session changes none of them when it is loaded. -/
theorem load_eq {sc : Scope} (hs : m.store.scopes[globalScope]? = some sc)
    (hsized : sc.vars.size = sc.names.size) (hc : c.names.toList = sc.names.toList) :
    m.load c = { m with frames := [.start c globalScope] } := by
  have hadopt : sc.adopt c.names = sc := by
    rw [Scope.adopt_eq_widen hsized (by rw [hc, List.append_nil]), Scope.widen_nil]
  have hscopes : m.store.scopes.modify globalScope (·.adopt c.names) = m.store.scopes := by
    apply Array.ext_getElem?
    intro i
    rw [Array.getElem?_modify]
    split
    · next hi => rw [← hi, hs, Option.map_some, hadopt]
    · rfl
  rw [load, Store.modify, hscopes]

end Machine

namespace Session

variable {s s₁ s' : Session} {p p₁ p₂ : Program} {fuel : Nat} {v : Value}

theorem runProgram_ok (h : s.runProgram fuel p = (.ok v, s')) (hd : s.debug = false) :
    ∃ c m, s.compile p = .ok c ∧ (s.machine.load c).run fuel = (.returned v, m) ∧
      s' = { s with machine := m } := by
  cases hc : s.compile p with
  | error e => simp [runProgram, hc] at h
  | ok c =>
    rw [runProgram_eq hd hc] at h
    obtain ⟨m, hr, rfl⟩ := execute_ok h
    exact ⟨c, m, rfl, hr, rfl⟩

/-- A script that came to its end is not changed by more steps. -/
theorem runProgram_of_le (h : s.runProgram fuel p = (.ok v, s')) (hd : s.debug = false) {k : Nat}
    (hk : fuel ≤ k) : s.runProgram k p = (.ok v, s') := by
  obtain ⟨c, m, hc, hr, rfl⟩ := runProgram_ok h hd
  have hrun : (s.machine.load c).run k = (.returned v, m) := by
    rw [Machine.run_of_le (by simp [hr]) hk, hr]
  rw [runProgram_eq hd hc, execute, hrun]

/-- If a joined script executes no early return, its first part executes none. -/
theorem Valid.neverReturns_first (h : s.Valid) (h₂ : p₂.distinct = true)
    (hret : s.NeverReturns ⟨p₁.body ++ p₂.body⟩) : s.NeverReturns p₁ := by
  intro c₁ n m₁ h₁ hsteps
  obtain ⟨c₂, c, mid, extra, hc₂, hc, hj, -, ht⟩ := h.joined h₁ h₂
  have hv := Machine.valid_load h.store h₁
  have hbase : Machine.Frames 0 c₁ c (s.machine.load c₁).frames (s.machine.load c).frames :=
    .base 0 []
  have htotal : 0 + c₁.code.size ≤ c.code.size := by
    obtain ⟨⟨last, hruns⟩, -⟩ := Program.compileWith_runs hc₂
    have hsize := hruns.size
    rw [hj.total, hj.size]
    omega
  refine hbase.never_returns hj.first hj.size hj.ret htotal hv ht ?_ n m₁ hsteps
  exact fun n m₁ => hret c n m₁ hc

/-- If a joined script executes no early return, its second part executes none after the first. -/
theorem Valid.neverReturns_second (h : s.Valid) (hd : s.debug = false) (h₂ : p₂.distinct = true)
    (hret : s.NeverReturns ⟨p₁.body ++ p₂.body⟩) (hrun : s.runProgram fuel p₁ = (.ok v, s₁)) :
    v = .undefined ∧ s₁.NeverReturns p₂ := by
  obtain ⟨c₁, m₂, h₁, hr, rfl⟩ := runProgram_ok hrun hd
  obtain ⟨n, -, m₁, hsteps, hdone⟩ := Machine.exists_steps_of_returned hr
  have hnot := h.neverReturns_first h₂ hret c₁ n m₁ h₁ hsteps
  obtain ⟨hv, c₂, c, mid, m', hc₂, hc, hj, hsteps', hv₂, htwin, hframes⟩ :=
    h.joined_at_end h₁ h₂ hsteps hdone hnot
  refine ⟨hv, fun c₂' k m₃ hc₂' hsteps₂ => ?_⟩
  obtain rfl : c₂' = c₂ := Except.ok.inj (hc₂'.symm.trans hc₂)
  obtain ⟨⟨last, hruns⟩, -⟩ := Program.compileWith_runs hc₂
  have hat (pc : Nat) (hpc : pc < last) : c₂'.MovedAt mid c pc := by
    have hsize := hruns.size
    exact hj.second pc (by omega)
  refine hframes.never_returns hat hruns.size hruns.ret hj.total.ge hv₂ htwin ?_ k m₃ hsteps₂
  exact fun k m₃ hsteps₃ => hret c (n + k) m₃ hc (hsteps'.trans hsteps₃)

/-- A joined script that comes to its end has come to the end of its first part. -/
theorem Valid.first_ends (h : s.Valid) (hd : s.debug = false)
    (hrun : s.runProgram fuel ⟨p₁.body ++ p₂.body⟩ = (.ok v, s')) (h₁ : p₁.distinct = true)
    (h₂ : p₂.distinct = true) : ∃ u s₁, s.runProgram fuel p₁ = (.ok u, s₁) := by
  obtain ⟨c₁, hc₁⟩ := (p₁.compileWith_accepts s.machine.globalNames).mpr h₁
  obtain ⟨c₂, c, mid, extra, -, hc, hj, -, ht⟩ := h.joined hc₁ h₂
  have hfirst := runProgram_eq hd hc₁ fuel
  cases hr : (s.machine.load c₁).run fuel with
  | mk finish m =>
    rw [Session.execute, hr] at hfirst
    cases finish with
    | returned u => exact ⟨u, _, hfirst⟩
    | failed e place =>
      obtain ⟨s₂, _, _, hfailed, -⟩ := h.runProgram_append_failed hd hc₁ h₂ hfirst
      rw [hfailed] at hrun
      cases hrun
    | unfinished =>
      have hsteps : Steps fuel (s.machine.load c₁) _ := .of_unfinished (by rw [hr])
      obtain ⟨m', hsteps', -⟩ := Machine.Frames.steps hj.first hj.size hj.ret hsteps
        (Machine.valid_load h.store hc₁) ht (.base 0 [])
      have hcut := hsteps'.run_unfinished (Nat.le_refl fuel)
      obtain ⟨c', m₁, hc', hr', -⟩ := runProgram_ok hrun hd
      obtain rfl : c' = c := Except.ok.inj (hc'.symm.trans hc)
      rw [hr'] at hcut
      cases hcut

/-- A joined script that comes to its end does what its parts do one after the other. -/
theorem Valid.runProgram_split (h : s.Valid) (hd : s.debug = false)
    (hrun : s.runProgram fuel ⟨p₁.body ++ p₂.body⟩ = (.ok v, s'))
    (hret : s.NeverReturns ⟨p₁.body ++ p₂.body⟩) :
    ∃ s₁ s₂, s.runProgram fuel p₁ = (.ok .undefined, s₁) ∧ s₁.NeverReturns p₂ ∧
      s₁.runProgram fuel p₂ = (.ok v, s₂) ∧ s₂.output = s'.output ∧ s₂.globals = s'.globals := by
  obtain ⟨h₁, h₂⟩ : p₁.distinct = true ∧ p₂.distinct = true := by
    obtain ⟨c, -, hc, -⟩ := runProgram_ok hrun hd
    have hdistinct := (Program.compileWith_accepts _ _).mp ⟨c, hc⟩
    rwa [Program.distinct, blockDistinct_append, Bool.and_eq_true] at hdistinct
  obtain ⟨u, s₁, hfirst⟩ := h.first_ends hd hrun h₁ h₂
  obtain ⟨rfl, hret₂⟩ := h.neverReturns_second hd h₂ hret hfirst
  obtain ⟨c₁, -, hc₁, -⟩ := runProgram_ok hfirst hd
  obtain ⟨n, hn, hsame⟩ :=
    h.runProgram_append hd hc₁ h₂ hfirst (h.neverReturns_first h₂ hret)
  -- the second part has only the steps that the first one left, which are enough for it
  obtain ⟨hvalue, houtput, hglobals⟩ := hsame (fuel - n)
  rw [show n + (fuel - n) = fuel by omega, hrun] at hvalue houtput hglobals
  have hd₁ : s₁.debug = false := by
    rw [← hd, ← debug_runProgram s fuel p₁, hfirst]
  cases hsecond : s₁.runProgram (fuel - n) p₂ with
  | mk result s₂ =>
    rw [hsecond] at hvalue houtput hglobals
    cases result with
    | error e => cases hvalue
    | ok w =>
      obtain rfl : v = w := Except.ok.inj hvalue
      have hall := runProgram_of_le hsecond hd₁ (Nat.sub_le fuel n)
      exact ⟨s₁, s₂, hfirst, hret₂, hall, houtput.symm, hglobals.symm⟩

theorem print_of_unlimited (h : s.output.capacity = none) (text : String) :
    (s.print text).1 = true := by
  simp [print, Output.write, Output.append, h]

theorem print_nothing (h : s.output.capacity = none) : s.print "" = (true, s) := by
  have hwrite : s.output.write "" = (true, s.output) := by
    cases ho : s.output with
    | mk bytes capacity =>
      obtain rfl : capacity = none := by rw [← h, ho]
      simp [Output.write, Output.append]
  rw [print, hwrite]
  rfl

theorem run_of_parse {source : String} {p : Program} (h : Program.parse source = .ok p)
    (fuel : Nat) : s.run fuel source = s.runProgram fuel p := by
  unfold run
  rw [h]

theorem capacity_print (s : Session) (text : String) :
    (s.print text).2.output.capacity = s.output.capacity :=
  Machine.capacity_write s.output text

theorem capacity_execute (s : Session) (fuel : Nat) (code : Code) :
    (s.execute fuel code).2.output.capacity = s.output.capacity := by
  have hrun := (s.machine.load code).capacity_run fuel
  unfold execute
  cases hr : (s.machine.load code).run fuel with
  | mk finish m =>
    rw [hr] at hrun
    cases finish <;> exact hrun

theorem capacity_runProgram (s : Session) (fuel : Nat) (p : Program) :
    (s.runProgram fuel p).2.output.capacity = s.output.capacity := by
  unfold runProgram
  split
  · rfl
  · next code _ =>
    split
    · have hprint := s.capacity_print code.listing
      split
      · next heq =>
        rw [heq] at hprint
        rw [capacity_execute, hprint]
      · next heq => rwa [heq] at hprint
    · exact s.capacity_execute fuel code

theorem capacity_run (s : Session) (fuel : Nat) (source : String) :
    (s.run fuel source).2.output.capacity = s.output.capacity := by
  unfold run
  split
  · rfl
  · exact s.capacity_runProgram fuel _

/-- A session between two scripts: no frame is left, nothing is listed, and all can be printed. -/
structure Resting (s : Session) : Prop where
  valid : s.Valid
  unlisted : s.debug = false
  frames : s.machine.frames = []
  sink : s.output.capacity = none

theorem resting_start {limits : Limits} {output : Output} (hd : limits.debug = false)
    (hsink : output.capacity = none) : (start limits output).Resting :=
  ⟨valid_start limits output, hd, rfl, hsink⟩

theorem Resting.runProgram (h : s.Resting) (hrun : s.runProgram fuel p = (.ok v, s')) :
    s'.Resting := by
  have hvalid := (h.valid.runProgram fuel p).1
  have hdebug := debug_runProgram s fuel p
  have hcapacity := s.capacity_runProgram fuel p
  rw [hrun] at hvalid hdebug hcapacity
  obtain ⟨c, m, hc, hr, rfl⟩ := runProgram_ok hrun h.unlisted
  refine ⟨hvalid, hdebug.trans h.unlisted, ?_, ?_⟩
  · obtain ⟨n, -, m₁, hsteps, hdone⟩ := Machine.exists_steps_of_returned hr
    have hv := (Machine.valid_load h.valid.store hc).steps hsteps
    obtain ⟨-, -, -, -, rfl⟩ := hv.step_done hdone
    rfl
  · exact hcapacity.trans h.sink

/-- The empty script changes nothing. -/
theorem Resting.eq_of_empty (h : s.Resting) (hrun : s.runProgram fuel ⟨[]⟩ = (.ok v, s')) :
    s' = s := by
  obtain ⟨c, m, hc, hr, rfl⟩ := runProgram_ok hrun h.unlisted
  obtain ⟨⟨last, hruns⟩, hnames⟩ := Program.compileWith_runs hc
  obtain ⟨sc, hs, hsized, hsc⟩ := h.valid.globals_scope
  have hlast : last = 0 := by
    cases hruns.placed
    rfl
  have hsame : c.names.toList = sc.names.toList := by
    have hnodup : ((#[] : Array String).toList ++ s.machine.globalNames).Nodup := h.valid.names
    rw [hnames, blockSlots, internAll_nil, internAll_of_nodup #[] hnodup, hsc]
    rfl
  have hstep : (s.machine.load c).step = (.done .undefined, s.machine) := by
    have hret := hruns.ret
    rw [hlast] at hret
    have hframes : { s.machine with frames := [] } = s.machine := by rw [← h.frames]
    rw [Machine.load_eq hs hsized hsame, Machine.step_of_frames rfl hret]
    exact congrArg (Prod.mk _) hframes
  cases fuel with
  | zero => cases hr
  | succ fuel =>
    rw [Machine.run, hstep] at hr
    obtain rfl : s.machine = m := (Prod.mk.inj hr).2
    rfl

/-- The scripts are run one after the other, and each comes to its end. -/
inductive Performs (fuel : Nat) : Session → List Program → Session → Prop
  | nil (s : Session) : Performs fuel s [] s
  | cons {s s₁ s' : Session} {p : Program} {ps : List Program} :
      s.runProgram fuel p = (.ok .undefined, s₁) → Performs fuel s₁ ps s' →
      Performs fuel s (p :: ps) s'

/-- A script that comes to its end can be run in any number of parts. -/
theorem Resting.performs (h : s.Resting) (ps : List Program)
    (hrun : s.runProgram fuel ⟨ps.flatMap (·.body)⟩ = (.ok v, s'))
    (hret : s.NeverReturns ⟨ps.flatMap (·.body)⟩) :
    ∃ t, Performs fuel s ps t ∧ t.output = s'.output ∧ t.globals = s'.globals := by
  induction ps generalizing s s' with
  | nil =>
    obtain rfl := h.eq_of_empty hrun
    exact ⟨s', .nil s', rfl, rfl⟩
  | cons p ps ih =>
    let rest : Program := ⟨ps.flatMap (·.body)⟩
    have hjoined : s.runProgram fuel ⟨p.body ++ rest.body⟩ = (.ok v, s') := hrun
    obtain ⟨s₁, s₂, hfirst, hret₂, hrun₂, houtput, hglobals⟩ :=
      h.valid.runProgram_split h.unlisted hjoined hret
    obtain ⟨t, hperforms, ht, ht'⟩ := ih (h.runProgram hfirst) hrun₂ hret₂
    exact ⟨t, .cons hfirst hperforms, ht.trans houtput, ht'.trans hglobals⟩

end Session
end Scriptlet
