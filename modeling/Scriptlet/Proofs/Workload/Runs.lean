import Scriptlet.Host.Memory
import Scriptlet.Proofs.Meaning.Agreement
import Scriptlet.Proofs.Session.Depth
import Scriptlet.Proofs.Session.Parts
import Scriptlet.Proofs.Workload.Evaluation

/-! The built-in script on the machine: it prints and leaves what direct evaluation says, so that
measuring it always ends in a report. -/
namespace Scriptlet

open Finset (range)

section Transfer
open Direct

/-- Nothing changes the limit on calls. -/
theorem Machine.maxCallDepth_invariant (d : Nat) :
    Invariant (fun m => m.maxCallDepth = d) (fun m => m.maxCallDepth = d) where
  print _ _ h := h
  load _ _ _ h _ := h
  step m m' h hs := by
    have hstep := m.maxCallDepth_step
    rw [hs] at hstep
    exact hstep.trans h
  pause _ h := h
  stop m h := m.maxCallDepth_step.trans h
  discard _ h := h

variable {s : Session} {p : Program} {w w' : World} {limit : Nat}

/-- What direct evaluation gives is what running the script gives, if it runs for long enough. The
session then holds the world that the evaluation leaves, and no other global names than before
and those of the script. -/
theorem Session.runProgram_of_eval {v : Value} (hdebug : s.debug = false) (hp : p.distinct = true)
    (hw : w.Coded s.machine)
    (heval : evalProgram s.machine.maxCallDepth limit p w = (.done (.plain v), w')) :
    ∃ fuel₀ s', (∀ fuel ≥ fuel₀, s.runProgram fuel p = (.ok v, s')) ∧ s'.debug = false ∧
      w'.Coded s'.machine ∧ s'.machine.maxCallDepth = s.machine.maxCallDepth ∧
      ∀ x ∈ s'.machine.globalNames, x ∈ s.machine.globalNames ∨ x ∈ blockSlots p.body := by
  obtain ⟨code, hc⟩ := (p.compileWith_accepts s.machine.globalNames).mpr hp
  have hfinished : (evalProgram s.machine.maxCallDepth limit p w).1 ≠ .unfinished := by
    rw [heval]
    exact nofun
  obtain ⟨fuel₀, hworld, hvalue⟩ := exists_run_agrees hw hc hfinished
  have hnames := Machine.globalNames_run (show Machine.globalScope < s.machine.store.scopes.size from
    hw.size ▸ hw.globals) code fuel₀
  have hfuel : s.runProgram fuel₀ p = s.execute fuel₀ code := Session.runProgram_eq hdebug hc fuel₀
  have hdepth := (Machine.maxCallDepth_invariant s.machine.maxCallDepth).runProgram fuel₀ p rfl
  rw [heval] at hworld hvalue
  cases hrun : (s.machine.load code).run fuel₀ with
  | mk finish m =>
    rw [hrun] at hworld hvalue hnames
    cases finish with
    | returned V =>
      obtain rfl : v = V := by
        cases hvalue
        rfl
      have hdone : s.runProgram fuel₀ p = (.ok v, { s with machine := m }) := by
        rw [hfuel, Session.execute, hrun]
      rw [hdone] at hdepth
      refine ⟨fuel₀, { s with machine := m }, ?_, hdebug, hworld, hdepth, ?_⟩
      · intro fuel hle
        exact Session.runProgram_of_le hdone hdebug hle
      · intro x hx
        have hx' : x ∈ code.names.toList := hnames ▸ hx
        rw [(Program.compileWith_runs hc).2, mem_internAll, mem_internAll] at hx'
        simpa using hx'
    | failed e location => exact absurd hvalue id
    | unfinished => exact absurd hvalue id

/-- A plain value of a global variable, in the machine's form. -/
theorem Direct.World.Coded.global? {m : Machine} {env : Env} {x : String} {v : Value}
    (hw : w.Coded m) (hglobal : w.scopes[Machine.globalScope]? = some env)
    (hx : env.vars x = some (.plain v)) : m.global? x = some v := by
  have hlookup : w.lookup x Machine.globalScope = some (.plain v) := by
    rw [World.lookup, hglobal]
    simp only [hx]
  have hrel := hw.lookup x Machine.globalScope
  rw [hlookup] at hrel
  unfold Machine.global?
  generalize m.store.named? x Machine.globalScope = found at hrel ⊢
  cases hrel with
  | some hv =>
    cases hv
    rfl

end Transfer

namespace Text

theorem isBlank_of_isDigit {c : Char} (h : c.isDigit = true) : isBlank c = false := by
  have hrange : 48 ≤ c.toNat ∧ c.toNat ≤ 57 := by
    simp only [Char.isDigit, Bool.and_eq_true, decide_eq_true_eq, ge_iff_le,
      UInt32.le_iff_toNat_le] at h
    exact h
  have hnot : c.toNat ∉ blanks := by
    intro hmem
    simp only [blanks, List.mem_cons, List.not_mem_nil, or_false] at hmem
    omega
  simpa [isBlank] using hnot

/-- No character of the text is blank. -/
def Solid (s : String) : Prop := ∀ c ∈ s.toList, isBlank c = false

section Solid
variable {s t : String}

theorem Solid.append (hs : Solid s) (ht : Solid t) : Solid (s ++ t) := by
  intro c hc
  rw [String.toList_append, List.mem_append] at hc
  rcases hc with hc | hc
  · exact hs c hc
  · exact ht c hc

theorem Solid.ofList {cs : List Char} (hs : Solid s) (h : cs ⊆ s.toList) : Solid (String.ofList cs) := by
  intro c hc
  rw [String.toList_ofList] at hc
  exact hs c (h hc)

/-- The parts of a number's text that are no digits. -/
theorem solid_mark (hs : s ∈ ["", "0", "0.", ".", ".0", "-", "e+", "e-", "NaN", "Infinity",
    "-Infinity"]) : Solid s := by
  unfold Solid
  fin_cases hs <;> simp [isBlank, blanks]

theorem solid_toString (n : Nat) : Solid (toString n) :=
  fun c hc => isBlank_of_isDigit ((Digits.ofNat n).digits c hc)

theorem solid_zeros (n : Nat) : Solid (Decimal.zeros n) := by
  intro c hc
  rw [Decimal.zeros, String.toList_ofList, List.mem_replicate] at hc
  rw [hc.2]
  rfl

theorem solid_positional (keepPoint : Bool) (x : Decimal) : Solid (x.positional keepPoint) := by
  have hdigits : Solid x.digits := solid_toString x.coefficient
  have hpoint : Solid "." := solid_mark (by simp)
  unfold Decimal.positional
  dsimp only
  split
  · apply (hdigits.append (solid_zeros _)).append
    split <;> exact solid_mark (by simp)
  · split
    · exact ((hdigits.ofList (List.take_subset _ _)).append hpoint).append
        (hdigits.ofList (List.drop_subset _ _))
    · exact (Solid.append (solid_mark (by simp)) (solid_zeros _)).append hdigits

theorem solid_scientific (x : Decimal) : Solid x.scientific := by
  have hdigits : Solid x.digits := solid_toString x.coefficient
  unfold Decimal.scientific
  dsimp only
  apply ((hdigits.ofList (List.take_subset _ _)).append _).append
  · apply Solid.append _ (solid_toString _)
    split <;> exact solid_mark (by simp)
  · split
    · exact solid_mark (by simp)
    · exact Solid.append (solid_mark (by simp)) (hdigits.ofList (List.drop_subset _ _))

theorem solid_display (x : Number) : Solid x.display := by
  unfold Number.display
  split
  · exact solid_mark (by simp)
  · split
    · next d _ =>
      unfold Decimal.render
      apply Solid.append
      · unfold Decimal.sign
        split <;> exact solid_mark (by simp)
      · split
        · exact solid_positional _ d
        · exact solid_scientific d
    · split
      · exact solid_mark (by simp)
      · split <;> exact solid_mark (by simp)

theorem dropWhile_solid {cs : List Char} (h : ∀ c ∈ cs, isBlank c = false) :
    cs.dropWhile isBlank = cs := by
  cases cs with
  | nil => rfl
  | cons c cs => simp [h c]

/-- Of a line without blanks only the line end is dropped. -/
theorem trim_line (hs : Solid s) : trim (s ++ "\n") = s := by
  have hend : isBlank '\n' = true := by decide
  have hfront := dropWhile_solid hs
  have hback : s.toList.reverse.dropWhile isBlank = s.toList.reverse :=
    dropWhile_solid fun c hc => hs c (List.mem_reverse.mp hc)
  unfold trim
  rw [String.toList_append, List.dropWhile_append, hfront]
  split
  · next hempty =>
    rw [show "\n".toList = ['\n'] by simp, List.dropWhile_cons_of_pos hend]
    exact (String.toList_eq_nil_iff.mp (List.isEmpty_iff.mp hempty)).symm
  · rw [List.reverse_append, show "\n".toList.reverse = ['\n'] by simp, List.cons_append,
      List.dropWhile_cons_of_pos hend, List.nil_append, hback, List.reverse_reverse,
      String.ofList_toList]

end Solid

end Text

/-- An output without limit holds what was written to it. -/
theorem Output.bytes_unlimited (s : String) :
    (Output.unlimited.write s).2.bytes = s.toUTF8.data := by
  show #[] ++ s.toUTF8.data = s.toUTF8.data
  rw [Array.empty_append]

theorem Output.text_write (s : String) : (Output.unlimited.write s).2.text = s := by
  have hbytes := Output.bytes_unlimited s
  have hread : String.fromUTF8? ⟨s.toUTF8.data⟩ = some s := dif_pos s.isValidUTF8
  unfold text textFrom
  simp only [hbytes, Array.extract_size, Nat.sub_zero, hread]
  rfl

theorem Machine.mem_globalNames {m : Machine} {x : String} {v : Option Value}
    (h : (x, v) ∈ m.globals) : x ∈ m.globalNames := by
  unfold globals at h
  unfold globalNames
  cases hs : m.store.scopes[globalScope]? with
  | none => simp [hs] at h
  | some sc =>
    rw [hs] at h
    exact (List.of_mem_zip h).1

/-- Timing a computation does nothing to its result. -/
def Host.Transparent {m : Type → Type} [Monad m] (host : Host m) : Prop :=
  ∀ {α : Type} (f : Unit → α), ∃ time : m Nat, host.timed f = (fun t => (f (), t)) <$> time

namespace Workload

section Report
variable {m : Type → Type} [Monad m] [LawfulMonad m] {host : Host m} {fuel n : Nat} {limits : Limits}
  {p : Program} {text : String}

/-- As many runs as wanted give the output of one. -/
theorem repeatRuns_ok (hhost : host.Transparent) (hrun : runOnce fuel limits p = .ok text)
    (left : Nat) : ∃ clock : m (List Nat), ∀ done output times,
      repeatRuns host fuel limits p (left + 1) done output times =
        (fun ts => .ok (text, times ++ ts)) <$> clock := by
  obtain ⟨time, htime⟩ := hhost fun _ => runOnce fuel limits p
  rw [hrun] at htime
  induction left with
  | zero =>
    refine ⟨(fun t => [t]) <$> time, fun done output times => ?_⟩
    rw [repeatRuns, hrun, htime]
    simp [repeatRuns]
  | succ left ih =>
    obtain ⟨clock, hclock⟩ := ih
    refine ⟨do let t ← time; (t :: ·) <$> clock, fun done output times => ?_⟩
    rw [repeatRuns, hrun, htime]
    simp [hclock]

/-- The sum computed directly and the one in closed form are the exact sum. -/
theorem check_ok (hn : n ≤ maxInput) (times : List Nat) (native : Nat) :
    check n (Number.ofNat (∑ i ∈ range n with i % 3 ≠ 0, i)).display times
      (Sums.nonMultiples (.ofNat n)) native =
      .ok ⟨n, (Number.ofNat (∑ i ∈ range n with i % 3 ≠ 0, i)).display,
        ∑ i ∈ range n with i % 3 ≠ 0, i, times, native⟩ := by
  have hword : (UInt64.ofNat n).toNat = n := by
    apply UInt64.toNat_ofNat_of_lt'
    unfold maxInput at hn
    rw [show UInt64.size = 2 ^ 64 from rfl]
    omega
  cases hclosed : Sums.nonMultiples? (.ofNat n) with
  | none =>
    rw [Sums.nonMultiples?_eq_none, hword, ← not_lt, Sums.sum_range_lt_size] at hclosed
    unfold maxInput at hn
    omega
  | some s =>
    have hs := Sums.toNat_nonMultiples? hclosed
    have hloop : Sums.nonMultiples (.ofNat n) = s := (Sums.nonMultiples_computes hclosed).result
    rw [hword] at hs
    unfold check
    simp only [hclosed, hloop, ← hs, ne_eq, not_true_eq_false, if_false]
    rfl

/-- What is left to do once the script has been given its input. -/
theorem measure_of_input {script : String} {runs : Nat} (hruns : runs ≠ 0) (hn : n ≤ maxInput)
    (hsource : source host none = pure (.ok script)) (hinput : withInput script n = .ok p) :
    measure host fuel limits ⟨n, runs, none⟩ = do
      match ← repeatRuns host fuel limits p runs 0 "" [] with
      | .error e => return .error e
      | .ok (output, times) =>
        let (sum, native) ← host.timed fun _ => Sums.nonMultiples (.ofNat n)
        return check n output times sum native := by
  unfold measure
  rw [if_neg hruns, if_neg (Nat.not_lt.mpr hn), hsource, pure_bind]
  dsimp only
  generalize withInput script n = input at hinput ⊢
  subst hinput
  rfl

/-- If a run prints the exact sum, measuring gives a report. -/
theorem measure_ok {script : String} (hhost : host.Transparent) (hn : n ≤ maxInput)
    (hsource : source host none = pure (.ok script)) (hinput : withInput script n = .ok p)
    (hrun : runOnce fuel limits p = .ok (Number.ofNat (∑ i ∈ range n with i % 3 ≠ 0, i)).display)
    {runs : Nat} (hruns : 1 ≤ runs) :
    ∃ clock : m (List Nat × Nat), measure host fuel limits ⟨n, runs, none⟩ =
      (fun times => .ok ⟨n, (Number.ofNat (∑ i ∈ range n with i % 3 ≠ 0, i)).display,
        ∑ i ∈ range n with i % 3 ≠ 0, i, times.1, times.2⟩) <$> clock := by
  obtain ⟨left, rfl⟩ := Nat.exists_eq_add_of_le' hruns
  obtain ⟨clock, hclock⟩ := repeatRuns_ok hhost hrun left
  obtain ⟨time, htime⟩ := hhost fun _ => Sums.nonMultiples (.ofNat n)
  refine ⟨do let ts ← clock; (ts, ·) <$> time, ?_⟩
  rw [measure_of_input (Nat.succ_ne_zero left) hn hsource hinput, hclock, htime]
  simp [check_ok hn]

end Report

section Driver
variable {n : Nat} {limits : Limits}

/-- The output of a session that has printed the sum. -/
def printed (n : Nat) : Output := (Output.unlimited.write (sumLine n)).2

theorem driverWorld_global (n : Nat) (output : Output) :
    (driverWorld n output).scopes[Machine.globalScope]? = some (driverEnv n) := rfl

/-- The built-in script ends on a fresh session, and leaves what direct evaluation leaves. -/
theorem exists_driver_run (hn : n ≤ maxInput) (hdepth : 1 ≤ limits.maxCallDepth)
    (hdebug : limits.debug = false) :
    ∃ fuel₀ s, (∀ fuel ≥ fuel₀, (Session.start limits .unlimited).runProgram fuel
        (driver (.ofNat n)) = (.ok .undefined, s)) ∧ s.debug = false ∧
      (driverWorld n (printed n)).Coded s.machine ∧ s.machine.maxCallDepth = limits.maxCallDepth ∧
      ∀ x ∈ ["sum", "i", "N"], x ∉ s.machine.globalNames := by
  have heval : Direct.evalProgram limits.maxCallDepth (n + 2) (driver (.ofNat n))
      (.start .unlimited) = (.done .undefined, driverWorld n (printed n)) :=
    evalProgram_driver hn hdepth rfl
  obtain ⟨fuel₀, s, hrun, hs, hworld, hlimit, hnames⟩ := Session.runProgram_of_eval
    (s := .start limits .unlimited) hdebug rfl (Direct.World.coded_start _ _) heval
  refine ⟨fuel₀, s, hrun, hs, hworld, hlimit, ?_⟩
  intro x hx hmem
  have hslots : x ∈ blockSlots (driver (.ofNat n)).body := (hnames x hmem).resolve_left nofun
  have hnone : ∀ y ∈ ["sum", "i", "N"], y ∉ blockSlots (driver (.ofNat n)).body := by
    simp [driver, summing, blockSlots, Stmt.slots, Expr.slots, argSlots]
  exact hnone x hx hslots

/-- Calling one of the functions that add up the lower half. -/
theorem exists_calling_run {s : Session} {output : Output} (hdebug : s.debug = false)
    (hworld : (driverWorld n output).Coded s.machine) (hdepth : 1 ≤ s.machine.maxCallDepth)
    {k : Nat} (hk : k ≤ maxInput) {f : String} (hf : f ∈ ["sum_numbers", "sum_numbers_bridge_2"]) :
    ∃ fuel₀, ∀ fuel ≥ fuel₀, (s.runProgram fuel (calling f k)).1 =
      .ok (.number (.ofNat (∑ i ∈ range k with 2 * i < k, i))) := by
  have hmax := maxInput_lt
  have hvar : ∃ id, (driverEnv n).vars f = some (summer id f lowerTest) := by
    fin_cases hf
    · exact ⟨0, rfl⟩
    · exact ⟨4, rfl⟩
  obtain ⟨id, hid⟩ := hvar
  have heval := evalProgram_calling (driverWorld_global n output) hid hk
    (lowerTest_selects (by omega)) hdepth
  obtain ⟨fuel₀, s', hrun, -⟩ := Session.runProgram_of_eval hdebug rfl hworld heval
  refine ⟨fuel₀, fun fuel hfuel => ?_⟩
  rw [hrun fuel hfuel]
  rfl

/-- For every input that is allowed, one active call is enough for the built-in script to end. It
prints the exact sum, leaves its input and none of the functions' own variables, and its other
functions give exact sums too; no sum is rounded. Measuring it gives a report, however often it is
run. -/
theorem builtin_script_is_exact (n : Nat) (hn : n ≤ maxInput) (limits : Limits)
    (hdepth : 1 ≤ limits.maxCallDepth) (hdebug : limits.debug = false) :
    ∃ p fuel₀ s, withInput builtinScript n = .ok p ∧
      (∀ fuel ≥ fuel₀,
        (Session.start limits .unlimited).runProgram fuel p = (.ok .undefined, s)) ∧
      s.output.bytes =
        ((Number.ofNat (∑ i ∈ range n with i % 3 ≠ 0, i)).display ++ "\n").toUTF8.data ∧
      s.global? "x" = some (.number (.ofNat n)) ∧
      (∀ x ∈ ["sum", "i", "N"], ∀ v, (x, v) ∉ s.globals) ∧
      (∀ k ≤ maxInput, ∀ f ∈ ["sum_numbers", "sum_numbers_bridge_2"], ∃ fuel₁, ∀ fuel ≥ fuel₁,
        (s.runProgram fuel (calling f k)).1 =
          .ok (.number (.ofNat (∑ i ∈ range k with 2 * i < k, i)))) ∧
      (∀ (chosen : Nat → Prop) [DecidablePred chosen], ∀ k ≤ maxInput,
        (Number.ofNat (∑ i ∈ range k with chosen i, i)).value? =
          some (∑ i ∈ range k with chosen i, i : ℚ)) ∧
      ∀ {m : Type → Type} [Monad m] [LawfulMonad m] (host : Host m), host.Transparent →
        ∀ runs ≥ 1, ∀ fuel ≥ fuel₀, ∃ clock : m (List Nat × Nat),
          measure host fuel limits ⟨n, runs, none⟩ =
            (fun times => .ok ⟨n, (Number.ofNat (∑ i ∈ range n with i % 3 ≠ 0, i)).display,
              ∑ i ∈ range n with i % 3 ≠ 0, i, times.1, times.2⟩) <$> clock := by
  obtain ⟨fuel₀, s, hrun, hs, hworld, hlimit, hnames⟩ := exists_driver_run hn hdepth hdebug
  have houtput : s.output = printed n := hworld.output
  have hbytes : s.output.bytes = (sumLine n).toUTF8.data := by
    rw [houtput]
    exact Output.bytes_unlimited (sumLine n)
  have htext : s.output.text = sumLine n := by
    rw [houtput]
    exact Output.text_write (sumLine n)
  refine ⟨driver (.ofNat n), fuel₀, s, withInput_builtinScript n, hrun, hbytes,
    hworld.global? (driverWorld_global n _) rfl, ?_, ?_, ?_, ?_⟩
  · intro x hx v hmem
    exact hnames x hx (Machine.mem_globalNames hmem)
  · intro k hk f hf
    exact exists_calling_run hs hworld (hlimit ▸ hdepth) hk hf
  · intro chosen _ k hk
    rw [Number.value?_ofNat (sum_lt chosen hk)]
    push_cast
    rfl
  · intro m _ _ host hhost runs hruns fuel hfuel
    apply measure_ok hhost hn rfl (withInput_builtinScript n) _ hruns
    rw [runOnce, hrun fuel hfuel]
    dsimp only
    rw [htext, sumLine, Text.trim_line (Text.solid_display _)]

theorem builtin_script_is_exact_ten :
    let limits : Limits := ⟨1, false⟩
    10 ≤ maxInput ∧ 1 ≤ limits.maxCallDepth ∧ FileTree.host.Transparent ∧
      ∃ p fuel s, withInput builtinScript 10 = .ok p ∧
        (Session.start limits .unlimited).runProgram fuel p = (.ok .undefined, s) ∧
        s.output.bytes = "27\n".toUTF8.data ∧ s.global? "x" = some (.number (.ofNat 10)) ∧
        (∃ fuel₁, (s.runProgram fuel₁ (calling "sum_numbers" 7)).1 = .ok (.number (.ofNat 6))) ∧
        ∃ clock : StateM FileTree (List Nat × Nat), measure FileTree.host fuel limits ⟨10, 3, none⟩ =
          (fun times => .ok ⟨10, "27", 27, times.1, times.2⟩) <$> clock := by
  intro limits
  have hhost : FileTree.host.Transparent := fun f => ⟨pure 0, rfl⟩
  have hsum : ∑ i ∈ range 10 with i % 3 ≠ 0, i = 27 := by decide
  have hlower : ∑ i ∈ range 7 with 2 * i < 7, i = 6 := by decide
  have hdisplay : (Number.ofNat 27).display = "27" := by decide +kernel
  obtain ⟨p, fuel, s, hp, hrun, hbytes, hx, -, hcall, -, hmeasure⟩ :=
    builtin_script_is_exact 10 (by decide) limits (by decide) rfl
  obtain ⟨fuel₁, hcall⟩ := hcall 7 (by decide) "sum_numbers" (by simp)
  have hreport := hmeasure FileTree.host hhost 3 (by decide) fuel (Nat.le_refl fuel)
  rw [hsum, hdisplay] at hbytes hreport
  rw [hlower] at hcall
  exact ⟨by decide, by decide, hhost, p, fuel, s, hp, hrun fuel (Nat.le_refl fuel), hbytes, hx,
    ⟨fuel₁, hcall fuel₁ (Nat.le_refl fuel₁)⟩, hreport⟩

end Driver

end Workload

end Scriptlet
