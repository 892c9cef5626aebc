import Scriptlet.Proofs.Meaning.Evaluator
import Scriptlet.Proofs.Number.Integers
import Scriptlet.Proofs.Workload.Script
import Scriptlet.Proofs.Workload.Sums
import Scriptlet.Workload.Measure

/-! What the summing functions of the built-in script compute, by direct evaluation. All numbers on
the way are exact, since they are natural numbers of at most fifty-three bits. -/
namespace Scriptlet

theorem Builtin.call_print {args : List Value} {out out' : Output}
    (h : out.write (printLine args) = (true, out')) :
    print.call args out = (.ok .undefined, out') := by
  simp only [Builtin.call, h]

namespace Direct

theorem Eval.bind_done {α β : Type} {x : Eval α} {w w' : World} {a : α} (h : x w = (.done a, w'))
    (f : α → Eval β) : (x >>= f) w = f a w' := by
  simp only [bind, h]

theorem Eval.callBuiltin_done {b : Builtin} {args : List Val} {w : World} {u : Value}
    {output : Output} (h : b.call (args.map Val.view) w.output = (.ok u, output)) :
    Eval.callBuiltin b args w = (.done (.plain u), { w with output }) := by
  simp only [Eval.callBuiltin, h]

section Rules
variable {call : Caller} {limit scope : Nat} {w w₁ w₂ : World} {u v : Val}

theorem evalExpr_name {env : Env} {x : String} (hs : w.scopes[scope]? = some env)
    (hx : env.vars x = some v) : evalExpr call scope (.name x) w = (.done v, w) := by
  have hlookup : w.lookup x scope = some v := by
    rw [World.lookup, hs]
    simp only [hx]
  rw [evalExpr, Eval.resolve, hlookup]

theorem evalExpr_binary {op : BinaryOp} {l r : Expr} {a : Value}
    (hl : evalExpr call scope l w = (.done u, w₁)) (hr : evalExpr call scope r w₁ = (.done v, w₂))
    (ha : op.apply u.view v.view = .ok a) :
    evalExpr call scope (.binary op l r) w = (.done (.plain a), w₂) := by
  rw [evalExpr, Eval.bind_done hl, Eval.bind_done hr, Eval.operate, ha]
  rfl

theorem evalArgs_one {e : Expr} (he : evalExpr call scope e w = (.done v, w₁)) :
    evalArgs call scope [e] w = (.done [v], w₁) := by
  rw [evalArgs, Eval.bind_done he]
  rfl

theorem evalExpr_call {f : Expr} {args : List Expr} {vs : List Val}
    (hf : evalExpr call scope f w = (.done u, w₁))
    (hargs : evalArgs call scope args w₁ = (.done vs, w₂)) :
    evalExpr call scope (.call f args) w = apply call u vs w₂ := by
  rw [evalExpr, Eval.bind_done hf, Eval.bind_done hargs]

theorem evalStmt_expr {e : Expr} (he : evalExpr call scope e w = (.done v, w₁)) :
    evalStmt call limit scope (.expr e) w = (.done .next, w₁) := by
  rw [evalStmt, Eval.bind_done he]
  rfl

theorem evalStmt_assign {x : String} {e : Expr} (he : evalExpr call scope e w = (.done v, w₁))
    (hx : Eval.assign scope x v w₁ = (.done (), w₂)) :
    evalStmt call limit scope (.assign x e) w = (.done .next, w₂) := by
  rw [evalStmt, Eval.bind_done he, Eval.bind_done hx]
  rfl

theorem evalStmt_branch {test : Expr} {body : List Stmt}
    (htest : evalExpr call scope test w = (.done v, w₁)) :
    evalStmt call limit scope (.branch test body) w =
      if v.view.isTrue then evalBlock call limit scope body w₁ else (.done .next, w₁) := by
  rw [evalStmt, Eval.bind_done htest]
  split <;> rfl

theorem evalBlock_cons {s : Stmt} (ss : List Stmt)
    (hs : evalStmt call limit scope s w = (.done .next, w₁)) :
    evalBlock call limit scope (s :: ss) w = evalBlock call limit scope ss w₁ := by
  rw [evalBlock, Eval.bind_done hs]

theorem evalBlock_ret {e : Expr} (ss : List Stmt)
    (he : evalExpr call scope e w = (.done v, w₁)) :
    evalBlock call limit scope (.ret (some e) :: ss) w = (.done (.leave v), w₁) := by
  have hs : evalStmt call limit scope (.ret (some e)) w = (.done (.leave v), w₁) := by
    rw [evalStmt, Eval.bind_done he]
    rfl
  rw [evalBlock, Eval.bind_done hs]
  rfl

/-- A loop that counts up to `n`: its test compares the counter, and every round takes the world to
the next one of a sequence. -/
theorem rounds_counted {test : Eval Val} {body : Eval Flow} {n : Nat} {state : Nat → World}
    (htest : ∀ j ≤ n, test (state j) = (.done (.plain (.boolean (decide (j < n)))), state j))
    (hbody : ∀ j < n, body (state j) = (.done .next, state (j + 1))) (limit : Nat) {j : Nat}
    (hj : j ≤ n) (hlimit : n < j + limit) :
    rounds test body limit (state j) = (.done .next, state n) := by
  induction limit generalizing j with
  | zero => omega
  | succ limit ih =>
    rw [rounds, Eval.bind_done (htest j hj)]
    by_cases hlt : j < n
    · have htrue : (Val.plain (.boolean (decide (j < n)))).view.isTrue = true := decide_eq_true hlt
      rw [if_pos htrue, Eval.bind_done (hbody j hlt)]
      exact ih (by omega) (by omega)
    · have hfalse : ¬ (Val.plain (.boolean (decide (j < n)))).view.isTrue = true :=
        fun h => hlt (of_decide_eq_true h)
      rw [if_neg hfalse, show j = n by omega]
      rfl

end Rules

/-- The world with one more scope, the newest. -/
def World.opened (w : World) (env : Env) : World := { w with scopes := w.scopes.push env }

section Opened
variable {w : World} {env : Env} {x : String} {v : Val}

theorem evalExpr_opened {call : Caller} (h : env.vars x = some v) :
    evalExpr call w.scopes.size (.name x) (w.opened env) = (.done v, w.opened env) :=
  evalExpr_name Array.getElem?_push_size h

theorem assign_opened :
    Eval.assign w.scopes.size x v (w.opened env) = (.done (), w.opened (env.set x v)) := by
  unfold Eval.assign World.opened
  congr 2
  apply Array.ext_getElem?
  intro i
  rw [Array.getElem?_modify, Array.getElem?_push, Array.getElem?_push]
  by_cases hi : w.scopes.size = i
  · simp [hi]
  · simp [hi, Ne.symm hi]

end Opened

end Direct

section Naturals
variable {a b : Nat}

/-- A natural number as a value of a script. -/
def Value.nat (n : Nat) : Value := .number (.ofNat n)

theorem BinaryOp.apply_add_nat (h : a + b < 2 ^ 53) :
    add.apply (.nat a) (.nat b) = .ok (.nat (a + b)) := by
  show Except.ok (Value.number (.ofNat a + .ofNat b)) = _
  rw [Number.ofNat_add h]
  rfl

theorem BinaryOp.apply_lt_nat (ha : a < 2 ^ 53) (hb : b < 2 ^ 53) :
    lt.apply (.nat a) (.nat b) = .ok (.boolean (decide (a < b))) := by
  show Except.ok (Value.boolean ((Number.ofNat a).lt (.ofNat b))) = _
  rw [Number.ofNat_lt ha hb]

theorem BinaryOp.apply_mod_nat (ha : a < 2 ^ 53) (hb : b < 2 ^ 53) (h0 : b ≠ 0) :
    mod.apply (.nat a) (.nat b) = .ok (.nat (a % b)) := by
  show Except.ok (Value.number ((Number.ofNat a).floorMod (.ofNat b))) = _
  rw [Number.ofNat_floorMod ha hb h0]
  rfl

end Naturals

namespace Workload

open Direct
open Finset (range)

/-- The variables of a summing function that was called with `n`, after some rounds of its loop. -/
def counting (parent n i sum : Nat) : Env where
  vars x :=
    if x = "i" then some (.plain (.nat i)) else if x = "sum" then some (.plain (.nat sum))
    else if x = "N" then some (.plain (.nat n)) else none
  parent := some parent

section Counting
variable {parent n i sum : Nat}

theorem counting_set_sum (s : Nat) :
    (counting parent n i sum).set "sum" (.plain (.nat s)) = counting parent n i s := by
  unfold counting Env.set
  congr 1
  funext x
  by_cases hx : x = "sum" <;> simp [hx]

theorem counting_set_i (j : Nat) :
    (counting parent n i sum).set "i" (.plain (.nat j)) = counting parent n j sum := by
  unfold counting Env.set
  congr 1
  funext x
  by_cases hx : x = "i" <;> simp [hx]

end Counting

/-- Whatever numbers were added up before, the test of a summing function called with `n` holds just
for the counters with the property. -/
def Selects (test : Expr) (n : Nat) (p : Nat → Prop) [DecidablePred p] : Prop :=
  ∀ (call : Caller) (w : World) (parent sum j : Nat), j < n → ∃ v,
    evalExpr call w.scopes.size test (w.opened (counting parent n j sum)) =
      (.done v, w.opened (counting parent n j sum)) ∧ v.view.isTrue = decide (p j)

section Tests
variable {n : Nat}

theorem lowerTest_selects (hn : n < 2 ^ 53) : Selects lowerTest n (2 * · < n) := by
  intro call w parent sum j hj
  refine ⟨.plain (.boolean ((Number.ofNat j).lt (.ofNat n / .ofNat 2))), ?_, ?_⟩
  · exact evalExpr_binary (evalExpr_opened rfl) (evalExpr_binary (evalExpr_opened rfl) rfl rfl) rfl
  · exact Number.ofNat_lt_half (by omega) hn

theorem remainderTest_selects (hn : n < 2 ^ 53) : Selects remainderTest n (· % 3 ≠ 0) := by
  intro call w parent sum j hj
  have hmod : j % 3 < 2 ^ 53 := by omega
  refine ⟨.plain (.nat (j % 3)), ?_, Number.isTrue_ofNat hmod⟩
  exact evalExpr_binary (evalExpr_opened rfl) rfl
    (BinaryOp.apply_mod_nat (by omega) (by decide) (by decide))

end Tests

theorem maxInput_lt : maxInput < 2 ^ 53 := by decide

section Loop
variable {call : Caller} {limit n : Nat} {test : Expr} {p : Nat → Prop} [DecidablePred p] {w : World}

/-- No sum on the way has more than fifty-three bits. -/
theorem sum_lt (p : Nat → Prop) [DecidablePred p] {j : Nat} (hj : j ≤ maxInput) :
    ∑ i ∈ range j with p i, i < 2 ^ 53 := by
  have hle : ∑ i ∈ range j with p i, i ≤ ∑ i ∈ range maxInput, i :=
    Finset.sum_le_sum_of_subset ((Finset.filter_subset _ _).trans (Finset.range_mono hj))
  have hall : ∑ i ∈ range maxInput, i = 4999999950000000 := by
    rw [Finset.sum_range_id]
    rfl
  omega

/-- The world in which a summing function, called with `n`, has looked at the numbers below `j`. -/
def counted (w : World) (parent n : Nat) (p : Nat → Prop) [DecidablePred p] (j : Nat) : World :=
  w.opened (counting parent n j (∑ i ∈ range j with p i, i))

/-- The loop starts with both variables at zero. -/
theorem counted_zero (parent : Nat) : w.opened (((Env.mk (Env.bind ["N"] [.plain (.nat n)])
    (some parent)).set "sum" (.plain (.nat 0))).set "i" (.plain (.nat 0))) =
    counted w parent n p 0 := by
  rfl

/-- One round looks at one number more. -/
theorem round_done (hn : n ≤ maxInput) (htest : Selects test n p) (parent : Nat) {j : Nat}
    (hj : j < n) :
    evalBlock call limit w.scopes.size (roundBody test) (counted w parent n p j) =
      (.done .next, counted w parent n p (j + 1)) := by
  have hmax := maxInput_lt
  have hsum := sum_lt p (show j + 1 ≤ maxInput by omega)
  obtain ⟨v, hv, htrue⟩ := htest call w parent (∑ i ∈ range j with p i, i) j hj
  have hbranch : evalStmt call limit w.scopes.size
      (.branch test [.assign "sum" (.binary .add (.name "sum") (.name "i"))])
      (counted w parent n p j) =
      (.done .next, w.opened (counting parent n j (∑ i ∈ range (j + 1) with p i, i))) := by
    rw [counted, evalStmt_branch hv, htrue]
    rw [Sums.sum_filter_succ] at hsum ⊢
    -- only where the test holds is anything added, and then the sum of one round later must be exact
    by_cases hp : p j
    · rw [if_pos hp] at hsum ⊢
      rw [if_pos (decide_eq_true hp), evalBlock_cons [] (evalStmt_assign (evalExpr_binary
        (evalExpr_opened rfl) (evalExpr_opened rfl) (BinaryOp.apply_add_nat hsum)) assign_opened),
        counting_set_sum]
      rfl
    · rw [if_neg hp, if_neg (by simpa using hp)]
  have hcount : ∀ s, evalStmt call limit w.scopes.size
      (.assign "i" (.binary .add (.name "i") (.number (.ofNat 1))))
      (w.opened (counting parent n j s)) =
      (.done .next, w.opened (counting parent n (j + 1) s)) := by
    intro s
    rw [evalStmt_assign (evalExpr_binary (evalExpr_opened rfl) rfl
      (BinaryOp.apply_add_nat (by omega))) assign_opened, counting_set_i]
  rw [roundBody, evalBlock_cons _ hbranch, evalBlock_cons _ (hcount _)]
  rfl

theorem loop_done (hn : n ≤ maxInput) (htest : Selects test n p) (parent : Nat) (hlimit : n < limit) :
    evalStmt call limit w.scopes.size (.loop (.binary .lt (.name "i") (.name "N")) (roundBody test))
      (counted w parent n p 0) = (.done .next, counted w parent n p n) := by
  have hmax := maxInput_lt
  rw [evalStmt]
  apply rounds_counted _ _ limit (Nat.zero_le n) (by omega)
  · intro j hj
    exact evalExpr_binary (evalExpr_opened rfl) (evalExpr_opened rfl)
      (BinaryOp.apply_lt_nat (by omega) (by omega))
  · intro j hj
    exact round_done hn htest parent hj

/-- A summing function gives the exact sum and changes no older scope. -/
theorem invoke_summing (hn : n ≤ maxInput) (htest : Selects test n p) {maxDepth depth : Nat}
    (hdepth : depth < maxDepth) (hlimit : n < limit) (id : Nat) (name : String) (scope : Nat) :
    invoke maxDepth (limit + 1) depth ⟨id, name, ["N"], summingBody test, scope⟩ [.plain (.nat n)] w =
      (.done (.plain (.nat (∑ i ∈ range n with p i, i))), counted w scope n p n) := by
  let opening : Env := ⟨Env.bind ["N"] [.plain (.nat n)], some scope⟩
  have henclose : Eval.enclose scope (Env.bind ["N"] [.plain (.nat n)]) w =
      (.done w.scopes.size, w.opened opening) := rfl
  have hsum : evalStmt (invoke maxDepth limit (depth + 1)) limit w.scopes.size
      (.assign "sum" (.number (.ofNat 0))) (w.opened opening) =
      (.done .next, w.opened (opening.set "sum" (.plain (.nat 0)))) :=
    evalStmt_assign rfl assign_opened
  have hi : evalStmt (invoke maxDepth limit (depth + 1)) limit w.scopes.size
      (.assign "i" (.number (.ofNat 0))) (w.opened (opening.set "sum" (.plain (.nat 0)))) =
      (.done .next, counted w scope n p 0) := by
    rw [← counted_zero]
    exact evalStmt_assign rfl assign_opened
  have hbody : evalBlock (invoke maxDepth limit (depth + 1)) limit w.scopes.size (summingBody test)
      (w.opened opening) =
      (.done (.leave (.plain (.nat (∑ i ∈ range n with p i, i)))), counted w scope n p n) := by
    rw [summingBody, evalBlock_cons _ hsum, evalBlock_cons _ hi,
      evalBlock_cons _ (loop_done hn htest scope hlimit)]
    exact evalBlock_ret [] (evalExpr_opened rfl)
  rw [invoke, if_neg (by omega), Eval.bind_done henclose, Eval.bind_done hbody]
  rfl

end Loop

section Driver
variable {call : Caller} {limit : Nat}

/-- A world whose only scope is the global one. -/
def globalWorld (functions : Nat) (output : Output) (env : Env) : World :=
  World.opened ⟨#[], functions, output⟩ env

/-- A summing function of the built-in script. -/
def summer (id : Nat) (name : String) (test : Expr) : Val :=
  .function ⟨id, name, ["N"], summingBody test, Machine.globalScope⟩

/-- A definition makes its function twice, once for the variable and once as its value. -/
theorem evalStmt_summing (functions : Nat) (output : Output) (env : Env) (name : String)
    (test : Expr) :
    evalStmt call limit Machine.globalScope (summing name test) (globalWorld functions output env) =
      (.done .next, globalWorld (functions + 2) output (env.set name (summer functions name test))) := by
  rfl

theorem evalStmt_global (functions : Nat) (output : Output) (env : Env) (x : String) (v : Number) :
    evalStmt call limit Machine.globalScope (.assign x (.number v))
      (globalWorld functions output env) =
      (.done .next, globalWorld functions output (env.set x (.plain (.number v)))) := by
  rfl

/-- The global variables after the definitions of the built-in script. -/
def summers : Env :=
  let empty : Env := ⟨fun _ => none, none⟩
  let first := empty.set "sum_numbers" (summer 0 "sum_numbers" lowerTest)
  let second := first.set "sum_numbers_bridge" (summer 2 "sum_numbers_bridge" remainderTest)
  second.set "sum_numbers_bridge_2" (summer 4 "sum_numbers_bridge_2" lowerTest)

/-- The global variables that the built-in script leaves. -/
def driverEnv (n : Nat) : Env := (summers.set "x" (.plain (.nat 3000))).set "x" (.plain (.nat n))

/-- A name without a variable is that of a builtin. -/
theorem evalExpr_builtin {functions : Nat} {output : Output} {env : Env} {x : String} {b : Builtin}
    (hx : env.vars x = none) (hparent : env.parent = none) (hb : Builtin.ofName? x = some b) :
    evalExpr call Machine.globalScope (.name x) (globalWorld functions output env) =
      (.done (.plain (.builtin b)), globalWorld functions output env) := by
  have hscope : (globalWorld functions output env).scopes[Machine.globalScope]? = some env := rfl
  have hlookup : (globalWorld functions output env).lookup x Machine.globalScope = none := by
    rw [World.lookup, hscope]
    simp only [hx, hparent]
  rw [evalExpr, Eval.resolve, hlookup, hb]

/-- The line that the built-in script prints. -/
def sumLine (n : Nat) : String := (Number.ofNat (∑ i ∈ range n with i % 3 ≠ 0, i)).display ++ "\n"

/-- The world that the built-in script leaves. -/
def driverWorld (n : Nat) (output : Output) : World :=
  { counted (globalWorld 6 output (driverEnv n)) Machine.globalScope n (· % 3 ≠ 0) n with output }

theorem evalProgram_driver {n : Nat} (hn : n ≤ maxInput) {maxDepth : Nat} (hdepth : 0 < maxDepth)
    {output output' : Output} (hwrite : output.write (sumLine n) = (true, output')) :
    evalProgram maxDepth (n + 2) (driver (.ofNat n)) (.start output) =
      (.done .undefined, driverWorld n output') := by
  have hmax := maxInput_lt
  have hcall : evalExpr (invoke maxDepth (n + 2) 0) Machine.globalScope
      (.call (.name "sum_numbers_bridge") [.name "x"]) (globalWorld 6 output (driverEnv n)) =
      (.done (.plain (.nat (∑ i ∈ range n with i % 3 ≠ 0, i))),
        counted (globalWorld 6 output (driverEnv n)) Machine.globalScope n (· % 3 ≠ 0) n) := by
    rw [evalExpr_call (evalExpr_name rfl rfl) (evalArgs_one (evalExpr_name rfl rfl))]
    exact invoke_summing hn (remainderTest_selects (by omega)) hdepth (by omega) 2
      "sum_numbers_bridge" Machine.globalScope
  have hprint : evalExpr (invoke maxDepth (n + 2) 0) Machine.globalScope
      (.call (.name "print") [.call (.name "sum_numbers_bridge") [.name "x"]])
      (globalWorld 6 output (driverEnv n)) = (.done .undefined, driverWorld n output') := by
    have hline : Builtin.printLine [Value.nat (∑ i ∈ range n with i % 3 ≠ 0, i)] = sumLine n := rfl
    rw [evalExpr_call (evalExpr_builtin rfl rfl rfl) (evalArgs_one hcall)]
    exact Eval.callBuiltin_done (Builtin.call_print (hline ▸ hwrite))
  have hstart : World.start output = globalWorld 0 output ⟨fun _ => none, none⟩ := rfl
  have hbody : evalBlock (invoke maxDepth (n + 2) 0) (n + 2) Machine.globalScope
      (driver (.ofNat n)).body (.start output) = (.done .next, driverWorld n output') := by
    rw [hstart, driver]
    dsimp only
    rw [evalBlock_cons _ (evalStmt_summing ..), evalBlock_cons _ (evalStmt_summing ..),
      evalBlock_cons _ (evalStmt_summing ..), evalBlock_cons _ (evalStmt_global ..),
      evalBlock_cons _ (evalStmt_global ..)]
    -- three definitions have made six functions
    show evalBlock _ _ _ _ (globalWorld 6 output (driverEnv n)) = _
    rw [evalBlock_cons _ (evalStmt_expr hprint)]
    rfl
  rw [evalProgram, Eval.bind_done hbody]
  rfl

/-- A script that returns what a function gives for a number. -/
def calling (f : String) (k : Nat) : Program :=
  ⟨[.ret (some (.call (.name f) [.number (.ofNat k)]))]⟩

theorem evalProgram_calling {w : World} {env : Env} {f name : String} {id k : Nat} {test : Expr}
    {p : Nat → Prop} [DecidablePred p] (hglobal : w.scopes[Machine.globalScope]? = some env)
    (hf : env.vars f = some (summer id name test)) (hk : k ≤ maxInput) (htest : Selects test k p)
    {maxDepth : Nat} (hdepth : 0 < maxDepth) :
    evalProgram maxDepth (k + 2) (calling f k) w =
      (.done (.plain (.nat (∑ i ∈ range k with p i, i))), counted w Machine.globalScope k p k) := by
  have hcall : evalExpr (invoke maxDepth (k + 2) 0) Machine.globalScope
      (.call (.name f) [.number (.ofNat k)]) w = (.done (.plain (.nat (∑ i ∈ range k with p i, i))),
        counted w Machine.globalScope k p k) := by
    rw [evalExpr_call (evalExpr_name hglobal hf) (evalArgs_one rfl)]
    exact invoke_summing hk htest hdepth (by omega) id name Machine.globalScope
  rw [evalProgram, calling, Eval.bind_done (evalBlock_ret [] hcall)]
  rfl

end Driver

end Workload
end Scriptlet
