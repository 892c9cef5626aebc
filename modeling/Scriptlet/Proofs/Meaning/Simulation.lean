import Scriptlet.Proofs.Meaning.Representation

/-! The machine follows direct evaluation, instruction by instruction. -/
namespace Scriptlet.Direct

open Machine (Steps)

section Follows
variable {α β : Type} {limit k n : Nat} {m m₁ : Machine} {w : World}
  {goal : α → World → Machine → Prop}

/-- From `m` the machine does what the evaluation says: it reaches the goal, fails with the same
error in the same world, or, if the evaluation was stopped, runs for at least `limit` steps. -/
def Follows (limit : Nat) (m : Machine) (r : Outcome α × World)
    (goal : α → World → Machine → Prop) : Prop :=
  match r with
  | (.done a, w) => ∃ n m', Steps n m m' ∧ goal a w m'
  | (.failed e, w) => ∃ n m' m'', Steps n m m' ∧ m'.step = (.failed e, m'') ∧ w.Coded m''
  | (.unfinished, _) => ∃ m', Steps limit m m'

namespace Follows

theorem pure {a : α} (h : goal a w m) : Follows limit m ((pure a : Eval α) w) goal :=
  ⟨0, m, .refl m, h⟩

theorem fail {e : RuntimeError} (hs : m.step = (.failed e, m₁)) (hw : w.Coded m₁) :
    Follows limit m ((Eval.fail e : Eval α) w) goal :=
  ⟨0, m, m₁, .refl m, hs, hw⟩

theorem limit_le {r : Outcome α × World} (h : Follows limit m r goal) (hk : k ≤ limit) :
    Follows k m r goal := by
  match r, h with
  | (.done _, _), h => exact h
  | (.failed _, _), h => exact h
  | (.unfinished, _), ⟨_, hs⟩ => exact hs.truncate hk

/-- What the machine does next leads from one goal to another. -/
theorem extend {r : Outcome α × World} {goal' : α → World → Machine → Prop}
    (h : Follows limit m r goal)
    (hg : ∀ a w m, goal a w m → ∃ n m', Steps n m m' ∧ goal' a w m') : Follows limit m r goal' := by
  match r, h with
  | (.done a, w), ⟨n, m', hs, h⟩ =>
    obtain ⟨k, m'', hk, h'⟩ := hg a w m' h
    exact ⟨n + k, m'', hs.trans hk, h'⟩
  | (.failed _, _), h => exact h
  | (.unfinished, _), h => exact h

theorem mono {r : Outcome α × World} {goal' : α → World → Machine → Prop}
    (h : Follows limit m r goal) (hg : ∀ a w m, goal a w m → goal' a w m) :
    Follows limit m r goal' :=
  h.extend fun a w m h => ⟨0, m, .refl m, hg a w m h⟩

/-- Steps made before count as well. -/
theorem after {r : Outcome α × World} (hs : Steps n m m₁) (h : Follows limit m₁ r goal) :
    Follows (n + limit) m r goal := by
  match r, h with
  | (.done _, _), ⟨k, m', hk, hg⟩ => exact ⟨n + k, m', hs.trans hk, hg⟩
  | (.failed _, _), ⟨k, m', m'', hk, hf⟩ => exact ⟨n + k, m', m'', hs.trans hk, hf⟩
  | (.unfinished, _), ⟨m', hk⟩ => exact ⟨m', hs.trans hk⟩

theorem steps {r : Outcome α × World} (hs : Steps n m m₁) (h : Follows limit m₁ r goal) :
    Follows limit m r goal := (after hs h).limit_le (Nat.le_add_left ..)

theorem bind {x : Eval α} {f : α → Eval β} {goal' : β → World → Machine → Prop}
    (h : Follows limit m (x w) goal)
    (hf : ∀ a w' m', goal a w' m' → Follows limit m' (f a w') goal') :
    Follows limit m ((x >>= f) w) goal' := by
  change Follows limit m (match x w with
    | (.done a, w) => f a w
    | (.failed e, w) => (.failed e, w)
    | (.unfinished, w) => (.unfinished, w)) goal'
  match x w, h with
  | (.done a, w'), ⟨_, m', hs, hg⟩ => exact (hf a w' m' hg).steps hs
  | (.failed _, _), h => exact h
  | (.unfinished, _), h => exact h

end Follows
end Follows

/-- Code `c` can go on in scope `s` of a machine with the given limit on calls. -/
structure Ready (maxDepth : Nat) (c : Code) (s : Nat) (w : World) (m : Machine) : Prop where
  coded : w.Coded m
  depth : m.maxCallDepth = maxDepth
  nodup : c.names.toList.Nodup
  layout : ∃ sc, m.store.scopes[s]? = some sc ∧ sc.names = c.names

theorem Ready.keeps {maxDepth : Nat} {c : Code} {s : Nat} {w w' : World} {m m' : Machine}
    (h : Ready maxDepth c s w m) (hw : w'.Coded m') (hk : m.Keeps m') :
    Ready maxDepth c s w' m' := by
  obtain ⟨sc, hs, hn⟩ := h.layout
  obtain ⟨sc', hs', hn'⟩ := hk.names s sc hs
  exact ⟨hw, hk.depth.trans h.depth, h.nodup, sc', hs', hn'.trans hn⟩

theorem Val.Coded.keeps {w w' : World} {m m' : Machine} {v : Val} {V : Value}
    (hv : v.Coded w.scopes.size V) (hw : w.Coded m) (hw' : w'.Coded m') (hk : m.Keeps m') :
    v.Coded w'.scopes.size V := by
  have hle := hk.names.size_le
  rw [hw.size, hw'.size] at hle
  exact hv.mono hle

/-- The frame on top has gone on to `q` with one more value on its stack. -/
def Pushed (m : Machine) (c : Code) (q : Nat) (st : List Value) (s : Nat) (cs : List Frame)
    (v : Val) (w : World) (m'' : Machine) : Prop :=
  ∃ m' V, m'' = m'.within ⟨c, q, V :: st, s⟩ cs ∧ v.Coded w.scopes.size V ∧ w.Coded m' ∧ m.Keeps m'

theorem Follows.keeps {limit : Nat} {m m₁ m' : Machine} {r : Outcome Val × World} {c : Code} {q : Nat}
    {st : List Value} {s : Nat} {cs : List Frame} (h : Follows limit m' r (Pushed m₁ c q st s cs))
    (hk : m.Keeps m₁) : Follows limit m' r (Pushed m c q st s cs) := by
  refine h.mono ?_
  rintro v w _ ⟨m₂, V, rfl, hV, hw, hk'⟩
  exact ⟨m₂, V, rfl, hV, hw, hk.trans hk'⟩

/-- The machine follows calls of functions while `depth` calls are active. -/
def CallFollows (maxDepth limit depth : Nat) (call : Caller) : Prop :=
  ∀ {f : Lambda} {g c : Code} {args : List Val} {Args st : List Value} {m : Machine} {w : World}
    {p s : Nat} {cs : List Frame}, Code.ofFunction f.name f.params f.body = .ok g →
    f.scope < w.scopes.size → List.Forall₂ (Val.Coded w.scopes.size) args Args →
    Ready maxDepth c s w m → cs.length = depth → c.code[p]? = some ⟨.call, Args.length⟩ →
    Follows limit
      (m.within ⟨c, p, Args.reverse ++ .function ⟨f.id, g, f.scope⟩ :: st, s⟩ cs)
      (call f args w) (Pushed m c (p + 1) st s cs)

section Expressions
variable {maxDepth limit : Nat} {call : Caller} {c : Code} {s : Nat} {cs : List Frame}

theorem apply_follows (hcall : CallFollows maxDepth limit cs.length call) {callee : Val}
    {Callee : Value} {args : List Val} {Args st : List Value} {m : Machine} {w : World} {p : Nat}
    (hc : callee.Coded w.scopes.size Callee)
    (ha : List.Forall₂ (Val.Coded w.scopes.size) args Args) (hr : Ready maxDepth c s w m)
    (hi : c.code[p]? = some ⟨.call, args.length⟩) :
    Follows limit (m.within ⟨c, p, Args.reverse ++ Callee :: st, s⟩ cs) (apply call callee args w)
      (Pushed m c (p + 1) st s cs) := by
  have hw := hr.coded
  have hlen : args.length = Args.length := ha.length_eq
  rw [hlen] at hi
  cases hc with
  | function code scope => exact hcall code scope ha hr rfl hi
  | plain isPlain =>
    have hstep : (m.within ⟨c, p, Args.reverse ++ Callee :: st, s⟩ cs).step = _ :=
      Machine.step_call hi
    cases Callee with
    | builtin b =>
      have hb := Builtin.call_alike (Val.Coded.alikes ha) m.output (b := b)
      simp only [apply, Eval.callBuiltin, ← hw.output, hb]
      cases hr : b.call Args m.output with
      | mk r output =>
        simp only [hr] at hstep
        have hw' : World.Coded { w with output } { m with output } := { hw with output := rfl }
        cases r with
        | error e => exact ⟨0, _, _, .refl _, hstep, { hw' with }⟩
        | ok u =>
          refine ⟨1, _, .single hstep, { m with output }, u, rfl, ?_, hw', ?_⟩
          · exact .plain (Builtin.call_isPlain hr)
          · exact { Machine.Keeps.refl m with }
    | function f => exact absurd rfl (isPlain f)
    | _ => exact .fail hstep { hw with }

/-- A name is found through its slot. -/
theorem resolve_follows {x : String} {m : Machine} {w : World}
    {p slot : Nat} {st : List Value} (hi : c.code[p]? = some ⟨.loadVar, slot⟩)
    (hx : c.names[slot]? = some x) (hr : Ready maxDepth c s w m) :
    Follows limit (m.within ⟨c, p, st, s⟩ cs) (Eval.resolve s x w) (Pushed m c (p + 1) st s cs) := by
  obtain ⟨sc, hs, hsn⟩ := hr.layout
  obtain ⟨env, -, hc⟩ := hr.coded.scope? hs
  have hslot : m.store.slot? s slot = m.store.named? x s :=
    Store.slot?_eq_named? hs (hsn ▸ hr.nodup) hc.older (hsn ▸ hx)
  have hstep : (m.within ⟨c, p, st, s⟩ cs).step = _ := Machine.step_loadVar hi
  have hl := hr.coded.lookup x s
  simp only [Machine.loadVar, hslot, hx] at hstep
  unfold Eval.resolve
  cases hw : w.lookup x s with
  | some v =>
    rw [hw] at hl
    cases hV : m.store.named? x s with
    | none => rw [hV] at hl; cases hl
    | some V =>
      simp only [hV, Option.rel_some_some] at hl hstep
      exact ⟨1, _, .single hstep, m, V, rfl, hl, hr.coded, .refl m⟩
  | none =>
    rw [hw] at hl
    cases hV : m.store.named? x s with
    | some V => rw [hV] at hl; cases hl
    | none =>
      simp only [hV] at hstep
      cases hb : Builtin.ofName? x with
      | none =>
        simp only [hb] at hstep
        exact ⟨0, _, _, .refl _, hstep, { hr.coded with }⟩
      | some b =>
        simp only [hb] at hstep
        exact ⟨1, _, .single hstep, m, .builtin b, rfl, .plain (by simp [Value.IsPlain]), hr.coded,
          .refl m⟩

/-- A definition makes a function, binds it to its name and makes another one. -/
theorem function_follows {f : String} {params : List String} {body : List Stmt} {m : Machine}
    {w : World} {p q : Nat} {st : List Value}
    (hp : (Expr.function f params body).Placed c p q) (hr : Ready maxDepth c s w m) :
    Follows limit (m.within ⟨c, p, st, s⟩ cs) (evalExpr call s (.function f params body) w)
      (Pushed m c q st s cs) := by
  cases hp with
  | @function _ _ _ g _ i j compiled pool slot load bind reload =>
    obtain ⟨sc, hs, hsn⟩ := hr.layout
    have hlt : s < w.scopes.size := hr.coded.size ▸ lt_size_of_getElem? hs
    let w₁ : World := { w with functions := w.functions + 1 }
    let m₁ : Machine := { m with closures := m.closures + 1 }
    have h₁ : w₁.Coded m₁ := { hr.coded with functions := congrArg (· + 1) hr.coded.functions }
    have hv : (Val.function ⟨w.functions, f, params, body, s⟩).Coded w₁.scopes.size
        (.function ⟨m.closures, g, s⟩) := by
      rw [hr.coded.functions]
      exact .function compiled hlt
    obtain ⟨store, hset, h₂, hk⟩ := h₁.assign hs (hsn ▸ hr.nodup) (hsn ▸ slot) hv
    let m₃ : Machine := { m₁ with store, closures := m₁.closures + 1 }
    have h₃ : World.Coded { w with
        scopes := w.scopes.modify s (·.set f (.function ⟨w.functions, f, params, body, s⟩)),
        functions := w.functions + 2 } m₃ :=
      { h₂ with functions := congrArg (· + 1) h₂.functions }
    have hsteps : Machine.Steps 3 (m.within ⟨c, p, st, s⟩ cs)
        (m₃.within ⟨c, p + 3, .function ⟨m.closures + 1, g, s⟩ :: st, s⟩ cs) :=
      .head (Machine.step_loadFunction load pool)
        (.head (Machine.step_assign bind hset) (.single (Machine.step_loadFunction reload pool)))
    refine ⟨3, _, hsteps, m₃, _, rfl, ?_, h₃, ⟨hk.depth, hk.names⟩⟩
    rw [hr.coded.functions]
    exact .function compiled (by simpa using hlt)

theorem operate_follows {op : BinaryOp} {l r : Val} {L R : Value} {m : Machine} {w : World} {p : Nat}
    {st : List Value} (hi : c.code[p]? = some ⟨.binary op, 0⟩) (hl : l.Coded w.scopes.size L)
    (hr : r.Coded w.scopes.size R) (hw : w.Coded m) :
    Follows limit (m.within ⟨c, p, R :: L :: st, s⟩ cs) (Eval.operate op l r w)
      (Pushed m c (p + 1) st s cs) := by
  have hstep : (m.within ⟨c, p, R :: L :: st, s⟩ cs).step = _ := Machine.step_binary hi
  unfold Eval.operate
  rw [hl.alike.apply hr.alike op]
  cases ho : op.apply L R with
  | error e =>
    simp only [ho] at hstep
    exact .fail hstep { hw with }
  | ok u =>
    simp only [ho] at hstep
    exact ⟨1, _, .single hstep, m, u, rfl, .plain (BinaryOp.apply_isPlain ho), hw, .refl m⟩

/-- The frame on top has gone on to `q` with `count` values on its stack, the last one on top. -/
def PushedAll (count : Nat) (m : Machine) (c : Code) (q : Nat) (st : List Value) (s : Nat)
    (cs : List Frame) (vs : List Val) (w : World) (m'' : Machine) : Prop :=
  ∃ m' Vs, m'' = m'.within ⟨c, q, List.reverse Vs ++ st, s⟩ cs ∧ vs.length = count ∧
    List.Forall₂ (Val.Coded w.scopes.size) vs Vs ∧ w.Coded m' ∧ m.Keeps m'

mutual

theorem evalExpr_follows (hcall : CallFollows maxDepth limit cs.length call) :
    (e : Expr) → {p q : Nat} → {st : List Value} → {m : Machine} → {w : World} →
    e.Placed c p q → Ready maxDepth c s w m →
    Follows limit (m.within ⟨c, p, st, s⟩ cs) (evalExpr call s e w) (Pushed m c q st s cs)
  | .number v, p, q, st, m, w, hp, hr => by
    cases hp with
    | number code pool =>
      exact ⟨1, _, .single (Machine.step_loadNumber code pool), m, .number v, rfl,
        .plain (by simp [Value.IsPlain]), hr.coded, .refl m⟩
  | .boolean v, p, q, st, m, w, hp, hr => by
    cases hp with
    | boolean code =>
      have hv : decide (v.toNat ≠ 0) = v := by cases v <;> rfl
      exact ⟨1, _, .single (Machine.step_loadBoolean code), m, .boolean v, by rw [hv],
        .plain (by simp [Value.IsPlain]), hr.coded, .refl m⟩
  | .text t, p, q, st, m, w, hp, hr => by
    cases hp with
    | text code pool =>
      exact ⟨1, _, .single (Machine.step_loadText code pool), m, .text t, rfl,
        .plain (by simp [Value.IsPlain]), hr.coded, .refl m⟩
  | .name x, p, q, st, m, w, hp, hr => by
    cases hp with
    | name code pool => exact resolve_follows code pool hr
  | .binary op l r, p, q, st, m, w, hp, hr => by
    cases hp with
    | binary left right code =>
      refine (evalExpr_follows hcall l left hr).bind ?_
      rintro lv w₁ _ ⟨m₁, L, rfl, hL, hw₁, hk₁⟩
      refine (evalExpr_follows hcall r right (hr.keeps hw₁ hk₁)).bind ?_
      rintro rv w₂ _ ⟨m₂, R, rfl, hR, hw₂, hk₂⟩
      exact (operate_follows code (hL.keeps hw₁ hw₂ hk₂) hR hw₂).keeps (hk₁.trans hk₂)
  | .call f args, p, q, st, m, w, hp, hr => by
    cases hp with
    | call callee list code =>
      refine (evalExpr_follows hcall f callee hr).bind ?_
      rintro fv w₁ _ ⟨m₁, F, rfl, hF, hw₁, hk₁⟩
      have hr₁ := hr.keeps hw₁ hk₁
      refine (evalArgs_follows hcall args list hr₁).bind ?_
      rintro vs w₂ _ ⟨m₂, Vs, rfl, hlen, hVs, hw₂, hk₂⟩
      rw [← hlen] at code
      exact (apply_follows hcall (hF.keeps hw₁ hw₂ hk₂) hVs (hr₁.keeps hw₂ hk₂) code).keeps
        (hk₁.trans hk₂)
  | .function f params body, p, q, st, m, w, hp, hr => function_follows hp hr

theorem evalArgs_follows (hcall : CallFollows maxDepth limit cs.length call) :
    (es : List Expr) → {p q : Nat} → {st : List Value} → {m : Machine} → {w : World} →
    ArgsPlaced c es p q → Ready maxDepth c s w m →
    Follows limit (m.within ⟨c, p, st, s⟩ cs) (evalArgs call s es w)
      (PushedAll es.length m c q st s cs)
  | [], p, q, st, m, w, hp, hr => by
    cases hp with
    | nil => exact ⟨0, _, .refl _, m, [], rfl, rfl, .nil, hr.coded, .refl m⟩
  | e :: es, p, q, st, m, w, hp, hr => by
    cases hp with
    | cons head tail =>
      refine (evalExpr_follows hcall e head hr).bind ?_
      rintro v w₁ _ ⟨m₁, V, rfl, hV, hw₁, hk₁⟩
      refine (evalArgs_follows hcall es tail (hr.keeps hw₁ hk₁)).bind ?_
      rintro vs w₂ _ ⟨m₂, Vs, rfl, hlen, hVs, hw₂, hk₂⟩
      exact .pure ⟨m₂, V :: Vs, by simp, by simp [hlen], .cons (hV.keeps hw₁ hw₂ hk₂) hVs, hw₂,
        hk₁.trans hk₂⟩

end

end Expressions

/-- The frame on top has come to `q`, or is about to leave with the value. -/
def Passed (m : Machine) (c : Code) (q : Nat) (s : Nat) (cs : List Frame) (flow : Flow) (w : World)
    (m'' : Machine) : Prop :=
  ∃ m', w.Coded m' ∧ m.Keeps m' ∧
    match flow with
    | .next => m'' = m'.within ⟨c, q, [], s⟩ cs
    | .leave v => ∃ V, v.Coded w.scopes.size V ∧ m''.step = m'.leave cs V

section Statements
variable {maxDepth limit : Nat} {call : Caller} {c : Code} {s : Nat} {cs : List Frame}

theorem Passed.keeps {m m₁ m'' : Machine} {q : Nat} {flow : Flow} {w : World}
    (h : Passed m₁ c q s cs flow w m'') (hk : m.Keeps m₁) : Passed m c q s cs flow w m'' := by
  obtain ⟨m', hw, hk', h⟩ := h
  exact ⟨m', hw, hk.trans hk', h⟩

/-- Both sides decide a test alike. -/
theorem branch_follows {v : Val} {V : Value} {m : Machine} {w : World} {p q : Nat}
    {body rest : Eval Flow} {goal : Flow → World → Machine → Prop}
    (hi : c.code[p]? = some ⟨.jumpIfFalse, q⟩) (hv : v.Coded w.scopes.size V)
    (ht : Follows limit (m.within ⟨c, p + 1, [], s⟩ cs) (body w) goal)
    (hf : Follows limit (m.within ⟨c, q, [], s⟩ cs) (rest w) goal) :
    Follows limit (m.within ⟨c, p, [V], s⟩ cs)
      ((if v.view.isTrue then body else rest) w) goal := by
  refine Follows.steps (.single (Machine.step_jumpIfFalse hi)) ?_
  rw [hv.alike.isTrue]
  cases V.isTrue with
  | true => exact ht
  | false => exact hf

/-- Each round takes a step of its own, so a loop that is stopped after `n` rounds has run for at
least `n` steps. -/
theorem rounds_follows {test : Eval Val} {body : Eval Flow} {p p₁ p₂ : Nat}
    (htest : ∀ {m : Machine} {w : World}, Ready maxDepth c s w m →
      Follows limit (m.within ⟨c, p, [], s⟩ cs) (test w) (Pushed m c p₁ [] s cs))
    (hbody : ∀ {m : Machine} {w : World}, Ready maxDepth c s w m →
      Follows limit (m.within ⟨c, p₁ + 1, [], s⟩ cs) (body w) (Passed m c p₂ s cs))
    (hexit : c.code[p₁]? = some ⟨.jumpIfFalse, p₂ + 1⟩) (hback : c.code[p₂]? = some ⟨.jump, p⟩)
    {n : Nat} {m : Machine} {w : World} (hn : n ≤ limit) (hr : Ready maxDepth c s w m) :
    Follows n (m.within ⟨c, p, [], s⟩ cs) (rounds test body n w) (Passed m c (p₂ + 1) s cs) := by
  induction n generalizing m w with
  | zero => exact ⟨_, .refl _⟩
  | succ n ih =>
    refine ((htest hr).limit_le hn).bind ?_
    rintro v w₁ _ ⟨m₁, V, rfl, hV, hw₁, hk₁⟩
    have hr₁ := hr.keeps hw₁ hk₁
    refine branch_follows hexit hV ?_ (.pure ⟨m₁, hw₁, hk₁, rfl⟩)
    refine ((hbody hr₁).limit_le hn).bind ?_
    rintro (_ | u) w₂ m' ⟨m₂, hw₂, hk₂, hm'⟩
    · subst hm'
      have hnext := ih (Nat.le_of_succ_le hn) (hr₁.keeps hw₂ hk₂)
      refine .limit_le (.after (.single (Machine.step_jump hback)) (hnext.mono fun _ _ _ h => ?_))
        (Nat.le_of_eq (Nat.add_comm n 1))
      exact h.keeps (hk₁.trans hk₂)
    · exact .pure ⟨m₂, hw₂, hk₁.trans hk₂, hm'⟩

mutual

theorem evalStmt_follows (hcall : CallFollows maxDepth limit cs.length call) :
    (t : Stmt) → {p q : Nat} → {m : Machine} → {w : World} → t.Placed c p q →
    Ready maxDepth c s w m →
    Follows limit (m.within ⟨c, p, [], s⟩ cs) (evalStmt call limit s t w) (Passed m c q s cs)
  | .expr e, p, q, m, w, hp, hr => by
    cases hp with
    | expr value code =>
      refine (evalExpr_follows hcall e value hr).bind ?_
      rintro v w₁ _ ⟨m₁, V, rfl, -, hw₁, hk₁⟩
      exact .steps (.single (Machine.step_discard code)) (.pure ⟨m₁, hw₁, hk₁, rfl⟩)
  | .assign x e, p, q, m, w, hp, hr => by
    cases hp with
    | assign value code pool =>
      refine (evalExpr_follows hcall e value hr).bind ?_
      rintro v w₁ _ ⟨m₁, V, rfl, hV, hw₁, hk₁⟩
      obtain ⟨sc, hs, hsn⟩ := (hr.keeps hw₁ hk₁).layout
      obtain ⟨store, hset, hw₂, hk₂⟩ := hw₁.assign hs (hsn ▸ hr.nodup) (hsn ▸ pool) hV
      exact ⟨1, _, .single (Machine.step_assign code hset), _, hw₂, hk₁.trans hk₂, rfl⟩
  | .branch test body, p, q, m, w, hp, hr => by
    cases hp with
    | branch value code inner =>
      refine (evalExpr_follows hcall test value hr).bind ?_
      rintro v w₁ _ ⟨m₁, V, rfl, hV, hw₁, hk₁⟩
      refine branch_follows code hV ?_ (.pure ⟨m₁, hw₁, hk₁, rfl⟩)
      exact (evalBlock_follows hcall body inner (hr.keeps hw₁ hk₁)).mono
        fun _ _ _ h => h.keeps hk₁
  | .loop test body, p, q, m, w, hp, hr => by
    cases hp with
    | loop value code inner back =>
      exact rounds_follows (fun hr => evalExpr_follows hcall test value hr)
        (fun hr => evalBlock_follows hcall body inner hr) code back (Nat.le_refl limit) hr
  | .ret none, p, q, m, w, hp, hr => by
    cases hp with
    | leave code =>
      exact .pure ⟨m, hr.coded, .refl m, .undefined, .undefined _, Machine.step_ret code⟩
  | .ret (some e), p, q, m, w, hp, hr => by
    cases hp with
    | ret value code =>
      refine (evalExpr_follows hcall e value hr).bind ?_
      rintro v w₁ _ ⟨m₁, V, rfl, hV, hw₁, hk₁⟩
      exact .pure ⟨m₁, hw₁, hk₁, V, hV, Machine.step_ret_value code Nat.one_ne_zero⟩

theorem evalBlock_follows (hcall : CallFollows maxDepth limit cs.length call) :
    (ts : List Stmt) → {p q : Nat} → {m : Machine} → {w : World} → BlockPlaced c ts p q →
    Ready maxDepth c s w m →
    Follows limit (m.within ⟨c, p, [], s⟩ cs) (evalBlock call limit s ts w) (Passed m c q s cs)
  | [], p, q, m, w, hp, hr => by
    cases hp with
    | nil => exact .pure ⟨m, hr.coded, .refl m, rfl⟩
  | t :: ts, p, q, m, w, hp, hr => by
    cases hp with
    | cons head tail =>
      refine (evalStmt_follows hcall t head hr).bind ?_
      rintro (_ | v) w₁ m' ⟨m₁, hw₁, hk₁, hm'⟩
      · subst hm'
        exact (evalBlock_follows hcall ts tail (hr.keeps hw₁ hk₁)).mono fun _ _ _ h => h.keeps hk₁
      · exact .pure ⟨m₁, hw₁, hk₁, hm'⟩

end

/-- The frame on top is about to leave with the value. -/
def Leaving (m : Machine) (cs : List Frame) (v : Val) (w : World) (m'' : Machine) : Prop :=
  ∃ m' V, m''.step = m'.leave cs V ∧ v.Coded w.scopes.size V ∧ w.Coded m' ∧ m.Keeps m'

/-- An activation ends with a return, be it the one that closes its code. -/
theorem activation_follows (hcall : CallFollows maxDepth limit cs.length call) {body : List Stmt}
    {last : Nat} (hc : c.Runs body last) {m : Machine} {w : World}
    (hr : Ready maxDepth c s w m) :
    Follows limit (m.within (.start c s) cs)
      ((evalBlock call limit s body >>= fun flow => pure flow.value : Eval Val) w)
      (Leaving m cs) := by
  refine (evalBlock_follows hcall body hc.placed hr).bind ?_
  rintro (_ | v) w₁ m' ⟨m₁, hw₁, hk₁, hm'⟩
  · subst hm'
    exact .pure ⟨m₁, .undefined, Machine.step_ret hc.ret, .undefined _, hw₁, hk₁⟩
  · obtain ⟨V, hV, hstep⟩ := hm'
    exact .pure ⟨m₁, V, hstep, hV, hw₁, hk₁⟩

end Statements

/-- Each call takes a step of its own, so calls that are stopped `limit` deep have run for at least
`limit` steps. -/
theorem invoke_follows (maxDepth limit depth : Nat) :
    CallFollows maxDepth limit depth (invoke maxDepth limit depth) := by
  induction limit generalizing depth with
  | zero =>
    intro f g c args Args st m w p s cs _ _ _ _ _ _
    exact ⟨_, .refl _⟩
  | succ limit ih =>
    intro f g c args Args st m w p s cs hg hf ha hr hd hi
    have hstep : (m.within ⟨c, p, Args.reverse ++ .function ⟨f.id, g, f.scope⟩ :: st, s⟩ cs).step =
      m.enter ⟨c, p + 1, st, s⟩ cs ⟨f.id, g, f.scope⟩ Args := Machine.step_call hi
    simp only [invoke]
    by_cases hdepth : maxDepth ≤ depth
    · rw [if_pos hdepth]
      rw [Machine.enter_of_le Args (by rw [hr.depth, hd]; exact hdepth), hr.depth] at hstep
      exact .fail hstep { hr.coded with }
    · obtain ⟨⟨last, hruns⟩, -⟩ := Code.ofFunction_runs hg
      have hle := Code.ofFunction_argCount_le hg
      rw [Machine.enter_of_lt Args (by rw [hr.depth, hd]; omega) hle] at hstep
      rw [if_neg hdepth]
      obtain ⟨hw₁, hk₁⟩ := hr.coded.enclose hg hf ha
      have hr₁ : Ready maxDepth g m.store.scopes.size _ _ :=
        ⟨hw₁, hr.depth, hruns.nodup, .ofCall ⟨f.id, g, f.scope⟩ Args, by simp, rfl⟩
      have hcall : CallFollows maxDepth limit (⟨c, p + 1, st, s⟩ :: cs : List Frame).length
          (invoke maxDepth limit (depth + 1)) := by
        rw [List.length_cons, hd]
        exact ih (depth + 1)
      have hbody := activation_follows hcall hruns hr₁
      rw [hr.coded.size] at hbody hstep
      refine .limit_le (.after (.single hstep) (hbody.extend ?_)) (Nat.le_of_eq (Nat.add_comm limit 1))
      rintro v w' m'' ⟨m', V, hleave, hV, hw', hk'⟩
      exact ⟨1, _, .single hleave, m', V, rfl, hV, hw', hk₁.trans hk'⟩

end Scriptlet.Direct
