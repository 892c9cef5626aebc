import Scriptlet.Proofs.Bytecode.Placement

/-! Code under construction whose numbers and names are found through index maps instead of by a
search. The maps stay the inverses of their pools, so that the same code comes out. -/
namespace Scriptlet

section Index
variable {α κ : Type} [BEq κ] [Hashable κ]

/-- The place of an item in a pool, found by its key. A new item is put at the end. -/
def internBy (key : α → κ) (pool : Array α) (index : Std.HashMap κ Nat) (x : α) :
    Array α × Std.HashMap κ Nat × Nat :=
  match index[key x]? with
  | some i => (pool, index, i)
  | none => (pool.push x, index.insert (key x) pool.size, pool.size)

/-- The index is the inverse of the pool: it gives exactly the places of the keys of its items. -/
def Indexes (key : α → κ) (index : Std.HashMap κ Nat) (pool : Array α) : Prop :=
  ∀ k i, index[k]? = some i ↔ ∃ x, pool[i]? = some x ∧ key x = k

namespace Indexes

variable {key : α → κ} {index : Std.HashMap κ Nat} {pool : Array α}

theorem empty : Indexes key (∅ : Std.HashMap κ Nat) #[] := by
  intro k i
  simp

/-- No two items have the same key. -/
theorem nodup (h : Indexes key index pool) : (pool.toList.map key).Nodup := by
  rw [List.nodup_iff_injective_getElem]
  intro i j hij
  have hplace (n : Fin (pool.toList.map key).length) :
      index[(pool.toList.map key)[n]]? = some n := by
    have hn : n.1 < pool.size := by simpa using n.2
    exact (h _ _).mpr ⟨pool[n.1], Array.getElem?_eq_getElem hn, by simp⟩
  have hi := hplace i
  rw [show (pool.toList.map key)[i] = (pool.toList.map key)[j] from hij, hplace j] at hi
  exact (Fin.ext (Option.some.inj hi)).symm

/-- The index is kept up with the pool. -/
theorem intern [LawfulBEq κ] [LawfulHashable κ] (h : Indexes key index pool) (x : α) :
    Indexes key (internBy key pool index x).2.1 (internBy key pool index x).1 := by
  unfold internBy
  cases hx : index[key x]? with
  | some i => exact h
  | none =>
    intro k i
    dsimp only
    rw [Std.HashMap.getElem?_insert, Array.getElem?_push]
    by_cases hk : key x = k
    · subst hk
      rw [if_pos (beq_self_eq_true _)]
      constructor
      · intro hi
        exact ⟨x, if_pos (Option.some.inj hi).symm, rfl⟩
      · rintro ⟨y, hy, heq⟩
        split at hy
        · next hi => rw [hi]
        · -- the key would have been there before
          have hold := (h (key x) i).mpr ⟨y, hy, heq⟩
          rw [hx] at hold
          cases hold
    · rw [if_neg (by simpa using hk), h k i]
      constructor
      · rintro ⟨y, hy, heq⟩
        rw [if_neg (lt_size_of_getElem? hy).ne]
        exact ⟨y, hy, heq⟩
      · rintro ⟨y, hy, heq⟩
        split at hy
        · obtain rfl := Option.some.inj hy
          exact absurd heq hk
        · exact ⟨y, hy, heq⟩

variable [BEq α] [LawfulBEq α]

theorem idxOf? (h : Indexes key index pool) (hkey : Function.Injective key) (x : α) :
    index[key x]? = pool.idxOf? x := by
  cases hx : index[key x]? with
  | some i =>
    obtain ⟨y, hy, heq⟩ := (h (key x) i).mp hx
    obtain rfl := hkey heq
    exact (idxOf?_of_getElem? (h.nodup.of_map key) hy).symm
  | none =>
    cases hi : pool.idxOf? x with
    | none => rfl
    | some i =>
      have hsome := (h (key x) i).mpr ⟨x, getElem?_of_idxOf? hi, rfl⟩
      rw [hx] at hsome
      cases hsome

/-- Looking up a key has the effect of a search. -/
theorem internBy_eq (h : Indexes key index pool) (hkey : Function.Injective key) (x : α) :
    (internBy key pool index x).1 = (Scriptlet.intern pool x).1 ∧
      (internBy key pool index x).2.2 = (Scriptlet.intern pool x).2 := by
  unfold internBy Scriptlet.intern
  rw [h.idxOf? hkey x]
  cases pool.idxOf? x <;> exact ⟨rfl, rfl⟩

end Indexes
end Index

/-- Code under construction, with the places of its numbers, by their bits, and of its names. -/
structure Context extends Builder where
  numberIndex : Std.HashMap UInt64 Nat
  nameIndex : Std.HashMap String Nat

namespace Context

def new : Context := ⟨.empty, ∅, ∅⟩

def emit (c : Context) (op : Opcode) (arg : Nat) : Context :=
  { c with toBuilder := c.toBuilder.emit op arg }

def patch (c : Context) (place target : Nat) : Context :=
  { c with toBuilder := c.toBuilder.patch place target }

def addNumber (c : Context) (v : Number) : Context × Nat :=
  let (numbers, numberIndex, i) := internBy Number.bits c.numbers c.numberIndex v
  ({ c with numbers, numberIndex }, i)

/-- Texts have no index. -/
def addText (c : Context) (s : String) : Context × Nat :=
  let (b, i) := c.toBuilder.addText s
  ({ c with toBuilder := b }, i)

def addFunction (c : Context) (g : Code) : Context × Nat :=
  let (b, i) := c.toBuilder.addFunction g
  ({ c with toBuilder := b }, i)

def addName (c : Context) (x : String) : Context × Nat :=
  let (names, nameIndex, i) := internBy id c.names c.nameIndex x
  ({ c with names, nameIndex }, i)

def withNames (names : List String) : Context := names.foldl (fun c x => (c.addName x).1) new

/-- No item is in a pool twice, numbers being told apart by their bits, and each index is the
inverse of its pool. -/
structure Consistent (c : Context) : Prop where
  numbers : (c.numbers.toList.map Number.bits).Nodup
  texts : c.texts.toList.Nodup
  names : c.names.toList.Nodup
  numberIndex : Indexes Number.bits c.numberIndex c.numbers
  nameIndex : Indexes id c.nameIndex c.names

end Context

theorem Number.bits_injective : Function.Injective Number.bits := fun _ _ h => congrArg Number.mk h

/-- Extends code under construction and keeps its indexes. What was added before an error stays. -/
abbrev IndexedEmit := ExceptT CompileError (StateM Context)

namespace IndexedEmit

def instruction (op : Opcode) (arg : Nat) : IndexedEmit Unit := modify (·.emit op arg)

def openJump (op : Opcode) : IndexedEmit Nat := do
  let place := (← get).position
  instruction op 0
  return place

def closeJump (place : Nat) : IndexedEmit Unit := modify fun c => c.patch place c.position

def number (v : Number) : IndexedEmit Nat := modifyGet fun c => (c.addNumber v).swap
def text (s : String) : IndexedEmit Nat := modifyGet fun c => (c.addText s).swap
def function (g : Code) : IndexedEmit Nat := modifyGet fun c => (c.addFunction g).swap
def name (x : String) : IndexedEmit Nat := modifyGet fun c => (c.addName x).swap

/-- Whether a parameter was there before is looked up in the index. -/
def parameters (f : String) : List String → IndexedEmit Unit
  | [] => pure ()
  | p :: ps => do
    if (← get).nameIndex.contains p then throw (.duplicateParameter f p)
    let _ ← name p
    parameters f ps

def closed (c : Context) (f : String) (argCount : Nat) (body : IndexedEmit Unit) :
    Except CompileError Code :=
  match (do body; instruction .ret 0 : IndexedEmit Unit).run.run c with
  | (.ok (), c) => .ok (c.finish f argCount)
  | (.error e, _) => .error e

-- Clause by clause as `Expr.compile` and the functions beside it; every constant and variable goes
-- through the indexes, and a function inside has a context of its own.
mutual

def compileExpr : Expr → IndexedEmit Unit
  | .number v => do instruction .loadNumber (← number v)
  | .boolean v => instruction .loadBoolean v.toNat
  | .text s => do instruction .loadText (← text s)
  | .name x => do instruction .loadVar (← name x)
  | .binary op l r => do
    compileExpr l
    compileExpr r
    instruction (.binary op) 0
  | .call f args => do
    compileExpr f
    compileArgs args
    instruction .call args.length
  | .function f params body => do
    let code ← closed .new f params.length (do parameters f params; compileBlock body)
    let i ← function code
    let slot ← name f
    instruction .loadFunction i
    instruction .assign slot
    instruction .loadFunction i

def compileArgs : List Expr → IndexedEmit Unit
  | [] => pure ()
  | e :: es => do
    compileExpr e
    compileArgs es

def compileStmt : Stmt → IndexedEmit Unit
  | .expr e => do
    compileExpr e
    instruction .discard 0
  | .assign x e => do
    compileExpr e
    instruction .assign (← name x)
  | .branch test body => do
    compileExpr test
    let exit ← openJump .jumpIfFalse
    compileBlock body
    closeJump exit
  | .loop test body => do
    let start := (← get).position
    compileExpr test
    let exit ← openJump .jumpIfFalse
    compileBlock body
    instruction .jump start
    closeJump exit
  | .ret none => instruction .ret 0
  | .ret (some e) => do
    compileExpr e
    instruction .ret 1

def compileBlock : List Stmt → IndexedEmit Unit
  | [] => pure ()
  | s :: ss => do
    compileStmt s
    compileBlock ss

end

/-- The code of a function, by way of a context of its own. -/
def compileFunction (f : String) (params : List String) (body : List Stmt) :
    Except CompileError Code :=
  closed .new f params.length (do parameters f params; compileBlock body)

end IndexedEmit

namespace Context

theorem consistent_new : new.Consistent where
  numbers := by simp [new, Builder.empty]
  texts := by simp [new, Builder.empty]
  names := by simp [new, Builder.empty]
  numberIndex := .empty
  nameIndex := .empty

/-- What happened to the context is what happened to the code under construction, and the context is
still consistent. -/
structure Matches {α : Type} (r : α × Context) (r' : α × Builder) : Prop where
  result : r.1 = r'.1
  builder : r.2.toBuilder = r'.2
  consistent : r.2.Consistent

namespace Consistent

variable {c : Context}

theorem addNumber (h : c.Consistent) (v : Number) :
    Matches (c.addNumber v).swap (c.toBuilder.addNumber v).swap := by
  obtain ⟨hpool, hplace⟩ := h.numberIndex.internBy_eq Number.bits_injective v
  have hindex := h.numberIndex.intern v
  refine ⟨hplace, ?_, hindex.nodup, h.texts, h.names, hindex, h.nameIndex⟩
  exact congrArg (fun numbers => { c.toBuilder with numbers }) hpool

theorem addText (h : c.Consistent) (s : String) :
    Matches (c.addText s).swap (c.toBuilder.addText s).swap :=
  ⟨rfl, rfl, h.numbers, intern_nodup s h.texts, h.names, h.numberIndex, h.nameIndex⟩

theorem addFunction (h : c.Consistent) (g : Code) :
    Matches (c.addFunction g).swap (c.toBuilder.addFunction g).swap :=
  ⟨rfl, rfl, h.numbers, h.texts, h.names, h.numberIndex, h.nameIndex⟩

theorem addName (h : c.Consistent) (x : String) :
    Matches (c.addName x).swap (c.toBuilder.addName x).swap := by
  obtain ⟨hpool, hplace⟩ := h.nameIndex.internBy_eq Function.injective_id x
  have hindex := h.nameIndex.intern x
  refine ⟨hplace, ?_, h.numbers, h.texts, ?_, h.numberIndex, hindex⟩
  · exact congrArg (fun names => { c.toBuilder with names }) hpool
  · have hnodup := hindex.nodup
    rwa [List.map_id] at hnodup

theorem emit (h : c.Consistent) (op : Opcode) (arg : Nat) : (c.emit op arg).Consistent :=
  ⟨h.numbers, h.texts, h.names, h.numberIndex, h.nameIndex⟩

theorem patch (h : c.Consistent) (place target : Nat) : (c.patch place target).Consistent :=
  ⟨h.numbers, h.texts, h.names, h.numberIndex, h.nameIndex⟩

/-- A name has a slot in the index if it has one among the names. -/
theorem contains_nameIndex (h : c.Consistent) (x : String) :
    c.nameIndex.contains x = c.names.contains x := by
  have hx : c.nameIndex[x]? = c.names.idxOf? x := h.nameIndex.idxOf? Function.injective_id x
  rw [Std.HashMap.contains_eq_isSome_getElem?, hx]
  cases hi : c.names.idxOf? x with
  | none => simpa using hi
  | some i => simpa using Array.mem_of_getElem? (getElem?_of_idxOf? hi)

end Consistent
end Context

namespace IndexedEmit

variable {α β : Type}

/-- What the emission does to `c`. -/
def exec (x : IndexedEmit α) (c : Context) : Except CompileError α × Context := x.run.run c

theorem exec_bind (x : IndexedEmit α) (f : α → IndexedEmit β) (c : Context) :
    (x >>= f).exec c =
      match x.exec c with
      | (.ok a, c') => (f a).exec c'
      | (.error e, c') => (.error e, c') := by
  unfold exec
  rw [ExceptT.run_bind, StateT.run_bind]
  cases x.run.run c with
  | mk r c' => cases r <;> rfl

/-- On a consistent context the emission does what `x` does without indexes. -/
def Tracks (y : IndexedEmit α) (x : Emit α) : Prop :=
  ∀ c : Context, c.Consistent → Context.Matches (y.exec c) (x.exec c.toBuilder)

theorem Tracks.bind {y : IndexedEmit α} {x : Emit α} {g : α → IndexedEmit β} {f : α → Emit β}
    (h : Tracks y x) (hf : ∀ a, Tracks (g a) (f a)) : Tracks (y >>= g) (x >>= f) := by
  intro c hc
  obtain ⟨hresult, hbuilder, hcons⟩ := h c hc
  rw [exec_bind, Emit.exec_bind]
  cases hy : y.exec c with
  | mk r c₁ =>
    cases hx : x.exec c.toBuilder with
    | mk r' b₁ =>
      rw [hy, hx] at hresult hbuilder
      rw [hy] at hcons
      dsimp only at hresult hbuilder hcons
      subst hresult hbuilder
      cases r with
      | error e => exact ⟨rfl, rfl, hcons⟩
      | ok a => exact hf a c₁ hcons

theorem tracks_pure (a : α) : Tracks (pure a) (pure a) := fun _ hc => ⟨rfl, rfl, hc⟩

theorem tracks_throw (e : CompileError) : Tracks (throw e : IndexedEmit α) (throw e) :=
  fun _ hc => ⟨rfl, rfl, hc⟩

theorem tracks_lift (r : Except CompileError α) : Tracks (liftM r) (liftM r) :=
  fun _ hc => ⟨rfl, rfl, hc⟩

theorem tracks_instruction (op : Opcode) (arg : Nat) :
    Tracks (instruction op arg) (Emit.instruction op arg) :=
  fun _ hc => ⟨rfl, rfl, hc.emit op arg⟩

theorem tracks_openJump (op : Opcode) : Tracks (openJump op) (Emit.openJump op) :=
  fun _ hc => ⟨rfl, rfl, hc.emit op 0⟩

theorem tracks_closeJump (place : Nat) : Tracks (closeJump place) (Emit.closeJump place) :=
  fun c hc => ⟨rfl, rfl, hc.patch place c.position⟩

/-- What depends on the place that has been reached. -/
theorem tracks_position {y : Nat → IndexedEmit α} {x : Nat → Emit α} (h : ∀ n, Tracks (y n) (x n)) :
    Tracks (do let c ← get; y c.position) (do let b ← get; x b.position) := by
  intro c hc
  rw [exec_bind, Emit.exec_bind]
  exact h c.position c hc

theorem tracks_modifyGet {g : Context → α × Context} {f : Builder → α × Builder}
    (h : ∀ c, c.Consistent → Context.Matches (g c) (f c.toBuilder)) :
    Tracks (modifyGet g) (modifyGet f) :=
  fun c hc => ⟨congrArg Except.ok (h c hc).result, (h c hc).builder, (h c hc).consistent⟩

theorem tracks_number (v : Number) : Tracks (number v) (Emit.number v) :=
  tracks_modifyGet fun _ hc => hc.addNumber v

theorem tracks_text (s : String) : Tracks (text s) (Emit.text s) :=
  tracks_modifyGet fun _ hc => hc.addText s

theorem tracks_function (g : Code) : Tracks (function g) (Emit.function g) :=
  tracks_modifyGet fun _ hc => hc.addFunction g

theorem tracks_name (x : String) : Tracks (name x) (Emit.name x) :=
  tracks_modifyGet fun _ hc => hc.addName x

theorem tracks_parameters (f : String) (ps : List String) :
    Tracks (parameters f ps) (Emit.parameters f ps) := by
  induction ps with
  | nil => exact tracks_pure ()
  | cons p ps ih =>
    intro c hc
    simp only [parameters, Emit.parameters]
    rw [exec_bind, Emit.exec_bind]
    change Context.Matches (exec (if c.nameIndex.contains p then _ else _) c)
      (Emit.exec (if c.names.contains p then _ else _) c.toBuilder)
    rw [hc.contains_nameIndex]
    split
    · have hthrow := tracks_throw (.duplicateParameter f p) (α := PUnit)
      exact (hthrow.bind fun _ => (tracks_name p).bind fun _ => ih) c hc
    · exact ((tracks_name p).bind fun _ => ih) c hc

/-- On an empty context the same code is made, or the same error. -/
theorem Tracks.closed_eq {y : IndexedEmit Unit} {x : Emit Unit} (h : Tracks y x) (f : String)
    (n : Nat) : closed .new f n y = Emit.closed .empty f n x := by
  have hall := (h.bind fun _ => tracks_instruction .ret 0) .new Context.consistent_new
  unfold exec Emit.exec at hall
  unfold closed Emit.closed
  change Context.Matches _ ((x >>= fun _ => Emit.instruction .ret 0).run.run .empty) at hall
  generalize (y >>= fun _ => instruction .ret 0).run.run .new = made at hall ⊢
  generalize (x >>= fun _ => Emit.instruction .ret 0).run.run .empty = made' at hall ⊢
  obtain ⟨r, c⟩ := made
  obtain ⟨r', b⟩ := made'
  obtain ⟨rfl, rfl, -⟩ := hall
  cases r <;> rfl

mutual

theorem expr_tracks : (e : Expr) → Tracks (compileExpr e) e.compile
  | .number v => (tracks_number v).bind fun i => tracks_instruction .loadNumber i
  | .boolean v => tracks_instruction .loadBoolean v.toNat
  | .text s => (tracks_text s).bind fun i => tracks_instruction .loadText i
  | .name x => (tracks_name x).bind fun i => tracks_instruction .loadVar i
  | .binary op l r =>
    (expr_tracks l).bind fun _ => (expr_tracks r).bind fun _ => tracks_instruction (.binary op) 0
  | .call f args =>
    (expr_tracks f).bind fun _ => (args_track args).bind fun _ =>
      tracks_instruction .call args.length
  | .function f params body => by
    have hbody := (tracks_parameters f params).bind fun _ => block_tracks body
    have hcode := hbody.closed_eq f params.length
    simp only [compileExpr, Expr.compile, hcode]
    exact (tracks_lift _).bind fun g => (tracks_function g).bind fun i => (tracks_name f).bind
      fun slot => (tracks_instruction .loadFunction i).bind fun _ =>
        (tracks_instruction .assign slot).bind fun _ => tracks_instruction .loadFunction i

theorem args_track : (es : List Expr) → Tracks (compileArgs es) (Scriptlet.compileArgs es)
  | [] => tracks_pure ()
  | e :: es => (expr_tracks e).bind fun _ => args_track es

theorem stmt_tracks : (s : Stmt) → Tracks (compileStmt s) s.compile
  | .expr e => (expr_tracks e).bind fun _ => tracks_instruction .discard 0
  | .assign x e =>
    (expr_tracks e).bind fun _ => (tracks_name x).bind fun slot => tracks_instruction .assign slot
  | .branch test body =>
    (expr_tracks test).bind fun _ => (tracks_openJump .jumpIfFalse).bind fun exit =>
      (block_tracks body).bind fun _ => tracks_closeJump exit
  | .loop test body =>
    tracks_position fun start => (expr_tracks test).bind fun _ =>
      (tracks_openJump .jumpIfFalse).bind fun exit => (block_tracks body).bind fun _ =>
        (tracks_instruction .jump start).bind fun _ => tracks_closeJump exit
  | .ret none => tracks_instruction .ret 0
  | .ret (some e) => (expr_tracks e).bind fun _ => tracks_instruction .ret 1

theorem block_tracks : (ss : List Stmt) → Tracks (compileBlock ss) (Scriptlet.compileBlock ss)
  | [] => tracks_pure ()
  | s :: ss => (stmt_tracks s).bind fun _ => block_tracks ss

end

/-- With indexes, every function has the code that it has without them. -/
theorem compileFunction_eq (f : String) (params : List String) (body : List Stmt) :
    compileFunction f params body = Code.ofFunction f params body :=
  ((tracks_parameters f params).bind fun _ => block_tracks body).closed_eq f params.length

end IndexedEmit

end Scriptlet
