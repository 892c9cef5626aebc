import Scriptlet.Proofs.Json.RoundTrip
import Scriptlet.Syntax.Equality
import Scriptlet.Syntax.Json

/-! Trees read back from their JSON text. Everything but the number literals comes back as it was. -/
namespace Scriptlet

section Numbers
variable (f : Number → Option Number)

mutual

/-- The number literals of an expression. -/
def Expr.numbers : Expr → List Number
  | .number v => [v]
  | .boolean _ | .text _ | .name _ => []
  | .binary _ l r => l.numbers ++ r.numbers
  | .call g args => g.numbers ++ exprsNumbers args
  | .function _ _ body => stmtsNumbers body

def exprsNumbers : List Expr → List Number
  | [] => []
  | e :: es => e.numbers ++ exprsNumbers es

def Stmt.numbers : Stmt → List Number
  | .expr e | .assign _ e | .ret (some e) => e.numbers
  | .loop test body | .branch test body => test.numbers ++ stmtsNumbers body
  | .ret none => []

def stmtsNumbers : List Stmt → List Number
  | [] => []
  | s :: ss => s.numbers ++ stmtsNumbers ss

end

mutual

/-- The tree with every number literal replaced, if all of them can be. -/
def Expr.mapNumbers? : Expr → Option Expr
  | .number v => (f v).map .number
  | .boolean v => some (.boolean v)
  | .text v => some (.text v)
  | .name x => some (.name x)
  | .binary op l r => do return .binary op (← l.mapNumbers?) (← r.mapNumbers?)
  | .call g args => do return .call (← g.mapNumbers?) (← exprsMapNumbers? args)
  | .function g params body => do return .function g params (← stmtsMapNumbers? body)

def exprsMapNumbers? : List Expr → Option (List Expr)
  | [] => some []
  | e :: es => do return (← e.mapNumbers?) :: (← exprsMapNumbers? es)

def Stmt.mapNumbers? : Stmt → Option Stmt
  | .expr e => do return .expr (← e.mapNumbers?)
  | .assign x e => do return .assign x (← e.mapNumbers?)
  | .loop test body => do return .loop (← test.mapNumbers?) (← stmtsMapNumbers? body)
  | .branch test body => do return .branch (← test.mapNumbers?) (← stmtsMapNumbers? body)
  | .ret none => some (.ret none)
  | .ret (some e) => do return .ret (some (← e.mapNumbers?))

def stmtsMapNumbers? : List Stmt → Option (List Stmt)
  | [] => some []
  | s :: ss => do return (← s.mapNumbers?) :: (← stmtsMapNumbers? ss)

end

end Numbers

def Program.numbers (p : Program) : List Number := stmtsNumbers p.body

def Program.mapNumbers? (f : Number → Option Number) (p : Program) : Option Program :=
  (stmtsMapNumbers? f p.body).map Program.mk

section Numbers
variable {f : Number → Option Number}

mutual

theorem Expr.mapNumbers?_eq_self : (e : Expr) → (∀ x ∈ e.numbers, f x = some x) →
    e.mapNumbers? f = some e
  | .number v, h => by simp [Expr.mapNumbers?, h v (by simp [Expr.numbers])]
  | .boolean _, _ | .text _, _ | .name _, _ => rfl
  | .binary _ l r, h => by
    have hl := Expr.mapNumbers?_eq_self l fun x hx => h x (by simp [Expr.numbers, hx])
    have hr := Expr.mapNumbers?_eq_self r fun x hx => h x (by simp [Expr.numbers, hx])
    simp [Expr.mapNumbers?, hl, hr]
  | .call g args, h => by
    have hg := Expr.mapNumbers?_eq_self g fun x hx => h x (by simp [Expr.numbers, hx])
    have hargs := exprsMapNumbers?_eq_self args fun x hx => h x (by simp [Expr.numbers, hx])
    simp [Expr.mapNumbers?, hg, hargs]
  | .function _ _ body, h => by
    have hbody := stmtsMapNumbers?_eq_self body h
    simp [Expr.mapNumbers?, hbody]

theorem exprsMapNumbers?_eq_self : (es : List Expr) → (∀ x ∈ exprsNumbers es, f x = some x) →
    exprsMapNumbers? f es = some es
  | [], _ => rfl
  | e :: es, h => by
    have he := Expr.mapNumbers?_eq_self e fun x hx => h x (by simp [exprsNumbers, hx])
    have hes := exprsMapNumbers?_eq_self es fun x hx => h x (by simp [exprsNumbers, hx])
    simp [exprsMapNumbers?, he, hes]

theorem Stmt.mapNumbers?_eq_self : (s : Stmt) → (∀ x ∈ s.numbers, f x = some x) →
    s.mapNumbers? f = some s
  | .expr e, h | .assign _ e, h | .ret (some e), h => by
    have he := Expr.mapNumbers?_eq_self e h
    simp [Stmt.mapNumbers?, he]
  | .loop test body, h | .branch test body, h => by
    have htest := Expr.mapNumbers?_eq_self test fun x hx => h x (by simp [Stmt.numbers, hx])
    have hbody := stmtsMapNumbers?_eq_self body fun x hx => h x (by simp [Stmt.numbers, hx])
    simp [Stmt.mapNumbers?, htest, hbody]
  | .ret none, _ => rfl

theorem stmtsMapNumbers?_eq_self : (ss : List Stmt) → (∀ x ∈ stmtsNumbers ss, f x = some x) →
    stmtsMapNumbers? f ss = some ss
  | [], _ => rfl
  | s :: ss, h => by
    have hs := Stmt.mapNumbers?_eq_self s fun x hx => h x (by simp [stmtsNumbers, hx])
    have hss := stmtsMapNumbers?_eq_self ss fun x hx => h x (by simp [stmtsNumbers, hx])
    simp [stmtsMapNumbers?, hs, hss]

end

mutual

theorem Expr.mapNumbers?_eq_none {x : Number} (hx : f x = none) : (e : Expr) → x ∈ e.numbers →
    e.mapNumbers? f = none
  | .number v, h => by
    obtain rfl : x = v := by simpa [Expr.numbers] using h
    simp [Expr.mapNumbers?, hx]
  | .boolean _, h | .text _, h | .name _, h => nomatch h
  | .binary _ l r, h => by
    rcases List.mem_append.mp h with h | h
    · simp [Expr.mapNumbers?, Expr.mapNumbers?_eq_none hx l h]
    · simp [Expr.mapNumbers?, Expr.mapNumbers?_eq_none hx r h]
  | .call g args, h => by
    rcases List.mem_append.mp h with h | h
    · simp [Expr.mapNumbers?, Expr.mapNumbers?_eq_none hx g h]
    · simp [Expr.mapNumbers?, exprsMapNumbers?_eq_none hx args h]
  | .function _ _ body, h => by
    simp [Expr.mapNumbers?, stmtsMapNumbers?_eq_none hx body h]

theorem exprsMapNumbers?_eq_none {x : Number} (hx : f x = none) : (es : List Expr) →
    x ∈ exprsNumbers es → exprsMapNumbers? f es = none
  | [], h => nomatch h
  | e :: es, h => by
    rcases List.mem_append.mp h with h | h
    · simp [exprsMapNumbers?, Expr.mapNumbers?_eq_none hx e h]
    · simp [exprsMapNumbers?, exprsMapNumbers?_eq_none hx es h]

theorem Stmt.mapNumbers?_eq_none {x : Number} (hx : f x = none) : (s : Stmt) → x ∈ s.numbers →
    s.mapNumbers? f = none
  | .expr e, h | .assign _ e, h | .ret (some e), h => by
    simp [Stmt.mapNumbers?, Expr.mapNumbers?_eq_none hx e h]
  | .loop test body, h | .branch test body, h => by
    rcases List.mem_append.mp h with h | h
    · simp [Stmt.mapNumbers?, Expr.mapNumbers?_eq_none hx test h]
    · simp [Stmt.mapNumbers?, stmtsMapNumbers?_eq_none hx body h]
  | .ret none, h => nomatch h

theorem stmtsMapNumbers?_eq_none {x : Number} (hx : f x = none) : (ss : List Stmt) →
    x ∈ stmtsNumbers ss → stmtsMapNumbers? f ss = none
  | [], h => nomatch h
  | s :: ss, h => by
    rcases List.mem_append.mp h with h | h
    · simp [stmtsMapNumbers?, Stmt.mapNumbers?_eq_none hx s h]
    · simp [stmtsMapNumbers?, stmtsMapNumbers?_eq_none hx ss h]

end

end Numbers

/-- What the text of a number is read as. -/
def Number.reread (x : Number) : Option Number := (Json.parse? (x.toJson.pretty 0)).bind Number.ofJson?

theorem Number.depth_toJson (x : Number) : x.toJson.depth = 0 := by
  unfold toJson
  split <;> rfl

theorem Number.reread_eq (x : Number) : x.reread = x.toJson.reread.bind Number.ofJson? := by
  rw [Number.reread, Json.parse?_pretty (by simp [x.depth_toJson])]

theorem BinaryOp.ofName?_name (op : BinaryOp) : ofName? op.name = some op := by
  cases op <;> rfl

namespace Json

theorem reread_node (kind : String) (fields : List (String × Json)) :
    (node kind fields).reread = (rereadFields fields).map (node kind) := by
  simp only [node, reread, rereadFields]
  cases rereadFields fields <;> rfl

theorem rereadItems_strings (names : List String) :
    rereadItems (names.map .string) = some (names.map .string) := by
  induction names with
  | nil => rfl
  | cons x xs ih => simp [rereadItems, reread, ih]

theorem mapM_string? (names : List String) : (names.map Json.string).mapM string? = some names := by
  induction names with
  | nil => rfl
  | cons x xs ih => simp [string?, ih]

end Json

section Nodes
variable (n : Nat)

theorem Expr.ofJson?_number (v : Json) :
    Expr.ofJson? (n + 1) (.node "LitNum" [("v", v)]) = do return .number (← Number.ofJson? v) :=
  rfl

theorem Expr.ofJson?_binary (op : BinaryOp) (l r : Json) :
    Expr.ofJson? (n + 1) (.node "BinOp" [("op", .string op.name), ("left", l), ("right", r)]) =
      do return .binary op (← Expr.ofJson? n l) (← Expr.ofJson? n r) := by
  have hread : Expr.ofJson? (n + 1)
      (.node "BinOp" [("op", .string op.name), ("left", l), ("right", r)]) =
      do return .binary (← BinaryOp.ofName? op.name) (← Expr.ofJson? n l) (← Expr.ofJson? n r) := rfl
  rw [hread, op.ofName?_name]
  rfl

theorem Expr.ofJson?_call (f : Json) (args : List Json) :
    Expr.ofJson? (n + 1) (.node "Call" [("callee", f), ("args", .array args)]) =
      do return .call (← Expr.ofJson? n f) (← args.mapM (Expr.ofJson? n)) :=
  rfl

theorem Expr.ofJson?_function (f : String) (params : List String) (body : List Json) :
    Expr.ofJson? (n + 1) (.node "Function"
        [("name", .string f), ("params", .array (params.map .string)), ("body", .array body)]) =
      do return .function f params (← body.mapM (Stmt.ofJson? Stmt.kinds n)) := by
  have hread : Expr.ofJson? (n + 1) (.node "Function"
      [("name", .string f), ("params", .array (params.map .string)), ("body", .array body)]) =
      do
        let params ← (params.map Json.string).mapM Json.string?
        return .function f params (← body.mapM (Stmt.ofJson? Stmt.kinds n)) := rfl
  rw [hread, Json.mapM_string?]
  rfl

variable (kinds : List String)

theorem Stmt.ofJson?_expr (e : Json) :
    Stmt.ofJson? kinds (n + 1) (.node "Expr" [("expr", e)]) =
      do return .expr (← Expr.ofJson? n e) :=
  rfl

theorem Stmt.ofJson?_assign (x : String) (e : Json) :
    Stmt.ofJson? kinds (n + 1) (.node "Assign" [("name", .string x), ("expr", e)]) =
      do return .assign x (← Expr.ofJson? n e) :=
  rfl

theorem Stmt.ofJson?_loop (test : Json) (body : List Json) :
    Stmt.ofJson? kinds (n + 1) (.node "While" [("test", test), ("body", .array body)]) =
      do return .loop (← Expr.ofJson? n test) (← body.mapM (Stmt.ofJson? Stmt.kinds n)) :=
  rfl

theorem Stmt.ofJson?_branch (test : Json) (body : List Json) :
    Stmt.ofJson? kinds (n + 1) (.node "If" [("test", test), ("body", .array body)]) =
      do return .branch (← Expr.ofJson? n test) (← body.mapM (Stmt.ofJson? Stmt.kinds n)) :=
  rfl

theorem Stmt.ofJson?_ret (fields : List (String × Json)) :
    Stmt.ofJson? kinds (n + 1) (.node "Return" [("value", .object fields)]) =
      do return .ret (some (← Expr.ofJson? n (.object fields))) :=
  rfl

end Nodes

theorem Json.exists_pred_of_node {kind : String} {fields : List (String × Json)} {n : Nat}
    (h : (node kind fields).depth ≤ n) : ∃ k, n = k + 1 ∧ depthFields fields ≤ k := by
  simp only [node, depth, depthFields] at h
  exact ⟨n - 1, by omega, by omega⟩

theorem Expr.reread_eq_object (e : Expr) {j : Json} (h : e.toJson.reread = some j) :
    ∃ fields, j = .object fields := by
  obtain ⟨kind, fields, he⟩ : ∃ kind fields, e.toJson = .node kind fields := by
    cases e <;> exact ⟨_, _, rfl⟩
  rw [he, Json.reread_node] at h
  obtain ⟨fs, -, rfl⟩ := Option.map_eq_some_iff.mp h
  exact ⟨_, rfl⟩

mutual

/-- An expression is read back as it was, with its literals read again. -/
theorem Expr.reread_toJson : (e : Expr) → {n : Nat} → e.toJson.depth ≤ n →
    e.toJson.reread.bind (Expr.ofJson? n) = e.mapNumbers? Number.reread
  | .number v, n, h => by
    obtain ⟨n, rfl, -⟩ := Json.exists_pred_of_node h
    rw [Expr.toJson, Json.reread_node, Expr.mapNumbers?, v.reread_eq]
    simp only [Json.rereadFields]
    cases v.toJson.reread with
    | none => rfl
    | some j => cases hj : Number.ofJson? j <;> simp [Expr.ofJson?_number, hj]
  | .boolean _, n, h | .text _, n, h | .name _, n, h => by
    obtain ⟨n, rfl, -⟩ := Json.exists_pred_of_node h
    rfl
  | .binary op l r, n, h => by
    rw [Expr.toJson] at h ⊢
    obtain ⟨n, rfl, hn⟩ := Json.exists_pred_of_node h
    simp only [Json.depthFields] at hn
    have hl := Expr.reread_toJson l (show l.toJson.depth ≤ n by omega)
    have hr := Expr.reread_toJson r (show r.toJson.depth ≤ n by omega)
    rw [Json.reread_node, Expr.mapNumbers?, ← hl, ← hr]
    simp only [Json.rereadFields]
    cases l.toJson.reread with
    | none => rfl
    | some l' =>
      cases r.toJson.reread with
      | none => simp [Json.reread]
      | some r' => simp [Json.reread, Expr.ofJson?_binary]
  | .call g args, n, h => by
    rw [Expr.toJson] at h ⊢
    obtain ⟨n, rfl, hn⟩ := Json.exists_pred_of_node h
    simp only [Json.depthFields, Json.depth] at hn
    have hg := Expr.reread_toJson g (show g.toJson.depth ≤ n by omega)
    have hargs := rereadItems_exprs args (show Json.depthItems (exprsToJson args) ≤ n by omega)
    rw [Json.reread_node, Expr.mapNumbers?, ← hg, ← hargs]
    simp only [Json.rereadFields, Json.reread]
    cases g.toJson.reread with
    | none => rfl
    | some g' =>
      cases Json.rereadItems (exprsToJson args) with
      | none => simp
      | some js => simp [Expr.ofJson?_call]
  | .function g params body, n, h => by
    rw [Expr.toJson] at h ⊢
    obtain ⟨n, rfl, hn⟩ := Json.exists_pred_of_node h
    simp only [Json.depthFields, Json.depth] at hn
    have hbody := rereadItems_stmts Stmt.kinds body
      (show Json.depthItems (stmtsToJson body) ≤ n by omega)
    rw [Json.reread_node, Expr.mapNumbers?, ← hbody]
    simp only [Json.rereadFields, Json.reread, Json.rereadItems_strings]
    cases Json.rereadItems (stmtsToJson body) with
    | none => rfl
    | some js => simp [Expr.ofJson?_function]

theorem rereadItems_exprs : (es : List Expr) → {n : Nat} →
    Json.depthItems (exprsToJson es) ≤ n →
    (Json.rereadItems (exprsToJson es)).bind (List.mapM (Expr.ofJson? n)) =
      exprsMapNumbers? Number.reread es
  | [], _, _ => rfl
  | e :: es, n, h => by
    rw [exprsToJson, Json.depthItems] at h
    have he := Expr.reread_toJson e (show e.toJson.depth ≤ n by omega)
    have hes := rereadItems_exprs es (show Json.depthItems (exprsToJson es) ≤ n by omega)
    rw [exprsToJson, Json.rereadItems, exprsMapNumbers?, ← he, ← hes]
    cases e.toJson.reread with
    | none => rfl
    | some j =>
      cases Json.rereadItems (exprsToJson es) with
      | none => simp
      | some js => simp

theorem Stmt.reread_toJson (kinds : List String) : (s : Stmt) → {n : Nat} → s.toJson.depth ≤ n →
    s.toJson.reread.bind (Stmt.ofJson? kinds n) = s.mapNumbers? Number.reread
  | .expr e, n, h | .assign _ e, n, h => by
    rw [Stmt.toJson] at h ⊢
    obtain ⟨n, rfl, hn⟩ := Json.exists_pred_of_node h
    simp only [Json.depthFields] at hn
    have he := Expr.reread_toJson e (show e.toJson.depth ≤ n by omega)
    rw [Json.reread_node, Stmt.mapNumbers?, ← he]
    simp only [Json.rereadFields, Json.reread]
    cases e.toJson.reread with
    | none => rfl
    | some j => simp [Stmt.ofJson?_expr, Stmt.ofJson?_assign]
  | .loop test body, n, h | .branch test body, n, h => by
    rw [Stmt.toJson] at h ⊢
    obtain ⟨n, rfl, hn⟩ := Json.exists_pred_of_node h
    simp only [Json.depthFields, Json.depth] at hn
    have htest := Expr.reread_toJson test (show test.toJson.depth ≤ n by omega)
    have hbody := rereadItems_stmts Stmt.kinds body
      (show Json.depthItems (stmtsToJson body) ≤ n by omega)
    rw [Json.reread_node, Stmt.mapNumbers?, ← htest, ← hbody]
    simp only [Json.rereadFields, Json.reread]
    cases test.toJson.reread with
    | none => rfl
    | some j =>
      cases Json.rereadItems (stmtsToJson body) with
      | none => simp
      | some js => simp [Stmt.ofJson?_loop, Stmt.ofJson?_branch]
  | .ret none, n, h => by
    obtain ⟨n, rfl, -⟩ := Json.exists_pred_of_node h
    rfl
  | .ret (some e), n, h => by
    rw [Stmt.toJson] at h ⊢
    obtain ⟨n, rfl, hn⟩ := Json.exists_pred_of_node h
    simp only [Json.depthFields] at hn
    have he := Expr.reread_toJson e (show e.toJson.depth ≤ n by omega)
    rw [Json.reread_node, Stmt.mapNumbers?, ← he]
    simp only [Json.rereadFields]
    cases hj : e.toJson.reread with
    | none => rfl
    | some j =>
      -- an expression is written as an object, so it is not taken for a missing value
      obtain ⟨fields, rfl⟩ := e.reread_eq_object hj
      simp [Stmt.ofJson?_ret]

theorem rereadItems_stmts (kinds : List String) : (ss : List Stmt) → {n : Nat} →
    Json.depthItems (stmtsToJson ss) ≤ n →
    (Json.rereadItems (stmtsToJson ss)).bind (List.mapM (Stmt.ofJson? kinds n)) =
      stmtsMapNumbers? Number.reread ss
  | [], _, _ => rfl
  | s :: ss, n, h => by
    rw [stmtsToJson, Json.depthItems] at h
    have hs := Stmt.reread_toJson kinds s (show s.toJson.depth ≤ n by omega)
    have hss := rereadItems_stmts kinds ss (show Json.depthItems (stmtsToJson ss) ≤ n by omega)
    rw [stmtsToJson, Json.rereadItems, stmtsMapNumbers?, ← hs, ← hss]
    cases s.toJson.reread with
    | none => rfl
    | some j =>
      cases Json.rereadItems (stmtsToJson ss) with
      | none => simp
      | some js => simp

end

namespace Json

theorem depth_of_scalar {limit : Nat} {cs rest : List Char} {j : Json}
    (h : scalar limit cs = some (j, rest)) : j.depth = 0 := by
  unfold scalar at h
  split at h
  · cases h; rfl
  · cases h; rfl
  · cases h; rfl
  all_goals
    obtain ⟨r, -, hr⟩ := Option.map_eq_some_iff.mp h
    cases hr
    rfl

mutual

theorem depth_reread : (j : Json) → {j' : Json} → j.reread = some j' → j'.depth = j.depth
  | .null, _, h | .boolean _, _, h | .string _, _, h => by
    cases h
    rfl
  | .number d, _, h => by
    obtain ⟨⟨j', rest⟩, hscalar, rfl⟩ := Option.map_eq_some_iff.mp h
    exact depth_of_scalar hscalar
  | .array js, _, h => by
    obtain ⟨js', hjs, rfl⟩ := Option.map_eq_some_iff.mp h
    simp only [depth, depth_rereadItems js hjs]
  | .object fs, _, h => by
    obtain ⟨fs', hfs, rfl⟩ := Option.map_eq_some_iff.mp h
    simp only [depth, depth_rereadFields fs hfs]

theorem depth_rereadItems : (js : List Json) → {js' : List Json} → rereadItems js = some js' →
    depthItems js' = depthItems js
  | [], _, h => by
    cases h
    rfl
  | j :: js, _, h => by
    obtain ⟨j', hj, h⟩ := Option.bind_eq_some_iff.mp h
    obtain ⟨js', hjs, h⟩ := Option.bind_eq_some_iff.mp h
    cases h
    simp only [depthItems, depth_reread j hj, depth_rereadItems js hjs]

theorem depth_rereadFields : (fs : List (String × Json)) → {fs' : List (String × Json)} →
    rereadFields fs = some fs' → depthFields fs' = depthFields fs
  | [], _, h => by
    cases h
    rfl
  | (k, j) :: fs, _, h => by
    obtain ⟨j', hj, h⟩ := Option.bind_eq_some_iff.mp h
    obtain ⟨fs', hfs, h⟩ := Option.bind_eq_some_iff.mp h
    cases h
    simp only [depthFields, depth_reread j hj, depth_rereadFields fs hfs]

end

end Json

namespace Program

/-- The text of a script is read back as the script with its literals read again. -/
theorem ofText?_toText_eq (p : Program) (h : p.toJson.depth ≤ Json.maxDepth) :
    ofText? p.toText = p.mapNumbers? Number.reread := by
  have hitems (n : Nat) (hn : p.toJson.depth ≤ n) :
      (Json.rereadItems (stmtsToJson p.body)).bind (List.mapM (Stmt.ofJson? [] n)) =
        stmtsMapNumbers? Number.reread p.body := by
    apply rereadItems_stmts
    simp only [toJson, Json.depth, Json.depthFields] at hn
    omega
  have htext : Json.parse? p.toText = p.toJson.reread := Json.parse?_pretty h
  rw [ofText?, htext, mapNumbers?]
  cases hjs : Json.rereadItems (stmtsToJson p.body) with
  | none =>
    have hnone := hitems _ (Nat.le_refl _)
    rw [hjs] at hnone
    simp [toJson, Json.reread, Json.rereadFields, hjs, ← hnone]
  | some js =>
    have hjson : p.toJson.reread = some (.object [("body", .array js)]) := by
      simp [toJson, Json.reread, Json.rereadFields, hjs]
    have hdepth := Json.depth_reread _ hjson
    have hbody := hitems _ (Nat.le_of_eq hdepth.symm)
    rw [hjs] at hbody
    rw [hjson, ← hbody]
    simp [ofJson?, Json.get?, Json.array?, Option.map_eq_bind]

end Program

namespace Number

theorem exponentField_of_finite {x : Number} (h : x.isFinite = true) : x.magnitude >>> 52 ≠ 0x7ff := by
  simp only [isFinite, infinityBits, decide_eq_true_eq, Nat.shiftLeft_eq, Nat.shiftRight_eq_div_pow] at h ⊢
  omega

theorem exponentField_of_not_finite {x : Number} (h : x.isFinite = false) :
    x.magnitude >>> 52 = 0x7ff := by
  have hlt : x.magnitude < 1 <<< 63 := Nat.mod_lt _ (by decide)
  simp only [isFinite, infinityBits, decide_eq_false_iff_not, Nat.shiftLeft_eq,
    Nat.shiftRight_eq_div_pow] at h hlt ⊢
  omega

theorem unpack_of_finite {x : Number} (h : x.isFinite = true) :
    ∃ s m e, x.unpack = .finite s m e := by
  unfold unpack
  dsimp only
  rw [if_neg (exponentField_of_finite h)]
  split <;> exact ⟨_, _, _, rfl⟩

theorem unpack_of_not_finite {x : Number} (h : x.isFinite = false) :
    x.unpack = .nan ∨ ∃ s, x.unpack = .infinite s := by
  unfold unpack
  dsimp only
  rw [if_pos (exponentField_of_not_finite h)]
  split
  · exact .inr ⟨_, rfl⟩
  · exact .inl rfl

/-- A finite number equals itself. -/
theorem eq_self_of_finite {x : Number} (h : x.isFinite = true) : x.eq x = true := by
  obtain ⟨s, m, e, hx⟩ := unpack_of_finite h
  simp [eq, compare?, hx, align]

/-- A number that is not finite has no JSON form that is read as a number. -/
theorem reread_of_not_finite {x : Number} (h : x.isFinite = false) : x.reread = none := by
  have hshortest : x.shortest? Json.numberLayout.tie = none := by
    rcases unpack_of_not_finite h with hx | ⟨s, hx⟩ <;> rw [shortest?, hx]
  have hjson : x.toJson = .null := by rw [toJson, hshortest]
  rw [reread_eq, hjson]
  rfl

end Number

mutual

theorem Expr.agrees_self : (e : Expr) → (∀ x ∈ e.numbers, x.isFinite = true) → e.agrees e = true
  | .number v, h => by
    rw [Expr.agrees]
    exact Number.eq_self_of_finite (h v (by simp [Expr.numbers]))
  | .boolean _, _ | .text _, _ | .name _, _ => by simp [Expr.agrees]
  | .binary _ l r, h => by
    have hl := Expr.agrees_self l fun x hx => h x (by simp [Expr.numbers, hx])
    have hr := Expr.agrees_self r fun x hx => h x (by simp [Expr.numbers, hx])
    simp [Expr.agrees, hl, hr]
  | .call g args, h => by
    have hg := Expr.agrees_self g fun x hx => h x (by simp [Expr.numbers, hx])
    have hargs := exprsAgree_self args fun x hx => h x (by simp [Expr.numbers, hx])
    simp [Expr.agrees, hg, hargs]
  | .function _ _ body, h => by
    have hbody := stmtsAgree_self body h
    simp [Expr.agrees, hbody]

theorem exprsAgree_self : (es : List Expr) → (∀ x ∈ exprsNumbers es, x.isFinite = true) →
    exprsAgree es es = true
  | [], _ => by rw [exprsAgree]
  | e :: es, h => by
    have he := Expr.agrees_self e fun x hx => h x (by simp [exprsNumbers, hx])
    have hes := exprsAgree_self es fun x hx => h x (by simp [exprsNumbers, hx])
    simp [exprsAgree, he, hes]

theorem Stmt.agrees_self : (s : Stmt) → (∀ x ∈ s.numbers, x.isFinite = true) → s.agrees s = true
  | .expr e, h | .assign _ e, h | .ret (some e), h => by
    have he := Expr.agrees_self e h
    simp [Stmt.agrees, he]
  | .loop test body, h | .branch test body, h => by
    have htest := Expr.agrees_self test fun x hx => h x (by simp [Stmt.numbers, hx])
    have hbody := stmtsAgree_self body fun x hx => h x (by simp [Stmt.numbers, hx])
    simp [Stmt.agrees, htest, hbody]
  | .ret none, _ => by rw [Stmt.agrees]

theorem stmtsAgree_self : (ss : List Stmt) → (∀ x ∈ stmtsNumbers ss, x.isFinite = true) →
    stmtsAgree ss ss = true
  | [], _ => by rw [stmtsAgree]
  | s :: ss, h => by
    have hs := Stmt.agrees_self s fun x hx => h x (by simp [stmtsNumbers, hx])
    have hss := stmtsAgree_self ss fun x hx => h x (by simp [stmtsNumbers, hx])
    simp [stmtsAgree, hs, hss]

end

namespace Program

/-- The written form of a script loses nothing: if the literals are finite, and each is read back
from its own text, the script comes back. If some literal is not finite, the text is refused. -/
theorem text_is_lossless (p : Program) (hdepth : p.toJson.depth ≤ Json.maxDepth) :
    ((∀ x ∈ p.numbers, x.isFinite = true) →
      (∀ x ∈ p.numbers, x.reread = some x) →
      ofText? p.toText = some p ∧ p.agrees p = true) ∧
    ((∃ x ∈ p.numbers, x.isFinite = false) → ofText? p.toText = none) := by
  rw [p.ofText?_toText_eq hdepth]
  constructor
  · intro hfinite hreread
    have hbody := stmtsMapNumbers?_eq_self p.body hreread
    constructor
    · rw [mapNumbers?, hbody]
      rfl
    · exact stmtsAgree_self p.body hfinite
  · intro ⟨x, hx, hinfinite⟩
    have hnone := stmtsMapNumbers?_eq_none (Number.reread_of_not_finite hinfinite) p.body hx
    rw [mapNumbers?, hnone]
    rfl

/-- Texts with a quote, a backslash, controls and characters beyond ASCII, and returns with and
without a value. -/
def escapes (limit : Number) : Program :=
  ⟨[.assign "s" (.text "\"\\\n\x00\x1f é😀"),
    .expr (.function "f" ["a", "ß"]
      [.branch (.binary .lt (.name "a") (.number limit)) [.ret (some (.name "s"))], .ret none]),
    .loop (.boolean false) [.expr (.call (.name "f") [.number ⟨0x3fb999999999999a⟩, .text ""])]]⟩

theorem text_is_lossless_escapes :
    let p := escapes ⟨0xbff8000000000000⟩
    let q := escapes (.infinity false)
    p.toJson.depth ≤ Json.maxDepth ∧ (∀ x ∈ p.numbers, x.isFinite = true ∧ x.reread = some x) ∧
      ofText? p.toText = some p ∧ p.agrees p = true ∧
    q.toJson.depth ≤ Json.maxDepth ∧ (∃ x ∈ q.numbers, x.isFinite = false) ∧
      ofText? q.toText = none := by
  intro p q
  have hp : p.toJson.depth ≤ Json.maxDepth := by decide +kernel
  have hq : q.toJson.depth ≤ Json.maxDepth := by decide +kernel
  have hnumbers : ∀ x ∈ p.numbers, x.isFinite = true ∧ x.reread = some x := by decide +kernel
  have hinfinite : ∃ x ∈ q.numbers, x.isFinite = false := by decide +kernel
  obtain ⟨hread, hagrees⟩ := (text_is_lossless p hp).1 (fun x hx => (hnumbers x hx).1)
    fun x hx => (hnumbers x hx).2
  exact ⟨hp, hnumbers, hread, hagrees, hq, hinfinite, (text_is_lossless q hq).2 hinfinite⟩

end Program

end Scriptlet
