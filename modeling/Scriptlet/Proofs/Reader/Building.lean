import Scriptlet.Proofs.Reader.Derivations
import Scriptlet.Proofs.Reader.Literals
import Scriptlet.Proofs.Reader.Passages

/-! A tree is built from every derivation, and it is the one that is read in one step. -/
namespace Scriptlet

namespace Reader

variable {α β γ δ : Type} {p p' : Reader α} {q q' : Reader β} {R : α → β → Prop} {S : γ → δ → Prop}

/-- Both readers pass over the same text and try the same rules, and what they find is related. -/
def Mirrors (p : Reader α) (q : Reader β) (R : α → β → Prop) : Prop :=
  ∀ c a, (∃ x y c' a', p c a = (some (x, c'), a') ∧ q c a = (some (y, c'), a') ∧ R x y) ∨
    ∃ a', p c a = (none, a') ∧ q c a = (none, a')

theorem mirrors_fail : Mirrors (fail : Reader α) (fail : Reader β) R :=
  fun _ a => .inr ⟨a, rfl, rfl⟩

theorem mirrors_pure {x : α} {y : β} (h : R x y) : Mirrors (pure x) (pure y) R :=
  fun c a => .inl ⟨x, y, c, a, rfl, rfl, h⟩

theorem Mirrors.bind (hp : Mirrors p q R) {f : α → Reader γ} {g : β → Reader δ}
    (hf : ∀ x y, R x y → Mirrors (f x) (g y) S) : Mirrors (p >>= f) (q >>= g) S := by
  intro c a
  rcases hp c a with ⟨x, y, c', a', hx, hy, hR⟩ | ⟨a', hx, hy⟩
  · simp only [Bind.bind, hx, hy]
    exact hf x y hR c' a'
  · exact .inr ⟨a', by simp only [Bind.bind, hx], by simp only [Bind.bind, hy]⟩

/-- What both readers do in the same way. -/
theorem Mirrors.after (p : Reader α) {f : α → Reader γ} {g : α → Reader δ}
    (hf : ∀ x, Mirrors (f x) (g x) S) : Mirrors (p >>= f) (p >>= g) S := by
  have hp : Mirrors p p Eq := by
    intro c a
    match p c a with
    | (some (x, c'), a') => exact .inl ⟨x, x, c', a', rfl, rfl, rfl⟩
    | (none, a') => exact .inr ⟨a', rfl, rfl⟩
  refine hp.bind ?_
  rintro x _ rfl
  exact hf x

theorem Mirrors.imp {R' : α → β → Prop} (hp : Mirrors p q R) (h : ∀ x y, R x y → R' x y) :
    Mirrors p q R' := by
  intro c a
  rcases hp c a with ⟨x, y, c', a', hx, hy, hR⟩ | hnone
  · exact .inl ⟨x, y, c', a', hx, hy, h x y hR⟩
  · exact .inr hnone

theorem Mirrors.mapLeft (hp : Mirrors p q R) {f : α → γ} {T : γ → β → Prop}
    (h : ∀ x y, R x y → T (f x) y) : Mirrors (p >>= fun x => pure (f x)) q T := by
  intro c a
  rcases hp c a with ⟨x, y, c', a', hx, hy, hR⟩ | ⟨a', hx, hy⟩
  · refine .inl ⟨f x, y, c', a', ?_, hy, h x y hR⟩
    simp only [Bind.bind, hx]
    rfl
  · exact .inr ⟨a', by simp only [Bind.bind, hx], hy⟩

theorem Mirrors.orElse (hp : Mirrors p q R) (hp' : Mirrors p' q' R) :
    Mirrors (p <|> p') (q <|> q') R := by
  intro c a
  simp only [HOrElse.hOrElse, OrElse.orElse, Reader.orElse]
  rcases hp c a with ⟨x, y, c', a', hx, hy, hR⟩ | ⟨a', hx, hy⟩
  · rw [hx, hy]
    exact .inl ⟨x, y, c', a', rfl, rfl, hR⟩
  · rw [hx, hy]
    exact hp' c a'

theorem Mirrors.named (hp : Mirrors p q R) (r : Rule) : Mirrors (named r p) (named r q) R := by
  intro c a
  simp only [Reader.named]
  rcases hp c a with ⟨x, y, c', a', hx, hy, hR⟩ | ⟨a', hx, hy⟩
  · rw [hx, hy]
    exact .inl ⟨x, y, c', a', rfl, rfl, hR⟩
  · rw [hx, hy]
    exact .inr ⟨_, rfl, rfl⟩

theorem Mirrors.maybe (hp : Mirrors p q R) : Mirrors (maybe p) (maybe q) (Option.Rel R) :=
  (hp.bind fun _ _ hR => mirrors_pure (.some hR)).orElse (mirrors_pure .none)

theorem Mirrors.repeated (hp : Mirrors p q R) (limit : Nat) :
    Mirrors (repeated p limit) (repeated q limit) (List.Forall₂ R) := by
  induction limit with
  | zero => exact mirrors_pure .nil
  | succ limit ih =>
    refine Mirrors.orElse (hp.bind fun x y hR => ?_) (mirrors_pure .nil)
    exact ih.bind fun xs ys hRs => mirrors_pure (.cons hR hRs)

theorem Mirrors.spaced (hp : Mirrors p q R) (limit : Nat) :
    Mirrors (spaced limit p) (spaced limit q) (List.Forall₂ R) := by
  have hlater : Mirrors (layout >>= fun _ => p) (layout >>= fun _ => q) R := .after _ fun _ => hp
  refine Mirrors.orElse (hp.bind fun x y hR => ?_) (mirrors_pure .nil)
  exact (hlater.repeated limit).bind fun xs ys hRs => mirrors_pure (.cons hR hRs)

end Reader

namespace Meaning

variable {e : Expr} {ms : List Meaning} {s : String}

theorem ofSymbol?_symbol (op : BinaryOp) : BinaryOp.ofSymbol? op.symbol = some op := by
  cases op <;> decide

/-- An operator and its right operand. -/
def IsTerm (term : BinaryOp × Expr) (ms : List Meaning) : Prop :=
  ∃ o m, ms = [o, m] ∧ o.text = term.1.symbol ∧ m.expression = .ok term.2

theorem chainFrom_eq {terms : List (BinaryOp × Expr)} {mss : List (List Meaning)}
    (h : List.Forall₂ IsTerm terms mss) (left : Expr) :
    chainFrom left mss.flatten = .ok (terms.foldl (fun e (o, e') => .binary o e e') left) := by
  induction h generalizing left with
  | nil => rfl
  | @cons term ms terms mss hterm _ ih =>
    obtain ⟨o, m, rfl, ho, hm⟩ := hterm
    simp only [List.flatten_cons, List.cons_append, List.nil_append, chainFrom, ho,
      ofSymbol?_symbol, hm]
    exact ih _

theorem chainOf_eq {m : Meaning} {terms : List (BinaryOp × Expr)} {mss : List (List Meaning)}
    (hm : m.expression = .ok e) (h : List.Forall₂ IsTerm terms mss) :
    chainOf (m :: mss.flatten) = .ok (terms.foldl (fun e (o, e') => .binary o e e') e) := by
  simp only [chainOf, next, pure_bind, hm, List.tail_cons]
  exact chainFrom_eq h e

/-- The meanings are one, of the given kind. -/
def Single (P : Meaning → Prop) (ms : List Meaning) : Prop := ∃ m, ms = [m] ∧ P m

theorem Single.imp {P Q : Meaning → Prop} (h : Single P ms) (hPQ : ∀ m, P m → Q m) : Single Q ms := by
  obtain ⟨m, rfl, hm⟩ := h
  exact ⟨m, rfl, hPQ m hm⟩

def Expresses (e : Expr) (ms : List Meaning) : Prop := Single (·.expression = .ok e) ms

def States (s : Stmt) (ms : List Meaning) : Prop := Single (·.statement = .ok s) ms

theorem foldlM_call {calls : List (List Expr)} {mss : List (List Meaning)}
    (h : List.Forall₂ (fun args => Single (·.expressions = .ok args)) calls mss) (f : Expr) :
    mss.flatten.foldlM (fun f m => do pure (Expr.call f (← m.expressions))) f =
      (.ok (calls.foldl .call f) : Except BuildError Expr) := by
  induction h generalizing f with
  | nil => rfl
  | @cons args ms calls mss hargs _ ih =>
    obtain ⟨m, rfl, hm⟩ := hargs
    simp only [List.flatten_cons, List.cons_append, List.nil_append, List.foldlM_cons, hm]
    exact ih _

theorem functionOf_eq {k f b : Meaning} {params : List String} {body : List Stmt}
    (hk : k.rule = .kwFunction) (hf : f.rule = .identifier)
    (hms : ms = [] ∧ params = [] ∨ Single (fun m => m.rule = .paramList ∧ m.names = params) ms)
    (hb : b.rule = .block ∧ b.statements = .ok body) :
    functionOf (k :: f :: (ms ++ [b])) = .ok (.function f.text params body) := by
  obtain ⟨hblock, hbody⟩ := hb
  rcases hms with ⟨rfl, rfl⟩ | ⟨m, rfl, hrule, rfl⟩
  · simp [functionOf, isKeyword, hk, hf, hblock, next, signature, hbody]
  · simp [functionOf, isKeyword, hk, hf, hrule, hblock, next, signature, hbody]

theorem guardedOf_eq {k m b : Meaning} {test : Expr} {body : List Stmt}
    (hk : k.rule = .kwWhile ∨ k.rule = .kwIf) (hm : m.rule = .expr ∧ m.expression = .ok test)
    (hb : b.rule = .block ∧ b.statements = .ok body) : guardedOf [k, m, b] = .ok (test, body) := by
  obtain ⟨hrule, htest⟩ := hm
  obtain ⟨hblock, hbody⟩ := hb
  rcases hk with hk | hk <;>
    simp [guardedOf, isKeyword, hk, hrule, hblock, next, htest, hbody] <;> rfl

theorem mapM_flatten {α : Type} {look : Meaning → Except BuildError α} {xs : List α}
    {mss : List (List Meaning)} (h : List.Forall₂ (fun x => Single (look · = .ok x)) xs mss) :
    mss.flatten.mapM look = .ok xs := by
  induction h with
  | nil => rfl
  | @cons x ms xs mss hx _ ih =>
    obtain ⟨m, rfl, hm⟩ := hx
    simp only [List.flatten_cons, List.cons_append, List.nil_append, List.mapM_cons, hm, ih]
    rfl

/-- Statements are found among the parts by their rule. -/
theorem filter_statements {ss : List Stmt} {mss : List (List Meaning)}
    (h : List.Forall₂ (fun s => Single fun m => m.rule = .statement ∧ m.statement = .ok s) ss mss) :
    mss.flatten.filter (·.rule = .statement) = mss.flatten := by
  induction h with
  | nil => rfl
  | @cons s ms ss mss hs _ ih =>
    obtain ⟨m, rfl, hm, -⟩ := hs
    simp [hm, ih]

end Meaning

namespace Derivation

open Reader Meaning

variable {α : Type} {limit : Nat} {inner : Grammar.Nested} {inner' : Nested}

/-- The meanings of derivations that stand side by side. -/
def meanings (ds : List Derivation) : List Meaning := ds.map (·.meaning)

theorem meaning_node (r : Rule) (s : String) (parts : List Derivation) :
    (node r s parts).meaning = .ofParts r s (meanings parts) := by
  rw [meaning]
  rfl

theorem meanings_append (ds es : List Derivation) :
    meanings (ds ++ es) = meanings ds ++ meanings es :=
  List.map_append

theorem meanings_flatten (dss : List (List Derivation)) :
    meanings dss.flatten = (dss.map meanings).flatten :=
  List.map_flatten

/-- The derivations stand for something that `R` relates to what is read in one step. -/
def Shows (R : α → List Meaning → Prop) (x : α) (ds : List Derivation) : Prop := R x (meanings ds)

theorem forall₂_meanings {R : α → List Meaning → Prop} {xs : List α} {dss : List (List Derivation)}
    (h : List.Forall₂ (Shows R) xs dss) : List.Forall₂ R xs (dss.map meanings) :=
  List.forall₂_map_right_iff.mpr h

theorem mirrors_derived {p : Reader α} {q : Reader (List Derivation)} {R S : α → List Meaning → Prop}
    (hp : Mirrors p q (Shows R)) (r : Rule)
    (h : ∀ x ms s, R x ms → S x [.ofParts r s ms]) : Mirrors (named r p) (derived r q) (Shows S) := by
  refine Mirrors.named ?_ r
  intro c a
  rcases hp c a with ⟨x, parts, c', a', hx, hy, hR⟩ | ⟨a', hx, hy⟩
  · refine .inl ⟨x, [.node r (c.textTo c') parts], c', a', hx, ?_, ?_⟩
    · simp only [Bind.bind, here, hy]
      rfl
    · simp only [Shows, meanings, List.map_cons, List.map_nil, meaning_node]
      exact h x _ _ hR
  · exact .inr ⟨a', hx, by simp only [Bind.bind, here, hy]⟩

/-- A token is found by its text. -/
theorem mirrors_leaf (p : Reader α) (r : Rule) {S : α → List Meaning → Prop}
    (h : ∀ x c c' a a', p c a = (some (x, c'), a') → S x [.ofParts r (c.textTo c') []]) :
    Mirrors (named r p) (leaf r p) (Shows S) := by
  refine Mirrors.named ?_ r
  intro c a
  match hp : p c a with
  | (some (x, c'), a') =>
    refine .inl ⟨x, [.node r (c.textTo c') []], c', a', rfl, ?_, ?_⟩
    · simp only [Bind.bind, here, hp]
      rfl
    · simp only [Shows, meanings, List.map_cons, List.map_nil, meaning_node]
      exact h x c c' a a' hp
  | (none, a') => exact .inr ⟨a', rfl, by simp only [Bind.bind, here, hp]⟩

theorem token_eq_some {scan : List Char → Option (α × Nat)} {c c' : Cursor} {a a' : Attempts} {x : α}
    (h : token scan c a = (some (x, c'), a')) :
    ∃ n, scan c.rest = some (x, n) ∧ c.textTo c' = String.ofList (c.rest.take n) := by
  simp only [token] at h
  split at h
  · next y n hscan =>
    cases h
    exact ⟨n, hscan, by simp [Cursor.textTo, Cursor.advance]⟩
  · cases h

theorem mirrors_boolean : Mirrors (named .boolean (token Token.boolean))
    (leaf .boolean (token Token.boolean))
    (Shows fun b => Single (·.expression = .ok (.boolean b))) := by
  refine mirrors_leaf _ _ fun b c c' a a' h => ⟨_, rfl, ?_⟩
  obtain ⟨n, hscan, htext⟩ := token_eq_some h
  have hword := Token.boolean_eq_some hscan
  obtain ⟨hcs, -⟩ := Token.word_eq_some (by cases b <;> rfl) hword
  rw [Token.take_eq hcs, String.ofList_toList] at htext
  simp only [ofParts, expressionOf, htext]
  cases b <;> rfl

theorem mirrors_number : Mirrors (named .number (token Token.number))
    (leaf .number (token Token.number)) (Shows fun v => Single (·.expression = .ok (.number v))) := by
  refine mirrors_leaf _ _ fun v c c' a a' h => ⟨_, rfl, ?_⟩
  obtain ⟨n, hscan, htext⟩ := token_eq_some h
  obtain ⟨l, rfl, hcs⟩ := Token.number_eq_some hscan
  rw [Token.take_eq hcs] at htext
  simp only [ofParts, expressionOf, numberOf, htext, l.ofText?_chars]
  rfl

theorem mirrors_quoted : Mirrors (named .string (token Token.text)) quoted
    (Shows fun s => Single (·.expression = .ok (.text s))) := by
  have hcontent : Mirrors (token Token.text)
      (do let s ← token Token.text; pure [.node .stringContent s []])
      (Shows fun s => Single (·.text = s)) := by
    intro c a
    match hp : token Token.text c a with
    | (some (s, c'), a') =>
      refine .inl ⟨s, [.node .stringContent s []], c', a', rfl, ?_, ?_⟩
      · simp only [Bind.bind, hp]
        rfl
      · simp only [Shows, meanings, List.map_cons, List.map_nil, meaning_node]
        exact ⟨_, rfl, rfl⟩
    | (none, a') => exact .inr ⟨a', rfl, by simp only [Bind.bind, hp]⟩
  refine mirrors_derived hcontent .string ?_
  rintro s _ t ⟨m, rfl, rfl⟩
  exact ⟨_, rfl, rfl⟩

theorem operator_eq_some {ops : List BinaryOp} {op : BinaryOp} {c c' : Cursor} {a a' : Attempts}
    (h : Grammar.operator ops c a = (some (op, c'), a')) : c.textTo c' = op.symbol := by
  induction ops generalizing a with
  | nil => cases h
  | cons op' ops ih =>
    rcases orElse_eq_some h with h | ⟨a₁, -, h⟩
    · obtain ⟨⟨⟩, c₁, a₁, hsymbol, h⟩ := bind_eq_some h
      cases h
      obtain ⟨n, hscan, htext⟩ := token_eq_some hsymbol
      split at hscan
      · next hprefix =>
        obtain ⟨-, rfl⟩ := Prod.mk.inj (Option.some.inj hscan)
        obtain ⟨tail, htail⟩ := List.isPrefixOf_iff_prefix.mp hprefix
        rw [htext, ← htail, ← String.length_toList, List.take_left, String.ofList_toList]
      · cases hscan
    · exact ih h

theorem mirrors_name : Mirrors Grammar.name name
    (Shows fun x => Single fun m => m.rule = .identifier ∧ m.text = x ∧ m.expression = .ok (.name x)) := by
  refine mirrors_leaf _ _ fun x c c' a a' h => ⟨_, rfl, rfl, ?_⟩
  obtain ⟨n, hscan, htext⟩ := token_eq_some h
  obtain ⟨y, -, hcs, -⟩ := Token.identifier_eq_some hscan
  rw [Token.take_eq hcs, String.ofList_toList] at htext
  simp only [ofParts, expressionOf, htext]
  exact ⟨trivial, rfl⟩

theorem mirrors_keyword (r : Rule) (w : String) :
    Mirrors (Grammar.keyword r w) (keyword r w) (Shows fun _ => Single (·.rule = r)) :=
  mirrors_leaf _ _ fun _ _ _ _ _ _ => ⟨_, rfl, rfl⟩

theorem mirrors_commaSeparated {item : Reader α} {item' : Reader (List Derivation)}
    {look : Meaning → Except BuildError α}
    (h : Mirrors item item' (Shows fun x => Single (look · = .ok x))) :
    Mirrors (Grammar.commaSeparated limit item) (commaSeparated limit item')
      (Shows fun xs ms => ms.mapM look = .ok xs) := by
  refine h.bind fun x ds hx => .after _ fun _ => ?_
  have hmore : Mirrors (symbol "," >>= fun _ => layout >>= fun _ => item)
      (symbol "," >>= fun _ => layout >>= fun _ => item') (Shows fun x => Single (look · = .ok x)) :=
    .after _ fun _ => .after _ fun _ => h
  refine (hmore.spaced limit).bind fun xs dss hxs => mirrors_pure ?_
  have hall := mapM_flatten (.cons hx (forall₂_meanings hxs))
  rwa [List.flatten_cons, ← meanings_flatten, ← meanings_append] at hall

theorem mirrors_chain {op : Reader BinaryOp} {op' : Reader (List Derivation)} {operand : Reader Expr}
    {operand' : Reader (List Derivation)}
    (hop : Mirrors op op' (Shows fun o => Single (·.text = o.symbol)))
    (h : Mirrors operand operand' (Shows Expresses)) :
    Mirrors (Grammar.chain limit op operand) (chain limit op' operand')
      (Shows fun e ms => chainOf ms = .ok e) := by
  refine h.bind fun e ds he => .after _ fun _ => ?_
  have hterm : Mirrors (do let o ← op; layout; let e ← operand; pure (o, e))
      (do let o ← op'; layout; let e ← operand'; pure (o ++ e)) (Shows IsTerm) := by
    refine hop.bind fun o os ho => .after _ fun _ => h.bind fun e' es he' => mirrors_pure ?_
    obtain ⟨o', ho', htext⟩ := ho
    obtain ⟨m, hm, hexpr⟩ := he'
    exact ⟨o', m, by rw [meanings_append, ho', hm]; rfl, htext, hexpr⟩
  refine (hterm.spaced limit).bind fun terms dss hterms => mirrors_pure ?_
  obtain ⟨m, hm, hexpr⟩ := he
  have hchain := chainOf_eq hexpr (forall₂_meanings hterms)
  simp only [Shows, meanings_append, meanings_flatten, hm]
  exact hchain

/-- The inner readers mirror one another. -/
structure Alike (inner : Grammar.Nested) (inner' : Nested) : Prop where
  expr : Mirrors inner.expr inner'.expr (Shows fun e => Single fun m =>
    m.rule = .expr ∧ m.expression = .ok e)
  statement : Mirrors inner.statement inner'.statement (Shows fun s => Single fun m =>
    m.rule = .statement ∧ m.statement = .ok s)

theorem mirrors_block (h : Alike inner inner') : Mirrors (Grammar.block limit inner)
    (block limit inner') (Shows fun ss => Single fun m => m.rule = .block ∧ m.statements = .ok ss) := by
  refine mirrors_derived (R := fun ss ms => ms.mapM (·.statement) = .ok ss)
    (.after _ fun _ => .after _ fun _ => ?_) .block fun ss ms s hss => ⟨_, rfl, rfl, hss⟩
  refine (h.statement.spaced limit).bind fun ss dss hss => ?_
  refine .after _ fun _ => .after _ fun _ => mirrors_pure ?_
  rw [Shows, meanings_flatten]
  exact mapM_flatten ((forall₂_meanings hss).imp fun s ms hs => hs.imp fun m => And.right)

theorem mirrors_parameters : Mirrors (Grammar.parameters limit) (parameters limit)
    (Shows fun xs => Single fun m => m.rule = .paramList ∧ m.names = xs) := by
  have hname : Mirrors Grammar.name name
      (Shows fun x => Single ((fun m => pure m.text : Meaning → Except BuildError String) · = .ok x)) := by
    refine mirrors_name.imp fun x ds hx => hx.imp fun m hm => ?_
    exact congrArg Except.ok hm.2.1
  refine mirrors_derived (mirrors_commaSeparated hname) .paramList fun xs ms s hxs => ⟨_, rfl, rfl, ?_⟩
  rw [List.mapM_pure] at hxs
  exact Except.ok.inj hxs

theorem mirrors_functionDef (h : Alike inner inner') : Mirrors (Grammar.functionDef limit inner)
    (functionDef limit inner')
    (Shows fun e => Single fun m => m.expression = .ok e ∧ m.function = .ok e) := by
  refine mirrors_derived (R := fun e ms => functionOf ms = .ok e) ?_ .functionDef fun e ms s he =>
    ⟨_, rfl, he, he⟩
  refine (mirrors_keyword _ _).bind fun _ ks hk => .after _ fun _ => ?_
  refine mirrors_name.bind fun f fs hf => .after _ fun _ => .after _ fun _ => .after _ fun _ => ?_
  refine mirrors_parameters.maybe.bind fun params ps hparams => ?_
  refine .after _ fun _ => .after _ fun _ => .after _ fun _ => ?_
  refine (mirrors_block h).bind fun body bs hbody => mirrors_pure ?_
  obtain ⟨k, hk, hkeyword⟩ := hk
  obtain ⟨m, hm, hrule, rfl, -⟩ := hf
  obtain ⟨b, hb, hblock⟩ := hbody
  have hps : meanings (ps.getD []) = [] ∧ params.getD [] = [] ∨
      Single (fun m => m.rule = .paramList ∧ m.names = params.getD []) (meanings (ps.getD [])) := by
    cases hparams with
    | none => exact .inl ⟨rfl, rfl⟩
    | some hps => exact .inr hps
  simp only [Shows, meanings_append, hk, hm, hb, List.cons_append, List.nil_append]
  exact functionOf_eq hkeyword hrule hps hblock

theorem mirrors_parenthesized (h : Alike inner inner') : Mirrors (Grammar.parenthesized inner)
    (parenthesized inner') (Shows Expresses) := by
  refine .after _ fun _ => .after _ fun _ => h.expr.bind fun e ds he => ?_
  exact .after _ fun _ => .after _ fun _ => mirrors_pure (he.imp fun m => And.right)

theorem mirrors_primary (h : Alike inner inner') : Mirrors (Grammar.primary inner) (primary inner')
    (Shows Expresses) := by
  have hnumber : Mirrors (named .number (token Token.number) >>= fun v => pure (Expr.number v))
      (leaf .number (token Token.number)) (Shows Expresses) :=
    mirrors_number.mapLeft fun v ds hv => hv
  have hquoted : Mirrors (named .string (token Token.text) >>= fun s => pure (Expr.text s)) quoted
      (Shows Expresses) :=
    mirrors_quoted.mapLeft fun s ds hs => hs
  have hboolean : Mirrors (named .boolean (token Token.boolean) >>= fun b => pure (Expr.boolean b))
      (leaf .boolean (token Token.boolean)) (Shows Expresses) :=
    mirrors_boolean.mapLeft fun b ds hb => hb
  have hname : Mirrors (Grammar.name >>= fun x => pure (Expr.name x)) name (Shows Expresses) :=
    mirrors_name.mapLeft fun x ds hx => hx.imp fun m hm => hm.2.2
  refine mirrors_derived ((mirrors_parenthesized h).orElse (hnumber.orElse (hquoted.orElse
    (hboolean.orElse hname)))) .primary ?_
  rintro e _ s ⟨m, rfl, hm⟩
  refine ⟨_, rfl, ?_⟩
  simp only [ofParts, expressionOf, next, pure_bind, hm]

theorem mirrors_callee (h : Alike inner inner') : Mirrors (Grammar.callee limit inner)
    (callee limit inner') (Shows Expresses) := by
  have hfunction : Mirrors (Grammar.functionDef limit inner) (functionDef limit inner')
      (Shows Expresses) :=
    (mirrors_functionDef h).imp fun e ds he => he.imp fun m => And.left
  refine mirrors_derived (hfunction.orElse (mirrors_primary h)) .fndef ?_
  rintro e _ s ⟨m, rfl, hm⟩
  refine ⟨_, rfl, ?_⟩
  simp only [ofParts, expressionOf, next, pure_bind, hm]

theorem mirrors_arguments (h : Alike inner inner') : Mirrors (Grammar.arguments limit inner)
    (arguments limit inner') (Shows fun args => Single (·.expressions = .ok args)) := by
  have hexpr : Mirrors inner.expr inner'.expr (Shows Expresses) :=
    h.expr.imp fun e ds he => he.imp fun m => And.right
  refine mirrors_derived (R := fun args ms => ms.mapM (·.expression) = .ok args) ?_ .callArgs
    fun args ms s hargs => ⟨_, rfl, hargs⟩
  refine .after _ fun _ => .after _ fun _ => ?_
  refine (mirrors_commaSeparated hexpr).maybe.bind fun args ds hargs => ?_
  refine .after _ fun _ => .after _ fun _ => mirrors_pure ?_
  cases hargs with
  | none => rfl
  | some hargs => exact hargs

theorem mirrors_call (h : Alike inner inner') : Mirrors (Grammar.call limit inner)
    (call limit inner') (Shows Expresses) := by
  refine mirrors_derived (R := fun e ms => callOf ms = .ok e) ?_ .call fun e ms s he => ⟨_, rfl, he⟩
  refine (mirrors_callee h).bind fun f ds hf => .after _ fun _ => ?_
  refine ((mirrors_arguments h).spaced limit).bind fun calls dss hcalls => mirrors_pure ?_
  obtain ⟨m, hm, hexpr⟩ := hf
  have hfold := foldlM_call (forall₂_meanings hcalls) f
  simp only [Shows, meanings_append, meanings_flatten, hm, callOf, next, List.cons_append,
    List.nil_append, pure_bind, hexpr, List.tail_cons]
  exact hfold

/-- Operators of one level between operands. -/
theorem mirrors_level {ops : List BinaryOp} {operand : Reader Expr}
    {operand' : Reader (List Derivation)} (r r' : Rule) (hr : ∀ s ms, expressionOf r s ms = chainOf ms)
    (h : Mirrors operand operand' (Shows Expresses)) :
    Mirrors (named r (Grammar.chain limit (named r' (Grammar.operator ops)) operand))
      (derived r (chain limit (leaf r' (Grammar.operator ops)) operand'))
      (Shows fun e => Single fun m => m.rule = r ∧ m.expression = .ok e) := by
  have hop : Mirrors (named r' (Grammar.operator ops)) (leaf r' (Grammar.operator ops))
      (Shows fun o => Single (·.text = o.symbol)) :=
    mirrors_leaf _ _ fun o c c' a a' ho => ⟨_, rfl, operator_eq_some ho⟩
  exact mirrors_derived (mirrors_chain hop h) r fun e ms s he => ⟨_, rfl, rfl, (hr s ms).trans he⟩

theorem mirrors_expr (h : Alike inner inner') : Mirrors (Grammar.expr limit inner) (expr limit inner')
    (Shows fun e => Single fun m => m.rule = .expr ∧ m.expression = .ok e) := by
  have hmultiplicative : Mirrors (Grammar.multiplicative limit inner) (multiplicative limit inner')
      (Shows Expresses) :=
    (mirrors_level .multitive .mulOp (fun _ _ => rfl) (mirrors_call h)).imp fun e ds he =>
      he.imp fun m => And.right
  have hadditive : Mirrors (Grammar.additive limit inner) (additive limit inner')
      (Shows Expresses) :=
    (mirrors_level .additive .addOp (fun _ _ => rfl) hmultiplicative).imp fun e ds he =>
      he.imp fun m => And.right
  exact mirrors_level .expr .compOp (fun _ _ => rfl) hadditive

theorem mirrors_guarded (h : Alike inner inner') (r : Rule) (w : String)
    (hr : r = .kwWhile ∨ r = .kwIf) :
    Mirrors (Grammar.guarded limit inner r w) (guarded limit inner' r w)
      (Shows fun x ms => guardedOf ms = .ok x) := by
  refine (mirrors_keyword r w).bind fun _ ks hk => ?_
  refine .after _ fun _ => .after _ fun _ => .after _ fun _ => ?_
  refine (mirrors_expr h).bind fun test ts htest => ?_
  refine .after _ fun _ => .after _ fun _ => .after _ fun _ => ?_
  refine (mirrors_block h).bind fun body bs hbody => mirrors_pure ?_
  obtain ⟨k, hk, rfl⟩ := hk
  obtain ⟨m, hm, htest⟩ := htest
  obtain ⟨b, hb, hbody⟩ := hbody
  simp only [Shows, meanings_append, hk, hm, hb, List.cons_append, List.nil_append]
  exact guardedOf_eq hr htest hbody

/-- A condition and a block make up a statement. -/
theorem mirrors_guardedStmt (h : Alike inner inner') {r r' : Rule} {w : String}
    (hr : r' = .kwWhile ∨ r' = .kwIf) {f : Expr × List Stmt → Stmt}
    (hf : ∀ x ms, guardedOf ms = .ok x → statementOf r ms = .ok (f x)) :
    Mirrors (named r (Grammar.guarded limit inner r' w >>= fun x => pure (f x)))
      (derived r (guarded limit inner' r' w)) (Shows States) := by
  refine mirrors_derived (R := fun s ms => statementOf r ms = .ok s) ?_ r fun s ms t hs => ⟨_, rfl, hs⟩
  exact (mirrors_guarded h r' w hr).mapLeft fun x ds hx => hf x _ hx

theorem mirrors_loopStmt (h : Alike inner inner') : Mirrors (Grammar.loopStmt limit inner)
    (loopStmt limit inner') (Shows States) := by
  refine mirrors_guardedStmt h (.inl rfl) (f := fun x => .loop x.1 x.2) fun x ms hx => ?_
  simp only [statementOf, hx]
  rfl

theorem mirrors_branchStmt (h : Alike inner inner') : Mirrors (Grammar.branchStmt limit inner)
    (branchStmt limit inner') (Shows States) := by
  refine mirrors_guardedStmt h (.inr rfl) (f := fun x => .branch x.1 x.2) fun x ms hx => ?_
  simp only [statementOf, hx]
  rfl

theorem mirrors_returnStmt (h : Alike inner inner') : Mirrors (Grammar.returnStmt limit inner)
    (returnStmt limit inner') (Shows States) := by
  refine mirrors_derived (R := fun s ms => statementOf .returnStmt ms = .ok s) ?_ .returnStmt
    fun s ms t hs => ⟨_, rfl, hs⟩
  refine (mirrors_keyword _ _).bind fun _ ks hk => .after _ fun _ => ?_
  refine (mirrors_expr h).maybe.bind fun value ds hvalue => ?_
  refine .after _ fun _ => .after _ fun _ => mirrors_pure ?_
  obtain ⟨k, hk, hrule⟩ := hk
  cases hvalue with
  | none =>
    simp only [Shows, Option.getD_none, List.append_nil, hk, statementOf]
    simp [hrule]
    rfl
  | some he =>
    obtain ⟨m, hm, hexpr, he⟩ := he
    simp [Shows, meanings_append, hk, hm, statementOf, hrule, hexpr, he]

theorem mirrors_functionStmt (h : Alike inner inner') : Mirrors (Grammar.functionStmt limit inner)
    (functionStmt limit inner') (Shows States) := by
  refine mirrors_derived (R := fun s ms => statementOf .functionStmt ms = .ok s) ?_ .functionStmt
    fun s ms t hs => ⟨_, rfl, hs⟩
  refine (mirrors_functionDef h).bind fun f ds hf => .after _ fun _ => .after _ fun _ => ?_
  refine .after _ fun _ => .after _ fun _ => mirrors_pure ?_
  obtain ⟨m, hm, -, hfunction⟩ := hf
  simp [Shows, hm, statementOf, next, hfunction]

theorem mirrors_assignStmt (h : Alike inner inner') : Mirrors (Grammar.assignStmt limit inner)
    (assignStmt limit inner') (Shows States) := by
  refine mirrors_derived (R := fun s ms => statementOf .assignStmt ms = .ok s) ?_ .assignStmt
    fun s ms t hs => ⟨_, rfl, hs⟩
  refine mirrors_name.bind fun x ds hx => .after _ fun _ => .after _ fun _ => .after _ fun _ => ?_
  refine .after _ fun _ => .after _ fun _ => (mirrors_expr h).bind fun e es he => ?_
  refine .after _ fun _ => .after _ fun _ => mirrors_pure ?_
  obtain ⟨m, hm, -, htext, -⟩ := hx
  obtain ⟨m', hm', -, hexpr⟩ := he
  simp [Shows, meanings_append, hm, hm', statementOf, next, htext, hexpr]

theorem mirrors_exprStmt (h : Alike inner inner') : Mirrors (Grammar.exprStmt limit inner)
    (exprStmt limit inner') (Shows States) := by
  refine mirrors_derived (R := fun s ms => statementOf .exprStmt ms = .ok s) ?_ .exprStmt
    fun s ms t hs => ⟨_, rfl, hs⟩
  refine (mirrors_expr h).bind fun e ds he => .after _ fun _ => .after _ fun _ => mirrors_pure ?_
  obtain ⟨m, hm, -, hexpr⟩ := he
  simp [Shows, hm, statementOf, next, hexpr]

theorem mirrors_statement (h : Alike inner inner') : Mirrors (Grammar.statement limit inner)
    (statement limit inner')
    (Shows fun s => Single fun m => m.rule = .statement ∧ m.statement = .ok s) := by
  refine mirrors_derived ((mirrors_loopStmt h).orElse ((mirrors_branchStmt h).orElse
    ((mirrors_returnStmt h).orElse ((mirrors_functionStmt h).orElse
    ((mirrors_assignStmt h).orElse (mirrors_exprStmt h)))))) .statement ?_
  rintro s _ t ⟨m, rfl, hm⟩
  refine ⟨_, rfl, rfl, ?_⟩
  simp only [ofParts, statementOf, next, pure_bind, hm]

theorem alike_nested (limit depth : Nat) : Alike (Grammar.nested limit depth) (nested limit depth) := by
  induction depth with
  | zero => exact ⟨mirrors_fail, mirrors_fail⟩
  | succ depth ih =>
    constructor <;> dsimp only [Grammar.nested, nested]
    · exact mirrors_expr ih
    · exact mirrors_statement ih

/-- What is read as a script in one step is built from the derivation. -/
theorem mirrors_program (limit : Nat) :
    Mirrors (Grammar.program limit) (program limit)
      (Shows fun p => Single (·.program = .ok p)) := by
  refine mirrors_derived (R := fun p ms =>
    (ms.filter (·.rule = .statement)).mapM (·.statement) = .ok p.body) (.after _ fun _ => ?_) .program
    fun p ms s hp => ⟨_, rfl, ?_⟩
  · refine ((alike_nested limit limit).statement.spaced limit).bind fun ss dss hss => ?_
    have hlast : Mirrors (named .endOfInput endOfText) (leaf .endOfInput endOfText)
        (Shows fun _ => Single (·.rule = .endOfInput)) :=
      mirrors_leaf _ _ fun _ _ _ _ _ _ => ⟨_, rfl, rfl⟩
    refine .after _ fun _ => hlast.bind fun _ ds hds => mirrors_pure ?_
    obtain ⟨m, hm, hrule⟩ := hds
    have hall := forall₂_meanings hss
    have hmapM := mapM_flatten (hall.imp fun s ms hs => hs.imp fun m => And.right)
    have hlastRule : [m].filter (·.rule = .statement) = [] := by simp [hrule]
    simp only [Shows, meanings_append, meanings_flatten, hm, List.filter_append,
      filter_statements hall, hlastRule, List.append_nil]
    exact hmapM
  · simp only [ofParts, hp]
    rfl

end Derivation

namespace Program

/-- A tree is built from every derivation: reading in two steps is reading in one. -/
theorem parseInSteps_eq (source : String) :
    parseInSteps source = (parse source).mapError .mismatch := by
  unfold parseInSteps parse
  dsimp only
  rcases Derivation.mirrors_program (source.toList.length + 1) (.start source.toList) .none with
    ⟨p, ds, c, a, hp, hds, hbuild⟩ | ⟨a, hp, hds⟩
  · rw [hp, hds]
    obtain ⟨m, hm, hprogram⟩ := hbuild
    have hbuilt : build ds = .ok p := by
      unfold build
      rw [show ds.map (·.meaning) = [m] from hm]
      exact hprogram
    simp only [hbuilt]
    rfl
  · rw [hp, hds]
    rfl

end Program
end Scriptlet
