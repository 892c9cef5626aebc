import Scriptlet.Proofs.Reader.Scanning

/-! The tokens that readers pass over. -/
namespace Scriptlet

open Token (isNameChar isNameStart)
open Layout (Gap Skips isBlank)

namespace Layout

variable {cs rest rest' : List Char}

theorem Skips.unique (h : Skips cs rest) (h' : Skips cs rest') : rest = rest' := by
  obtain ⟨pos, hpos⟩ := h 0
  obtain ⟨pos', hpos'⟩ := h' 0
  exact congrArg Cursor.rest (hpos.symm.trans hpos')

/-- A comment that is never closed is no layout. -/
theorem skipBlock_unclosed (h : ¬ ['*', '/'] <:+: cs) (opening : Cursor) (pos : Nat) :
    skipBlock opening pos cs = opening := by
  induction cs generalizing pos with
  | nil => rw [skipBlock]
  | cons c cs ih =>
    have hcs : ¬ ['*', '/'] <:+: cs := fun hcs => h (hcs.trans (List.suffix_cons c cs).isInfix)
    rw [skipBlock, ih hcs]
    rintro ds rfl rfl
    exact h ⟨[], ds, rfl⟩

/-- The first place where a comment is closed. -/
theorem exists_closing (h : ['*', '/'] <:+: cs) :
    ∃ body tail, cs = body ++ '*' :: '/' :: tail ∧ ¬ ['*', '/'] <:+: body := by
  induction cs with
  | nil => simp at h
  | cons c cs ih =>
    by_cases hc : ['*', '/'] <+: c :: cs
    · obtain ⟨tail, htail⟩ := hc
      exact ⟨[], tail, htail.symm, by simp⟩
    · have hcs : ['*', '/'] <:+: cs := (List.infix_cons_iff.mp h).resolve_left hc
      obtain ⟨body, tail, rfl, hbody⟩ := ih hcs
      refine ⟨c :: body, tail, rfl, fun hpart => ?_⟩
      rcases List.infix_cons_iff.mp hpart with hfirst | hlater
      · exact hc (hfirst.trans (List.prefix_append (c :: body) _))
      · exact hbody hlater

/-- No layout stands at the head of the text. -/
structure Settled (cs : List Char) : Prop where
  skips : Skips cs cs
  noComment : ¬ ['/', '/'] <+: cs

theorem settled_nil : Settled [] := ⟨skips_nil, by simp⟩

theorem settled_cons {c : Char} (hb : isBlank c = false) (hc : c ≠ '/') : Settled (c :: cs) :=
  ⟨skips_cons hb hc, by simp [hc.symm]⟩

theorem settled_slash (h : ∀ d ∈ cs.head?, d ≠ '/' ∧ d ≠ '*') : Settled ('/' :: cs) := by
  refine ⟨skips_slash h, fun hcomment => ?_⟩
  obtain ⟨ds, hds⟩ := hcomment
  have hhead : cs.head? = some '/' := by simp [← (List.cons.inj hds).2]
  exact (h '/' hhead).1 rfl

theorem settled_unclosed (h : ¬ ['*', '/'] <:+: cs) : Settled ('/' :: '*' :: cs) := by
  refine ⟨fun pos => ⟨pos, ?_⟩, by simp⟩
  rw [skip, skipBlock_unclosed h]

/-- Every text begins with layout, if only with none, and what follows has none before it. -/
theorem exists_gap (cs : List Char) :
    ∃ gap rest, cs = gap ++ rest ∧ Gap rest.isEmpty gap ∧ Settled rest := by
  induction hn : cs.length using Nat.strong_induction_on generalizing cs with
  | _ n ih =>
    subst hn
    have hself (h : Settled cs) : ∃ gap rest, cs = gap ++ rest ∧ Gap rest.isEmpty gap ∧
        Settled rest := ⟨[], cs, rfl, .nil, h⟩
    cases cs with
    | nil => exact hself settled_nil
    | cons c cs =>
      by_cases hb : isBlank c = true
      · obtain ⟨gap, rest, rfl, hgap, hrest⟩ := ih cs.length (by simp) cs rfl
        exact ⟨c :: gap, rest, rfl, .blank hb hgap, hrest⟩
      by_cases hc : c = '/'
      · subst hc
        by_cases hcomment : ∃ d ds, cs = d :: ds ∧ (d = '/' ∨ d = '*')
        · obtain ⟨d, cs, rfl, rfl | rfl⟩ := hcomment
          · by_cases hline : '\n' ∈ cs
            · obtain ⟨body, tail, rfl, hbody⟩ := List.eq_append_cons_of_mem hline
              obtain ⟨gap, rest, rfl, hgap, hrest⟩ := ih tail.length (by simp; omega) tail rfl
              exact ⟨'/' :: '/' :: (body ++ '\n' :: gap), rest, by simp, .line hbody hgap, hrest⟩
            · exact ⟨'/' :: '/' :: cs, [], by simp, .lastLine rfl hline, settled_nil⟩
          · by_cases hblock : ['*', '/'] <:+: cs
            · obtain ⟨body, tail, rfl, hbody⟩ := exists_closing hblock
              obtain ⟨gap, rest, rfl, hgap, hrest⟩ := ih tail.length (by simp; omega) tail rfl
              exact ⟨'/' :: '*' :: (body ++ '*' :: '/' :: gap), rest, by simp, .block hbody hgap,
                hrest⟩
            · exact hself (settled_unclosed hblock)
        · refine hself (settled_slash fun d hd => ?_)
          obtain ⟨ds, rfl⟩ := List.head?_eq_some_iff.mp hd
          exact not_or.mp fun hd => hcomment ⟨d, ds, rfl, hd⟩
      · exact hself (settled_cons (by simpa using hb) hc)

/-- What layout is passed over, and what comes behind it. -/
theorem Skips.exists_gap (h : Skips cs rest) :
    Settled rest ∧ ∃ gap, Gap rest.isEmpty gap ∧ cs = gap ++ rest := by
  obtain ⟨gap, rest', rfl, hgap, hrest'⟩ := Layout.exists_gap cs
  have hskips : Skips (gap ++ rest') rest' := hgap.skips hrest'.skips (by simp)
  obtain rfl := h.unique hskips
  exact ⟨hrest', gap, hgap, rfl⟩

theorem exists_skips (cs : List Char) : ∃ rest, Skips cs rest := by
  obtain ⟨gap, rest, rfl, hgap, hrest⟩ := exists_gap cs
  exact ⟨rest, hgap.skips hrest.skips (by simp)⟩

end Layout

/-- The text `cs` begins with the tokens, each with layout behind it, and `rest` follows. No word
goes on behind its token. -/
inductive Passes : List Lexeme → List Char → List Char → Prop
  | nil {cs : List Char} : Passes [] cs cs
  | cons {t : Lexeme} {ts : List Lexeme} {tail mid rest : List Char} :
      (t.isWord = true → ∀ c ∈ tail.head?, isNameChar c = false) → Skips tail mid →
      Passes ts mid rest → Passes (t :: ts) (t.chars ++ tail) rest

theorem Spells.isEmpty_eq {ts : List Lexeme} {cs : List Char} (h : Spells ts cs) :
    ts.isEmpty = cs.isEmpty := by
  cases h with
  | nil => rfl
  | @cons t ts gap cs =>
    obtain ⟨c, ds, hcs, -⟩ := t.begins
    simp [hcs]

namespace Passes

variable {t : Lexeme} {ts us : List Lexeme} {cs mid rest tail : List Char}

theorem append (h : Passes ts cs mid) (h' : Passes us mid rest) : Passes (ts ++ us) cs rest := by
  induction h with
  | nil => exact h'
  | cons hword hskips _ ih => exact .cons hword hskips (ih h')

/-- What may come next, after the tokens or if there are none, stands at the head of the text. -/
theorem head_prefix (h : Passes ts cs rest) {next : Option Lexeme}
    (hnext : ∀ u ∈ next, u.chars <+: rest) : ∀ u ∈ ts.head?.or next, u.chars <+: cs := by
  cases h with
  | nil => exact hnext
  | cons _ _ _ =>
    intro u hu
    obtain rfl := Option.some.inj hu
    exact List.prefix_append _ _

theorem endsInWord_cases (h : t.endsInWord = true) : t.isWord = true ∨ ∃ n, t = .number n := by
  cases t with
  | keyword | boolean | name => exact .inl rfl
  | number n => exact .inr ⟨n, rfl⟩
  | quoted s =>
    have hlast : (Lexeme.quoted s).chars.getLast? = some '"' :=
      List.getLast?_concat (l := '"' :: s.text.toList)
    simp [Lexeme.endsInWord, hlast, isNameChar] at h
  | operator op => cases op <;> cases h
  | mark m => cases m <;> cases h

/-- Tokens that follow one another as they do in scripts are kept apart. -/
theorem separates {gap : List Char}
    (hword : t.isWord = true → ∀ c ∈ (gap ++ cs).head?, isNameChar c = false)
    (hsettled : Layout.Settled (t.chars ++ (gap ++ cs))) (hgap : Gap ts.isEmpty gap)
    (h : Spells ts cs) (hchain : (t :: ts).IsChain Adjacent) : Separates t gap ts.head? := by
  constructor
  · rintro ht hnext rfl
    cases h with
    | nil => cases hnext
    | @cons u us gap' cs' =>
      have hu : u.startsWord = true := hnext
      rcases endsInWord_cases ht with ht | ⟨n, rfl⟩
      · obtain ⟨c, ds, hcs, -⟩ := u.begins
        have hc : isNameChar c = false := hword ht c (by simp [hcs])
        simp [Lexeme.startsWord, hcs, hc] at hu
      · have hsymbol : u.isSymbol = true := Laid.adjacent hchain rfl
        cases u with
        | operator op => cases op <;> cases hu
        | mark m => cases m <;> cases hu
        | _ => cases hsymbol
  · rintro rfl
    cases gap with
    | nil => rfl
    | cons c gap =>
      rcases hgap.head rfl with hblank | rfl
      · exact hblank
      · exact absurd ⟨gap ++ cs, rfl⟩ hsettled.noComment

theorem spells (h : Passes ts cs rest) (hrest : rest = []) (hsettled : Layout.Settled cs)
    (hchain : ts.IsChain Adjacent) : Spells ts cs := by
  induction h with
  | nil =>
    subst hrest
    exact .nil
  | @cons t ts tail mid rest hword hskips _ ih =>
    obtain ⟨hmid, gap, hgap, rfl⟩ := hskips.exists_gap
    have hspells : Spells ts mid := ih hrest hmid hchain.tail
    rw [← hspells.isEmpty_eq] at hgap
    exact .cons hgap (separates hword hsettled hgap hspells hchain) hspells

end Passes

namespace Token

variable {cs : List Char} {n : Nat}

/-- The characters up to the first for which `p` fails, and what remains. -/
theorem takeWhile_split (p : Char → Bool) (cs : List Char) :
    ∃ tail, cs = cs.takeWhile p ++ tail ∧ cs.drop (cs.takeWhile p).length = tail ∧
      ∀ c ∈ tail.head?, p c = false := by
  have hsplit : cs.takeWhile p ++ cs.dropWhile p = cs := List.takeWhile_append_dropWhile
  have hdrop := congrArg (List.drop (cs.takeWhile p).length) hsplit
  rw [List.drop_left] at hdrop
  refine ⟨cs.dropWhile p, hsplit.symm, hdrop.symm, fun c hc => ?_⟩
  have hhead := List.head?_dropWhile_not p cs
  rw [Option.mem_def] at hc
  simpa [hc] using hhead

theorem take_eq {xs : List Char} (h : cs = xs ++ cs.drop n) : cs.take n = xs := by
  have htake := List.take_append_drop n cs
  nth_rewrite 3 [h] at htake
  exact List.append_cancel_right htake

theorem word_eq_some {w : String} (hw : w.toList.all isNameChar = true)
    (h : word w cs = some ((), n)) :
    cs = w.toList ++ cs.drop n ∧ ∀ c ∈ (cs.drop n).head?, isNameChar c = false := by
  rw [word_eq hw] at h
  split at h
  · next htake =>
    obtain ⟨-, rfl⟩ := Prod.mk.inj (Option.some.inj h)
    obtain ⟨tail, hsplit, hdrop, hend⟩ := takeWhile_split isNameChar cs
    rw [← String.length_toList, ← htake, hdrop]
    exact ⟨hsplit, hend⟩
  · cases h

theorem isNameChar_of_start {c : Char} (h : isNameStart c = true) : isNameChar c = true := by
  rcases isNameStart_iff.mp h with h | rfl
  · simp [isNameChar, Char.isAlphanum, h]
  · rfl

theorem identifier_eq_some {x : String} (h : identifier cs = some (x, n)) :
    ∃ y : Identifier, y.text = x ∧ cs = x.toList ++ cs.drop n ∧
      ∀ c ∈ (cs.drop n).head?, isNameChar c = false := by
  unfold identifier at h
  dsimp only at h
  split at h
  · next hname =>
    obtain ⟨hx, rfl⟩ := Prod.mk.inj (Option.some.inj h)
    obtain ⟨tail, hsplit, hdrop, hend⟩ := takeWhile_split isNameChar cs
    have htext : x.toList = cs.takeWhile isNameChar := by rw [← hx, String.toList_ofList]
    rw [Bool.and_eq_true, hx] at hname
    have hstart : x.toList.head?.any isNameStart = true := by
      cases cs with
      | nil => cases hname.1
      | cons c cs =>
        have hc : isNameStart c = true := by simpa using hname.1
        have hchar : isNameChar c = true := isNameChar_of_start hc
        simp [htext, hchar, hc]
    have hchars : x.toList.all isNameChar = true := by
      rw [htext]
      exact List.all_takeWhile
    have hfree : x ∉ keywords := by simpa using hname.2
    rw [hdrop, htext]
    exact ⟨⟨x, hstart, hchars, hfree⟩, rfl, hsplit, hend⟩
  · cases h

theorem boolean_eq_some {b : Bool} (h : boolean cs = some (b, n)) :
    word (if b then "true" else "false") cs = some ((), n) := by
  unfold boolean at h
  split at h
  · next htrue =>
    obtain ⟨rfl, rfl⟩ := Prod.mk.inj (Option.some.inj h)
    exact htrue
  · obtain ⟨⟨⟨⟩, m⟩, hfalse, heq⟩ := Option.map_eq_some_iff.mp h
    obtain ⟨rfl, rfl⟩ := Prod.mk.inj heq
    exact hfalse

theorem text_eq_some {s : String} (h : text cs = some (s, n)) :
    '"' ∉ s.toList ∧ cs = '"' :: (s.toList ++ ['"']) ++ cs.drop n := by
  unfold text at h
  split at h
  · next cs' =>
    obtain ⟨tail, hsplit, hdrop, hhead⟩ := takeWhile_split (· ≠ '"') cs'
    have hplain : '"' ∉ cs'.takeWhile (· ≠ '"') := fun hmem => by
      simpa using List.mem_takeWhile_imp hmem
    dsimp only at h
    generalize cs'.takeWhile (· ≠ '"') = content at *
    subst hsplit
    rw [hdrop] at h
    cases tail with
    | nil => cases h
    | cons c tail =>
      obtain rfl : c = '"' := by simpa using hhead
      obtain ⟨rfl, rfl⟩ := Prod.mk.inj (Option.some.inj h)
      rw [String.toList_ofList]
      exact ⟨hplain, by simp⟩
  · cases h

/-- Digits, perhaps with a point, are a numeral. -/
theorem unsigned_eq_some {d : Decimal} (h : unsigned cs = some (d, n)) :
    ∃ l : Literal, l.minus = none ∧ l.decimal = d ∧ cs = l.unsignedChars ++ cs.drop n := by
  obtain ⟨tail, hsplit, hdrop, -⟩ := takeWhile_split Char.isDigit cs
  have hdigits : (cs.takeWhile Char.isDigit).all Char.isDigit = true := List.all_takeWhile
  unfold unsigned at h
  dsimp only at h
  generalize cs.takeWhile Char.isDigit = whole at *
  subst hsplit
  rw [hdrop] at h
  split at h
  · next cs' =>
    obtain ⟨tail', hsplit', -, -⟩ := takeWhile_split Char.isDigit cs'
    have hdigits' : (cs'.takeWhile Char.isDigit).all Char.isDigit = true := List.all_takeWhile
    generalize cs'.takeWhile Char.isDigit = fraction at *
    subst hsplit'
    split at h
    · cases h
    · next hne =>
      obtain ⟨rfl, rfl⟩ := Prod.mk.inj (Option.some.inj h)
      refine ⟨⟨none, whole, some fraction, ?_, ?_⟩, rfl, rfl, ?_⟩
      · simp only [Option.getD_some, List.all_append, hdigits, hdigits', Bool.and_self]
      · simpa using hne
      · have hlength : whole.length + 1 + fraction.length = (whole ++ '.' :: fraction).length := by
          simp only [List.length_append, List.length_cons]
          omega
        have happend : whole ++ '.' :: (fraction ++ tail') = (whole ++ '.' :: fraction) ++ tail' := by
          simp
        rw [happend, hlength, List.drop_left]
        rfl
  · split at h
    · cases h
    · next hne =>
      obtain ⟨rfl, rfl⟩ := Prod.mk.inj (Option.some.inj h)
      refine ⟨⟨none, whole, none, ?_, ?_⟩, rfl, ?_, ?_⟩
      · simpa using hdigits
      · simpa using hne
      · simp [Literal.decimal]
      · simp [Literal.unsignedChars]

theorem number_eq_some {v : Number} (h : number cs = some (v, n)) :
    ∃ l : Literal, l.value = v ∧ cs = l.chars ++ cs.drop n := by
  obtain ⟨⟨d, m⟩, hnumeral, heq⟩ := Option.map_eq_some_iff.mp h
  obtain ⟨rfl, rfl⟩ := Prod.mk.inj heq
  unfold numeral at hnumeral
  split at hnumeral
  · obtain ⟨⟨d', m'⟩, hunsigned, heq⟩ := Option.map_eq_some_iff.mp hnumeral
    obtain ⟨rfl, rfl⟩ := Prod.mk.inj heq
    obtain ⟨l, hl, rfl, hcs⟩ := unsigned_eq_some hunsigned
    refine ⟨{ l with minus := some false }, ?_, congrArg (List.cons '+') hcs⟩
    simp [Literal.value, Literal.decimal, hl]
  · obtain ⟨⟨d', m'⟩, hunsigned, heq⟩ := Option.map_eq_some_iff.mp hnumeral
    obtain ⟨rfl, rfl⟩ := Prod.mk.inj heq
    obtain ⟨l, hl, rfl, hcs⟩ := unsigned_eq_some hunsigned
    refine ⟨{ l with minus := some true }, ?_, congrArg (List.cons '-') hcs⟩
    simp [Literal.value, Literal.decimal]
  · obtain ⟨l, hl, rfl, hcs⟩ := unsigned_eq_some hnumeral
    exact ⟨l, rfl, by simpa [Literal.chars, Literal.signChars, hl] using hcs⟩

end Token

namespace Reader

variable {α β γ : Type} {p q : Reader α} {cs : List Char} {P : List Lexeme → α → List Char → Prop}
  {R : List Lexeme → β → List Char → Prop}

/-- The reader finds something at the head of the text. -/
def Accepts (p : Reader α) (cs : List Char) : Prop :=
  ∀ pos a, ∃ r a', p ⟨cs, pos⟩ a = (some r, a')

/-- Whatever the reader finds at the head of the text is written there: it passes over tokens that
`P` relates to what it finds and to the text that follows. -/
def Sound (p : Reader α) (cs : List Char) (P : List Lexeme → α → List Char → Prop) : Prop :=
  Skips cs cs → ∀ pos a x c a', p ⟨cs, pos⟩ a = (some (x, c), a') →
    ∃ ts rest, Passes ts cs rest ∧ Skips c.rest rest ∧ P ts x rest

theorem bind_eq_some {f : α → Reader β} {c c' : Cursor} {a a' : Attempts} {y : β}
    (h : (p >>= f) c a = (some (y, c'), a')) :
    ∃ x c₁ a₁, p c a = (some (x, c₁), a₁) ∧ f x c₁ a₁ = (some (y, c'), a') := by
  simp only [Bind.bind] at h
  split at h
  · next x c₁ a₁ hp => exact ⟨x, c₁, a₁, hp, h⟩
  · cases h

theorem orElse_eq_some {c c' : Cursor} {a a' : Attempts} {x : α}
    (h : (p <|> q) c a = (some (x, c'), a')) :
    p c a = (some (x, c'), a') ∨
      ∃ a₁, p c a = (none, a₁) ∧ q c a₁ = (some (x, c'), a') := by
  simp only [HOrElse.hOrElse, OrElse.orElse, Reader.orElse] at h
  split at h
  · next r a₁ hp => exact .inl (hp.trans h)
  · next a₁ hp => exact .inr ⟨a₁, hp, h⟩

/-- A reader behind layout begins where the layout ends. -/
theorem layout_eq_some {c c' : Cursor} {a a' : Attempts} {x : α} (hs : Skips c.rest cs)
    (h : (layout >>= fun _ => p) c a = (some (x, c'), a')) :
    ∃ pos, p ⟨cs, pos⟩ a = (some (x, c'), a') := by
  obtain ⟨pos, hpos⟩ := hs c.pos
  refine ⟨pos, ?_⟩
  rw [← hpos]
  exact h

theorem not_accepts {pos : Nat} {a a' : Attempts} (h : p ⟨cs, pos⟩ a = (none, a')) :
    ¬ Accepts p cs := by
  intro haccepts
  obtain ⟨r, a'', hr⟩ := haccepts pos a
  cases h.symm.trans hr

theorem sound_fail : Sound (fail : Reader α) cs P := by
  intro _ pos a x c a' h
  cases h

theorem sound_pure {x : α} (h : P [] x cs) : Sound (pure x) cs P := by
  intro hs pos a y c a' heq
  cases heq
  exact ⟨[], cs, .nil, hs, h⟩

/-- The last reader of a sequence gives what the sequence is about. -/
theorem Sound.map (hp : Sound p cs P) {f : α → β}
    (h : ∀ ts x rest, Passes ts cs rest → P ts x rest → R ts (f x) rest) :
    Sound (p >>= fun x => pure (f x)) cs R := by
  intro hs pos a y c a' heq
  obtain ⟨x, c₁, a₁, hx, hy⟩ := bind_eq_some heq
  cases hy
  obtain ⟨ts, rest, hts, hrest, hP⟩ := hp hs pos a x c a' hx
  exact ⟨ts, rest, hts, hrest, h ts x rest hts hP⟩

/-- Two readers one after the other, with layout between. -/
theorem Sound.next (hp : Sound p cs P) {f : α → Reader β}
    (hf : ∀ ts x mid, Passes ts cs mid → P ts x mid →
      Sound (f x) mid fun us y rest => R (ts ++ us) y rest) :
    Sound (p >>= fun x => layout >>= fun _ => f x) cs R := by
  intro hs pos a y c a' heq
  obtain ⟨x, c₁, a₁, hx, hy⟩ := bind_eq_some heq
  obtain ⟨ts, mid, hts, hmid, hP⟩ := hp hs pos a x c₁ a₁ hx
  obtain ⟨pos₁, hy⟩ := layout_eq_some hmid hy
  have hsettled : Skips mid mid := hmid.exists_gap.1.skips
  obtain ⟨us, rest, hus, hrest, hR⟩ := hf ts x mid hts hP hsettled pos₁ a₁ y c a' hy
  exact ⟨ts ++ us, rest, hts.append hus, hrest, hR⟩

theorem Sound.imp {P' : List Lexeme → α → List Char → Prop} (hp : Sound p cs P)
    (h : ∀ ts x rest, P ts x rest → P' ts x rest) : Sound p cs P' := by
  intro hs pos a x c a' heq
  obtain ⟨ts, rest, hts, hrest, hP⟩ := hp hs pos a x c a' heq
  exact ⟨ts, rest, hts, hrest, h ts x rest hP⟩

theorem Sound.orElse (hp : Sound p cs P) (hq : ¬ Accepts p cs → Sound q cs P) :
    Sound (p <|> q) cs P := by
  intro hs pos a x c a' heq
  rcases orElse_eq_some heq with hx | ⟨a₁, hnone, hx⟩
  · exact hp hs pos a x c a' hx
  · exact hq (not_accepts hnone) hs pos a₁ x c a' hx

theorem Sound.named (hp : Sound p cs P) (r : Rule) : Sound (named r p) cs P := by
  intro hs pos a x c a' heq
  simp only [Reader.named] at heq
  split at heq
  · next hx =>
    cases heq
    exact hp hs pos a x c a' hx
  · cases heq

theorem Sound.absent {S : List Lexeme → Unit → List Char → Prop} (h : ¬ Accepts p cs → S [] () cs) :
    Sound (absent p) cs S := by
  intro hs pos a x c a' heq
  simp only [Reader.absent] at heq
  split at heq
  · cases heq
  · next hnone =>
    cases heq
    exact ⟨[], cs, .nil, hs, h (not_accepts hnone)⟩

theorem Accepts.map (h : Accepts p cs) (f : α → β) : Accepts (p >>= fun x => pure (f x)) cs := by
  intro pos a
  obtain ⟨⟨x, c⟩, a', hx⟩ := h pos a
  exact ⟨(f x, c), a', by simp only [Bind.bind, hx]; rfl⟩

theorem Accepts.orElse_left (h : Accepts p cs) (q : Reader α) : Accepts (p <|> q) cs := by
  intro pos a
  obtain ⟨r, a', hr⟩ := h pos a
  exact ⟨r, a', by simp only [HOrElse.hOrElse, OrElse.orElse, Reader.orElse, hr]⟩

theorem Accepts.orElse_right (h : Accepts q cs) (p : Reader α) : Accepts (p <|> q) cs := by
  intro pos a
  simp only [HOrElse.hOrElse, OrElse.orElse, Reader.orElse]
  split
  · exact ⟨_, _, rfl⟩
  · next a' _ => exact h pos a'

theorem Accepts.barred (h : Accepts p cs) (r : Rule) : Accepts (barred r p) cs := by
  intro pos a
  obtain ⟨x, a', hx⟩ := h pos a
  exact ⟨x, Attempts.note (.reject r) a pos a', by simp only [Reader.barred, hx]⟩

theorem accepts_symbol {s : String} (h : s.toList <+: cs) : Accepts (symbol s) cs := by
  intro pos a
  have hprefix : s.toList.isPrefixOf cs = true := List.isPrefixOf_iff_prefix.mpr h
  exact ⟨_, a, by simp only [symbol, token, hprefix, if_true]; rfl⟩

theorem accepts_operator {op : BinaryOp} {ops : List BinaryOp} (hop : op ∈ ops)
    (h : op.symbol.toList <+: cs) : Accepts (Grammar.operator ops) cs := by
  induction ops with
  | nil => cases hop
  | cons op' ops ih =>
    rcases List.mem_cons.mp hop with rfl | hop
    · exact ((accepts_symbol h).map _).orElse_left _
    · exact (ih hop).orElse_right _

theorem Sound.maybe {S : List Lexeme → Option α → List Char → Prop}
    (hp : Sound p cs fun ts x rest => S ts (some x) rest) (h : ¬ Accepts p cs → S [] none cs) :
    Sound (maybe p) cs S := by
  refine Sound.orElse (hp.map fun _ _ _ _ hS => hS) fun hnot => sound_pure (h ?_)
  exact fun haccepts => hnot (haccepts.map some)

/-- Items one after the other, each related to its tokens and to the text behind it. -/
inductive Items (P : List Lexeme → α → List Char → Prop) (rest : List Char) :
    List Lexeme → List α → Prop
  | nil : Items P rest [] []
  | cons {ts us : List Lexeme} {x : α} {xs : List α} {mid : List Char} : P ts x mid →
      Passes us mid rest → Items P rest us xs → Items P rest (ts ++ us) (x :: xs)

theorem items_of_repeated (hp : ∀ cs, Sound p cs P) {limit : Nat} {c c' : Cursor} {a a' : Attempts}
    {xs : List α} (hs : Skips c.rest cs)
    (heq : repeated (layout >>= fun _ => p) limit c a = (some (xs, c'), a')) :
    ∃ ts rest, Passes ts cs rest ∧ Skips c'.rest rest ∧ Items P rest ts xs := by
  induction limit generalizing cs c a xs with
  | zero =>
    cases heq
    exact ⟨[], cs, .nil, hs, .nil⟩
  | succ limit ih =>
    rcases orElse_eq_some heq with hx | ⟨a₁, -, hx⟩
    · obtain ⟨x, c₁, a₁, hfirst, hx⟩ := bind_eq_some hx
      obtain ⟨ys, c₂, a₂, hmore, hx⟩ := bind_eq_some hx
      cases hx
      obtain ⟨pos₁, hfirst⟩ := layout_eq_some hs hfirst
      have hsettled : Skips cs cs := hs.exists_gap.1.skips
      obtain ⟨ts, mid₁, hts, hmid₁, hP⟩ := hp cs hsettled pos₁ a x c₁ a₁ hfirst
      obtain ⟨us, rest, hus, hrest, hitems⟩ := ih hmid₁ hmore
      exact ⟨ts ++ us, rest, hts.append hus, hrest, .cons hP hus hitems⟩
    · cases hx
      exact ⟨[], cs, .nil, hs, .nil⟩

theorem sound_spaced (hp : ∀ cs, Sound p cs P) (limit : Nat) (cs : List Char) :
    Sound (spaced limit p) cs fun ts xs rest => Items P rest ts xs := by
  refine Sound.orElse ?_ fun _ => sound_pure .nil
  intro hs pos a xs c a' heq
  obtain ⟨x, c₁, a₁, hfirst, heq⟩ := bind_eq_some heq
  obtain ⟨ys, c₂, a₂, hmore, heq⟩ := bind_eq_some heq
  cases heq
  obtain ⟨ts, mid, hts, hmid, hP⟩ := hp cs hs pos a x c₁ a₁ hfirst
  obtain ⟨us, rest, hus, hrest, hitems⟩ := items_of_repeated hp hmid hmore
  exact ⟨ts ++ us, rest, hts.append hus, hrest, .cons hP hus hitems⟩

/-- A token is read where its characters stand. -/
theorem sound_token {scan : List Char → Option (α × Nat)}
    (h : ∀ x n, scan cs = some (x, n) → ∃ t, cs = t.chars ++ cs.drop n ∧
      (t.isWord = true → ∀ c ∈ (cs.drop n).head?, isNameChar c = false) ∧ ∀ rest, P [t] x rest) :
    Sound (token scan) cs P := by
  intro _ pos a x c a' heq
  simp only [token] at heq
  split at heq
  · next y n hscan =>
    cases heq
    obtain ⟨t, hcs, hword, hP⟩ := h x n hscan
    obtain ⟨rest, hrest⟩ := Layout.exists_skips (cs.drop n)
    refine ⟨[t], rest, ?_, hrest, hP rest⟩
    rw [hcs]
    exact .cons hword hrest .nil
  · cases heq

theorem sound_symbol {s : String} {t : Lexeme} (hs : s.toList = t.chars) (ht : t.isSymbol = true) :
    Sound (symbol s) cs fun ts _ _ => ts = [t] := by
  refine sound_token fun x n hscan => ⟨t, ?_, ?_, fun _ => rfl⟩
  · split at hscan
    · next hprefix =>
      obtain ⟨-, rfl⟩ := Prod.mk.inj (Option.some.inj hscan)
      obtain ⟨tail, rfl⟩ := List.isPrefixOf_iff_prefix.mp hprefix
      rw [← String.length_toList, List.drop_left, hs]
    · cases hscan
  · intro hword
    cases t with
    | operator | mark => cases hword
    | _ => cases ht

theorem sound_mark (m : Mark) {s : String} (hs : s.toList = [m.char]) (cs : List Char) :
    Sound (symbol s) cs fun ts _ _ => ts = [.mark m] :=
  sound_symbol hs rfl

theorem sound_operator (ops : List BinaryOp) (cs : List Char) :
    Sound (Grammar.operator ops) cs fun ts op _ => op ∈ ops ∧ ts = [.operator op] := by
  induction ops with
  | nil => exact sound_fail
  | cons op ops ih =>
    have hfirst : Sound (symbol op.symbol) cs fun ts _ _ => ts = [.operator op] := sound_symbol rfl rfl
    refine Sound.orElse (hfirst.map ?_) fun _ => ?_
    · rintro ts ⟨⟩ rest _ rfl
      exact ⟨List.mem_cons_self, rfl⟩
    · exact ih.imp fun ts op' rest h => ⟨List.mem_cons_of_mem op h.1, h.2⟩

theorem sound_keyword (k : Keyword) (r : Rule) (cs : List Char) :
    Sound (Grammar.keyword r k.text) cs fun ts _ _ => ts = [.keyword k] := by
  refine Sound.named (sound_token fun x n hscan => ⟨.keyword k, ?_⟩) r
  obtain ⟨hcs, hend⟩ := Token.word_eq_some (by cases k <;> rfl) hscan
  exact ⟨hcs, fun _ => hend, fun _ => rfl⟩

theorem sound_name (cs : List Char) :
    Sound Grammar.name cs fun ts x _ => ∃ y : Identifier, x = y.text ∧ ts = [.name y] := by
  refine Sound.named (sound_token fun x n hscan => ?_) _
  obtain ⟨y, rfl, hcs, hend⟩ := Token.identifier_eq_some hscan
  exact ⟨.name y, hcs, fun _ => hend, fun _ => ⟨y, rfl, rfl⟩⟩

theorem sound_boolean (cs : List Char) :
    Sound (token Token.boolean) cs fun ts b _ => ts = [.boolean b] := by
  refine sound_token fun b n hscan => ⟨.boolean b, ?_⟩
  obtain ⟨hcs, hend⟩ := Token.word_eq_some (by cases b <;> rfl) (Token.boolean_eq_some hscan)
  exact ⟨hcs, fun _ => hend, fun _ => rfl⟩

theorem sound_quoted (cs : List Char) :
    Sound (token Token.text) cs fun ts s _ => ∃ q : Quotable, s = q.text ∧ ts = [.quoted q] := by
  refine sound_token fun s n hscan => ?_
  obtain ⟨hplain, hcs⟩ := Token.text_eq_some hscan
  exact ⟨.quoted ⟨s, hplain⟩, hcs, nofun, fun _ => ⟨⟨s, hplain⟩, rfl, rfl⟩⟩

theorem sound_number (cs : List Char) :
    Sound (token Token.number) cs fun ts v _ => ∃ n : Literal, v = n.value ∧ ts = [.number n] := by
  refine sound_token fun v n hscan => ?_
  obtain ⟨l, rfl, hcs⟩ := Token.number_eq_some hscan
  exact ⟨.number l, hcs, nofun, fun _ => ⟨l, rfl, rfl⟩⟩

end Reader
end Scriptlet
