import Scriptlet.Reader.Grammar
import Scriptlet.Proofs.Reader.Lexemes

/-! What readers do with tokens, whatever the layout between them. -/
namespace Scriptlet

open Token (isNameChar isNameStart)
open Layout (Skips)

theorem takeWhile_append {p : Char → Bool} {xs tail : List Char} (hx : ∀ c ∈ xs, p c = true)
    (ht : ∀ c ∈ tail.head?, p c = false) : (xs ++ tail).takeWhile p = xs := by
  rw [List.takeWhile_append_of_pos hx]
  cases tail with
  | nil => simp
  | cons c tail => simp [ht c rfl]

namespace Token

/-- A word is found where the characters of names make up just that word. -/
theorem word_eq {w : String} (hw : w.toList.all isNameChar = true) (cs : List Char) :
    word w cs = if cs.takeWhile isNameChar = w.toList then some ((), w.length) else none := by
  rw [word]
  congr 1
  rw [Bool.and_eq_true, Bool.not_eq_true', eq_iff_iff, List.isPrefixOf_iff_prefix,
    ← String.length_toList]
  constructor
  · rintro ⟨⟨tail, rfl⟩, ht⟩
    rw [List.drop_left] at ht
    exact takeWhile_append (List.all_eq_true.mp hw) fun c hc => by
      rw [Option.mem_def] at hc
      simpa [hc] using ht
  · intro h
    have hcs := List.takeWhile_append_dropWhile (p := isNameChar) (l := cs)
    rw [h] at hcs
    refine ⟨⟨_, hcs⟩, ?_⟩
    rw [← hcs, List.drop_left]
    have hhead := List.head?_dropWhile_not isNameChar cs
    cases hd : (cs.dropWhile isNameChar).head? with
    | none => rfl
    | some c => simpa [hd] using hhead

theorem unsigned_append (n : Literal) {tail : List Char}
    (ht : ∀ c ∈ tail.head?, c.isDigit = false ∧ c ≠ '.') :
    unsigned (n.unsignedChars ++ tail) = some ({ n.decimal with negative := false },
      n.unsignedChars.length) := by
  obtain ⟨minus, whole, fraction, digits, nonempty⟩ := n
  have hwhole : ∀ c ∈ whole, c.isDigit = true := fun c hc =>
    List.all_eq_true.mp digits c (by simp [hc])
  cases fraction with
  | none =>
    have hne : whole ≠ [] := by simpa using nonempty
    have htake := takeWhile_append hwhole fun c hc => (ht c hc).1
    simp only [Literal.unsignedChars, Option.elim_none, List.append_nil, unsigned, htake,
      List.drop_left]
    split
    · exact absurd rfl (ht _ rfl).2
    · simp [hne, Literal.decimal]
  | some ds =>
    have hds : ∀ c ∈ ds, c.isDigit = true := fun c hc =>
      List.all_eq_true.mp digits c (by simp [hc])
    have hne : ¬ (whole.isEmpty && ds.isEmpty) = true := by simpa using nonempty
    have htake : (whole ++ '.' :: (ds ++ tail)).takeWhile Char.isDigit = whole :=
      takeWhile_append hwhole (by simp)
    have htake' := takeWhile_append hds fun c hc => (ht c hc).1
    simp only [Literal.unsignedChars, Option.elim_some, List.append_assoc, List.cons_append,
      unsigned, htake, List.drop_left, htake', if_neg hne]
    have hlen : whole.length + 1 + ds.length = (whole ++ '.' :: ds).length := by
      simp only [List.length_append, List.length_cons]
      omega
    rw [hlen]
    rfl

theorem number_append (n : Literal) {tail : List Char}
    (ht : ∀ c ∈ tail.head?, c.isDigit = false ∧ c ≠ '.') :
    number (n.chars ++ tail) = some (n.value, n.chars.length) := by
  have hunsigned := unsigned_append n ht
  have hnumeral : numeral (n.chars ++ tail) = some (n.decimal, n.chars.length) := by
    cases hm : n.minus with
    | none =>
      obtain ⟨c, cs, hcs, hc⟩ := n.unsigned_begins
      have hsign : c ≠ '+' ∧ c ≠ '-' := by
        constructor <;> rintro rfl <;> simp at hc
      have heq : numeral (n.unsignedChars ++ tail) = unsigned (n.unsignedChars ++ tail) := by
        rw [hcs, List.cons_append, numeral]
        · simpa using hsign.1
        · simpa using hsign.2
      simp [Literal.chars, Literal.signChars, hm, heq, hunsigned, Literal.decimal]
    | some minus =>
      cases minus <;> simp [Literal.chars, Literal.signChars, hm, numeral, hunsigned, Literal.decimal]
  rw [number, hnumeral]
  rfl

end Token

namespace Lexeme

variable {t : Lexeme} {c : Char} {tail : List Char}

def isWord : Lexeme → Bool
  | keyword _ | boolean _ | name _ => true
  | _ => false

theorem Begins.isWord (h : t.Begins c) (hc : isNameStart c = true) : t.isWord = true := by
  cases t with
  | keyword | boolean | name => rfl
  | number n =>
    rcases h with h | rfl | rfl | rfl
    · simp [Token.isDigit_of_start hc] at h
    all_goals cases hc
  | quoted s =>
    obtain rfl : c = '"' := h
    cases hc
  | operator op =>
    have hs := h.of_symbol (P := fun c => !isNameStart c) (by rintro ⟨⟩ <;> rfl)
    simp [hc] at hs
  | mark m =>
    obtain rfl : c = m.char := h
    cases m <;> cases hc

theorem all_isNameChar (ht : t.isWord = true) : t.chars.all isNameChar = true := by
  cases t with
  | keyword k => cases k <;> rfl
  | boolean b => cases b <;> rfl
  | name x => exact x.chars
  | _ => cases ht

theorem takeWhile_chars (ht : t.isWord = true) (h : Ends t tail) :
    (t.chars ++ tail).takeWhile isNameChar = t.chars := by
  have hchars := List.all_eq_true.mp (all_isNameChar ht)
  refine takeWhile_append hchars (h.word ?_)
  obtain ⟨c, cs, hcs, -⟩ := t.begins
  have hne : t.chars ≠ [] := by simp [hcs]
  rw [endsInWord, List.getLast?_eq_some_getLast hne]
  exact hchars _ (List.getLast_mem hne)

theorem Begins.sign (h : t.Begins c) (hn : ∀ n, t ≠ .number n) (hop : ∀ op, t ≠ .operator op) :
    c ≠ '+' ∧ c ≠ '-' := by
  cases t with
  | number n => exact absurd rfl (hn n)
  | operator op => exact absurd rfl (hop op)
  | mark m =>
    obtain rfl : c = m.char := h
    cases m <;> decide
  | _ => constructor <;> rintro rfl <;> cases h

theorem Begins.quote (h : t.Begins '"') : ∃ s, t = .quoted s := by
  cases t with
  | quoted s => exact ⟨s, rfl⟩
  | operator op => cases op <;> cases h
  | mark m => cases m <;> simp [Begins, Mark.char] at h
  | _ => simp [Begins, isNameStart] at h

theorem Begins.mark {m : Mark} (h : t.Begins m.char) (hm : m ≠ .assign) : t = .mark m := by
  cases m with
  | assign => exact absurd rfl hm
  | _ =>
    cases t with
    | mark m' => cases m' <;> first | rfl | simp [Begins, Mark.char] at h
    | operator op => cases op <;> cases h
    | _ => simp [Begins, isNameStart, Mark.char] at h

theorem not_begins_operator {op : BinaryOp} {cs : List Char} (hcs : t.chars = c :: cs)
    (ht : t.beginsOperator = false) (ha : t ≠ .mark .assign) : ¬ (operator op).Begins c := by
  intro hop
  obtain ⟨d, ds, hd, hb⟩ := t.begins
  obtain rfl : c = d := (List.cons.inj (hcs.symm.trans hd)).1
  cases t with
  | keyword | boolean | name => cases hop.isWord hb
  | number n =>
    have hminus : n.minus = none := by simpa [beginsOperator] using ht
    obtain ⟨e, es, he, hdigit⟩ := n.unsigned_begins
    have hchars : n.chars = e :: es := by simp [Literal.chars, Literal.signChars, hminus, he]
    obtain rfl : c = e := (List.cons.inj (hcs.symm.trans hchars)).1
    have hfirst := hop.digit (by simp)
    simp [hfirst.1, hfirst.2] at hdigit
  | quoted s =>
    obtain rfl : c = '"' := hb
    obtain ⟨s, hs⟩ := hop.quote
    cases hs
  | operator op' => cases ht
  | mark m =>
    obtain rfl : c = m.char := hb
    cases hop.mark fun hm => ha (congrArg Lexeme.mark hm)

/-- A word is found at a token if it is what the token consists of. -/
theorem word_chars {w : String} (hstart : w.toList.head?.any isNameStart = true)
    (hw : w.toList.all isNameChar = true) (h : Ends t tail) :
    Token.word w (t.chars ++ tail) = if t.chars = w.toList then some ((), w.length) else none := by
  rw [Token.word_eq hw]
  by_cases ht : t.isWord = true
  · rw [takeWhile_chars ht h]
  · obtain ⟨c, cs, hcs, hb⟩ := t.begins
    have hc : ¬ (isNameStart c = true) := fun hc => ht (hb.isWord hc)
    rw [hcs, if_neg, if_neg]
    · intro heq
      simp [← heq, hc] at hstart
    · intro heq
      rw [← heq, List.cons_append, List.takeWhile_cons] at hstart
      split at hstart
      · exact hc (by simpa using hstart)
      · cases hstart

/-- A name is found at a word that is not reserved. -/
theorem identifier_chars (h : Ends t tail) :
    Token.identifier (t.chars ++ tail) =
      if t.isWord = true ∧ String.ofList t.chars ∉ Token.keywords then
        some (String.ofList t.chars, t.chars.length)
      else none := by
  obtain ⟨c, cs, hcs, hb⟩ := t.begins
  have hhead : (t.chars ++ tail).head?.any isNameStart = isNameStart c := by simp [hcs]
  rw [Token.identifier, hhead]
  by_cases ht : t.isWord = true
  · have hc : isNameStart c = true := by
      cases t <;> first | exact hb | cases ht
    simp [takeWhile_chars ht h, hc, ht]
  · have hc : isNameStart c = false := by simpa using fun hc => ht (hb.isWord hc)
    simp [hc, ht]

def isReserved : Lexeme → Bool
  | keyword _ | boolean _ => true
  | _ => false

theorem mem_keywords_of_isReserved (ht : t.isReserved = true) :
    String.ofList t.chars ∈ Token.keywords := by
  cases t with
  | keyword k => cases k <;> decide
  | boolean b => cases b <;> decide
  | _ => cases ht

/-- No other token consists of a reserved word. -/
theorem eq_of_chars {u : Lexeme} (hu : u.isReserved = true) (h : t.chars = u.chars) : t = u := by
  have hreserved := mem_keywords_of_isReserved hu
  obtain ⟨c, cs, hcs, hb⟩ := t.begins
  have hc : isNameStart c = true := by
    rw [hcs] at h
    cases u with
    | keyword k => cases k <;> cases h <;> rfl
    | boolean b => cases b <;> cases h <;> rfl
    | _ => cases hu
  have ht := hb.isWord hc
  cases t with
  | name x =>
    rw [← h] at hreserved
    exact absurd (by simpa [chars] using hreserved) x.free
  | keyword k =>
    cases u with
    | keyword k' => cases k <;> cases k' <;> first | rfl | exact absurd h (by decide)
    | boolean b => cases k <;> cases b <;> exact absurd h (by decide)
    | _ => cases hu
  | boolean b =>
    cases u with
    | keyword k => cases k <;> cases b <;> exact absurd h (by decide)
    | boolean b' => cases b <;> cases b' <;> first | rfl | exact absurd h (by decide)
    | _ => cases hu
  | _ => cases ht

end Lexeme

namespace Reader

variable {α β : Type} {p q : Reader α} {x : α} {y : β} {t : Lexeme} {ts us rest : List Lexeme}

/-- The reader finds `x` in the tokens `ts` if `rest` follows. -/
def Takes (p : Reader α) (ts : List Lexeme) (x : α) (rest : List Lexeme) : Prop :=
  ∀ cs, Laid (ts ++ rest) cs → ∃ cs', Laid rest cs' ∧ Reads p cs x cs'

def Declines (p : Reader α) (ts : List Lexeme) : Prop := ∀ cs, Laid ts cs → Refuses p cs

theorem takes_pure : Takes (pure x) [] x rest :=
  fun cs h => ⟨cs, h, reads_pure h.skips⟩

theorem Takes.bind_pure {f : α → Reader β} (h : Takes p ts x rest) (hf : f x = pure y) :
    Takes (p >>= f) ts y rest := by
  intro cs hcs
  obtain ⟨cs', hcs', hp⟩ := h cs hcs
  exact ⟨cs', hcs', hp.bind fun _ hs => hf ▸ reads_pure hs⟩

theorem Takes.map (h : Takes p ts x rest) (f : α → β) :
    Takes (p >>= fun x => pure (f x)) ts (f x) rest :=
  h.bind_pure rfl

theorem Takes.next {f : α → Reader β} (hp : Takes p ts x (us ++ rest))
    (hf : Takes (f x) us y rest) :
    Takes (p >>= fun x => layout >>= fun _ => f x) (ts ++ us) y rest := by
  intro cs hcs
  obtain ⟨mid, hmid, hreads⟩ := hp cs (by rwa [← List.append_assoc])
  obtain ⟨cs', hcs', hreads'⟩ := hf mid hmid
  exact ⟨cs', hcs', hreads.next hreads'⟩

theorem Takes.cons {f : α → Reader β} (hp : ∀ rest, Takes p [t] x rest)
    (hf : Takes (f x) us y rest) :
    Takes (p >>= fun x => layout >>= fun _ => f x) (t :: us) y rest :=
  (hp _).next hf

theorem Takes.next_declines {f : α → Reader β} (hp : Takes p ts x us) (hf : Declines (f x) us) :
    Declines (p >>= fun x => layout >>= fun _ => f x) (ts ++ us) := by
  intro cs hcs
  obtain ⟨mid, hmid, hreads⟩ := hp cs hcs
  exact hreads.next_refuses (hf mid hmid)

theorem Declines.bind (h : Declines p ts) (f : α → Reader β) : Declines (p >>= f) ts :=
  fun cs hcs => (h cs hcs).bind f

theorem Takes.orElse (h : Takes p ts x rest) (q : Reader α) : Takes (p <|> q) ts x rest := by
  intro cs hcs
  obtain ⟨cs', hcs', hp⟩ := h cs hcs
  exact ⟨cs', hcs', hp.orElse q⟩

theorem Declines.orElse_takes (hp : Declines p (ts ++ rest)) (hq : Takes q ts x rest) :
    Takes (p <|> q) ts x rest := by
  intro cs hcs
  obtain ⟨cs', hcs', hreads⟩ := hq cs hcs
  exact ⟨cs', hcs', (hp cs hcs).orElse_reads hreads⟩

theorem Declines.orElse (hp : Declines p ts) (hq : Declines q ts) : Declines (p <|> q) ts :=
  fun cs hcs => (hp cs hcs).orElse (hq cs hcs)

theorem Takes.named (h : Takes p ts x rest) (r : Rule) : Takes (named r p) ts x rest := by
  intro cs hcs
  obtain ⟨cs', hcs', hp⟩ := h cs hcs
  exact ⟨cs', hcs', hp.named r⟩

theorem Declines.named (h : Declines p ts) (r : Rule) : Declines (named r p) ts :=
  fun cs hcs => (h cs hcs).named r

theorem Takes.barred (h : Takes p ts x rest) (r : Rule) : Takes (barred r p) ts x rest := by
  intro cs hcs
  obtain ⟨cs', hcs', hp⟩ := h cs hcs
  exact ⟨cs', hcs', hp.barred r⟩

theorem Declines.barred (h : Declines p ts) (r : Rule) : Declines (barred r p) ts :=
  fun cs hcs => (h cs hcs).barred r

theorem Declines.absent (h : Declines p rest) : Takes (absent p) [] () rest :=
  fun cs hcs => ⟨cs, hcs, (h cs hcs).absent hcs.skips⟩

/-- What must be absent stands before the tokens that are read next. -/
theorem Declines.absent_next {f : Unit → Reader β} (h : Declines p (us ++ rest))
    (hf : Takes (f ()) us y rest) :
    Takes (Reader.absent p >>= fun x => layout >>= fun _ => f x) us y rest :=
  h.absent.next hf

theorem Takes.absent (h : Takes p ts x rest) : Declines (absent p) (ts ++ rest) := by
  intro cs hcs
  obtain ⟨cs', -, hp⟩ := h cs hcs
  exact hp.absent

theorem Takes.maybe (h : Takes p ts x rest) : Takes (maybe p) ts (some x) rest :=
  (h.map some).orElse _

theorem Declines.maybe (h : Declines p rest) : Takes (maybe p) [] none rest :=
  (h.bind _).orElse_takes takes_pure

/-- The reader finds the given items one after the other in the tokens `ts`, and no more in
`rest`. -/
inductive Finds (p : Reader α) (rest : List Lexeme) : List Lexeme → List α → Prop
  | nil : Declines p rest → Finds p rest [] []
  | cons {ts us : List Lexeme} {x : α} {xs : List α} : ts ≠ [] → Takes p ts x (us ++ rest) →
      Finds p rest us xs → Finds p rest (ts ++ us) (x :: xs)

theorem Finds.length_le {xs : List α} (h : Finds p rest ts xs) : xs.length ≤ ts.length := by
  induction h with
  | nil => exact Nat.le_refl _
  | @cons ts us x xs hne _ _ ih =>
    have := List.length_pos_iff.mpr hne
    simp only [List.length_cons, List.length_append]
    omega

theorem Finds.series {xs : List α} (h : Finds p rest ts xs) {cs : List Char}
    (hcs : Laid (ts ++ rest) cs) : ∃ cs', Laid rest cs' ∧ Series p cs xs cs' := by
  induction h generalizing cs with
  | nil hp => exact ⟨cs, hcs, .nil (hp cs hcs) hcs.skips⟩
  | cons _ hp _ ih =>
    obtain ⟨mid, hmid, hreads⟩ := hp cs (by rwa [← List.append_assoc])
    obtain ⟨cs', hcs', hseries⟩ := ih hmid
    exact ⟨cs', hcs', .cons hreads hseries⟩

theorem Finds.spaced {xs : List α} (h : Finds p rest ts xs) {limit : Nat}
    (hl : ts.length ≤ limit) : Takes (spaced limit p) ts xs rest := by
  intro cs hcs
  obtain ⟨cs', hcs', hseries⟩ := h.series hcs
  exact ⟨cs', hcs', hseries.spaced (h.length_le.trans hl)⟩

theorem takes_token {scan : List Char → Option (α × Nat)}
    (h : ∀ tail, Ends t tail → scan (t.chars ++ tail) = some (x, t.chars.length)) :
    Takes (token scan) [t] x rest := by
  intro cs hcs
  obtain ⟨tail, cs', rfl, hends, hskips, hlaid⟩ := hcs.uncons
  exact ⟨cs', hlaid, reads_token (h tail hends) (by rwa [List.drop_left])⟩

theorem declines_token {scan : List Char → Option (α × Nat)} (hnil : scan [] = none)
    (h : ∀ t ∈ ts.head?, ∀ tail, Ends t tail → scan (t.chars ++ tail) = none) :
    Declines (token scan) ts := by
  intro cs hcs
  cases ts with
  | nil =>
    cases hcs.spells
    exact refuses_token hnil
  | cons t ts =>
    obtain ⟨tail, cs', rfl, hends, -, -⟩ := hcs.uncons
    exact refuses_token (h t rfl tail hends)

theorem takes_name {x : Identifier} : Takes Grammar.name [.name x] x.text rest := by
  refine Takes.named (takes_token fun tail h => ?_) _
  have hfree : String.ofList (Lexeme.name x).chars ∉ Token.keywords := by
    simpa [Lexeme.chars] using x.free
  rw [Lexeme.identifier_chars h, if_pos ⟨rfl, hfree⟩]
  simp [Lexeme.chars]

theorem declines_name (h : ∀ x, ts.head? ≠ some (.name x)) : Declines Grammar.name ts := by
  refine Declines.named (declines_token rfl fun t ht tail hends => ?_) _
  rw [Lexeme.identifier_chars hends, if_neg]
  rintro ⟨hword, hfree⟩
  cases t with
  | name x => exact h x ht
  | keyword | boolean => exact hfree (Lexeme.mem_keywords_of_isReserved rfl)
  | _ => cases hword

theorem takes_keyword {r : Rule} (k : Keyword) :
    Takes (Grammar.keyword r k.text) [.keyword k] () rest := by
  refine Takes.named (takes_token fun tail h => ?_) _
  rw [Lexeme.word_chars (by cases k <;> rfl) (by cases k <;> rfl) h, Lexeme.chars, if_pos rfl,
    String.length_toList]

theorem declines_keyword {r : Rule} (k : Keyword) (h : ts.head? ≠ some (.keyword k)) :
    Declines (Grammar.keyword r k.text) ts := by
  refine Declines.named (declines_token (by cases k <;> rfl) fun t ht tail hends => ?_) _
  rw [Lexeme.word_chars (by cases k <;> rfl) (by cases k <;> rfl) hends, if_neg]
  intro heq
  obtain rfl : t = .keyword k := Lexeme.eq_of_chars rfl heq
  exact h ht

theorem boolean_chars {tail : List Char} (h : Ends t tail) :
    Token.boolean (t.chars ++ tail) =
      if t.chars = (Lexeme.boolean true).chars then some (true, 4)
      else if t.chars = (Lexeme.boolean false).chars then some (false, 5) else none := by
  rw [Token.boolean, Lexeme.word_chars rfl rfl h, Lexeme.word_chars rfl rfl h]
  change _ = if t.chars = "true".toList then some (true, 4)
    else if t.chars = "false".toList then some (false, 5) else none
  split_ifs <;> rfl

theorem takes_boolean {b : Bool} : Takes (token Token.boolean) [.boolean b] b rest := by
  refine takes_token fun tail h => ?_
  rw [boolean_chars h]
  cases b <;> rfl

theorem declines_boolean (h : ∀ b, ts.head? ≠ some (.boolean b)) :
    Declines (token Token.boolean) ts := by
  refine declines_token rfl fun t ht tail hends => ?_
  have hne (b : Bool) : t.chars ≠ (Lexeme.boolean b).chars := fun heq =>
    h b (ht.trans (congrArg some (Lexeme.eq_of_chars rfl heq)))
  rw [boolean_chars hends, if_neg (hne true), if_neg (hne false)]

theorem takes_number {n : Literal} : Takes (token Token.number) [.number n] n.value rest :=
  takes_token fun _ h => Token.number_append n (h.number n rfl)

theorem declines_number (hn : ∀ n, ts.head? ≠ some (.number n))
    (hop : ∀ op, ts.head? ≠ some (.operator op)) : Declines (token Token.number) ts := by
  refine declines_token rfl fun t ht tail hends => ?_
  rw [Option.mem_def] at ht
  obtain ⟨c, cs, hcs, hb⟩ := t.begins
  obtain ⟨hdigit, hpoint⟩ := hb.digit fun n hn' => hn n (hn' ▸ ht)
  obtain ⟨hplus, hminus⟩ := hb.sign (fun n hn' => hn n (hn' ▸ ht)) fun op hop' => hop op (hop' ▸ ht)
  simp [hcs, Token.number, Token.numeral, hplus, hminus, Token.unsigned, hdigit, hpoint]

theorem takes_quoted {s : Quotable} : Takes (token Token.text) [.quoted s] s.text rest := by
  refine takes_token fun tail h => ?_
  have htake : (s.text.toList ++ '"' :: tail).takeWhile (fun c => !decide (c = '"')) =
      s.text.toList :=
    takeWhile_append (by simpa using fun c hc => ne_of_mem_of_not_mem hc s.plain) (by simp)
  simp [Lexeme.chars, Token.text, htake]

theorem declines_quoted (h : ∀ s, ts.head? ≠ some (.quoted s)) :
    Declines (token Token.text) ts := by
  refine declines_token rfl fun t ht tail hends => ?_
  obtain ⟨c, cs, hcs, hb⟩ := t.begins
  have hc : c ≠ '"' := by
    rintro rfl
    obtain ⟨s, rfl⟩ := hb.quote
    exact h s ht
  simp [hcs, Token.text, hc]

theorem takes_mark (m : Mark) {s : String} (hs : s.toList = [m.char]) :
    Takes (symbol s) [.mark m] () rest := by
  refine takes_token fun tail h => ?_
  rw [if_pos, ← String.length_toList, hs]
  · rfl
  · simp [Lexeme.chars, hs]

theorem declines_symbol {s : String} (hs : s.toList.isPrefixOf [] = false)
    (h : ∀ t ∈ ts.head?, ∀ tail, Ends t tail → s.toList.isPrefixOf (t.chars ++ tail) = false) :
    Declines (symbol s) ts :=
  declines_token (by simp [hs]) fun t ht tail hends => by simp [h t ht tail hends]

theorem declines_mark {m : Mark} (hm : m ≠ .assign) {s : String} (hs : s.toList = [m.char])
    (h : ts.head? ≠ some (.mark m)) : Declines (symbol s) ts := by
  refine declines_symbol (by simp [hs]) fun t ht tail _ => ?_
  obtain ⟨c, cs, hcs, hb⟩ := t.begins
  have hc : m.char ≠ c := by
    rintro rfl
    obtain rfl := hb.mark hm
    exact h ht
  simp [hcs, hs, List.isPrefixOf, hc]

variable {op : BinaryOp} {ops : List BinaryOp}

theorem symbol_chars (op : BinaryOp) : ∃ c, op.symbol.toList = [c] ∨ op.symbol.toList = [c, '='] := by
  cases op <;> first | exact ⟨_, .inl rfl⟩ | exact ⟨_, .inr rfl⟩

/-- Whether an operator is found at another one does not depend on what follows. -/
theorem isPrefixOf_symbol (op' op : BinaryOp) {tail : List Char} (ht : ∀ c ∈ tail.head?, c ≠ '=') :
    op'.symbol.toList.isPrefixOf (op.symbol.toList ++ tail) =
      op'.symbol.toList.isPrefixOf op.symbol.toList := by
  obtain ⟨c', h' | h'⟩ := symbol_chars op' <;> obtain ⟨c, h | h⟩ := symbol_chars op
  · simp [h, h', List.isPrefixOf]
  · simp [h, h', List.isPrefixOf]
  · cases tail with
    | nil => simp [h, h', List.isPrefixOf]
    | cons d tail => simp [h, h', List.isPrefixOf, (ht d rfl).symm]
  · simp [h, h', List.isPrefixOf]

theorem declines_symbol_operator {op' : BinaryOp}
    (h : op'.symbol.toList.isPrefixOf op.symbol.toList = false) :
    Declines (symbol op'.symbol) (.operator op :: ts) := by
  refine declines_symbol (by cases op' <;> rfl) fun t ht tail hends => ?_
  obtain rfl := Option.some.inj ht
  rw [Lexeme.chars, isPrefixOf_symbol op' op (hends.operator (.inl ⟨op, rfl⟩)), h]

theorem takes_operator (h : ops.find? (·.symbol.toList.isPrefixOf op.symbol.toList) = some op) :
    Takes (Grammar.operator ops) [.operator op] op rest := by
  induction ops with
  | nil => cases h
  | cons op' ops ih =>
    rw [List.find?_cons] at h
    split at h
    · obtain rfl := Option.some.inj h
      refine Takes.orElse (Takes.map (takes_token (x := ()) fun tail hends => ?_) _) _
      simp [Lexeme.chars, String.length_toList]
    · next hp =>
      exact ((declines_symbol_operator hp).bind _).orElse_takes (ih h)

/-- No operator is found at a token that does not begin like one. -/
theorem isPrefixOf_symbol_of_begins (ht : t.beginsOperator = false) {tail : List Char}
    (h : Ends t tail) (op : BinaryOp) : op.symbol.toList.isPrefixOf (t.chars ++ tail) = false := by
  by_cases ha : t = .mark .assign
  · subst ha
    have htail := h.operator (.inr rfl)
    cases tail with
    | nil => cases op <;> rfl
    | cons d tail =>
      have hd : d ≠ '=' := htail d rfl
      cases op <;> simp [BinaryOp.symbol, Lexeme.chars, Mark.char, List.isPrefixOf, hd.symm]
  · obtain ⟨c, cs, hcs, -⟩ := t.begins
    obtain ⟨d, ds, hds, hd⟩ := (Lexeme.operator op).begins
    have hc : d ≠ c := by
      rintro rfl
      exact Lexeme.not_begins_operator hcs ht ha hd
    simp [show op.symbol.toList = d :: ds from hds, hcs, List.isPrefixOf, hc]

/-- Operators are found neither at other operators nor where no operator begins. -/
theorem declines_operator
    (h : ∀ t ∈ ts.head?, t.beginsOperator = false ∨ ∃ op, t = .operator op ∧
      ops.all (!·.symbol.toList.isPrefixOf op.symbol.toList) = true) :
    Declines (Grammar.operator ops) ts := by
  induction ops with
  | nil => exact fun _ _ => refuses_fail
  | cons op' ops ih =>
    refine Declines.orElse (Declines.bind ?_ _) (ih fun t ht => ?_)
    · cases ts with
      | nil => exact declines_symbol (by cases op' <;> rfl) (by simp)
      | cons t ts =>
        obtain hbegins | ⟨op, rfl, hop⟩ := h t rfl
        · refine declines_symbol (by cases op' <;> rfl) fun u hu tail hends => ?_
          obtain rfl := Option.some.inj hu
          exact isPrefixOf_symbol_of_begins hbegins hends op'
        · exact declines_symbol_operator (by simpa using (List.all_eq_true.mp hop) op' (by simp))
    · obtain hbegins | ⟨op, rfl, hop⟩ := h t ht
      · exact .inl hbegins
      · exact .inr ⟨op, rfl, by simpa using And.right (by simpa using hop)⟩

end Reader
end Scriptlet
