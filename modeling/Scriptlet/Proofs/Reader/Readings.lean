import Scriptlet.Reader.Layout

/-! What readers do with a text, whatever the position and the attempts before. -/
namespace Scriptlet

namespace Layout

/-- Blanks and comments between tokens. The flag says that the text ends here, so that the last
comment may do without a line end. -/
inductive Gap (last : Bool) : List Char → Prop
  | nil : Gap last []
  | blank {c : Char} {cs : List Char} : isBlank c = true → Gap last cs → Gap last (c :: cs)
  | line {body cs : List Char} : '\n' ∉ body → Gap last cs →
      Gap last ('/' :: '/' :: (body ++ '\n' :: cs))
  | block {body cs : List Char} : ¬ ['*', '/'] <:+: body → Gap last cs →
      Gap last ('/' :: '*' :: (body ++ '*' :: '/' :: cs))
  | lastLine {body : List Char} : last = true → '\n' ∉ body → Gap last ('/' :: '/' :: body)

variable {c : Char} {cs rest body gap : List Char} {last : Bool}

/-- Behind the layout at the head of `cs` comes `rest`. -/
def Skips (cs rest : List Char) : Prop := ∀ pos, ∃ pos', skip pos cs = ⟨rest, pos'⟩

theorem isBlank_iff : isBlank c = true ↔ c = ' ' ∨ c = '\t' ∨ c = '\r' ∨ c = '\n' := by
  simp [isBlank, or_assoc]

theorem skip_blank (h : isBlank c = true) (pos : Nat) : skip pos (c :: cs) = skip (pos + 1) cs := by
  rcases isBlank_iff.mp h with rfl | rfl | rfl | rfl <;> simp [skip, isBlank]

theorem skips_nil : Skips [] [] := fun pos => ⟨pos, by rw [skip]⟩

theorem skips_cons (hb : isBlank c = false) (hc : c ≠ '/') : Skips (c :: cs) (c :: cs) := by
  intro pos
  exact ⟨pos, by rw [skip] <;> simp [hb, hc]⟩

/-- A slash that begins no comment. -/
theorem skips_slash (h : ∀ d ∈ cs.head?, d ≠ '/' ∧ d ≠ '*') : Skips ('/' :: cs) ('/' :: cs) := by
  intro pos
  refine ⟨pos, ?_⟩
  cases cs with
  | nil => simp [skip, isBlank]
  | cons d cs =>
    obtain ⟨h₁, h₂⟩ := h d rfl
    rw [skip] <;> simp [isBlank, h₁, h₂]

theorem skipLine_append (h : '\n' ∉ body) (cs : List Char) (pos : Nat) :
    ∃ pos', skipLine pos (body ++ cs) = skipLine pos' cs := by
  induction body generalizing pos with
  | nil => exact ⟨pos, rfl⟩
  | cons c body ih =>
    obtain ⟨hc, hbody⟩ : c ≠ '\n' ∧ '\n' ∉ body := by simpa [eq_comm] using h
    obtain ⟨pos', hpos'⟩ := ih hbody (pos + 1)
    exact ⟨pos', by rw [List.cons_append, skipLine, if_neg hc, hpos']⟩

theorem skipBlock_append (h : ¬ ['*', '/'] <:+: body) (cs : List Char) (opening : Cursor)
    (pos : Nat) :
    ∃ pos', skipBlock opening pos (body ++ '*' :: '/' :: cs) = skip pos' cs := by
  induction body generalizing pos with
  | nil => exact ⟨pos + 2, by rw [List.nil_append, skipBlock]⟩
  | cons c body ih =>
    obtain ⟨pos', hpos'⟩ := ih (fun hb => h (hb.trans (List.suffix_cons c body).isInfix)) (pos + 1)
    refine ⟨pos', ?_⟩
    rw [List.cons_append, skipBlock, hpos']
    -- the first two characters do not close the comment
    rintro ds rfl hds
    cases body with
    | nil => simp at hds
    | cons d body =>
      obtain rfl : d = '/' := by simpa using congrArg List.head? hds
      exact h ⟨[], body, rfl⟩

/-- A gap is passed over. -/
theorem Gap.skips (h : Gap last gap) (hcs : Skips cs rest) (hend : last = true → cs = []) :
    Skips (gap ++ cs) rest := by
  induction h with
  | nil => exact hcs
  | blank hc _ ih =>
    intro pos
    obtain ⟨pos', hpos'⟩ := ih (pos + 1)
    exact ⟨pos', by rw [List.cons_append, skip_blank hc, hpos']⟩
  | @line body gap hbody _ ih =>
    intro pos
    obtain ⟨pos₁, h₁⟩ := skipLine_append hbody ('\n' :: (gap ++ cs)) (pos + 2)
    obtain ⟨pos', hpos'⟩ := ih (pos₁ + 1)
    exact ⟨pos', by simp [skip, h₁, skipLine, hpos']⟩
  | @block body gap hbody _ ih =>
    intro pos
    obtain ⟨pos₁, h₁⟩ := skipBlock_append hbody (gap ++ cs)
      ⟨'/' :: '*' :: (body ++ '*' :: '/' :: (gap ++ cs)), pos⟩ (pos + 2)
    obtain ⟨pos', hpos'⟩ := ih pos₁
    exact ⟨pos', by simp [skip, h₁, hpos']⟩
  | @lastLine body hlast hbody =>
    obtain rfl := hend hlast
    intro pos
    obtain ⟨pos₁, h₁⟩ := skipLine_append hbody [] (pos + 2)
    obtain ⟨pos', hpos'⟩ := hcs pos₁
    rw [List.append_nil] at h₁ ⊢
    exact ⟨pos', by simpa [skip, h₁, skipLine] using hpos'⟩

end Layout

namespace Reader

open Layout

variable {α β : Type} {p q : Reader α} {x : α} {y : β} {cs mid rest : List Char}

/-- The reader finds `x` at the head of `cs`, and `rest` comes behind the layout that follows. -/
def Reads (p : Reader α) (cs : List Char) (x : α) (rest : List Char) : Prop :=
  ∀ pos a, ∃ mid pos' a', p ⟨cs, pos⟩ a = (some (x, ⟨mid, pos'⟩), a') ∧ Skips mid rest

def Refuses (p : Reader α) (cs : List Char) : Prop :=
  ∀ pos a, ∃ a', p ⟨cs, pos⟩ a = (none, a')

theorem reads_pure (h : Skips cs rest) : Reads (pure x) cs x rest :=
  fun pos a => ⟨cs, pos, a, rfl, h⟩

theorem refuses_fail : Refuses (fail : Reader α) cs := fun _ a => ⟨a, rfl⟩

/-- Two readers one after the other, where the second may begin before the layout. -/
theorem Reads.bind {f : α → Reader β} (hp : Reads p cs x mid)
    (hf : ∀ cs', Skips cs' mid → Reads (f x) cs' y rest) : Reads (p >>= f) cs y rest := by
  intro pos a
  obtain ⟨cs₁, pos₁, a₁, h₁, hs⟩ := hp pos a
  obtain ⟨cs₂, pos₂, a₂, h₂, hrest⟩ := hf cs₁ hs pos₁ a₁
  exact ⟨cs₂, pos₂, a₂, by simp only [Bind.bind, h₁, h₂], hrest⟩

theorem Reads.bind_refuses {f : α → Reader β} (hp : Reads p cs x mid)
    (hf : ∀ cs', Skips cs' mid → Refuses (f x) cs') : Refuses (p >>= f) cs := by
  intro pos a
  obtain ⟨cs₁, pos₁, a₁, h₁, hs⟩ := hp pos a
  obtain ⟨a₂, h₂⟩ := hf cs₁ hs pos₁ a₁
  exact ⟨a₂, by simp only [Bind.bind, h₁, h₂]⟩

theorem Refuses.bind (h : Refuses p cs) (f : α → Reader β) : Refuses (p >>= f) cs := by
  intro pos a
  obtain ⟨a', hp⟩ := h pos a
  exact ⟨a', by simp only [Bind.bind, hp]⟩

theorem layout_reads (hs : Skips cs mid) (h : Reads p mid x rest) :
    Reads (layout >>= fun _ => p) cs x rest := by
  intro pos a
  obtain ⟨pos₁, h₁⟩ := hs pos
  obtain ⟨cs₂, pos₂, a₂, h₂, hrest⟩ := h pos₁ a
  exact ⟨cs₂, pos₂, a₂, by simp only [Bind.bind, layout, h₁, h₂], hrest⟩

theorem layout_refuses (hs : Skips cs mid) (h : Refuses p mid) :
    Refuses (layout >>= fun _ => p) cs := by
  intro pos a
  obtain ⟨pos₁, h₁⟩ := hs pos
  obtain ⟨a₂, h₂⟩ := h pos₁ a
  exact ⟨a₂, by simp only [Bind.bind, layout, h₁, h₂]⟩

theorem Reads.map (h : Reads p cs x rest) (f : α → β) :
    Reads (p >>= fun x => pure (f x)) cs (f x) rest :=
  h.bind fun _ => reads_pure

/-- Two readers one after the other, with layout between. -/
theorem Reads.next {f : α → Reader β} (hp : Reads p cs x mid) (hf : Reads (f x) mid y rest) :
    Reads (p >>= fun x => layout >>= fun _ => f x) cs y rest :=
  hp.bind fun _ hs => layout_reads hs hf

theorem Reads.next_refuses {f : α → Reader β} (hp : Reads p cs x mid) (hf : Refuses (f x) mid) :
    Refuses (p >>= fun x => layout >>= fun _ => f x) cs :=
  hp.bind_refuses fun _ hs => layout_refuses hs hf

theorem Reads.orElse (h : Reads p cs x rest) (q : Reader α) : Reads (p <|> q) cs x rest := by
  intro pos a
  obtain ⟨mid, pos', a', hp, hmid⟩ := h pos a
  exact ⟨mid, pos', a', by simp only [HOrElse.hOrElse, OrElse.orElse, Reader.orElse, hp], hmid⟩

theorem Refuses.orElse_reads (hp : Refuses p cs) (hq : Reads q cs x rest) :
    Reads (p <|> q) cs x rest := by
  intro pos a
  obtain ⟨a', hp⟩ := hp pos a
  obtain ⟨mid, pos', a'', hq, hmid⟩ := hq pos a'
  exact ⟨mid, pos', a'', by simp only [HOrElse.hOrElse, OrElse.orElse, Reader.orElse, hp, hq], hmid⟩

theorem Refuses.orElse (hp : Refuses p cs) (hq : Refuses q cs) : Refuses (p <|> q) cs := by
  intro pos a
  obtain ⟨a', hp⟩ := hp pos a
  obtain ⟨a'', hq⟩ := hq pos a'
  exact ⟨a'', by simp only [HOrElse.hOrElse, OrElse.orElse, Reader.orElse, hp, hq]⟩

theorem Reads.named (h : Reads p cs x rest) (r : Rule) : Reads (named r p) cs x rest := by
  intro pos a
  obtain ⟨mid, pos', a', hp, hmid⟩ := h pos a
  exact ⟨mid, pos', a', by simp only [Reader.named, hp], hmid⟩

theorem Refuses.named (h : Refuses p cs) (r : Rule) : Refuses (named r p) cs := by
  intro pos a
  obtain ⟨a', hp⟩ := h pos a
  exact ⟨_, by simp only [Reader.named, hp]; rfl⟩

theorem Reads.barred (h : Reads p cs x rest) (r : Rule) : Reads (barred r p) cs x rest := by
  intro pos a
  obtain ⟨mid, pos', a', hp, hmid⟩ := h pos a
  exact ⟨mid, pos', _, by simp only [Reader.barred, hp]; rfl, hmid⟩

theorem Refuses.barred (h : Refuses p cs) (r : Rule) : Refuses (barred r p) cs := by
  intro pos a
  obtain ⟨a', hp⟩ := h pos a
  exact ⟨_, by simp only [Reader.barred, hp]; rfl⟩

theorem Refuses.absent (h : Refuses p cs) (hs : Skips cs rest) : Reads (absent p) cs () rest := by
  intro pos a
  obtain ⟨a', hp⟩ := h pos a
  exact ⟨cs, pos, a', by simp only [Reader.absent, hp], hs⟩

theorem Reads.absent (h : Reads p cs x rest) : Refuses (absent p) cs := by
  intro pos a
  obtain ⟨mid, pos', a', hp, -⟩ := h pos a
  exact ⟨a', by simp only [Reader.absent, hp]⟩

theorem reads_token {scan : List Char → Option (α × Nat)} {n : Nat} (h : scan cs = some (x, n))
    (hs : Skips (cs.drop n) rest) : Reads (token scan) cs x rest :=
  fun pos a => ⟨cs.drop n, pos + n, a, by simp only [token, h, Cursor.advance], hs⟩

theorem refuses_token {scan : List Char → Option (α × Nat)} (h : scan cs = none) :
    Refuses (token scan) cs :=
  fun pos a => ⟨a, by simp only [token, h]⟩

/-- The reader finds the given items one after the other, with layout between, and no more. -/
inductive Series (p : Reader α) : List Char → List α → List Char → Prop
  | nil {cs : List Char} : Refuses p cs → Skips cs cs → Series p cs [] cs
  | cons {cs mid rest : List Char} {x : α} {xs : List α} : Reads p cs x mid →
      Series p mid xs rest → Series p cs (x :: xs) rest

theorem Series.repeated {xs : List α} (h : Series p mid xs rest) (hs : Skips cs mid) {limit : Nat}
    (hl : xs.length ≤ limit) : Reads (repeated (layout >>= fun _ => p) limit) cs xs rest := by
  induction h generalizing cs limit with
  | nil hp _ =>
    cases limit with
    | zero => exact reads_pure hs
    | succ limit => exact ((layout_refuses hs hp).bind _).orElse_reads (reads_pure hs)
  | cons hp _ ih =>
    obtain ⟨limit, rfl⟩ : ∃ n, limit = n + 1 := ⟨limit - 1, by simp at hl; omega⟩
    exact ((layout_reads hs hp).bind fun _ hs' => (ih hs' (by simpa using hl)).map _).orElse _

theorem Series.spaced {xs : List α} (h : Series p cs xs rest) {limit : Nat}
    (hl : xs.length ≤ limit) : Reads (spaced limit p) cs xs rest := by
  cases h with
  | nil hp hs => exact (hp.bind _).orElse_reads (reads_pure hs)
  | cons hp h =>
    exact (hp.bind fun _ hs => (h.repeated hs (by simp at hl; omega)).map _).orElse _

end Reader
end Scriptlet
