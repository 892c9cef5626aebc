import Scriptlet.Proofs.Prompt.Brackets
import Scriptlet.Proofs.Session.Parts

/-! Scripts that are entered line by line. -/
namespace Scriptlet

namespace Text

variable {c : Char}

/-- The text cut at its line feeds. -/
def linesOf (source : String) : List String := (source.toList.splitOn '\n').map String.ofList

theorem unlines_eq {lines : List String} (h : lines ≠ []) :
    unlines lines = "\n".intercalate lines ++ "\n" := by
  induction lines with
  | nil => exact absurd rfl h
  | cons line lines ih =>
    cases lines with
    | nil => simp [unlines]
    | cons line' lines =>
      rw [unlines, ih (by simp), String.intercalate_cons_cons]
      simp [String.append_assoc]

theorem unlines_linesOf (source : String) : unlines (linesOf source) = source ++ "\n" := by
  have hlines : linesOf source ≠ [] := by simp [linesOf, List.splitOn_ne_nil]
  have hjoined : "\n".intercalate (linesOf source) = source := by
    apply String.toList_injective
    rw [String.toList_intercalate, linesOf, List.map_map]
    have hid : String.toList ∘ String.ofList = id := by
      funext cs
      exact String.toList_ofList
    rw [hid, List.map_id]
    exact List.intercalate_splitOn '\n'
  rw [unlines_eq hlines, hjoined]

/-- Between the space and the delete character there is no white space. -/
theorem isBlank_eq_false (h : 32 < c.toNat) (h' : c.toNat < 127) : isBlank c = false := by
  have hblanks : ∀ n ∈ blanks, n ≤ 32 ∨ 127 ≤ n := by decide
  by_contra hc
  have hmem : c.toNat ∈ blanks := by simpa [isBlank] using hc
  have hrange := hblanks c.toNat hmem
  omega

end Text

/-- No token begins with white space. -/
theorem Lexeme.Begins.not_white {t : Lexeme} {c : Char} (h : t.Begins c) :
    Text.isBlank c = false := by
  cases t with
  | keyword | boolean | name =>
    rcases Token.isNameStart_iff.mp h with h | rfl
    · simp [Char.isAlpha, Char.isUpper, Char.isLower, UInt32.le_iff_toNat_le] at h
      exact Text.isBlank_eq_false (by omega) (by omega)
    · rfl
  | number n =>
    rcases h with h | rfl | rfl | rfl
    · simp [Char.isDigit, UInt32.le_iff_toNat_le] at h
      exact Text.isBlank_eq_false (by omega) (by omega)
    · rfl
    · rfl
    · rfl
  | quoted s =>
    obtain rfl : c = '"' := h
    rfl
  | operator op => simpa using h.of_symbol (P := fun c => !Text.isBlank c) (by rintro ⟨⟩ <;> rfl)
  | mark m =>
    obtain rfl : c = m.char := h
    cases m <;> rfl

/-- A script of nothing but white space is empty. -/
theorem Program.body_of_isAllBlank {p : Program} {source : String} (h : parse source = .ok p)
    (hblank : Text.isAllBlank source = true) : p.body = [] := by
  obtain ⟨ts, hcomposed, gap, cs, -, hsource, hspells⟩ := parse_eq_ok_iff_spelled.mp h
  cases hbody : p.body with
  | nil => rfl
  | cons s ss =>
    rw [hbody] at hcomposed
    obtain ⟨t, ht, -⟩ := hcomposed.block_head
    cases hspells with
    | nil => cases ht
    | @cons t' ts gap' cs' _ _ _ =>
      obtain ⟨c, ds, hd, hbegins⟩ := t'.begins
      have hmem : c ∈ source.toList := by simp [hsource, hd]
      have hwhite := List.all_eq_true.mp hblank c hmem
      rw [hbegins.not_white] at hwhite
      cases hwhite

namespace Prompt

variable {fuel : Nat} {q : Prompt} {line : String} {lines : List String}

/-- The prompt after several lines. -/
def feedAll (fuel : Nat) (q : Prompt) (lines : List String) : Prompt :=
  lines.foldl (fun q line => (q.feed fuel line).2) q

theorem capacity_feed (q : Prompt) (fuel : Nat) (line : String) :
    (q.feed fuel line).2.session.output.capacity = q.session.output.capacity := by
  have h := q.fed fuel line
  generalize q.feed fuel line = r at h
  cases h with
  | waits => rfl
  | blank => rfl
  | @ran result s₁ s₂ ok _ hrun hprint =>
    have hcapacity := q.session.capacity_run fuel (q.pending ++ line ++ "\n")
    have hprinted := s₁.capacity_print (outcome result)
    rw [hrun] at hcapacity
    rw [hprint] at hprinted
    exact hprinted.trans hcapacity

theorem capacity_feedAll (q : Prompt) (fuel : Nat) (lines : List String) :
    (q.feedAll fuel lines).session.output.capacity = q.session.output.capacity := by
  induction lines generalizing q with
  | nil => rfl
  | cons line lines ih => exact (ih _).trans (q.capacity_feed fuel line)

/-- Where everything can be printed, every line is taken. -/
theorem feed_printable (h : q.session.output.capacity = none) :
    (q.feed fuel line).1 ≠ .unprintable := by
  have hfed := q.fed fuel line
  generalize q.feed fuel line = r at hfed
  cases hfed with
  | waits => nofun
  | blank => nofun
  | @ran result s₁ s₂ ok _ hrun hprint =>
    have hcapacity := q.session.capacity_run fuel (q.pending ++ line ++ "\n")
    rw [hrun] at hcapacity
    have hok := Session.print_of_unlimited (hcapacity.trans h) (outcome result)
    rw [hprint] at hok
    obtain rfl : ok = true := hok
    nofun

/-- While brackets are open nothing happens in the session. -/
theorem session_of_incomplete (h : (q.feed fuel line).1 = .incomplete) :
    (q.feed fuel line).2.session = q.session := by
  have hfed := q.fed fuel line
  generalize q.feed fuel line = r at h hfed
  cases hfed with
  | waits => rfl
  | blank => rfl
  | ran ok => cases ok <;> cases h

/-- The lines that wait, and the next line below them. -/
def below (held : Option String) (line : String) : String := held.elim line (· ++ "\n" ++ line)

/-- The groups of lines that are run together. A group ends where no bracket is open. -/
def chunks : Option String → List String → List String
  | held, [] => held.toList
  | held, line :: lines =>
    if 0 < Brackets.depth (below held line ++ "\n") then chunks (some (below held line)) lines
    else below held line :: chunks none lines

theorem below_newline (held : Option String) (line : String) :
    below held line ++ "\n" = Text.unlines held.toList ++ line ++ "\n" := by
  cases held with
  | none => simp [below, Text.unlines]
  | some text => simp [below, Text.unlines]

/-- No line is lost. -/
theorem unlines_chunks (held : Option String) (lines : List String) :
    Text.unlines (chunks held lines) = Text.unlines held.toList ++ Text.unlines lines := by
  induction lines generalizing held with
  | nil => simp [chunks, Text.unlines]
  | cons line lines ih =>
    have hline : Text.unlines held.toList ++ Text.unlines (line :: lines) =
        below held line ++ "\n" ++ Text.unlines lines := by
      simp only [below_newline, Text.unlines, String.append_assoc]
    rw [hline, chunks]
    split
    · rw [ih]
      simp [Text.unlines]
    · rw [Text.unlines, ih]
      simp [Text.unlines]

open Session (Performs Resting)

variable {s s₁ t : Session} {p : Program} {held : Option String}

/-- A complete entry is run, and nothing is printed about it. -/
theorem feed_entry (hs : s.Resting) (hp : Program.parse (below held line) = .ok p)
    (hrun : s.runProgram fuel p = (.ok .undefined, s₁)) :
    (feed fuel ⟨s, Text.unlines held.toList⟩ line).2 = ⟨s₁, ""⟩ := by
  have hparse : Program.parse (Text.unlines held.toList ++ line ++ "\n") = .ok p := by
    rw [← below_newline]
    exact Program.parse_newline hp
  have hclosed : ¬ 0 < Brackets.depth (Text.unlines held.toList ++ line ++ "\n") := by
    rw [Brackets.depth_of_parse hparse]
    exact lt_irrefl 0
  have hfed := fed fuel ⟨s, Text.unlines held.toList⟩ line
  generalize feed fuel ⟨s, Text.unlines held.toList⟩ line = r at hfed
  cases hfed with
  | waits hopen => exact absurd hopen hclosed
  | blank _ hblank =>
    have hbody := Program.body_of_isAllBlank hparse hblank
    obtain rfl : p = ⟨[]⟩ := by rw [← hbody]
    rw [hs.eq_of_empty hrun]
  | @ran result s₂ s₃ ok _ hentry hprint =>
    rw [Session.run_of_parse hparse, hrun] at hentry
    obtain ⟨rfl, rfl⟩ := Prod.mk.inj hentry
    have hnothing : s₁.print (outcome (.ok .undefined)) = (true, s₁) :=
      Session.print_nothing (hs.runProgram hrun).sink
    obtain rfl : s₁ = s₃ := (Prod.mk.inj (hnothing.symm.trans hprint)).2
    rfl

/-- Entering the lines of several scripts runs the scripts one after the other. -/
theorem feedAll_performs {ps : List Program} (hs : s.Resting)
    (hparse : List.Forall₂ (fun chunk p => Program.parse chunk = .ok p) (chunks held lines) ps)
    (hheld : ∀ text ∈ held, 0 < Brackets.depth (text ++ "\n")) (h : Performs fuel s ps t) :
    feedAll fuel ⟨s, Text.unlines held.toList⟩ lines = ⟨t, ""⟩ := by
  induction lines generalizing s held ps with
  | nil =>
    cases held with
    | none =>
      cases hparse
      cases h
      rfl
    | some text =>
      -- an accepted chunk has no open brackets, so that it is not left waiting
      cases hparse with
      | cons hp _ =>
        have hopen := hheld text rfl
        rw [Brackets.depth_of_parse (Program.parse_newline hp)] at hopen
        exact absurd hopen (lt_irrefl 0)
  | cons line lines ih =>
    rw [chunks] at hparse
    rw [feedAll, List.foldl_cons]
    split at hparse
    · next hopen =>
      have hfeed : (feed fuel ⟨s, Text.unlines held.toList⟩ line).2 =
          ⟨s, Text.unlines (some (below held line)).toList⟩ := by
        rw [below_newline] at hopen
        simp [feed, hopen, below_newline, Text.unlines]
      rw [hfeed]
      refine ih hs hparse ?_ h
      rintro text ⟨⟩
      exact hopen
    · cases hparse with
      | cons hp hrest =>
        cases h with
        | cons hrun hperforms =>
          rw [feed_entry hs hp hrun]
          exact ih (hs.runProgram hrun) hrest (by simp) hperforms

/-- Entering a script line by line is the same as running it. It must come to its end, each chunk of
lines must be a script of its own, and no chunk may end with a definition that the text below it
calls or operates on. Then the prompt prints the same, has the same variables and waits for nothing;
and as long as it waits nothing is printed and no variable changes. -/
theorem lines_run_alike (limits : Limits) (output : Output) (source : String) {v : Value}
    {s' : Session} (hdebug : limits.debug = false) (hsink : output.capacity = none)
    (hparse : Program.parse source = .ok p)
    (hchunks : ∀ chunk ∈ chunks none (Text.linesOf source), ∃ r, Program.parse chunk = .ok r)
    (hapart : Program.Apart (chunks none (Text.linesOf source)))
    (hrun : (Session.start limits output).run fuel source = (.ok v, s'))
    (hret : (Session.start limits output).NeverReturns p) :
    ((start limits output).feedAll fuel (Text.linesOf source)).session.output = s'.output ∧
    ((start limits output).feedAll fuel (Text.linesOf source)).session.globals = s'.globals ∧
    ((start limits output).feedAll fuel (Text.linesOf source)).isPending = false ∧
    ∀ before line, before ++ [line] <+: Text.linesOf source →
      let q := (start limits output).feedAll fuel before
      (q.feed fuel line).1 ≠ .unprintable ∧
      ((q.feed fuel line).1 = .incomplete →
        (q.feed fuel line).2.session.output = q.session.output ∧
        (q.feed fuel line).2.session.globals = q.session.globals) := by
  obtain ⟨ps, hps⟩ : ∃ ps, List.Forall₂ (fun chunk p => Program.parse chunk = .ok p)
      (chunks none (Text.linesOf source)) ps := by
    have : Inhabited Program := ⟨⟨[]⟩⟩
    choose! f hf using hchunks
    refine ⟨(chunks none (Text.linesOf source)).map f, ?_⟩
    rw [List.forall₂_map_right_iff, List.forall₂_same]
    exact hf
  obtain rfl : p = ⟨ps.flatMap (·.body)⟩ := by
    have hall := Program.parse_unlines hps hapart
    have hnewline := Program.parse_newline hparse
    rw [unlines_chunks, Text.unlines_linesOf, Option.toList_none, Text.unlines, String.empty_append,
      hnewline] at hall
    exact Except.ok.inj hall
  have hresting := Session.resting_start hdebug hsink
  rw [Session.run_of_parse hparse] at hrun
  obtain ⟨t, hperforms, houtput, hglobals⟩ := hresting.performs ps hrun hret
  have hfed : (start limits output).feedAll fuel (Text.linesOf source) = ⟨t, ""⟩ :=
    feedAll_performs hresting hps (by simp) hperforms
  rw [hfed]
  refine ⟨houtput, hglobals, rfl, fun before line _ => ?_⟩
  dsimp only
  constructor
  · exact feed_printable ((capacity_feedAll _ fuel before).trans hsink)
  · intro hwaits
    rw [session_of_incomplete hwaits]
    exact ⟨rfl, rfl⟩

/-- A definition without semicolon, a blank line, a call over two lines and a number with a sign. -/
def steps : String :=
  "function next(n) \x7b // (\n  return n + 1;\n\x7d\n\nx = next(\n  1);\n-1;\nprint(x);"

def stepChunks : List String :=
  ["function next(n) \x7b // (\n  return n + 1;\n\x7d", "", "x = next(\n  1);", "-1;", "print(x);"]

theorem apart_stepChunks : Program.Apart stepChunks := by
  have hnext : [1, 2, 4, 5].map (fun n => Layout.next? (Text.unlines (stepChunks.drop n)).toList) =
      [some 'x', some 'x', some 'p', none] := by
    decide +kernel
  simp only [List.map_cons, List.map_nil, List.cons.injEq, and_true] at hnext
  obtain ⟨hdefinition, hblank, hnumber, hlast⟩ := hnext
  have hcall : ¬ Program.EndsInDefinition "x = next(\n  1);" := by
    have hread : (Program.parse "x = next(\n  1);").toOption.any
        (fun p => !p.body.getLast?.any Stmt.isDefinition) = true := by
      decide +kernel
    obtain ⟨p, hp, hlast⟩ := Program.exists_ok_of_any hread
    exact Program.not_endsInDefinition hp (by simpa using hlast)
  refine ⟨fun _ c hc => ?_, fun _ c hc => ?_, fun h => absurd h hcall, fun _ c hc => ?_,
    fun _ c hc => ?_, trivial⟩
  · obtain rfl : c = 'x' := Option.some.inj (hc.symm.trans hdefinition)
    decide
  · obtain rfl : c = 'x' := Option.some.inj (hc.symm.trans hblank)
    decide
  · obtain rfl : c = 'p' := Option.some.inj (hc.symm.trans hnumber)
    decide
  · cases hc.symm.trans hlast

theorem parse_stepChunks : ∀ chunk ∈ stepChunks, ∃ r, Program.parse chunk = .ok r := by
  have hread : ∀ chunk ∈ stepChunks, (Program.parse chunk).toOption.any (fun _ => true) = true := by
    decide +kernel
  intro chunk hmem
  obtain ⟨r, hr, -⟩ := Program.exists_ok_of_any (hread chunk hmem)
  exact ⟨r, hr⟩

theorem run_steps : ∃ p v s', Program.parse steps = .ok p ∧
    (Session.start {} .unlimited).NeverReturns p ∧
    (Session.start {} .unlimited).run 60 steps = (.ok v, s') := by
  have horder : (Program.parse steps).toOption.any
      ((Session.start {} .unlimited).endsInOrder 60 ·) = true := by
    decide +kernel
  have hend : ((Session.start {} .unlimited).run 60 steps).1.toOption.any (fun _ => true) = true := by
    decide +kernel
  obtain ⟨p, hp, hordered⟩ := Program.exists_ok_of_any horder
  cases hrun : (Session.start {} .unlimited).run 60 steps with
  | mk result s' =>
    rw [hrun] at hend
    obtain ⟨v, rfl, -⟩ := Program.exists_ok_of_any hend
    exact ⟨p, v, s', hp, Session.neverReturns_of_endsInOrder 60 hordered, rfl⟩

theorem lines_run_alike_steps : ∃ v s',
    (Session.start {} .unlimited).run 60 steps = (.ok v, s') ∧
    ((start {} .unlimited).feedAll 60 (Text.linesOf steps)).session.output = s'.output ∧
    ((start {} .unlimited).feedAll 60 (Text.linesOf steps)).session.globals = s'.globals ∧
    ((start {} .unlimited).feedAll 60 (Text.linesOf steps)).isPending = false ∧
    ((start {} .unlimited).feed 60 "function next(n) \x7b // (").1 = .incomplete ∧
    ((start {} .unlimited).feed 60 "function next(n) \x7b // (").2.session.globals =
      (start {} .unlimited).session.globals := by
  have hcut : chunks none (Text.linesOf steps) = stepChunks := by decide +kernel
  have hfirst : ["function next(n) \x7b // ("] <+: Text.linesOf steps := by decide +kernel
  have hwaits : ((start {} .unlimited).feed 60 "function next(n) \x7b // (").1 = .incomplete := by
    decide +kernel
  obtain ⟨p, v, s', hp, hret, hrun⟩ := run_steps
  have hchunks := parse_stepChunks
  have hapart := apart_stepChunks
  rw [← hcut] at hchunks hapart
  have hall := lines_run_alike {} .unlimited steps rfl rfl hp hchunks hapart hrun hret
  have hwaiting := (hall.2.2.2 [] _ hfirst).2 hwaits
  exact ⟨v, s', hrun, hall.1, hall.2.1, hall.2.2.1, hwaits, hwaiting.2⟩

end Prompt
end Scriptlet
