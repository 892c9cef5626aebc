import Scriptlet.Proofs.Collection.Collector
import Scriptlet.Proofs.Collection.Locality

/-! Clearing scopes cannot be seen: a cleared scope is out of reach, so a session that clears scopes
and one that never does give the same results. -/
namespace Scriptlet

open Machine (globalScope)

/-- The scopes that a machine can reach with these values and scopes in hand. -/
def Machine.Reach (m : Machine) (values : List Value) (handles : List Nat) : Nat → Prop :=
  Reaches m.store ⟨m.frames, values, handles⟩

theorem Store.Agree.reaches_iff {st st' : Store} {r : Roots} {id : Nat}
    (h : st.Agree (Reaches st r) st') : Reaches st' r id ↔ Reaches st r id := by
  have hle : ∀ id, Reaches st' r id → Reaches st r id :=
    fun id hid => hid.least (reaches_within st r) (h.closed (reaches_closed st r))
  constructor
  · exact hle id
  · intro hid
    have hback := (h.mono hle).symm
    exact hid.least (reaches_within st' r) (hback.closed (reaches_closed st' r))

namespace Collector

/-- The collector's machine is `m` except for scopes that `m` cannot reach. All that can be reached
is allocated, and nothing was cleared that could be reached then. -/
structure Tracks (values : List Value) (handles : List Nat) (c : Collector) (m : Machine) : Prop where
  machine : ∃ st, c.machine = { m with store := st } ∧ m.store.Agree (m.Reach values handles) st
  live : ∀ id, m.Reach values handles id → id ∈ c.live
  cleared : ∀ e ∈ c.cleared, ¬ Reaches e.store e.roots e.scope

variable {values : List Value} {handles : List Nat} {c : Collector} {m : Machine} {id : Nat}

namespace Tracks

theorem frames (h : Tracks values handles c m) : c.machine.frames = m.frames := by
  obtain ⟨st, hc, -⟩ := h.machine
  rw [hc]

theorem reaches_iff (h : Tracks values handles c m) :
    Reaches c.machine.store (c.roots values handles) id ↔ m.Reach values handles id := by
  obtain ⟨st, hc, hagree⟩ := h.machine
  rw [roots, hc]
  exact hagree.reaches_iff

theorem live_heap (h : Tracks values handles c m) :
    ∀ id, Reaches c.heap.store (c.roots values handles) id → id ∈ c.heap.live :=
  fun id hid => h.live id (h.reaches_iff.mp hid)

/-- Letting go of values and scopes in hand. -/
theorem drop (h : Tracks values handles c m) {values' : List Value} {handles' : List Nat}
    (hvalues : values' ⊆ values) (hhandles : handles' ⊆ handles) : Tracks values' handles' c m := by
  have hreach : ∀ id, m.Reach values' handles' id → m.Reach values handles id := by
    intro id hid
    have hw := reaches_within m.store ⟨m.frames, values, handles⟩
    have hfewer : Roots.Within (m.Reach values handles) ⟨m.frames, values', handles'⟩ :=
      ⟨hw.globals, hw.frames, fun v hv => hw.values v (hvalues hv),
        fun id hid => hw.handles id (hhandles hid)⟩
    exact hid.least hfewer (reaches_closed m.store _)
  obtain ⟨st, hc, hagree⟩ := h.machine
  exact ⟨⟨st, hc, hagree.mono hreach⟩, fun id hid => h.live id (hreach id hid), h.cleared⟩

/-- Letting go of the scopes in hand. -/
theorem dropHandles (h : Tracks values handles c m) : Tracks values [] c m :=
  h.drop (List.Subset.refl values) (List.nil_subset handles)

theorem settle (h : Tracks values handles c m) (extra : List Nat) :
    Tracks values handles (c.settle values (extra ++ handles)) m := by
  constructor
  · exact h.machine
  · intro id hid
    exact Heap.mem_live_settle h.live_heap extra id (h.reaches_iff.mpr hid)
  · exact h.cleared

theorem withStore (h : Tracks values handles c m) {st : Store}
    (hst : c.machine.store.Agree (m.Reach values handles) st) :
    Tracks values handles (c.withMachine { c.machine with store := st }) m := by
  obtain ⟨st₀, hc, hagree⟩ := h.machine
  constructor
  · refine ⟨st, by rw [withMachine, hc], ?_⟩
    rw [hc] at hst
    exact ⟨hst.size.trans hagree.size, fun id hid => (hst.same id hid).trans (hagree.same id hid)⟩
  · intro id hid
    exact List.mem_append_left _ (h.live id hid)
  · exact h.cleared

/-- A scope that only its own functions refer to is out of reach, so it may be cleared. -/
theorem clear (h : Tracks values handles c m) (hid : id ∈ c.live)
    (hself : c.onlySelfReferenced values handles id = true) :
    Tracks values handles (c.clear values handles id) m := by
  have hisolated : c.heap.Isolated (c.roots values handles) id :=
    Heap.isolated_of_onlySelfReferenced hid hself
  have hout : ¬ Reaches c.machine.store (c.roots values handles) id :=
    hisolated.not_reaches hid h.live_heap
  have hagree : c.machine.store.Agree (m.Reach values handles)
      (c.machine.store.modify id Scope.clear) := by
    constructor
    · simp [Store.modify]
    · intro other hother
      have hne : id ≠ other := fun heq => hout (h.reaches_iff.mpr (heq ▸ hother))
      simp [Store.modify, Array.getElem?_modify, hne]
  have hstored := h.withStore hagree
  have hlogged : Tracks values handles
      { c.withMachine { c.machine with store := c.machine.store.modify id Scope.clear } with
        cleared := ⟨c.machine.store, c.roots values handles, id⟩ :: c.cleared } m :=
    ⟨hstored.machine, hstored.live, List.forall_mem_cons.mpr ⟨hout, h.cleared⟩⟩
  exact (hlogged.settle [id]).settle []

theorem sweepThrough (h : Tracks values handles c m) (ids : List Nat) :
    Tracks values handles (sweepThrough values handles ids c).2 m := by
  induction ids generalizing c with
  | nil => exact h
  | cons id ids ih =>
    unfold Collector.sweepThrough
    by_cases hlive : id ∈ c.live
    · rw [if_pos hlive]
      by_cases hself : c.onlySelfReferenced values handles id = true
      · rw [if_pos hself]
        exact ih (h.clear hlive hself)
      · rw [if_neg hself]
        exact ih h
    · rw [if_neg hlive]
      exact ih h

theorem sweep (h : Tracks values handles c m) : Tracks values handles (c.sweep values handles) m := by
  have hswept := h.sweepThrough c.retained
  exact ⟨hswept.machine, hswept.live, hswept.cleared⟩

theorem retain (h : Tracks values [id] c m) : Tracks values [id] (c.retain values id) m := by
  have hpushed : Tracks values [id] { c with retained := c.retained ++ [id] } m :=
    ⟨h.machine, h.live, h.cleared⟩
  unfold Collector.retain
  dsimp only
  split
  · have hswept := hpushed.sweep
    exact ⟨hswept.machine, hswept.live, hswept.cleared⟩
  · exact hpushed

/-- Releasing a frame's scope. -/
theorem release (h : Tracks values [id] c m) : Tracks values [] (c.release values id) m := by
  have hsettled : Tracks values [id] (c.settle values [id]) m := h.settle []
  have hdropped := hsettled.dropHandles
  unfold Collector.release
  dsimp only
  split
  · exact hdropped.settle []
  · split
    · next hself =>
      have hid : id ∈ (c.settle values [id]).live := hsettled.live id (.handle (by simp))
      exact hdropped.clear hid hself
    · exact (hsettled.retain.dropHandles).settle []

/-- The machine's own part of a step. A scope that could be reached may be taken in hand. -/
theorem move (h : Tracks [] [] c m) (hid : m.Reach [] [] id) :
    c.machine.step.1 = m.step.1 ∧
      Tracks m.step.1.values [id] (c.withMachine c.machine.step.2) m.step.2 := by
  obtain ⟨st, hc, hagree⟩ := h.machine
  have hwithin := reaches_within m.store ⟨m.frames, [], []⟩
  have hconfined : m.Confined (m.Reach [] []) st :=
    ⟨hwithin.globals, reaches_closed m.store _, hagree⟩
  have hstep := Machine.step_parallel hconfined hwithin.frames
  obtain ⟨st₁, hm₁, hagree₁⟩ := hstep.machine
  rw [← hc] at hstep hm₁
  have hreach : ∀ other, m.step.2.Reach m.step.1.values [id] other →
      orNew (m.Reach [] []) m.store m.step.2.store other := by
    intro other hother
    have hroots : Roots.Within (orNew (m.Reach [] []) m.store m.step.2.store)
        ⟨m.step.2.frames, m.step.1.values, [id]⟩ :=
      ⟨hstep.roots.globals, hstep.roots.frames, hstep.roots.values, by simpa using .inl hid⟩
    exact hother.least hroots hstep.closed
  refine ⟨hstep.status, ⟨st₁, hm₁, hagree₁.mono hreach⟩, ?_, h.cleared⟩
  intro other hother
  have hsize : c.machine.store.scopes.size = m.store.scopes.size := by rw [hc, hagree.size]
  have hsize₁ : c.machine.step.2.store.scopes.size = m.step.2.store.scopes.size := by
    rw [hm₁, hagree₁.size]
  rcases hreach other hother with hold | ⟨hle, hlt⟩
  · exact List.mem_append_left _ (h.live other hold)
  · apply List.mem_append_right
    rw [List.mem_range'_1, hsize, hsize₁]
    omega

theorem step (h : Tracks [] [] c m) :
    c.step.1 = m.step.1 ∧ Tracks m.step.1.values [] c.step.2 m.step.2 := by
  have hframes := h.frames
  unfold Collector.step
  cases hfr : m.frames with
  | nil =>
    have hreach : m.Reach [] [] globalScope := .globals
    obtain ⟨hstatus, htracks⟩ := h.move hreach
    rw [hframes, hfr]
    exact ⟨hstatus, htracks.dropHandles⟩
  | cons f cs =>
    have hreach : m.Reach [] [] f.scope := .frame (by simp [hfr])
    obtain ⟨hstatus, htracks⟩ := h.move hreach
    have hdropped := htracks.dropHandles
    rw [hframes, hfr]
    cases hs : c.machine.step with
    | mk status m₁ =>
      rw [hs] at hstatus htracks hdropped
      obtain rfl : status = m.step.1 := hstatus
      cases hm : m.step.1 with
      | running =>
        rw [hm] at htracks hdropped
        dsimp only
        split
        · exact ⟨rfl, htracks.release⟩
        · exact ⟨rfl, hdropped.settle []⟩
      | done v =>
        rw [hm] at htracks
        exact ⟨rfl, htracks.release.sweep⟩
      | failed e =>
        rw [hm] at hdropped
        exact ⟨rfl, hdropped.settle []⟩

/-- A frame less. Its scope is in hand. -/
theorem pop (h : Tracks [] [] c m) {f : Frame} {fs : List Frame} (hfr : m.frames = f :: fs) :
    Tracks [] [f.scope] (c.withMachine { c.machine with frames := fs }) { m with frames := fs } := by
  obtain ⟨st, hc, hagree⟩ := h.machine
  have hreach : ∀ id, Machine.Reach { m with frames := fs } [] [f.scope] id → m.Reach [] [] id := by
    intro id hid
    have hw := reaches_within m.store ⟨m.frames, [], []⟩
    have hroots : Roots.Within (m.Reach [] []) ⟨fs, [], [f.scope]⟩ := by
      constructor
      · exact hw.globals
      · exact fun g hg => hw.frames g (by simp [hfr, hg])
      · simp
      · intro id hid
        obtain rfl : id = f.scope := by simpa using hid
        exact (hw.frames f (by simp [hfr])).scope
    exact hid.least hroots (reaches_closed m.store _)
  constructor
  · exact ⟨st, by rw [withMachine, hc], hagree.mono hreach⟩
  · exact fun id hid => List.mem_append_left _ (h.live id (hreach id hid))
  · exact h.cleared

theorem discardThrough (h : Tracks [] [] c m) :
    Tracks [] [] (discardThrough m.frames c) m.discard := by
  generalize hfr : m.frames = fs
  induction fs generalizing c m with
  | nil =>
    have hm : m.discard = m := by rw [Machine.discard, ← hfr]
    rw [hm]
    exact h
  | cons f fs ih =>
    have hpopped := (h.pop hfr).release
    have hrest := ih hpopped rfl
    exact hrest

theorem discard (h : Tracks [] [] c m) : Tracks [] [] c.discard m.discard := by
  unfold Collector.discard
  rw [h.frames]
  exact h.discardThrough

theorem location (h : Tracks values handles c m) : c.machine.location = m.location := by
  unfold Machine.location
  rw [h.frames]

theorem run (h : Tracks [] [] c m) (fuel : Nat) :
    (c.run fuel).1 = (m.run fuel).1 ∧ Tracks [] [] (c.run fuel).2 (m.run fuel).2 := by
  induction fuel generalizing c m with
  | zero => exact ⟨rfl, h⟩
  | succ fuel ih =>
    obtain ⟨hstatus, htracks⟩ := h.step
    unfold Collector.run Machine.run
    cases hs : c.step with
    | mk status c₁ =>
      cases hm : m.step with
      | mk status' m₁ =>
        rw [hs, hm] at hstatus htracks
        obtain rfl : status = status' := hstatus
        cases status with
        | running => exact ih htracks
        | done v =>
          have hdropped := htracks.drop (List.nil_subset _) (List.nil_subset [])
          exact ⟨rfl, hdropped.settle []⟩
        | failed e => exact ⟨congrArg (Finish.failed e) htracks.location, htracks.discard⟩

end Tracks
end Collector

theorem Store.Closed.adopt {R : Nat → Prop} {st : Store} (h : st.Closed R) (id : Nat)
    (names : Array String) : (st.modify id (·.adopt names)).Closed R := by
  constructor
  · intro other sc p hother hsc hp
    simp only [Store.modify, Array.getElem?_modify] at hsc
    split at hsc
    · obtain ⟨old, hold, rfl⟩ := Option.map_eq_some_iff.mp hsc
      rw [Scope.parent_adopt] at hp
      exact h.parent other old p hother hold hp
    · exact h.parent other sc p hother hsc hp
  · intro other sc slot v hother hsc hv
    simp only [Store.modify, Array.getElem?_modify] at hsc
    split at hsc
    · obtain ⟨old, hold, rfl⟩ := Option.map_eq_some_iff.mp hsc
      obtain ⟨i, hi⟩ := Scope.exists_get?_of_adopt hv
      exact h.values other old i v hother hold hi
    · exact h.values other sc slot v hother hsc hv

namespace Collector

variable {c : Collector} {m : Machine} {s : Session}

theorem Tracks.load (h : Tracks [] [] c m) (code : Code) :
    Tracks [] [] (c.load code) (m.load code) := by
  have hdiscarded := h.discard
  obtain ⟨st, hc, hagree⟩ := hdiscarded.machine
  have hreach : ∀ id, (m.load code).Reach [] [] id → m.discard.Reach [] [] id := by
    intro id hid
    have hw := reaches_within m.discard.store ⟨m.discard.frames, [], []⟩
    have hroots : Roots.Within (m.discard.Reach [] []) ⟨(m.load code).frames, [], []⟩ := by
      constructor
      · exact hw.globals
      · intro f hf
        obtain rfl : f = .start code globalScope := by simpa [Machine.load] using hf
        exact ⟨hw.globals, by simp [Frame.start]⟩
      · simp
      · simp
    exact hid.least hroots ((reaches_closed m.discard.store _).adopt globalScope code.names)
  have hloaded : Tracks [] [] (c.discard.withMachine (c.discard.machine.load code)) (m.load code) := by
    constructor
    · refine ⟨st.modify globalScope (·.adopt code.names), ?_, ?_⟩
      · rw [withMachine, hc]
        rfl
      · have hmodified : (m.load code).store.Agree (m.discard.Reach [] [])
            (st.modify globalScope (·.adopt code.names)) := by
          constructor
          · have hsize : st.scopes.size = m.store.scopes.size := hagree.size
            simp [Machine.load, Store.modify, hsize]
          · intro id hid
            have hsame : st.scopes[id]? = m.store.scopes[id]? := hagree.same id hid
            simp only [Machine.load, Store.modify, Array.getElem?_modify, hsame]
        exact hmodified.mono hreach
    · exact fun id hid => List.mem_append_left _ (hdiscarded.live id (hreach id hid))
    · exact hdiscarded.cleared
  exact hloaded.settle []

theorem Tracks.globals (h : Tracks [] [] c m) :
    c.machine.store.scopes[globalScope]? = m.store.scopes[globalScope]? := by
  obtain ⟨st, hc, hagree⟩ := h.machine
  rw [hc]
  exact hagree.same globalScope .globals

theorem Tracks.output (h : Tracks [] [] c m) : c.machine.output = m.output := by
  obtain ⟨st, hc, -⟩ := h.machine
  rw [hc]

theorem Tracks.withOutput (h : Tracks [] [] c m) (output : Output) :
    Tracks [] [] (c.withMachine { c.machine with output }) { m with output } := by
  obtain ⟨st, hc, hagree⟩ := h.machine
  constructor
  · exact ⟨st, by rw [withMachine, hc], hagree⟩
  · exact fun id hid => List.mem_append_left _ (h.live id hid)
  · exact h.cleared

end Collector

namespace CollectingSession

/-- The session does as one that clears nothing. -/
structure Follows (s : CollectingSession) (t : Session) : Prop where
  tracks : s.collector.Tracks [] [] t.machine
  debug : s.debug = t.debug

/-- The results are equal, and so are the sessions, apart from what was cleared. -/
structure Same (r : Except ScriptError Value × CollectingSession)
    (r' : Except ScriptError Value × Session) : Prop where
  result : r.1 = r'.1
  follows : r.2.Follows r'.2

variable {s : CollectingSession} {t : Session}

theorem follows_start (threshold : Nat) (limits : Limits) (output : Output) :
    (start threshold limits output).Follows (.start limits output) := by
  refine ⟨⟨⟨_, rfl, rfl, fun _ _ => rfl⟩, ?_, fun e he => absurd he List.not_mem_nil⟩, rfl⟩
  -- there is only the global scope, and nothing in it
  have hroots : Roots.Within (· = globalScope) ⟨[], [], []⟩ := by
    constructor <;> simp
  have hclosed : (Machine.start limits.maxCallDepth output).store.Closed (· = globalScope) := by
    constructor
    · rintro _ sc p rfl hsc hp
      obtain rfl : Scope.ofNames #[] none = sc := by simpa [Machine.start, globalScope] using hsc
      cases hp
    · rintro _ sc slot v rfl hsc hv
      obtain rfl : Scope.ofNames #[] none = sc := by simpa [Machine.start, globalScope] using hsc
      simp [Scope.get?, Scope.ofNames] at hv
  intro id hid
  have hglobal : id = globalScope := hid.least hroots hclosed
  exact List.mem_singleton.mpr hglobal

theorem Follows.compile (h : s.Follows t) (p : Program) : s.session.compile p = t.compile p := by
  unfold Session.compile Machine.globalNames session
  rw [h.tracks.globals]

theorem Follows.execute (h : s.Follows t) (fuel : Nat) (code : Code) :
    Same (s.execute fuel code) (t.execute fuel code) := by
  obtain ⟨hfinish, htracks⟩ := (h.tracks.load code).run fuel
  unfold CollectingSession.execute Session.execute
  cases hs : (s.collector.load code).run fuel with
  | mk finish collector =>
    cases ht : (t.machine.load code).run fuel with
    | mk finish' machine =>
      rw [hs, ht] at hfinish htracks
      obtain rfl : finish = finish' := hfinish
      cases finish with
      | returned v => exact ⟨rfl, htracks, h.debug⟩
      | failed e location => exact ⟨rfl, htracks, h.debug⟩
      | unfinished => exact ⟨rfl, htracks, h.debug⟩

theorem Follows.print (h : s.Follows t) (text : String) :
    (s.print text).1 = (t.print text).1 ∧ (s.print text).2.Follows (t.print text).2 := by
  have houtput : s.session.output = t.output := h.tracks.output
  unfold CollectingSession.print Session.print
  rw [houtput]
  exact ⟨rfl, h.tracks.withOutput _, h.debug⟩

theorem Follows.runProgram (h : s.Follows t) (fuel : Nat) (p : Program) :
    Same (s.runProgram fuel p) (t.runProgram fuel p) := by
  unfold CollectingSession.runProgram Session.runProgram
  rw [h.compile, h.debug]
  cases t.compile p with
  | error e => exact ⟨rfl, h⟩
  | ok code =>
    by_cases hdebug : t.debug = true
    · simp only [if_pos hdebug]
      obtain ⟨hok, hprinted⟩ := h.print code.listing
      cases hs : s.print code.listing with
      | mk ok s' =>
        cases ht : t.print code.listing with
        | mk ok' t' =>
          rw [hs, ht] at hok hprinted
          obtain rfl : ok = ok' := hok
          cases ok with
          | true => exact Follows.execute hprinted fuel code
          | false => exact ⟨rfl, hprinted⟩
    · simp only [if_neg hdebug]
      exact h.execute fuel code

theorem Follows.serve (h : s.Follows t) (fuel : Nat) (r : Request) :
    Same (s.serve fuel r) (t.serve fuel r) := by
  cases r with
  | source text =>
    unfold CollectingSession.serve Session.serve Session.run
    cases hp : Program.parse text with
    | error e =>
      simp only [hp]
      exact ⟨rfl, h⟩
    | ok p =>
      simp only [hp]
      exact h.runProgram fuel p
  | program p => exact h.runProgram fuel p
  | redirect output => exact ⟨rfl, h.tracks.withOutput output, h.debug⟩

theorem Follows.after (h : s.Follows t) (past : List (Nat × Request)) :
    (s.after past).Follows (t.after past) := by
  induction past generalizing s t with
  | nil => exact h
  | cons r past ih => exact ih (h.serve r.1 r.2).follows

/-- Clearing scopes cannot be seen, whatever the threshold at which retained scopes are swept. A
scope that was cleared could not be reached then from the frames, the globals or the value that was
returned, and every request has the result, the output and the globals that it has in a session that
never clears a scope. -/
theorem clearing_is_unobservable (threshold : Nat) (limits : Limits) (output : Output)
    (past : List (Nat × Request)) (fuel : Nat) (r : Request) :
    let served := ((start threshold limits output).after past).serve fuel r
    let plain := ((Session.start limits output).after past).serve fuel r
    (∀ e ∈ served.2.collector.cleared, ¬ Reaches e.store e.roots e.scope) ∧
      served.1 = plain.1 ∧
      served.2.session.output = plain.2.output ∧
      served.2.session.globals = plain.2.globals := by
  intro served plain
  have hpast := (follows_start threshold limits output).after past
  have hserved : Same served plain := hpast.serve fuel r
  have htracks := hserved.follows.tracks
  have hglobals : served.2.session.globals = plain.2.globals := by
    unfold Session.globals Machine.globals session
    rw [htracks.globals]
  exact ⟨htracks.cleared, hserved.result, htracks.output, hglobals⟩

-- A call that keeps a function of its own has its scope cleared when it ends, unless the function
-- gets out.
example :
    let own : Stmt := .assign "g" (.function "g" [] [])
    let cleared (body : List Stmt) : List Nat :=
      let call : Stmt := .assign "x" (.call (.function "f" [] body) [])
      ((start 1 {} .unlimited).serve 20 (.program ⟨[call]⟩)).2.collector.cleared.map (·.scope)
    cleared [own] = [1] ∧ cleared [own, .ret (some (.name "g"))] = [] := by
  decide +kernel

end CollectingSession
end Scriptlet
