import SoftScript.Proofs.Run.Rounds

/-! What a `for` loop means. What is left by the statement that the parser makes of it differs from
what the loop leaves when executed directly only in empty scopes, which a function may lie in. -/
namespace SoftScript

namespace Run

variable {m : Machine}

theorem wellFormed_entering (formed : m.WellFormed) :
    (m.entering ⟨[], some m.scope⟩).WellFormed := by
  have new : m.heap.cell? (.frame m.heap.frames.size) = none := by simp [Heap.cell?]
  have held : (Content.frame ⟨[], some m.scope⟩).Held m.region m.heap := by
    refine Content.held_frame.mpr ⟨?_, Bindings.held_nil⟩
    rintro outer ⟨⟩
    exact formed.here
  obtain ⟨evolves, holds⟩ := (m.heap.writes_newFrame ⟨[], some m.scope⟩).evolves_new
    (formed.intact.confined _) new held
  exact ⟨holds.allocated, evolves.intact formed.intact⟩

section

variable {body : Stmt} {increment : Option Expr} {keyword : Token} {condition : Option Expr}
  {n : Nat}

/-- The loop after the initializer, executed directly. -/
theorem execute_loop_slim (formed : m.WellFormed) (spare : Spare body increment)
    (halts : isOver (execute n (.loop (condition.getD (Grammar.always keyword))
      (Grammar.withIncrement body increment)) m) = true) :
    EndsSlim m.heap.frames.size (execute n (.loop (condition.getD (Grammar.always keyword))
      (Grammar.withIncrement body increment)) m) (directly n none condition increment body m) := by
  cases n with
  | zero => cases halts
  | succ n =>
    have there := Heap.allocated_frame_iff.mp formed.scope
    have ends := loop_slim keyword condition formed there (Nat.le_refl _) spare halts
    rw [execute, ends.isOver_eq] at halts
    have same : directly (n + 1) none condition increment body m =
        repeatWhile (test (evaluate n) condition)
          (round (evaluate n) (execute n) body increment) n m :=
      repeatWhile_steady (steady_test condition) (steady_round body increment) halts
        (Nat.le_succ n) (Nat.le_succ n)
    rw [same]
    exact ends

theorem execute_loop_isOver (formed : m.WellFormed) (spare : Spare body increment)
    (halts : isOver (directly n none condition increment body m) = true) :
    isOver (execute (n + 3) (.loop (condition.getD (Grammar.always keyword))
      (Grammar.withIncrement body increment)) m) = true := by
  have there := Heap.allocated_frame_iff.mp formed.scope
  have ends := loop_slim_of_direct keyword condition formed there (Nat.le_refl _) spare halts
  have finished := ends.isOver_eq.trans halts
  have same := repeatWhile_steady (steady_evaluate _) (steady_execute _) finished (Nat.le_refl _)
    (Nat.le_add_right n 2)
  rw [execute, same]
  exact finished

/-- What a `for` loop begins with: a declaration of a variable, or an expression. -/
inductive Begins : Stmt → Prop
  | var (name : Token) (value : Option Expr) : Begins (.var name value)
  | expression (value : Expr) : Begins (.expression value)

theorem Begins.completed {s : Stmt} (begins : Begins s) {flow : Flow} {m' : Machine}
    (ran : execute n s m = .ok flow m') : flow = .completed := by
  cases n with
  | zero => cases ran
  | succ n =>
    cases begins with
    | expression value =>
      simp only [execute, bind_apply] at ran
      split at ran <;> cases ran
      rfl
    | var name value =>
      simp only [execute, bind_apply] at ran
      split at ran
      · split at ran <;> cases ran
        rfl
      · cases ran

/-- A statement that completes, and another one after it. -/
theorem statements_two {first second : Stmt} (begins : Begins first) :
    statements (execute n) [first, second] m =
      (do let _ ← execute n first; execute n second : Run Flow) m := by
  simp only [statements, bind_apply]
  cases ran : execute n first m with
  | error => rfl
  | ok flow m' =>
    cases begins.completed ran
    simp only [bind_apply]
    cases execute n second m' with
    | error => rfl
    | ok flow m'' => cases flow <;> rfl

/-- A block of an initializer and a loop: after the one it goes on with the other. -/
theorem execute_unrolled {first : Stmt} (begins : Begins first) :
    execute (n + 1) (Grammar.unrolled keyword (some first) condition increment body) m =
      leaving ({ · with scope := m.scope })
        ((do let _ ← execute n first
             execute n (.loop (condition.getD (Grammar.always keyword))
               (Grammar.withIncrement body increment)) : Run Flow)
          (m.entering ⟨[], some m.scope⟩)) := by
  rw [← statements_two begins]
  rfl

theorem directly_some (first : Stmt) :
    directly n (some first) condition increment body m =
      leaving ({ · with scope := m.scope })
        ((do let _ ← execute n first; directly n none condition increment body : Run Flow)
          (m.entering ⟨[], some m.scope⟩)) := rfl

theorem continues_of_ran {m' : Machine} {flow : Flow} (formed : m.WellFormed) {s : Stmt}
    (ran : execute n s m = .ok flow m') : Continues m m' := by
  have later := continues_execute formed n s
  rw [ran] at later
  exact later

variable {initializer : Option Stmt}

/-- If the statement comes to an end, so does the loop executed directly, in the same way. -/
theorem loopOf_slim (formed : m.WellFormed) (spare : Spare body increment)
    (begins : ∀ s ∈ initializer, Begins s)
    (halts : isOver (execute n (Parse.loopOf keyword initializer condition increment body) m) =
      true) :
    EndsSlim m.heap.frames.size
      (execute n (Parse.loopOf keyword initializer condition increment body) m)
      (directly n initializer condition increment body m) := by
  rw [Parse.loopOf_eq_unrolled] at halts ⊢
  cases initializer with
  | none => exact execute_loop_slim formed spare halts
  | some first =>
    cases n with
    | zero => cases halts
    | succ n =>
      have entered := wellFormed_entering formed
      rw [execute_unrolled (begins first rfl), isOver_leaving] at halts
      rw [execute_unrolled (begins first rfl), directly_some]
      have begun : execute (n + 1) first (m.entering ⟨[], some m.scope⟩) =
          execute n first (m.entering ⟨[], some m.scope⟩) :=
        steady_execute first _ n (isOver_bind halts) (n + 1) (Nat.le_succ n)
      simp only [bind_apply, begun] at halts ⊢
      cases ran : execute n first (m.entering ⟨[], some m.scope⟩) with
      | error => exact .refl _
      | ok flow l =>
        simp only [ran] at halts ⊢
        have later := continues_of_ran entered ran
        have ends := execute_loop_slim later.formed spare halts
        have same : directly (n + 1) none condition increment body l =
            directly n none condition increment body l :=
          steady_directly none condition increment body l n (ends.isOver_eq.symm.trans halts)
            (n + 1) (Nat.le_succ n)
        have size : m.heap.frames.size ≤ l.heap.frames.size := by
          refine Nat.le_trans ?_ later.size_le
          simp [Machine.entering, Heap.newFrame]
        have there := Heap.allocated_frame_iff.mp formed.scope
        rw [same]
        exact (ends.leave (Nat.lt_of_lt_of_le there size)).mono size

/-- The statement comes to an end if the loop executed directly does. -/
theorem loopOf_isOver (formed : m.WellFormed) (spare : Spare body increment)
    (begins : ∀ s ∈ initializer, Begins s)
    (halts : isOver (directly n initializer condition increment body m) = true) :
    isOver (execute (n + 4) (Parse.loopOf keyword initializer condition increment body) m) =
      true := by
  rw [Parse.loopOf_eq_unrolled]
  cases initializer with
  | none =>
    have finished : isOver (execute (n + 3)
        (Grammar.unrolled keyword none condition increment body) m) = true :=
      execute_loop_isOver formed spare halts
    have same := steady_execute _ m (n + 3) finished (n + 4) (Nat.le_succ _)
    exact (congrArg isOver same).trans finished
  | some first =>
    rw [directly_some, isOver_leaving] at halts
    rw [execute_unrolled (begins first rfl), isOver_leaving]
    have begun : execute (n + 3) first (m.entering ⟨[], some m.scope⟩) =
        execute n first (m.entering ⟨[], some m.scope⟩) :=
      steady_execute first _ n (isOver_bind halts) (n + 3) (Nat.le_add_right n 3)
    simp only [bind_apply, begun] at halts ⊢
    cases ran : execute n first (m.entering ⟨[], some m.scope⟩) with
    | error =>
      rw [ran] at halts
      exact halts
    | ok flow l =>
      rw [ran] at halts
      have later := continues_of_ran (wellFormed_entering formed) ran
      exact execute_loop_isOver later.formed spare halts

/-- Two runs of statements that nothing tells apart. They ended in the same way, on machines that
differ in empty scopes only, with the same output and the same in every scope, list and object that
was there before; and whatever is executed next ends alike. -/
structure Indistinct (oldest : Nat) (r r' : EStateM.Result Halt Machine Flow) : Prop where
  ends : EndsSlim oldest r r'
  alike : (after r).Matches oldest (after r')
  later : ∀ n s, EndsSlim oldest (execute n s (after r)) (execute n s (after r'))

theorem indistinct_of_ends {r : EStateM.Result Halt Machine Flow} (formed : m.WellFormed) {s : Stmt}
    (ends : EndsSlim m.heap.frames.size (execute n s m) r) :
    Indistinct m.heap.frames.size (execute n s m) r where
  ends := ends
  alike := ends.slims.isMatch
  later := by
    have back : (after (execute n s m)).scope < m.heap.frames.size := by
      rw [(continues_execute formed n s).scope]
      exact Heap.allocated_frame_iff.mp formed.scope
    exact fun i next => execute_slim ends.slims back i next

/-- Whichever of the two comes to an end, with more fuel the other one does so too. -/
theorem loopOf_indistinct (formed : m.WellFormed) (spare : Spare body increment)
    (begins : ∀ s ∈ initializer, Begins s) {j k : Nat}
    (halts : isOver (execute j (Parse.loopOf keyword initializer condition increment body) m) =
        true ∧ j ≤ k ∨
      isOver (directly k initializer condition increment body m) = true ∧ k + 4 ≤ j) :
    Indistinct m.heap.frames.size
      (execute j (Parse.loopOf keyword initializer condition increment body) m)
      (directly k initializer condition increment body m) := by
  have finished : isOver (execute j
      (Parse.loopOf keyword initializer condition increment body) m) = true := by
    rcases halts with ⟨halts, _⟩ | ⟨halts, le⟩
    · exact halts
    · have finished : isOver (execute (k + 4)
          (Parse.loopOf keyword initializer condition increment body) m) = true :=
        loopOf_isOver formed spare begins halts
      exact (congrArg isOver (steady_execute _ m (k + 4) finished j le)).trans finished
  have ends := loopOf_slim formed spare begins finished
  have same : directly j initializer condition increment body m =
      directly k initializer condition increment body m := by
    have steady := steady_directly initializer condition increment body m
    rcases halts with ⟨_, le⟩ | ⟨halts, le⟩
    · exact (steady j (ends.isOver_eq.symm.trans finished) k le).symm
    · exact steady k halts j (Nat.le_trans (Nat.le_add_right k 4) le)
  exact indistinct_of_ends formed (same ▸ ends)

end

end Run

/-! Loops in a text. -/

namespace Grammar

/-- The tokens of a `for` loop, and its parts. -/
inductive ForLoop (inside : Bool) :
    List Token → Token → Option Stmt → Option Expr → Option Expr → Stmt → Prop
  | mk : keyword.kind = .forWord → opening.kind = .leftParen → Initializer inside u initializer →
      Optional inside v condition → semicolon.kind = .semicolon → Optional inside w increment →
      closing.kind = .rightParen → Statement inside ajar x body →
      ForLoop inside (keyword :: opening :: u ++ v ++ semicolon :: w ++ closing :: x)
        keyword initializer condition increment body

variable {inside : Bool} {w : List Token} {keyword : Token} {initializer : Option Stmt}
  {condition increment : Option Expr} {body : Stmt}

theorem Statement.forLoop_of_first (h : Statement inside ajar w s)
    (isFor : ∀ t ∈ w.head?, t.kind = .forWord) :
    ∃ keyword initializer condition increment body,
      ForLoop inside w keyword initializer condition increment body ∧
      s = unrolled keyword initializer condition increment body := by
  cases h with
  | forLoop isKeyword isOpening initializer condition isSemicolon increment isClosing body =>
    exact ⟨_, _, _, _, _, .mk isKeyword isOpening initializer condition isSemicolon increment
      isClosing body, rfl⟩
  | expression derived =>
    obtain ⟨t, v, same, starts⟩ := derived.starts
    cases same
    simp [isFor _ rfl, startsExpression, startsPrimary] at starts
  | whileLoop kind | branch kind | branches kind | block kind | returns kind =>
    have other := kind.symm.trans (isFor _ rfl)
    cases other

theorem ForLoop.begins (h : ForLoop inside w keyword initializer condition increment body) :
    ∀ s ∈ initializer, Run.Begins s := by
  obtain ⟨_, _, first, _⟩ := h
  cases first with
  | none => simp
  | expression => simpa using Run.Begins.expression _
  | var declaration => cases declaration <;> simpa using Run.Begins.var _ _

theorem upholds_of_fits : (∀ e : Expr, e.Fits false inside →
      e.upholds (fun _ => true) (fun _ => Stmt.sparesScope) inside = true) ∧
    ∀ s : Stmt, s.Fits false inside →
      s.upholds (fun _ => true) (fun _ => Stmt.sparesScope) inside = true := by
  have node (inside : Bool) (s : Stmt) (fit : s.isFit false inside = true) :
      s.sparesScope = true := by
    simp only [Stmt.isFit, Bool.and_eq_true] at fit
    exact Stmt.sparesScope_of_isFormed inside s fit.1
  have mono := upholds_mono_all (f := Expr.isFit false) (fun _ _ => rfl) node
  exact ⟨fun e => mono.1 e inside, fun s => mono.2.2.1 s inside⟩

theorem ForLoop.spare (h : ForLoop inside w keyword initializer condition increment body)
    (fit : Token.AllMeet (Word.isFit false) w) : Run.Spare body increment := by
  obtain ⟨_, _, _, _, _, after, _, derived⟩ := h
  simp only [Token.allMeet_append, Token.allMeet_cons] at fit
  obtain ⟨⟨_, _, fitIncrement⟩, _, fitBody⟩ := fit
  exact ⟨derived.not_isDeclaration, inside, upholds_of_fits.2 body (derived.fits fitBody),
    fun e member => upholds_of_fits.1 e (after.fits fitIncrement e member)⟩

end Grammar

namespace Parse

/-- A `for` loop that is read without an error is made of its parts. -/
theorem forLoop_of_read {c c' : Cursor} {n : Nat} {s : Stmt}
    (fits : 8 * c.ahead.length + 5 ≤ n) (isFor : c.current.kind = .forWord)
    (read : statement n c = .ok s c') (clean : c'.errors = c.errors) :
    ∃ w keyword initializer condition increment body, c.ahead = w ++ c'.ahead ∧
      Grammar.ForLoop c.inFunction w keyword initializer condition increment body ∧
      s = loopOf keyword initializer condition increment body := by
  have reads := (readsAll n).statement c fits
  unfold Parser.Reads at reads
  rw [read] at reads
  obtain ⟨_, w, split, long, derives⟩ := reads
  obtain ⟨ajar, derived, _⟩ := derives clean
  have first : ∀ t ∈ w.head?, t.kind = .forWord := by
    intro t head
    obtain ⟨rest, rfl⟩ := List.head?_eq_some_iff.mp head
    rw [← Cursor.current_of_ahead split]
    exact isFor
  obtain ⟨keyword, initializer, condition, increment, body, loop, rfl⟩ :=
    derived.forLoop_of_first first
  exact ⟨w, keyword, initializer, condition, increment, body, split, loop,
    (loopOf_eq_unrolled ..).symm⟩

end Parse

namespace Run

/-- A `for` loop means what it says. Wherever one stands in a text, if it is read without an error,
then its tokens give an initializer, a condition, an increment and a body, and what is made of them
cannot be told from the loop of these parts executed directly: on every well-formed machine, if the
one comes to an end, then so does the other with enough fuel. -/
theorem for_means_direct_loop {source : String} {c c' : Parse.Cursor} {n : Nat} {s : Stmt}
    (there : c.ahead <:+ Token.sentence (Token.tokenize source))
    (fits : 8 * c.ahead.length + 5 ≤ n) (isFor : c.current.kind = .forWord)
    (read : Parse.statement n c = .ok s c') (clean : c'.errors = c.errors) :
    ∃ w keyword initializer condition increment body, c.ahead = w ++ c'.ahead ∧
      Grammar.ForLoop c.inFunction w keyword initializer condition increment body ∧
      s = Parse.loopOf keyword initializer condition increment body ∧
      ∀ m : Machine, m.WellFormed → ∀ j k,
        isOver (execute j s m) = true ∧ j ≤ k ∨
          isOver (directly k initializer condition increment body m) = true ∧ k + 4 ≤ j →
        Indistinct m.heap.frames.size (execute j s m)
          (directly k initializer condition increment body m) := by
  obtain ⟨w, keyword, initializer, condition, increment, body, split, loop, rfl⟩ :=
    Parse.forLoop_of_read fits isFor read clean
  have fit : Token.AllMeet (Word.isFit false) w := by
    have sound := Token.isSound_sentence source
    obtain ⟨before, all⟩ := there
    rw [← all, split, Token.allMeet_append, Token.allMeet_append] at sound
    simpa [Token.AllMeet, Word.isFit] using sound.2.1
  refine ⟨w, keyword, initializer, condition, increment, body, split, loop, rfl, ?_⟩
  exact fun m formed j k halts => loopOf_indistinct formed (loop.spare fit) loop.begins halts

/-- A machine with a variable in which a loop may leave a function behind. -/
def expectant : Machine :=
  after (execute 2 (.var (.read .identifier "last" 1 default) none) (.start .unlimited fun _ => 0))

/-- A loop whose functions see its variable, and change it. -/
def looping : String :=
  "for (var i = 0; i < 9; i = i + 1) \x7b" ++
  "  fun f() \x7b i = i + 3; return i; \x7d last = f; print(f()); \x7d"

/-- The functions lie in blocks of the rounds, which the loop executed directly has not. -/
theorem for_means_direct_loop_captured :
    ∃ s c' keyword initializer condition increment body,
      Parse.statement 400 (Parse.Cursor.ofTokens (Token.tokenize looping)) = .ok s c' ∧
      s = Parse.loopOf keyword initializer condition increment body ∧
      isOver (execute 30 s expectant) = true ∧
      Indistinct expectant.heap.frames.size (execute 30 s expectant)
        (directly 30 initializer condition increment body expectant) ∧
      (after (directly 30 initializer condition increment body expectant)).output.written =
        "3\n7\n11\n".toUTF8 := by
  let c := Parse.Cursor.ofTokens (Token.tokenize looping)
  have runs : 8 * c.ahead.length + 5 ≤ 400 ∧ c.current.kind = .forWord ∧
      (match Parse.statement 400 c with
      | .ok s c' => c'.errors = c.errors && isOver (execute 30 s expectant) &&
          (after (execute 30 s expectant)).output.written = "3\n7\n11\n".toUTF8
      | .error _ _ => false) = true := by
    decide +kernel
  obtain ⟨fits, isFor, ran⟩ := runs
  have there : c.ahead <:+ Token.sentence (Token.tokenize looping) :=
    ⟨[], Parse.Cursor.ahead_ofTokens _⟩
  have formed : expectant.WellFormed :=
    wellFormed_execute (Machine.wellFormed_start .unlimited fun _ => 0) 2 _
  cases read : Parse.statement 400 c with
  | error => simp [read] at ran
  | ok s c' =>
    simp only [read, Bool.and_eq_true, decide_eq_true_eq] at ran
    obtain ⟨⟨clean, halts⟩, printed⟩ := ran
    obtain ⟨_, keyword, initializer, condition, increment, body, _, _, same, means⟩ :=
      for_means_direct_loop there fits isFor read clean
    have alike := means expectant formed 30 30 (.inl ⟨halts, Nat.le_refl _⟩)
    refine ⟨s, c', keyword, initializer, condition, increment, body, rfl, same, halts, alike, ?_⟩
    rw [alike.alike.output]
    exact printed

end Run

end SoftScript
