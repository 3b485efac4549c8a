import SoftScript.Proofs.Grammar.Ahead

/-! A logic of parsers. `Reads` says what a parser makes of the tokens ahead of a cursor, for all
the ways it can end; one rule for each step from which the productions are made lets their
statements be put together without a look at cursors. -/
namespace SoftScript.Parse

variable {α β : Type} {p : Parser α} {c c' : Cursor}

namespace Cursor

/-- What a parser may do to a cursor however it ends. -/
structure Onward (c c' : Cursor) : Prop where
  ahead : c'.ahead <:+ c.ahead
  errors : c.errors.toList <+: c'.errors.toList
  functionDepth : c'.functionDepth = c.functionDepth

theorem Onward.refl (c : Cursor) : c.Onward c :=
  ⟨List.suffix_refl _, List.prefix_refl _, rfl⟩

theorem Onward.trans (first : c.Onward c') (second : c'.Onward c'') : c.Onward c'' :=
  ⟨second.ahead.trans first.ahead, first.errors.trans second.errors,
    second.functionDepth.trans first.functionDepth⟩

theorem Onward.inFunction (h : c.Onward c') : c'.inFunction = c.inFunction := by
  simp [Cursor.inFunction, h.functionDepth]

/-- A stretch in which no error was noted is free of them throughout. -/
theorem Onward.errors_between (first : c.Onward c') (second : c'.Onward c'')
    (clean : c''.errors = c.errors) : c'.errors = c.errors ∧ c''.errors = c'.errors := by
  have back : c'.errors.toList <+: c.errors.toList := by rw [← clean]; exact second.errors
  have same : c'.errors = c.errors :=
    Array.toList_inj.mp (back.eq_of_length_le first.errors.length_le)
  exact ⟨same, clean.trans same.symm⟩

theorem onward_advance (c : Cursor) : c.Onward c.advance :=
  ⟨by rw [ahead_advance]; exact List.tail_suffix _, by simp, by simp⟩

theorem onward_report (c : Cursor) (cause : Cause) (t : Token) : c.Onward (c.report cause t) :=
  ⟨List.suffix_refl _, by simp [Cursor.report], rfl⟩

theorem errors_report_ne (later : (c.report cause t).Onward c') : c'.errors ≠ c.errors := by
  intro same
  have longer := later.errors.length_le
  simp only [Cursor.report, same, Array.toList_push, List.length_append, List.length_singleton]
    at longer
  omega

/-- After an error at least one token is passed, unless none is left. -/
theorem onward_synchronize (c : Cursor) : c.Onward c.synchronize := by
  obtain ⟨passed, errors, depth⟩ := c.synchronize_onward
  exact ⟨passed.trans (List.tail_suffix _), by simp [errors], depth⟩

end Cursor

namespace Parser

/-- From a cursor on, a parser never runs out of depth; if it succeeds it has passed at least so
many tokens, and unless it noted an error, what it passed and what is then ahead are related to
its result. -/
def Reads (p : Parser α) (c : Cursor) (k : Nat) (D : α → List Token → List Token → Prop) : Prop :=
  match p c with
  | .ok a c' => c.Onward c' ∧ ∃ u, c.ahead = u ++ c'.ahead ∧ k ≤ u.length ∧
      (c'.errors = c.errors → D a u c'.ahead)
  | .error (.refused _) c' => c.Onward c'
  | .error .exhausted _ => False

variable {k j : Nat} {D : α → List Token → List Token → Prop}
  {D' : β → List Token → List Token → Prop} {f : α → Parser β}

theorem reads_pure {a : α} (h : D a [] c.ahead) : (pure a : Parser α).Reads c 0 D :=
  ⟨.refl c, [], rfl, Nat.le_refl _, fun _ => h⟩

/-- Only what a parser does from the cursor on matters. -/
theorem Reads.of_eq {q : Parser α} (h : p.Reads c k D) (ran : q c = p c) :
    q.Reads c k D := by
  unfold Reads at h ⊢
  rw [ran]
  exact h

theorem Reads.mono {D₀ : α → List Token → List Token → Prop} (h : p.Reads c k D₀) (le : j ≤ k)
    (imp : ∀ a u rest, c.ahead = u ++ rest → D₀ a u rest → D a u rest) : p.Reads c j D := by
  unfold Reads at h ⊢
  split at h
  · next a c' _ =>
    obtain ⟨onward, u, split, long, derived⟩ := h
    exact ⟨onward, u, split, Nat.le_trans le long, fun clean => imp a u _ split (derived clean)⟩
  · exact h
  · exact h

theorem bind_apply (p : Parser α) (f : α → Parser β) (c : Cursor) :
    (p >>= f) c = match p c with
      | .ok a c' => f a c'
      | .error e c' => .error e c' := by
  cases ran : p c <;> simp [bind, EStateM.bind, ran]

/-- Two parsers in turn: what each passes is put together. -/
theorem Reads.bind (first : p.Reads c k D)
    (second : ∀ a c', c.Onward c' → c'.ahead.length + k ≤ c.ahead.length →
      (f a).Reads c' j fun b v rest => ∀ u, D a u (v ++ rest) → D' b (u ++ v) rest) :
    (p >>= f).Reads c (k + j) D' := by
  unfold Reads at first ⊢
  rw [bind_apply]
  cases ran : p c with
  | error e c' =>
    rw [ran] at first
    cases e <;> exact first
  | ok a c' =>
    rw [ran] at first
    obtain ⟨onward, u, split, long, derived⟩ := first
    have shorter : c'.ahead.length + k ≤ c.ahead.length := by
      simp only [split, List.length_append]; omega
    have then_ := second a c' onward shorter
    unfold Reads at then_
    change match f a c' with | .ok a c' => _ | .error (.refused _) c' => _ | .error .exhausted _ => _
    cases ran' : f a c' with
    | error e c'' =>
      rw [ran'] at then_
      cases e with
      | refused e => exact onward.trans then_
      | exhausted => exact then_
    | ok b c'' =>
      rw [ran'] at then_
      obtain ⟨onward', v, split', long', derived'⟩ := then_
      refine ⟨onward.trans onward', u ++ v, by simp [split, split'], by simp; omega, ?_⟩
      intro clean
      obtain ⟨clean₁, clean₂⟩ := onward.errors_between onward' clean
      exact derived' clean₂ u (split' ▸ derived clean₁)

theorem Reads.map {g : α → β} (h : p.Reads c k fun a u rest => D' (g a) u rest) :
    (g <$> p).Reads c k D' := by
  have mapped : (g <$> p) c = match p c with
      | .ok a c' => .ok (g a) c'
      | .error e c' => .error e c' := by
    cases ran : p c <;> simp [Functor.map, EStateM.map, ran]
  unfold Reads at h ⊢
  rw [mapped]
  cases ran : p c with
  | ok a c' => rw [ran] at h; exact h
  | error e c' => rw [ran] at h; cases e <;> exact h

theorem reads_refuse (cause : Cause) (t : Token) : (refuse cause t : Parser α).Reads c k D :=
  Cursor.Onward.refl c

theorem reads_advance (h : c.current.kind ≠ .eof) :
    advance.Reads c 1 fun t u _ => u = [t] ∧ t = c.current := by
  have nonempty : c.ahead ≠ [] := by simpa [Cursor.ahead_eq_nil, Cursor.atEnd] using h
  obtain ⟨t, w, ahead⟩ := List.exists_cons_of_ne_nil nonempty
  have current := Cursor.current_of_ahead ahead
  have previous := Cursor.previous_advance ahead
  refine ⟨c.onward_advance, [t], ?_, Nat.le_refl _, fun _ => ?_⟩
  · simp [ahead]
  · change [t] = [c.advance.previous] ∧ c.advance.previous = c.current
    simp [previous, current]

theorem consume_apply (kind : Token.Kind) (cause : Cause) (c : Cursor) :
    consume kind cause c = if c.check kind then advance c else refuse cause c.current c := by
  have asked : check kind c = .ok (c.check kind) c := rfl
  have here : current c = .ok c.current c := rfl
  rw [consume, bind_apply, asked]
  cases c.check kind <;> simp [bind_apply, here]

theorem reads_consume (kind : Token.Kind) (cause : Cause) :
    (consume kind cause).Reads c 1 fun t u _ => u = [t] ∧ t.kind = kind := by
  cases checked : c.check kind with
  | true =>
    have kinds : ¬ c.current.kind = .eof ∧ c.current.kind = kind := by
      simpa [Cursor.check, Cursor.atEnd] using checked
    have ran : consume kind cause c = advance c := by rw [consume_apply, if_pos checked]
    have read := reads_advance kinds.1
    exact (read.mono (Nat.le_refl _) fun t u rest _ h => ⟨h.1, h.2 ▸ kinds.2⟩).of_eq ran
  | false =>
    have ran : consume kind cause c = refuse cause c.current c := by
      rw [consume_apply, if_neg (by simp [checked])]
    exact (reads_refuse cause c.current).of_eq ran

theorem reads_expect (kind : Token.Kind) (context : String) :
    (expect kind context).Reads c 1 fun t u _ => u = [t] ∧ t.kind = kind :=
  reads_consume ..

theorem reads_current_bind {f : Token → Parser α} (h : (f c.current).Reads c k D) :
    (current >>= f).Reads c k D := h

theorem reads_check_bind {f : Bool → Parser α} {kind : Token.Kind}
    (h : (f (c.check kind)).Reads c k D) : (check kind >>= f).Reads c k D := h

theorem reads_atEnd_bind {f : Bool → Parser α} (h : (f c.atEnd).Reads c k D) :
    (atEnd >>= f).Reads c k D := h

theorem reads_get_bind {f : Cursor → Parser α} (h : (f c).Reads c k D) :
    ((get : Parser Cursor) >>= f).Reads c k D := h

/-- What follows a reported error has nothing to show for its result. -/
theorem reads_report_bind {f : Unit → Parser α} {cause : Cause} {t : Token}
    (h : (f ()).Reads (c.report cause t) k fun _ _ _ => True) :
    (report cause t >>= f).Reads c k D := by
  have ran : (report cause t >>= f) c = f () (c.report cause t) := rfl
  unfold Reads at h ⊢
  rw [ran]
  split at h
  · obtain ⟨onward, u, split, long, _⟩ := h
    refine ⟨(c.onward_report cause t).trans onward, u, split, long, ?_⟩
    intro clean
    exact absurd clean (Cursor.errors_report_ne onward)
  · exact (c.onward_report cause t).trans h
  · exact h

theorem eat?_apply (kinds : List Token.Kind) (c : Cursor) :
    eat? kinds c = if kinds.any c.check then .ok (some c.advance.previous) c.advance
      else .ok none c := by
  have seen : (get : Parser Cursor) c = .ok c c := rfl
  have passed : advance c = .ok c.advance.previous c.advance := rfl
  rw [eat?, bind_apply, seen]
  cases any : kinds.any c.check with
  | true => simp only [any, ↓reduceIte, bind_apply, passed]; rfl
  | false => simp only [any, Bool.false_eq_true, ↓reduceIte]; rfl

theorem eat?_of_mem {kinds : List Token.Kind} (h : c.ahead = t :: w) (member : t.kind ∈ kinds) :
    eat? kinds c = .ok (some t) c.advance := by
  have any : kinds.any c.check = true := by
    simpa [Cursor.check_of_ahead h] using member
  rw [eat?_apply, if_pos any, Cursor.previous_advance h]

theorem eat?_of_not_mem {kinds : List Token.Kind} (h : ∀ t ∈ c.ahead.head?, t.kind ∉ kinds) :
    eat? kinds c = .ok none c := by
  have none_ : ¬ kinds.any c.check = true := by
    cases ahead : c.ahead with
    | nil => simp [Cursor.check_of_nil ahead]
    | cons t w => simpa [Cursor.check_of_ahead ahead, ahead] using h
  rw [eat?_apply, if_neg none_]

theorem eat_apply (kind : Token.Kind) (c : Cursor) :
    eat kind c = match eat? [kind] c with
      | .ok found c' => .ok found.isSome c'
      | .error e c' => .error e c' := by
  cases ran : eat? [kind] c <;> simp [eat, bind, EStateM.bind, ran, pure, EStateM.pure]

/-- Either a token of the kinds is passed or the cursor stays. -/
theorem eat?_cases (kinds : List Token.Kind) (c : Cursor) :
    (∃ t w, c.ahead = t :: w ∧ t.kind ∈ kinds ∧ eat? kinds c = .ok (some t) c.advance) ∨
      (∀ t ∈ c.ahead.head?, t.kind ∉ kinds) ∧ eat? kinds c = .ok none c := by
  by_cases h : ∀ t ∈ c.ahead.head?, t.kind ∉ kinds
  · exact .inr ⟨h, eat?_of_not_mem h⟩
  · cases ahead : c.ahead with
    | nil => simp [ahead] at h
    | cons t w =>
      have member : t.kind ∈ kinds := by simpa [ahead] using h
      exact .inl ⟨t, w, rfl, member, eat?_of_mem ahead member⟩

theorem reads_of_advance {q : Parser β} (ahead : c.ahead = t :: w)
    (h : q.Reads c.advance j fun b v rest => D' b (t :: v) rest) (ran : r c = q c.advance) :
    (r : Parser β).Reads c (j + 1) D' := by
  unfold Reads at h ⊢
  rw [ran]
  split at h
  · obtain ⟨onward, u, split, long, derived⟩ := h
    refine ⟨c.onward_advance.trans onward, t :: u, ?_, by simpa using long, ?_⟩
    · rw [ahead, List.cons_append, ← split, Cursor.ahead_advance, ahead, List.tail_cons]
    · intro clean
      exact derived (by simpa using clean)
  · exact c.onward_advance.trans h
  · exact h

theorem reads_eat?_bind {f : Option Token → Parser β} {kinds : List Token.Kind}
    (eaten : ∀ t w, c.ahead = t :: w → t.kind ∈ kinds →
      (f (some t)).Reads c.advance j fun b v rest => D' b (t :: v) rest)
    (missing : (∀ t ∈ c.ahead.head?, t.kind ∉ kinds) → (f none).Reads c k D') (le : k ≤ j + 1) :
    (eat? kinds >>= f).Reads c k D' := by
  rcases eat?_cases kinds c with ⟨t, w, ahead, member, ate⟩ | ⟨absent, ate⟩
  · have ran : (eat? kinds >>= f) c = f (some t) c.advance := by rw [bind_apply, ate]
    exact (reads_of_advance ahead (eaten t w ahead member) ran).mono le fun _ _ _ _ h => h
  · have ran : (eat? kinds >>= f) c = f none c := by rw [bind_apply, ate]
    have read := missing absent
    unfold Reads at read ⊢
    rw [ran]
    exact read

theorem reads_eat_bind {f : Bool → Parser β} {kind : Token.Kind}
    (eaten : ∀ t w, c.ahead = t :: w → t.kind = kind →
      (f true).Reads c.advance j fun b v rest => D' b (t :: v) rest)
    (missing : (∀ t ∈ c.ahead.head?, t.kind ≠ kind) → (f false).Reads c k D') (le : k ≤ j + 1) :
    (eat kind >>= f).Reads c k D' := by
  have read : (eat? [kind] >>= fun found => f found.isSome).Reads c k D' := by
    apply reads_eat?_bind (j := j) _ _ le
    · intro t w ahead member
      exact eaten t w ahead (by simpa using member)
    · intro absent
      exact missing (by simpa using absent)
  have ran : (eat kind >>= f) c = (eat? [kind] >>= fun found => f found.isSome) c := by
    rcases eat?_cases [kind] c with ⟨t, w, _, _, ate⟩ | ⟨_, ate⟩ <;>
      simp only [bind_apply, eat_apply, ate]
  unfold Reads at read ⊢
  rw [ran]
  exact read

theorem reads_insideFunction (h : p.Reads c.enterFunction k D) :
    (insideFunction p).Reads c k D := by
  unfold Reads at h ⊢
  cases ran : p c.enterFunction with
  | ok a c' =>
    rw [ran] at h
    obtain ⟨onward, rest⟩ := h
    simp only [insideFunction, ran]
    refine ⟨⟨onward.ahead, onward.errors, ?_⟩, rest⟩
    have := onward.functionDepth
    simp [Cursor.leaveFunction, Cursor.enterFunction] at this ⊢
    omega
  | error e c' =>
    rw [ran] at h
    simp only [insideFunction, ran]
    cases e with
    | refused e =>
      refine ⟨h.ahead, h.errors, ?_⟩
      have := h.functionDepth
      simp [Cursor.leaveFunction, Cursor.enterFunction] at this ⊢
      omega
    | exhausted => exact h

/-- A line that recovers passes a token in any case; without an error it is read as it stands. -/
theorem reads_recover (unended : c.atEnd = false) (h : p.Reads c 1 D) :
    (recover p).Reads c 1 fun a u rest => ∃ b, a = some b ∧ D b u rest := by
  unfold Reads at h ⊢
  cases ran : p c with
  | ok a c' =>
    rw [ran] at h
    obtain ⟨onward, u, split, long, derived⟩ := h
    simp only [recover, ran]
    exact ⟨onward, u, split, long, fun clean => ⟨a, rfl, derived clean⟩⟩
  | error e c' =>
    rw [ran] at h
    cases e with
    | exhausted => exact h.elim
    | refused e =>
      simp only [recover, ran]
      have reported := c'.onward_report e.cause e.token
      have later := (c'.report e.cause e.token).onward_synchronize
      have total := h.trans (reported.trans later)
      obtain ⟨u, split⟩ := total.ahead
      obtain ⟨passed, _, _⟩ := (c'.report e.cause e.token).synchronize_onward
      refine ⟨total, u, split.symm, ?_, ?_⟩
      · have shrunk := passed.length_le
        have before := h.ahead.length_le
        have some_ : c.ahead ≠ [] := by simpa [Cursor.ahead_eq_nil] using unended
        have positive := List.length_pos_iff.mpr some_
        have lengths := congrArg List.length split
        simp only [List.length_append, Cursor.ahead_report, List.length_tail] at *
        omega
      · intro clean
        obtain ⟨_, same⟩ := h.errors_between (reported.trans later) clean
        exact absurd same (Cursor.errors_report_ne later)

end Parser

end SoftScript.Parse
