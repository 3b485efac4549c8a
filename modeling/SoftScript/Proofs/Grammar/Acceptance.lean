import SoftScript.Parse.Program
import SoftScript.Proofs.Grammar.Completeness

/-! Which programs are valid. Reading always comes to an end within the depth it is given, and it
never refuses a program as a whole, since every line recovers from its own errors. Without an error
the statements are those of the one derivation that the tokens have. -/
namespace SoftScript.Parse

open SoftScript.Parse.Parser SoftScript.Grammar

theorem sentence_length_le (tokens : List Token) :
    (Token.sentence tokens).length ≤ tokens.length := by
  unfold Token.sentence Token.significant
  exact Nat.le_trans (List.length_filter_le _ _) (List.takeWhile_sublist _).length_le

theorem Cursor.ahead_length_le (c : Cursor) : c.ahead.length ≤ c.remaining := by
  unfold Cursor.ahead Cursor.remaining
  split
  · simp
  · have := sentence_length_le c.rest
    simp
    omega

theorem lines_not_refused (line : Parser Stmt) (n : Nat) (done : Array Stmt) (c c' : Cursor)
    (e : Error) : lines line n done c ≠ .error (.refused e) c' := by
  induction n generalizing done c with
  | zero =>
    have ended : lines line 0 done c = .error .exhausted c := rfl
    simp [ended]
  | succ n ih =>
    have ended : atEnd c = .ok c.atEnd c := rfl
    rw [lines, bind_apply, ended]
    cases c.atEnd with
    | true => simp [pure, EStateM.pure]
    | false =>
      simp only [Bool.false_eq_true, ↓reduceIte, bind_apply, recover]
      rcases line c with ⟨s, c₁⟩ | ⟨_ | _, c₁⟩
      · exact ih (done.push s) c₁
      · exact ih done _
      · simp

/-- The lines of a derivation are read up to the end. -/
theorem passes_program {c : Cursor} {inside : Bool} (h : Lines inside w p) (ahead : c.ahead = w)
    (hf : c.inFunction = inside) (depth n : Nat) (fits : 8 * c.ahead.length + 6 ≤ depth)
    (room : c.ahead.length < n) (done : Array Stmt) :
    (lines (line depth) n done).Passes c (done.toList ++ p) [] := by
  induction p generalizing c w n done with
  | nil =>
    cases h
    obtain ⟨n, rfl⟩ : ∃ m, n = m + 1 := ⟨n - 1, by omega⟩
    unfold lines
    apply passes_atEnd ahead
    simpa using passes_pure ahead
  | cons s p ih =>
    cases h with
    | @cons _ u _ v _ first after =>
      obtain ⟨n, rfl⟩ : ∃ m, n = m + 1 := ⟨n - 1, by omega⟩
      have passed := passes_line first c depth v ahead hf (lines_start after) fits
      obtain ⟨t, u, rfl, _⟩ := first.starts
      unfold lines
      apply passes_not_atEnd ahead
      apply (passes_recover passed).bind
      intro c₁ ahead₁ in₁
      simp only [ahead, List.length_append, List.length_cons] at fits room
      have passed := ih after ahead₁ (in₁.trans hf) n (by rw [ahead₁]; omega)
        (by rw [ahead₁]; omega) (done.push s)
      simpa using passed

/-- What reading a program gives, told by the lines at its core. -/
theorem ofTokens_of_lines {tokens : List Token} {c' : Cursor}
    (h : bounded (fun n => lines (line n) n #[]) (Cursor.ofTokens tokens) = .ok p c') :
    ofTokens tokens = ⟨p, c'.comments.toList, c'.errors.toList⟩ := by
  simp only [ofTokens, program, bind_apply, h]
  rfl

theorem errors_ofTokens (tokens : List Token) : (Cursor.ofTokens tokens).errors = #[] := rfl

theorem inFunction_ofTokens (tokens : List Token) :
    (Cursor.ofTokens tokens).inFunction = false := rfl

theorem depth_ofTokens (tokens : List Token) :
    8 * (Cursor.ofTokens tokens).ahead.length + 6 ≤
      depthFor (Cursor.ofTokens tokens).remaining := by
  have := (Cursor.ofTokens tokens).ahead_length_le
  unfold depthFor
  omega

theorem accepted_of_derived {tokens : List Token} (h : Grammar.Program (Token.sentence tokens) p) :
    (ofTokens tokens).isValid = true ∧ (ofTokens tokens).statements = p := by
  have fits := depth_ofTokens tokens
  obtain ⟨c', ran, _, errors, _⟩ := passes_program h (Cursor.ahead_ofTokens tokens)
    (inFunction_ofTokens tokens) _ (depthFor (Cursor.ofTokens tokens).remaining) fits (by omega) #[]
  rw [ofTokens_of_lines ran]
  simp [Program.isValid, errors, errors_ofTokens]

theorem derived_of_accepted {tokens : List Token} (h : (ofTokens tokens).isValid = true) :
    Grammar.Program (Token.sentence tokens) (ofTokens tokens).statements := by
  have fits := depth_ofTokens tokens
  have below := (readsAll (depthFor (Cursor.ofTokens tokens).remaining)).lineBelow false
    ((Cursor.ofTokens tokens).ahead.length + 1) (by omega)
  have read := reads_lines below (inFunction_ofTokens tokens) (by omega)
    (depthFor (Cursor.ofTokens tokens).remaining) #[] (by omega)
  unfold Reads at read
  cases ran : lines (line (depthFor (Cursor.ofTokens tokens).remaining))
      (depthFor (Cursor.ofTokens tokens).remaining) #[] (Cursor.ofTokens tokens) with
  | error stop c' =>
    cases stop with
    | refused e => exact absurd ran (lines_not_refused _ _ _ _ _ _)
    | exhausted => simp [ran] at read
  | ok p c' =>
    rw [ran] at read
    obtain ⟨_, u, split, _, read⟩ := read
    rw [ofTokens_of_lines ran] at h ⊢
    have clean : c'.errors = (Cursor.ofTokens tokens).errors := by
      simpa [Program.isValid, errors_ofTokens] using h
    obtain ⟨ended, more, rfl, derived⟩ := read clean
    rw [ended, List.append_nil, Cursor.ahead_ofTokens] at split
    simpa [Grammar.Program, split] using derived

/-- The parser accepts exactly what the grammar derives, and with the tree of the derivation. -/
theorem accepts_iff_derives (tokens : List Token) (p : List Stmt) :
    (ofTokens tokens).isValid = true ∧ (ofTokens tokens).statements = p ↔
      Grammar.Program (Token.sentence tokens) p := by
  constructor
  · rintro ⟨valid, rfl⟩
    exact derived_of_accepted valid
  · exact accepted_of_derived

end SoftScript.Parse
