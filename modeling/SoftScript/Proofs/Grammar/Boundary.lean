import SoftScript.Proofs.Grammar.Accounted

/-! Programs put one after the other. Lines that are read without an error leave nothing behind but
the place they end at: from there a parser goes on as if the stream began there, whatever follows.
So if the tokens of a valid program are followed by others, these are read as they are by
themselves, errors included. -/
namespace SoftScript

open Likeness

namespace Token

theorem sentence_eq (tokens : List Token) :
    sentence tokens = (significant tokens).takeWhile (·.kind ≠ .eof) := by
  induction tokens with
  | nil => rfl
  | cons t rest ih =>
    by_cases ended : t.kind = .eof
    · simp [sentence, significant, ended, Kind.isTrivia]
    · by_cases trivia : t.kind.isTrivia
      · simpa [sentence, significant, ended, trivia] using ih
      · simpa [sentence, significant, ended, trivia] using ih

theorem significant_append (A B : List Token) :
    significant (A ++ B) = significant A ++ significant B :=
  List.filter_append A B

theorem unended_significant {A : List Token} (unended : ∀ t ∈ A, t.kind ≠ .eof) :
    ∀ t ∈ significant A, t.kind ≠ .eof :=
  fun t member => unended t (List.mem_of_mem_filter member)

theorem takeWhile_unended {A : List Token} (B : List Token) (unended : ∀ t ∈ A, t.kind ≠ .eof) :
    (A ++ B).takeWhile (·.kind ≠ .eof) = A ++ B.takeWhile (·.kind ≠ .eof) :=
  List.takeWhile_append_of_pos (by simpa using unended)

/-- The first token of a sentence is the first one that counts. -/
theorem mem_head_of_sentence {tokens : List Token} {t : Token}
    (first : t ∈ (sentence tokens).head?) : t ∈ (significant tokens).head? := by
  rw [sentence_eq] at first
  cases found : significant tokens with
  | nil => simp [found] at first
  | cons head rest =>
    rw [found] at first
    by_cases ended : head.kind = .eof
    · simp [ended] at first
    · simpa [ended] using first

/-- The end of a stream is no trivia. -/
theorem ended_significant {tokens : List Token} (ended : ∃ t ∈ tokens, t.kind = .eof) :
    ∃ t ∈ significant tokens, t.kind = .eof := by
  obtain ⟨t, member, kind⟩ := ended
  exact ⟨t, List.mem_filter.mpr ⟨member, by simp [kind, Kind.isTrivia]⟩, kind⟩

theorem sentence_append {A : List Token} (B : List Token) (unended : ∀ t ∈ A, t.kind ≠ .eof) :
    sentence (A ++ B) = significant A ++ sentence B := by
  rw [sentence_eq, significant_append, takeWhile_unended _ (unended_significant unended),
    ← sentence_eq]

end Token

theorem Token.Correspondence.inFull_exact : Token.Correspondence.inFull.likeness.Exact :=
  ⟨Eq.symm, id, id⟩

namespace Parse

open SoftScript.Parse.Parser SoftScript.Grammar

namespace Cursor

/-- In a stream that ends, the tokens that a cursor has passed, the one in view and those to come
are the significant tokens. None of those passed is an end. -/
def Views (tokens : List Token) (c : Cursor) : Prop :=
  ∃ passed, (∀ t ∈ passed, t.kind ≠ .eof) ∧
    Token.significant tokens = passed ++ c.current :: Token.significant c.rest

variable {tokens passed : List Token} {c : Cursor}

theorem views_fetch (ended : ∃ t ∈ Token.significant tokens, t.kind = .eof)
    (unended : ∀ t ∈ passed, t.kind ≠ .eof)
    (split : Token.significant tokens = passed ++ Token.significant c.rest) :
    Token.significant tokens = passed ++ c.fetch.current :: Token.significant c.fetch.rest := by
  have read := significant_pull c.rest c.comments
  have drained := rest_of_pull_none c.rest c.comments
  rcases found : pull c.rest c.comments with ⟨_ | t, rest, comments⟩
  · -- The end is still to come, so there is something to find.
    obtain ⟨last, member, isEnd⟩ := ended
    simp only [found] at read drained
    rw [split, read, drained trivial] at member
    exact absurd isEnd (unended last (by simpa [Token.significant] using member))
  · rw [split, read]
    simp [fetch, found]

theorem Views.advance (ended : ∃ t ∈ Token.significant tokens, t.kind = .eof)
    (views : c.Views tokens) : c.advance.Views tokens := by
  obtain ⟨passed, unended, split⟩ := views
  cases done : c.atEnd with
  | true =>
    have stays : c.advance = c := by simp [Cursor.advance, done]
    rw [stays]
    exact ⟨passed, unended, split⟩
  | false =>
    have moves : c.advance = { c.fetch with previous := c.current } := by
      simp [Cursor.advance, done]
    have here : ∀ t ∈ passed ++ [c.current], t.kind ≠ .eof := by
      intro t member
      rcases List.mem_append.mp member with member | member
      · exact unended t member
      · rw [List.mem_singleton.mp member]
        simpa [atEnd] using done
    have seen := views_fetch ended here (by simpa using split)
    rw [moves]
    exact ⟨_, here, seen⟩

theorem views_ofTokens (ended : ∃ t ∈ Token.significant tokens, t.kind = .eof) :
    Token.significant tokens =
      (ofTokens tokens).current :: Token.significant (ofTokens tokens).rest := by
  let start : Cursor := ⟨.eof 1 0, .eof 1 0, tokens, #[], #[], 0⟩
  have whole : Token.significant tokens = [] ++ Token.significant start.rest := rfl
  exact views_fetch ended (by simp) whole

theorem ahead_eq (c : Cursor) :
    c.ahead = (c.current :: Token.significant c.rest).takeWhile (·.kind ≠ .eof) := by
  by_cases ended : c.current.kind = .eof
  · simp [ahead, atEnd, ended]
  · simp [ahead, atEnd, ended, Token.sentence_eq]

/-- What is ahead of a cursor tells where it stands. -/
theorem Views.view {A B : List Token} (views : c.Views (A ++ B))
    (unended : ∀ t ∈ A, t.kind ≠ .eof) (ahead : c.ahead = Token.sentence B) :
    c.current :: Token.significant c.rest = Token.significant B := by
  obtain ⟨passed, before, split⟩ := views
  rw [Token.significant_append] at split
  have upToEnd := congrArg (List.takeWhile (·.kind ≠ .eof)) split
  rw [Token.takeWhile_unended _ (Token.unended_significant unended),
    Token.takeWhile_unended _ before, ← Token.sentence_eq, ← ahead_eq, ahead] at upToEnd
  rw [List.append_cancel_right upToEnd] at split
  exact (List.append_cancel_left split).symm

end Cursor

/-- Cursors keep to the stream. -/
def Law.viewing {tokens : List Token} (ended : ∃ t ∈ Token.significant tokens, t.kind = .eof) :
    Law where
  cursor := Cursor.Views tokens
  token _ := True
  borne _ := True
  current _ := trivial
  advance views := views.advance ended
  report views _ := views
  enterFunction views := views
  leaveFunction views := views
  bears _ := trivial
  synthetic _ := trivial

/-- Lines read before are put in front of those still to be read and have no other effect. -/
theorem lines_done (line : Parser Stmt) (n : Nat) (done : Array Stmt) :
    lines line n done = (done.toList ++ ·) <$> lines line n #[] := by
  induction n generalizing done with
  | zero => rfl
  | succ n ih =>
    simp only [lines, map_bind]
    congr 1
    funext ended
    cases ended with
    | true => simp
    | false =>
      simp only [Bool.false_eq_true, ↓reduceIte, map_bind]
      congr 1
      funext recovered
      cases recovered with
      | none => exact ih done
      | some stmt =>
        change lines line n (done.push stmt) = _ <$> lines line n (#[].push stmt)
        rw [ih (done.push stmt), ih (#[].push stmt)]
        simp

/-- Lines that a derivation gives are read one after the other, and from there on a parser reads
what follows. What every step keeps, they keep. -/
theorem lines_past {c : Cursor} {inside : Bool} {v : List Token} (h : Lines inside w p)
    (ahead : c.ahead = w ++ v) (hf : c.inFunction = inside)
    (open_ : ∀ t ∈ v.head?, t.kind ≠ .elseWord) (depth n : Nat)
    (fits : 8 * c.ahead.length + 6 ≤ depth) (room : c.ahead.length < n) :
    ∃ n' c', lines (line depth) n #[] c = ((p ++ ·) <$> lines (line depth) n' #[]) c' ∧
      0 < n' ∧ c'.ahead = v ∧ c'.errors = c.errors ∧ c'.functionDepth = c.functionDepth ∧
      ∀ law : Law, law.cursor c → law.cursor c' := by
  induction p generalizing c w n with
  | nil =>
    cases h
    exact ⟨n, c, by simp, by omega, ahead, rfl, rfl, fun _ => id⟩
  | cons s p ih =>
    cases h with
    | @cons _ u _ w _ first after =>
      obtain ⟨n, rfl⟩ : ∃ m, n = m + 1 := ⟨n - 1, by omega⟩
      have follow : ∀ t ∈ (w ++ v).head?, t.kind ≠ .elseWord := by
        cases w with
        | nil => exact open_
        | cons t w => simpa using lines_start after
      have split : c.ahead = u ++ (w ++ v) := by simpa using ahead
      obtain ⟨c₁, ran, ahead₁, errors₁, depth₁⟩ :=
        passes_line first c depth (w ++ v) split hf follow fits
      obtain ⟨t, u, rfl, _⟩ := first.starts
      simp only [split, List.length_append, List.length_cons] at fits room
      obtain ⟨n', c', later, pos, ahead', errors', depth', kept⟩ :=
        ih after ahead₁ (by simp [Cursor.inFunction, depth₁, ← hf]) n
          (by simp only [ahead₁, List.length_append]; omega)
          (by simp only [ahead₁, List.length_append]; omega)
      refine ⟨n', c', ?_, pos, ahead', errors'.trans errors₁, depth'.trans depth₁, ?_⟩
      · have asked : atEnd c = .ok c.atEnd c := rfl
        have recovered : recover (line depth) c = .ok (some s) c₁ := by simp [recover, ran]
        rw [lines, bind_apply, asked, Cursor.atEnd_of_ahead split]
        simp only [Bool.false_eq_true, ↓reduceIte, bind_apply, recovered]
        rw [lines_done]
        simp only [map_eq_pure_bind, bind_apply, later]
        rcases lines (line depth) n' #[] c' with ⟨q, c''⟩ | ⟨e, c''⟩ <;> rfl
      · intro law here
        have read := (keepsAt law depth).line c here
        rw [ran] at read
        exact kept law read.1

/-- At the end there is nothing to read. -/
theorem lines_of_atEnd {line : Parser Stmt} {n : Nat} {c c' : Cursor} {p : List Stmt}
    (ended : c.atEnd = true) (ran : lines line n #[] c = .ok p c') : p = [] ∧ c' = c := by
  cases n with
  | zero => cases ran
  | succ n =>
    have asked : atEnd c = .ok c.atEnd c := rfl
    rw [lines, bind_apply, asked, ended] at ran
    cases ran
    exact ⟨rfl, rfl⟩

theorem comments_ofTokens (tokens : List Token) :
    (ofTokens tokens).comments = Token.commentSpans (tokens.takeWhile (·.kind ≠ .eof)) := by
  obtain ⟨p, c, ran⟩ := lines_ran tokens
  obtain ⟨_, _, noted⟩ := drawn_of_lines ran
  rw [ofTokens_of_lines ran, ← Token.commentSpans_throughEnd]
  exact noted

theorem comments_append {A : List Token} {e : Token} (B : List Token)
    (unended : ∀ t ∈ A, t.kind ≠ .eof) (isEnd : e.kind = .eof) :
    (ofTokens (A ++ B)).comments = (ofTokens (A ++ [e])).comments ++ (ofTokens B).comments := by
  simp only [comments_ofTokens, Token.takeWhile_unended _ unended, Token.commentSpans_append]
  simp [isEnd]

/-- Where two cursors view the same tokens and have noted no error, the lines read from there are
the same, whatever was passed before, and so are the errors noted on the way. -/
theorem lines_of_view {tokens : List Token} {c c₁ c₂ : Cursor} {n n' m m' : Nat}
    {p q : List Stmt}
    (view : c.current :: Token.significant c.rest =
      (Cursor.ofTokens tokens).current :: Token.significant (Cursor.ofTokens tokens).rest)
    (clean : c.errors = #[]) (outside : c.functionDepth = 0)
    (ran : lines (line n) n' #[] c = .ok q c₁)
    (alone : lines (line m) m' #[] (Cursor.ofTokens tokens) = .ok p c₂) :
    q = p ∧ c₁.errors = c₂.errors := by
  obtain ⟨current, rest⟩ := List.cons.inj view
  cases ended : c.atEnd with
  | true =>
    -- At the end nothing is read, so the tokens passed last may differ.
    have ended' : (Cursor.ofTokens tokens).atEnd = true := by
      rw [← ended, Cursor.atEnd, Cursor.atEnd, current]
    obtain ⟨rfl, rfl⟩ := lines_of_atEnd ended ran
    obtain ⟨rfl, rfl⟩ := lines_of_atEnd ended' alone
    exact ⟨rfl, clean⟩
  | false =>
    have left : List.Forall₂ Eq (Token.significant c.rest)
        (Token.significant (Cursor.ofTokens tokens).rest) := by
      rw [rest]
      exact List.forall₂_same.mpr fun _ _ => rfl
    have alike : c.Alike .inFull (Cursor.ofTokens tokens) :=
      ⟨current, .inl ended, left, by rw [clean]; exact .nil, outside⟩
    have met := agree_lines (agreeAt .inFull n m).line n' m' .nil _ _ alike
    rw [ran, alone] at met
    cases met with
    | ok statements cursors =>
      have same : List.Forall₂ (fun e e' : Error => e' = e) c₁.errors.toList c₂.errors.toList := by
        apply cursors.errors.imp
        rintro ⟨cause, token⟩ ⟨cause', token'⟩ ⟨rfl, rfl⟩
        rfl
      refine ⟨?_, Array.toList_inj.mp ?_⟩
      · exact (Stmt.AllAlike.eq Token.Correspondence.inFull_exact (.of_related statements)).symm
      · exact (eq_of_related same fun _ _ => id).symm

/-- Programs compose. If the tokens of a valid program are followed by others, of which there is
an end and the first is no `else`, then the statements are those of the program and after them
those that the other tokens give by themselves, the errors are those of the other tokens, and the
comments are those of both. -/
theorem ofTokens_append {A B : List Token} {e : Token} (unended : ∀ t ∈ A, t.kind ≠ .eof)
    (isEnd : e.kind = .eof) (valid : (ofTokens (A ++ [e])).isValid = true)
    (ended : ∃ t ∈ B, t.kind = .eof)
    (noElse : ∀ t ∈ (Token.significant B).head?, t.kind ≠ .elseWord) :
    ofTokens (A ++ B) =
      ⟨(ofTokens (A ++ [e])).statements ++ (ofTokens B).statements,
        (ofTokens (A ++ [e])).comments ++ (ofTokens B).comments, (ofTokens B).errors⟩ := by
  have endsB := Token.ended_significant ended
  have ends : ∃ t ∈ Token.significant (A ++ B), t.kind = .eof := by
    obtain ⟨t, member, kind⟩ := endsB
    exact ⟨t, by rw [Token.significant_append]; exact List.mem_append_right _ member, kind⟩
  have derived : Lines false (Token.significant A) (ofTokens (A ++ [e])).statements := by
    have derived := derived_of_accepted valid
    rw [Token.sentence_append _ unended] at derived
    simpa [Token.sentence, isEnd, Token.significant, Grammar.Program] using derived
  have ahead : (Cursor.ofTokens (A ++ B)).ahead = Token.significant A ++ Token.sentence B := by
    rw [Cursor.ahead_ofTokens, Token.sentence_append _ unended]
  obtain ⟨p, c₁, ran⟩ := lines_ran (A ++ B)
  obtain ⟨q, c₂, alone⟩ := lines_ran B
  have fits := depth_ofTokens (A ++ B)
  obtain ⟨n, c, past, _, aheadB, errors, depth, kept⟩ := lines_past derived ahead
    (inFunction_ofTokens _) (fun t first => noElse t (Token.mem_head_of_sentence first)) _
    (depthFor (Cursor.ofTokens (A ++ B)).remaining) fits (by omega)
  have viewed := kept (.viewing ends) ⟨[], by simp, Cursor.views_ofTokens ends⟩
  have view := (viewed.view unended aheadB).trans (Cursor.views_ofTokens endsB)
  have before := ran
  rw [bounded, past, map_eq_pure_bind, bind_apply] at ran
  cases later : lines (line (depthFor (Cursor.ofTokens (A ++ B)).remaining)) n #[] c with
  | error stop c' =>
    rw [later] at ran
    cases ran
  | ok r c' =>
    rw [later] at ran
    cases ran
    obtain ⟨rfl, same⟩ := lines_of_view view errors depth later alone
    have comments := comments_append B unended isEnd
    rw [ofTokens_of_lines before] at comments ⊢
    rw [ofTokens_of_lines alone] at comments ⊢
    exact congrArg₂ (Program.mk _) comments (congrArg Array.toList same)

/-- A program that ends in an open `if`, with a comment after it, and without its end token. -/
def settled : List Token :=
  (Token.tokenize "fun f() { return 1; } if (f()) print(2); // a").dropLast

/-- Tokens of which little can be read, and more after their end. -/
def broken : List Token :=
  Token.tokenize "\x7d var 1; /* b */ x = ; print(3" ++ Token.tokenize "4;"

theorem ofTokens_append_broken : (ofTokens broken).isValid = false ∧
    ofTokens (settled ++ broken) =
      ⟨(ofTokens (settled ++ [.eof 1 0])).statements ++ (ofTokens broken).statements,
        (ofTokens (settled ++ [.eof 1 0])).comments ++ (ofTokens broken).comments,
        (ofTokens broken).errors⟩ := by
  have conditions : (ofTokens broken).isValid = false ∧ (∀ t ∈ settled, t.kind ≠ .eof) ∧
      (ofTokens (settled ++ [.eof 1 0])).isValid = true ∧ (∃ t ∈ broken, t.kind = .eof) ∧
      ∀ t ∈ (Token.significant broken).head?, t.kind ≠ .elseWord := by
    decide +kernel
  obtain ⟨refused, unended, valid, ended, noElse⟩ := conditions
  exact ⟨refused, ofTokens_append unended rfl valid ended noElse⟩

end Parse

end SoftScript
