import Mathlib.Data.List.TakeWhile
import SoftScript.CommandLine
import SoftScript.Proofs.Run.Appending
import SoftScript.Proofs.Session.History

/-! What a prompt makes of the lines typed at it. The lines that it takes for source, and the files that it
is asked to run, are run one after the other on one session, as if nothing else had been written; each
answer stands after the mark of its line. A line is taken for source by its first character, not by
its first word: of lines that begin with a minus sign none is run. -/
namespace SoftScript

namespace Session

variable {n : Nat} {entry : Entry} {s : Session} {m : Machine}

/-- The same session with something else written, to an output that takes everything. -/
def writing (bytes : ByteArray) (s : Session) : Session :=
  { s with machine.output := ⟨bytes, none⟩ }

/-- What a run has added to the output. -/
def Turn.printed (turn : Turn) : ByteArray :=
  let written := turn.after.machine.output.written
  written.extract turn.before.machine.output.written.size written.size

/-- The session after some runs. -/
def afterAll (s : Session) (turns : List Turn) : Session :=
  turns.foldl (fun _ turn => turn.after) s

/-- What comes of a source does not depend on what stands in the output, and is added to it. -/
theorem answer?_onto (n : Nat) (entry : Entry) (free : m.output.limit = none) (before : ByteArray) :
    answer? n entry (m.onto before) =
        (answer? n entry m).map (fun answer => { answer with machine := answer.machine.onto before }) ∧
      ∀ answer ∈ answer? n entry m, answer.machine.output.limit = none := by
  obtain ⟨path, contents⟩ := entry
  cases contents with
  | error error => exact ⟨rfl, by rintro _ ⟨⟩; exact free⟩
  | ok source =>
    unfold answer?
    dsimp only
    by_cases valid : (Parse.ofSource source).isValid = true
    · rw [if_pos valid, if_pos valid]
      obtain ⟨free', same⟩ := Run.appends_interpret before n (Parse.ofSource source).statements free
      rw [same]
      rcases ended : Run.interpret n (Parse.ofSource source).statements m with ⟨_, m'⟩ | ⟨_ | _, m'⟩
      · rw [ended] at free'
        exact ⟨rfl, by rintro _ ⟨⟩; exact free'⟩
      · rw [ended] at free'
        exact ⟨rfl, by rintro _ ⟨⟩; exact free'⟩
      · exact ⟨rfl, by simp⟩
    · rw [if_neg valid, if_neg valid]
      exact ⟨rfl, by rintro _ ⟨⟩; exact free⟩

/-- A run on an output that takes everything adds to it what it prints, and it prints and does the same if
something else has been written before. -/
theorem runFile_writing (n : Nat) (entry : Entry) (free : s.machine.output.limit = none)
    (bytes : ByteArray) :
    (s.writing bytes).runFile n entry.path entry.contents =
        (s.runFile n entry.path entry.contents).map (fun ended =>
          (ended.1, ended.2.writing (bytes ++ Turn.printed ⟨entry, s, ended.1, ended.2⟩))) ∧
      ∀ ended ∈ s.runFile n entry.path entry.contents, ended.2.machine.output =
        ⟨s.machine.output.written ++ Turn.printed ⟨entry, s, ended.1, ended.2⟩, none⟩ := by
  -- Both sessions have a machine with nothing written, and something in front of its output.
  have core (before : ByteArray) : (s.writing before).machine =
      ({ s.machine with output := .unlimited } : Machine).onto before := by
    simp [writing, Machine.onto, Output.unlimited]
  have own : s = s.writing s.machine.output.written := by
    rw [writing, ← free]
  have ended (before : ByteArray) : (s.writing before).runFile n entry.path entry.contents =
      (answer? n entry { s.machine with output := .unlimited }).map (fun answer =>
        (answer.status, ⟨answer.machine.onto before, s.emitter.emit? answer.failure?⟩)) := by
    rw [runFile_eq, core, (answer?_onto n entry rfl before).1, Option.map_map]
    rfl
  have here := ended s.machine.output.written
  rw [← own] at here
  rw [here, ended bytes]
  have printed (status : Status) (m : Machine) (emitter : Report.Emitter) :
      Turn.printed ⟨entry, s, status, ⟨m.onto s.machine.output.written, emitter⟩⟩ =
        m.output.written := by
    exact ByteArray.extract_append_eq_right rfl ByteArray.size_append
  cases answer? n entry { s.machine with output := .unlimited } with
  | none => simp
  | some answer =>
    simp only [Option.map_some, printed]
    exact ⟨rfl, by rintro _ ⟨⟩; rw [printed]; rfl⟩

/-- What runs print stands in the output one after the other. -/
theorem output_afterAll (free : s.machine.output.limit = none) (entries : List Entry) :
    (s.afterAll (history n s entries)).machine.output =
      ⟨((history n s entries).map Turn.printed).foldl (· ++ ·) s.machine.output.written, none⟩ := by
  induction entries generalizing s with
  | nil =>
    change s.machine.output = ⟨s.machine.output.written, none⟩
    rw [← free]
  | cons entry rest ih =>
    obtain ⟨_, grown⟩ := runFile_writing n entry free .empty
    rw [history]
    cases ended : s.runFile n entry.path entry.contents with
    | none =>
      change s.machine.output = ⟨s.machine.output.written, none⟩
      rw [← free]
    | some result =>
      obtain ⟨status, s'⟩ := result
      have output := grown (status, s') ended
      have later := ih (s := s') (by rw [output])
      rw [output] at later
      exact later

end Session

namespace Prompt

open Session

def commandNames : List String := ["-h", "-help", "-r", "-run", "-e", "-exit"]

/-- The first word of a text is the name of a command. -/
def namesCommand (text : List Char) : Bool :=
  commandNames.contains (String.ofList (splitWord text).1).toLower

/-- A text that begins with a minus sign. -/
def beginsWithMinus (text : List Char) : Bool := text.head? = some '-'

/-- What a line asks for if its first word decides about it. -/
def Action.byFirstWord (line : String) : Action :=
  let text := withoutBreaks line.toList
  if namesCommand text then .ofCommand text
  else if Text.allBlank text then .skip
  else .run (String.ofList text)

variable {text : List Char} {line : String}

theorem namesCommand_of_allBlank (blank : Text.allBlank text = true) : namesCommand text = false := by
  have nothing : text.dropWhile Text.isBlank = [] := by
    rw [List.dropWhile_eq_nil_iff]
    simpa [Text.allBlank] using blank
  rw [namesCommand, splitWord, nothing]
  decide +kernel

theorem allBlank_of_beginsWithMinus (minus : beginsWithMinus text = true) :
    Text.allBlank text = false := by
  obtain ⟨rest, rfl⟩ := List.head?_eq_some_iff.mp (of_decide_eq_true minus)
  have visible : Text.isBlank '-' = false := by decide
  simp [Text.allBlank, visible]

/-- Nothing comes of a command that is not known. -/
theorem ofCommand_of_unknown (unknown : namesCommand text = false) : Action.ofCommand text = .skip := by
  unfold namesCommand at unknown
  unfold Action.ofCommand
  dsimp only
  generalize (String.ofList (splitWord text).1).toLower = name at unknown ⊢
  split
  case h_9 => rfl
  all_goals simp [commandNames] at unknown

theorem ofCommand_ne_run (text : List Char) (source : String) : Action.ofCommand text ≠ .run source := by
  unfold Action.ofCommand
  dsimp only
  split
  case h_1 | h_2 => split <;> simp
  all_goals simp

/-- The lines that are run, and what is run of them. -/
theorem ofLine_eq_run_iff {source : String} : Action.ofLine line = .run source ↔
    beginsWithMinus (withoutBreaks line.toList) = false ∧
      Text.allBlank (withoutBreaks line.toList) = false ∧
      source = String.ofList (withoutBreaks line.toList) := by
  unfold Action.ofLine
  dsimp only
  generalize withoutBreaks line.toList = text
  by_cases minus : text.head? = some '-'
  · simp [beginsWithMinus, minus, ofCommand_ne_run]
  · rw [if_neg minus]
    by_cases blank : Text.allBlank text = true
    · simp [blank]
    · simp [beginsWithMinus, minus, blank, eq_comm]

/-- The first character decides as the first word would, unless a line begins with a minus sign and no
command, or with a blank and a command. -/
theorem ofLine_eq_byFirstWord_iff : Action.ofLine line = Action.byFirstWord line ↔
    beginsWithMinus (withoutBreaks line.toList) = namesCommand (withoutBreaks line.toList) := by
  unfold Action.ofLine Action.byFirstWord
  dsimp only
  generalize withoutBreaks line.toList = text
  by_cases minus : text.head? = some '-'
  · have begins : beginsWithMinus text = true := decide_eq_true minus
    rw [if_pos minus, begins]
    cases known : namesCommand text with
    | true => simp
    | false =>
      rw [ofCommand_of_unknown known]
      simp [allBlank_of_beginsWithMinus begins]
  · have begins : beginsWithMinus text = false := decide_eq_false minus
    rw [if_neg minus, begins]
    cases known : namesCommand text with
    | false => simp
    | true =>
      have visible : Text.allBlank text = false := by
        by_contra blank
        simp [namesCommand_of_allBlank (by simpa using blank)] at known
      have other := ofCommand_ne_run text (String.ofList text)
      simp [visible, other.symm]

/-- A line that begins with a minus sign and names no command is dropped. -/
theorem dropped_of_unknown (minus : beginsWithMinus (withoutBreaks line.toList) = true)
    (unknown : namesCommand (withoutBreaks line.toList) = false) : Action.ofLine line = .skip ∧
      Action.byFirstWord line = .run (String.ofList (withoutBreaks line.toList)) := by
  unfold Action.ofLine Action.byFirstWord
  dsimp only
  rw [if_pos (of_decide_eq_true minus), ofCommand_of_unknown unknown, unknown,
    allBlank_of_beginsWithMinus minus]
  exact ⟨rfl, rfl⟩

/-! What is asked of the session. -/

/-- The lines before the one at which the prompt is left, or the first that is not text. -/
def heeded (classify : String → Action) : List ByteArray → List String
  | [] => []
  | bytes :: rest =>
    match String.fromUTF8? bytes with
    | none => []
    | some line => if classify line = .leave then [] else line :: heeded classify rest

/-- What is done about lines until the prompt is left. -/
def taken (classify : String → Action) (lines : List ByteArray) : List Action :=
  (heeded classify lines).map classify

/-- What an action runs. -/
def Action.request? (read : Reader) : Action → Option Entry
  | .run source => some ⟨"prompt", .ok source⟩
  | .runFile path => some ⟨path, read path⟩
  | _ => none

/-- What actions run. -/
def asked (read : Reader) (actions : List Action) : List Entry :=
  actions.filterMap (Action.request? read)

/-- What stands on the screen: each action behind a mark, with what it said or printed. -/
def dialogue (mark : String) : List Action → List ByteArray → ByteArray
  | [], _ => mark.toUTF8
  | .run _ :: rest, printed | .runFile _ :: rest, printed =>
    mark.toUTF8 ++ printed.headD .empty ++ dialogue mark rest printed.tail
  | .say lines :: rest, printed =>
    mark.toUTF8 ++ (String.join (lines.map (· ++ "\n"))).toUTF8 ++ dialogue mark rest printed
  | .leave :: rest, printed | .skip :: rest, printed => mark.toUTF8 ++ dialogue mark rest printed

/-- Whether the lines end before the first that is not text, or the prompt is left. -/
def isHeard (lines : List ByteArray) : Bool :=
  (lines[(heeded Action.ofLine lines).length]?).all fun bytes => (String.fromUTF8? bytes).isSome

/-- Lines are taken alike if those that are heeded are. -/
theorem taken_eq_iff {classify other : String → Action}
    (leaves : ∀ line, classify line = .leave → other line = .leave) (lines : List ByteArray) :
    taken other lines = taken classify lines ↔
      ∀ line ∈ heeded classify lines, classify line = other line := by
  induction lines with
  | nil => simp [taken, heeded]
  | cons bytes rest ih =>
    unfold taken heeded
    cases decoded : String.fromUTF8? bytes with
    | none => simp
    | some line =>
      dsimp only
      by_cases left : classify line = .leave
      · simp [left, leaves line left]
      · rw [if_neg left]
        by_cases left' : other line = .leave
        · simp [left, left']
        · rw [if_neg left', List.forall_mem_cons, ← ih, List.map_cons, List.map_cons,
            List.cons.injEq, eq_comm (a := other line)]
          rfl

variable {n : Nat} {read : Reader} {mark : String} {s : Session} {action : Action} {entry : Entry}

/-- An action that runs something. -/
theorem perform_of_request? (asks : action.request? read = some entry) (s : Session) :
    action.perform n read s =
      (s.runFile n entry.path entry.contents).map fun ended => (ended.2, false) := by
  cases action with
  | run source | runFile path =>
    cases asks
    rfl
  | say | leave | skip => cases asks

theorem dialogue_of_request? (asks : action.request? read = some entry) (rest : List Action)
    (first : ByteArray) (printed : List ByteArray) : dialogue mark (action :: rest) (first :: printed) =
      mark.toUTF8 ++ first ++ dialogue mark rest printed := by
  cases action with
  | run source | runFile path => rfl
  | say | leave | skip => cases asks

/-- What is said on an action that runs nothing. -/
def Action.said : Action → String
  | .say lines => String.join (lines.map (· ++ "\n"))
  | .run _ | .runFile _ | .leave | .skip => ""

theorem append_toUTF8_empty (bytes : ByteArray) : bytes ++ "".toUTF8 = bytes :=
  ByteArray.append_empty

theorem say_writing (s : Session) (bytes : ByteArray) (text : String) :
    (s.writing bytes).say text = s.writing (bytes ++ text.toUTF8) := by
  unfold Session.say
  rw [Output.write_unlimited rfl]
  rfl

theorem perform_of_idle (asks : action.request? read = none) (stays : action ≠ .leave) (s : Session)
    (bytes : ByteArray) : action.perform n read (s.writing bytes) =
      some (s.writing (bytes ++ action.said.toUTF8), false) := by
  cases action with
  | run | runFile => cases asks
  | leave => contradiction
  | say lines => rw [Action.perform, say_writing, Action.said]
  | skip =>
    rw [Action.said, append_toUTF8_empty]
    rfl

theorem dialogue_of_idle (asks : action.request? read = none) (rest : List Action)
    (printed : List ByteArray) : dialogue mark (action :: rest) printed =
      mark.toUTF8 ++ action.said.toUTF8 ++ dialogue mark rest printed := by
  cases action with
  | run | runFile => cases asks
  | say lines => rfl
  | leave | skip =>
    rw [Action.said, append_toUTF8_empty]
    rfl

/-- The lines that are heeded are answered one after the other. -/
theorem converse_writing (free : s.machine.output.limit = none) (lines : List ByteArray)
    (bytes : ByteArray) :
    Command.converse mark (Command.reaction n read .prompt) lines (s.writing bytes) =
      if (history n s (asked read (taken Action.ofLine lines))).length =
          (asked read (taken Action.ofLine lines)).length then
        some (isHeard lines, (s.afterAll (history n s (asked read (taken Action.ofLine lines)))).writing
          (bytes ++ dialogue mark (taken Action.ofLine lines)
            ((history n s (asked read (taken Action.ofLine lines))).map Turn.printed)))
      else none := by
  induction lines generalizing s bytes with
  | nil =>
    rw [Command.converse, say_writing]
    rfl
  | cons first rest ih =>
    rw [Command.converse, say_writing]
    cases decoded : String.fromUTF8? first with
    | none => simp [heeded, taken, asked, isHeard, decoded, history, dialogue, afterAll]
    | some line =>
      have reacts : Command.reaction n read .prompt (s.writing (bytes ++ mark.toUTF8)) line =
          (Action.ofLine line).perform n read (s.writing (bytes ++ mark.toUTF8)) := rfl
      dsimp only
      rw [reacts]
      by_cases left : Action.ofLine line = .leave
      · simp [heeded, taken, asked, isHeard, decoded, history, dialogue, afterAll, left,
          Action.perform]
      · have heeds : heeded Action.ofLine (first :: rest) = line :: heeded Action.ofLine rest := by
          simp [heeded, decoded, left]
        have takes : taken Action.ofLine (first :: rest) =
            Action.ofLine line :: taken Action.ofLine rest := by
          rw [taken, heeds, List.map_cons, taken]
        have hears : isHeard (first :: rest) = isHeard rest := by
          simp [isHeard, heeds]
        rw [hears, takes, asked]
        cases asks : (Action.ofLine line).request? read with
        | none =>
          rw [perform_of_idle asks left, List.filterMap_cons_none asks, dialogue_of_idle asks]
          simp only [← ByteArray.append_assoc]
          exact ih free _
        | some entry =>
          obtain ⟨ran, grown⟩ := runFile_writing n entry free (bytes ++ mark.toUTF8)
          rw [perform_of_request? asks, List.filterMap_cons_some asks, ran, history]
          cases ended : s.runFile n entry.path entry.contents with
          | none => simp
          | some result =>
            obtain ⟨status, s'⟩ := result
            have free' : s'.machine.output.limit = none := by
              rw [grown (status, s') ended]
            simp only [Option.map_some, List.length_cons, Nat.add_right_cancel_iff, List.map_cons,
              dialogue_of_request? asks]
            simp only [← ByteArray.append_assoc]
            exact ih free' _

/-- Who leaves does so by name. -/
theorem byFirstWord_of_leave (left : Action.ofLine line = .leave) :
    Action.byFirstWord line = .leave := by
  rw [← left, eq_comm, ofLine_eq_byFirstWord_iff]
  unfold Action.ofLine at left
  dsimp only at left
  generalize withoutBreaks line.toList = text at left ⊢
  by_cases minus : text.head? = some '-'
  · rw [if_pos minus] at left
    cases known : namesCommand text with
    | true => exact decide_eq_true minus
    | false =>
      rw [ofCommand_of_unknown known] at left
      cases left
  · rw [if_neg minus] at left
    split at left <;> cases left

/-- The prompt runs lines one after the other on one session. A line is run, without its line break, if it
is not blank and does not begin with a minus sign. What is done about the lines up to the one at which the
prompt is left is what their first words would have if and only if those of them that begin with a minus
sign are those whose first word is a command; nothing comes of a line that begins with a minus sign and
no command. What is run is the lines that are to be run and the files asked for, each once and in their
order. They leave the machine and the failures as they would without a prompt, but for the output, where
what each of them prints stands behind the mark of its line. -/
theorem prompt_runs_lines (n : Nat) (read : Reader) (mark : String) (lines : List ByteArray)
    (s : Session) (free : s.machine.output.limit = none) :
    let actions := taken Action.ofLine lines
    let entries := asked read actions
    let turns := history n s entries
    (∀ line source, Action.ofLine line = .run source ↔
      beginsWithMinus (withoutBreaks line.toList) = false ∧
        Text.allBlank (withoutBreaks line.toList) = false ∧
        source = String.ofList (withoutBreaks line.toList)) ∧
    (taken Action.byFirstWord lines = actions ↔ ∀ line ∈ heeded Action.ofLine lines,
      beginsWithMinus (withoutBreaks line.toList) = namesCommand (withoutBreaks line.toList)) ∧
    (∀ line, beginsWithMinus (withoutBreaks line.toList) = true →
      namesCommand (withoutBreaks line.toList) = false → Action.ofLine line = .skip ∧
        Action.byFirstWord line = .run (String.ofList (withoutBreaks line.toList))) ∧
    Command.converse mark (Command.reaction n read .prompt) lines s =
        (if turns.length = entries.length then
          some (isHeard lines, (s.afterAll turns).writing
            (s.machine.output.written ++ dialogue mark actions (turns.map Turn.printed)))
        else none) ∧
    turns.map Turn.entry <+: entries ∧
    (s.afterAll turns).machine.output =
      ⟨(turns.map Turn.printed).foldl (· ++ ·) s.machine.output.written, none⟩ := by
  intro actions entries turns
  refine ⟨fun line source => ofLine_eq_run_iff, ?_, fun line => dropped_of_unknown, ?_,
    entries_history n s entries, output_afterAll free entries⟩
  · rw [taken_eq_iff fun line => byFirstWord_of_leave]
    exact forall₂_congr fun line _ => ofLine_eq_byFirstWord_iff
  · have own : s = s.writing s.machine.output.written := by
      rw [writing, ← free]
    have conversed : Command.converse mark (Command.reaction n read .prompt) lines
        (s.writing s.machine.output.written) = _ := converse_writing free lines _
    rwa [← own] at conversed

/-- Lines typed at the prompt, of which one begins with a minus sign and names no command. -/
def typed : List ByteArray :=
  ["var x = 1;\n", "-x and print(x);\n", "print(x + 1);\r\n", "-R more\n", "-e\n", "print(0);\n"].map
    String.toUTF8

/-- The one file there is. -/
def more : Reader := fun _ => .ok "print(x + 2);"

def typing : Session := .start .unlimited fun _ => 0

theorem prompt_runs_lines_typed : typing.machine.output.limit = none ∧
    taken Action.ofLine typed =
      [.run "var x = 1;", .skip, .run "print(x + 1);", .runFile "more"] ∧
    Action.byFirstWord "-x and print(x);\n" = .run "-x and print(x);" ∧
    taken Action.byFirstWord typed ≠ taken Action.ofLine typed ∧
    ∃ s', Command.converse "> " (Command.reaction 30 more .prompt) typed typing = some (true, s') ∧
      s'.machine.output.written = "> > > 2\n> 3\n> ".toUTF8 := by
  have free : typing.machine.output.limit = none := rfl
  obtain ⟨_, alike, dropped, talk, _⟩ := prompt_runs_lines 30 more "> " typed typing free
  obtain ⟨_, meant⟩ := dropped "-x and print(x);\n" (by decide +kernel) (by decide +kernel)
  have takes : taken Action.ofLine typed =
      [.run "var x = 1;", .skip, .run "print(x + 1);", .runFile "more"] := by
    decide +kernel
  have all : (history 30 typing (asked more (taken Action.ofLine typed))).length =
      (asked more (taken Action.ofLine typed)).length := by
    decide +kernel
  have heard : isHeard typed = true := by decide +kernel
  rw [if_pos all, heard] at talk
  refine ⟨free, takes, meant, mt alike.mp ?_, _, talk, by decide +kernel⟩
  decide +kernel

end Prompt

end SoftScript
