import Mathlib
import PocketKernel.Proofs.Shell.Lines
import PocketKernel.Shell.Terminal

/-!
# Sessions

A session of the shell is its input cut into lines, with a prompt, an echo and a reply for each, up
to the first line that says `exit`. What a session takes of a stream is computed from the stream
alone by `lines?`. Main statement: on every system the shell runs in such sessions
(`lineDiscipline`).
-/
namespace PocketKernel.Shell
open PocketKernel.System PocketKernel.Action
variable {σ : Type} {sys : System σ}

/-! ## Turns -/

namespace Intake

def flow (i : Intake) : Flow := if i.text? = some (Bytes.ofAscii "exit") then .exit else .proceed

def Replies : Intake → List Call → Prop
  | line text _, calls => Shell.Replies (.ofLine text) calls
  | overlong _, calls => calls = prints "\ncommand line too long\n"

theorem Replies.input_eq {i : Intake} {calls : List Call} (h : i.Replies calls) :
    calls.flatMap Call.input = [] := by
  cases i with
  | line text ending => exact Shell.Replies.input_eq h
  | overlong bytes => rw [h, prints, input_puts]

end Intake

theorem flow_ofLine (text : Bytes) :
    (Command.ofLine text).flow = if text = Bytes.ofAscii "exit" then .exit else .proceed := by
  by_cases exits : text = Bytes.ofAscii "exit"
  · rw [exits]
    decide
  · rw [if_neg exits]
    unfold Command.ofLine
    split_ifs <;> rfl

/-- One run of the shell: what it takes of its input, and the calls that it answers with. -/
structure Turn where
  intake : Intake
  reply : List Call
  replies : intake.Replies reply

namespace Turn

def calls (turn : Turn) : List Call :=
  prints prompt ++ turn.intake.bytes.flatMap reading ++ turn.reply

def output (turn : Turn) : Bytes :=
  Bytes.ofAscii prompt ++ turn.intake.bytes.flatMap echo ++ turn.reply.flatMap Call.output

theorem input_reading (bytes : Bytes) : (bytes.flatMap reading).flatMap Call.input = bytes := by
  induction bytes with
  | nil => rfl
  | cons b rest ih => simp [reading, Call.input, ih]

theorem output_reading (bytes : Bytes) :
    (bytes.flatMap reading).flatMap Call.output = bytes.flatMap echo := by
  induction bytes with
  | nil => rfl
  | cons b rest ih => simp [reading, Call.output, ih]

theorem input_calls (turn : Turn) : turn.calls.flatMap Call.input = turn.intake.bytes := by
  simp [calls, prints, input_reading, turn.replies.input_eq]

theorem output_calls (turn : Turn) : turn.calls.flatMap Call.output = turn.output := by
  simp [calls, output, prints, output_reading]

end Turn

/-- A run makes the calls of a turn, and whenever these are answered it makes them all. -/
theorem runOnce_eq_ok {s t : σ} {flow : Flow} :
    runOnce sys s = .ok flow t ↔ ∃ turn : Turn, turn.intake.Fits (lineSize - 1) ∧
      sys.Makes turn.calls s t ∧ flow = turn.intake.flow := by
  rw [runOnce, writeText, write_bind_eq_ok]
  simp only [bind_eq_ok, readLine_eq_ok]
  constructor
  · rintro ⟨u, prompted, -, v, ⟨i, fits, read, rfl⟩, after⟩
    cases i with
    | line text ending =>
      obtain ⟨reply, replies, made, rfl⟩ := execute_eq_ok.1 after
      refine ⟨⟨.line text ending, reply, replies⟩, fits, ?_, ?_⟩
      · exact makes_append.2 ⟨v, makes_append.2 ⟨u, prompted, read⟩, made⟩
      · simp [flow_ofLine, Intake.flow, Intake.text?]
    | overlong bytes =>
      obtain ⟨made, rfl⟩ := write_pure_eq_ok.1 after
      refine ⟨⟨.overlong bytes, _, rfl⟩, fits, ?_, rfl⟩
      exact makes_append.2 ⟨v, makes_append.2 ⟨u, prompted, read⟩, made⟩
  · rintro ⟨⟨i, reply, replies⟩, fits, made, rfl⟩
    obtain ⟨v, before, made⟩ := makes_append.1 made
    obtain ⟨u, prompted, read⟩ := makes_append.1 before
    refine ⟨u, prompted, _, v, ⟨i, fits, read, rfl⟩, ?_⟩
    cases i with
    | line text ending =>
      refine execute_eq_ok.2 ⟨reply, replies, made, ?_⟩
      simp [flow_ofLine, Intake.flow, Intake.text?]
    | overlong bytes =>
      obtain rfl : reply = _ := replies
      exact write_pure_eq_ok.2 ⟨made, rfl⟩

/-! ## Streams cut into lines -/

/-- The lines of a stream up to the first that says `exit`, and the rest of the stream. There are
none when the stream ends before. -/
def lines? (stream : Bytes) : Option (List Intake × Bytes) :=
  match _found : nextIntake? stream with
  | none => none
  | some i =>
    if i.flow = .exit then some ([i], stream.drop i.bytes.length)
    else (lines? (stream.drop i.bytes.length)).map fun (more, rest) => (i :: more, rest)
termination_by stream.length
decreasing_by
  obtain ⟨fits, front⟩ := nextIntake?_eq_some.1 ‹nextIntake? stream = some i›
  have := fits.length_pos
  have := front.length_le
  rw [List.length_drop]
  omega

/-- Lines of which the last one says `exit`. -/
inductive Session : List Intake → Prop where
  | last {i : Intake} (fits : i.Fits (lineSize - 1)) (exits : i.flow = .exit) : Session [i]
  | next {i : Intake} {more : List Intake} (fits : i.Fits (lineSize - 1))
      (proceeds : i.flow = .proceed) (later : Session more) : Session (i :: more)

theorem lines?_append {i : Intake} (fits : i.Fits (lineSize - 1)) (rest : Bytes) :
    lines? (i.bytes ++ rest) =
      if i.flow = .exit then some ([i], rest)
      else (lines? rest).map fun (more, rest) => (i :: more, rest) := by
  have found : nextIntake? (i.bytes ++ rest) = some i :=
    nextIntake?_eq_some.2 ⟨fits, List.prefix_append _ _⟩
  rw [lines?]
  split
  next none => rw [none] at found; cases found
  next j found' =>
    obtain rfl : i = j := Option.some.inj (found.symm.trans found')
    simp

theorem lines?_eq_some {stream rest : Bytes} {intakes : List Intake} :
    lines? stream = some (intakes, rest) ↔
      Session intakes ∧ stream = intakes.flatMap Intake.bytes ++ rest := by
  constructor
  · intro found
    fun_induction lines? stream generalizing intakes rest with
    | case1 stream none => cases found
    | case2 stream i next exits =>
      obtain ⟨fits, front⟩ := nextIntake?_eq_some.1 next
      cases found
      exact ⟨.last fits exits, by simpa using (List.prefix_iff_eq_append.1 front).symm⟩
    | case3 stream i next goes ih =>
      obtain ⟨fits, front⟩ := nextIntake?_eq_some.1 next
      obtain ⟨⟨more, rest'⟩, found, same⟩ := Option.map_eq_some_iff.1 found
      cases same
      obtain ⟨session, cut⟩ := ih found
      have proceeds : i.flow = .proceed := by
        cases flow : i.flow with
        | exit => exact absurd flow goes
        | proceed => rfl
      refine ⟨.next fits proceeds session, ?_⟩
      rw [List.flatMap_cons, List.append_assoc, ← cut]
      exact (List.prefix_iff_eq_append.1 front).symm
  · rintro ⟨session, rfl⟩
    induction session with
    | last fits exits => simp [lines?_append fits, exits]
    | next fits proceeds later ih =>
      rw [List.flatMap_cons, List.append_assoc, lines?_append fits, proceeds, ih]
      rfl

/-- A shell that runs makes the calls of a session. -/
theorem run_eq_ok {n : Nat} {s t : σ} :
    run sys n s = .ok () t ↔ ∃ turns : List Turn, turns.length ≤ n ∧
      Session (turns.map Turn.intake) ∧ sys.Makes (turns.flatMap Turn.calls) s t := by
  induction n generalizing s with
  | zero =>
    constructor
    · intro ran
      cases ran
    · rintro ⟨turns, short, session, -⟩
      obtain rfl : turns = [] := List.length_eq_zero_iff.1 (Nat.le_zero.1 short)
      cases session
  | succ n ih =>
    rw [run, bind_eq_ok]
    simp only [runOnce_eq_ok]
    constructor
    · rintro ⟨-, u, ⟨turn, fits, made, rfl⟩, after⟩
      cases flow : turn.intake.flow with
      | exit =>
        simp only [flow, pure_eq_ok] at after
        obtain ⟨-, rfl⟩ := after
        exact ⟨[turn], by simp, .last fits flow, by simpa using made⟩
      | proceed =>
        simp only [flow] at after
        obtain ⟨turns, short, session, others⟩ := ih.1 after
        refine ⟨turn :: turns, by simpa using short, .next fits flow session, ?_⟩
        rw [List.flatMap_cons, makes_append]
        exact ⟨u, made, others⟩
    · rintro ⟨turns, short, session, made⟩
      cases turns with
      | nil => cases session
      | cons turn turns =>
        rw [List.flatMap_cons, makes_append] at made
        obtain ⟨u, first, others⟩ := made
        rw [List.length_cons] at short
        rw [List.map_cons] at session
        generalize more : turns.map Turn.intake = intakes at session
        cases session with
        | last fits exits =>
          obtain rfl : turns = [] := List.map_eq_nil_iff.1 more
          exact ⟨_, u, ⟨turn, fits, first, rfl⟩, by rw [exits]; exact pure_eq_ok.2 ⟨rfl, others⟩⟩
        | next fits proceeds later =>
          refine ⟨_, u, ⟨turn, fits, first, rfl⟩, ?_⟩
          rw [proceeds]
          exact ih.2 ⟨turns, by omega, more ▸ later, others⟩

/-! ## Systems with a stream -/

/-- A system brings the bytes of a stream, and its other calls are answered and leave the stream as
it is. What happens behind the end of the stream is left open, so that the stream may be the front
of a longer one. -/
structure FedBy (sys : System σ) (feed : σ → Bytes) : Prop where
  getChar {s : σ} {b : UInt8} {rest : Bytes} (next : feed s = b :: rest) :
    ∃ t, sys.getChar s = .ok b t ∧ feed t = rest
  putChar (b : UInt8) (s : σ) : ∃ t, sys.putChar b s = .ok () t ∧ feed t = feed s
  readFile (name : Bytes) {n : Nat} (buffer : Buffer n) (s : σ) :
    ∃ answer t, sys.readFile name buffer s = .ok answer t ∧ feed t = feed s
  writeFile (name data : Bytes) (s : σ) :
    ∃ answer t, sys.writeFile name data s = .ok answer t ∧ feed t = feed s

namespace FedBy
variable {feed : σ → Bytes} (fed : FedBy sys feed)
include fed

theorem makes_puts (bytes : Bytes) (s : σ) :
    ∃ t, sys.Makes (puts bytes) s t ∧ feed t = feed s := by
  induction bytes generalizing s with
  | nil => exact ⟨s, rfl, rfl⟩
  | cons b rest ih =>
    obtain ⟨t, put, same⟩ := fed.putChar b s
    obtain ⟨u, others, same'⟩ := ih t
    exact ⟨u, ⟨t, put, others⟩, same'.trans same⟩

theorem makes_reading {bytes rest : Bytes} {s : σ} (next : feed s = bytes ++ rest) :
    ∃ t, sys.Makes (bytes.flatMap reading) s t ∧ feed t = rest := by
  induction bytes generalizing s with
  | nil => exact ⟨s, rfl, next⟩
  | cons b bytes ih =>
    obtain ⟨t, got, left⟩ := fed.getChar next
    obtain ⟨u, echoed, same⟩ := fed.makes_puts (echo b) t
    obtain ⟨v, others, last⟩ := ih (same.trans left)
    rw [List.flatMap_cons]
    exact ⟨v, makes_append.2 ⟨u, ⟨t, got, echoed⟩, others⟩, last⟩

theorem exists_replies (c : Command) (s : σ) :
    ∃ calls t, Replies c calls ∧ sys.Makes calls s t ∧ feed t = feed s := by
  cases c with
  | nothing => exact ⟨_, s, .nothing, rfl, rfl⟩
  | hello =>
    obtain ⟨t, made, same⟩ := fed.makes_puts _ s
    exact ⟨_, t, .hello, made, same⟩
  | exit => exact ⟨_, s, .exit, rfl, rfl⟩
  | readFile =>
    obtain ⟨answer, t, read, same⟩ := fed.readFile fileName (Buffer.blank lineSize) s
    cases answer with
    | none =>
      obtain ⟨u, made, same'⟩ := fed.makes_puts _ t
      exact ⟨_, u, .notShown, ⟨t, read, made⟩, same'.trans same⟩
    | some found =>
      obtain ⟨u, made, same'⟩ := fed.makes_puts _ t
      exact ⟨_, u, .shown found.1 found.2, ⟨t, read, made⟩, same'.trans same⟩
  | writeFile =>
    obtain ⟨answer, t, wrote, same⟩ := fed.writeFile fileName greeting s
    cases answer with
    | none =>
      obtain ⟨u, made, same'⟩ := fed.makes_puts _ t
      exact ⟨_, u, .notWritten, ⟨t, wrote, made⟩, same'.trans same⟩
    | some count => exact ⟨_, t, .written count, ⟨t, wrote, rfl⟩, same⟩
  | unknown line =>
    obtain ⟨t, first, same⟩ := fed.makes_puts (Bytes.ofAscii "unknown command: ") s
    obtain ⟨u, others, same'⟩ := fed.makes_puts (line ++ [newline]) t
    exact ⟨_, u, .unknown line, makes_append.2 ⟨t, first, others⟩, same'.trans same⟩

/-- The calls of a turn are answered when the stream begins with what the turn takes. -/
theorem exists_turn {i : Intake} {rest : Bytes} {s : σ} (next : feed s = i.bytes ++ rest) :
    ∃ (turn : Turn) (t : σ), turn.intake = i ∧ sys.Makes turn.calls s t ∧ feed t = rest := by
  obtain ⟨u, prompted, same⟩ := fed.makes_puts (Bytes.ofAscii prompt) s
  obtain ⟨v, read, left⟩ := fed.makes_reading (same.trans next)
  have before := makes_append.2 ⟨u, prompted, read⟩
  cases i with
  | line text ending =>
    obtain ⟨calls, t, replies, made, same⟩ := fed.exists_replies (.ofLine text) v
    exact ⟨⟨.line text ending, calls, replies⟩, t, rfl, makes_append.2 ⟨v, before, made⟩,
      same.trans left⟩
  | overlong bytes =>
    obtain ⟨t, made, same⟩ := fed.makes_puts (Bytes.ofAscii "\ncommand line too long\n") v
    exact ⟨⟨.overlong bytes, _, rfl⟩, t, rfl, makes_append.2 ⟨v, before, made⟩, same.trans left⟩

theorem exists_turns {intakes : List Intake} {rest : Bytes} {s : σ}
    (next : feed s = intakes.flatMap Intake.bytes ++ rest) :
    ∃ (turns : List Turn) (t : σ), turns.map Turn.intake = intakes ∧
      sys.Makes (turns.flatMap Turn.calls) s t ∧ feed t = rest := by
  induction intakes generalizing s with
  | nil => exact ⟨[], s, rfl, rfl, next⟩
  | cons i more ih =>
    rw [List.flatMap_cons, List.append_assoc] at next
    obtain ⟨turn, u, rfl, first, left⟩ := fed.exists_turn next
    obtain ⟨turns, t, rfl, others, last⟩ := ih left
    exact ⟨turn :: turns, t, rfl, makes_append.2 ⟨u, first, others⟩, last⟩

end FedBy

theorem fedBy_input : FedBy Terminal.system Terminal.input where
  getChar {s b rest} next := by
    obtain ⟨input, output, files, reported⟩ := s
    obtain rfl : input = b :: rest := next
    exact ⟨_, rfl, rfl⟩
  putChar b s := ⟨_, rfl, rfl⟩
  readFile name n buffer s := by
    simp only [Terminal.system, get_bind]
    cases s.content name with
    | none => exact ⟨none, s, rfl, rfl⟩
    | some data => exact ⟨_, s, rfl, rfl⟩
  writeFile name data s := by
    simp only [Terminal.system, get_bind]
    cases s.content name with
    | none => exact ⟨none, s, rfl, rfl⟩
    | some old => exact ⟨_, _, rfl, rfl⟩

/-! ## The line discipline -/

structure LineDiscipline (sys : System σ) : Prop where
  /-- One run takes what comes next of every stream that begins with the bytes that it reads. It
  makes the calls of a turn, and it needs no more than that these are answered. -/
  runOnce (s t : σ) (flow : Flow) : runOnce sys s = .ok flow t ↔ ∃ turn : Turn,
    (∀ rest, nextIntake? (turn.intake.bytes ++ rest) = some turn.intake) ∧
      sys.Makes turn.calls s t ∧ flow = turn.intake.flow
  /-- A shell that returns has taken the lines up to the first `exit` and nothing behind it. -/
  run (n : Nat) (s t : σ) : run sys n s = .ok () t ↔ ∃ turns : List Turn, turns.length ≤ n ∧
    (∀ rest, lines? (turns.flatMap (·.intake.bytes) ++ rest) =
      some (turns.map Turn.intake, rest)) ∧
      sys.Makes (turns.flatMap Turn.calls) s t
  /-- What goes in is the lines, and what comes out is the prompt, the echo and the output of the
  command for each. -/
  streams (turns : List Turn) :
    (turns.flatMap Turn.calls).flatMap Call.input = turns.flatMap (·.intake.bytes) ∧
      (turns.flatMap Turn.calls).flatMap Call.output = turns.flatMap Turn.output
  /-- No more of a file is shown than the buffer holds. -/
  shown (turn : Turn) (read : turn.intake.text? = some (Bytes.ofAscii "readfile")) :
    turn.reply.flatMap Call.output = Bytes.ofAscii "readfile: hello.txt not found\n" ∨
      ∃ shown : Bytes, turn.reply.flatMap Call.output = shown ++ [newline] ∧
        shown.length ≤ lineSize
  /-- On a system with a stream, a run returns when the stream has something to take, and leaves
  the rest. -/
  fedOnce (feed : σ → Bytes) (fed : FedBy sys feed) (s : σ) (i : Intake)
    (next : nextIntake? (feed s) = some i) : ∃ (turn : Turn) (t : σ), turn.intake = i ∧
      Shell.runOnce sys s = .ok i.flow t ∧ sys.Makes turn.calls s t ∧ feed s = i.bytes ++ feed t
  /-- On a system with a stream, the shell returns when the stream has a line `exit`, and leaves
  what is behind it. -/
  fedRun (feed : σ → Bytes) (fed : FedBy sys feed) (s : σ) (intakes : List Intake) (rest : Bytes)
    (cut : lines? (feed s) = some (intakes, rest)) (n : Nat) (enough : intakes.length ≤ n) :
    ∃ (turns : List Turn) (t : σ), turns.map Turn.intake = intakes ∧
      Shell.run sys n s = .ok () t ∧ sys.Makes (turns.flatMap Turn.calls) s t ∧ feed t = rest

theorem session_iff {intakes : List Intake} :
    Session intakes ↔
      ∀ rest, lines? (intakes.flatMap Intake.bytes ++ rest) = some (intakes, rest) :=
  ⟨fun session _ => lines?_eq_some.2 ⟨session, rfl⟩, fun cut => (lines?_eq_some.1 (cut [])).1⟩

theorem fits_iff {i : Intake} : i.Fits (lineSize - 1) ↔
    ∀ rest, nextIntake? (i.bytes ++ rest) = some i :=
  ⟨fun fits _ => nextIntake?_eq_some.2 ⟨fits, List.prefix_append _ _⟩,
    fun next => (nextIntake?_eq_some.1 (next [])).1⟩

/-- On every system the shell takes its input line by line. -/
theorem lineDiscipline (sys : System σ) : LineDiscipline sys where
  runOnce s t flow := by
    simp only [runOnce_eq_ok, fits_iff]
  run n s t := by
    simp only [run_eq_ok, session_iff, List.flatMap_map]
  streams turns := by
    simp [List.flatMap_assoc, Turn.input_calls, Turn.output_calls]
  shown turn read := by
    obtain ⟨⟨text, ending⟩ | bytes, reply, replies⟩ := turn
    · obtain rfl : text = _ := Option.some.inj read
      have command : Command.ofLine (Bytes.ofAscii "readfile") = .readFile := by decide
      rw [Intake.Replies, command] at replies
      exact replies.output_readFile
    · cases read
  fedOnce feed fed s i next := by
    obtain ⟨fits, rest, cut⟩ := nextIntake?_eq_some.1 next
    obtain ⟨turn, t, rfl, made, left⟩ := fed.exists_turn cut.symm
    exact ⟨turn, t, rfl, runOnce_eq_ok.2 ⟨turn, fits, made, rfl⟩, made, by rw [left, cut]⟩
  fedRun feed fed s intakes rest cut n enough := by
    obtain ⟨session, cut⟩ := lines?_eq_some.1 cut
    obtain ⟨turns, t, rfl, made, left⟩ := fed.exists_turns cut
    rw [List.length_map] at enough
    exact ⟨turns, t, rfl, run_eq_ok.2 ⟨turns, enough, session, made⟩, made, left⟩

end PocketKernel.Shell
