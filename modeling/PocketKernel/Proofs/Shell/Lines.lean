import Mathlib
import PocketKernel.Shell.Line
import PocketKernel.Proofs.Action

/-!
# Lines

The shell cuts its input into lines. What it takes for one run is read off the stream alone: the
bytes up to the first line end, when that is among the next 128 bytes, and 128 bytes otherwise. Here
the loop that reads a line byte by byte, with an echo for each, is said to take just that
(`readLine_eq_ok`), and the calls that a command makes are listed (`execute_eq_ok`).
-/
namespace PocketKernel

namespace System
variable {σ : Type}

/-- A call into a system, with the answer. -/
inductive Call where
  | put (b : UInt8)
  | got (b : UInt8)
  | read (name : Bytes) {n : Nat} (before : Buffer n) (answer : Option (Nat × Buffer n))
  | wrote (name data : Bytes) (answer : Option Nat)

namespace Call

def input : Call → Bytes
  | got b => [b]
  | _ => []

def output : Call → Bytes
  | put b => [b]
  | _ => []

end Call

def Answers (sys : System σ) : Call → σ → σ → Prop
  | .put b, s, t => sys.putChar b s = .ok () t
  | .got b, s, t => sys.getChar s = .ok b t
  | .read name before answer, s, t => sys.readFile name before s = .ok answer t
  | .wrote name data answer, s, t => sys.writeFile name data s = .ok answer t

def Makes (sys : System σ) : List Call → σ → σ → Prop
  | [], s, t => s = t
  | call :: rest, s, u => ∃ t, sys.Answers call s t ∧ sys.Makes rest t u

theorem makes_append {sys : System σ} {first second : List Call} {s u : σ} :
    sys.Makes (first ++ second) s u ↔ ∃ t, sys.Makes first s t ∧ sys.Makes second t u := by
  induction first generalizing s with
  | nil => simp [Makes]
  | cons call rest ih =>
    simp only [List.cons_append, Makes, ih]
    constructor
    · rintro ⟨t, answered, v, before, after⟩
      exact ⟨v, ⟨t, answered, before⟩, after⟩
    · rintro ⟨v, ⟨t, answered, before⟩, after⟩
      exact ⟨t, answered, v, before, after⟩

def puts (bytes : Bytes) : List Call := bytes.map .put

def prints (text : String) : List Call := puts (Bytes.ofAscii text)

@[simp] theorem puts_append (xs ys : Bytes) : puts (xs ++ ys) = puts xs ++ puts ys :=
  List.map_append

@[simp] theorem output_puts (bytes : Bytes) : (puts bytes).flatMap Call.output = bytes := by
  induction bytes with
  | nil => rfl
  | cons b rest ih => simpa [puts, Call.output] using ih

@[simp] theorem input_puts (bytes : Bytes) : (puts bytes).flatMap Call.input = [] := by
  induction bytes with
  | nil => rfl
  | cons b rest ih => exact ih

theorem write_eq_ok {sys : System σ} {bytes : Bytes} {s t : σ} :
    sys.write bytes s = .ok () t ↔ sys.Makes (puts bytes) s t := by
  induction bytes generalizing s with
  | nil =>
    change EStateM.Result.ok () s = .ok () t ↔ s = t
    simp
  | cons b rest ih =>
    rw [System.write, Action.bind_eq_ok]
    constructor
    · rintro ⟨⟨⟩, u, put, others⟩
      exact ⟨u, put, ih.1 others⟩
    · rintro ⟨u, put, others⟩
      exact ⟨(), u, put, ih.2 others⟩

theorem putChar_eq_ok {sys : System σ} {b : UInt8} {s t : σ} :
    sys.putChar b s = .ok () t ↔ sys.Makes (puts [b]) s t := by
  simp [puts, Makes, Answers]

section bind
variable {sys : System σ} {α : Type} {f : Unit → Action σ α} {a : α} {s t : σ}

theorem write_bind_eq_ok {bytes : Bytes} :
    (sys.write bytes >>= f) s = .ok a t ↔ ∃ u, sys.Makes (puts bytes) s u ∧ f () u = .ok a t := by
  simp only [Action.bind_eq_ok, ← write_eq_ok]
  exact ⟨fun ⟨_, h⟩ => h, fun h => ⟨(), h⟩⟩

theorem putChar_bind_eq_ok {b : UInt8} :
    (sys.putChar b >>= f) s = .ok a t ↔ ∃ u, sys.Makes (puts [b]) s u ∧ f () u = .ok a t := by
  simp only [Action.bind_eq_ok, ← putChar_eq_ok]
  exact ⟨fun ⟨_, h⟩ => h, fun h => ⟨(), h⟩⟩

theorem exists_makes_pure {calls : List Call} {b : α} :
    (∃ u, sys.Makes calls s u ∧ (pure b : Action σ α) u = .ok a t) ↔
      sys.Makes calls s t ∧ a = b := by
  simp only [Action.pure_eq_ok, eq_comm (a := b)]
  constructor
  · rintro ⟨u, made, same, rfl⟩
    exact ⟨made, same⟩
  · rintro ⟨made, same⟩
    exact ⟨t, made, same, rfl⟩

/-- What is printed last, with the answer behind it. -/
theorem write_pure_eq_ok {bytes : Bytes} {b : α} :
    (do sys.write bytes; pure b : Action σ α) s = .ok a t ↔
      sys.Makes (puts bytes) s t ∧ a = b := by
  rw [write_bind_eq_ok, exists_makes_pure]

theorem write_putChar_pure_eq_ok {bytes : Bytes} {last : UInt8} {b : α} :
    (do sys.write bytes; sys.putChar last; pure b : Action σ α) s = .ok a t ↔
      sys.Makes (puts (bytes ++ [last])) s t ∧ a = b := by
  rw [write_bind_eq_ok, puts_append, makes_append, ← exists_and_right]
  simp only [and_assoc, putChar_bind_eq_ok, exists_makes_pure]

end bind

end System

namespace Shell
open PocketKernel.System PocketKernel.Action
variable {σ : Type} {sys : System σ}

def endsLine (b : UInt8) : Bool := b == carriageReturn || b == newline

def echo (b : UInt8) : Bytes := if b = carriageReturn then [b, newline] else [b]

def reading (b : UInt8) : List Call := .got b :: puts (echo b)

/-! ## What the shell takes of its input -/

/-- What the shell takes of its input for one run. -/
inductive Intake where
  | line (text : Bytes) (ending : UInt8)
  | overlong (bytes : Bytes)
  deriving DecidableEq, Repr

namespace Intake

def bytes : Intake → Bytes
  | line text ending => text ++ [ending]
  | overlong bytes => bytes

def text? : Intake → Option Bytes
  | line text _ => some text
  | overlong _ => none

/-- A buffer with that room holds the line, or it is the first byte too many that does not fit. -/
def Fits (room : Nat) : Intake → Prop
  | line text ending =>
    text.length ≤ room ∧ (∀ b ∈ text, endsLine b = false) ∧ endsLine ending = true
  | overlong bytes => bytes.length = room + 1 ∧ ∀ b ∈ bytes, endsLine b = false

def cons (b : UInt8) : Intake → Intake
  | line text ending => line (b :: text) ending
  | overlong bytes => overlong (b :: bytes)

@[simp] theorem bytes_cons (b : UInt8) (i : Intake) : (i.cons b).bytes = b :: i.bytes := by
  cases i <;> rfl

@[simp] theorem text?_cons (b : UInt8) (i : Intake) :
    (i.cons b).text? = i.text?.map (b :: ·) := by
  cases i <;> rfl

theorem fits_cons {room : Nat} {b : UInt8} {i : Intake} :
    (i.cons b).Fits (room + 1) ↔ endsLine b = false ∧ i.Fits room := by
  cases i <;> simp [cons, Fits] <;> tauto

theorem Fits.eq_line_or_cons {room : Nat} {i : Intake} (h : i.Fits (room + 1)) :
    (∃ ending, i = line [] ending ∧ endsLine ending = true) ∨ ∃ b j, i = cons b j := by
  cases i with
  | line text ending =>
    cases text with
    | nil => exact .inl ⟨ending, rfl, h.2.2⟩
    | cons b text => exact .inr ⟨b, line text ending, rfl⟩
  | overlong bytes =>
    cases bytes with
    | nil => cases h.1
    | cons b bytes => exact .inr ⟨b, overlong bytes, rfl⟩

theorem Fits.length_pos {room : Nat} {i : Intake} (h : i.Fits room) : 0 < i.bytes.length := by
  cases i with
  | line text ending => simp [bytes]
  | overlong bytes => rw [Intake.bytes, h.1]; omega

end Intake

/-- What the shell takes next of a stream: a line end is looked for among the next 128 bytes. There
is nothing when the stream ends before. -/
def nextIntake? (stream : Bytes) : Option Intake :=
  let next := stream.take lineSize
  match next.dropWhile (!endsLine ·) with
  | ending :: _ => some (.line (next.takeWhile (!endsLine ·)) ending)
  | [] => if next.length < lineSize then none else some (.overlong next)

/-- What comes next is known by the stream's front. -/
theorem nextIntake?_eq_some {stream : Bytes} {i : Intake} :
    nextIntake? stream = some i ↔ i.Fits (lineSize - 1) ∧ i.bytes <+: stream := by
  have plain {b : UInt8} {xs : Bytes} (h : b ∈ xs.takeWhile (!endsLine ·)) :
      endsLine b = false := by
    simpa using List.mem_takeWhile_imp h
  constructor
  · intro found
    have split : (stream.take lineSize).takeWhile (!endsLine ·) ++
        (stream.take lineSize).dropWhile (!endsLine ·) = stream.take lineSize :=
      List.takeWhile_append_dropWhile
    have front : stream.take lineSize <+: stream := List.take_prefix _ _
    have short : (stream.take lineSize).length ≤ lineSize := List.length_take_le _ _
    unfold nextIntake? at found
    dsimp only at found
    split at found
    next ending after rest =>
      cases found
      rw [rest] at split
      have ends : endsLine ending = true := by
        have := List.head_dropWhile_not (!endsLine ·) (l := stream.take lineSize) (by simp [rest])
        simpa [rest] using this
      rw [← split] at short front
      refine ⟨⟨?_, fun b hb => plain hb, ends⟩, ?_⟩
      · simp only [List.length_append, List.length_cons] at short
        omega
      · refine List.IsPrefix.trans ?_ front
        exact ⟨after, by simp [Intake.bytes]⟩
    next rest =>
      split at found
      · cases found
      next long =>
        cases found
        rw [rest, List.append_nil] at split
        refine ⟨⟨?_, fun b hb => plain (split.symm ▸ hb)⟩, front⟩
        rw [show lineSize - 1 + 1 = lineSize from rfl]
        omega
  · rintro ⟨fits, rest, rfl⟩
    unfold nextIntake?
    dsimp only
    cases i with
    | line text ending =>
      obtain ⟨short, others, ends⟩ := fits
      have next : ((text ++ [ending]) ++ rest).take lineSize =
          text ++ ending :: rest.take (lineSize - 1 - text.length) := by
        have : lineSize - text.length = (lineSize - 1 - text.length) + 1 := by
          have : lineSize = 128 := rfl
          omega
        have room : text.length ≤ lineSize := by omega
        rw [List.append_assoc, List.take_append, List.take_of_length_le room, this,
          List.singleton_append, List.take_succ_cons]
      rw [Intake.bytes, next, List.dropWhile_append_of_pos (by simpa using others),
        List.takeWhile_append_of_pos (by simpa using others)]
      simp [ends]
    | overlong bytes =>
      obtain ⟨length, others⟩ := fits
      have next : (bytes ++ rest).take lineSize = bytes := List.take_left' length
      rw [Intake.bytes, next, List.dropWhile_eq_nil_iff.2 (by simpa using others)]
      have : bytes.length = lineSize := length
      simp [this]

/-- A line end is in time behind 127 bytes, and too late behind 128. -/
example : nextIntake? (List.replicate 127 120 ++ [carriageReturn, newline]) =
    some (.line (List.replicate 127 120) carriageReturn) ∧
    nextIntake? (List.replicate 128 120 ++ [carriageReturn]) =
      some (.overlong (List.replicate 128 120)) := by decide +kernel

/-! ## Reading a line -/

theorem readByte_eq_ok {s t : σ} {r : Option UInt8} :
    readByte sys s = .ok r t ↔
      ∃ b, sys.Makes (reading b) s t ∧ r = if endsLine b then none else some b := by
  rw [readByte, bind_eq_ok]
  refine exists_congr fun b => ?_
  rw [reading, Makes, ← exists_and_right]
  refine exists_congr fun u => ?_
  rw [Answers, and_assoc]
  refine and_congr_right fun _ => ?_
  rw [putChar_bind_eq_ok]
  by_cases cr : b = carriageReturn
  · subst cr
    simp only [if_true, putChar_bind_eq_ok, pure_eq_ok]
    simp [echo, endsLine, puts, Makes, eq_comm (a := r), ← and_assoc]
  · by_cases nl : b = newline
    · subst nl
      simp only [if_neg cr, if_true, pure_eq_ok]
      simp [echo, endsLine, cr, eq_comm (a := r)]
    · simp only [if_neg cr, if_neg nl, pure_eq_ok]
      simp [echo, endsLine, cr, nl, eq_comm (a := r)]

/-- Reading a line takes what fits into the buffer, byte by byte with an echo for each. -/
theorem readLine_eq_ok {room : Nat} {s t : σ} {r : Option Bytes} :
    readLine sys room s = .ok r t ↔ ∃ i : Intake, i.Fits room ∧
      sys.Makes (i.bytes.flatMap reading) s t ∧ r = i.text? := by
  induction room generalizing s r with
  | zero =>
    simp only [readLine, bind_eq_ok, pure_eq_ok, readByte_eq_ok]
    constructor
    · rintro ⟨-, u, ⟨b, made, rfl⟩, rfl, rfl⟩
      cases ends : endsLine b with
      | true => exact ⟨.line [] b, ⟨le_rfl, nofun, ends⟩, by simpa [Intake.bytes] using made, rfl⟩
      | false =>
        exact ⟨.overlong [b], ⟨rfl, by simpa using ends⟩, by simpa [Intake.bytes] using made, rfl⟩
    · rintro ⟨i, fits, made, rfl⟩
      cases i with
      | line text ending =>
        obtain rfl : text = [] := List.length_eq_zero_iff.1 (Nat.le_zero.1 fits.1)
        refine ⟨_, t, ⟨ending, by simpa [Intake.bytes] using made, rfl⟩, ?_, rfl⟩
        simp [fits.2.2, Intake.text?]
      | overlong bytes =>
        obtain ⟨b, rfl⟩ := List.length_eq_one_iff.1 fits.1
        refine ⟨_, t, ⟨b, by simpa [Intake.bytes] using made, rfl⟩, ?_, rfl⟩
        simp [fits.2 b (by simp), Intake.text?]
  | succ room ih =>
    rw [readLine, bind_eq_ok]
    simp only [readByte_eq_ok]
    constructor
    · rintro ⟨first, u, ⟨b, made, rfl⟩, others⟩
      cases ends : endsLine b with
      | true =>
        simp only [ends, if_true, pure_eq_ok] at others
        obtain ⟨rfl, rfl⟩ := others
        refine ⟨.line [] b, ⟨Nat.zero_le _, nofun, ends⟩, ?_, rfl⟩
        simpa [Intake.bytes] using made
      | false =>
        simp only [ends, Bool.false_eq_true, if_false, bind_eq_ok, pure_eq_ok] at others
        obtain ⟨r, v, later, rfl, rfl⟩ := others
        obtain ⟨i, fits, made', rfl⟩ := ih.1 later
        refine ⟨i.cons b, Intake.fits_cons.2 ⟨ends, fits⟩, ?_, (i.text?_cons b).symm⟩
        rw [Intake.bytes_cons, List.flatMap_cons, makes_append]
        exact ⟨u, made, made'⟩
    · rintro ⟨i, fits, made, rfl⟩
      obtain ⟨ending, rfl, ends⟩ | ⟨b, i, rfl⟩ := fits.eq_line_or_cons
      · refine ⟨_, t, ⟨ending, by simpa [Intake.bytes] using made, rfl⟩, ?_⟩
        simp only [ends, if_true, pure_eq_ok, Intake.text?, and_self]
      · obtain ⟨plain, fits⟩ := Intake.fits_cons.1 fits
        rw [Intake.bytes_cons, List.flatMap_cons, makes_append] at made
        obtain ⟨u, first, others⟩ := made
        refine ⟨_, u, ⟨b, first, rfl⟩, ?_⟩
        simp only [plain, Bool.false_eq_true, if_false, bind_eq_ok, pure_eq_ok]
        exact ⟨_, t, ih.2 ⟨i, fits, others, rfl⟩, (i.text?_cons b).symm, rfl⟩

/-! ## Commands -/

def Command.flow : Command → Flow
  | .exit => .exit
  | _ => .proceed

/-- The calls that a command may make: what it puts out depends on what the calls for the file
answer. -/
inductive Replies : Command → List Call → Prop where
  | nothing : Replies .nothing []
  | hello : Replies .hello (prints "Hello world from shell!\n")
  | exit : Replies .exit []
  | shown (count : Nat) (buffer : Buffer lineSize) :
      Replies .readFile (.read fileName (Buffer.blank lineSize) (some (count, buffer)) ::
        puts (buffer.val.take (min count lineSize) ++ [newline]))
  | notShown : Replies .readFile (.read fileName (Buffer.blank lineSize) none ::
      prints "readfile: hello.txt not found\n")
  | written (count : Nat) : Replies .writeFile [.wrote fileName greeting (some count)]
  | notWritten : Replies .writeFile (.wrote fileName greeting none ::
      prints "writefile: hello.txt not found\n")
  | unknown (line : Bytes) :
      Replies (.unknown line) (prints "unknown command: " ++ puts (line ++ [newline]))

/-- No command reads from the input. -/
theorem Replies.input_eq {c : Command} {calls : List Call} (h : Replies c calls) :
    calls.flatMap Call.input = [] := by
  cases h <;> simp [prints, Call.input]

/-- What is shown of a file is no longer than the buffer, whatever the call reports. -/
theorem Replies.output_readFile {calls : List Call} (h : Replies .readFile calls) :
    calls.flatMap Call.output = Bytes.ofAscii "readfile: hello.txt not found\n" ∨
      ∃ shown : Bytes, calls.flatMap Call.output = shown ++ [newline] ∧
        shown.length ≤ lineSize := by
  cases h with
  | shown count buffer =>
    refine .inr ⟨buffer.val.take (min count lineSize), by simp [Call.output], ?_⟩
    exact (List.length_take_le _ _).trans (min_le_right _ _)
  | notShown => exact .inl (by simp [prints, Call.output])

theorem execute_eq_ok {c : Command} {s t : σ} {flow : Flow} :
    execute sys c s = .ok flow t ↔
      ∃ calls, Replies c calls ∧ sys.Makes calls s t ∧ flow = c.flow := by
  cases c with
  | nothing =>
    rw [execute, pure_eq_ok]
    constructor
    · rintro ⟨rfl, rfl⟩
      exact ⟨_, .nothing, rfl, rfl⟩
    · rintro ⟨-, ⟨⟩, rfl, rfl⟩
      exact ⟨rfl, rfl⟩
  | hello =>
    rw [execute, writeText, write_pure_eq_ok]
    constructor
    · intro made
      exact ⟨_, .hello, made⟩
    · rintro ⟨-, ⟨⟩, made⟩
      exact made
  | exit =>
    rw [execute, pure_eq_ok]
    constructor
    · rintro ⟨rfl, rfl⟩
      exact ⟨_, .exit, rfl, rfl⟩
    · rintro ⟨-, ⟨⟩, rfl, rfl⟩
      exact ⟨rfl, rfl⟩
  | readFile =>
    rw [execute, bind_eq_ok]
    constructor
    · rintro ⟨answer, u, read, after⟩
      cases answer with
      | none =>
        obtain ⟨made, rfl⟩ := write_pure_eq_ok.1 after
        exact ⟨_, .notShown, ⟨u, read, made⟩, rfl⟩
      | some found =>
        obtain ⟨made, rfl⟩ := write_putChar_pure_eq_ok.1 after
        rw [found.2.property] at made
        exact ⟨_, .shown found.1 found.2, ⟨u, read, made⟩, rfl⟩
    · rintro ⟨calls, reply, made, rfl⟩
      cases reply with
      | shown count buffer =>
        obtain ⟨u, read, made⟩ := made
        refine ⟨_, u, read, write_putChar_pure_eq_ok.2 ⟨?_, rfl⟩⟩
        rwa [buffer.property]
      | notShown =>
        obtain ⟨u, read, made⟩ := made
        exact ⟨_, u, read, write_pure_eq_ok.2 ⟨made, rfl⟩⟩
  | writeFile =>
    rw [execute, bind_eq_ok]
    constructor
    · rintro ⟨answer, u, wrote, after⟩
      cases answer with
      | none =>
        obtain ⟨made, rfl⟩ := write_pure_eq_ok.1 after
        exact ⟨_, .notWritten, ⟨u, wrote, made⟩, rfl⟩
      | some count =>
        obtain ⟨rfl, rfl⟩ := pure_eq_ok.1 after
        exact ⟨_, .written count, ⟨u, wrote, rfl⟩, rfl⟩
    · rintro ⟨calls, reply, made, rfl⟩
      cases reply with
      | written count =>
        obtain ⟨u, wrote, rfl⟩ := made
        exact ⟨_, u, wrote, rfl⟩
      | notWritten =>
        obtain ⟨u, wrote, made⟩ := made
        exact ⟨_, u, wrote, write_pure_eq_ok.2 ⟨made, rfl⟩⟩
  | unknown line =>
    rw [execute, writeText, write_bind_eq_ok]
    simp only [write_putChar_pure_eq_ok]
    constructor
    · rintro ⟨u, first, others, rfl⟩
      exact ⟨_, .unknown line, makes_append.2 ⟨u, first, others⟩, rfl⟩
    · rintro ⟨-, ⟨⟩, made, rfl⟩
      obtain ⟨u, first, others⟩ := makes_append.1 made
      exact ⟨u, first, others, rfl⟩

end Shell

end PocketKernel
