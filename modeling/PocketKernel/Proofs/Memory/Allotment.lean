import Mathlib
import PocketKernel.Proofs.Memory.Limits

/-!
# What requests for frames get

Frames are handed out in the order of the requests. A request is granted exactly when as many frames
remain, and what was granted lies side by side. In memory a granted range is cleared, and nothing
else is written. Main statement: `allotted_of_requests`.
-/
namespace PocketKernel

namespace Frames
variable {f left : Frames} {counts : List Nat} {count : Nat} {start : UInt32}

/-- A range is granted when it ends at a word that is not above the limit. -/
theorem alloc_eq_some : f.alloc count = some (start, left) ↔
    start = f.next ∧ left.limit = f.limit ∧
      left.next.toNat = f.next.toNat + count * 4096 ∧ left.next.toNat ≤ f.limit.toNat := by
  unfold alloc
  dsimp only
  constructor
  · intro given
    split at given
    next room =>
      cases given
      refine ⟨rfl, rfl, ?_, ?_⟩
      all_goals rw [UInt32.toNat_ofNat_of_lt' room.1]
      exact room.2
    next => cases given
  · rintro ⟨rfl, limit, next, room⟩
    have small := left.next.toNat_lt
    rw [← next, if_pos ⟨small, room⟩, UInt32.ofNat_toNat, ← limit]

/-- A request is refused exactly when it asks for more frames than remain. -/
theorem alloc_eq_none (le : f.next ≤ f.limit) : f.alloc count = none ↔ f.remaining < count := by
  have := UInt32.le_iff_toNat_le.1 le
  have := f.limit.toNat_lt
  unfold alloc remaining
  dsimp only
  rw [show UInt32.size = 4294967296 from rfl]
  split <;> simp only [reduceCtorEq, true_iff, false_iff] <;> omega

/-! ## Sizes in words -/

def word? (n : Nat) : Option UInt32 := if n < UInt32.size then some (UInt32.ofNat n) else none

def longWord? (n : Nat) : Option UInt64 := if n < UInt64.size then some (UInt64.ofNat n) else none

theorem word?_eq_some {n : Nat} {w : UInt32} : word? n = some w ↔ w.toNat = n := by
  unfold word?
  constructor
  · intro fits
    split at fits <;> cases fits
    exact UInt32.toNat_ofNat_of_lt' ‹_›
  · rintro rfl
    rw [if_pos w.toNat_lt, UInt32.ofNat_toNat]

theorem longWord?_eq_some {n : Nat} {w : UInt64} : longWord? n = some w ↔ w.toNat = n := by
  unfold longWord?
  constructor
  · intro fits
    split at fits <;> cases fits
    exact UInt64.toNat_ofNat_of_lt' ‹_›
  · rintro rfl
    rw [if_pos w.toNat_lt, UInt64.ofNat_toNat]

/-- Takes frames by arithmetic on words: the size is a long word that is narrowed, and each result
is checked. -/
def allocWords (f : Frames) (count : UInt64) : Option (UInt32 × Frames) := do
  let size ← longWord? (count.toNat * 4096)
  let bytes ← word? size.toNat
  let stop ← word? (f.next.toNat + bytes.toNat)
  if f.limit < stop then none else some (f.next, { f with next := stop })

/-- No check refuses a range that lies below the limit. -/
theorem allocWords_eq (f : Frames) (count : UInt64) : f.allocWords count = f.alloc count.toNat := by
  ext1 ⟨start, left⟩
  simp only [allocWords, Option.bind_eq_bind, Option.bind_eq_some_iff, longWord?_eq_some,
    word?_eq_some, alloc_eq_some]
  constructor
  · rintro ⟨size, product, bytes, narrowed, stop, sum, given⟩
    split at given
    next => cases given
    next room =>
      cases given
      rw [UInt32.not_lt, UInt32.le_iff_toNat_le] at room
      refine ⟨rfl, rfl, ?_, room⟩
      rw [sum, narrowed, product]
  · rintro ⟨rfl, limit, next, room⟩
    have small := left.next.toNat_lt
    obtain ⟨bytes, product⟩ : ∃ bytes : UInt32, bytes.toNat = count.toNat * 4096 :=
      ⟨_, UInt32.toNat_ofNat_of_lt' (n := count.toNat * 4096) (by
        rw [show UInt32.size = 4294967296 from rfl]
        omega)⟩
    refine ⟨bytes.toUInt64, ?_, bytes, ?_, left.next, ?_, ?_⟩
    · rw [UInt32.toNat_toUInt64, product]
    · rw [UInt32.toNat_toUInt64]
    · rw [next, product]
    · rw [if_neg, ← limit]
      rw [UInt32.not_lt, UInt32.le_iff_toNat_le]
      exact room

/-! ## One request after the other -/

/-- Requests have been answered in order. One is granted when as many frames remain, and then so
many fewer remain; any other is refused and changes nothing. -/
inductive Served : Frames → List Nat → List (Option UInt32 × Frames) → Prop where
  | nil (f : Frames) : Served f [] []
  | granted {f left : Frames} {count : Nat} {counts : List Nat}
      {answers : List (Option UInt32 × Frames)} (room : count ≤ f.remaining)
      (next : left.next.toNat = f.next.toNat + count * 4096) (limit : left.limit = f.limit)
      (fewer : left.remaining + count = f.remaining) (rest : Served left counts answers) :
      Served f (count :: counts) ((some f.next, left) :: answers)
  | refused {f : Frames} {count : Nat} {counts : List Nat}
      {answers : List (Option UInt32 × Frames)} (short : f.remaining < count)
      (rest : Served f counts answers) : Served f (count :: counts) ((none, f) :: answers)

theorem served_requests (le : f.next ≤ f.limit) (counts : List Nat) :
    Served f counts (f.requests counts) := by
  induction counts generalizing f with
  | nil => exact .nil f
  | cons count counts ih =>
    unfold requests
    cases given : f.alloc count with
    | none => exact .refused ((alloc_eq_none le).1 given) (ih le)
    | some got =>
      obtain ⟨start, left⟩ := got
      have room : count ≤ f.remaining := by
        by_contra short
        rw [(alloc_eq_none le).2 (by omega)] at given
        cases given
      obtain ⟨rfl, limit, next, below⟩ := alloc_eq_some.1 given
      refine .granted room next limit ?_ (ih ?_)
      · unfold remaining
        rw [limit, next]
        omega
      · rw [limit, UInt32.le_iff_toNat_le]
        exact below

def ranges (counts : List Nat) (answers : List (Option UInt32 × Frames)) : List (Nat × Nat) :=
  (counts.zip answers).filterMap fun (count, answer, _) =>
    answer.map fun start => (start.toNat, start.toNat + count * 4096)

structure SideBySide (f : Frames) (ranges : List (Nat × Nat)) : Prop where
  first : ∀ r ∈ ranges.head?, r.1 = f.next.toNat
  aligned : ∀ r ∈ ranges, r.1 % 4096 = 0
  inside : ∀ r ∈ ranges, f.next.toNat ≤ r.1 ∧ r.1 ≤ r.2 ∧ r.2 ≤ f.limit.toNat
  adjacent : ranges.IsChain fun r r' => r.2 = r'.1
  disjoint : ranges.Pairwise fun r r' => ∀ a, r.1 ≤ a → a < r.2 → ¬ (r'.1 ≤ a ∧ a < r'.2)

theorem Served.sideBySide {answers : List (Option UInt32 × Frames)}
    (served : Served f counts answers) (aligned : f.next.toNat % 4096 = 0)
    (le : f.next ≤ f.limit) : SideBySide f (ranges counts answers) := by
  induction served with
  | nil f => exact ⟨nofun, nofun, nofun, .nil, .nil⟩
  | refused _ _ ih => exact ih aligned le
  | @granted f left count counts answers room next limit _ _ ih =>
    rw [UInt32.le_iff_toNat_le] at le
    have below : left.next ≤ left.limit := by
      rw [limit, UInt32.le_iff_toNat_le, next]
      unfold remaining at room
      omega
    have rest := ih (by omega) below
    rw [limit, UInt32.le_iff_toNat_le] at below
    have here : ranges (count :: counts) ((some f.next, left) :: answers) =
        (f.next.toNat, left.next.toNat) :: ranges counts answers := by
      rw [next]
      rfl
    rw [here]
    refine ⟨?_, ?_, ?_, ?_, ?_⟩
    · rintro _ ⟨⟩
      rfl
    · rw [List.forall_mem_cons]
      exact ⟨aligned, rest.aligned⟩
    · rw [List.forall_mem_cons]
      refine ⟨⟨le_rfl, by simp only; omega, below⟩, fun r hr => ?_⟩
      obtain ⟨low, order, high⟩ := rest.inside r hr
      exact ⟨by omega, order, limit ▸ high⟩
    · exact List.isChain_cons.2 ⟨fun r hr => (rest.first r hr).symm, rest.adjacent⟩
    · refine List.pairwise_cons.2 ⟨fun r hr a _ high inside => ?_, rest.disjoint⟩
      have := (rest.inside r hr).1
      omega

end Frames

/-! ## Frames of a memory -/

inductive FrameRequest where
  | pages (count : Nat)
  | table
  deriving DecidableEq, Repr

namespace FrameRequest

def count : FrameRequest → Nat
  | pages count => count
  | table => 1

def refusal : FrameRequest → Fault
  | pages _ => .outOfMemory
  | table => .refused .outOfFrames

def run : FrameRequest → Action Memory UInt32
  | pages count => Memory.allocPages count
  | table => TableMemory.allocTable

theorem run_eq (request : FrameRequest) :
    request.run = Memory.takeFrames request.count request.refusal := by
  cases request <;> rfl

end FrameRequest

namespace Memory
variable {m m' : Memory} {request : FrameRequest} {start : UInt32}

def requests (m : Memory) : List FrameRequest → List (Option UInt32 × Memory)
  | [] => []
  | request :: rest =>
    match request.run m with
    | .ok start m' => (some start, m') :: m'.requests rest
    | .error _ m' => (none, m') :: m'.requests rest

structure Clears (start : UInt32) (count : Nat) (m m' : Memory) : Prop where
  base : m'.ram.base = m.ram.base
  limit : m'.ram.limit = m.ram.limit
  zero : ∀ a, start.toNat ≤ a → a < start.toNat + count * 4096 → m'.ram.byteAt a = 0
  other : ∀ a < UInt32.size, a < start.toNat ∨ start.toNat + count * 4096 ≤ a →
    m'.ram.byteAt a = m.ram.byteAt a

theorem clears_of_run (done : request.run m = .ok start m') :
    Clears start request.count m m' := by
  rw [FrameRequest.run_eq, takeFrames_eq_ok] at done
  obtain ⟨free, rfl, rfl⟩ := done
  refine ⟨rfl, rfl, fun a low high => ?_, fun a small outside => ?_⟩
  · exact (Ram.byteAt_clear _ _ _ (high.trans free.small)).trans (if_pos ⟨low, high⟩)
  · exact (Ram.byteAt_clear _ _ _ small).trans (if_neg (by omega))

/-- In memory a request is granted when the frames grant it. -/
theorem run_of_alloc_eq_some (order : m.InOrder) {left : Frames}
    (given : m.frames.alloc request.count = some (start, left)) :
    ∃ m', request.run m = .ok start m' ∧ m'.frames = left ∧ m'.InOrder := by
  obtain ⟨rfl, limit, next, below⟩ := Frames.alloc_eq_some.1 given
  have base := order.base
  have top := order.limit
  have aligned := order.aligned
  have small := left.next.toNat_lt
  have frames : (m.takeMany request.count).frames = left := by
    change (⟨UInt32.ofNat _, m.frames.limit⟩ : Frames) = left
    rw [← next, UInt32.ofNat_toNat, ← limit]
  refine ⟨m.takeMany request.count, ?_, frames, ?_, ?_, ?_⟩
  · rw [FrameRequest.run_eq, takeFrames_eq_ok]
    refine ⟨⟨?_, ?_, base, ?_⟩, rfl, rfl⟩
    · exact next ▸ small
    all_goals omega
  · rw [frames]
    omega
  · rw [frames]
    exact base.trans (by omega)
  · rw [frames, limit]
    exact top

theorem run_of_alloc_eq_none (refused : m.frames.alloc request.count = none) :
    request.run m = .error request.refusal m := by
  rw [FrameRequest.run_eq, takeFrames, Action.get_bind, refused]
  rfl

/-- Requests have been answered in order. What was granted has been cleared, and a request that was
refused has changed nothing. -/
inductive Clearing : Memory → List FrameRequest → List (Option UInt32 × Memory) → Prop where
  | nil (m : Memory) : Clearing m [] []
  | granted {m m' : Memory} {request : FrameRequest} {requests : List FrameRequest}
      {start : UInt32} {answers : List (Option UInt32 × Memory)}
      (done : request.run m = .ok start m') (clears : Clears start request.count m m')
      (rest : Clearing m' requests answers) :
      Clearing m (request :: requests) ((some start, m') :: answers)
  | refused {m : Memory} {request : FrameRequest} {requests : List FrameRequest}
      {answers : List (Option UInt32 × Memory)}
      (stopped : request.run m = .error request.refusal m) (rest : Clearing m requests answers) :
      Clearing m (request :: requests) ((none, m) :: answers)

/-- The answers that a memory gives are those of its frames. -/
theorem clearing_requests (order : m.InOrder) (requests : List FrameRequest) :
    Clearing m requests (m.requests requests) ∧
      (m.requests requests).map (fun (answer, m') => (answer, m'.frames)) =
        m.frames.requests (requests.map FrameRequest.count) := by
  induction requests generalizing m with
  | nil => exact ⟨.nil m, rfl⟩
  | cons request rest ih =>
    rw [List.map_cons, Memory.requests, Frames.requests]
    cases given : m.frames.alloc request.count with
    | none =>
      have stopped := run_of_alloc_eq_none given
      obtain ⟨clearing, answers⟩ := ih order
      rw [stopped]
      exact ⟨.refused stopped clearing, congrArg _ answers⟩
    | some got =>
      obtain ⟨start, left⟩ := got
      obtain ⟨m', done, rfl, order'⟩ := run_of_alloc_eq_some order given
      obtain ⟨clearing, answers⟩ := ih order'
      rw [done]
      exact ⟨.granted done (clears_of_run done) clearing, congrArg _ answers⟩

end Memory

namespace Frames
open Memory

/-- Requests for frames are granted as long as frames remain, and what they get lies side by side.
No checked arithmetic refuses more. In any memory a request that is granted clears its range and
writes nothing else, and in a memory to which the frames belong the answers are those of the
frames. -/
theorem allotted_of_requests {f : Frames} (aligned : Vaddr.aligned f.next = true)
    (le : f.next ≤ f.limit) (counts : List Nat) :
    Served f counts (f.requests counts) ∧ SideBySide f (ranges counts (f.requests counts)) ∧
    (∀ (f' : Frames) (count : UInt64), f'.allocWords count = f'.alloc count.toNat) ∧
    (∀ (m m' : Memory) (request : FrameRequest) (start : UInt32),
      request.run m = .ok start m' → Clears start request.count m m') ∧
    ∀ m : Memory, m.InOrder → m.frames = f → ∀ requests : List FrameRequest,
      Clearing m requests (m.requests requests) ∧
        (m.requests requests).map (fun (answer, m') => (answer, m'.frames)) =
          f.requests (requests.map FrameRequest.count) := by
  have served := served_requests le counts
  refine ⟨served, served.sideBySide (Vaddr.aligned_iff.1 aligned) le, allocWords_eq,
    fun m m' request start => clears_of_run, ?_⟩
  rintro m order rfl requests
  exact clearing_requests order requests

def threeFrames : Memory := ⟨⟨0x80200000, 0x80203000, .fill 0xFF⟩, ⟨0x80200000, 0x80203000⟩⟩

def greedyRequests : List FrameRequest := [.table, .pages 0x10000000000001, .pages 2, .table]

theorem allotted_of_requests_greedy :
    Vaddr.aligned threeFrames.frames.next = true ∧
      threeFrames.frames.next ≤ threeFrames.frames.limit ∧ threeFrames.InOrder ∧
      SideBySide threeFrames.frames [(0x80200000, 0x80201000), (0x80201000, 0x80203000)] ∧
      Clearing threeFrames greedyRequests (threeFrames.requests greedyRequests) ∧
      (threeFrames.requests greedyRequests).map Prod.fst =
        [some 0x80200000, none, some 0x80201000, none] ∧
      ∃ m', FrameRequest.table.run threeFrames = .ok 0x80200000 m' ∧
        m'.ram.byteAt 0x80200FFF = 0 ∧ m'.ram.byteAt 0x80201000 = 0xFF := by
  have aligned : Vaddr.aligned threeFrames.frames.next = true := rfl
  have le : threeFrames.frames.next ≤ threeFrames.frames.limit := by decide
  have order : threeFrames.InOrder := ⟨by decide, by decide, by decide⟩
  obtain ⟨-, ranges, -, clears, inMemory⟩ :=
    allotted_of_requests aligned le (greedyRequests.map FrameRequest.count)
  obtain ⟨clearing, -⟩ := inMemory threeFrames order rfl greedyRequests
  have granted : FrameRequest.table.run.answersWith (· == 0x80200000) threeFrames = true := by
    decide +kernel
  obtain ⟨start, done, first⟩ := Action.exists_ok_of_answersWith granted
  obtain rfl := beq_iff_eq.1 first
  have cleared := clears _ _ _ _ done
  refine ⟨aligned, le, order, ?_, clearing, by decide +kernel, _, done, ?_, ?_⟩
  · have same : Frames.ranges (greedyRequests.map FrameRequest.count)
        (threeFrames.frames.requests (greedyRequests.map FrameRequest.count)) =
          [(0x80200000, 0x80201000), (0x80201000, 0x80203000)] := by
      decide +kernel
    exact same ▸ ranges
  · exact cleared.zero 0x80200FFF (by decide) (by decide)
  · exact cleared.other 0x80201000 (by decide) (.inr (by decide))

end Frames
end PocketKernel
