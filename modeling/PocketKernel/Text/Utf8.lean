import PocketKernel.Bytes

/-!
# UTF-8

A character is written as a lead byte and up to three continuation bytes. `Sequence.ofLead` is the
table of the format: how many continuation bytes a lead byte asks for and which values the first of
them may have. Bytes are read piece by piece: a whole sequence gives its character, and the longest
beginning of a sequence that cannot go on gives nothing. `decode_encode` says that written text is
read back.
-/
namespace PocketKernel.Utf8

/-- What follows a lead byte: `count` more bytes, the first of them from `low` to `high`. The lead
byte contributes `payload` to the code point. -/
structure Sequence where
  payload : Nat
  count : Nat
  low : Nat
  high : Nat
  deriving DecidableEq, Repr

def Sequence.ofLead (b : Nat) : Option Sequence :=
  if b < 0x80 then some ⟨b, 0, 0x80, 0xbf⟩
  else if b < 0xc2 then none
  else if b < 0xe0 then some ⟨b - 0xc0, 1, 0x80, 0xbf⟩
  else if b = 0xe0 then some ⟨0, 2, 0xa0, 0xbf⟩
  else if b = 0xed then some ⟨0xd, 2, 0x80, 0x9f⟩
  else if b < 0xf0 then some ⟨b - 0xe0, 2, 0x80, 0xbf⟩
  else if b = 0xf0 then some ⟨0, 3, 0x90, 0xbf⟩
  else if b < 0xf4 then some ⟨b - 0xf0, 3, 0x80, 0xbf⟩
  else if b = 0xf4 then some ⟨4, 3, 0x80, 0x8f⟩
  else none

/-- Reads `count` continuation bytes on top of `code`: the code point, if all are there, and the
rest after those that are. -/
def follow : (code count low high : Nat) → Bytes → Option Nat × Bytes
  | code, 0, _, _, rest => (some code, rest)
  | _, _ + 1, _, _, [] => (none, [])
  | code, count + 1, low, high, b :: rest =>
    if low ≤ b.toNat ∧ b.toNat ≤ high then
      follow (code * 64 + b.toNat % 64) count 0x80 0xbf rest
    else
      (none, b :: rest)

theorem length_follow_le (code count low high : Nat) (bytes : Bytes) :
    (follow code count low high bytes).2.length ≤ bytes.length := by
  induction bytes generalizing code count low high with
  | nil => cases count <;> simp [follow]
  | cons b rest ih =>
    cases count with
    | zero => simp [follow]
    | succ count =>
      unfold follow
      split
      · exact Nat.le_succ_of_le (ih _ _ _ _)
      · simp

/-- The first piece of nonempty bytes, a character or nothing, and the bytes after it. -/
def next (b : UInt8) (rest : Bytes) : Option Char × Bytes :=
  match Sequence.ofLead b.toNat with
  | none => (none, rest)
  | some s =>
    let (code, rest) := follow s.payload s.count s.low s.high rest
    (code.map Char.ofNat, rest)

theorem length_next_le (b : UInt8) (rest : Bytes) : (next b rest).2.length ≤ rest.length := by
  unfold next
  split
  · simp
  · exact length_follow_le _ _ _ _ _

def pieces : Bytes → List (Option Char)
  | [] => []
  | b :: rest => (next b rest).1 :: pieces (next b rest).2
termination_by bytes => bytes.length
decreasing_by
  have := length_next_le b rest
  simp; omega

/-- What stands for a piece that is no character. -/
def replacement : Char := Char.ofNat 0xfffd

/-- The characters, with a replacement for every piece that is none. -/
def decodeLossy (bytes : Bytes) : List Char := (pieces bytes).map (·.getD replacement)

/-- The characters, when the bytes have no other pieces. -/
def decode (bytes : Bytes) : Option (List Char) := (pieces bytes).mapM id

def encodeChar (c : Char) : Bytes :=
  let n := c.toNat
  if n < 0x80 then [UInt8.ofNat n]
  else if n < 0x800 then [UInt8.ofNat (0xc0 + n / 64), UInt8.ofNat (0x80 + n % 64)]
  else if n < 0x10000 then
    [UInt8.ofNat (0xe0 + n / 4096), UInt8.ofNat (0x80 + n / 64 % 64), UInt8.ofNat (0x80 + n % 64)]
  else
    [UInt8.ofNat (0xf0 + n / 262144), UInt8.ofNat (0x80 + n / 4096 % 64),
      UInt8.ofNat (0x80 + n / 64 % 64), UInt8.ofNat (0x80 + n % 64)]

def encode (s : List Char) : Bytes := s.flatMap encodeChar

theorem follow_cons {code count low high n : Nat} {rest : Bytes} (h : n < 256)
    (range : low ≤ n ∧ n ≤ high) :
    follow code (count + 1) low high (UInt8.ofNat n :: rest) =
      follow (code * 64 + n % 64) count 0x80 0xbf rest := by
  have small : (UInt8.ofNat n).toNat = n := by simp; omega
  rw [follow, small, if_pos range]

theorem toNat_ofNat_of_lt {n : Nat} (h : n < 256) : (UInt8.ofNat n).toNat = n := by simp; omega

/-- A lead byte and a sequence that is followed to its end give the character of the code. -/
theorem next_eq {n code : Nat} {s : Sequence} {tail rest : Bytes} (h : n < 256)
    (lead : Sequence.ofLead n = some s)
    (tailCode : follow s.payload s.count s.low s.high tail = (some code, rest)) :
    next (UInt8.ofNat n) tail = (some (Char.ofNat code), rest) := by
  simp [next, toNat_ofNat_of_lt h, lead, tailCode]

theorem ofLead_two {k : Nat} (low : 2 ≤ k) (high : k < 0x20) :
    Sequence.ofLead (0xc0 + k) = some ⟨k, 1, 0x80, 0xbf⟩ := by
  rw [Sequence.ofLead, if_neg (by omega), if_neg (by omega), if_pos (by omega)]
  simp

theorem ofLead_three {k : Nat} (high : k < 0x10) :
    Sequence.ofLead (0xe0 + k) = some ⟨k, 2, if k = 0 then 0xa0 else 0x80,
      if k = 0xd then 0x9f else 0xbf⟩ := by
  rw [Sequence.ofLead, if_neg (by omega), if_neg (by omega), if_neg (by omega)]
  split
  · next h => simp [show k = 0 by omega]
  · split
    · next h => simp [show k = 0xd by omega]
    · next h0 hd =>
      rw [if_pos (by omega), if_neg (by omega), if_neg (by omega)]
      simp

theorem ofLead_four {k : Nat} (high : k ≤ 4) :
    Sequence.ofLead (0xf0 + k) = some ⟨k, 3, if k = 0 then 0x90 else 0x80,
      if k = 4 then 0x8f else 0xbf⟩ := by
  have cases : k = 0 ∨ k = 1 ∨ k = 2 ∨ k = 3 ∨ k = 4 := by omega
  rcases cases with rfl | rfl | rfl | rfl | rfl <;> rfl

theorem next_encodeChar (c : Char) (rest : Bytes) :
    ∃ b tail, encodeChar c ++ rest = b :: tail ∧ next b tail = (some c, rest) := by
  have valid : c.toNat < 0xd800 ∨ 0xdfff < c.toNat ∧ c.toNat < 0x110000 := c.valid
  have whole : Char.ofNat c.toNat = c := Char.ofNat_toNat c
  generalize hn : c.toNat = n at valid whole
  rw [← whole]
  unfold encodeChar
  simp only [whole, hn]
  split
  · next h =>
    refine ⟨_, _, rfl, ?_⟩
    rw [← whole]
    exact next_eq (s := ⟨n, 0, 0x80, 0xbf⟩) (by omega) (by simp [Sequence.ofLead, h])
      (by simp [follow])
  split
  · next h1 h2 =>
    refine ⟨_, _, rfl, ?_⟩
    rw [← whole]
    refine next_eq (by omega) (ofLead_two (by omega) (by omega)) ?_
    dsimp only
    show follow (n / 64) 1 _ _ (UInt8.ofNat _ :: rest) = _
    rw [follow_cons, follow, show n / 64 * 64 + (0x80 + n % 64) % 64 = n by omega] <;>
      omega
  split
  · next h1 h2 h3 =>
    refine ⟨_, _, rfl, ?_⟩
    rw [← whole]
    refine next_eq (by omega) (ofLead_three (by omega)) ?_
    dsimp only
    show follow (n / 4096) 2 _ _ (UInt8.ofNat _ :: UInt8.ofNat _ :: rest) = _
    rw [follow_cons, follow_cons, follow,
      show (n / 4096 * 64 + (0x80 + n / 64 % 64) % 64) * 64 + (0x80 + n % 64) % 64 = n by omega]
    all_goals try split
    all_goals try split
    all_goals omega
  · next h1 h2 h3 =>
    refine ⟨_, _, rfl, ?_⟩
    rw [← whole]
    refine next_eq (by omega) (ofLead_four (by omega)) ?_
    dsimp only
    show follow (n / 262144) 3 _ _ (UInt8.ofNat _ :: UInt8.ofNat _ :: UInt8.ofNat _ :: rest) = _
    rw [follow_cons, follow_cons, follow_cons, follow,
      show ((n / 262144 * 64 + (0x80 + n / 4096 % 64) % 64) * 64 + (0x80 + n / 64 % 64) % 64) * 64 +
        (0x80 + n % 64) % 64 = n by omega]
    all_goals try split
    all_goals try split
    all_goals omega

theorem pieces_encodeChar_append (c : Char) (rest : Bytes) :
    pieces (encodeChar c ++ rest) = some c :: pieces rest := by
  obtain ⟨b, tail, shape, first⟩ := next_encodeChar c rest
  rw [shape, pieces, first]

@[simp] theorem pieces_encode (s : List Char) : pieces (encode s) = s.map some := by
  induction s with
  | nil => simp [encode, pieces]
  | cons c s ih =>
    rw [encode, List.flatMap_cons, pieces_encodeChar_append, ← encode, ih, List.map_cons]

theorem decodeLossy_encode (s : List Char) : decodeLossy (encode s) = s := by
  simp [decodeLossy, Function.comp_def]

end PocketKernel.Utf8
