import PocketKernel.Image.Elf

/-!
# Stored headers

The header of a file has the class of the file, which is its word size, and the byte order of its
numbers; by these it gives the place and the number of the program headers, which lie one after the
other. `storedHeaders` has them as they are stored, in any bytes at all. `ProgramFile.parse` is a
reader that refuses bytes which do not hold the headers as a whole.
-/
namespace PocketKernel

inductive ByteOrder where
  | little
  | big
  deriving DecidableEq, Repr

def ByteOrder.number (order : ByteOrder) (bytes : Bytes) : Nat :=
  match order with
  | little => Bytes.leNat bytes
  | big => Bytes.beNat bytes

/-- The place of a number in a header. -/
structure ElfField where
  offset : Nat
  width : Nat
  deriving DecidableEq, Repr

/-- Where the headers of a class have their fields. -/
structure ElfClass where
  headerFields : List ElfField
  entry : ElfField
  tableOffset : ElfField
  tableCount : ElfField
  programFields : List ElfField
  programSize : Nat
  kind : ElfField
  fileOffset : ElfField
  vaddr : ElfField
  fileSize : ElfField
  memSize : ElfField

namespace ElfClass

/-- Fields of those widths, one after the other. -/
def consecutive : (offset : Nat) → (widths : List Nat) → List ElfField
  | _, [] => []
  | offset, width :: rest => ⟨offset, width⟩ :: consecutive (offset + width) rest

/-- Files of 32-bit programs. -/
def bits32 : ElfClass where
  headerFields := consecutive 16 [2, 2, 4, 4, 4, 4, 4, 2, 2, 2, 2, 2, 2]
  entry := ⟨24, 4⟩
  tableOffset := ⟨28, 4⟩
  tableCount := ⟨44, 2⟩
  programFields := consecutive 0 [4, 4, 4, 4, 4, 4, 4, 4]
  programSize := 32
  kind := ⟨0, 4⟩
  fileOffset := ⟨4, 4⟩
  vaddr := ⟨8, 4⟩
  fileSize := ⟨16, 4⟩
  memSize := ⟨20, 4⟩

/-- Files of 64-bit programs. -/
def bits64 : ElfClass where
  headerFields := consecutive 16 [2, 2, 4, 8, 8, 8, 4, 2, 2, 2, 2, 2, 2]
  entry := ⟨24, 8⟩
  tableOffset := ⟨32, 8⟩
  tableCount := ⟨56, 2⟩
  programFields := consecutive 0 [4, 4, 8, 8, 8, 8, 8, 8]
  programSize := 56
  kind := ⟨0, 4⟩
  fileOffset := ⟨8, 8⟩
  vaddr := ⟨16, 8⟩
  fileSize := ⟨32, 8⟩
  memSize := ⟨40, 8⟩

end ElfClass

/-- The first field that the bytes do not hold as a whole. -/
def cutField (bytes : Bytes) (fields : List ElfField) : Option ElfField :=
  fields.find? fun f => bytes.length < f.offset + f.width

def ElfField.read (f : ElfField) (order : ByteOrder) (bytes : Bytes) : Nat :=
  order.number ((bytes.drop f.offset).take f.width)

/-- The program header that begins with those bytes. -/
def ElfClass.header (c : ElfClass) (order : ByteOrder) (bytes : Bytes) : ProgramHeader where
  kind := c.kind.read order bytes
  fileOffset := c.fileOffset.read order bytes
  vaddr := c.vaddr.read order bytes
  fileSize := c.fileSize.read order bytes
  memSize := c.memSize.read order bytes

/-- The first `count` pieces of that size; the bytes may end before or within one. -/
def Bytes.slots (size : Nat) : (count : Nat) → (bytes : Bytes) → List Bytes
  | 0, _ => []
  | count + 1, bytes => bytes.take size :: Bytes.slots size count (bytes.drop size)

/-- The class that a file says it has; 32 bits are class 1. -/
def ElfClass.ofFile (file : Bytes) : ElfClass := if file.getD 4 0 = 1 then bits32 else bits64

def ByteOrder.ofFile (file : Bytes) : ByteOrder := if file.getD 5 0 = 1 then little else big

/-- The program headers of a class that a file has, as many as its header counts. -/
def ElfClass.headers (c : ElfClass) (order : ByteOrder) (file : Bytes) : List ProgramHeader :=
  (Bytes.slots c.programSize (c.tableCount.read order file)
    (file.drop (c.tableOffset.read order file))).map (c.header order)

/-- The program headers as they are stored in a file. -/
def storedHeaders (file : Bytes) : List ProgramHeader :=
  (ElfClass.ofFile file).headers (.ofFile file) file

/-! ## Reading them -/

/-- Why the headers of a file cannot be read. -/
inductive HeaderError where
  | tooShort
  | badMagic (found : Nat)
  | badClass (found : UInt8)
  | badByteOrder (found : UInt8)
  /-- A field of that width begins or ends after the `length` bytes that are there. -/
  | fieldCut (offset width length : Nat)
  | tooManyHeaders (count : Nat)
  deriving DecidableEq, Repr

def HeaderError.message : HeaderError → String
  | tooShort => "Malformed entity: Too small"
  | badMagic found => "Invalid magic number: " ++ Hex.marked found
  | badClass found => "Malformed entity: invalid ELF class " ++ Hex.digits found.toNat
  | badByteOrder found =>
    "Malformed entity: invalid ELF endianness DATA type " ++ Hex.digits found.toNat
  | fieldCut offset width length =>
    let cause :=
      if length < offset then "bad offset " ++ toString offset
      else "type is too big (" ++ toString width ++ ") for " ++ toString (length - offset)
    cause ++ ": " ++ cause
  | tooManyHeaders count =>
    "Buffer is too short for " ++ toString count ++ " program headers"

namespace ProgramFile

def magic : Bytes := [0x7f, 0x45, 0x4c, 0x46]
def identSize : Nat := 16

def checkClass (code : UInt8) : Except HeaderError Unit :=
  if code = 1 ∨ code = 2 then .ok () else .error (.badClass code)

def checkOrder (code : UInt8) : Except HeaderError Unit :=
  if code = 1 ∨ code = 2 then .ok () else .error (.badByteOrder code)

/-- Refuses bytes that do not hold all of the fields. -/
def checkFields (bytes : Bytes) (fields : List ElfField) : Except HeaderError Unit :=
  match cutField bytes fields with
  | some f => .error (.fieldCut f.offset f.width bytes.length)
  | none => .ok ()

/-- The program header in a slot, which must hold all of its fields. -/
def readHeader (c : ElfClass) (order : ByteOrder) (slot : Bytes) :
    Except HeaderError ProgramHeader := do
  checkFields slot c.programFields
  return c.header order slot

/-- Reads `count` program headers from `offset` on. -/
def readHeaders (c : ElfClass) (order : ByteOrder) (file : Bytes) (count offset : Nat) :
    Except HeaderError (List ProgramHeader) :=
  if 0 < count ∧ file.length < offset then
    .error (.fieldCut offset 0 file.length)
  else
    (Bytes.slots c.programSize count (file.drop offset)).mapM (readHeader c order)

/-- The entry address and the program headers of a file. -/
def parse (file : Bytes) : Except HeaderError ProgramFile := do
  if file.length < identSize then
    throw .tooShort
  if file.take 4 ≠ magic then
    throw (.badMagic (Bytes.leNat (file.take 8)))
  checkClass (file.getD 4 0)
  checkOrder (file.getD 5 0)
  let c := ElfClass.ofFile file
  let order := ByteOrder.ofFile file
  checkFields file c.headerFields
  let count := c.tableCount.read order file
  if file.length / c.programSize < count then
    throw (.tooManyHeaders count)
  let headers ← readHeaders c order file count (c.tableOffset.read order file)
  return ⟨c.entry.read order file, headers⟩

def reader : ProgramReader := fun file => (parse file).mapError HeaderError.message

end ProgramFile

/-- The plan of a file that is read by `ProgramFile.reader`. -/
def LoadPlan.parse (file : Bytes) : Except ElfError LoadPlan :=
  LoadPlan.ofFile ProgramFile.reader file

end PocketKernel
