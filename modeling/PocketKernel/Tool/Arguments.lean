import PocketKernel.Tool.Directory

/-!
# The command line of the image tool

The words of a command line are read from left to right. A command has positional words, options
that take a value in the same word or in the next one, and switches. After a word of two dashes all
words are positional. The first word that cannot be read decides what happens: a request for help or
for the version is answered, anything else is refused.
-/
namespace PocketKernel

/-- How a listing is written. -/
inductive ListFormat where
  | text
  | json
  deriving DecidableEq, Repr

inductive Command where
  | flat (elf output : Path) (anyBase : Bool)
  | mkdisk (files : List Path) (output : Path)
  | ls (disk : Path) (format : ListFormat)
  deriving DecidableEq, Repr

/-- Why no command was read from the words. -/
inductive Usage where
  | help
  | version
  | refused
  deriving DecidableEq, Repr

/-- The answer to a request for the version. -/
def Usage.versionText : String := "imgtool 0.1.0\n"

namespace Arguments

abbrev Word := List Char

/-- The options of a command: those with a value by letter and name, and the switches by name. -/
structure Options where
  valued : List (Char × String)
  switches : List String

/-- What a word, or an option with its value, says. -/
inductive Item where
  | positional (word : Word)
  | option (name : String) (value : Word)
  | switch (name : String)
  | help
  deriving DecidableEq, Repr

/-- A word that is read as an option; a lone dash is none. -/
def isOption (w : Word) : Bool := w.head? == some '-' && w.length != 1

def splitAtEquals (w : Word) : Word × Option Word :=
  (w.takeWhile (· != '='), (w.dropWhile (· != '=')).tail?)

/-- An option whose value is the next word, which must not look like an option. -/
def valueFrom (name : String) : List Word → Option (Item × List Word)
  | [] => none
  | w :: rest => if isOption w then none else some (.option name w, rest)

/-- A word of two dashes and a name. -/
def longItem (o : Options) (body : Word) (rest : List Word) : Option (Item × List Word) :=
  let (name, value) := splitAtEquals body
  let name := String.ofList name
  match o.valued.find? (·.2 == name), value with
  | some (_, name), some value => some (.option name value, rest)
  | some (_, name), none => valueFrom name rest
  | none, some _ => none
  | none, none =>
    if name == "help" then some (.help, rest)
    else if o.switches.contains name then some (.switch name, rest)
    else none

/-- A word of one dash and a letter; what follows the letter of an option is its value. -/
def shortItem (o : Options) (letter : Char) (body : Word) (rest : List Word) :
    Option (Item × List Word) :=
  match o.valued.find? (·.1 == letter) with
  | some (_, name) =>
    match body with
    | [] => valueFrom name rest
    | '=' :: value => some (.option name value, rest)
    | value => some (.option name value, rest)
  | none => if letter == 'h' then some (.help, rest) else none

/-- The items of the words, up to the first that cannot be read or asks for help. -/
def items (o : Options) : (steps : Nat) → List Word → List Item × Option Usage
  | 0, _ => ([], some .refused)
  | _ + 1, [] => ([], none)
  | steps + 1, w :: rest =>
    if w = ['-', '-'] then (rest.map .positional, none)
    else
      let read :=
        match w with
        | '-' :: '-' :: body => longItem o body rest
        | '-' :: letter :: body => shortItem o letter body rest
        | _ => some (.positional w, rest)
      match read with
      | none => ([], some .refused)
      | some (.help, _) => ([], some .help)
      | some (item, rest) =>
        let (more, stop) := items o steps rest
        (item :: more, stop)

/-- What was read for a command so far. -/
structure Given where
  words : List Word
  values : List (String × Word)
  switches : List String

/-- Which items a command takes: how many positional words, and which values of an option. -/
structure Rules where
  maxWords : Option Nat
  accepts : String → Word → Bool

/-- Adds an item, unless it is empty, one too many or a repetition. -/
def Given.add (rules : Rules) (g : Given) : Item → Option Given
  | .positional w =>
    if w = [] || (rules.maxWords.map fun n => decide (n ≤ g.words.length)).getD false then none
    else some { g with words := g.words ++ [w] }
  | .option name value =>
    if (g.values.lookup name).isSome || !rules.accepts name value then none
    else some { g with values := g.values ++ [(name, value)] }
  | .switch name =>
    if g.switches.contains name then none else some { g with switches := g.switches ++ [name] }
  | .help => none

def Given.addAll (rules : Rules) : Given → List Item → Option Given
  | g, [] => some g
  | g, item :: rest =>
    match g.add rules item with
    | none => none
    | some g => g.addAll rules rest

/-- All that the words give. An item that is not accepted comes before a later request for help. -/
def collect (o : Options) (rules : Rules) (words : List Word) : Except Usage Given :=
  let (found, stop) := items o (words.length + 1) words
  match Given.addAll rules ⟨[], [], []⟩ found with
  | none => .error .refused
  | some g =>
    match stop with
    | some usage => .error usage
    | none => .ok g

def outputOption : Char × String := ('o', "output")
def formatOption : Char × String := ('f', "format")
def anyBaseSwitch : String := "any-base"

def formatOf (value : Word) : Option ListFormat :=
  if value = "text".toList then some .text
  else if value = "json".toList then some .json
  else none

/-- Values are paths, which are not empty, but for the format. -/
def acceptsValue (name : String) (value : Word) : Bool :=
  if name == formatOption.2 then (formatOf value).isSome else value != []

def readFlat (words : List Word) : Except Usage Command := do
  let g ← collect ⟨[outputOption], [anyBaseSwitch]⟩ ⟨some 1, acceptsValue⟩ words
  match g.words, g.values.lookup outputOption.2 with
  | [elf], some output => .ok (.flat elf output (g.switches.contains anyBaseSwitch))
  | _, _ => .error .refused

def readMkdisk (words : List Word) : Except Usage Command := do
  let g ← collect ⟨[outputOption], []⟩ ⟨none, acceptsValue⟩ words
  match g.words, g.values.lookup outputOption.2 with
  | file :: files, some output => .ok (.mkdisk (file :: files) output)
  | _, _ => .error .refused

def readLs (words : List Word) : Except Usage Command := do
  let g ← collect ⟨[formatOption], []⟩ ⟨some 1, acceptsValue⟩ words
  let format := (g.values.lookup formatOption.2).bind formatOf
  match g.words with
  | [disk] => .ok (.ls disk (format.getD .text))
  | _ => .error .refused

def commandNames : List Word := ["flat".toList, "mkdisk".toList, "ls".toList, "help".toList]

/-- A request for help on commands; only the help command itself has commands below it. -/
def readHelp : List Word → Usage
  | [] => .help
  | [w] => if commandNames.contains w then .help else .refused
  | _ :: _ :: _ => .refused

/-- What the first word asks for when it is an option; the command's own options come after it. -/
def readRequest (help version : Bool) : Usage :=
  if help then .help else if version then .version else .refused

def read : List Word → Except Usage Command
  | [] => .error .refused
  | w :: rest =>
    match w with
    | '-' :: '-' :: name =>
      .error (readRequest (name = "help".toList) (name = "version".toList))
    | '-' :: letter :: _ => .error (readRequest (letter = 'h') (letter = 'V'))
    | _ =>
      if w = "flat".toList then readFlat rest
      else if w = "mkdisk".toList then readMkdisk rest
      else if w = "ls".toList then readLs rest
      else if w = "help".toList then .error (readHelp rest)
      else .error .refused

end Arguments

end PocketKernel
