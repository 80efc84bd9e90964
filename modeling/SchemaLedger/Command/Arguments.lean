set_option autoImplicit false

/-!
# Arguments

Options and other arguments of a command line. A long option stands with its value after an equals
sign or in the next argument; short options may stand together, the last of them with its value.
After two hyphens nothing is an option.
-/
namespace SchemaLedger

/-- An option that may be given. -/
structure Switch where
  name : String
  letter : Option Char := none
  /-- Whether a value belongs to it. -/
  valued : Bool := true

/-- What was given: options by name in order, and the other arguments. -/
structure Given where
  options : List (String × String) := []
  rest : List String := []

namespace Given

/-- The value of an option that was given last. -/
def value? (g : Given) (name : String) : Option String :=
  (g.options.reverse.find? (·.1 = name)).map (·.2)

def has (g : Given) (name : String) : Bool := (g.value? name).isSome

end Given

namespace Arguments

/-- The options in one argument, and the name of one that takes the next argument as its value. -/
structure Reading where
  options : List (String × String) := []
  waiting : Option String := none

/-- A long option: its name, and its value if an equals sign stands in it. -/
def readLong (switches : List Switch) (body : List Char) : Option Reading :=
  let name := String.ofList (body.takeWhile (· ≠ '='))
  let value := (body.dropWhile (· ≠ '=')).tail?.map String.ofList
  match switches.find? (·.name = name), value with
  | none, _ => none
  | some s, none => some (if s.valued then ⟨[], some name⟩ else ⟨[(name, "")], none⟩)
  | some s, some v => if s.valued then some ⟨[(name, v)], none⟩ else none

/-- Short options by their letters; what follows the letter of one with a value is its value. -/
def readShort (switches : List Switch) : List Char → Option Reading
  | [] => some {}
  | c :: rest =>
    match switches.find? (·.letter = some c) with
    | none => none
    | some s =>
      if !s.valued then
        (readShort switches rest).map fun r => { r with options := (s.name, "") :: r.options }
      else if rest.isEmpty then some ⟨[], some s.name⟩
      else some ⟨[(s.name, String.ofList rest)], none⟩

def readOption (switches : List Switch) : List Char → Option Reading
  | '-' :: '-' :: body => readLong switches body
  | '-' :: letters => readShort switches letters
  | _ => none

def isOption (argument : String) : Bool :=
  match argument.toList with
  | '-' :: _ :: _ => true
  | _ => false

/-- Reads arguments, `mixed` if options may follow other arguments. None if an option is unknown or
lacks its value. -/
def read (switches : List Switch) (mixed : Bool) : List String → Option Given
  | [] => some {}
  | argument :: rest =>
    if argument = "--" then some { rest }
    else if !isOption argument then
      if mixed then
        (read switches mixed rest).map fun g => { g with rest := argument :: g.rest }
      else some { rest := argument :: rest }
    else
      match readOption switches argument.toList with
      | none => none
      | some ⟨options, none⟩ =>
        (read switches mixed rest).map fun g => { g with options := options ++ g.options }
      | some ⟨options, some name⟩ =>
        match rest with
        | [] => none
        | value :: rest =>
          (read switches mixed rest).map fun g =>
            { g with options := options ++ (name, value) :: g.options }

end Arguments

end SchemaLedger
