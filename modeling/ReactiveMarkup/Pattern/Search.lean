import ReactiveMarkup.Pattern.Program

/-!
# Matching

Matching is leftmost first: the earliest position at which a pattern matches wins, and there the way
through the program that is preferred at its first fork, then at its second, and so on.

All ways are followed at once, one character at a time, as a list of threads with the preferred one
first. Between two characters a place of the program is passed once only, by the first thread that
comes to it. This bounds the work by the size of the program, keeps loops from going round on
nothing, and decides what a group holds that could be reached in two ways. When a thread accepts,
the threads behind it are dropped; those before it go on and may still find a match that is
preferred.
-/

namespace ReactiveMarkup

/-- The bounds of the groups matched so far, the latest first: number, start and stop. -/
abbrev Groups := List (Nat × Nat × Nat)

/-- One way through a program: its place, where it entered groups, and the groups it has left. -/
structure Thread where
  place : Nat
  entered : List (Nat × Nat)
  groups : Groups

namespace Thread

/-- A thread at another place. -/
def goTo (thread : Thread) (place : Nat) : Thread := { thread with place }

/-- Notes that a group begins at a position. -/
def enter (thread : Thread) (group position : Nat) : Thread :=
  { thread with entered := (group, position) :: thread.entered }

/-- Notes that the group entered last under this number ends at a position. -/
def leave (thread : Thread) (group position : Nat) : Thread :=
  match thread.entered.lookup group with
  | some start => { thread with groups := (group, start, position) :: thread.groups }
  | none => thread

end Thread

/-- A place in a text: the character before it, its distance from the start of the text in
characters, and the text behind it. -/
structure Cursor where
  before : Option Char
  position : Nat
  after : List Char

namespace Cursor

/-- The start of a text. -/
def start (text : List Char) : Cursor := ⟨none, 0, text⟩

/-- The place so many characters on, or the end of the text. -/
def skip : Cursor → Nat → Cursor
  | here, 0 => here
  | ⟨before, position, []⟩, _ + 1 => ⟨before, position, []⟩
  | ⟨_, position, c :: rest⟩, n + 1 => skip ⟨some c, position + 1, rest⟩ n

end Cursor

namespace Program

/-- Follows threads through the instructions that take no character. What is left, in order of
preference, are threads that want a character, and one that accepts if there is any, which is then
the last. `passed` are the places that threads have been at; each step adds one to them or shortens
the list, so twice the size of the program and the length of the list are steps enough. -/
def settle (program : Program) (before after : Option Char) (position : Nat) :
    Nat → List Nat → List Thread → List Thread
  | 0, _, _ => []
  | _ + 1, _, [] => []
  | fuel + 1, passed, thread :: rest =>
    if passed.contains thread.place then settle program before after position fuel passed rest
    else
      let onward := settle program before after position fuel (thread.place :: passed)
      match program.at? thread.place with
      | some (.take _ _) => thread :: onward rest
      | some (.check assertion next) =>
        if assertion.holds before after then onward (thread.goTo next :: rest) else onward rest
      | some (.fork first second) => onward (thread.goTo first :: thread.goTo second :: rest)
      | some (.enter group next) => onward ((thread.enter group position).goTo next :: rest)
      | some (.leave group next) => onward ((thread.leave group position).goTo next :: rest)
      | some (.jump next) => onward (thread.goTo next :: rest)
      | some .accept => [thread]
      | none => onward rest

/-- The threads that a character lets go on. -/
def consume (program : Program) (c : Char) (threads : List Thread) : List Thread :=
  threads.filterMap fun thread =>
    match program.at? thread.place with
    | some (.take set next) => if set.holds c then some (thread.goTo next) else none
    | _ => none

/-- The groups of the thread that accepts, if there is one. -/
def accepted? (program : Program) (threads : List Thread) : Option Groups :=
  (threads.find? fun thread => program.at? thread.place == some Instruction.accept).map (·.groups)

/-- Follows threads to the end of a text, or until there are none, and returns where the match ends
that is preferred, with its groups. `best` is the match found so far; a later one comes from a
thread that was preferred to it. -/
def follow (program : Program) (best : Option (Nat × Groups)) (before : Option Char)
    (position : Nat) (threads : List Thread) : List Char → Option (Nat × Groups)
  | [] =>
    let settled :=
      program.settle before none position (2 * program.size + threads.length + 1) [] threads
    match program.accepted? settled with
    | some groups => some (position, groups)
    | none => best
  | c :: rest =>
    let settled :=
      program.settle before (some c) position (2 * program.size + threads.length + 1) [] threads
    let best := match program.accepted? settled with
      | some groups => some (position, groups)
      | none => best
    match program.consume c settled with
    | [] => best
    | threads => follow program best (some c) (position + 1) threads rest

end Program

/-- A pattern ready to match; group 0 is the whole match, and there are `groups` others. -/
structure Pattern where
  program : Program
  groups : Nat
deriving Repr, DecidableEq

/-- A match in a text: its bounds and those of the groups, counted in characters. -/
structure Match where
  start : Nat
  stop : Nat
  groups : Groups

namespace Pattern

def ofRule (rule : Rule) : Pattern := ⟨rule.program, rule.lastGroup⟩

/-- The match at one place. -/
def matchAt (pattern : Pattern) (before : Option Char) (position : Nat) (text : List Char) :
    Option Match :=
  match pattern.program.follow none before position [⟨0, [], []⟩] text with
  | some (stop, groups) => some ⟨position, stop, (0, position, stop) :: groups⟩
  | none => none

/-- The first match at a place or behind it. -/
def findFrom (pattern : Pattern) (before : Option Char) (position : Nat) :
    List Char → Option Match
  | [] => pattern.matchAt before position []
  | c :: rest =>
    match pattern.matchAt before position (c :: rest) with
    | some found => some found
    | none => findFrom pattern (some c) (position + 1) rest

/-- The first match in a text. -/
def find (pattern : Pattern) (text : List Char) : Option Match := pattern.findFrom none 0 text

/-- Whether a pattern matches anywhere in a text. -/
def occurs (pattern : Pattern) (text : String) : Bool := (pattern.find text.toList).isSome

/-- The matches at a place and behind it that do not overlap, from left to right. An empty match is
passed over where the match before it ends. -/
def findAllFrom (pattern : Pattern) : Nat → Option Nat → Cursor → List Match
  | 0, _, _ => []
  | fuel + 1, lastStop, here =>
    match pattern.findFrom here.before here.position here.after with
    | none => []
    | some found =>
      if found.start = found.stop && some found.stop = lastStop then
        if here.after.isEmpty then [] else findAllFrom pattern fuel lastStop (here.skip 1)
      else
        found :: findAllFrom pattern fuel (some found.stop) (here.skip (found.stop - here.position))

/-- The matches in a text that do not overlap, from left to right. -/
def findAll (pattern : Pattern) (text : List Char) : List Match :=
  pattern.findAllFrom (2 * text.length + 2) none (.start text)

end Pattern

namespace Match

/-- The text of a group; none when the group took no part in the match. -/
def group? (found : Match) (text : List Char) (index : Nat) : Option (List Char) :=
  match found.groups.lookup index with
  | some (start, stop) => some ((text.drop start).take (stop - start))
  | none => none

def isEmpty (found : Match) : Bool := found.start == found.stop

end Match

end ReactiveMarkup
