import ReactiveMarkup.Pattern.Basic

/-!
# Programs

A rule is laid out as a list of instructions before it is matched. The instructions of a rule stand
in one block, are entered at its first place and leave for a place that the block is given. Of the
two ways out of a fork the first is preferred, and this is all there is to greed: a greedy
repetition forks to its body first, a lazy one to what comes behind it.

A repetition of any number of rounds is a loop through a single fork if every round takes a
character. If a round may be empty it is an optional `plus` instead, whose second fork stands behind
the body, so that what the first round prefers is not lost when the loop comes back to where it
began.
-/

namespace ReactiveMarkup

/-- One step of a program, with the places at which it goes on. -/
inductive Instruction where
  | take (set : CharSet) (next : Nat)
  | check (assertion : Assertion) (next : Nat)
  | fork (first second : Nat)
  | enter (group : Nat) (next : Nat)
  | leave (group : Nat) (next : Nat)
  | jump (next : Nat)
  | accept
deriving Repr, DecidableEq

/-- The instructions of a pattern; it is entered at place 0. -/
abbrev Program := Array Instruction

/-- The instruction at a place. -/
def Program.at? (program : Program) (place : Nat) : Option Instruction := program[place]?

/-- A fork between going on with a repetition and stopping. -/
def Instruction.repeatOr (greedy : Bool) (body next : Nat) : Instruction :=
  if greedy then .fork body next else .fork next body

namespace Rule

/-- The number of instructions of a rule. -/
def size : Rule → Nat
  | .nothing => 1
  | .one _ => 1
  | .place _ => 1
  | .sequence first second => first.size + second.size
  | .choice first second => first.size + second.size + 1
  | .optional body _ => body.size + 1
  | .plus body _ => body.size + 1
  | .star body _ => if body.mayBeEmpty then body.size + 2 else body.size + 1
  | .group _ body => body.size + 2

/-- The instructions of a rule that starts at place `start` and goes on at place `next`. -/
def layOut : Rule → Nat → Nat → List Instruction
  | .nothing, _, next => [.jump next]
  | .one set, _, next => [.take set next]
  | .place assertion, _, next => [.check assertion next]
  | .sequence first second, start, next =>
    let middle := start + first.size
    first.layOut start middle ++ second.layOut middle next
  | .choice first second, start, next =>
    let middle := start + 1 + first.size
    .fork (start + 1) middle :: (first.layOut (start + 1) next ++ second.layOut middle next)
  | .optional body greedy, start, next =>
    .repeatOr greedy (start + 1) next :: body.layOut (start + 1) next
  | .plus body greedy, start, next =>
    body.layOut start (start + body.size) ++ [.repeatOr greedy start next]
  | .star body greedy, start, next =>
    if body.mayBeEmpty then
      let last := start + 1 + body.size
      .repeatOr greedy (start + 1) next ::
        (body.layOut (start + 1) last ++ [.repeatOr greedy (start + 1) next])
    else
      .repeatOr greedy (start + 1) next :: body.layOut (start + 1) start
  | .group index body, start, next =>
    let last := start + 1 + body.size
    .enter index (start + 1) :: (body.layOut (start + 1) last ++ [.leave index next])

def program (rule : Rule) : Program := (rule.layOut 0 rule.size ++ [Instruction.accept]).toArray

end Rule

end ReactiveMarkup
