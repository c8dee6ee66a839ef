import ReactiveMarkup.Pattern.CharSet

/-!
# Rules

Regular expressions with groups, as a tree: what the written form of a pattern says, with counted
repetitions written out.
-/

namespace ReactiveMarkup

/-- What a pattern may ask of a place between two characters. -/
inductive Assertion where
  | textStart
  | textEnd
  | wordEdge
  | noWordEdge
  | wordStart
  | wordEnd
  | wordStartHalf
  | wordEndHalf
deriving Repr, DecidableEq

/-- Whether an assertion holds between two characters, of which there is none at the ends of a
text. The halves ask about one side only: that no word goes on before the place, or behind it. -/
def Assertion.holds (assertion : Assertion) (before after : Option Char) : Bool :=
  let inWord := before.any Unicode.isWordChar
  let intoWord := after.any Unicode.isWordChar
  match assertion with
  | .textStart => before.isNone
  | .textEnd => after.isNone
  | .wordEdge => inWord != intoWord
  | .noWordEdge => inWord == intoWord
  | .wordStart => !inWord && intoWord
  | .wordEnd => inWord && !intoWord
  | .wordStartHalf => !inWord
  | .wordEndHalf => !intoWord

/-- A regular expression. `plus` stands for one round or more, `star` for any number of rounds; a
greedy repetition prefers to go on and a lazy one to stop. -/
inductive Rule where
  | nothing
  | one (set : CharSet)
  | place (assertion : Assertion)
  | sequence (first second : Rule)
  | choice (first second : Rule)
  | optional (body : Rule) (greedy : Bool)
  | plus (body : Rule) (greedy : Bool)
  | star (body : Rule) (greedy : Bool)
  | group (index : Nat) (body : Rule)
deriving Repr, DecidableEq

namespace Rule

/-- Whether some match of a rule may take no character, as far as its shape tells. -/
def mayBeEmpty : Rule → Bool
  | .nothing => true
  | .one _ => false
  | .place _ => true
  | .sequence first second => first.mayBeEmpty && second.mayBeEmpty
  | .choice first second => first.mayBeEmpty || second.mayBeEmpty
  | .optional _ _ => true
  | .plus body _ => body.mayBeEmpty
  | .star _ _ => true
  | .group _ body => body.mayBeEmpty

/-- The greatest number of a group in a rule; zero for a rule without groups. -/
def lastGroup : Rule → Nat
  | .nothing => 0
  | .one _ => 0
  | .place _ => 0
  | .sequence first second => max first.lastGroup second.lastGroup
  | .choice first second => max first.lastGroup second.lastGroup
  | .optional body _ => body.lastGroup
  | .plus body _ => body.lastGroup
  | .star body _ => body.lastGroup
  | .group index body => max index body.lastGroup

/-- Two rules one after another. -/
def followedBy (first : Rule) : Rule → Rule
  | .nothing => first
  | second => .sequence first second

/-- Rounds of a rule one after another. -/
def copies (rule : Rule) : Nat → Rule
  | 0 => .nothing
  | n + 1 => rule.followedBy (copies rule n)

/-- Up to a number of rounds of a rule. -/
def upTo (rule : Rule) (greedy : Bool) : Nat → Rule
  | 0 => .nothing
  | n + 1 => .optional (rule.followedBy (upTo rule greedy n)) greedy

/-- A rule repeated at least and at most so many times. -/
def repeated (rule : Rule) (least : Nat) (greatest : Option Nat) (greedy : Bool) : Rule :=
  match greatest, least with
  | none, 0 => .star rule greedy
  | none, n + 1 => (copies rule n).followedBy (.plus rule greedy)
  | some greatest, least => (copies rule least).followedBy (upTo rule greedy (greatest - least))

end Rule

end ReactiveMarkup
