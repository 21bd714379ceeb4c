import CppMend.Grammar.Cue
import CppMend.Grammar.Outline

/-!
# Rules

A grammar is a value here: each construct has a `Rule`, which says how its tokens are grouped,
and rules that need each other do so through the name of a `Goal`. Rules never fail; where the
text has a mistake they take what they can and go on.

* `Rule`          what may be written in a grammar;
* `Rule.perform`  what a rule does with the cues ahead: the outlines it builds and the cues it
                  leaves;
* `reach`         what the goals of a grammar do.

A rule is performed under a budget, which bounds the depth of goals within goals and the turns of
each loop. When it is spent the cues ahead are taken one by one and not grouped any more. A budget
above `2 * n + 1` is never spent on `n` cues, since a goal can pass on to a second, but not to a
third, before a token is taken, and a loop takes a token on each turn but the last.
-/

namespace CppMend

/-- The constructs that contain each other. -/
inductive Goal where
  | item
  | statement
  /-- an expression whose operators bind at least as tightly as `power` -/
  | expression (power : Nat)
  /-- an operator between two operands, and the right one -/
  | operation (power : Nat)
  /-- `?` and the two alternatives -/
  | alternatives
  | arguments
  | subscript
  | member
  /-- `++` or `--` after its operand -/
  | step
  deriving DecidableEq, Repr, Inhabited

inductive Rule where
  /-- takes nothing -/
  | nothing
  /-- takes nothing and ends the loop around it -/
  | leave
  /-- takes one token -/
  | token
  /-- takes as many tokens as `length` says -/
  | tokens (length : List Cue → Nat)
  /-- a place for pending blanks -/
  | blank
  /-- groups what `body` takes into a node -/
  | node (kind : NodeKind) (body : Rule)
  | seq (first second : Rule)
  /-- chooses by the cues ahead -/
  | branch (test : List Cue → Bool) (yes no : Rule)
  /-- repeats `body` until it leaves -/
  | loop (body : Rule)
  /-- takes one token where `body` takes none -/
  | atLeastOne (body : Rule)
  /-- groups `head` and `tail` into a node whose kind shows after `head` -/
  | headed (head : Rule) (kind : List Cue → NodeKind) (tail : Rule)
  /-- takes `head`; then, as long as there is a link, wraps what was built and the goal of the
  link into a node -/
  | chain (head : Rule) (link : List Cue → Option (NodeKind × Goal))
  | goal (g : Goal)

/-! ## performing rules -/

/-- What a rule has built, what it has left, and whether it leaves the loop around it. -/
structure Outcome where
  built : List Outline
  ahead : List Cue
  leaving : Bool
  deriving Repr, Inhabited

abbrev Action := List Cue → Outcome

namespace Action

/-- takes every cue ahead, ungrouped -/
def flat : Action := fun ahead => ⟨ahead.map fun _ => .token, [], false⟩

/-- one token; at the end of the text, the pending blanks -/
def token : Action
  | [] => ⟨[.blank], [], false⟩
  | _ :: rest => ⟨[.token], rest, false⟩

/-- `n` tokens, or as many as there are -/
def tokens (n : Nat) : Action :=
  fun ahead => ⟨(ahead.take n).map fun _ => .token, ahead.drop n, false⟩

def andThen (p q : Action) : Action := fun ahead =>
  let a := p ahead
  if a.leaving then a
  else
    let b := q a.ahead
    ⟨a.built ++ b.built, b.ahead, b.leaving⟩

/-- at most `turns` turns -/
def loop (body : Action) : Nat → Action
  | 0, ahead => flat ahead
  | turns + 1, ahead =>
    let a := body ahead
    if a.leaving then ⟨a.built, a.ahead, false⟩
    else
      let b := loop body turns a.ahead
      ⟨a.built ++ b.built, b.ahead, false⟩

/-- wraps `built` and what the goal of a link builds, at most `turns` times -/
def wrap (link : List Cue → Option (NodeKind × Goal)) (call : Goal → Action) :
    Nat → List Outline → Action
  | 0, built, ahead => ⟨built ++ (flat ahead).built, [], false⟩
  | turns + 1, built, ahead =>
    match link ahead with
    | none => ⟨built, ahead, false⟩
    | some (kind, g) =>
      let a := call g ahead
      wrap link call turns [.node kind (built ++ a.built)] a.ahead

end Action

namespace Rule

/-- what a rule does, where `call` says what goals do -/
def perform (budget : Nat) (call : Goal → Action) : Rule → Action
  | .nothing, ahead => ⟨[], ahead, false⟩
  | .leave, ahead => ⟨[], ahead, true⟩
  | .token, ahead => Action.token ahead
  | .tokens length, ahead => Action.tokens (length ahead) ahead
  | .blank, ahead => ⟨[.blank], ahead, false⟩
  | .node kind body, ahead =>
    let a := body.perform budget call ahead
    ⟨[.node kind a.built], a.ahead, false⟩
  | .seq first second, ahead =>
    Action.andThen (first.perform budget call) (second.perform budget call) ahead
  | .branch test yes no, ahead =>
    if test ahead then yes.perform budget call ahead else no.perform budget call ahead
  | .loop body, ahead => Action.loop (body.perform budget call) budget ahead
  | .atLeastOne body, ahead =>
    let a := body.perform budget call ahead
    if Outline.anyToken a.built then a
    else
      let b := Action.token a.ahead
      ⟨a.built ++ b.built, b.ahead, a.leaving⟩
  | .headed head kind tail, ahead =>
    let a := head.perform budget call ahead
    let b := tail.perform budget call a.ahead
    ⟨[.node (kind a.ahead) (a.built ++ b.built)], b.ahead, false⟩
  | .chain head link, ahead =>
    let a := head.perform budget call ahead
    Action.wrap link call budget a.built a.ahead
  | .goal g, ahead =>
    let a := call g ahead
    ⟨a.built, a.ahead, false⟩

/-! ## writing rules -/

/-- one rule after the other -/
def inOrder : List Rule → Rule
  | [] => .nothing
  | [r] => r
  | r :: rs => .seq r (inOrder rs)

/-- the rule of the first test that holds -/
def choose : List ((List Cue → Bool) × Rule) → Rule → Rule
  | [], otherwise => otherwise
  | (test, r) :: rest, otherwise => .branch test r (choose rest otherwise)

/-- `r` where `test` holds -/
def onlyIf (test : List Cue → Bool) (r : Rule) : Rule := .branch test r .nothing

/-- repeats `r` as long as `test` holds -/
def whileTrue (test : List Cue → Bool) (r : Rule) : Rule := .loop (.branch test r .leave)

/-- repeats `r` until `test` holds -/
def untilTrue (test : List Cue → Bool) (r : Rule) : Rule := .loop (.branch test .leave r)

end Rule

/-- what the goals of a grammar do under a budget -/
def reach (grammar : Goal → Rule) : Nat → Goal → Action
  | 0, _, ahead => Action.flat ahead
  | budget + 1, g, ahead => (grammar g).perform budget (reach grammar budget) ahead

end CppMend
