import Gloss.Regex.Compose

/-!
Programs that carry out expressions. A program is a list of instructions that point at each other. It is
put together from its end: the code of an expression is written once it is known where to go on behind it.
-/
namespace Gloss.Regex

/-- An instruction, with the places of those that come next. -/
inductive Instr where
  | accept
  /-- Consumes a character of the set. -/
  | chars (set : CharSet) (next : Nat)
  /-- Goes on if the condition holds. -/
  | look (condition : Assertion) (next : Nat)
  /-- Remembers the offset under a number. -/
  | mark (slot : Nat) (next : Nat)
  /-- Goes on at both places, the first preferred. -/
  | fork (first second : Nat)
  deriving DecidableEq, Repr

/-- Code, with the place at which it starts. -/
structure Program where
  code : Array Instr
  start : Nat

namespace Program

/-- Puts an instruction in front that goes on at the start. -/
def put (p : Program) (f : Nat → Instr) : Program :=
  let place := p.code.size
  let instr := f p.start
  ⟨p.code.push instr, place⟩

/-- Puts a choice in front between the start and another place. -/
def putFork (p : Program) (greedy : Bool) (exit : Nat) : Program :=
  p.put fun start => if greedy then .fork start exit else .fork exit start

/-- Puts what `body` puts in front, `n` times. -/
def putTimes (body : Program → Program) : Nat → Program → Program
  | 0, p => p
  | n + 1, p => putTimes body n (body p)

/-- Puts what `body` puts in front, up to `n` times: before each time it can be left out, with all that are
nested in it. -/
def putOptional (body : Program → Program) (greedy : Bool) (exit : Nat) : Nat → Program → Program
  | 0, p => p
  | n + 1, p => putOptional body greedy exit n ((body p).putFork greedy exit)

/-- Puts a loop in front that `body` passes once or more often. Behind the body stands the choice between one
more round and none. -/
def putLoop (body : Program → Program) (greedy : Bool) (p : Program) : Program :=
  let turn := p.code.size
  let inner := body ⟨p.code.push .accept, turn⟩
  let choice := if greedy then .fork inner.start p.start else .fork p.start inner.start
  ⟨inner.code.setIfInBounds turn choice, inner.start⟩

/-- Puts a loop in front that `body` passes any number of times, and that is entered at the choice. -/
def putStar (body : Program → Program) (greedy : Bool) (p : Program) : Program :=
  let turn := p.code.size
  { putLoop body greedy p with start := turn }

end Program

open Program in
/-- Puts an expression in front of a program. A loop whose rounds may consume nothing has a choice of its own
for its first round: otherwise a first round that consumes nothing would count as the choice made again. -/
def assemble : Regex → Program → Program
  | .empty, p => p
  | .text chars, p => chars.foldr (fun c p => p.put (.chars (.single c))) p
  | .set chars, p => p.put (.chars chars)
  | .look a, p => p.put (.look a)
  | .group i body, p => (body.assemble (p.put (.mark (2 * i + 1)))).put (.mark (2 * i))
  | .times lo (some hi) greedy body, p =>
    putTimes body.assemble lo (putOptional body.assemble greedy p.start (hi - lo) p)
  | .times 0 none greedy body, p =>
    if body.consumes then putStar body.assemble greedy p
    else (putLoop body.assemble greedy p).putFork greedy p.start
  | .times (lo + 1) none greedy body, p => putTimes body.assemble lo (putLoop body.assemble greedy p)
  | .seq a b, p => a.assemble (b.assemble p)
  | .alt a b, p =>
    let second := b.assemble p
    let first := a.assemble ⟨second.code, p.start⟩
    first.putFork true second.start

/-- The program of an expression. -/
def program (r : Regex) : Program := r.assemble ⟨#[.accept], 0⟩

end Gloss.Regex
