import Toolpath.Powers

/-!
Patterns over sequences of tokens. `Pattern.Matches` says which stretches of tokens a pattern
describes; `Pattern.ends` computes, for a start, all positions where such a stretch can end, as a
set that grows with the parts of the pattern and not with the ways to match them.
-/

set_option autoImplicit false

namespace Toolpath

inductive Pattern (τ : Type)
  | leaf (token : τ)
  | anyOf (tokens : List τ)
  | seq (parts : List (Pattern τ))
  /-- The body, at least `least` times and, if `most` is given, at most as often as it says. -/
  | loop (body : Pattern τ) (least : Nat) (most : Option Nat)

namespace Pattern

variable {τ : Type}

def zeroOrMore (body : Pattern τ) : Pattern τ := loop body 0 none

def oneOrMore (body : Pattern τ) : Pattern τ := loop body 1 none

variable [BEq τ]

mutual

/-- The stretches of tokens that a pattern describes. A token in a pattern stands for all tokens
that are equal to it. -/
inductive Matches : Pattern τ → List τ → Prop
  | leaf {t u : τ} : (u == t) = true → Matches (.leaf t) [u]
  | anyOf {u : τ} {ts : List τ} : ts.contains u = true → Matches (.anyOf ts) [u]
  | seq {parts : List (Pattern τ)} {w : List τ} : MatchesAll parts w → Matches (.seq parts) w
  | loop {body : Pattern τ} {least : Nat} {most : Option Nat} {k : Nat} {w : List τ} :
      least ≤ k → (∀ m, most = some m → k ≤ m) → Repeats body k w →
      Matches (.loop body least most) w

/-- The stretches that patterns describe one after the other. -/
inductive MatchesAll : List (Pattern τ) → List τ → Prop
  | nil : MatchesAll [] []
  | cons {p : Pattern τ} {ps : List (Pattern τ)} {u v : List τ} :
      Matches p u → MatchesAll ps v → MatchesAll (p :: ps) (u ++ v)

/-- The stretches that a pattern describes so many times over. -/
inductive Repeats : Pattern τ → Nat → List τ → Prop
  | zero {p : Pattern τ} : Repeats p 0 []
  | succ {p : Pattern τ} {k : Nat} {u v : List τ} :
      Repeats p k u → Matches p v → Repeats p (k + 1) (u ++ v)

end

/-- A set of positions, in ascending order. -/
abbrev Positions := List Nat

def union : Positions → Positions → Positions
  | [], qs => qs
  | p :: ps, qs =>
    let below := qs.takeWhile (· < p)
    let others := qs.dropWhile (· < p)
    below ++ p :: union ps (others.dropWhile (· = p))

/-- All positions that `step` gives for one of a set. -/
def spread (step : Nat → Positions) (ps : Positions) : Positions :=
  ps.foldr (fun p set => union (step p) set) []

/-- The positions that a mask does not hold; a bit of it stands for a distance from `start`. -/
def unseen (start mask : Nat) (ps : Positions) : Positions :=
  ps.filter fun p => !mask.testBit (p - start)

/-- The mask that holds the positions of a set as well. -/
def see (start mask : Nat) (ps : Positions) : Nat :=
  ps.foldl (fun mask p => mask ||| twoPow (p - start)) mask

/-- The position sets that the repetitions of a loop reach, one for each repetition. Once the least
count is reached, a position that was reached before adds nothing and is left out; `mask` holds
those positions. -/
def rounds (step : Positions → Positions) (least : Nat) (most : Option Nat) (start : Nat) :
    Nat → Nat → Nat → Positions → List Positions
  | 0, _, _, _ => []
  | fuel + 1, count, mask, current =>
    if current.isEmpty || most.any (· ≤ count) then []
    else
      let next := step current
      if least ≤ count + 1 then
        let fresh := unseen start mask next
        fresh :: rounds step least most start fuel (count + 1) (see start mask fresh) fresh
      else next :: rounds step least most start fuel (count + 1) mask next

def enoughRounds (least size start : Nat) : Nat := max least 1 + (max start size - start) + 1

/-- The positions that a loop reaches: those of all repetitions from the least count on, and the
start if no repetition is needed. -/
def loopEnds (step : Positions → Positions) (least : Nat) (most : Option Nat) (size start : Nat) :
    Positions :=
  let reached := rounds step least most start (enoughRounds least size start) 0 0 [start]
  union (if least = 0 then [start] else []) ((reached.drop (least - 1)).foldr union [])

mutual

def ends (tokens : Array τ) : Pattern τ → Nat → Positions
  | .leaf t, start => if tokens[start]? == some t then [start + 1] else []
  | .anyOf ts, start => if tokens[start]?.any ts.contains then [start + 1] else []
  | .seq parts, start => endsAll tokens parts [start]
  | .loop body least most, start =>
    loopEnds (spread fun p => ends tokens body p) least most tokens.size start

/-- Every position where a match of all parts that begins at one of the positions can end. -/
def endsAll (tokens : Array τ) : List (Pattern τ) → Positions → Positions
  | [], ps => ps
  | part :: rest, ps => endsAll tokens rest (spread (fun p => ends tokens part p) ps)

end

def longest (p : Pattern τ) (tokens : Array τ) (start : Nat) : Option Nat :=
  (p.ends tokens start).getLast?

def matchAt (p : Pattern τ) (tokens : Array τ) (start : Nat) : Option (Nat × Nat) :=
  ((p.longest tokens start).filter (start < ·)).map fun stop => (start, stop)

/-- The first match that is not empty and begins at one of `room` positions from `start` on. -/
def findWithin (p : Pattern τ) (tokens : Array τ) : Nat → Nat → Option (Nat × Nat)
  | 0, _ => none
  | room + 1, start =>
    match p.matchAt tokens start with
    | some found => some found
    | none => findWithin p tokens room (start + 1)

/-- The first match, from `start` on, that is not empty, and of several there the longest. -/
def find (p : Pattern τ) (tokens : Array τ) (start : Nat) : Option (Nat × Nat) :=
  p.findWithin tokens (tokens.size - start) start

end Pattern

end Toolpath
