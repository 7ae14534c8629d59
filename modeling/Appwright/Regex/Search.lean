import Appwright.Regex.Parser
import Appwright.Text.Casing

/-!
# Searching for a pattern

Matching goes through the alternatives in order and takes the first way that lets the rest of the
pattern match too. A repetition whose last round matched nothing is not gone round again.
-/

namespace Appwright.Regex

open Pattern

/-- A place in a text, and what the groups have matched on the way to it. -/
structure Spot where
  before : List Char
  after : List Char
  groups : List (Nat × List Char) := []

def Kind.holds (flags : Flags) (c : Char) : Kind → Bool
  | .digit => if flags.asciiOnly then c.isDigit else Text.isDecimal c
  | .space =>
    if flags.asciiOnly then (9 ≤ c.toNat && c.toNat ≤ 13) || c == ' ' else Text.isBlank c
  | .word => if flags.asciiOnly then c.isAlphanum || c == '_' else Text.isWord c

def SetItem.holds (flags : Flags) (c : Char) : SetItem → Bool
  | .code n => c.toNat == n
  | .range low high => low ≤ c.toNat && c.toNat ≤ high
  | .kind k negated => k.holds flags c != negated

def variants (flags : Flags) (c : Char) : List Char :=
  if flags.ignoreCase then
    if flags.asciiOnly then [c, c.toLower, c.toUpper]
    else
      let up := match Text.upperChar c with
        | [u] => u
        | _ => c
      [c, Text.foldChar c, up]
  else [c]

def inSet (flags : Flags) (negated : Bool) (items : List SetItem) (c : Char) : Bool :=
  ((variants flags c).any fun v => items.any (SetItem.holds flags v)) != negated

def sameChar (flags : Flags) (a b : Char) : Bool :=
  a == b || (flags.ignoreCase && (variants flags a).any fun v => (variants flags b).contains v)

def Spot.atBoundary (flags : Flags) (s : Spot) : Bool :=
  let isWord (c : Option Char) := match c with
    | some c => Kind.holds flags c .word
    | none => false
  isWord s.before.head? != isWord s.after.head?

def Anchor.holds (flags : Flags) (s : Spot) : Anchor → Bool
  | .lineStart => s.before.isEmpty || (flags.multiLine && s.before.head? == some '\n')
  | .lineEnd =>
    s.after.isEmpty || s.after == ['\n'] || (flags.multiLine && s.after.head? == some '\n')
  | .textStart => s.before.isEmpty
  | .textEnd => s.after.isEmpty
  | .boundary => s.atBoundary flags
  | .notBoundary => !(s.before.isEmpty && s.after.isEmpty) && !s.atBoundary flags

def Spot.past? (s : Spot) (test : Char → Bool) : Option Spot :=
  match s.after with
  | c :: cs => if test c then some { s with before := c :: s.before, after := cs } else none
  | [] => none

def Spot.pastText? (flags : Flags) : List Char → Spot → Option Spot
  | [], s => some s
  | c :: cs, s => (s.past? (sameChar flags c)).bind (Spot.pastText? flags cs)

def Spot.back? (s : Spot) (n : Nat) : Option Spot :=
  if s.before.length < n then none
  else
    some { s with before := s.before.drop n, after := (s.before.take n).reverse ++ s.after }

def Spot.group? (s : Spot) (number : Nat) : Option (List Char) :=
  (s.groups.find? fun g => g.1 == number).map Prod.snd

def Spot.note (number : Nat) (start stop : Spot) : Spot :=
  let text := start.after.take (start.after.length - stop.after.length)
  { stop with groups := (number, text) :: stop.groups.filter fun g => g.1 != number }

mutual
/-- Matches a pattern at a spot and goes on with `next`; `fuel` bounds the nesting of the pattern
and the rounds of its repetitions. -/
def run : Nat → Flags → Pattern → Spot → (Spot → Option Spot) → Option Spot
  | 0, _, _, _, _ => none
  | fuel + 1, flags, p, s, next =>
    match p with
    | .code n => (s.past? (sameChar flags (Char.ofNat n))).bind next
    | .any => (s.past? fun c => flags.dotAll || c != '\n').bind next
    | .set negated items => (s.past? (inSet flags negated items)).bind next
    | .anchor place => if place.holds flags s then next s else none
    | .group number on off body =>
      run fuel ((flags.union on).minus off) body s fun stop =>
        match number with
        | some n => next (Spot.note n s stop)
        | none => next stop
    | .backref number =>
      (s.group? number).bind fun text => (Spot.pastText? flags text s).bind next
    | .seq [] => next s
    | .seq (p :: ps) => run fuel flags p s fun t => run fuel flags (.seq ps) t next
    | .alt [] => none
    | .alt (p :: ps) => run fuel flags p s next <|> run fuel flags (.alt ps) s next
    | .look ahead negated body =>
      let start := if ahead then some s else s.back? (body.width []).least
      let found := start.bind fun start => run fuel flags body start some
      if negated then if found.isSome then none else next s
      else found.bind fun stop => next { s with groups := stop.groups }
    | .atomic body => (run fuel flags body s some).bind next
    | .choose number yes no =>
      if (s.group? number).isSome then run fuel flags yes s next else run fuel flags no s next
    | .loop .greedy least most body => runLoop fuel flags true least most body none s next
    | .loop .reluctant least most body => runLoop fuel flags false least most body none s next
    | .loop .possessive least most body =>
      (runLoop fuel flags true least most body none s some).bind next
/-- Goes round a repetition, as often as possible or as seldom; `last` is where the last round
started. -/
def runLoop : Nat → Flags → (greedy : Bool) → Nat → Option Nat → Pattern → Option Nat → Spot →
    (Spot → Option Spot) → Option Spot
  | 0, _, _, _, _, _, _, _, _ => none
  | fuel + 1, flags, greedy, least, most, body, last, s, next =>
    let here := s.after.length
    let round (least : Nat) (last : Option Nat) :=
      run fuel flags body s fun t =>
        runLoop fuel flags greedy least (most.map (· - 1)) body last t next
    if 0 < least then round (least - 1) none
    else if most == some 0 || last == some here then next s
    else if greedy then round 0 (some here) <|> next s
    else next s <|> round 0 (some here)
end

mutual
/-- Fuel that suffices to match a pattern in a text of `n` characters. -/
def Pattern.fuel (n : Nat) : Pattern → Nat
  | .group _ _ _ body => 1 + fuel n body
  | .loop _ least _ body => least + n + 4 + fuel n body
  | .seq items => 1 + fuelAll n items
  | .alt branches => 1 + fuelAll n branches
  | .look _ _ body => 1 + fuel n body
  | .atomic body => 1 + fuel n body
  | .choose _ yes no => 1 + fuel n yes + fuel n no
  | _ => 1
def Pattern.fuelAll (n : Nat) : List Pattern → Nat
  | [] => 1
  | p :: ps => 1 + fuel n p + fuelAll n ps
end

def Pattern.matchesFrom (p : Pattern) (fuel : Nat) (before : List Char) : List Char → Bool
  | [] => (run fuel {} p ⟨before, [], []⟩ some).isSome
  | c :: cs =>
    (run fuel {} p ⟨before, c :: cs, []⟩ some).isSome || p.matchesFrom fuel (c :: before) cs

def Pattern.occursIn (p : Pattern) (text : String) : Bool :=
  let cs := text.toList
  p.matchesFrom (p.fuel cs.length + 2) [] cs

end Appwright.Regex
