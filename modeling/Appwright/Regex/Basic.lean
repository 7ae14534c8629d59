/-!
# Patterns

The syntax tree of a search pattern.
-/

namespace Appwright.Regex

inductive Kind where
  | digit
  | space
  | word
deriving DecidableEq, Repr

inductive SetItem where
  | code (n : Nat)
  | range (low high : Nat)
  | kind (k : Kind) (negated : Bool)
deriving DecidableEq, Repr

inductive Anchor where
  | lineStart
  | lineEnd
  | textStart
  | textEnd
  | boundary
  | notBoundary
deriving DecidableEq, Repr

/-- How many repetitions are tried first. -/
inductive Greed where
  | greedy
  | reluctant
  | possessive
deriving DecidableEq, Repr

/-- The settings under which a pattern is read and matched. -/
structure Flags where
  ignoreCase : Bool := false
  multiLine : Bool := false
  dotAll : Bool := false
  verbose : Bool := false
  asciiOnly : Bool := false
  unicode : Bool := false
  locale : Bool := false
  template : Bool := false
deriving DecidableEq, Repr

namespace Flags

def combine (f : Bool → Bool → Bool) (a b : Flags) : Flags where
  ignoreCase := f a.ignoreCase b.ignoreCase
  multiLine := f a.multiLine b.multiLine
  dotAll := f a.dotAll b.dotAll
  verbose := f a.verbose b.verbose
  asciiOnly := f a.asciiOnly b.asciiOnly
  unicode := f a.unicode b.unicode
  locale := f a.locale b.locale
  template := f a.template b.template

def union : Flags → Flags → Flags :=
  combine or

/-- The settings that hold in the first and not in the second. -/
def minus : Flags → Flags → Flags :=
  combine fun a b => a && !b

def meet (a b : Flags) : Flags :=
  a.minus (a.minus b)

def isEmpty (a : Flags) : Bool :=
  a == {}

def ofLetter? : Char → Option Flags
  | 'i' => some { ignoreCase := true }
  | 'L' => some { locale := true }
  | 'm' => some { multiLine := true }
  | 's' => some { dotAll := true }
  | 'x' => some { verbose := true }
  | 'a' => some { asciiOnly := true }
  | 't' => some { template := true }
  | 'u' => some { unicode := true }
  | _ => none

def alphabets : Flags :=
  { asciiOnly := true, unicode := true, locale := true }

end Flags

inductive Pattern where
  | code (n : Nat)
  | any
  | set (negated : Bool) (items : List SetItem)
  | anchor (place : Anchor)
  | group (number : Option Nat) (on off : Flags) (body : Pattern)
  | backref (number : Nat)
  | loop (greed : Greed) (least : Nat) (most : Option Nat) (body : Pattern)
  | seq (items : List Pattern)
  | alt (branches : List Pattern)
  | look (ahead negated : Bool) (body : Pattern)
  | atomic (body : Pattern)
  /-- The first branch where the group has matched, else the second. -/
  | choose (group : Nat) (yes no : Pattern)
deriving Repr, Inhabited

/-- Numbers of characters that a pattern can match: at least and at most, where bounded. -/
structure Width where
  least : Nat
  most : Option Nat

namespace Width

def add (a b : Width) : Width :=
  ⟨a.least + b.least, do return (← a.most) + (← b.most)⟩

def either (a b : Width) : Width :=
  ⟨min a.least b.least, do return max (← a.most) (← b.most)⟩

def times (least : Nat) (most : Option Nat) (w : Width) : Width :=
  ⟨w.least * least, match w.most, most with
    | some 0, _ => some 0
    | some m, some n => some (m * n)
    | _, _ => none⟩

end Width

mutual
/-- The number of characters that a pattern matches; `groups` gives that of the groups. -/
def Pattern.width (groups : List (Nat × Width)) : Pattern → Width
  | .code _ => ⟨1, some 1⟩
  | .any => ⟨1, some 1⟩
  | .set _ _ => ⟨1, some 1⟩
  | .anchor _ => ⟨0, some 0⟩
  | .group _ _ _ body => Pattern.width groups body
  | .backref n => ((groups.find? fun g => g.1 == n).map Prod.snd).getD ⟨0, none⟩
  | .loop _ least most body => (Pattern.width groups body).times least most
  | .seq items => Pattern.widthSeq groups items
  | .alt [] => ⟨0, some 0⟩
  | .alt (b :: bs) => Pattern.widthAlt groups (Pattern.width groups b) bs
  | .look _ _ _ => ⟨0, some 0⟩
  | .atomic body => Pattern.width groups body
  | .choose _ yes no => (Pattern.width groups yes).either (Pattern.width groups no)
def Pattern.widthSeq (groups : List (Nat × Width)) : List Pattern → Width
  | [] => ⟨0, some 0⟩
  | p :: ps => (Pattern.width groups p).add (Pattern.widthSeq groups ps)
def Pattern.widthAlt (groups : List (Nat × Width)) (sofar : Width) : List Pattern → Width
  | [] => sofar
  | p :: ps => Pattern.widthAlt groups (sofar.either (Pattern.width groups p)) ps
end

end Appwright.Regex
