import Appwright.Regex.Basic
import Appwright.Text.Basic

/-!
# Reading patterns

A pattern is read from left to right; the first thing that is wrong with it is reported with its
position. A backslash and the character after it make one token, so a backslash at the very end is
noticed as soon as the token before it has been read.
-/

namespace Appwright.Regex

open Text

inductive Complaint where
  | escapeAtEnd
  | badEscape (escape : String)
  | incompleteEscape (escape : String)
  | octalRange (escape : String)
  | openGroup
  | lookbehindGroup
  | groupReference (number : Nat)
  | unterminatedSet
  | badRange (low high : String)
  | repeatBounds
  | nothingToRepeat
  | multipleRepeat
  | unexpectedEnd
  | missing (what : String)
  | unterminatedName (terminator : String)
  | groupName (name : String)
  | unknownGroup (name : String)
  | unknownExtension (text : String)
  | unterminatedComment
  | unterminatedGroup
  | groupNumber
  | conditionalBranches
  | lateFlags
  | inlineFlags (why : String)
  | unknownFlag
  | redefinedGroup (name : String) (number earlier : Nat)
  | unbalanced
  | missingBrace
  | characterName (name : String)
deriving DecidableEq, Repr

def Complaint.text : Complaint → String
  | escapeAtEnd => "bad escape (end of pattern)"
  | badEscape e => "bad escape " ++ e
  | incompleteEscape e => "incomplete escape " ++ e
  | octalRange e => "octal escape value " ++ e ++ " outside of range 0-0o377"
  | openGroup => "cannot refer to an open group"
  | lookbehindGroup => "cannot refer to group defined in the same lookbehind subpattern"
  | groupReference n => "invalid group reference " ++ ofNat n
  | unterminatedSet => "unterminated character set"
  | badRange low high => "bad character range " ++ low ++ "-" ++ high
  | repeatBounds => "min repeat greater than max repeat"
  | nothingToRepeat => "nothing to repeat"
  | multipleRepeat => "multiple repeat"
  | unexpectedEnd => "unexpected end of pattern"
  | missing what => "missing " ++ what
  | unterminatedName t => "missing " ++ t ++ ", unterminated name"
  | groupName name => "bad character in group name " ++ quoted name
  | unknownGroup name => "unknown group name " ++ quoted name
  | unknownExtension t => "unknown extension ?" ++ t
  | unterminatedComment => "missing ), unterminated comment"
  | unterminatedGroup => "missing ), unterminated subpattern"
  | groupNumber => "bad group number"
  | conditionalBranches => "conditional backref with more than two branches"
  | lateFlags => "global flags not at the start of the expression"
  | inlineFlags why => "bad inline flags: " ++ why
  | unknownFlag => "unknown flag"
  | redefinedGroup name number earlier =>
    "redefinition of group name " ++ quoted name ++ " as group " ++ ofNat number ++
      "; was group " ++ ofNat earlier
  | unbalanced => "unbalanced parenthesis"
  | missingBrace => "missing \x7b"
  | characterName name => "undefined character name " ++ quoted name

inductive PatternError where
  /-- A complaint at a position; the line and column where the pattern has several lines. -/
  | complaint (what : Complaint) (position : Nat) (place : Option (Nat × Nat))
  | lookbehindWidth
  /-- A number of repetitions beyond what can be counted. -/
  | repetitionTooLarge
  /-- The settings for two alphabets at once. -/
  | alphabetClash
deriving DecidableEq, Repr

def PatternError.message : PatternError → String
  | complaint what position place =>
    what.text ++ " at position " ++ ofNat position ++
      match place with
      | none => ""
      | some (line, column) =>
        " (line " ++ ofNat line ++ ", column " ++ ofNat column ++ ")"
  | lookbehindWidth => "look-behind requires fixed-width pattern"
  | repetitionTooLarge => "the repetition number is too large"
  | alphabetClash => "ASCII and UNICODE flags are incompatible"

structure Progress where
  source : List Char
  rest : List Char
  flags : Flags := {}
  /-- The groups opened so far, in order, with their widths once they are closed. -/
  groups : List (Option Width) := []
  names : List (String × Nat) := []
  /-- The number of groups when the outermost look-behind was entered. -/
  lookbehind : Option Nat := none
  /-- Groups that conditions ask about, with the positions of the conditions. -/
  conditions : List (Nat × Nat) := []

abbrev Read (α : Type) := StateT Progress (Except PatternError) α

def complaintAt (source : List Char) (what : Complaint) (position : Nat) : PatternError :=
  let before := source.take position
  let place :=
    if source.contains '\n' then
      some (before.countP (· == '\n') + 1,
        (before.reverse.takeWhile (· != '\n')).length + 1)
    else none
  .complaint what position place

def position : Read Nat := do
  let p ← get
  return p.source.length - p.rest.length

def complain {α : Type} (what : Complaint) (back : Nat := 0) : Read α := do
  let p ← get
  throw (complaintAt p.source what ((p.source.length - p.rest.length) - back))

def tokenOf : List Char → List Char
  | [] => []
  | '\\' :: c :: _ => ['\\', c]
  | c :: _ => [c]

def peek : Read (List Char) := do
  return tokenOf (← get).rest

def moveTo (rest : List Char) : Read Unit := do
  let p ← get
  if rest == ['\\'] then throw (complaintAt p.source .escapeAtEnd (p.source.length - 1))
  set { p with rest := rest }

def token : Read (List Char) := do
  let p ← get
  let t := tokenOf p.rest
  moveTo (p.rest.drop t.length)
  return t

def accept (c : Char) : Read Bool := do
  if (← peek) == [c] then
    let _ ← token
    return true
  return false

def takeClass (p : Char → Bool) : Nat → Read (List Char)
  | 0 => return []
  | n + 1 => do
    match ← peek with
    | [c] =>
      if p c then
        let _ ← token
        return c :: (← takeClass p n)
      return []
    | _ => return []

def takeUntil (terminator : Char) (name : String) : Nat → List Char → Read (List Char)
  | 0, acc => return acc
  | fuel + 1, acc => do
    let t ← token
    if t.isEmpty then
      if acc.isEmpty then complain (.missing name)
      complain (.unterminatedName terminator.toString) acc.length
    if t == [terminator] then
      if acc.isEmpty then complain (.missing name) 1
      return acc
    takeUntil terminator name fuel (acc ++ t)

/-- Fuel for loops that read a token each time round. -/
def remaining : Read Nat := do
  return (← get).rest.length + 1

def isOctal (c : Char) : Bool := '0' ≤ c && c ≤ '7'

def octalOf (ds : List Char) : Nat :=
  ds.foldl (fun n d => 8 * n + (d.toNat - 48)) 0

def hexOf (ds : List Char) : Nat :=
  ds.foldl (fun n d => 16 * n + (hexValue? d).getD 0) 0

def hexEscape (letter : Char) (count : Nat) : Read Nat := do
  let ds ← takeClass (fun c => (hexValue? c).isSome) count
  let escape := '\\' :: letter :: ds
  if ds.length != count then
    complain (.incompleteEscape (String.ofList escape)) escape.length
  if 0x10FFFF < hexOf ds then complain (.badEscape (String.ofList escape)) escape.length
  return hexOf ds

def namedEscape : Read Nat := do
  if !(← accept '\x7b') then complain .missingBrace
  let name ← takeUntil '\x7d' "character name" (← remaining) []
  complain (.characterName (String.ofList name)) (name.length + 4)

def controlEscape? : Char → Option Nat
  | 'a' => some 7
  | 'b' => some 8
  | 'f' => some 12
  | 'n' => some 10
  | 'r' => some 13
  | 't' => some 9
  | 'v' => some 11
  | '\\' => some 92
  | _ => none

def kindEscape? : Char → Option SetItem
  | 'd' => some (.kind .digit false)
  | 'D' => some (.kind .digit true)
  | 's' => some (.kind .space false)
  | 'S' => some (.kind .space true)
  | 'w' => some (.kind .word false)
  | 'W' => some (.kind .word true)
  | _ => none

def anchorEscape? : Char → Option Anchor
  | 'A' => some .textStart
  | 'b' => some .boundary
  | 'B' => some .notBoundary
  | 'Z' => some .textEnd
  | _ => none

def codeEscape? : Char → Option (Read Nat)
  | 'x' => some (hexEscape 'x' 2)
  | 'u' => some (hexEscape 'u' 4)
  | 'U' => some (hexEscape 'U' 8)
  | 'N' => some namedEscape
  | c => (controlEscape? c).map pure

def setEscape (c : Char) : Read SetItem := do
  if let some code := codeEscape? c then return .code (← code)
  if let some item := kindEscape? c then return item
  if isOctal c then
    let ds ← takeClass isOctal 2
    let escape := '\\' :: c :: ds
    let n := octalOf (c :: ds)
    if 255 < n then complain (.octalRange (String.ofList escape)) escape.length
    return .code n
  if c.isDigit || c.isAlpha then complain (.badEscape (String.ofList ['\\', c])) 2
  return .code c.toNat

def isClosed (number : Nat) : Read Bool := do
  return ((← get).groups.getD (number - 1) none).isSome || number == 0

/-- Complains about a group that a look-behind may not refer to. -/
def checkLookbehind (number : Nat) : Read Unit := do
  if let some count := (← get).lookbehind then
    if !(← isClosed number) then complain .openGroup
    if count ≤ number then complain .lookbehindGroup

def groupCount : Read Nat := do
  return (← get).groups.length + 1

def reference (ds : List Char) : Read Pattern := do
  let number := decimalOf ds
  let width := ds.length + 1
  if number < (← groupCount) then
    if !(← isClosed number) then complain .openGroup width
    checkLookbehind number
    return .backref number
  complain (.groupReference number) (width - 1)

def plainEscape (c : Char) : Read Pattern := do
  if let some place := anchorEscape? c then return .anchor place
  if let some item := kindEscape? c then return .set false [item]
  if let some code := codeEscape? c then return .code (← code)
  if c == '0' then
    let ds ← takeClass isOctal 2
    return .code (octalOf ds)
  if c.isDigit then
    match ← takeClass Char.isDigit 1 with
    | [d] =>
      if isOctal c && isOctal d then
        match ← takeClass isOctal 1 with
        | [e] =>
          let n := octalOf [c, d, e]
          if 255 < n then complain (.octalRange (String.ofList ['\\', c, d, e])) 4
          return .code n
        | _ => reference [c, d]
      else reference [c, d]
    | _ => reference [c]
  else if c.isAlpha then complain (.badEscape (String.ofList ['\\', c])) 2
  else return .code c.toNat

def setMember (t : List Char) : Read SetItem :=
  match t with
  | ['\\', c] => setEscape c
  | c :: _ => return .code c.toNat
  | [] => return .code 0

def setItems (start : Nat) : Nat → List SetItem → Read (List SetItem)
  | 0, acc => return acc.reverse
  | fuel + 1, acc => do
    let this ← token
    if this.isEmpty then complain .unterminatedSet ((← position) - start)
    if this == [']'] && !acc.isEmpty then return acc.reverse
    let low ← setMember this
    if ← accept '-' then
      let that ← token
      if that.isEmpty then complain .unterminatedSet ((← position) - start)
      if that == [']'] then return (.code 45 :: low :: acc).reverse
      let high ← setMember that
      let bad := Complaint.badRange (String.ofList this) (String.ofList that)
      match low, high with
      | .code a, .code b =>
        if b < a then complain bad (this.length + 1 + that.length)
        setItems start fuel (.range a b :: acc)
      | _, _ => complain bad (this.length + 1 + that.length)
    else setItems start fuel (low :: acc)

def readSet : Read Pattern := do
  let start := (← position) - 1
  let negated ← accept '^'
  let items ← setItems start (← remaining) []
  return .set negated items.eraseDups

/-- The least number of repetitions that cannot be counted. -/
def maxRepeat : Nat := 4294967295

/-- The bounds of a repetition between braces; nothing where the brace is an ordinary character. -/
def bounds : Read (Option (Nat × Option Nat)) := do
  let here ← get
  let start ← position
  if (← peek) == ['\x7d'] then return none
  let low ← takeClass Char.isDigit (← remaining)
  let high ← if ← accept ',' then takeClass Char.isDigit (← remaining) else pure low
  if !(← accept '\x7d') then
    set here
    return none
  let least := decimalOf low
  if maxRepeat ≤ least then throw .repetitionTooLarge
  if high.isEmpty then return some (least, none)
  let most := decimalOf high
  if maxRepeat ≤ most then throw .repetitionTooLarge
  if most < least then complain .repeatBounds ((← position) - start)
  return some (least, some most)

def readGreed : Read Greed := do
  if ← accept '?' then return .reluctant
  if ← accept '+' then return .possessive
  return .greedy

/-- Puts a repetition around the last item; `width` counts the characters of the quantifier. -/
def quantify (items : List Pattern) (least : Nat) (most : Option Nat) (width : Nat) :
    Read (List Pattern) := do
  match items with
  | [] => complain .nothingToRepeat width
  | .anchor _ :: _ => complain .nothingToRepeat width
  | .loop .. :: _ => complain .multipleRepeat width
  | item :: before =>
    let greed ← readGreed
    return .loop greed least most item :: before

/-- A name that starts with a letter or underscore and goes on with word characters. -/
def isName (name : List Char) : Bool :=
  match name with
  | [] => false
  | c :: cs => isWord c && !isDigit c && cs.all isWord

def groupName (terminator : Char) : Read String := do
  let name ← takeUntil terminator "group name" (← remaining) []
  if !isName name then complain (.groupName (String.ofList name)) (name.length + 1)
  return String.ofList name

def openGroup (name : Option String) : Read Nat := do
  let p ← get
  let number := p.groups.length + 1
  match name with
  | none => set { p with groups := p.groups ++ [none] }
  | some n =>
    match p.names.find? fun e => e.1 == n with
    | some (_, earlier) => complain (.redefinedGroup n number earlier) (n.length + 1)
    | none => set { p with groups := p.groups ++ [none], names := p.names ++ [(n, number)] }
  return number

def closedWidths (groups : List (Option Width)) : List (Nat × Width) :=
  groups.zipIdx.filterMap fun (w, i) => w.map fun w => (i + 1, w)

def closeGroup (number : Nat) (body : Pattern) : Read Unit :=
  modify fun p =>
    { p with groups := p.groups.set (number - 1) (some (body.width (closedWidths p.groups))) }

/-- Reads the letter of a setting, or one of the characters that may stand in its place. -/
def flagLetter (wanted : String) (ends : List Char) : Read Char := do
  match ← token with
  | [c] =>
    if !ends.contains c && (Flags.ofLetter? c).isNone then
      if isAlphanumeric c && !isDigit c then complain .unknownFlag 1
      complain (.missing wanted) 1
    return c
  | t => complain (.missing wanted) t.length

/-- Reads the letters of settings that are turned on; the character that ends them comes along. -/
def flagsOn : Nat → Flags → Char → Read (Flags × Char)
  | 0, on, c => return (on, c)
  | fuel + 1, on, c => do
    let flag := (Flags.ofLetter? c).getD {}
    if c == 'L' then complain (.inlineFlags "cannot use 'L' flag with a str pattern")
    let on := on.union flag
    if !(flag.meet .alphabets).isEmpty && on.meet .alphabets != flag then
      complain (.inlineFlags "flags 'a', 'u' and 'L' are incompatible")
    let ends := [')', '-', ':']
    let c ← flagLetter "-, : or )" ends
    if ends.contains c then return (on, c)
    flagsOn fuel on c

def flagsOff : Nat → Flags → Char → Read Flags
  | 0, off, _ => return off
  | fuel + 1, off, c => do
    let flag := (Flags.ofLetter? c).getD {}
    if !(flag.meet .alphabets).isEmpty then
      complain (.inlineFlags "cannot turn off flags 'a', 'u' and 'L'")
    let off := off.union flag
    let c ← flagLetter ":" [':']
    if c == ':' then return off
    flagsOff fuel off c

/-- Reads settings after their first letter: nothing where they hold for the whole pattern, else
those turned on and off for a group. -/
def readFlags (first : Char) : Read (Option (Flags × Flags)) := do
  let (on, last) ← if first == '-' then pure ({}, '-') else flagsOn (← remaining) {} first
  if last == ')' then
    modify fun p => { p with flags := p.flags.union on }
    return none
  if on.template then complain (.inlineFlags "cannot turn on global flag") 1
  let off ← if last == '-' then flagsOff (← remaining) {} (← flagLetter "flag" []) else pure {}
  if off.template then complain (.inlineFlags "cannot turn off global flag") 1
  if !(on.meet off).isEmpty then complain (.inlineFlags "flag turned on and off") 1
  return some (on, off)

def skipComment (start : Nat) : Nat → Read Unit
  | 0 => return ()
  | fuel + 1 => do
    if (← peek).isEmpty then complain .unterminatedComment ((← position) - start)
    if (← token) == [')'] then return ()
    skipComment start fuel

def skipLine : Nat → Read Unit
  | 0 => return ()
  | fuel + 1 => do
    let t ← token
    if t.isEmpty || t == ['\n'] then return ()
    skipLine fuel

inductive Opening where
  | nothing
  | item (p : Pattern)
  | group (capture atomic : Bool) (name : Option String) (on off : Flags)
  | look (ahead negated : Bool)
  | condition (number : Nat)

def conditionGroup : Read Nat := do
  let name ← takeUntil ')' "group name" (← remaining) []
  let width := name.length + 1
  let number ←
    if isName name then
      match (← get).names.find? fun e => e.1 == String.ofList name with
      | some (_, n) => pure n
      | none => complain (.unknownGroup (String.ofList name)) width
    else if !name.isEmpty && name.all isDecimal then
      let n := name.foldl (fun n d => 10 * n + (decimalValue? d).getD 0) 0
      if n == 0 then complain .groupNumber width
      let here ← position
      modify fun p =>
        if p.conditions.any fun e => e.1 == n then p
        else { p with conditions := p.conditions ++ [(n, here - width)] }
      pure n
    else complain (.groupName (String.ofList name)) width
  checkLookbehind number
  return number

def opening (start : Nat) (atStart : Bool) : Read Opening := do
  match ← token with
  | [] => complain .unexpectedEnd
  | ['P'] =>
    if ← accept '<' then return .group true false (some (← groupName '>')) {} {}
    if ← accept '=' then
      let name ← groupName ')'
      match (← get).names.find? fun e => e.1 == name with
      | none => complain (.unknownGroup name) (name.length + 1)
      | some (_, number) =>
        if !(← isClosed number) then complain .openGroup (name.length + 1)
        checkLookbehind number
        return .item (.backref number)
    let t ← token
    if t.isEmpty then complain .unexpectedEnd
    complain (.unknownExtension ("P" ++ String.ofList t)) (t.length + 2)
  | [':'] => return .group false false none {} {}
  | ['#'] =>
    skipComment start (← remaining)
    return .nothing
  | ['='] => return .look true false
  | ['!'] => return .look true true
  | ['<'] =>
    let t ← token
    if t.isEmpty then complain .unexpectedEnd
    if t == ['='] then return .look false false
    if t == ['!'] then return .look false true
    complain (.unknownExtension ("<" ++ String.ofList t)) (t.length + 2)
  | ['('] => return .condition (← conditionGroup)
  | ['>'] => return .group false true none {} {}
  | t =>
    match t with
    | [c] =>
      if (Flags.ofLetter? c).isSome || c == '-' then
        match ← readFlags c with
        | none =>
          if !atStart then complain .lateFlags ((← position) - start)
          return .nothing
        | some (on, off) => return .group false false none on off
    | _ => pure ()
    complain (.unknownExtension (String.ofList t)) (t.length + 1)

def closing (start : Nat) : Read Unit := do
  if !(← accept ')') then complain .unterminatedGroup ((← position) - start)

/-- One pattern for items read backwards: groups without a number or settings are dissolved. -/
def seqOf (items : List Pattern) : Pattern :=
  match items with
  | [p] => p
  | items => .seq items.reverse

mutual
/-- Alternatives. `nested` tells whether they stand inside a group. -/
def readAlternatives : Nat → Bool → Bool → Read Pattern
  | 0, _, _ => return .seq []
  | fuel + 1, verbose, nested => do
    let first ← readSequence fuel verbose (!nested) []
    readMore fuel verbose nested [first]
def readMore : Nat → Bool → Bool → List Pattern → Read Pattern
  | 0, _, _, acc => return .alt acc.reverse
  | fuel + 1, verbose, nested, acc => do
    if ← accept '|' then
      let flags := (← get).flags
      let verbose := if nested then verbose else flags.verbose
      let next ← readSequence fuel verbose false []
      readMore fuel verbose nested (next :: acc)
    else
      match acc with
      | [only] => return only
      | _ => return .alt acc.reverse
/-- Items in a row; `first` tells whether settings for the whole pattern may stand here. -/
def readSequence : Nat → Bool → Bool → List Pattern → Read Pattern
  | 0, _, _, acc => return seqOf acc
  | fuel + 1, verbose, first, acc => do
    let t ← peek
    if t.isEmpty || t == ['|'] || t == [')'] then return seqOf acc
    let _ ← token
    let goOn := readSequence fuel verbose first
    match t with
    | ['\\', c] => goOn ((← plainEscape c) :: acc)
    | [c] =>
      if verbose && (c == ' ' || c == '\t' || c == '\n' || c == '\r' || c.toNat == 11 ||
          c.toNat == 12) then
        goOn acc
      else if verbose && c == '#' then
        skipLine (← remaining)
        goOn acc
      else if c == '[' then goOn ((← readSet) :: acc)
      else if c == '.' then goOn (.any :: acc)
      else if c == '^' then goOn (.anchor .lineStart :: acc)
      else if c == '$' then goOn (.anchor .lineEnd :: acc)
      else if c == '?' then goOn (← quantify acc 0 (some 1) 1)
      else if c == '*' then goOn (← quantify acc 0 none 1)
      else if c == '+' then goOn (← quantify acc 1 none 1)
      else if c == '\x7b' then
        let start ← position
        match ← bounds with
        | none => goOn (.code c.toNat :: acc)
        | some (least, most) =>
          let width := (← position) - start + 1
          goOn (← quantify acc least most width)
      else if c == '(' then
        let start := (← position) - 1
        let how ←
          if ← accept '?' then opening start (first && acc.isEmpty)
          else pure (.group true false none {} {})
        match how with
        | .nothing =>
          let flags := (← get).flags
          readSequence fuel (verbose || (first && acc.isEmpty && flags.verbose)) first acc
        | .item p => goOn (p :: acc)
        | .look ahead negated =>
          let saved := (← get).lookbehind
          if !ahead && saved.isNone then
            let count ← groupCount
            modify fun p => { p with lookbehind := some count }
          let body ← readAlternatives fuel verbose true
          if !ahead && saved.isNone then modify fun p => { p with lookbehind := none }
          closing start
          goOn (.look ahead negated body :: acc)
        | .condition number =>
          let yes ← readSequence fuel verbose false []
          let no ←
            if ← accept '|' then
              let no ← readSequence fuel verbose false []
              if (← peek) == ['|'] then complain .conditionalBranches
              pure no
            else pure (.seq [])
          closing start
          goOn (.choose number yes no :: acc)
        | .group capture atomic name on off =>
          let number ← if capture then pure (some (← openGroup name)) else pure none
          let inner := (verbose || on.verbose) && !off.verbose
          let body ← readAlternatives fuel inner true
          closing start
          if let some n := number then closeGroup n body
          let item := if atomic then .atomic body else .group number on off body
          goOn (item :: acc)
      else goOn (.code c.toNat :: acc)
    | _ => goOn acc
end

mutual
def Pattern.fixedBehind (groups : List (Nat × Width)) : Pattern → Bool
  | .look ahead _ body =>
    let w := body.width groups
    Pattern.fixedBehind groups body && (ahead || w.most == some w.least)
  | .group _ _ _ body => Pattern.fixedBehind groups body
  | .loop _ _ _ body => Pattern.fixedBehind groups body
  | .seq items => Pattern.allFixedBehind groups items
  | .alt branches => Pattern.allFixedBehind groups branches
  | .atomic body => Pattern.fixedBehind groups body
  | .choose _ yes no => Pattern.fixedBehind groups yes && Pattern.fixedBehind groups no
  | _ => true
/-- Whether every look-behind in a list of patterns matches a fixed number of characters. -/
def Pattern.allFixedBehind (groups : List (Nat × Width)) : List Pattern → Bool
  | [] => true
  | p :: ps => Pattern.fixedBehind groups p && Pattern.allFixedBehind groups ps
end

def readPattern (fuel : Nat) : Read Pattern := do
  moveTo (← get).rest
  let body ← readAlternatives fuel false false
  let flags := (← get).flags
  if flags.asciiOnly && flags.unicode then throw .alphabetClash
  if !(← peek).isEmpty then complain .unbalanced
  let p ← get
  for (number, place) in p.conditions do
    if p.groups.length < number then
      throw (complaintAt p.source (.groupReference number) place)
  if !body.fixedBehind (closedWidths p.groups) then throw .lookbehindWidth
  return .group none flags {} body

def parse (source : String) : Except PatternError Pattern :=
  let cs := source.toList
  match (readPattern (4 * cs.length + 4)).run { source := cs, rest := cs } with
  | .ok (p, _) => .ok p
  | .error e => .error e

end Appwright.Regex
