import Appwright.Entries
import Appwright.Text.Basic

/-!
# Arguments

What stands after the name of a command: options, which start with a hyphen, and operands. An option
can be cut short as long as its start is that of no other, its value can follow after an equals
sign, and after two hyphens everything is an operand.
-/

namespace Appwright.Command

open Text

inductive Effect where
  | switch
  /-- It takes a value, of which some are accepted. -/
  | value (accepts : String → Bool)
  | stop

structure Flag where
  /-- Its names; the last is the one that it is known by. -/
  names : List String
  effect : Effect

def Flag.name (f : Flag) : String :=
  f.names.getLastD ""

inductive Operands where
  | nothing
  | one
  | optional
  | many
  | rest
deriving DecidableEq, Repr

structure Form where
  flags : List Flag := []
  operands : Operands := .nothing

/-- What is written behind the name of an option in the same argument. -/
inductive Tail where
  | nothing
  | value (text : String)
  | letters (text : List Char)
deriving DecidableEq, Repr

inductive Kind where
  /-- An option with what is written behind it, or a name that no option has. -/
  | option (flag : Option Flag) (tail : Tail)
  | operand
  | hyphens

/-- The options and the operands that were given. -/
structure Given where
  values : Entries String := []
  switches : List String := []
  operands : List String := []

def Given.value (g : Given) (name : String) : String :=
  (g.values.get? name).getD ""

def Given.operand (g : Given) : String :=
  g.operands.headD ""

inductive Reading where
  | wrong
  | stopped (flag : String)
  /-- What was given, and the arguments that are left over. -/
  | done (given : Given) (extras : List String)

/-! ## Single arguments -/

def Form.flag? (form : Form) (name : String) : Option Flag :=
  form.flags.find? fun f => f.names.contains name

/-- The options that an argument could be short for, each with what is written behind it. -/
def Form.candidates (form : Form) (arg : String) : List (Flag × Tail) :=
  let named := form.flags.flatMap fun f => f.names.map fun name => (f, name)
  match arg.toList with
  | '-' :: '-' :: _ =>
    let (start, tail) : String × Tail := match cutText? "=" arg with
      | some (start, value) => (start, .value value)
      | none => (arg, .nothing)
    (named.filter fun n => startsWith n.2 start).map fun n => (n.1, tail)
  | a :: b :: letters =>
    named.filterMap fun n =>
      if n.2 == String.ofList [a, b] then some (n.1, .letters letters)
      else if startsWith n.2 arg then some (n.1, .nothing)
      else none
  | _ => []

def isNegativeNumber (arg : String) : Bool :=
  match arg.toList with
  | '-' :: cs =>
    let whole := cs.takeWhile isDecimal
    match cs.dropWhile isDecimal with
    | [] => !whole.isEmpty
    | '.' :: fraction => !fraction.isEmpty && fraction.all isDecimal
    | _ => false
  | _ => false

/-- What an argument is on its own; nothing if it is short for several options. -/
def Form.kind? (form : Form) (arg : String) : Option Kind :=
  if !startsWith arg "-" then some .operand
  else
    match form.flag? arg with
    | some f => some (.option (some f) .nothing)
    | none =>
      if arg.length == 1 then some .operand
      else
        let whole := (cutText? "=" arg).bind fun (name, value) =>
          (form.flag? name).map fun f => Kind.option (some f) (.value value)
        match whole, form.candidates arg with
        | some kind, _ => some kind
        | none, [(f, tail)] => some (.option (some f) tail)
        | none, _ :: _ :: _ => none
        | none, [] =>
          if isNegativeNumber arg || arg.toList.contains ' ' then some .operand
          else some (.option none .nothing)

def Form.kinds? (form : Form) : List String → Option (List (String × Kind))
  | [] => some []
  | "--" :: args => some (("--", .hyphens) :: args.map fun a => (a, .operand))
  | arg :: args => do
    let kind ← form.kind? arg
    let kinds ← form.kinds? args
    some ((arg, kind) :: kinds)

/-! ## Operands -/

def Kind.isOperand : Kind → Bool
  | .operand => true
  | _ => false

def Kind.isHyphens : Kind → Bool
  | .hyphens => true
  | _ => false

def Kind.isOption : Kind → Bool
  | .option .. => true
  | _ => false

/-- How many arguments at the front are operands of a kind; nothing if they are not such. -/
def Operands.count? (operands : Operands) (args : List (String × Kind)) : Option Nat :=
  let hyphens (args : List (String × Kind)) : Nat := (args.takeWhile fun a => a.2.isHyphens).length
  let before := hyphens args
  let after := args.drop before
  match operands, after.head?.any fun a => a.2.isOperand with
  | .one, true | .optional, true => some (before + 1 + hyphens (after.drop 1))
  | .optional, false => some before
  | .many, true => some (before + (after.takeWhile fun a => !a.2.isOption).length)
  | .rest, true => some args.length
  | _, _ => none

/-- The operands without the two hyphens before them. A command that takes all the rest keeps
them. -/
def Operands.clean (operands : Operands) (args : List String) : List String :=
  if operands = .rest then args else args.erase "--"

/-! ## Reading -/

structure Progress extends Given where
  /-- The operands have been taken. -/
  settled : Bool := false
  extras : List String := []

/-- Takes operands at the front, if they are still to come. -/
def Form.takeOperands (form : Form) (p : Progress) (args : List (String × Kind)) :
    Progress × List (String × Kind) :=
  match p.settled, form.operands.count? args with
  | false, some n =>
    let operands := form.operands.clean ((args.take n).map Prod.fst)
    ({ p with operands, settled := true }, args.drop n)
  | _, _ => (p, args)

inductive Step where
  | wrong
  | stopped (flag : String)
  | goOn (p : Progress) (args : List (String × Kind))

def Flag.act (f : Flag) (p : Progress) (rest : List (String × Kind)) : Step :=
  match f.effect with
  | .stop => .stopped f.name
  | .switch => .goOn { p with switches := f.name :: p.switches } rest
  | .value _ => .wrong

/-- Takes an option that is one of several letters after a hyphen. Letters that are no option are
left over. -/
def Form.takeLetters (form : Form) (p : Progress) (rest : List (String × Kind)) (f : Flag) :
    List Char → Step
  | [] => f.act p rest
  | letter :: letters =>
    match form.flag? (String.ofList ['-', letter]) with
    | none =>
      if letter == '-' || letter == '=' then .wrong
      else f.act { p with extras := p.extras ++ [String.ofList ('-' :: letter :: letters)] } rest
    | some g =>
      match f.act p rest with
      | .wrong => .wrong
      | .goOn p rest => form.takeLetters p rest g letters
      | .stopped name =>
        match form.takeLetters p rest g letters with
        | .wrong => .wrong
        | _ => .stopped name

def Form.takeFlag (form : Form) (p : Progress) (f : Flag) (tail : Tail)
    (rest : List (String × Kind)) : Step :=
  let take (accepts : String → Bool) (v : String) (rest : List (String × Kind)) : Step :=
    if accepts v then .goOn { p with values := p.values.put f.name v } rest else .wrong
  match f.effect, tail with
  | .value accepts, .value v => take accepts v rest
  | .value accepts, .letters v => take accepts (String.ofList v) rest
  | .value accepts, .nothing =>
    match rest with
    | (v, .operand) :: rest => take accepts v rest
    | _ => .wrong
  | _, .nothing => f.act p rest
  | _, .value _ => .wrong
  | _, .letters letters => form.takeLetters p rest f letters

/-- Reads arguments; the first argument bounds their number. -/
def Form.readFrom (form : Form) : Nat → Progress → List (String × Kind) → Reading
  | 0, _, _ => .wrong
  | fuel + 1, p, args =>
    if args.any fun a => a.2.isOption then
      match args with
      | (arg, .option flag tail) :: rest =>
        match flag with
        | none => form.readFrom fuel { p with extras := p.extras ++ [arg] } rest
        | some f =>
          match form.takeFlag p f tail rest with
          | .wrong => .wrong
          | .stopped name => .stopped name
          | .goOn p rest => form.readFrom fuel p rest
      | args =>
        let (p, rest) := form.takeOperands p args
        if rest.length < args.length then form.readFrom fuel p rest
        else
          let skipped := rest.takeWhile fun a => !a.2.isOption
          form.readFrom fuel { p with extras := p.extras ++ skipped.map Prod.fst }
            (rest.drop skipped.length)
    else
      let (p, rest) := form.takeOperands p args
      if p.settled || form.operands = .nothing then
        .done p.toGiven (p.extras ++ rest.map Prod.fst)
      else .wrong

def Form.read (form : Form) (args : List String) : Reading :=
  match form.kinds? args with
  | none => .wrong
  | some kinds => form.readFrom (kinds.length + 1) {} kinds

end Appwright.Command
