import Appwright.Target.Expr
import Appwright.Target.Fault

/-!
# Statements of generated source

Lines are grouped into blocks by their leading blanks: a line owns the lines after it that stand
further to the right. A line with the lines it owns is then read as a statement. Source that goes
beyond a limit is not read at all.
-/

namespace Appwright.Target

inductive Block where
  | mk (line : String) (inner : List Block)
deriving Repr, Inhabited

/-- The number of leading blanks of a line, and the line without them. -/
def measured (line : String) : Nat × String :=
  let cs := line.toList
  let blanks := cs.takeWhile (· == ' ')
  (blanks.length, String.ofList (cs.drop blanks.length))

def blocks : List (Nat × String) → List Block
  | [] => []
  | (n, line) :: rest =>
    .mk line (blocks (rest.takeWhile fun l => n < l.1)) ::
      blocks (rest.dropWhile fun l => n < l.1)
termination_by lines => lines.length
decreasing_by
  all_goals simp only [List.length_cons]
  · exact Nat.lt_succ_of_le (List.takeWhile_prefix _).length_le
  · exact Nat.lt_succ_of_le (List.dropWhile_suffix _).length_le

def blocksOf (source : String) : List Block :=
  blocks (((Text.splitChar '\n' source).map measured).filter fun l => !l.2.isEmpty)

inductive Stmt where
  | expr (e : Expr)
  | assign (targets : List String) (e : Expr)
  | ret (e : Expr)
  | pass
  | branch (test : Expr) (yes no : List Stmt)
  | loop (targets : List String) (items : Expr) (body : List Stmt)
  | repeated (test : Expr) (body otherwise : List Stmt)
  | break
  | continue
  | raise (e : Option Expr)
  | assert (test : Expr) (message : Option Expr)
  | within (context : Expr) (targets : List String)
  | define (decorator : Option Expr) (name : String) (params : List String) (body : List Stmt)
  | use (name : String) (module : String)
deriving Repr, Inhabited

def takeNames : List Token → List String × List Token
  | .name s :: .op "," :: rest =>
    let (names, rest) := takeNames rest
    (s :: names, rest)
  | .name s :: rest => ([s], rest)
  | ts => ([], ts)

def headed? (ts : List Token) : Option Expr :=
  match readExpr ts with
  | some (e, [.op ":"]) => some e
  | _ => none

def usesOf : List Token → List Stmt
  | .name "import" :: rest =>
    match rest.reverse with
    | .name label :: .name "as" :: path => [.use label (pathText path.reverse)]
    | _ =>
      match rest with
      | .name s :: _ => [.use s (pathText rest)]
      | _ => []
  | .name "from" :: rest =>
    let path := rest.takeWhile fun
      | .name "import" => false
      | _ => true
    let (names, _) := takeNames (rest.drop (path.length + 1))
    names.map fun n => .use n (pathText path ++ "." ++ n)
  | _ => []
where
  pathText (ts : List Token) : String :=
    String.join (ts.map fun
      | .name s => s
      | .op s => s
      | _ => "")

def simple? (ts : List Token) : Option (List Stmt) :=
  match ts with
  | [.name "pass"] => some [.pass]
  | [.name "break"] => some [.break]
  | [.name "continue"] => some [.continue]
  | [.name "raise"] => some [.raise none]
  | .name "raise" :: rest => (expr? rest).map fun e => [.raise (some e)]
  | .name "return" :: rest => (expr? rest).map fun e => [.ret e]
  | .name "assert" :: rest =>
    match readExpr rest with
    | some (test, []) => some [.assert test none]
    | some (test, .op "," :: rest) => (expr? rest).map fun e => [.assert test (some e)]
    | _ => none
  | .name "import" :: _ => some (usesOf ts)
  | .name "from" :: _ => some (usesOf ts)
  | ts =>
    match takeNames ts with
    | (names, .op "=" :: rest) => (expr? rest).map fun e => [.assign names e]
    | _ => (expr? ts).map fun e => [.expr e]

def contexts? (ts : List Token) : Option (List Stmt) := do
  match ← contextsFrom? (ts.length + 1) ts with
  | [.within (.tuple (e :: es)) []] => return (e :: es).map (.within · [])
  | contexts => return contexts
where contextsFrom? : Nat → List Token → Option (List Stmt)
  | 0, _ => none
  | fuel + 1, ts => do
    let (context, rest) ← readExpr ts
    let (targets, rest) := match rest with
      | .name "as" :: rest => takeNames rest
      | rest => ([], rest)
    match rest with
    | .op "," :: rest => do
      let more ← contextsFrom? fuel rest
      return .within context targets :: more
    | [.op ":"] => return [.within context targets]
    | _ => none

def params? (ts : List Token) : Option (List String) :=
  match takeNames ts with
  | (names, .op ")" :: .op ":" :: []) => some names
  | _ => none

/-- Reads blocks as statements. The first argument is fuel. -/
def readBlocks : Nat → List Block → Option (List Stmt)
  | 0, _ => none
  | _, [] => some []
  | fuel + 1, .mk line inner :: rest => do
    let ts := tokens line
    let body ← readBlocks fuel inner
    let elseBody (rest : List Block) : Option (List Stmt × List Block) :=
      match rest with
      | .mk "else:" inner :: rest => (readBlocks fuel inner).map fun no => (no, rest)
      | rest => some ([], rest)
    match ts with
    | .name "if" :: header => do
      let test ← headed? header
      let (no, rest) ← elseBody rest
      return .branch test body no :: (← readBlocks fuel rest)
    | .name "while" :: header => do
      let test ← headed? header
      let (no, rest) ← elseBody rest
      return .repeated test body no :: (← readBlocks fuel rest)
    | .name "for" :: header =>
      match takeNames header with
      | (targets, .name "in" :: header) => do
        let items ← headed? header
        return .loop targets items body :: (← readBlocks fuel rest)
      | _ => none
    | .name "with" :: header => do
      let entering ← contexts? header
      return entering ++ body ++ (← readBlocks fuel rest)
    | .name "def" :: .name name :: .op "(" :: header => do
      let params ← params? header
      return .define none name params body :: (← readBlocks fuel rest)
    | .op "@" :: header => do
      let decorator ← expr? header
      match ← readBlocks fuel rest with
      | .define _ name params body :: more =>
        return .define (some decorator) name params body :: more
      | _ => none
    | ts => do
      let stmts ← simple? ts
      return stmts ++ (← readBlocks fuel rest)

def blockFuel (source : String) : Nat :=
  2 * source.length + 2

def statements? (source : String) : Option (List Stmt) :=
  readBlocks (blockFuel source) (blocksOf source)

/-! ## Limits -/

def maxNesting : Nat := 200

def nestingAfter (level : Nat) : Token → Nat
  | .op s =>
    if ["(", "[", "\x7b"].contains s then level + 1
    else if [")", "]", "\x7d"].contains s then level - 1
    else level
  | _ => level

def nesting (level : Nat) : List Token → Nat
  | [] => level
  | t :: ts => max level (nesting (nestingAfter level t) ts)

def isUnwritable : Token → Bool
  | .int n => !Decimal.hasText n
  | _ => false

/-- How source goes beyond a limit. A whole number without a text keeps the source from being made,
so it comes before everything that is wrong with the source. -/
def overrun? (source : String) : Option Fault :=
  let lines := (Text.splitChar '\n' source).map tokens
  if lines.any fun ts => ts.any isUnwritable then some (.ofValue Decimal.noText)
  else (lines.findIdx? fun ts => maxNesting < nesting 0 ts).map fun i =>
    ⟨.other "SyntaxError",
      "too many nested parentheses (<vibelang>, line " ++ Text.ofNat (i + 1) ++ ")"⟩

def readSource (source : String) : Except Fault (List Stmt) :=
  match overrun? source with
  | some e => .error e
  | none =>
    match statements? source with
    | some stmts => .ok stmts
    | none => .error ⟨.other "SyntaxError", "invalid syntax"⟩

end Appwright.Target
