import Appwright.Target.Value

/-!
# Operators, indices and iteration

What operators do with values of each kind, and what they say about kinds they do not take.
-/

namespace Appwright.Target

/-- The items that a loop over a value visits; nothing if it has none. -/
def itemsOf? (v : Value) : Calc (Option (List Value)) := do
  match v with
  | .list cell => return some (← cellItems cell)
  | .tuple items => return some items
  | .str s => return some (s.toList.map fun c => .str (String.singleton c))
  | .dict entries => return some (entries.map Prod.fst)
  | .range a b c => return some (Value.rangeItems a b c)
  | _ => return none

def itemsOf (v : Value) : Calc (List Value) := do
  match ← itemsOf? v with
  | some items => return items
  | none => throw (.ofType (tick v.kindName ++ " object is not iterable"))

def isTrue (v : Value) : Calc Bool := do
  match v with
  | .range a b c => return Value.rangeLength a b c != 0
  | v => return (← spelled v).truthy

def areSame (x y : Value) : Calc Bool := do
  return Data.same (← spelled x) (← spelled y)

def compareValues (sign : Data.OrderSign) (x y : Value) : Calc Bool := do
  ofExcept (Data.order sign (← spelled x) (← spelled y))

def lookup (entries : List (Value × Value)) (key : Value) : Calc (Option Value) := do
  let k ← spelled key
  ofExcept k.checkKey
  let cells := (← get).cells
  return (entries.find? fun e => Data.same (e.1.data cells dataDepth) k).map Prod.snd

/-- A dictionary with an entry; a key that is there keeps its place. -/
def putEntry (entries : List (Value × Value)) (key v : Value) : Calc (List (Value × Value)) := do
  let k ← spelled key
  ofExcept k.checkKey
  let cells := (← get).cells
  let isKey (e : Value × Value) : Bool := Data.same (e.1.data cells dataDepth) k
  if entries.any isKey then return entries.map fun e => if isKey e then (e.1, v) else e
  return entries ++ [(key, v)]

def unsupported (op : String) (x y : Value) : Fault :=
  .ofType ("unsupported operand type(s) for " ++ op ++ ": " ++ tick x.kindName ++ " and " ++
    tick y.kindName)

def cannotConcatenate (x y : Value) : Fault :=
  .ofType ("can only concatenate " ++ x.kindName ++ " (not \"" ++ y.kindName ++ "\") to " ++
    x.kindName)

def arithmetic (op : String) (f : Number → Number → Except Fault Number) (x y : Value) :
    Calc Value := do
  match x.number?, y.number? with
  | some a, some b => return .ofNumber (← ofExcept (f a b))
  | _, _ => throw (unsupported op x y)

def isSequence : Value → Bool
  | .str _ | .tuple _ | .list _ => true
  | _ => false

def addValues (x y : Value) : Calc Value := do
  match x, y with
  | .str s, .str t => return .str (s ++ t)
  | .list a, .list b => newList ((← cellItems a) ++ (← cellItems b))
  | .tuple xs, .tuple ys => return .tuple (xs ++ ys)
  | x, y =>
    if isSequence x then throw (cannotConcatenate x y) else arithmetic "+" Number.add x y

def memoryLimit : Nat := 100000000

def isPosition (n : Int) : Bool :=
  -0x8000000000000000 ≤ n && n < 0x8000000000000000

def repeated? (x : Value) (n : Int) : Calc (Option Value) := do
  if !isPosition n then throw ⟨.overflow, "cannot fit 'int' into an index-sized integer"⟩
  let size := ((← itemsOf? x).getD []).length
  if memoryLimit < size * n.toNat then throw ⟨.other "MemoryError", ""⟩
  let copies {α : Type} (items : List α) : List α := (List.replicate n.toNat items).flatten
  match x with
  | .str s => return some (.str (Text.times n.toNat s))
  | .tuple items => return some (.tuple (copies items))
  | .list cell => return some (← newList (copies (← cellItems cell)))
  | _ => return none

def mulValues (x y : Value) : Calc Value := do
  let (s, count) := if isSequence x then (x, y) else (y, x)
  if isSequence s then
    match count.whole? with
    | some n => return (← repeated? s n).getD .none
    | none =>
      throw (.ofType ("can't multiply sequence by non-int of type " ++ tick count.kindName))
  else arithmetic "*" Number.mul x y

def powValues (x y : Value) : Calc Value := do
  match x.number?, y.number? with
  | some a, some b => return ((← ofExcept (Number.pow a b)).map Value.ofNumber).getD .imaginary
  | _, _ => throw (unsupported "** or pow()" x y)

def displayed (v : Value) : Calc String := do
  match v with
  | .error k args => ofExcept (← faultOf k args).wording.tell
  | v => ofExcept (← spelled v).display.tell

def formatWhole (v : Value) : Calc String := do
  match v.number? with
  | some (.int n) => ofExcept (Wording.ofInt n).tell
  | some (.float x) => return Text.ofInt (Decimal.truncate x)
  | none => throw (.ofType ("%d format: a real number is required, not " ++ v.kindName))

/-- Fills the places of a format. The counter is the position in the format. -/
def formatFrom (position : Nat) : List Char → List Value → Calc (List Char × List Value)
  | [], args => pure ([], args)
  | ['%'], _ => throw (.ofValue "incomplete format")
  | '%' :: '%' :: rest, args => do
    let (out, left) ← formatFrom (position + 2) rest args
    return ('%' :: out, left)
  | '%' :: c :: rest, args => do
    if !(['s', 'r', 'd', 'i'].contains c) then
      throw (.ofValue ("unsupported format character " ++ tick (String.singleton c) ++ " (0x" ++
        Text.hex 1 c.toNat ++ ") at index " ++ Text.ofNat (position + 1)))
    match args with
    | [] => throw (.ofType "not enough arguments for format string")
    | v :: more => do
      let piece ←
        if c == 's' then displayed v
        else if c == 'r' then (do ofExcept (← spelled v).literal.tell)
        else formatWhole v
      let (out, left) ← formatFrom (position + 2) rest more
      return (piece.toList ++ out, left)
  | c :: rest, args => do
    let (out, left) ← formatFrom (position + 1) rest args
    return (c :: out, left)

def formatText (s : String) (v : Value) : Calc Value := do
  let args := match v with
    | .tuple items => items
    | v => [v]
  let (out, left) ← formatFrom 0 s.toList args
  let converted := left.isEmpty || match v with
    | .dict _ => true
    | .list _ => left.length == args.length
    | _ => false
  if !converted then throw (.ofType "not all arguments converted during string formatting")
  return .str (String.ofList out)

def isAmong (x y : Value) : Calc Bool := do
  match x, y with
  | .str s, .str t => return Text.contains t s
  | x, .str _ =>
    throw (.ofType ("'in <string>' requires string as left operand, not " ++ x.kindName))
  | x, .dict entries => return (← lookup entries x).isSome
  | x, y => do
    match ← itemsOf? y with
    | none => throw (.ofType ("argument of type " ++ tick y.kindName ++ " is not iterable"))
    | some items => do
      let d ← spelled x
      let cells := (← get).cells
      return items.any fun v => Data.same (v.data cells dataDepth) d

def areIdentical (x y : Value) : Calc Bool := do
  match x, y with
  | .list a, .list b => return a == b
  | .none, .none => return true
  | .bool a, .bool b => return a == b
  | .int a, .int b => return a == b
  | .str a, .str b => return a == b
  | .function f, .function g => return f.identity == g.identity
  | _, _ => return false

/-- An operator on two values. The two that choose between their operands are not among them. -/
def applyOperator (op : BinaryOp) (x y : Value) : Calc Value := do
  match op with
  | .add => addValues x y
  | .sub => arithmetic "-" Number.sub x y
  | .mul => mulValues x y
  | .div => arithmetic "/" Number.div x y
  | .floorDiv => arithmetic "//" Number.floorDiv x y
  | .mod =>
    match x with
    | .str s => formatText s y
    | x => arithmetic "%" Number.mod x y
  | .pow => powValues x y
  | .eq => return .bool (← areSame x y)
  | .ne => return .bool !(← areSame x y)
  | .lt => return .bool (← compareValues .lt x y)
  | .gt => return .bool (← compareValues .gt x y)
  | .le => return .bool (← compareValues .le x y)
  | .ge => return .bool (← compareValues .ge x y)
  | .isIn => return .bool (← isAmong x y)
  | .notIn => return .bool !(← isAmong x y)
  | .is => return .bool (← areIdentical x y)
  | .isNot => return .bool !(← areIdentical x y)
  | .and => return if ← isTrue x then y else x
  | .or => return if ← isTrue x then x else y

def negated (v : Value) : Calc Value := do
  match v.number? with
  | some n => return .ofNumber n.neg
  | none => throw (.ofType ("bad operand type for unary -: " ++ tick v.kindName))

/-- The item at an index, which counts from the end if it is negative. -/
def itemAt? {α : Type} (items : List α) (i : Int) : Option α :=
  if 0 ≤ i then items[i.toNat]?
  else if 0 ≤ items.length + i then items[(items.length + i).toNat]?
  else none

/-- The item of a sequence, whose kind messages name. -/
def sequenceItem (word : String) (items : List Value) (wrongKey : String) (key : Value) :
    Calc Value := do
  match key.whole? with
  | none => throw (.ofType wrongKey)
  | some i =>
    if !isPosition i then throw ⟨.index, "cannot fit 'int' into an index-sized integer"⟩
    match itemAt? items i with
    | some v => return v
    | none => throw ⟨.index, word ++ " index out of range"⟩

def indexed (v key : Value) : Calc Value := do
  let plain (word : String) : String :=
    word ++ " indices must be integers or slices, not " ++ key.kindName
  match v with
  | .dict entries =>
    match ← lookup entries key with
    | some v => return v
    | none => throw ⟨.key, (← spelled key).literal⟩
  | .list cell => sequenceItem "list" (← cellItems cell) (plain "list") key
  | .tuple items => sequenceItem "tuple" items (plain "tuple") key
  | .str s =>
    sequenceItem "string" (s.toList.map fun c => .str (String.singleton c))
      ("string indices must be integers, not " ++ tick key.kindName) key
  | .range a b c => sequenceItem "range object" (Value.rangeItems a b c) (plain "range") key
  | .base t => throw (.ofType ("type " ++ tick t.word ++ " is not subscriptable"))
  | .failure k => throw (.ofType ("type " ++ tick k.word ++ " is not subscriptable"))
  | v => throw (.ofType (tick v.kindName ++ " object is not subscriptable"))

end Appwright.Target
