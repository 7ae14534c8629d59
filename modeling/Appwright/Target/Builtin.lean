import Appwright.Target.Operator

/-!
# Functions and methods at hand

The functions and the methods of texts and lists that every program can call.
-/

namespace Appwright.Target

open Text

/-- Sorting by a comparison that may fail: the longest run at the front is kept, or turned if it
falls, and each later item is placed by halving. -/
structure Sorting where
  less : Value → Value → Calc Bool

namespace Sorting

/-- How many items continue a run after `previous`; `falling` says in which direction. -/
def runLength (s : Sorting) (falling : Bool) (previous : Value) : List Value → Calc Nat
  | [] => pure 0
  | v :: rest => do
    if (← s.less v previous) == falling then return (← runLength s falling v rest) + 1
    else return 0

/-- The place of an item among sorted ones, between two bounds. The first argument is fuel. -/
def place (s : Sorting) (v : Value) (sorted : Array Value) : Nat → Nat → Nat → Calc Nat
  | 0, low, _ => pure low
  | fuel + 1, low, high => do
    if low < high then
      let middle := low + (high - low) / 2
      match sorted[middle]? with
      | none => return low
      | some w =>
        if ← s.less v w then place s v sorted fuel low middle
        else place s v sorted fuel (middle + 1) high
    else return low

def insertAll (s : Sorting) : Array Value → List Value → Calc (List Value)
  | sorted, [] => pure sorted.toList
  | sorted, v :: rest => do
    let i ← place s v sorted (sorted.size + 1) 0 sorted.size
    insertAll s ((sorted.toList.take i ++ v :: sorted.toList.drop i).toArray) rest

def sort (s : Sorting) : List Value → Calc (List Value)
  | [] => pure []
  | [v] => pure [v]
  | v :: w :: rest => do
    let falling ← s.less w v
    let more ← s.runLength falling w rest
    let run := v :: w :: rest.take more
    s.insertAll (if falling then run.reverse else run).toArray (rest.drop more)

end Sorting

def noNames (word : String) (named : Entries Value) : Calc Unit := do
  if !named.isEmpty then throw (.ofType (word ++ "() takes no keyword arguments"))

def asWhole (v : Value) : Calc Int := do
  match v.whole? with
  | some n => return n
  | none => throw (.ofType (tick v.kindName ++ " object cannot be interpreted as an integer"))

/-- A whole number that is asked for as a size, which has 64 bits. -/
def asSize (v : Value) : Calc Int := do
  let n ← asWhole v
  if n < -9223372036854775808 || 9223372036854775807 < n then
    throw ⟨.overflow, "Python int too large to convert to C ssize_t"⟩
  return n

def shortKind : Value → String
  | .none => "None"
  | v => v.kindName

def atMost (word : String) (most given : Nat) : Fault :=
  .ofType (word ++ "() takes at most " ++ ofNat most ++ " arguments (" ++ ofNat given ++
    " given)")

/-- Complains about a number of arguments; the bound is `at least` or `at most`, if any. -/
def expected (word bound : String) (count given : Nat) : Fault :=
  .ofType (word ++ " expected " ++ bound ++ ofNat count ++
    (if count == 1 then " argument" else " arguments") ++ ", got " ++ ofNat given)

def invalidName (word name : String) : Fault :=
  .ofType (tick name ++ " is an invalid keyword argument for " ++ word ++ "()")

def checkNames (word : String) (known : List String) (named : Entries Value) : Calc Unit := do
  if let some (n, _) := named.find? fun e => !known.contains e.1 then throw (invalidName word n)

def soleArgument (word : String) (args : List Value) : Calc Value := do
  match args with
  | [v] => return v
  | args =>
    throw (.ofType (word ++ "() takes exactly one argument (" ++ ofNat args.length ++ " given)"))

def lengthOf (v : Value) : Calc Value := do
  match v with
  | .str s => return .int s.length
  | .list cell => return .int (← cellItems cell).length
  | .tuple items => return .int items.length
  | .dict entries => return .int entries.length
  | .range a b c => return .int (Value.rangeLength a b c)
  | v => throw (.ofType ("object of type " ++ tick v.kindName ++ " has no len()"))

def baseOf? : Value → Option BaseType
  | .bool _ => some .bool
  | .int _ => some .int
  | .float _ => some .float
  | .str _ => some .str
  | .list _ => some .list
  | .tuple _ => some .tuple
  | .dict _ => some .dict
  | .range _ _ _ => some .range
  | _ => none

def isOfType (v t : Value) : Option Bool :=
  match t, v with
  | .base .object, _ => some true
  | .base .int, .bool _ => some true
  | .base t, v => some (baseOf? v == some t)
  | .failure k, .error l _ => some (l.isCaseOf k)
  | .failure _, _ => some false
  | _, _ => none

def isInstance (v : Value) : Value → Calc Bool
  | .tuple types => among types
  | t => single t
where
  single (t : Value) : Calc Bool := do
    match isOfType v t with
    | some b => return b
    | none =>
      throw (.ofType "isinstance() arg 2 must be a type, a tuple of types, or a union")
  among : List Value → Calc Bool
    | [] => pure false
    | t :: rest => do
      if ← single t then return true
      among rest

/-- The extreme of items: the first that no later one passes. -/
def extreme (sign : Data.OrderSign) (best : Value) : List Value → Calc Value
  | [] => pure best
  | v :: rest => do
    if ← compareValues sign v best then extreme sign v rest else extreme sign best rest

def extremeOf (word : String) (sign : Data.OrderSign) (args : List Value) (named : Entries Value) :
    Calc Value := do
  if args.isEmpty then throw (expected word "at least " 1 0)
  checkNames word ["default", "key"] named
  match args with
  | [] => return .none
  | [v] => do
    match ← itemsOf v, named.get? "default" with
    | [], some d => return d
    | [], none => throw (.ofValue (word ++ "() arg is an empty sequence"))
    | first :: rest, _ => extreme sign first rest
  | first :: rest => do
    if named.has "default" then
      throw (.ofType ("Cannot specify a default for " ++ word ++
        "() with multiple positional arguments"))
    extreme sign first rest

def sumFrom (total : Value) : List Value → Calc Value
  | [] => pure total
  | v :: rest => do sumFrom (← addValues total v) rest

def sumOf (args : List Value) (named : Entries Value) : Calc Value := do
  let given := args.length + named.length
  if 2 < given then throw (atMost "sum" 2 given)
  match args with
  | [] => throw (.ofType "sum() takes at least 1 positional argument (0 given)")
  | v :: more => do
    checkNames "sum" ["start"] named
    let items ← itemsOf v
    match (more.head?.or (named.get? "start")).getD (.int 0) with
    | .str _ => throw (.ofType "sum() can't sum strings [use ''.join(seq) instead]")
    | start => sumFrom start items

def sortedOf (args : List Value) (named : Entries Value) : Calc Value := do
  match args with
  | [v] => do
    let items ← itemsOf v
    checkNames "sort" ["reverse", "key"] named
    let falling ← match named.get? "reverse" with
      | none => pure false
      | some r => (· != 0) <$> asWhole r
    let sorting : Sorting := ⟨compareValues .lt⟩
    if falling then newList (← sorting.sort items.reverse).reverse
    else newList (← sorting.sort items)
  | args => throw (expected "sorted" "" 1 args.length)

def callBuiltin (f : Builtin) (args : List Value) (named : Entries Value) : Calc Value := do
  match f with
  | .max => extremeOf "max" .gt args named
  | .min => extremeOf "min" .lt args named
  | .sum => sumOf args named
  | .sorted => sortedOf args named
  | .len =>
    noNames "len" named
    lengthOf (← soleArgument "len" args)
  | .abs =>
    noNames "abs" named
    let v ← soleArgument "abs" args
    match v.number? with
    | some n => return .ofNumber n.abs
    | none => throw (.ofType ("bad operand type for abs(): " ++ tick v.kindName))
  | .isinstance =>
    noNames "isinstance" named
    match args with
    | [v, t] => return .bool (← isInstance v t)
    | args => throw (expected "isinstance" "" 2 args.length)

def ofNumberError (cause : Json.NumberError) : Fault :=
  let kind : ErrorKind := match cause with
    | .notWhole _ | .notReal _ => .type
    | .infinite | .tooLarge => .overflow
    | _ => .value
  ⟨kind, cause.message⟩

def textOf : Value → Option String
  | .str s => some s
  | _ => none

def toWhole (v : Value) : Calc Value := do
  match (← spelled v).leaf?.map Json.toWhole with
  | some (.ok n) => return .int n
  | some (.error e) => throw (ofNumberError e)
  | none => throw (ofNumberError (.notWhole v.kindName))

def rangeOf (args : List Value) : Calc Value := do
  match args with
  | [] => throw (expected "range" "at least " 1 0)
  | [stop] => return .range 0 (← asWhole stop) 1
  | [start, stop] => return .range (← asWhole start) (← asWhole stop) 1
  | [start, stop, step] => do
    let a ← asWhole start
    let b ← asWhole stop
    let c ← asWhole step
    if c == 0 then throw (.ofValue "range() arg 3 must not be zero")
    return .range a b c
  | args => throw (expected "range" "at most " 3 args.length)

def digitValue? (c : Char) : Option Nat :=
  let n := c.toNat
  if '0' ≤ c && c ≤ '9' then some (n - 48)
  else if 'a' ≤ c && c ≤ 'z' then some (n - 87)
  else if 'A' ≤ c && c ≤ 'Z' then some (n - 55)
  else none

def readInBase? (base : Nat) (cs : List Char) : Option Int :=
  let (negative, digits) := Decimal.takeSign cs
  if digits.isEmpty then none
  else
    (digits.foldlM (fun (n : Nat) c => do
      let d ← digitValue? c
      if d < base then some (base * n + d) else none) 0).map fun n =>
        if negative then -(n : Int) else n

/-- Why a value with an encoding and a way to treat errors gives no text; there are no bytes that
could be decoded. -/
def textRefusal? (v : Value) : (names : List Value) → Option String
  | [] => none
  | names =>
    let wrong := (["encoding", "errors"].zip names).find? fun e => (textOf e.2).isNone
    match wrong, v with
    | some (parameter, given), _ =>
      some ("str() argument " ++ tick parameter ++ " must be str, not " ++ shortKind given)
    | none, .str _ => some "decoding str is not supported"
    | none, v => some ("decoding to str: need a bytes-like object, " ++ v.kindName ++ " found")

def callType (t : BaseType) (args : List Value) (named : Entries Value) : Calc Value := do
  let given := args.length + named.length
  match t with
  | .str => if 3 < given then throw (atMost "str" 3 given)
  | .int => if 2 < given then throw (atMost "int" 2 given)
  | _ => pure ()
  match t, named with
  | _, [] => pure ()
  | .range, _ => noNames "range" named
  | .bool, _ => noNames "bool" named
  | .dict, _ => pure ()
  | .int, [("base", _)] => if args.isEmpty then throw (.ofType "int() missing string argument")
  | t, (n, _) :: _ => throw (invalidName t.word n)
  let atMostOne : Calc Unit := do
    if 1 < args.length then throw (expected t.word "at most " 1 args.length)
  match t, args ++ (named.get? "base").toList with
  | .str, [] => return .str ""
  | .str, v :: names =>
    match textRefusal? v names with
    | some refusal => throw (.ofType refusal)
    | none => return .str (← displayed v)
  | .int, [] => return .int 0
  | .int, [v] => toWhole v
  | .int, [v, base] => do
    let b ← asWhole base
    if b != 0 && (b < 2 || 36 < b) then
      throw (.ofValue "int() base must be >= 2 and <= 36, or 0")
    match v with
    | .str s =>
      match readInBase? (if b == 0 then 10 else b.toNat) (trim s).toList with
      | some n => return .int n
      | none => throw (.ofValue ("invalid literal for int() with base " ++ ofInt b ++ ": " ++
          quoted s))
    | _ => throw (.ofType "int() can't convert non-string with explicit base")
  | .int, args => throw (atMost "int" 2 args.length)
  | .bool, [] => return .bool false
  | .bool, v :: _ => do
    atMostOne
    return .bool (← isTrue v)
  | .float, [] => return .float 0.0
  | .float, v :: _ => do
    atMostOne
    match (← spelled v).leaf?.map Json.toReal with
    | some (.ok x) => return .float x
    | some (.error e) => throw (ofNumberError e)
    | none => throw (ofNumberError (.notReal v.kindName))
  | .list, [] => newList []
  | .list, v :: _ => do
    atMostOne
    newList (← itemsOf v)
  | .tuple, [] => return .tuple []
  | .tuple, v :: _ => do
    atMostOne
    return .tuple (← itemsOf v)
  | .dict, [] => return .dict (named.map fun e => (.str e.1, e.2))
  | .dict, v :: _ => return v
  | .range, args => rangeOf args
  | .object, _ => return .base .object

/-! ## Methods -/

/-- The methods and other attributes of a kind that are no methods of dictionaries of a program's
own. -/
def methodNames : Value → List String
  | .str _ =>
    ["capitalize", "casefold", "center", "count", "encode", "endswith", "expandtabs", "find",
      "format", "format_map", "index", "isalnum", "isalpha", "isascii", "isdecimal", "isdigit",
      "isidentifier", "islower", "isnumeric", "isprintable", "isspace", "istitle", "isupper",
      "join", "ljust", "lower", "lstrip", "maketrans", "partition", "removeprefix", "removesuffix",
      "replace", "rfind", "rindex", "rjust", "rpartition", "rsplit", "rstrip", "split",
      "splitlines", "startswith", "strip", "swapcase", "title", "translate", "upper", "zfill"]
  | .list _ =>
    ["append", "clear", "copy", "count", "extend", "index", "insert", "pop", "remove", "reverse",
      "sort"]
  | .dict _ =>
    ["clear", "copy", "fromkeys", "get", "items", "keys", "pop", "popitem", "setdefault", "update",
      "values"]
  | .tuple _ | .range _ _ _ => ["count", "index"]
  | .int _ | .bool _ =>
    ["as_integer_ratio", "bit_count", "bit_length", "conjugate", "from_bytes", "to_bytes"]
  | .float _ => ["as_integer_ratio", "conjugate", "fromhex", "hex", "is_integer"]
  | .error _ _ => ["add_note", "with_traceback"]
  | _ => []

def typeOf? : Value → Option Value
  | .error k _ => some (.failure k)
  | v => (baseOf? v).map Value.base

def property? (v : Value) (name : String) : Calc (Option Value) := do
  match v, name with
  | v, "__class__" => return typeOf? v
  | .symbol s, "name" => return some (.str s)
  | .module _, name => return (Entries.get? name Library.all).map Value.library
  | .error _ args, "args" => return some (.tuple args)
  | .function f, "__name__" => return some (.str f.name)
  | .library f, "__name__" => return some (.str f.word)
  | .base t, "__name__" => return some (.str t.word)
  | .failure k, "__name__" => return some (.str k.word)
  | .builtin f, "__name__" => return some (.str f.word)
  | .function f, "__vibelang__" =>
    match f.settings with
    | some s => return some (← valueOf (.ofJson s.info))
    | none => return none
  | .range a _ _, "start" => return some (.int a)
  | .range _ b _, "stop" => return some (.int b)
  | .range _ _ c, "step" => return some (.int c)
  | v, name =>
    match v.number?, name with
    | some (.int n), "real" => return some (.int n)
    | some (.int n), "numerator" => return some (.int n)
    | some (.int _), "imag" => return some (.int 0)
    | some (.int _), "denominator" => return some (.int 1)
    | some (.float x), "real" => return some (.float x)
    | some (.float _), "imag" => return some (.float 0.0)
    | _, _ => return none

def noAttribute (v : Value) (name : String) : Fault :=
  let owner := match v with
    | .base t => "type object " ++ tick t.word
    | .failure k => "type object " ++ tick k.word
    | .module m => "module " ++ tick m
    | v => tick v.kindName ++ " object"
  ⟨.attr, owner ++ " has no attribute " ++ tick name⟩

def attributeOf (v : Value) (name : String) : Calc Value := do
  match ← property? v name with
  | some w => return w
  | none =>
    if (methodNames v).contains name then return .method v name
    throw (noAttribute v name)

/-- Cuts a text at blanks, at most so many times. The first argument is fuel. -/
def splitBlanks : Nat → Nat → List Char → List (List Char)
  | 0, _, _ => []
  | fuel + 1, left, cs =>
    match cs.dropWhile isBlank with
    | [] => []
    | c :: rest =>
      if left == 0 then [c :: rest]
      else
        let word := (c :: rest).takeWhile fun c => !isBlank c
        word :: splitBlanks fuel (left - 1) ((c :: rest).drop word.length)

def splitLimited (sep : List Char) : Nat → List Char → List (List Char)
  | 0, cs => [cs]
  | left + 1, cs =>
    match cut? sep cs with
    | none => [cs]
    | some (head, tail) => head :: splitLimited sep left tail

def splitText (s : String) (sep limit : Value) : Calc Value := do
  let n ← asSize limit
  let count := if n < 0 then s.length + 1 else n.toNat
  let texts (pieces : List (List Char)) : Calc Value :=
    newList (pieces.map fun cs => .str (String.ofList cs))
  match sep with
  | .none => texts (splitBlanks (s.length + 1) count s.toList)
  | .str "" => throw (.ofValue "empty separator")
  | .str t => texts (splitLimited t.toList count s.toList)
  | v => throw (.ofType ("must be str or None, not " ++ v.kindName))

def joinText (s : String) (v : Value) : Calc Value := do
  match ← itemsOf? v with
  | none => throw (.ofType "can only join an iterable")
  | some items => do
    let texts ← items.zipIdx.mapM fun (item, i) =>
      match item with
      | .str t => pure t
      | w => throw (.ofType ("sequence item " ++ ofNat i ++
          ": expected str instance, " ++ w.kindName ++ " found"))
    return .str (String.intercalate s texts)

/-- Replaces a text, at most so many times if the limit is not negative. An empty text stands before
each character and at the end. -/
def replaceText (s old new : String) (limit : Int) : String :=
  if old.isEmpty then
    let pieces := s.toList.map String.singleton
    let n := if limit < 0 then pieces.length + 1 else limit.toNat
    let opened := (pieces.take n).map fun c => new ++ c
    String.join (opened ++ pieces.drop n) ++ (if pieces.length < n then new else "")
  else if limit < 0 then replaceAll old new s
  else
    String.intercalate new
      ((splitLimited old.toList limit.toNat s.toList).map String.ofList)

def startsText (s : Option String) : Value → Calc Value
  | .str t => return .bool (opens t)
  | .tuple items => among items
  | v => throw (.ofType ("startswith first arg must be str or a tuple of str, not " ++ v.kindName))
where
  opens (t : String) : Bool := (s.map fun s => startsWith s t).getD false
  among : List Value → Calc Value
    | [] => return .bool false
    | .str t :: rest => if opens t then return .bool true else among rest
    | v :: _ => throw (.ofType ("tuple for startswith must only contain str, not " ++ v.kindName))

def replaceArgument (position : Nat) : Value → Calc String
  | .str s => return s
  | v => throw (.ofType ("replace() argument " ++ ofNat position ++ " must be str, not " ++
      shortKind v))

def sliceBound : Value → Calc (Option Int)
  | .none => pure none
  | v =>
    match v.whole? with
    | some n => pure (some n)
    | none =>
      throw (.ofType "slice indices must be integers or None or have an __index__ method")

def boundPlace (length ifNone : Nat) : Option Int → Nat
  | some i => if 0 ≤ i then i.toNat else (length + i).toNat
  | none => ifNone

def callTextMethod (s name : String) (args : List Value) (named : Entries Value) : Calc Value := do
  let count := ofNat args.length
  let noNames := noNames ("str." ++ name) named
  match name with
  | "upper" | "lower" => do
    noNames
    if !args.isEmpty then
      throw (.ofType ("str." ++ name ++ "() takes no arguments (" ++ count ++ " given)"))
    return .str (if name == "upper" then upper s else lower s)
  | "strip" => do
    noNames
    match args with
    | [] => return .str (trim s)
    | [.none] => return .str (trim s)
    | [.str chars] => return .str (dropEnds (fun c => chars.toList.contains c) s)
    | [_] => throw (.ofType "strip arg must be None or str")
    | _ => throw (expected name "at most " 1 args.length)
  | "split" => do
    let sep := (args[0]?.or (named.get? "sep")).getD .none
    let limit := (args[1]?.or (named.get? "maxsplit")).getD (.int (-1))
    if 2 < args.length + named.length then
      throw (atMost "split" 2 (args.length + named.length))
    checkNames "split" ["sep", "maxsplit"] named
    splitText s sep limit
  | "join" => do
    noNames
    match args with
    | [v] => joinText s v
    | _ => throw (.ofType ("str.join() takes exactly one argument (" ++ count ++ " given)"))
  | "replace" => do
    noNames
    match args with
    | a :: b :: limit => do
      if 1 < limit.length then throw (expected name "at most " 3 args.length)
      let old ← replaceArgument 1 a
      let new ← replaceArgument 2 b
      return .str (replaceText s old new (← limit.head?.elim (pure (-1)) asSize))
    | _ => throw (expected name "at least " 2 args.length)
  | "startswith" => do
    Target.noNames "startswith" named
    match args with
    | [] => throw (.ofType "startswith() takes at least 1 argument (0 given)")
    | v :: bounds => do
      if 2 < bounds.length then throw (atMost "startswith" 3 args.length)
      let ends ← bounds.mapM sliceBound
      let start := boundPlace s.length 0 ends[0]?.join
      let stop := boundPlace s.length s.length ends[1]?.join
      let piece := String.ofList ((s.toList.take stop).drop start)
      startsText (if min s.length stop < start then none else some piece) v
  | name => throw (noAttribute (.str s) name)

def callMethod (self : Value) (name : String) (args : List Value) (named : Entries Value) :
    Calc Value := do
  match self, name with
  | .str s, name => callTextMethod s name args named
  | .list cell, "append" =>
    noNames "list.append" named
    let v ← soleArgument "list.append" args
    modify fun m => { m with cells := m.cells.modify cell (· ++ [v]) }
    return .none
  | .dict entries, "get" =>
    noNames "dict.get" named
    match args with
    | [key] => return (← lookup entries key).getD .none
    | [key, d] => return (← lookup entries key).getD d
    | [] => throw (expected name "at least " 1 0)
    | args => throw (expected name "at most " 2 args.length)
  | self, name => throw (noAttribute self name)

end Appwright.Target
