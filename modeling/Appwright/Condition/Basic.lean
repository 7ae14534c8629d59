import Appwright.Json.Path
import Appwright.Regex.Search

/-!
# Conditions

A condition is a JSON value evaluated in a context. A list stands for the conjunction of its items,
an object of paths for equality at each path, and an object with one `$` key for an operator. Null
always holds.
-/

namespace Appwright.Condition

open Json

inductive Error where
  | oneOperator
  | operatorName
  | unknownOperator (op : String)
  | listExpected (op : String)
  | pairExpected (op : String)
  | emptyPath (op : String)
  | valuesExpected
  | headExpected
  | tailExpected
  | patternExpected
  | badPattern (cause : Regex.PatternError)
  | conditionExpected (op : String)
  | existsShape
  | existsPath
  | truthyPath
  | position (cause : Decimal.IntError)
  /-- A whole number too large to be compared as a float. -/
  | tooLarge
deriving DecidableEq, Repr

def Error.message : Error → String
  | oneOperator => "Operator condition objects must have exactly one $operator key"
  | operatorName => "Invalid $operator key"
  | unknownOperator op => "Unknown operator: " ++ op
  | listExpected op => op ++ " expects a list"
  | pairExpected op => op ++ " expects [expr, value]"
  | emptyPath op => op ++ " expr must be a non-empty string"
  | valuesExpected => "$in expects [expr, [values...]]"
  | headExpected => "$startsWith expects [expr, prefix_string]"
  | tailExpected => "$endsWith expects [expr, suffix_string]"
  | patternExpected => "$regex expects [expr, pattern_string]"
  | badPattern .repetitionTooLarge => Regex.PatternError.message .repetitionTooLarge
  | badPattern .alphabetClash => Regex.PatternError.message .alphabetClash
  | badPattern cause => "Invalid regex: " ++ cause.message
  | conditionExpected op => op ++ " expects [expr, <condition_object>]"
  | existsShape => "$exists expects 'expr' or ['expr', bool]"
  | existsPath => "$exists expr must be a non-empty string"
  | truthyPath => "$truthy expects 'expr'"
  | position cause => cause.message
  | tooLarge => "int too large to convert to float"

/-- Whether the condition itself is at fault, and not something that it met or a limit of patterns. -/
def Error.isForm : Error → Bool
  | position _ => false
  | tooLarge => false
  | badPattern .repetitionTooLarge => false
  | badPattern .alphabetClash => false
  | _ => true

abbrev Outcome := Except Error Bool

def isOperator (members : Members) : Bool :=
  members.any fun e => Text.startsWith e.1 "$"

/-- Whether a key can be an operator: a dollar sign and an identifier, a single line feed after it
let pass. -/
def isOperatorName (key : String) : Bool :=
  match key.toList with
  | '$' :: cs => Text.isIdentLine (String.ofList cs)
  | _ => false

def valueAt (path : String) (context : Members) : Except Error Json :=
  (lookup path context).mapError Error.position

def equalities (context : Members) : Members → Outcome
  | [] => .ok true
  | (path, expected) :: rest =>
    if Text.isBlankText path then .ok false
    else
      match valueAt path context with
      | .error e => .error e
      | .ok actual => if same actual expected then equalities context rest else .ok false

/-- A number as a float; truth values are no numbers here. -/
def number? : Json → Option (Except Error Float)
  | .int n => some (match Decimal.ofInt? n with
    | some x => .ok x
    | none => .error .tooLarge)
  | .float x => some (.ok x)
  | _ => none

/-- Compares two numbers as floats; anything else does not compare. -/
def compareNumbers (test : Float → Float → Bool) (a b : Json) : Outcome :=
  match number? a, number? b with
  | some x, some y => do
    let x ← x
    let y ← y
    return test x y
  | _, _ => .ok false

/-- Whether a value contains another: a text a text, an array an item, an object a name. -/
def contains (hay needle : Json) : Bool :=
  match hay, needle with
  | .str s, .str t => Text.contains s t
  | .arr items, v => isAmong v items
  | .obj members, .str name => Entries.has name members
  | _, _ => false

/-- The operators that compare the value at a path with a given one, without conditions inside. -/
def compareOperator? (op : String) : Option (Json → Json → Outcome) :=
  if op == "$eq" then some fun a e => .ok (same a e)
  else if op == "$ne" then some fun a e => .ok (!same a e)
  else if op == "$gt" then some (compareNumbers fun x y => x > y)
  else if op == "$gte" then some (compareNumbers fun x y => x ≥ y)
  else if op == "$lt" then some (compareNumbers fun x y => x < y)
  else if op == "$lte" then some (compareNumbers fun x y => x ≤ y)
  else if op == "$in" then some fun a e =>
    match e with
    | .arr values => .ok (isAmong a values)
    | _ => .error .valuesExpected
  else if op == "$contains" then some fun a e => .ok (contains a e)
  else if op == "$startsWith" then some fun a e =>
    match e, a with
    | .str head, .str s => .ok (Text.startsWith s head)
    | .str _, _ => .ok false
    | _, _ => .error .headExpected
  else if op == "$endsWith" then some fun a e =>
    match e, a with
    | .str tail, .str s => .ok (Text.endsWith s tail)
    | .str _, _ => .ok false
    | _, _ => .error .tailExpected
  else if op == "$regex" then some fun a e =>
    match e, a with
    | .str source, .str s =>
      match Regex.parse source with
      | .ok pattern => .ok (pattern.occursIn s)
      | .error cause => .error (.badPattern cause)
    | .str _, _ => .ok false
    | _, _ => .error .patternExpected
  else none

def pathOf (complaint : Error) : Json → Except Error String
  | .str path => if Text.isBlankText path then .error complaint else .ok path
  | _ => .error complaint

def existence (arg : Json) (context : Members) : Outcome :=
  match arg with
  | .arr [path, wanted] => do
    let path ← pathOf .existsPath path
    let v ← valueAt path context
    let found := !v.isNull
    return if wanted.isNull then found else found == wanted.truthy
  | .arr _ => .error .existsShape
  | path => do
    let path ← pathOf .existsPath path
    let v ← valueAt path context
    return !v.isNull

def anyItem (holds : Members → Outcome) (context : Members) : List Json → Outcome
  | [] => .ok false
  | v :: rest =>
    match holds (Entries.put "item" v context) with
    | .ok false => anyItem holds context rest
    | other => other

def allItems (holds : Members → Outcome) (context : Members) : List Json → Outcome
  | [] => .ok true
  | v :: rest =>
    match holds (Entries.put "item" v context) with
    | .ok true => allItems holds context rest
    | other => other

mutual
def eval : Json → Json.Members → Outcome
  | .null, _ => .ok true
  | .bool b, _ => .ok b
  | .arr items, context => evalAll items context
  | .obj members, context =>
    if !isOperator members then equalities context members
    else
      match members with
      | [(op, arg)] =>
        if !isOperatorName op then .error .operatorName
        else if op == "$and" then
          match arg with
          | .arr items => evalAll items context
          | _ => .error (.listExpected op)
        else if op == "$or" then
          match arg with
          | .arr items => evalAny items context
          | _ => .error (.listExpected op)
        else if op == "$not" then (eval arg context).map (!·)
        else if op == "$any" || op == "$all" then
          match arg with
          | .arr [path, inner] => do
            let path ← pathOf (.emptyPath op) path
            let actual ← valueAt path context
            match inner with
            | .obj members =>
              match actual with
              | .null => .ok (op == "$all")
              | .arr items =>
                if op == "$any" then anyItem (eval (.obj members)) context items
                else allItems (eval (.obj members)) context items
              | _ => .ok false
            | _ => .error (.conditionExpected op)
          | _ => .error (.pairExpected op)
        else if op == "$exists" then existence arg context
        else if op == "$truthy" then do
          let path ← pathOf .truthyPath arg
          let v ← valueAt path context
          return v.truthy
        else
          match compareOperator? op with
          | none => .error (.unknownOperator op)
          | some compare =>
            match arg with
            | .arr [path, expected] => do
              let path ← pathOf (.emptyPath op) path
              let actual ← valueAt path context
              compare actual expected
            | _ => .error (.pairExpected op)
      | _ => .error .oneOperator
  | _, _ => .ok false
def evalAll : List Json → Members → Outcome
  | [], _ => .ok true
  | c :: cs, context =>
    match eval c context with
    | .ok true => evalAll cs context
    | other => other
def evalAny : List Json → Members → Outcome
  | [], _ => .ok false
  | c :: cs, context =>
    match eval c context with
    | .ok false => evalAny cs context
    | other => other
end

/-! ## Form

Conditions inside `$any` and `$all`, and the patterns of `$regex`, are not looked into.
-/

inductive FormError where
  | notCondition
  | emptyKey
  | oneOperator
  | unknownOperator (op : String)
  | conditionsNeeded (op : String)
  | pairNeeded (op : String)
  | pathNeeded (op : String)
  | patternNeeded
  | valuesNeeded
  | textNeeded (op : String)
  | conditionNeeded (op : String)
  | existsShape
  | truthyPath
deriving DecidableEq, Repr

def FormError.message (place : String) : FormError → String
  | notCondition => place ++ " must be an object or list"
  | emptyKey => place ++ " keys must be non-empty strings"
  | oneOperator => place ++ " operator form must have exactly one $operator key"
  | unknownOperator op => place ++ " has unknown operator: " ++ Text.quoted op
  | conditionsNeeded op => place ++ "." ++ op ++ " must be a non-empty list"
  | pairNeeded op => place ++ "." ++ op ++ " must be [expr, value]"
  | pathNeeded op => place ++ "." ++ op ++ " expr must be a non-empty string"
  | patternNeeded => place ++ ".$regex pattern must be a string"
  | valuesNeeded => place ++ ".$in expects [expr, [values...]]"
  | textNeeded op => place ++ "." ++ op ++ " expects [expr, string]"
  | conditionNeeded op => place ++ "." ++ op ++ " expects [expr, <condition_object>]"
  | existsShape => place ++ ".$exists expects 'expr' or ['expr', bool]"
  | truthyPath => place ++ ".$truthy expects 'expr'"

def pairOperators : List String :=
  ["$eq", "$ne", "$gt", "$gte", "$lt", "$lte", "$in", "$contains", "$startsWith", "$endsWith",
    "$regex", "$any", "$all"]

def isPath : Json → Bool
  | .str s => !s.isEmpty
  | _ => false

def checkPair (op : String) : Json → Except FormError Unit
  | .arr [path, v] =>
    if !isPath path then .error (.pathNeeded op)
    else if op == "$regex" then
      match v with
      | .str _ => .ok ()
      | _ => .error .patternNeeded
    else if op == "$in" then
      match v with
      | .arr _ => .ok ()
      | _ => .error .valuesNeeded
    else if op == "$startsWith" || op == "$endsWith" then
      match v with
      | .str _ => .ok ()
      | _ => .error (.textNeeded op)
    else if op == "$any" || op == "$all" then
      match v with
      | .obj _ => .ok ()
      | _ => .error (.conditionNeeded op)
    else .ok ()
  | _ => .error (.pairNeeded op)

def checkLeaf (op : String) (arg : Json) : Except FormError Unit :=
  if pairOperators.contains op then checkPair op arg
  else if op == "$exists" then
    match arg with
    | .arr [path, .bool _] => if isPath path then .ok () else .error .existsShape
    | path => if isPath path then .ok () else .error .existsShape
  else if op == "$truthy" then
    if isPath arg then .ok () else .error .truthyPath
  else .error (.unknownOperator op)

mutual
def checkForm : Json → Except FormError Unit
  | .null => .ok ()
  | .bool _ => .ok ()
  | .arr items => checkForms items
  | .obj members =>
    if !isOperator members then
      if members.any fun e => e.1.isEmpty then .error .emptyKey else .ok ()
    else
      match members with
      | [(op, arg)] =>
        if op == "$and" || op == "$or" then
          match arg with
          | .arr (c :: cs) => do
            checkForm c
            checkForms cs
          | _ => .error (.conditionsNeeded op)
        else if op == "$not" then checkForm arg
        else checkLeaf op arg
      | _ => .error .oneOperator
  | _ => .error .notCondition
def checkForms : List Json → Except FormError Unit
  | [] => .ok ()
  | c :: cs => do
    checkForm c
    checkForms cs
end

end Appwright.Condition
