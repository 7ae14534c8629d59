import Appwright.Condition.Basic
import Appwright.Json.Number
import Appwright.Spec.Basic
import Appwright.Url.Basic

/-!
# Checked parts

What can be wrong with a specification, and the checks that its parts share: a member that may be
left out, a member of a given kind, and a name that can stand in a query.
-/

namespace Appwright.Spec

def plainTypes : List String :=
  ["bool", "datetime", "float", "int", "json", "text"]

def wordList (words : List String) : String :=
  "[" ++ ", ".intercalate (words.map Text.quoted) ++ "]"

inductive Error where
  | mustBe (part need : String)
  | mustReference (part target : String)
  | required (part reason : String)
  | notIdentifier (part name : String)
  | duplicate (part name : String)
  | unsupportedVersion (written : String)
  | fieldsRequired (model : String)
  | emptyFieldName (model : String)
  | fieldType (model field : String)
  | unknownType (type model : String)
  | unknownTarget (target model field : String)
  | unknownReference (part target name : String)
  | strayField (part field model : String)
  | unknownField (part field model : String)
  | reservedPath (area : String)
  | crudPath (model path : String)
  | dataEmpty
  | selfReference
  | condition (place : String) (cause : Condition.FormError)
  | number (cause : Json.NumberError)
  | url (cause : Url.Error)
deriving DecidableEq, Repr

def Error.message : Error → String
  | mustBe part need => part ++ " must be " ++ need
  | mustReference part target => part ++ " must reference a known " ++ target
  | required part reason => part ++ " is required " ++ reason
  | notIdentifier part name => part ++ " must match ^[A-Za-z_][A-Za-z0-9_]*$: " ++ Text.quoted name
  | duplicate part name => "duplicate " ++ part ++ ": " ++ name
  | unsupportedVersion written =>
    "Unsupported spec_version: " ++ written ++ " (expected " ++ Text.ofInt version ++ ")"
  | fieldsRequired model => "model.fields required for " ++ model
  | emptyFieldName model => "invalid field name in " ++ model
  | fieldType model field => "invalid field type in " ++ model ++ "." ++ field
  | unknownType type model =>
    "invalid field type '" ++ type ++ "' in " ++ model ++ " (allowed: " ++ wordList plainTypes ++
      " or ref:<Model>)"
  | unknownTarget target model field =>
    "ref target '" ++ target ++ "' not found for " ++ model ++ "." ++ field
  | unknownReference part target name => part ++ " references unknown " ++ target ++ ": " ++ name
  | strayField part field model => part ++ " contains unknown field '" ++ field ++ "' for " ++ model
  | unknownField part field model => part ++ " unknown field '" ++ field ++ "' for " ++ model
  | reservedPath area => "action.path cannot be under " ++ area
  | crudPath model path =>
    "action.path collides with CRUD path for model '" ++ model ++ "': " ++ path
  | dataEmpty => "action.db.data must include at least one field"
  | selfReference => "flow step.use cannot reference the flow action itself"
  | condition place cause => cause.message place
  | number cause => cause.message
  | url cause => cause.message

abbrev Checked (α : Type) := Except Error α

def need (test : Bool) (e : Error) : Checked Unit :=
  if test then .ok () else .error e

/-! ## Parts -/

/-- A member, or a default where it is missing or counts as false. -/
def memberOr (name : String) (default : Json) (members : Json.Members) : Json :=
  match members.get? name with
  | some v => if v.truthy then v else default
  | none => default

def member (name : String) (default : Json) (members : Json.Members) : Json :=
  (members.get? name).getD default

def asObject (part : String) (need : String) : Json → Checked Json.Members
  | .obj members => .ok members
  | _ => .error (.mustBe part need)

def asList (part : String) : Json → Checked (List Json)
  | .arr items => .ok items
  | _ => .error (.mustBe part "a list")

def asText (part need : String) (test : String → Bool) : Json → Checked String
  | .str s => if test s then .ok s else .error (.mustBe part need)
  | _ => .error (.mustBe part need)

def asName (part : String) : Json → Checked String :=
  asText part "a string" fun s => !s.isEmpty

def optionalText (part need : String) : Json → Checked (Option String)
  | .null => .ok none
  | .str s => .ok (some s)
  | _ => .error (.mustBe part need)

def optionalTexts (part : String) (v : Json) : Checked (Option (List String)) :=
  match v with
  | .null => .ok none
  | v =>
    match v.texts? with
    | some texts => .ok (some texts)
    | none => .error (.mustBe part "list of strings")

/-- A whole number for which a test holds, kept as it was written. -/
def asWhole (part need : String) (test : Int → Bool) (v : Json) : Checked Json :=
  match v.whole? with
  | some n => if test n then .ok v else .error (.mustBe part need)
  | none => .error (.mustBe part need)

/-- Checks that a name can stand in a query: an identifier, a line feed at its end let pass. -/
def checkIdentifier (part name : String) : Checked Unit :=
  need (Text.isIdentLine name) (.notIdentifier part name)

def checkFields (complain : String → Error) (known : List String) : List String → Checked Unit
  | [] => .ok ()
  | f :: fs =>
    if known.contains f then checkFields complain known fs else .error (complain f)

end Appwright.Spec
