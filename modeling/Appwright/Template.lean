import Appwright.Json.Path
import Appwright.Json.Writer

/-!
# Templates

A text may hold placeholders, a dotted path between `${` and `}`. Rendering puts the text of the
value at the path in place of each. Rendering is one pass over the template: what a placeholder
brings in is never read as a template again.
-/

namespace Appwright.Template

open Json Decimal

inductive Piece where
  | char (c : Char)
  | hole (path : List Char)
deriving DecidableEq, Repr

/-- Reads the rest of a placeholder after its dollar sign: a path that is not empty, up to the first
closing brace. -/
def hole? : List Char → Option (List Char × List Char)
  | '{' :: cs =>
    match cs.dropWhile (· != '}') with
    | _ :: rest =>
      let path := cs.takeWhile (· != '}')
      if path.isEmpty then none else some (path, rest)
    | [] => none
  | _ => none

theorem length_of_hole? {cs path rest : List Char} (h : hole? cs = some (path, rest)) :
    rest.length < cs.length := by
  unfold hole? at h
  split at h
  · rename_i body
    have bound := (List.dropWhile_suffix (l := body) (· != '}')).length_le
    split at h
    · rename_i found
      rw [found] at bound
      dsimp only at h
      split at h
      · simp at h
      · simp only [Option.some.injEq, Prod.mk.injEq] at h
        obtain ⟨_, rfl⟩ := h
        simp only [List.length_cons] at bound ⊢
        omega
    · simp at h
  · simp at h

def pieces : List Char → List Piece
  | [] => []
  | c :: cs =>
    if c == '$' then
      match _h : hole? cs with
      | some (path, rest) => .hole path :: pieces rest
      | none => .char c :: pieces cs
    else .char c :: pieces cs
termination_by cs => cs.length
decreasing_by
  all_goals simp only [List.length_cons]
  · have := length_of_hole? _h
    omega
  all_goals omega

def pathOf (hole : List Char) : String :=
  Text.trim (String.ofList hole)

def Piece.render (context : Members) : Piece → Except IntError String
  | .char c => .ok (String.singleton c)
  | .hole path => do
    let v ← lookup (pathOf path) context
    return if v.isNull then "" else v.display

def renderText (context : Members) (template : String) : Except IntError String := do
  let parts ← (pieces template.toList).mapM (Piece.render context)
  return String.join parts

/-- Renders a string: one that is a single placeholder, blanks around it apart, stands for the value
itself; any other for its text. -/
def renderString (context : Members) (template : String) : Except IntError Json :=
  match pieces (Text.trim template).toList with
  | [.hole path] => lookup (pathOf path) context
  | _ => (renderText context template).map .str

mutual
def render (context : Members) : Json → Except IntError Json
  | .str s => renderString context s
  | .arr items => (renderItems context items).map .arr
  | .obj members => (renderMembers context members).map .obj
  | v => .ok v
def renderItems (context : Members) : List Json → Except IntError (List Json)
  | [] => .ok []
  | v :: rest => do
    let w ← render context v
    let ws ← renderItems context rest
    return w :: ws
def renderMembers (context : Members) :
    List (String × Json) → Except IntError (List (String × Json))
  | [] => .ok []
  | (name, v) :: rest => do
    let w ← render context v
    let ws ← renderMembers context rest
    return (name, w) :: ws
end

end Appwright.Template
