import Appwright.View.Theme

/-!
# Pages

A page has a form that creates a row of its model and a table of the rows.
-/

namespace Appwright.View

open Html

/-! ## Frames -/

structure Link where
  label : String
  target : String
deriving Repr

/-- A page: head, the application's name and links at the top, and the content below. -/
def shell (app : Spec.App) (title : String) (content : List Html) (links : List Link) : String :=
  let t := themeOf app
  let link (l : Link) : Html :=
    .element "a" [t.attr "nav_link", .named "href" l.target] [.text l.label]
  let top : Html := .element "div" [t.attr "topbar"] [
    .element "div" [t.attr "brand"] [.text app.name],
    .element "nav" [t.attr "nav"] (links.map link)]
  let frame : Html := .element "div" [t.attr "shell"] [
    .element "div" [t.attr "container"] [top, .element "main" [t.attr "surface"] content]]
  render [
    .raw "<!doctype html>",
    .element "html" [] [
      .element "head" [] ([
        .void "meta" [.fixed "charset" "utf-8"],
        .element "title" [] [.text title]] ++ head app),
      .element "body" [t.attr "body"] [.element "div" [t.attr "grid_overlay"] [], frame]]]

/-- The head of a page's content: a title, a line below it, and a mark on the right. -/
def header (t : Theme) (title : List Html) (below : Html) (mark : String) : Html :=
  .element "header" [t.attr "header"] [
    .element "div" [] [.element "h1" [t.attr "header_title"] title, below],
    .element "span" [t.attr "header_tag"] [.text mark]]

def subtitle (t : Theme) (text : String) : Html :=
  .element "p" [t.attr "header_subtitle"] [.text text]

def panel (t : Theme) (title : String) (content : List Html) : Html :=
  .element "div" [t.attr "panel"] (.element "h2" [t.attr "panel_title"] [.text title] :: content)

def form (t : Theme) (action : String) (hidden fields : List Html) (button label : String) : Html :=
  .element "form" [.fixed "method" "post", .named "action" action,
      .fixed "enctype" "application/x-www-form-urlencoded"]
    (hidden ++ [
      .element "div" [t.attr "form_grid"] fields,
      .element "div" [.fixed "class" "mt-4 flex justify-end"] [
        .element "button" [t.attr button, .fixed "type" "submit"] [.text label]]])

def table (t : Theme) (titles rows : List Html) : Html :=
  .element "div" [t.attr "table_wrap"] [
    .element "table" [t.attr "table"] [
      .element "thead" [t.attr "thead"] [.element "tr" [] titles],
      .element "tbody" [t.attr "tbody"] rows]]

def columnTitle (t : Theme) (content : Html) : Html :=
  .element "th" [.fixed "class" (t.classes "cell" ++ " text-left")] [content]

def cell (t : Theme) (content : List Html) : Html :=
  .element "td" [t.attr "cell"] content

def stack (t : Theme) (parts : List Html) : Html :=
  .element "div" [t.attr "stack"] parts

/-! ## Controls -/

open Spec (FieldType)

/-- A row that a reference may point to: its id and what is shown for it. -/
structure Choice where
  id : Json
  label : String
deriving Repr, Inhabited

abbrev Choices := Entries (List Choice)

def Choices.of (choices : Choices) (field : String) : List Choice :=
  (choices.get? field).getD []

def selectedIf (b : Bool) : Attr :=
  .bare (if b then "selected" else "")

def option (value : String) (selected : Bool) (label : String) : Html :=
  .element "option" [.named "value" value, selectedIf selected] [.text label]

def noOption (label : String) : Html :=
  .element "option" [.fixed "value" ""] [.text label]

def labelled (t : Theme) (name : String) (control : Html) : Html :=
  .element "label" [t.attr "label"] [.text name, control]

def select (t : Theme) (name : String) (options : List Html) : Html :=
  .element "select" [t.attr "input", .named "name" name] options

def choiceOptions (chosen : String) (choices : List Choice) : List Html :=
  choices.map fun c => option (shown c.id) (c.id.display == chosen) c.label

def inputKind : FieldType → String
  | .int => "number"
  | .float => "number"
  | .datetime => "datetime-local"
  | _ => "text"

def jsonShown : Json → String
  | .arr items => (Json.arr items).write Json.pretty
  | .obj members => (Json.obj members).write Json.pretty
  | v => shown v

def input (t : Theme) (name : String) (type : FieldType) (v : Json) (choices : List Choice) :
    Html :=
  labelled t name <|
    match type.target?, type with
    | some _, _ => select t name (noOption "--" :: choiceOptions (shown v) choices)
    | none, .bool =>
      let isOn := ["1", "true", "True"].contains v.display
      select t name [option "0" (!isOn) "false", option "1" isOn "true"]
    | none, .json =>
      .element "textarea" [t.attr "input", .named "name" name, .fixed "rows" "4"]
        [.text (jsonShown v)]
    | none, type =>
      let shown := shown v
      .void "input" [t.attr "input", .named "name" name, .fixed "type" (inputKind type),
        if shown.isEmpty then .bare "" else .named "value" shown]

def filterHead : String := "f_"

def filterInput (t : Theme) (name : String) (type : FieldType) (v : Json) (choices : List Choice) :
    Html :=
  let control := filterHead ++ name
  labelled t name <|
    match type.target?, type with
    | some _, _ => select t control (noOption "Any" :: choiceOptions (shown v) choices)
    | none, .bool =>
      select t control
        [noOption "Any", option "1" (v.display == "1") "true", option "0" (v.display == "0") "false"]
    | none, _ =>
      .void "input" [t.attr "input", .named "name" control, .fixed "type" "text",
        .named "value" (shown v)]

/-- The controls that choose an order. -/
def sortSelect (t : Theme) (m : Spec.Model) (sort direction : String) : Html :=
  let fields := "id" :: m.fieldNames
  let direction (name : String) : Html := option name (direction == name) name
  .element "label" [t.attr "label"] [
    .text "Sort",
    .element "div" [.fixed "class" "flex gap-2"] [
      select t "sort" (fields.map fun f => option f (f == sort) f),
      select t "dir" [direction "asc", direction "desc"]]]

/-- The fields that a table shows: those named as visible, or all but those named as hidden. -/
def tableFields (fields : List String) (visible hidden : Option (List String)) : List String :=
  match visible.getD [], hidden.getD [] with
  | [], [] => fields
  | [], hidden => fields.filter fun f => !hidden.contains f
  | visible, _ => visible.filter fun f => fields.contains f

/-- What is shown for a row that a reference points to: its first field of text, or else its id. -/
def rowLabel (m : Spec.Model) (row : Json.Members) : String :=
  let id := (row.get? "id").getD .null
  match m.fields.find? fun f => f.2 = .text with
  | some (name, _) =>
    let v := (row.get? name).getD .null
    (if v.truthy then v else id).display
  | none => id.display

end Appwright.View

namespace Appwright.View

/-! ## Pages -/

def pageFields (m : Spec.Model) (p : Spec.Page) : List String :=
  match p.fields.getD [] with
  | [] => m.fieldNames
  | fields => fields

def pageInputs (t : Theme) (m : Spec.Model) (choices : Choices) :
    List String → Except String (List Html)
  | [] => .ok []
  | f :: rest =>
    match m.fields.get? f with
    | none => .error f
    | some type => do
      return input t f type (.str "") (choices.of f) :: (← pageInputs t m choices rest)

def apiPath (m : Spec.Model) : String :=
  "/api/" ++ m.name

def page (app : Spec.App) (m : Spec.Model) (p : Spec.Page) (rows : List Json.Members)
    (choices : Choices) : Except String String := do
  let t := themeOf app
  let fields := pageFields m p
  let title := match p.title.getD "" with
    | "" => m.name
    | title => title
  let inputs ← pageInputs t m choices fields
  let row (r : Json.Members) : Html :=
    .element "tr" [t.attr "row"]
      (cell t [Html.value ((r.get? "id").getD .null)] ::
        fields.map fun f => cell t [Html.value ((r.get? f).getD (.str ""))])
  let parts := [
    header t [.text title] (subtitle t ("Auto-generated from " ++ m.name)) m.name,
    panel t "Create" [form t (apiPath m) [] inputs "btn_primary" "Create"],
    panel t "Entries"
      [table t (("id" :: fields).map fun f => columnTitle t (.text f)) (rows.map row)]]
  let admin : List Link := if app.adminEnabled then [⟨"Admin", app.adminPath⟩] else []
  return shell app title [stack t parts] (admin ++ [⟨"API", apiPath m⟩])

end Appwright.View
