import Appwright.Url.Form
import Appwright.View.Page

/-!
# The pages of the administration

An overview of all models, the rows of a model with filters and pages, and the form that changes a
row. Forms carry a token that proves they were made here.
-/

namespace Appwright.View

open Spec Text

def tokenField (token : String) : Html :=
  .void "input" [.fixed "type" "hidden", .fixed "name" "csrf_token", .named "value" token]

def adminModelPath (app : App) (m : Model) : String :=
  app.adminPath ++ "/" ++ m.name

def modelCard (app : App) (t : Theme) (m : Model) (count : Nat) : Html :=
  .element "div" [t.attr "card"] [
    .element "h3" [t.attr "card_title"] [.text m.name],
    .element "p" [.fixed "class" "mt-2"] [
      .element "span" [t.attr "badge"] [.text (ofNat count ++ " rows")]],
    .element "p" [.fixed "class" "mt-4 flex gap-3 text-sm font-semibold"] [
      .element "a" [t.attr "link", .named "href" (adminModelPath app m)] [.text "Manage"],
      .element "a" [t.attr "link_muted", .named "href" (apiPath m)] [.text "API"]]]

def adminHome (app : App) (counts : List (Model × Nat)) : String :=
  let t := themeOf app
  let cards := counts.map fun (m, n) => modelCard app t m n
  shell app "Admin" [
    header t [.text "Admin"] (subtitle t "System overview") "Dashboard",
    .element "div" [t.attr "grid"] cards] [⟨"Home", "/"⟩]

structure Listing where
  query : String
  sort : String
  direction : String
  filters : Entries String
  page : Int
  limit : Int
  total : Int
  visible : Option (List String) := none
  hidden : Option (List String) := none
deriving Repr

namespace Listing

def pages (l : Listing) : Int :=
  let parts := max 1 l.limit
  let quotient := Decimal.ofNatRatio l.total.natAbs parts.natAbs
  let down := Decimal.floor quotient
  let count := if Decimal.equalsInt down quotient then down else down + 1
  if l.total ≤ 0 then 1 else max 1 count

def shownPage (l : Listing) : Int :=
  max 1 (min l.page l.pages)

def pageAddress (l : Listing) (page : Int) : String :=
  let fields : Entries String :=
    [("q", l.query), ("sort", l.sort), ("dir", l.direction), ("limit", ofInt l.limit)]
  let filters := l.filters.map fun f => (filterHead ++ f.1, f.2)
  "?" ++ Url.encodeForm ((fields.update filters).put "page" (ofInt page))

end Listing

def filterForm (t : Theme) (m : Model) (l : Listing) (choices : Choices) : Html :=
  let control (f : String × FieldType) : Html :=
    filterInput t f.1 f.2 (.str ((l.filters.get? f.1).getD "")) (choices.of f.1)
  let query : Html := .element "label" [t.attr "label"] [
    .text "Query",
    .void "input" [t.attr "input", .fixed "name" "q", .named "value" l.query,
      .fixed "placeholder" "Search"]]
  .element "form" [.fixed "method" "get", .fixed "action" ""] [
    .element "div" [.fixed "class" "mt-4 flex flex-wrap items-end gap-4"] [
      query,
      sortSelect t m l.sort l.direction,
      .element "button" [t.attr "btn_dark", .fixed "type" "submit"] [.text "Apply"]],
    .element "div" [.fixed "class" "mt-4 grid gap-4 md:grid-cols-2 lg:grid-cols-3"]
      (m.fields.map control),
    .void "input" [.fixed "type" "hidden", .fixed "name" "limit",
      .named "value" (ofInt l.limit)]]

/-- What is shown for the choice with an id; the last one of several counts. -/
def choiceLabel (choices : List Choice) (id : String) : String :=
  match choices.reverse.find? fun c => c.id.display == id with
  | some c => c.label
  | none => ""

def cellContent (m : Model) (choices : Choices) (field : String) (v : Json) : List Html :=
  let isReference := ((m.fields.get? field).bind FieldType.target?).isSome
  if isReference && !v.isNull && v.text? != some "" then
    match choiceLabel (choices.of field) v.display with
    | "" => [Html.value v]
    | label => [Html.value v, .raw " · ", .text label]
  else [Html.value v]

def adminRow (app : App) (t : Theme) (m : Model) (fields : List String)
    (choices : Choices) (token : String) (r : Json.Members) : Html :=
  let id := (r.get? "id").getD .null
  let path := adminModelPath app m ++ "/" ++ Html.shown id
  let links := cell t [
    .element "a" [t.attr "link", .named "href" path] [.text "Edit"],
    .raw " ",
    .element "form" [.fixed "method" "post", .named "action" (path ++ "/delete"),
        .fixed "style" "display:inline"] [
      tokenField token,
      .element "button" [t.attr "btn_outline", .fixed "type" "submit"] [.text "Delete"]]]
  .element "tr" [t.attr "row"]
    (cell t [Html.value id] ::
      fields.map (fun f => cell t (cellContent m choices f ((r.get? f).getD (.str "")))) ++ [links])

def pageLinks (t : Theme) (l : Listing) : Html :=
  let shown := l.shownPage
  let link (label : String) (page : Int) (isOff : Bool) : Html :=
    let off := if isOff then "opacity-40 pointer-events-none" else ""
    .element "a" [.fixed "class" (t.classes "btn_outline" ++ " " ++ off),
      .fixed "href" (l.pageAddress page)] [.text label]
  .element "div" [.fixed "class" "mt-4 flex items-center justify-between text-xs text-slate-600"] [
    .element "span" [] [.text ("Page " ++ ofInt shown ++ " of " ++ ofInt l.pages ++ " · " ++
      ofInt l.total ++ " total")],
    .element "div" [.fixed "class" "flex gap-2"] [
      link "Prev" (shown - 1) (shown ≤ 1),
      link "Next" (shown + 1) (l.pages ≤ shown)]]

def adminModel (app : App) (m : Model) (rows : List Json.Members) (l : Listing)
    (token : String) (choices : Choices) : String :=
  let t := themeOf app
  let fields := tableFields m.fieldNames l.visible l.hidden
  let inputs := m.fields.map fun f => input t f.1 f.2 (.str "") (choices.of f.1)
  let titles := ("id" :: fields).map (fun f => columnTitle t (.raw f)) ++
    [columnTitle t (.raw "Actions")]
  let below : Html := .element "p"
    [.fixed "class" "text-xs uppercase tracking-[0.3em] text-slate-500"] [.text ("/" ++ m.name)]
  let parts := [
    header t [.text m.name] below (ofNat rows.length ++ " rows"),
    panel t "Create"
      [form t (adminModelPath app m ++ "/create") [tokenField token] inputs "btn_primary" "Create"],
    panel t "Filter" [filterForm t m l choices],
    panel t "Rows" [table t titles (rows.map (adminRow app t m fields choices token))],
    pageLinks t l]
  shell app (m.name ++ " Admin") [stack t parts]
    [⟨"Admin", app.adminPath⟩, ⟨"API", apiPath m⟩]

def adminEdit (app : App) (m : Model) (row : Json.Members) (token : String)
    (choices : Choices) : String :=
  let t := themeOf app
  let id := Html.shown ((row.get? "id").getD .null)
  let inputs := m.fields.map fun f =>
    input t f.1 f.2 ((row.get? f.1).getD (.str "")) (choices.of f.1)
  let parts := [
    header t [.text (m.name ++ " #" ++ id)] (subtitle t "Edit entry") "Edit",
    panel t "Update" [form t (adminModelPath app m ++ "/" ++ id ++ "/update") [tokenField token]
      inputs "btn_dark" "Update"]]
  shell app ("Edit " ++ m.name) [stack t parts]
    [⟨"Admin", app.adminPath⟩, ⟨"Back", adminModelPath app m⟩]

end Appwright.View
