import Appwright.Json.Writer
import Appwright.Spec.Basic
import Appwright.Url.Basic

/-!
# Themes

The classes of each part of a page, the head of every page, and the policy that says where a page
may load from. An application may replace classes, add style sheets, and lay settings over those of
the style library.
-/

namespace Appwright

/-! ## Markup

What comes from data is written with the five characters that markup gives a meaning replaced; what
belongs to the page itself is written as it is.
-/

inductive Attr where
  /-- A name with a value that is written as it is. -/
  | fixed (name value : String)
  /-- A name with a value from data. -/
  | named (name value : String)
  /-- A word alone, or nothing but the blank before it. -/
  | bare (word : String)
deriving DecidableEq, Repr

inductive Html where
  | text (s : String)
  | raw (s : String)
  | element (tag : String) (attrs : List Attr) (children : List Html)
  /-- An element that has no content. -/
  | void (tag : String) (attrs : List Attr)
deriving Repr, Inhabited

namespace Html

def escapeChar (c : Char) : List Char :=
  match c with
  | '&' => "&amp;".toList
  | '<' => "&lt;".toList
  | '>' => "&gt;".toList
  | '"' => "&quot;".toList
  | '\'' => "&#x27;".toList
  | c => [c]

def escapeChars (cs : List Char) : List Char :=
  cs.flatMap escapeChar

/-- The text that shows a value; null shows nothing. -/
def shown (v : Json) : String :=
  if v.isNull then "" else v.display

def value (v : Json) : Html :=
  .text (shown v)

def attrChars : Attr → List Char
  | .fixed name v => ' ' :: name.toList ++ '=' :: '"' :: v.toList ++ ['"']
  | .named name v => ' ' :: name.toList ++ '=' :: '"' :: escapeChars v.toList ++ ['"']
  | .bare word => ' ' :: word.toList

mutual
def chars : Html → List Char
  | .text s => escapeChars s.toList
  | .raw s => s.toList
  | .element tag attrs children =>
    '<' :: tag.toList ++ attrs.flatMap attrChars ++ '>' :: allChars children ++
      '<' :: '/' :: tag.toList ++ ['>']
  | .void tag attrs => '<' :: tag.toList ++ attrs.flatMap attrChars ++ ['/', '>']
def allChars : List Html → List Char
  | [] => []
  | h :: rest => chars h ++ allChars rest
end

def render (trees : List Html) : String :=
  String.ofList (allChars trees)

end Html

end Appwright

namespace Appwright.View

/-! ## Themes -/

/-- The classes of the parts of a page, by the name of the part. -/
abbrev Theme := Entries String

def defaultTheme : Theme :=
  [
    ("body",
      "min-h-screen font-display text-slate-900 bg-gradient-to-br from-[#f8f3ea] " ++
        "via-[#f1f6ff] to-[#e7fbf3]"),
    ("grid_overlay",
      "fixed inset-0 -z-10 opacity-30 " ++
        "bg-[radial-gradient(rgba(15,23,42,0.08)_1px,transparent_1px)] " ++
        "[background-size:24px_24px]"),
    ("shell", "px-6 py-8 lg:px-12"),
    ("container", "mx-auto flex max-w-6xl flex-col gap-6"),
    ("topbar",
      "flex items-center justify-between rounded-[24px] border border-slate-900/10 " ++
        "bg-white/80 px-6 py-4 shadow-[0_16px_30px_rgba(15,23,42,0.14)] backdrop-blur"),
    ("brand", "text-lg font-semibold tracking-wide"),
    ("nav", "flex items-center gap-2"),
    ("nav_link",
      "rounded-full border border-slate-900/10 px-3 py-1 text-sm font-medium " ++
        "text-slate-700 transition hover:-translate-y-0.5 hover:bg-brand-400 hover:text-white"),
    ("surface",
      "rounded-[28px] border border-slate-900/10 bg-white/90 p-6 " ++
        "shadow-[0_20px_40px_rgba(15,23,42,0.12)] backdrop-blur"),
    ("header", "flex flex-wrap items-center justify-between gap-4"),
    ("header_title", "text-2xl font-semibold"),
    ("header_subtitle", "text-sm text-slate-600"),
    ("header_tag",
      "rounded-full border border-brand-400/40 bg-brand-50 px-3 py-1 text-xs font-semibold " ++
        "text-brand-600"),
    ("panel",
      "rounded-2xl border border-slate-900/10 bg-white p-5 " ++
        "shadow-[0_12px_24px_rgba(15,23,42,0.08)]"),
    ("panel_title", "text-lg font-semibold"),
    ("form_grid", "mt-4 grid gap-4 md:grid-cols-2 lg:grid-cols-3"),
    ("label", "flex flex-col gap-2 text-[11px] uppercase tracking-[0.2em] text-slate-500"),
    ("input",
      "rounded-xl border border-slate-900/10 bg-white px-3 py-2 text-sm " ++
        "focus:border-brand-400 focus:outline-none"),
    ("btn_primary",
      "rounded-xl bg-brand-400 px-4 py-2 text-sm font-semibold text-white " ++
        "shadow-[0_10px_18px_rgba(255,107,74,0.35)]"),
    ("btn_dark",
      "rounded-xl bg-slate-900 px-4 py-2 text-sm font-semibold text-white " ++
        "shadow-[0_10px_18px_rgba(15,23,42,0.25)]"),
    ("btn_outline",
      "ml-2 rounded-full border border-slate-900/20 px-3 py-1 text-xs font-semibold " ++
        "text-slate-700"),
    ("table_wrap", "mt-4 overflow-x-auto"),
    ("table", "min-w-full text-sm"),
    ("thead", "bg-[#fff3ef] text-xs uppercase tracking-widest text-slate-600"),
    ("tbody", "divide-y divide-slate-100"),
    ("row", "hover:bg-[#fff7f4]"),
    ("cell", "px-4 py-3"),
    ("grid", "grid gap-4 md:grid-cols-2"),
    ("card",
      "rounded-2xl border border-slate-900/10 bg-white p-5 " ++
        "shadow-[0_12px_24px_rgba(15,23,42,0.08)]"),
    ("card_title", "text-lg font-semibold"),
    ("badge",
      "rounded-full border border-brand-400/30 bg-brand-50 px-3 py-1 text-xs font-semibold " ++
        "text-brand-600"),
    ("link",
      "text-slate-900 font-semibold underline decoration-brand-400 decoration-4 " ++
        "underline-offset-4"),
    ("link_muted", "text-slate-600"),
    ("stack", "flex flex-col gap-6")]

def Theme.classes (t : Theme) (part : String) : String :=
  (t.get? part).getD ""

def Theme.attr (t : Theme) (part : String) : Attr :=
  .fixed "class" (t.classes part)

/-- The classes of an application: its own where it has any, without blanks around them. -/
def themeOf (app : Spec.App) : Theme :=
  app.classes.foldl (fun t e =>
    if !e.1.isEmpty && !Text.isBlankText e.2 then t.put e.1 (Text.trim e.2) else t) defaultTheme

def fontLinks : String :=
  "<link rel=\"preconnect\" href=\"https://fonts.googleapis.com\">" ++
  "<link rel=\"preconnect\" href=\"https://fonts.gstatic.com\" crossorigin>" ++
  "<link href=\"https://fonts.googleapis.com/css2?family=Urbanist:wght@400;500;600;700" ++
  "&family=Space+Mono:wght@400;700&display=swap\" rel=\"stylesheet\">"

def styleScript : String :=
  "<script src=\"https://cdn.tailwindcss.com\"></script>"

/-- The settings of the style library without changes. -/
def defaultSettings : Json :=
  .obj [("theme", .obj [("extend", .obj [
    ("fontFamily", .obj [
      ("display", .ofTexts ["Urbanist", "sans-serif"]),
      ("mono", .ofTexts ["Space Mono", "monospace"])]),
    ("colors", .obj [
      ("brand", .obj [
        ("50", .str "#fff1ec"),
        ("400", .str "#ff6b4a"),
        ("600", .str "#f04f33")]),
      ("mint", .obj [("400", .str "#1f9d8f")])])])])]

def head (app : Spec.App) : List Html :=
  let settings := Json.merge defaultSettings (.obj (app.tailwind.getD []))
  let sheet (url : String) : Html := .void "link" [.fixed "rel" "stylesheet", .named "href" url]
  .raw fontLinks :: app.cssUrls.map sheet ++
    [.raw styleScript, .raw ("<script>tailwind.config = " ++ settings.encode ++ "</script>")]

/-! ## Where a page may load from -/

def secureStart : String := "https://"

/-- The source that a style sheet adds; nothing if it needs none. -/
def styleOrigin? (url : String) : Except Url.Error (Option String) := do
  if !Text.startsWith url secureStart then return none
  let parsed ← Url.parse url
  if parsed.scheme == "https" && !parsed.authority.isEmpty then
    return some (secureStart ++ parsed.authority)
  return none

/-- The sources of styles, from those so far and the style sheets of an application. -/
def styleSources (sources : List String) : List String → Except Url.Error (List String)
  | [] => .ok sources
  | url :: rest => do
    match ← styleOrigin? url with
    | some origin =>
      styleSources (if sources.contains origin then sources else sources ++ [origin]) rest
    | none => styleSources sources rest

/-- The policy's directives with their sources, given the sources of styles. -/
def directives (styles : List String) : List (String × List String) :=
  [("default-src", ["'self'"]),
    ("script-src", ["'self'", "https://cdn.tailwindcss.com", "'unsafe-inline'"]),
    ("style-src", styles),
    ("font-src", ["https://fonts.gstatic.com"]),
    ("img-src", ["'self'", "data:"]),
    ("connect-src", ["'self'", "https://cdn.tailwindcss.com"]),
    ("frame-ancestors", ["'none'"])]

def defaultStyles : List String :=
  ["'self'", "https://fonts.googleapis.com", "'unsafe-inline'"]

def directiveText (d : String × List String) : String :=
  d.1 ++ " " ++ String.intercalate " " d.2

def policy (app : Spec.App) : Except Url.Error String := do
  let styles ← styleSources defaultStyles app.cssUrls
  return String.intercalate "; " ((directives styles).map directiveText)

end Appwright.View
