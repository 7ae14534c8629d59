import Appwright.Server.Basic

/-!
# Files that come with the server
-/

namespace Appwright.Server

/-- A rule of a style sheet, over several lines. -/
def rule (selector : String) (properties : List String) : String :=
  selector ++ " \x7b\n" ++ String.join (properties.map fun p => "  " ++ p ++ ";\n") ++ "\x7d"

def short (selector properties : String) : String :=
  selector ++ " \x7b " ++ properties ++ "; \x7d"

def styleSheet : String :=
  String.intercalate "\n" [
    "@import url(\"https://fonts.googleapis.com/css2?family=Space+Grotesk:wght@400;500;600;700&family=JetBrains+Mono:wght@400;600&display=swap\");",
    "",
    rule ":root" ["--bg: #f7efe4", "--bg-2: #e5f4ff", "--panel: #ffffff", "--panel-2: #fbf7f1",
      "--text: #1c2433", "--muted: #5b6776", "--accent: #ff7a3d", "--accent-2: #2563eb",
      "--border: rgba(28, 36, 51, 0.12)", "--shadow: 0 30px 60px rgba(28, 36, 51, 0.12)"],
    "",
    short "*" "box-sizing: border-box",
    rule "body" ["margin: 0",
      "font-family: \"Space Grotesk\", \"Avenir Next\", \"Helvetica Neue\", sans-serif",
      "color: var(--text)",
      "background: radial-gradient(circle at top, rgba(255, 255, 255, 0.65), transparent 55%),\n              linear-gradient(135deg, var(--bg) 0%, var(--bg-2) 100%)",
      "min-height: 100vh"],
    rule "body::before" ["content: \"\"", "position: fixed", "inset: 0",
      "background-image: radial-gradient(rgba(28, 36, 51, 0.08) 1px, transparent 1px)",
      "background-size: 26px 26px", "opacity: 0.3", "pointer-events: none", "z-index: -1"],
    "",
    short ".shell" "padding: 28px; display: flex; flex-direction: column; gap: 24px",
    rule ".topbar" ["background: var(--panel)", "border: 1px solid var(--border)",
      "border-radius: 18px", "padding: 16px 22px", "display: flex", "align-items: center",
      "justify-content: space-between", "box-shadow: var(--shadow)"],
    short ".brand" "font-size: 18px; font-weight: 700; letter-spacing: 0.3px",
    short ".nav" "display: flex; gap: 12px",
    short ".nav a" "color: var(--muted); font-weight: 500; text-decoration: none",
    short ".nav a:hover" "color: var(--accent-2)",
    "",
    rule ".surface" ["background: var(--panel)", "border: 1px solid var(--border)",
      "border-radius: 22px", "padding: 26px", "box-shadow: var(--shadow)",
      "animation: fadeUp 0.6s ease"],
    "",
    short "header" "margin-bottom: 1.2rem",
    short "header h1" "margin: 0; font-size: 28px",
    short "header p" "margin: 6px 0 0; color: var(--muted)",
    "",
    rule ".panel" ["background: var(--panel-2)", "border: 1px solid var(--border)",
      "border-radius: 16px", "padding: 16px", "margin-bottom: 18px"],
    short ".panel h2" "margin: 0 0 10px; font-size: 18px",
    "",
    rule ".form-grid" ["display: grid",
      "grid-template-columns: repeat(auto-fit, minmax(180px, 1fr))", "gap: 12px"],
    rule "label" ["display: flex", "flex-direction: column", "gap: 6px", "font-size: 11px",
      "text-transform: uppercase", "letter-spacing: 0.12em", "color: var(--muted)"],
    rule "input, select" ["padding: 10px 12px", "border: 1px solid var(--border)",
      "border-radius: 10px", "font-size: 14px", "background: #fff", "color: var(--text)"],
    rule "button" ["padding: 10px 16px", "border-radius: 10px", "border: 0",
      "background: var(--accent)", "color: #1b120b", "font-weight: 600", "cursor: pointer"],
    rule "button.secondary" ["background: transparent", "border: 1px solid var(--accent)",
      "color: var(--accent)"],
    "",
    short ".table-wrap" "overflow-x: auto",
    short ".table" "border-collapse: collapse; width: 100%; background: #fff; border-radius: 12px; overflow: hidden",
    short ".table th, .table td" "padding: 0.6rem 0.8rem; border-bottom: 1px solid var(--border)",
    short ".table th" "text-align: left; font-size: 12px; letter-spacing: 0.1em; text-transform: uppercase; color: var(--muted); background: #fff4ea",
    short ".table tr:nth-child(even) td" "background: #fcfaf7",
    "",
    short ".grid" "display: grid; grid-template-columns: repeat(auto-fit, minmax(220px, 1fr)); gap: 1rem",
    short ".card" "border: 1px solid var(--border); background: #fff; padding: 1rem; border-radius: 14px; box-shadow: 0 12px 24px rgba(28, 36, 51, 0.08)",
    short ".badge" "display: inline-block; padding: 0.2rem 0.6rem; background: #ffe6d7; border-radius: 999px; font-size: 0.8rem",
    "",
    short ".stack" "display: flex; flex-direction: column; gap: 12px",
    short ".toolbar" "display: flex; flex-wrap: wrap; gap: 12px; align-items: center; justify-content: space-between",
    short ".mono" "font-family: \"JetBrains Mono\", \"SFMono-Regular\", \"Menlo\", monospace; font-size: 12px",
    "",
    "@keyframes fadeUp \x7b",
    "  from \x7b opacity: 0; transform: translateY(8px); \x7d",
    "  to \x7b opacity: 1; transform: translateY(0); \x7d",
    "\x7d",
    ""]

/-- Sends a file. A name leads nowhere if it has two dots in it. -/
def sendFile (path : String) : Handler Unit := do
  let name := String.ofList (path.toList.drop "/static/".length)
  if Text.contains name ".." || pathParts name != ["style.css"] then sendError 404 "Not found"
  else
    send 200 (securityHeaders ++ bodyHeaders "text/css; charset=utf-8" styleSheet) styleSheet

end Appwright.Server
