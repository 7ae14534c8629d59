import Appwright.Entries
import Appwright.Url.Basic

/-!
# Which services may be called

Only addresses with a scheme and a host are called, only by `http` or `https`, plain `http` only on
this machine, and only hosts that the environment allows. A star in the environment allows all.
-/

namespace Appwright.Outbound

abbrev Environment := Entries String

inductive Refusal where
  | incomplete
  | scheme
  | insecure
  | host
  | url (cause : Url.Error)
deriving DecidableEq, Repr

def Refusal.message : Refusal → String
  | incomplete => "Outbound URL must include scheme and host"
  | scheme => "Outbound URL scheme must be http or https"
  | insecure => "Outbound http is only allowed for localhost"
  | host => "Outbound host not allowed. " ++
      "Set VIBEWEB_OUTBOUND_ALLOW_HOSTS='host1,host2' (or '*') to permit it."
  | url cause => cause.message

def localHosts : List String :=
  ["127.0.0.1", "localhost"]

/-- The host of the language model's service, if the environment names one. -/
def serviceHost (env : Environment) : Except Url.Error (List String) :=
  match env.get? "VIBEWEB_AI_BASE_URL" with
  | none | some "" => .ok []
  | some base => (Url.parse base).map fun u => u.host?.toList

def allowedHosts (env : Environment) : Except Url.Error (Option (List String)) := do
  let raw := Text.trim ((env.get? "VIBEWEB_OUTBOUND_ALLOW_HOSTS").getD "")
  if raw == "*" then return none
  let named := ((Text.splitChar ',' raw).map Text.trim).filter fun h => !h.isEmpty
  let service ← serviceHost env
  return some (localHosts ++ named ++ service)

def checkUrl (env : Environment) (address : String) : Except Refusal Unit := do
  let u ← (Url.parse address).mapError Refusal.url
  if u.scheme.isEmpty || u.authority.isEmpty then throw .incomplete
  if u.scheme != "https" && u.scheme != "http" then throw .scheme
  if u.scheme == "http" && !(localHosts.map some).contains u.host? then throw .insecure
  match ← (allowedHosts env).mapError Refusal.url with
  | none => return ()
  | some hosts => if hosts.contains (u.host?.getD "") then return () else throw .host

end Appwright.Outbound
