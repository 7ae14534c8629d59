import Appwright.Proofs.Outbound.Address
import Appwright.Proofs.Server.Access

/-!
# Requests that reach their action

An action is declared with a method and a path. A request with that method and path reaches it under
four conditions, and not otherwise (`Reachable`, `Url.IsPlain`). Its method is not `PATCH`, since such
requests are looked up under `PUT`; it is not the path under which the server tells that it is alive;
no action that is declared later has the same method and path; and the path reads as itself where it
stands in an address. The rest of what could stand in the way, files and the administration and rows,
is kept off by the check of the specification.
-/

namespace Appwright

open List String Spec Text

namespace Url

/-! ## Paths in addresses -/

/-- A path that reads as itself in an address: it does not start with two slashes, nothing in it
starts a query or a fragment or is left out, and a slash follows every semicolon. -/
structure IsPlain (path : String) : Prop where
  slash : Text.startsWith path "//" = false
  chars : ∀ c ∈ path.toList, c ∉ ['\t', '\r', '\n', '#', '?']
  semicolons : ∀ front back, path.toList = front ++ ';' :: back → '/' ∈ back

variable (cs : List Char)

theorem takeScheme_slash : takeScheme ('/' :: cs) = ("", '/' :: cs) := by
  have first : (('/' :: cs).takeWhile (· != ':')).head? = some '/' := by
    rw [takeWhile_cons, if_pos (by decide), head?_cons]
  unfold takeScheme
  dsimp only
  rw [first]
  split
  · rename_i c x rest head _
    cases head
    rfl
  · rfl

theorem takeAuthority_slash : (cs.head? ≠ some '/' → takeAuthority ('/' :: cs) = .ok ("", '/' :: cs)) ∧
    ∀ auth rest, takeAuthority ('/' :: cs) = .ok (auth, rest) →
      rest.length ≤ cs.length + 1 ∧ (rest.length = cs.length + 1 → cs.head? ≠ some '/') := by
  unfold takeAuthority
  split
  · rename_i more hsa
    cases hsa
    refine ⟨fun hs => absurd rfl hs, fun auth rest h => ?_⟩
    have hsh : rest.length ≤ more.length := by
      dsimp only at h
      split at h
      · cases h
        exact (dropWhile_sublist _).length_le
      · cases h
    rw [length_cons]
    exact ⟨by omega, fun hsa => by omega⟩
  · rename_i hs
    refine ⟨fun _ => rfl, fun auth rest h => ?_⟩
    cases h
    refine ⟨Nat.le_refl _, fun _ hd => ?_⟩
    obtain ⟨more, rfl⟩ := head?_eq_some_iff.1 hd
    exact hs more rfl

theorem cutAt_of_not_mem {c : Char} {cs : List Char} (h : c ∉ cs) : cutAt c cs = (cs, []) := by
  have all : ∀ x ∈ cs, (x != c) := by
    intro x hx
    rw [bne_iff_ne]
    rintro rfl
    exact h hx
  unfold cutAt
  rw [takeWhile_eq_self_iff.2 all, dropWhile_eq_nil_iff.2 all, drop_nil]

theorem prefix_cutAt (c : Char) (cs : List Char) : (cutAt c cs).1 <+: cs := takeWhile_prefix _

theorem not_mem_of_cutAt {c : Char} {cs : List Char} (h : (cutAt c cs).1 = cs) : c ∉ cs := by
  intro mem
  have all := takeWhile_eq_self_iff.1 h c mem
  simp at all

theorem exists_last_segment (path : List Char) : ∃ pre last, path = pre ++ last ∧
    cutParams path = (pre ++ (cutAt ';' last).1, (cutAt ';' last).2) ∧ '/' ∉ last ∧
      ∀ more back, path = more ++ back → '/' ∉ back → ∃ lead, last = lead ++ back := by
  refine ⟨(path.reverse.dropWhile (· != '/')).reverse, (path.reverse.takeWhile (· != '/')).reverse,
    ?_, ?_, ?_, ?_⟩
  · rw [← List.reverse_append, List.takeWhile_append_dropWhile, List.reverse_reverse]
  · have ht : ∀ {pre last : List Char}, path = pre ++ last →
        path.take (path.length - last.length) = pre := by
      rintro pre last rfl
      rw [List.length_append, Nat.add_sub_cancel, List.take_left]
    unfold cutParams
    dsimp only
    rw [ht]
    rw [← List.reverse_append, List.takeWhile_append_dropWhile, List.reverse_reverse]
  · intro mem
    have ho := mem_takeWhile_imp (mem_reverse.1 mem)
    simp at ho
  · intro more back hp hn
    have all : ∀ c ∈ back.reverse, (c != '/') := by
      intro c hc
      rw [bne_iff_ne]
      rintro rfl
      exact hn (mem_reverse.1 hc)
    rw [hp, reverse_append, takeWhile_append_of_pos all, reverse_append, reverse_reverse]
    exact ⟨_, rfl⟩

theorem prefix_cutParams (path : List Char) : (cutParams path).1 <+: path := by
  obtain ⟨pre, last, hp, cut, -⟩ := exists_last_segment path
  rw [cut]
  conv_rhs => rw [hp]
  exact (prefix_append_right_inj pre).2 (prefix_cutAt ';' last)

/-- Nothing is cut off a path just if a slash follows every semicolon. -/
theorem cutParams_eq_self_iff {path : List Char} : (cutParams path).1 = path ↔
    ∀ pre back, path = pre ++ ';' :: back → '/' ∈ back := by
  obtain ⟨pre, last, hp, cut, hn, hl⟩ := exists_last_segment path
  rw [cut]
  constructor
  · intro hs more back split
    by_contra none
    obtain ⟨lead, tail⟩ := hl more (';' :: back) split (by simpa using none)
    rw [hp] at hs
    exact not_mem_of_cutAt (append_cancel_left hs) (by simp [tail])
  · intro hf
    have hc : ';' ∉ last := by
      intro mem
      obtain ⟨lead, tail, rfl⟩ := append_of_mem mem
      rw [← List.append_assoc] at hp
      exact hn (by simp [hf _ _ hp])
    rw [cutAt_of_not_mem hc]
    exact hp.symm

/-- The path of an address without a scheme, its parameters, its query and its fragment, in what
follows the authority. -/
def ofRest (authority : String) (rest : List Char) : Url :=
  let before := (cutAt '#' rest).1
  let path := (cutAt '?' before).1
  { scheme := ""
    authority
    path := ofList (cutParams path).1
    params := ofList (cutParams path).2
    query := ofList (cutAt '?' before).2
    fragment := ofList (cutAt '#' rest).2 }

theorem parse_slash {text : String} {cs : List Char} (hs : text.toList = '/' :: cs) : parse text = (do
      let taken ← takeAuthority ('/' :: cs.filter counts)
      checkLookalikes taken.1
      return ofRest taken.1 taken.2) := by
  have hv : clean text.toList = '/' :: cs.filter counts := by
    rw [hs]
    exact clean_cons_of_lt cs (by decide)
  unfold clean counts at hv
  unfold parse
  dsimp only
  rw [hv, takeScheme_slash]
  rfl

theorem prefix_path_ofRest (auth : String) (rest : List Char) :
    (ofRest auth rest).path.toList <+: rest := by
  have cut := (prefix_cutParams _).trans ((prefix_cutAt '?' _).trans (prefix_cutAt '#' rest))
  simpa only [ofRest, toList_ofList] using cut

theorem path_ofRest_eq_iff {auth : String} {rest : List Char} : (ofRest auth rest).path.toList = rest ↔
      '#' ∉ rest ∧ '?' ∉ rest ∧ ∀ pre back, rest = pre ++ ';' :: back → '/' ∈ back := by
  simp only [ofRest, toList_ofList]
  constructor
  · intro hw
    -- Each cut leaves at most what it was given, and in the end nothing is missing.
    have ht := congrArg List.length hw
    have first := (prefix_cutAt '#' rest).length_le
    have hs := (prefix_cutAt '?' (cutAt '#' rest).1).length_le
    have hth := (prefix_cutParams (cutAt '?' (cutAt '#' rest).1).1).length_le
    have hn := (prefix_cutAt '#' rest).eq_of_length (by omega)
    rw [hn] at hs hth hw ht
    have hno := (prefix_cutAt '?' rest).eq_of_length (by omega)
    rw [hno] at hw
    exact ⟨not_mem_of_cutAt hn, not_mem_of_cutAt hno, cutParams_eq_self_iff.1 hw⟩
  · rintro ⟨hn, hno, hnoP⟩
    rw [cutAt_of_not_mem hn, cutAt_of_not_mem hno, cutParams_eq_self_iff.2 hnoP]

theorem startsWith_slashes_iff (tail : String) :
    Text.startsWith ("/" ++ tail) "//" = false ↔ tail.toList.head? ≠ some '/' := by
  unfold Text.startsWith
  rw [String.toList_append]
  cases tail.toList with
  | nil => simp
  | cons c cs =>
    have hs : "//".toList.isPrefixOf ("/".toList ++ c :: cs) = ('/' == c) := by
      simp [List.isPrefixOf]
    rw [hs, List.head?_cons, Ne, Option.some.injEq, beq_eq_false_iff_ne]
    exact ⟨Ne.symm, Ne.symm⟩

theorem isPlain_of_parse {path : String} {url : Url} (hst : Text.startsWith path "/")
    (hr : parse path = .ok url) (hsa : url.path = path) : IsPlain path := by
  obtain ⟨tail, rfl⟩ := Text.exists_append_of_startsWith hst
  have hch : ("/" ++ tail).toList = '/' :: tail.toList := toList_append
  rw [parse_slash hch] at hr
  obtain ⟨⟨auth, rest⟩, ht, hr⟩ := of_bind_ok hr
  obtain ⟨_, -, ⟨⟩⟩ := of_bind_ok hr
  have hw : (ofRest auth rest).path.toList = '/' :: tail.toList := (congrArg toList hsa).trans hch
  have hto := congrArg List.length hw
  rw [length_cons] at hto
  have hk := length_filter_le counts tail.toList
  have hp := (prefix_path_ofRest auth rest).length_le
  obtain ⟨hsh, hs⟩ := (takeAuthority_slash _).2 auth rest ht
  have hco : tail.toList.filter counts = tail.toList := filter_sublist.eq_of_length (by omega)
  rw [hco] at ht hs
  have one := hs (by omega)
  cases ((takeAuthority_slash _).1 one).symm.trans ht
  obtain ⟨hn, hno, hnoP⟩ := path_ofRest_eq_iff.1 hw
  refine ⟨(startsWith_slashes_iff tail).2 one, fun c hc => ?_, by rwa [hch]⟩
  rw [hch] at hc
  have hv : counts c := by
    rcases mem_cons.1 hc with rfl | hc
    · decide
    · exact filter_eq_self.1 hco c hc
  simp only [counts, Bool.and_eq_true, bne_iff_ne] at hv
  simp only [mem_cons, not_mem_nil, or_false, not_or]
  refine ⟨hv.1.1, hv.1.2, hv.2, ?_, ?_⟩
  · rintro rfl
    exact hn hc
  · rintro rfl
    exact hno hc

theorem IsPlain.exists_parse {path : String} (hp : IsPlain path) (hst : Text.startsWith path "/") :
    ∃ url, parse path = .ok url ∧ url.path = path ∧ url.query = "" := by
  obtain ⟨tail, rfl⟩ := Text.exists_append_of_startsWith hst
  have hch : ("/" ++ tail).toList = '/' :: tail.toList := toList_append
  obtain ⟨hsl, hp, hs⟩ := hp
  rw [hch] at hp hs
  have hco : tail.toList.filter counts = tail.toList := by
    refine filter_eq_self.2 fun c hc => ?_
    have hv := hp c (mem_cons_of_mem _ hc)
    simp only [mem_cons, not_mem_nil, or_false, not_or] at hv
    simp [counts, hv.1, hv.2.1, hv.2.2.1]
  have hn : '#' ∉ '/' :: tail.toList := fun mem => hp _ mem (by simp)
  have hno : '?' ∉ '/' :: tail.toList := fun mem => hp _ mem (by simp)
  rw [parse_slash hch, hco, (takeAuthority_slash _).1 ((startsWith_slashes_iff tail).1 hsl)]
  refine ⟨ofRest "" ('/' :: tail.toList), rfl, ?_, ?_⟩
  · rw [← toList_inj, hch]
    exact path_ofRest_eq_iff.2 ⟨hn, hno, hs⟩
  · simp only [ofRest, cutAt_of_not_mem hn, cutAt_of_not_mem hno, ofList_nil]

end Url

namespace Server

variable {setup : Setup} {r : Request} {a : Action} {url : Url}

/-! ## Routes -/

structure Reachable (app : App) (a : Action) : Prop where
  method : a.method ≠ "PATCH"
  alive : a.method = "GET" → a.path ≠ "/healthz"
  last : ∃ before after, app.actions = before ++ a :: after ∧
    ∀ b ∈ after, ¬ (b.method = a.method ∧ b.path = a.path)

theorem upper_of_mem_methods {verb : String} (h : verb ∈ methods) : upper verb = verb := by
  have hu : ∀ m ∈ methods, upper m = m := by decide +kernel
  exact hu verb h

section Accepted

variable {spec : Json.Members} (accepted : check spec = .ok setup.app)

include accepted

/-- The action under a method and a path is the last one that was declared with them. -/
theorem routeOf?_eq_some_iff {method path : String} : routeOf? setup method path = some a ↔
    a.method = method ∧ a.path = path ∧ ∃ pre post, setup.app.actions = pre ++ a :: post ∧
      ∀ b ∈ post, ¬ (b.method = method ∧ b.path = path) := by
  have hu : ∀ b ∈ setup.app.actions, upper b.method = b.method := by
    intro b hb
    obtain ⟨raw, hpa⟩ := exists_actionPassed accepted hb
    exact upper_of_mem_methods hpa.method
  unfold routeOf?
  rw [find?_eq_some_iff_append]
  simp only [Bool.and_eq_true, beq_iff_eq, Bool.not_eq_true']
  constructor
  · rintro ⟨⟨hv, hp⟩, front, back, hpar, ho⟩
    have hw : setup.app.actions = back.reverse ++ a :: front.reverse := by
      rw [← reverse_reverse setup.app.actions, hpar]
      simp
    have own := hu a (by simp [hw])
    refine ⟨own.symm.trans hv, hp, back.reverse, front.reverse, hw, fun b hb hs => ?_⟩
    have hot := ho b (mem_reverse.1 hb)
    rw [hu b (by simp [hw, mem_reverse.1 hb]), Bool.and_eq_false_iff] at hot
    simp [hs.1, hs.2] at hot
  · rintro ⟨hv, hp, pre, post, hw, ho⟩
    have own := hu a (by simp [hw])
    refine ⟨⟨own.trans hv, hp⟩, post.reverse, pre.reverse, by simp [hw], fun b hb => ?_⟩
    have mem := mem_reverse.1 hb
    rw [hu b (by simp [hw, mem])]
    simpa using not_and.1 (ho b mem)

theorem Reachable.planOf_eq (hr : Reachable setup.app a) (hd : a ∈ setup.app.actions)
    (hm : r.method = a.method) (hpa : Url.parse r.target = .ok url)
    (path : url.path = a.path) : planOf setup r = planCall setup r url.path url.query a := by
  obtain ⟨raw, hp⟩ := exists_actionPassed accepted hd
  have hro : routeOf? setup a.method url.path = some a := by
    refine (routeOf?_eq_some_iff accepted).2 ⟨rfl, path.symm, ?_⟩
    rw [path]
    exact hr.last
  have hn : Text.startsWith url.path "/static/" = false := by
    obtain ⟨_, hf, -⟩ := of_bind_ok hp.free
    rw [path]
    simpa using eq_true_of_need hf
  have hv := hp.method
  simp only [methods, mem_cons, not_mem_nil, or_false] at hv
  unfold planOf
  rw [hpa, hm]
  rcases hv with hve | hve | hve | hve | hve <;> rw [hve] at hro ⊢
  · show planDelete setup r url = _
    unfold planDelete
    rw [hro]
  · show planGet setup r url = _
    have ha : (url.path == "/healthz") = false := by
      rw [path]
      exact beq_eq_false_iff_ne.2 (hr.alive hve)
    unfold planGet
    rw [ha, hn, hro]
    rfl
  · exact absurd hve hr.method
  · show planPost setup r url = _
    unfold planPost
    rw [hro]
  · show planPut setup r url = _
    unfold planPut
    rw [hro]

theorem reachable_of_planOf (hd : a ∈ setup.app.actions) (hm : r.method = a.method)
    {path : String} {pl : Json} {ps : Params} (h : planOf setup r = .ok (.call a path pl ps)) :
    ∃ url, Url.parse r.target = .ok url ∧ url.path = a.path ∧ Reachable setup.app a := by
  obtain ⟨raw, hp⟩ := exists_actionPassed accepted hd
  have hv := hp.method
  simp only [methods, mem_cons, not_mem_nil, or_false] at hv
  have hc : calledAction? setup r = some a := by
    cases passes_of_planOf h with
    | free hs => cases hs
    | key _ ho | admin _ ho => cases ho
    | call hc => exact hc
  unfold calledAction? at hc
  split at hc
  · cases hc
  next url hpa =>
    rw [hm] at hc
    -- The route that was found names the method and the path of the action.
    have hf : ∀ {verb : String}, routeOf? setup verb url.path = some a →
        a.method = verb ∧ url.path = a.path ∧ ∃ pre post, setup.app.actions = pre ++ a :: post ∧
            ∀ b ∈ post, ¬ (b.method = a.method ∧ b.path = a.path) := by
      intro verb hr
      obtain ⟨rfl, hsa, hl⟩ := (routeOf?_eq_some_iff accepted).1 hr
      rw [← hsa] at hl
      exact ⟨rfl, hsa.symm, hl⟩
    refine ⟨url, hpa, ?_⟩
    rcases hv with verb | verb | verb | verb | verb <;> rw [verb] at hc
    · obtain ⟨-, hsa, hl⟩ := hf hc
      exact ⟨hsa, by simp [verb], by simp [verb], hl⟩
    · simp only at hc
      split at hc
      · cases hc
      next ha =>
        simp only [Bool.or_eq_true, not_or, beq_iff_eq] at ha
        obtain ⟨-, hsa, hl⟩ := hf hc
        exact ⟨hsa, by simp [verb], fun _ => hsa ▸ ha.1, hl⟩
    · obtain ⟨put, -⟩ := hf hc
      rw [verb] at put
      exact absurd put (by decide)
    · obtain ⟨-, hsa, hl⟩ := hf hc
      exact ⟨hsa, by simp [verb], by simp [verb], hl⟩
    · obtain ⟨-, hsa, hl⟩ := hf hc
      exact ⟨hsa, by simp [verb], by simp [verb], hl⟩

omit accepted in
theorem handle_of_planOf {path qy : String} {s : State}
    (hp : planOf setup r = planCall setup r path qy a) (ha : isAllowed r s) :
    handle setup r s = handleAction setup r path qy a (counted r s) := by
  rw [handle_eq_of_isAllowed setup ha, hp, handleAction_eq]

/-- A request with the method and the path of a declared action is handed to that action, if the
action is reachable and the path is plain; if not, the request calls another action or none. A
reachable action is also called by requests whose address has more to it than the path. -/
theorem declared_action_called_iff (declared : a ∈ setup.app.actions)
    (method : r.method = a.method) :
    (Reachable setup.app a → ∀ url s, Url.parse r.target = .ok url → url.path = a.path →
      isAllowed r s = true →
        handle setup r s = handleAction setup r url.path url.query a (counted r s)) ∧
    (r.target = a.path →
      (Reachable setup.app a ∧ Url.IsPlain a.path → ∀ s, isAllowed r s = true →
        handle setup r s = handleAction setup r a.path "" a (counted r s)) ∧
      (¬ (Reachable setup.app a ∧ Url.IsPlain a.path) →
        ∀ path payload params, planOf setup r ≠ .ok (.call a path payload params))) := by
  obtain ⟨raw, passed⟩ := Spec.exists_actionPassed accepted declared
  refine ⟨fun reachable url s parsed path allowed => ?_, fun target => ⟨?_, ?_⟩⟩
  · exact handle_of_planOf (reachable.planOf_eq accepted declared method parsed path) allowed
  · rintro ⟨reachable, plain⟩ s allowed
    obtain ⟨url, parsed, path, query⟩ := plain.exists_parse passed.path
    rw [← target] at parsed
    have plan := reachable.planOf_eq accepted declared method parsed path
    rw [path, query] at plan
    exact handle_of_planOf plan allowed
  · intro unreachable path payload params called
    obtain ⟨url, parsed, same, reachable⟩ := reachable_of_planOf accepted declared method called
    rw [target] at parsed
    exact unreachable ⟨reachable, Url.isPlain_of_parse passed.path parsed same⟩

end Accepted

/-! ## Greetings -/

/-- Two greetings with a path each: one to read, and one to send. -/
def greetingSpec : Json.Members := [
  ("db", .obj [("path", .str ":memory:")]),
  ("api", .obj [("actions", .arr [
    .obj [("name", .str "hello"), ("kind", .str "value"), ("method", .str "get"),
      ("path", .str "/hello"), ("auth", .str "none"), ("value", .obj [("data", .str "Hello")])],
    .obj [("name", .str "touch"), ("kind", .str "value"), ("method", .str "patch"),
      ("auth", .str "none"), ("value", .obj [("data", .str "Touched")])]])])]

def requestFor (method path : String) : Request where
  method := method
  target := path
  headers := []
  body := []

/-- The greeting that is read gets a request for it as soon as the server is started. -/
theorem hello_called : ∃ setup a s, Spec.check greetingSpec = .ok setup.app ∧
    a ∈ setup.app.actions ∧ a.method = "GET" ∧ a.path = "/hello" ∧
    isAllowed (requestFor "GET" "/hello") s = true ∧
    handle setup (requestFor "GET" "/hello") s =
      handleAction setup (requestFor "GET" "/hello") "/hello" "" a
        (counted (requestFor "GET" "/hello") s) := by
  have facts : (serverFor? greetingSpec []).map (fun p =>
      (isAllowed (requestFor "GET" "/hello") p.2,
        p.1.app.actions.map fun a => (a.method, a.path))) =
      some (true, [("GET", "/hello"), ("PATCH", "/api/actions/touch")]) := by
    decide +kernel
  obtain ⟨⟨setup, first⟩, server, held⟩ := Option.map_eq_some_iff.mp facts
  obtain ⟨allowed, held⟩ := Prod.mk.inj held
  obtain ⟨hello, rest, actions, held, tail⟩ := List.map_eq_cons_iff.mp held
  obtain ⟨touch, _, rfl, touched, none⟩ := List.map_eq_cons_iff.mp tail
  obtain rfl := List.map_eq_nil_iff.mp none
  simp only [Prod.mk.injEq] at actions held touched
  have accepted := (accepted_of_serverFor? server).1
  have declared : hello ∈ setup.app.actions := by simp [actions]
  have reachable : Reachable setup.app hello := by
    refine ⟨by simp [held.1], by simp [held.2], [], [touch], actions, fun b hb => ?_⟩
    rw [List.mem_singleton.mp hb, touched.1, held.1]
    simp
  have plain : Url.IsPlain "/hello" := by
    have chars : ("/hello".toList.all fun c => c ∉ ['\t', '\r', '\n', '#', '?']) = true := by
      decide +kernel
    refine ⟨by decide +kernel, fun c hc => of_decide_eq_true (List.all_eq_true.mp chars c hc),
      fun front back parts => ?_⟩
    have semicolon : ';' ∈ "/hello".toList := by simp [parts]
    exact absurd semicolon (by decide +kernel)
  have called := (declared_action_called_iff (r := requestFor "GET" "/hello") accepted declared
    held.1.symm).2 held.2.symm
  rw [held.2] at called
  exact ⟨setup, hello, first, accepted, declared, held.1, held.2, allowed,
    called.1 ⟨reachable, plain⟩ first allowed⟩

/-- The greeting that is sent is not called by a request for it, which is taken for one about a row
of a model. -/
theorem touch_not_found :
    (serverFor? greetingSpec []).map (fun p =>
      (p.1.app.actions.map fun a => (a.method, a.path),
        isAllowed (requestFor "PATCH" "/api/actions/touch") p.2,
        (ending (handle p.1 (requestFor "PATCH" "/api/actions/touch") p.2)).responses.map
          fun response => (response.status, response.body))) =
      some ([("GET", "/hello"), ("PATCH", "/api/actions/touch")], true,
        [(404, "\x7b\"error\": \"Unknown model: actions\"\x7d")]) := by
  decide +kernel

end Server

end Appwright
