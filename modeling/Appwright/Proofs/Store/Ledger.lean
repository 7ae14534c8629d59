import Appwright.Proofs.Store.Writing

/-!
# The store as a ledger

A ledger has, for each model, the row under each id and the ids that were ever given. A call on it is
refused for a stated reason and then changes nothing; else it adds one row under an id above all that
were given, writes over the given fields of one row, or removes one row (`Ledger.Step`).

The store does the same with tables of cells. Each table holds the rows of its model (`Holds`), one
call keeps that and is one step of the ledger (`exists_step`), and so calls one after another are a
run of the ledger (`serve_refines_ledger`). That takes tables that models do not share: a model whose
name differs from another's in letter case only finds the rows of that one.
-/

namespace Appwright.Store

open List Spec Value Option Function

/-! ## Calls and answers -/

inductive Call where
  | insert (m : Model) (data : Json.Members)
  | update (m : Model) (id : Int) (data : Json.Members)
  | delete (m : Model) (id : Int)

inductive Answer where
  | row (found : Option Json.Members)
  | removed (found : Bool)
  | refused (e : Error)

namespace Call

def model : Call → Model
  | insert m _ | update m _ _ | delete m _ => m

def action : Call → Action Answer
  | insert m data => (fun row => .row (some row)) <$> Store.insert m data
  | update m id data => .row <$> Store.update m id data
  | delete m id => .removed <$> Store.delete m id

def run (c : Call) (s : Store) : Answer × Store :=
  match c.action s with
  | .ok answer s' => (answer, s')
  | .error e s' => (.refused e, s')

end Call

variable {c : Call} {s s' : Store}

theorem Call.run_of_ok {a : Answer} (h : c.action s = .ok a s') :
    c.run s = (a, s') := by
  rw [run, h]

theorem Call.run_of_error {e : Error} (h : c.action s = .error e s') :
    c.run s = (.refused e, s') := by
  rw [run, h]

def serve : List Call → Store → List Answer × Store
  | [], s => ([], s)
  | c :: cs, s =>
    let rest := serve cs (c.run s).2
    ((c.run s).1 :: rest.1, rest.2)

/-! ## The ledger -/

/-- The rows of each model by their ids, each as a value for every field, and the ids that were
given to rows of the model, the last one first. -/
structure Ledger where
  rows : Model → Int → Option (String → Json) := fun _ _ => none
  issued : Model → List Int := fun _ => []

def objectOf (m : Model) (id : Int) (row : String → Json) : Json.Members :=
  (idColumn, .int id) :: m.fields.names.map fun f => (f, row f)

namespace Ledger

def put (L : Ledger) (m : Model) (id : Int) (row : Option (String → Json)) : Ledger :=
  { L with rows := Function.update L.rows m (Function.update (L.rows m) id row) }

def issue (L : Ledger) (m : Model) (id : Int) : Ledger :=
  { L with issued := Function.update L.issued m (id :: L.issued m) }

/-- A call has to be refused. A row is added if it has a field, each value is one that its field
keeps, and there is an id left; a row is changed and removed if its id is one that rows can have. -/
def Refuses (L : Ledger) : Call → Prop
  | .insert m data => Unrelated m data ∨ Unkeepable m data ∨ maxId ∈ L.issued m
  | .update m id data => Unkeepable m data ∨ fits id = false
  | .delete _ id => fits id = false

inductive Step (L : Ledger) : Call → Answer → Ledger → Prop where
  | refused {c : Call} {e : Error} (refuses : L.Refuses c) : Step L c (.refused e) L
  | inserted {m : Model} {data : Json.Members} {id : Int}
      (allowed : ¬ L.Refuses (.insert m data)) (new : ∀ i ∈ L.issued m, i < id)
      (free : L.rows m id = none) :
      Step L (.insert m data) (.row (some (objectOf m id (written m data fun _ => .null))))
        ((L.put m id (some (written m data fun _ => .null))).issue m id)
  | missing {m : Model} {data : Json.Members} {id : Int}
      (allowed : ¬ L.Refuses (.update m id data)) (absent : L.rows m id = none) :
      Step L (.update m id data) (.row none) L
  | updated {m : Model} {data : Json.Members} {id : Int} {old : String → Json}
      (allowed : ¬ L.Refuses (.update m id data)) (found : L.rows m id = some old) :
      Step L (.update m id data) (.row (some (objectOf m id (written m data old))))
        (L.put m id (some (written m data old)))
  | deleted {m : Model} {id : Int} (allowed : ¬ L.Refuses (.delete m id)) :
      Step L (.delete m id) (.removed (L.rows m id).isSome) (L.put m id none)

inductive Run : Ledger → List Call → List Answer → Ledger → Prop where
  | nil {L : Ledger} : Run L [] [] L
  | cons {L L' L'' : Ledger} {c : Call} {a : Answer} {calls : List Call} {answers : List Answer}
      (first : L.Step c a L') (rest : Run L' calls answers L'') :
      Run L (c :: calls) (a :: answers) L''

end Ledger

/-! ## Tables that hold the rows of a ledger -/

structure Holds (L : Ledger) (m : Model) (t : Table) : Prop where
  houses : Houses m t
  ordered : t.rows.Pairwise fun r q => r.id < q.id
  cells : ∀ id, (t.row? id).map (fun r => r.cells.map toJson) =
    (L.rows m id).map fun row => m.fields.names.map row
  ids : ∀ r ∈ t.rows, r.id ≤ t.lastId
  last : t.lastId = (L.issued m).headD 0
  issued : ∀ i ∈ L.issued m, i ≤ t.lastId
  bound : t.lastId ≤ maxId

theorem Houses.object_eq {m : Model} {t : Table} (houses : Houses m t) {r : Row}
    {row : String → Json} (hc : r.cells.map toJson = m.fields.names.map row) :
    t.object r = objectOf m r.id row := by
  have hp : (t.columns.zip r.cells).map (fun e => (e.1.name, e.2.toJson)) =
      m.fields.names.zip (m.fields.names.map row) := by
    rw [← hc, ← houses.names, zip_map]
    rfl
  rw [Table.object, objectOf, hp, map_prod_left_eq_zip]

section Operations

variable {s : Store} {L : Ledger} {m : Model} {t : Table} (held : Holds L m t) (id : Int)

include held

theorem Holds.rows_eq_none_iff : L.rows m id = none ↔ t.row? id = none := by
  rw [← map_eq_none_iff (f := fun row => m.fields.names.map row), ← held.cells id,
    map_eq_none_iff]

theorem Holds.row?_object : (t.row? id).map t.object = (L.rows m id).map (objectOf m id) := by
  have hc := held.cells id
  cases hf : t.row? id with
  | none => rw [(held.rows_eq_none_iff id).2 hf, map_none, map_none]
  | some r =>
    rw [hf, map_some, eq_comm, map_eq_some_iff] at hc
    obtain ⟨row, here, hc⟩ := hc
    have own : r.id = id := by simpa using find?_some hf
    rw [here, map_some, map_some, held.houses.object_eq hc.symm, own]

omit id in
theorem Holds.exhausted_iff : maxId ∈ L.issued m ↔ maxId ≤ t.lastId := by
  have hb := held.bound
  constructor
  · exact held.issued maxId
  · intro hf
    have hl := held.last
    cases hg : L.issued m with
    | nil =>
      rw [hg, headD_nil] at hl
      have hp : (0 : Int) < maxId := by decide
      omega
    | cons i rest =>
      rw [hg, headD_cons] at hl
      have hs : i = maxId := by omega
      rw [hs]
      exact mem_cons_self

theorem get?_eq (hf : s.table? m.name = some t) : get? m id s =
    if fits id then .ok ((L.rows m id).map (objectOf m id)) s else .error .tooLarge s := by
  unfold get?
  rw [bind_of_ok (tableOf_eq_ok hf), ← held.row?_object id, bind_int]
  cases fits id <;> rfl

end Operations

/-! ## One table after a call -/

namespace Ledger

variable (L : Ledger) (m : Model) (id : Int) (row : Option (String → Json)) {n : Model}

@[simp] theorem rows_put_self : (L.put m id row).rows m = Function.update (L.rows m) id row :=
  update_self ..

@[simp] theorem rows_put_of_ne (ho : n ≠ m) : (L.put m id row).rows n = L.rows n :=
  update_of_ne ho ..

theorem put_self : L.put m id (L.rows m id) = L := by
  simp [put]

@[simp] theorem issued_put (n : Model) : (L.put m id row).issued n = L.issued n := rfl

@[simp] theorem rows_issue (n : Model) : (L.issue m id).rows n = L.rows n := rfl

@[simp] theorem issued_issue_self : (L.issue m id).issued m = id :: L.issued m := update_self ..

@[simp] theorem issued_issue_of_ne (ho : n ≠ m) : (L.issue m id).issued n = L.issued n :=
  update_of_ne ho ..

end Ledger

namespace Holds

variable {L : Ledger} {m : Model} {t : Table} (held : Holds L m t) {fs : String → Json}

include held

theorem insert {row : Row} (hla : row.id = t.lastId + 1)
    (hc : row.cells.map toJson = m.fields.names.map fs) (left : t.lastId < maxId) :
    Holds ((L.put m row.id (some fs)).issue m row.id) m
      { t with rows := place row t.rows, lastId := max t.lastId row.id } := by
  have hl : max t.lastId row.id = row.id := Int.max_eq_right (by omega)
  have new : ∀ r ∈ t.rows, r.id ≠ row.id := by
    intro r hr
    have := held.ids r hr
    omega
  rw [hl]
  refine ⟨⟨held.houses.name, held.houses.columns⟩, pairwise_place held.ordered new, fun id => ?_,
    fun r hr => ?_, by simp, fun i hi => ?_, by dsimp only; omega⟩
  · have hb := held.cells id
    have hp : Table.row? id { t with rows := place row t.rows, lastId := row.id } =
        if row.id = id then some row else t.row? id := find?_place new id
    rw [hp, Ledger.rows_issue, Ledger.rows_put_self]
    by_cases hs : row.id = id
    · subst hs
      simp [hc]
    · rw [if_neg hs, hb, update_of_ne (Ne.symm hs)]
  · rcases mem_place.1 hr with rfl | hr
    · exact Int.le_refl _
    · have := held.ids r hr
      dsimp only
      omega
  · rw [Ledger.issued_issue_self, Ledger.issued_put] at hi
    rcases mem_cons.1 hi with rfl | hi
    · exact Int.le_refl _
    · have := held.issued i hi
      dsimp only
      omega

theorem update {id : Int} {old : Row} {cs : List Value} (hp : t.row? id = some old)
    (ha : cs.map toJson = m.fields.names.map fs) : Holds (L.put m id (some fs)) m
      { t with rows := place ⟨id, cs⟩ (t.rows.filter fun r => r.id != id) } := by
  have new : ∀ r ∈ t.rows.filter fun r => r.id != id, r.id ≠ id := by
    intro r hr
    simpa using (mem_filter.1 hr).2
  refine ⟨⟨held.houses.name, held.houses.columns⟩, pairwise_place (held.ordered.filter _) new,
    fun k => ?_, fun r hr => ?_, held.last, held.issued, held.bound⟩
  · have hpl : Table.row? k { t with rows := place ⟨id, cs⟩ (t.rows.filter fun r => r.id != id) } =
        if id = k then some ⟨id, cs⟩ else t.row? k := by
      refine (find?_place new k).trans ?_
      by_cases hs : id = k
      · simp [hs]
      · rw [if_neg hs, if_neg hs, find?_filter_ne, if_neg (Ne.symm hs)]
        rfl
    rw [hpl, Ledger.rows_put_self]
    by_cases hs : id = k
    · subst hs
      simp [ha]
    · rw [if_neg hs, held.cells k, update_of_ne (Ne.symm hs)]
  · rcases mem_place.1 hr with rfl | hr
    · have own : old.id = id := by simpa using find?_some hp
      have hk := held.ids old (mem_of_find?_eq_some hp)
      rwa [own] at hk
    · exact held.ids r (mem_of_mem_filter hr)

theorem delete (id : Int) : Holds (L.put m id none) m
    { t with rows := t.rows.filter fun r => r.id != id } := by
  refine ⟨⟨held.houses.name, held.houses.columns⟩, held.ordered.filter _, fun k => ?_,
    fun r hr => held.ids r (mem_of_mem_filter hr), held.last, held.issued, held.bound⟩
  have hb := held.cells k
  have hre : Table.row? k { t with rows := t.rows.filter fun r => r.id != id } =
      if k = id then none else t.row? k := find?_filter_ne id k
  rw [hre, Ledger.rows_put_self]
  by_cases hs : k = id
  · subst hs
    simp
  · rw [if_neg hs, hb, update_of_ne hs]

end Holds

/-! ## The store after calls -/

def Represents (models : List Model) (L : Ledger) (s : Store) : Prop :=
  Forall₂ (Holds L) models s.tables

variable {models : List Model} {s : Store} {L L' : Ledger} {m : Model} {t : Table}

section Apart

variable (hap : models.Pairwise Apart)

include hap

theorem Represents.exists_table (hrep : Represents models L s) (hm : m ∈ models) :
    ∃ t, s.table? m.name = some t ∧ Holds L m t :=
  exists_table?_of_forall₂ (fun _ _ held => held.houses.name) hap hrep hm

theorem Represents.setTable (hrep : Represents models L s) (hm : m ∈ models)
    (held : Holds L' m t) (ho : ∀ n, n ≠ m → L'.rows n = L.rows n ∧ L'.issued n = L.issued n) :
    Represents models L' (setTable t s) := by
  have hs : Std.Symm Apart := ⟨fun n m hap => (sameName_comm _ _).trans hap⟩
  unfold Represents Store.setTable
  rw [forall₂_map_right_iff]
  refine ((forall₂_and_left (p := (· ∈ models)) _ _).2 ⟨fun _ hn => hn, hrep⟩).imp fun n u => ?_
  rintro ⟨hn, here⟩
  rw [here.houses.name, held.houses.name]
  by_cases hsa : n = m
  · subst hsa
    rw [sameName_refl, if_pos rfl]
    exact held
  · have hd : sameName (nameOf n.name) (nameOf m.name) = false := hap.forall hn hm hsa
    obtain ⟨hr, hi⟩ := ho n hsa
    rw [hd, if_neg (by simp)]
    exact ⟨here.houses, here.ordered, by rw [hr]; exact here.cells, here.ids,
      by rw [hi]; exact here.last, by rw [hi]; exact here.issued, here.bound⟩

variable (hde : ∀ m ∈ models, Declarable m) (hrep : Represents models L s)
  {data : Json.Members} {id : Int}

include hde hrep

theorem exists_step_insert (hm : m ∈ models) :
    ∃ L', L.Step (.insert m data) ((Call.insert m data).run s).1 L' ∧
      Represents models L' ((Call.insert m data).run s).2 := by
  obtain ⟨t, hf, held⟩ := hrep.exists_table hap hm
  have hre : L.Refuses (.insert m data) ↔ Unrelated m data ∨ Unkeepable m data ∨ maxId ≤ t.lastId :=
    or_congr_right (or_congr_right held.exhausted_iff)
  rcases insert_cases (hde m hm) held.houses hf held.ids with
    ⟨href, e, run⟩ | ⟨ha, row, hl, hc, run⟩
  · rw [Call.run_of_error (map_eq_error run)]
    exact ⟨L, .refused (hre.2 href), hrep⟩
  · have left : t.lastId < maxId := by
      have := fun hfu => ha (.inr (.inr hfu))
      omega
    have hfr : L.rows m row.id = none := by
      refine (held.rows_eq_none_iff row.id).2 (find?_eq_none.2 fun r hr => ?_)
      have := held.ids r hr
      simp only [beq_iff_eq]
      omega
    have new : ∀ i ∈ L.issued m, i < row.id := by
      intro i hi
      have := held.issued i hi
      omega
    rw [Call.run_of_ok (map_eq_ok run), held.houses.object_eq hc]
    refine ⟨_, .inserted (hre.not.2 ha) new hfr, ?_⟩
    exact hrep.setTable hap hm (held.insert hl hc left) fun n ho => by simp [ho]

theorem exists_step_update (hm : m ∈ models) :
    ∃ L', L.Step (.update m id data) ((Call.update m id data).run s).1 L' ∧
      Represents models L' ((Call.update m id data).run s).2 := by
  obtain ⟨t, hfo, held⟩ := hrep.exists_table hap hm
  by_cases hu : Unrelated m data
  · -- Nothing is written, and the row is looked up.
    obtain ⟨same, hs⟩ := update_of_unrelated hu id
    have run := get?_eq held id hfo
    rw [← same] at run
    cases fits : fits id with
    | false =>
      rw [fits, if_neg (by simp)] at run
      rw [Call.run_of_error (map_eq_error run)]
      exact ⟨L, .refused (.inr fits), hrep⟩
    | true =>
      rw [fits, if_pos rfl] at run
      have ha : ¬ L.Refuses (.update m id data) := by
        rintro (⟨f, hf, v, hv, -⟩ | hun)
        · have hab := hu f.1 (mem_map_of_mem hf)
          rw [Entries.has, hv] at hab
          cases hab
        · cases fits.symm.trans hun
      rw [Call.run_of_ok (map_eq_ok run)]
      cases here : L.rows m id with
      | none => exact ⟨L, .missing ha here, hrep⟩
      | some old =>
        have step := Ledger.Step.updated ha here
        rw [hs, ← here, L.put_self] at step
        exact ⟨L, step, hrep⟩
  · rcases update_cases (hde m hm) held.houses hfo hu id with
      ⟨hr, e, run⟩ | ⟨ha, ⟨hab, run⟩ | ⟨old, cs, hp, haf, run⟩⟩
    · rw [Call.run_of_error (map_eq_error run)]
      exact ⟨L, .refused hr, hrep⟩
    · rw [Call.run_of_ok (map_eq_ok run)]
      exact ⟨L, .missing ha ((held.rows_eq_none_iff id).2 hab), hrep⟩
    · have hb := held.cells id
      rw [hp, map_some, eq_comm, map_eq_some_iff] at hb
      obtain ⟨row, here, hb⟩ := hb
      have hr' := hrep.setTable hap hm (held.update hp (haf row hb.symm)) fun n ho => by simp [ho]
      -- The row is looked up again after it was written.
      obtain ⟨u, hf', held'⟩ := hr'.exists_table hap hm
      have fits : fits id := by simpa using fun hun => ha (.inr hun)
      rw [get?_eq held' id hf', fits, if_pos rfl, Ledger.rows_put_self, update_self] at run
      rw [Call.run_of_ok (map_eq_ok run)]
      exact ⟨_, .updated ha here, hr'⟩

omit hde in
theorem exists_step_delete (hm : m ∈ models) : ∃ L', L.Step (.delete m id) ((Call.delete m id).run s).1 L' ∧
      Represents models L' ((Call.delete m id).run s).2 := by
  obtain ⟨t, hf, held⟩ := hrep.exists_table hap hm
  rcases delete_cases hf id with ⟨hu, e, run⟩ | ⟨hfi, run⟩
  · rw [Call.run_of_error (map_eq_error run)]
    exact ⟨L, .refused hu, hrep⟩
  · have hp : (t.row? id).isSome = (L.rows m id).isSome := by
      simpa using congrArg isSome (held.cells id)
    rw [Call.run_of_ok (map_eq_ok run), hp]
    refine ⟨_, .deleted fun hu => ?_, ?_⟩
    · cases hfi.symm.trans hu
    · exact hrep.setTable hap hm (held.delete id) fun n ho => by simp [ho]

theorem exists_step (c : Call) (hk : c.model ∈ models) :
    ∃ L', L.Step c (c.run s).1 L' ∧ Represents models L' (c.run s).2 := by
  cases c with
  | insert m data => exact exists_step_insert hap hde hrep hk
  | update m id data => exact exists_step_update hap hde hrep hk
  | delete m id => exact exists_step_delete hap hrep hk

theorem exists_run (calls : List Call) (hk : ∀ c ∈ calls, c.model ∈ models) :
    ∃ L', Ledger.Run L calls (serve calls s).1 L' ∧ Represents models L' (serve calls s).2 := by
  induction calls generalizing L s with
  | nil => exact ⟨L, .nil, hrep⟩
  | cons c calls ih =>
    obtain ⟨here, hk⟩ := forall_mem_cons.1 hk
    obtain ⟨L', hs, hrep⟩ := exists_step hap hde hrep c here
    obtain ⟨L'', run, hrep⟩ := ih hrep hk
    exact ⟨L'', .cons hs run, hrep⟩

end Apart

theorem represents_of_fresh (hea : Forall₂ Fresh models s.tables) : Represents models {} s := by
  refine hea.imp fun m t hf => ?_
  have he (id : Int) : t.row? id = none := by
    rw [Table.row?, hf.rows]
    rfl
  refine ⟨hf.toHouses, ?_, fun id => by rw [he]; rfl, ?_, hf.lastId, ?_, ?_⟩
  · rw [hf.rows]
    exact .nil
  · rw [hf.rows]
    simp
  · intro i hi
    cases hi
  · rw [hf.lastId]
    decide

/-- Take models whose tables were made, and no two of which have one name up to letter case. Whatever
calls are made on them, the answers and the rows are those of a run of the ledger: every row that is
looked up is the one in the ledger, and each table has the ids of its rows in order and no others. -/
theorem serve_refines_ledger {first : Store} (made : ensure models {} = .ok () first)
    (apart : models.Pairwise Apart) (calls : List Call) (known : ∀ c ∈ calls, c.model ∈ models) :
    ∃ L, Ledger.Run {} calls (serve calls first).1 L ∧ ∀ m ∈ models,
      (∀ id, get? m id (serve calls first).2 =
        if Value.fits id then .ok ((L.rows m id).map (objectOf m id)) (serve calls first).2
        else .error .tooLarge (serve calls first).2) ∧
      ∃ t, (serve calls first).2.table? m.name = some t ∧
        (t.rows.map Row.id).Pairwise (· < ·) ∧
        ∀ id, id ∈ t.rows.map Row.id ↔ (L.rows m id).isSome := by
  obtain ⟨declarable, ts, each, rfl⟩ := (ensure_eq_ok_iff (fun _ _ => rfl) apart).mp made
  obtain ⟨L, run, represents⟩ := exists_run apart declarable (represents_of_fresh each) calls known
  refine ⟨L, run, fun m hm => ?_⟩
  obtain ⟨t, found, held⟩ := represents.exists_table apart hm
  refine ⟨fun id => get?_eq held id found, t, found, List.pairwise_map.mpr held.ordered,
    fun id => ?_⟩
  rw [Option.isSome_iff_ne_none, (held.rows_eq_none_iff id).ne, ← Option.isSome_iff_ne_none,
    Table.row?, List.find?_isSome]
  simp

/-! ## Notes -/

def note : Model where
  name := "Note"
  fields := [("text", .text), ("stars", .int)]

def memo : Model where
  name := "Memo"
  fields := [("text", .text)]

def shout : Model where
  name := "NOTE"
  fields := [("text", .text), ("stars", .int)]

/-- A note is added and removed. Of the notes that follow, one has no number of stars that is one. -/
def noteCalls : List Call := [
  .insert note [("text", .str "one")],
  .delete note 1,
  .insert note [("stars", .str "many")],
  .insert note [("stars", .str " 2 ")],
  .update note 2 [("text", .str "two"), ("color", .null)]]

def storeFor? (models : List Model) : Option Store :=
  match ensure models {} with
  | .ok _ s => some s
  | .error _ _ => none

theorem ensure_of_storeFor? (h : storeFor? models = some s) : ensure models {} = .ok () s := by
  unfold storeFor? at h
  split at h
  · rename_i hm
    cases h
    exact hm
  · cases h

/-- The note that stays has an id of its own. -/
theorem notes_refine_ledger : ∃ first L, ensure [note, memo] {} = .ok () first ∧
    Ledger.Run {} noteCalls (serve noteCalls first).1 L ∧
    (L.rows note 1).isSome = false ∧ (L.rows note 2).isSome = true := by
  have facts : (storeFor? [note, memo]).map (fun first =>
      ((serve noteCalls first).2.table? note.name).map fun t => t.rows.map Row.id) =
        some (some [2]) := by
    decide +kernel
  obtain ⟨first, made, rows⟩ := Option.map_eq_some_iff.mp facts
  obtain ⟨L, run, each⟩ := serve_refines_ledger (ensure_of_storeFor? made)
    (by decide +kernel) noteCalls (by simp [noteCalls, Call.model])
  obtain ⟨-, t, found, -, ids⟩ := each note (by simp)
  rw [found, Option.map_some, Option.some.injEq] at rows
  rw [rows] at ids
  refine ⟨first, L, ensure_of_storeFor? made, run, ?_, (ids 2).mp (by simp)⟩
  simpa using (ids 1).not

def finds (m : Model) (id : Int) (s : Store) : Bool :=
  match get? m id s with
  | .ok found _ => found.isSome
  | .error _ _ => false

/-- A note that is added under a name in other letters is found among the notes, where none was
added. -/
theorem shout_found_among_notes : (storeFor? [note, shout]).map (fun first =>
    (finds note 1 first,
      finds note 1 ((Call.insert shout [("text", .str "one")]).run first).2)) =
      some (false, true) := by
  decide +kernel

end Appwright.Store
