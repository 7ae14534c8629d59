import Appwright.Proofs.Run
import Appwright.Store.Query

/-!
# Reading the store

Looking up, listing and counting rows leave the store as it is, whether they succeed or fail. They
fail less often than they might: a row cannot be looked up only if its model has no table or the
store cannot hold its id (`Unsearchable`), all rows of a model can be listed as soon as it has a
table, and where rows could be listed they can be counted.
-/

namespace Appwright.Store

open Spec List

variable {α : Type} {s s' : Store} {m : Model} {id : Int} {res : Except Error α} {t : Table}

/-! ## Reading changes nothing -/

theorem still_tableOf (m : Model) : Still (tableOf m) := by
  refine keeps_get.bind fun s => ?_
  cases s.table? m.name with
  | some t => exact keeps_pure _
  | none => exact keeps_throw _

theorem still_get? (m : Model) (id : Int) : Still (get? m id) :=
  (still_tableOf m).bind fun _ => (keeps_attempt _ _).yields

theorem still_list (m : Model) (cs : List Clause) (ord : Order) (lim off : Int) :
    Still (list m cs ord lim off) := by
  refine (still_tableOf m).bind fun t => (keeps_attempt _ _).bind fun _ => ?_
  exact (keeps_attempt _ _).bind fun _ => (keeps_attempt _ _).yields

theorem still_count (m : Model) (cs : List Clause) : Still (count m cs) := by
  refine (still_tableOf m).bind fun t => (keeps_attempt _ _).bind fun _ => ?_
  exact (keeps_attempt _ _).bind fun _ => (keeps_attempt _ _).yields

/-! ## Tables and checks -/

theorem tableOf_eq_ok (hf : s.table? m.name = some t) : tableOf m s = .ok t s := by
  unfold tableOf
  rw [get_bind, hf]
  rfl

theorem tableOf_eq_error (hl : s.table? m.name = none) :
    tableOf m s = .error (.noTable (nameOf m.name)) s := by
  unfold tableOf
  rw [get_bind, hl]
  rfl

theorem table?_of_tableOf (h : tableOf m s = .ok t s') : s.table? m.name = some t := by
  cases hf : s.table? m.name with
  | some u =>
    cases (tableOf_eq_ok hf).symm.trans h
    rfl
  | none => cases (tableOf_eq_error hf).symm.trans h

theorem fails_tableOf_iff : Fails (tableOf m) s ↔ s.table? m.name = none := by
  constructor
  · rintro ⟨e, s', hf⟩
    cases hfo : s.table? m.name with
    | some t => cases (tableOf_eq_ok hfo).symm.trans hf
    | none => rfl
  · intro hl
    exact ⟨_, _, tableOf_eq_error hl⟩

theorem bind_int (pos : Nat) (id : Int) : bind pos (.int id) =
    if Value.fits id then .ok (.int id) else .error .tooLarge := rfl

theorem exists_bind_int_error_iff (pos : Nat) :
    (∃ e, bind pos (.int id) = .error e) ↔ Value.fits id = false := by
  rw [bind_int]
  cases Value.fits id <;> simp

/-! ## Looking up a row -/

/-- No row with an id can be looked up: the model has no table, or the store cannot hold the id. -/
def Unsearchable (m : Model) (id : Int) (s : Store) : Prop :=
  s.table? m.name = none ∨ Value.fits id = false

def rowAt? (m : Model) (id : Int) (s : Store) : Option Json.Members :=
  (s.table? m.name).bind fun t => (t.row? id).map t.object

theorem fails_get?_iff : Fails (get? m id) s ↔ Unsearchable m id s := by
  unfold get? Unsearchable
  rw [← fails_tableOf_iff, ← exists_bind_int_error_iff 1]
  refine fails_bind_iff_or fun t s' _ => ?_
  rw [fails_bind_iff_left fun _ _ _ => not_fails_pure _ _, fails_attempt_iff]

theorem get?_eq_ok {found : Option Json.Members} (h : get? m id s = .ok found s') :
    found = rowAt? m id s := by
  obtain ⟨t, _, ht, h⟩ := bind_eq_ok h
  obtain ⟨_, _, -, ⟨⟩⟩ := bind_eq_ok h
  rw [rowAt?, table?_of_tableOf ht]
  rfl

theorem fails_delete_iff : Fails (delete m id) s ↔ Unsearchable m id s := by
  unfold delete Unsearchable
  rw [← fails_tableOf_iff, ← exists_bind_int_error_iff 1]
  refine fails_bind_iff_or fun t s' _ => ?_
  rw [fails_bind_iff_left (fun _ _ _ => ?_), fails_attempt_iff]
  rintro ⟨e, s'', h⟩
  cases h

theorem delete_eq_ok {removed : Bool} (h : delete m id s = .ok removed s') :
    removed = (rowAt? m id s).isSome := by
  obtain ⟨t, _, ht, h⟩ := bind_eq_ok h
  obtain ⟨_, _, -, ⟨⟩⟩ := bind_eq_ok h
  rw [rowAt?, table?_of_tableOf ht]
  simp

/-! ## Listing and counting -/

@[simp] theorem parameters_listStatement (m : Model) (cs : List Clause) (ord : Order)
    (lim off : Int) : (listStatement m cs ord lim off).parameters =
      cs.flatMap Clause.parameters ++ [.int lim, .int off] := rfl

@[simp] theorem parameters_countStatement (m : Model) (cs : List Clause) :
    (countStatement m cs).parameters = cs.flatMap Clause.parameters := rfl

theorem select_eq_filter {t : Table} {cs : List Clause} {p : Row → Bool}
    (he : ∀ r, satisfies t r cs = .ok (p r)) : select t cs = .ok (t.rows.filter p) := by
  have all (rows kept : List Row) : rows.filterAuxM (fun r => satisfies t r cs) kept =
      .ok ((rows.filter p).reverse ++ kept) := by
    induction rows generalizing kept with
    | nil => rfl
    | cons r rows ih =>
      change (satisfies t r cs >>= fun b => rows.filterAuxM _ (cond b (r :: kept) kept)) = _
      rw [he]
      cases hk : p r
      · rw [filter_cons_of_neg (by simp [hk])]
        exact ih kept
      · rw [filter_cons_of_pos hk, reverse_cons, append_assoc]
        exact ih (r :: kept)
  unfold select filterM
  rw [all]
  show Except.ok ((t.rows.filter p).reverse ++ []).reverse = _
  rw [append_nil, reverse_reverse]

theorem select_nil (t : Table) : select t [] = .ok t.rows := by
  rw [select_eq_filter (p := fun _ => true) fun _ => rfl, filter_true]

theorem fails_list_nil_iff {lim off : Int} {descending : Bool}
    (hlimit : Value.fits lim) (hh : Value.fits off) :
    Fails (list m [] { descending } lim off) s ↔ s.table? m.name = none := by
  rw [← fails_tableOf_iff]
  refine fails_bind_iff_left fun t s' _ => ?_
  have hs : sameName idColumn (nameOf idColumn) := by decide +kernel
  have hc : checkColumns t (clauseFields [] ++ [idColumn]) = .ok () := by
    simp [checkColumns, clauseFields, Table.hasColumn, hs]
  have hb : bindAll 1 (listStatement m [] { descending } lim off).parameters =
      .ok [.int lim, .int off] := by
    simp [bindAll, bind, hlimit, hh]
    rfl
  rw [hc, hb, select_nil]
  exact not_fails_pure _ _

theorem fails_count_nil_iff : Fails (count m []) s ↔ s.table? m.name = none := by
  rw [← fails_tableOf_iff]
  refine fails_bind_iff_left fun t s' _ => ?_
  rw [select_nil]
  exact not_fails_pure _ _

theorem checkColumns_of_append {fs more : List String}
    (h : checkColumns t (fs ++ more) = .ok ()) : checkColumns t fs = .ok () := by
  unfold checkColumns at h ⊢
  rw [find?_append] at h
  cases hm : fs.find? fun f => !t.hasColumn f with
  | none => rfl
  | some f => rw [hm] at h; cases h

theorem exists_bindAll_of_append {pos : Nat} {vs more : List Json} {ws : List Value}
    (h : bindAll pos (vs ++ more) = .ok ws) : ∃ ws', bindAll pos vs = .ok ws' := by
  induction vs generalizing pos ws with
  | nil => exact ⟨[], rfl⟩
  | cons v vs ih =>
    obtain ⟨w, first, h⟩ := of_bind_ok h
    obtain ⟨rest, hl, -⟩ := of_bind_ok h
    obtain ⟨ws', hb⟩ := ih hl
    exact ⟨w :: ws', by rw [bindAll, first, hb]; rfl⟩

theorem not_fails_count {cs : List Clause} {ord : Order} {lim off : Int}
    {rows : List Json.Members} (h : list m cs ord lim off s = .ok rows s') : ¬ Fails (count m cs) s := by
  obtain ⟨t, _, ht, h⟩ := bind_eq_ok h
  obtain ⟨_, _, hc, h⟩ := bind_eq_ok h
  obtain ⟨_, _, hb, h⟩ := bind_eq_ok h
  obtain ⟨selected, _, hch, -⟩ := bind_eq_ok h
  obtain ⟨bound', hbound⟩ := exists_bindAll_of_append (eq_ok_of_attempt hb).1
  rw [count, fails_bind_iff_left (fun t' s' run => ?_), fails_tableOf_iff, table?_of_tableOf ht]
  · simp
  · cases (table?_of_tableOf ht).symm.trans (table?_of_tableOf run)
    rw [checkColumns_of_append (eq_ok_of_attempt hc).1, parameters_countStatement, hbound,
      (eq_ok_of_attempt hch).1]
    exact not_fails_pure _ _

end Appwright.Store
