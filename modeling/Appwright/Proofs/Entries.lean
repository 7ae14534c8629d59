import Appwright.Entries
import Mathlib.Data.List.Nodup

/-!
# Entries written one after another

What is found under a name after pairs were written in order, and what entries are left then.
-/

namespace Appwright

open List Prod

namespace Entries

variable {α : Type} {name : String} {es : Entries α} {e : String × α} {ps : List (String × α)}
  {value : α}

theorem get?_eq_none_of_not_mem (ha : name ∉ es.map fst) : es.get? name = none := by
  induction es with
  | nil => rfl
  | cons e rest ih =>
    obtain ⟨ne, ha⟩ := not_or.1 (mem_cons.not.1 ha)
    simp [get?, Ne.symm ne, ih ha]

theorem get?_update_of_not_mem {more : List (String × α)} (ha : name ∉ more.map fst)
    (es : Entries α) : (update es more).get? name = es.get? name := by
  induction more generalizing es with
  | nil => rfl
  | cons e more ih =>
    obtain ⟨ne, ha⟩ := not_or.1 (mem_cons.not.1 ha)
    exact (ih ha _).trans (get?_put_of_ne ne _ _)

theorem get?_ofPairs_of_not_mem (ha : name ∉ ps.map fst) : (ofPairs ps).get? name = none :=
  get?_update_of_not_mem ha []

theorem get?_update (hd : (ps.map fst).Nodup) {v : α} (h : (name, v) ∈ ps)
    (es : Entries α) : (update es ps).get? name = some v := by
  induction ps generalizing es with
  | nil => exact absurd h not_mem_nil
  | cons e rest ih =>
    obtain ⟨new, hdi⟩ := nodup_cons.1 hd
    rcases mem_cons.1 h with rfl | hl
    · exact (get?_update_of_not_mem new _).trans (get?_put_self _ _ _)
    · exact ih hdi hl _

theorem get?_ofPairs (hd : (ps.map fst).Nodup) {v : α} (h : (name, v) ∈ ps) :
    (ofPairs ps).get? name = some v :=
  get?_update hd h []

theorem get?_of_mem (hd : es.names.Nodup) (h : e ∈ es) : es.get? e.1 = some e.2 := by
  induction es with
  | nil => exact absurd h not_mem_nil
  | cons d rest ih =>
    obtain ⟨new, hdi⟩ := nodup_cons.1 hd
    rcases mem_cons.1 h with rfl | hl
    · simp [get?]
    · have ho : d.1 ≠ e.1 := fun hs => new (hs ▸ mem_map_of_mem hl)
      simp [get?, ho, ih hdi hl]

theorem exists_get?_of_mem_names (h : name ∈ es.names) : ∃ v, es.get? name = some v := by
  induction es with
  | nil => exact absurd h not_mem_nil
  | cons e rest ih =>
    obtain ⟨k, v⟩ := e
    by_cases hs : k = name
    · exact ⟨v, by simp [get?, hs]⟩
    · obtain ⟨w, hf⟩ := ih ((mem_cons.1 h).resolve_left (Ne.symm hs))
      exact ⟨w, by simp [get?, hs, hf]⟩

theorem put_of_not_mem (ha : name ∉ es.map fst) : es.put name value = es ++ [(name, value)] := by
  induction es with
  | nil => rfl
  | cons e es ih =>
    rw [map_cons, mem_cons, not_or] at ha
    rw [put, if_neg (by simpa using Ne.symm ha.1), ih ha.2, cons_append]

theorem update_eq_append {es : List (String × α)} (hd : ((es ++ ps).map fst).Nodup) :
    update es ps = es ++ ps := by
  induction ps generalizing es with
  | nil => exact (append_nil es).symm
  | cons e rest ih =>
    have ha : e.1 ∉ es.map fst := by
      rw [map_append, nodup_append] at hd
      exact fun old => hd.2.2 e.1 old e.1 mem_cons_self rfl
    have hm : es ++ e :: rest = (es ++ [e]) ++ rest := append_cons es e rest
    rw [hm] at hd ⊢
    rw [← ih hd]
    show update (put e.1 e.2 es) rest = _
    rw [put_of_not_mem ha]

theorem ofPairs_eq (hd : (ps.map fst).Nodup) : ofPairs ps = ps := update_eq_append hd

theorem mem_of_mem_put (h : e ∈ es.put name value) : e = (name, value) ∨ e ∈ es := by
  induction es with
  | nil => exact .inl (mem_singleton.1 h)
  | cons d es ih =>
    obtain ⟨k, v⟩ := d
    by_cases hs : k = name
    · rw [put, if_pos (beq_iff_eq.2 hs), hs] at h
      exact (mem_cons.1 h).imp_right (mem_cons_of_mem _)
    · rw [put, if_neg (by simpa using hs)] at h
      rcases mem_cons.1 h with rfl | hl
      · exact .inr mem_cons_self
      · exact (ih hl).imp_right (mem_cons_of_mem _)

theorem names_put_of_mem (hp : name ∈ es.names) (value : α) : (es.put name value).names = es.names := by
  induction es with
  | nil => exact absurd hp not_mem_nil
  | cons e es ih =>
    obtain ⟨k, v⟩ := e
    by_cases hs : k = name
    · simp [put, names, hs]
    · have hl := (mem_cons.1 hp).resolve_left (Ne.symm hs)
      have hr := ih hl
      simpa [put, names, hs] using hr

theorem nodup_names_put (hd : es.names.Nodup) (name : String) (value : α) :
    (es.put name value).names.Nodup := by
  by_cases hp : name ∈ es.names
  · rwa [names_put_of_mem hp]
  · rw [put_of_not_mem hp, names, map_append]
    refine nodup_append.2 ⟨hd, nodup_singleton _, ?_⟩
    rintro k hk _ (_ | ⟨_, ⟨⟩⟩) rfl
    exact hp hk

theorem mem_of_get? (h : es.get? name = some value) : (name, value) ∈ es := by
  induction es with
  | nil => cases h
  | cons d es ih =>
    obtain ⟨k, v⟩ := d
    by_cases hs : k = name
    · rw [get?, if_pos (beq_iff_eq.2 hs)] at h
      cases h
      rw [hs]
      exact mem_cons_self
    · rw [get?, if_neg (by simpa using hs)] at h
      exact mem_cons_of_mem _ (ih h)

theorem mem_of_mem_ofPairs (h : e ∈ ofPairs ps) : e ∈ ps := by
  suffices ∀ es : Entries α, e ∈ update es ps → e ∈ es ∨ e ∈ ps from
    (this [] h).resolve_left not_mem_nil
  clear h
  induction ps with
  | nil => exact fun es mem => .inl mem
  | cons d rest ih =>
    intro es mem
    rcases ih _ mem with hb | hl
    · rcases mem_of_mem_put hb with rfl | hb
      · exact .inr mem_cons_self
      · exact .inl hb
    · exact .inr (mem_cons_of_mem _ hl)

theorem mem_names_of_has (h : es.has name) : name ∈ es.names := by
  obtain ⟨value, hf⟩ := Option.isSome_iff_exists.1 h
  exact mem_map_of_mem (mem_of_get? hf)

theorem putNew_eq (name : String) (value : α) (es : Entries α) :
    es.putNew name value = if es.has name then es else es.put name value := by
  rw [putNew]
  split
  · rfl
  next hm =>
    refine (put_of_not_mem fun hp => ?_).symm
    obtain ⟨v, hf⟩ := exists_get?_of_mem_names hp
    simp [has, hf] at hm

theorem get?_mapValues {β : Type} (f : α → β) (name : String) (es : Entries α) :
    (es.mapValues f).get? name = (es.get? name).map f := by
  induction es with
  | nil => rfl
  | cons e es ih =>
    obtain ⟨k, v⟩ := e
    by_cases hs : k = name
    · simp [mapValues, get?, hs]
    · simpa [mapValues, get?, hs] using ih

theorem get?_putNew_self (name : String) (value : α) (es : Entries α) :
    (es.putNew name value).get? name = some ((es.get? name).getD value) := by
  rw [putNew_eq]
  split
  next hp =>
    obtain ⟨v, hf⟩ := Option.isSome_iff_exists.1 hp
    rw [hf]
    rfl
  next hm =>
    rw [get?_put_self, Option.not_isSome_iff_eq_none.1 hm]
    rfl

theorem get?_putNew_of_ne {b : String} (h : b ≠ name) (value : α) (es : Entries α) :
    (es.putNew name value).get? b = es.get? b := by
  rw [putNew_eq]
  split
  · rfl
  · exact get?_put_of_ne h value es

theorem put_eq_self (h : es.get? name = some value) : es.put name value = es := by
  induction es with
  | nil => cases h
  | cons e es ih =>
    obtain ⟨k, v⟩ := e
    by_cases hs : k = name
    · obtain rfl : v = value := by simpa [get?, hs] using h
      rw [put, if_pos (beq_iff_eq.2 hs)]
    · have hl : get? name es = some value := by simpa [get?, hs] using h
      rw [put, if_neg (by simpa using hs), ih hl]

theorem get?_append_left {more : Entries α} (h : es.get? name = some value) :
    get? name (es ++ more) = some value := by
  induction es with
  | nil => cases h
  | cons e es ih =>
    obtain ⟨k, v⟩ := e
    by_cases hs : k = name
    · simpa [get?, hs] using h
    · simpa [get?, hs] using ih (by simpa [get?, hs] using h)

theorem has_of_get? (h : es.get? name = some value) : es.has name := by
  rw [has, h]
  rfl

end Entries

end Appwright
