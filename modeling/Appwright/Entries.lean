/-!
# Entries in order

A finite map kept as a list of entries in the order in which their names first came. Writing a name
that is present changes its value and moves nothing; a new name goes to the end.
-/

namespace Appwright

/-- Named values in the order in which the names first came. -/
abbrev Entries (α : Type) := List (String × α)

namespace Entries

variable {α β : Type}

def get? (name : String) : Entries α → Option α
  | [] => none
  | (k, v) :: rest => if k == name then some v else get? name rest

def has (name : String) (es : Entries α) : Bool :=
  (es.get? name).isSome

def names (es : Entries α) : List String :=
  es.map Prod.fst

def put (name : String) (value : α) : Entries α → Entries α
  | [] => [(name, value)]
  | (k, v) :: rest => if k == name then (k, value) :: rest else (k, v) :: put name value rest

/-- Adds an entry at the end unless its name is present. -/
def putNew (name : String) (value : α) (es : Entries α) : Entries α :=
  if es.has name then es else es ++ [(name, value)]

def erase (name : String) : Entries α → Entries α
  | [] => []
  | (k, v) :: rest => if k == name then rest else (k, v) :: erase name rest

def update (es more : Entries α) : Entries α :=
  more.foldl (fun acc e => acc.put e.1 e.2) es

def ofPairs (pairs : List (String × α)) : Entries α :=
  update [] pairs

def mapValues (f : α → β) (es : Entries α) : Entries β :=
  es.map fun e => (e.1, f e.2)

@[simp] theorem get?_nil (name : String) : get? name ([] : Entries α) = none := rfl

theorem get?_put_self (name : String) (value : α) (es : Entries α) :
    (es.put name value).get? name = some value := by
  induction es with
  | nil => simp [put, get?]
  | cons e rest ih =>
    obtain ⟨k, v⟩ := e
    by_cases h : k = name <;> simp [put, get?, h, ih]

theorem get?_put_of_ne {name other : String} (h : other ≠ name) (value : α) (es : Entries α) :
    (es.put name value).get? other = es.get? other := by
  induction es with
  | nil => simp [put, get?, Ne.symm h]
  | cons e rest ih =>
    obtain ⟨k, v⟩ := e
    by_cases hk : k = name
    · subst hk
      simp [put, get?, Ne.symm h]
    · by_cases ho : k = other
      · subst ho
        simp [put, get?, hk]
      · simp [put, get?, hk, ho, ih]

end Entries

end Appwright
