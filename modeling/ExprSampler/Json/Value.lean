/-!
# JSON values

Configuration is read from JSON and samples can be written as JSON. Whole numbers and doubles are
kept apart, as a text shows by a point or an exponent which of the two is meant, and the entries of
an object keep their order.
-/

namespace ExprSampler

/-- A JSON value. -/
inductive JsonValue
  | null
  | bool (b : Bool)
  | int (n : Int)
  | float (v : Float)
  | str (s : String)
  | list (items : List JsonValue)
  | object (entries : List (String × JsonValue))
deriving Repr

/-- The entries with one more; a key that is there already keeps its place and takes the new
value. -/
def putEntry {α : Type} (key : String) (value : α) : List (String × α) → List (String × α)
  | [] => [(key, value)]
  | (k, v) :: entries =>
    if k = key then (key, value) :: entries else (k, v) :: putEntry key value entries

/-- The value of a key. -/
def valueAt? {α : Type} (key : String) (entries : List (String × α)) : Option α :=
  (entries.find? fun e ↦ e.1 == key).map (·.2)

theorem valueAt?_putEntry_self {α : Type} (key : String) (value : α) (entries : List (String × α)) :
    valueAt? key (putEntry key value entries) = some value := by
  induction entries with
  | nil => simp [putEntry, valueAt?]
  | cons e entries ih =>
    rw [putEntry]
    split
    · simp [valueAt?]
    · rename_i h
      rw [valueAt?, List.find?_cons_of_neg (by simpa using h)]
      exact ih

theorem valueAt?_putEntry_of_ne {α : Type} {key other : String} (h : key ≠ other) (value : α)
    (entries : List (String × α)) :
    valueAt? other (putEntry key value entries) = valueAt? other entries := by
  induction entries with
  | nil => simp [putEntry, valueAt?, h]
  | cons e entries ih =>
    rw [putEntry]
    split
    · rename_i hk
      simp [valueAt?, h, hk ▸ h]
    · by_cases he : e.1 = other
      · simp [valueAt?, he]
      · simpa [valueAt?, he] using ih

end ExprSampler
