/-!
# Dictionaries

A dictionary is the list of its entries. `insert` replaces the value of a key that is there and puts a new
key before the first greater one, so a dictionary that is built by `insert` has its keys in increasing
order, which for strings is the byte order of their UTF-8 form. Looking a key up finds its first entry;
`get?_insert`, `get?_erase` and `get?_mapValues` say what each operation does to what is found, whatever the
order of the entries. The keys are strings but for the entries of directories, whose keys are file names.
-/

namespace DocModel

/-- Entries with string keys. -/
abbrev Dict (α : Type) := List (String × α)

namespace Dict

section Keys

variable {κ α : Type} [DecidableEq κ]

/-- The value of the first entry with this key. -/
def get? : List (κ × α) → κ → Option α
  | [], _ => none
  | (k, v) :: rest, key => if k = key then some v else get? rest key

def contains (d : List (κ × α)) (key : κ) : Bool := (get? d key).isSome

def keys (d : List (κ × α)) : List κ := d.map Prod.fst

/-- Gives the first entry of this key another value. -/
def replace : List (κ × α) → κ → α → List (κ × α)
  | [], _, _ => []
  | (k, v) :: rest, key, value =>
    if k = key then (k, value) :: rest else (k, v) :: replace rest key value

variable [LT κ] [DecidableLT κ]

/-- Adds an entry before the first one of a greater key. -/
def place : List (κ × α) → κ → α → List (κ × α)
  | [], key, value => [(key, value)]
  | (k, v) :: rest, key, value =>
    if key < k then (key, value) :: (k, v) :: rest else (k, v) :: place rest key value

/-- Replaces the value of a key, or adds an entry in the place of its key. -/
def insert (d : List (κ × α)) (key : κ) (value : α) : List (κ × α) :=
  if contains d key then replace d key value else place d key value

end Keys

variable {α β : Type}

def values (d : Dict α) : List α := d.map Prod.snd

/-- Leaves every entry but those of this key. -/
def erase (d : Dict α) (key : String) : Dict α := d.filter fun entry => entry.1 ≠ key

/-- The dictionary of these entries; of two with one key the later one stays. -/
def ofList (entries : List (String × α)) : Dict α :=
  entries.foldl (fun d entry => insert d entry.1 entry.2) []

def mapValues (f : α → β) (d : Dict α) : Dict β := d.map fun entry => (entry.1, f entry.2)

/-- Changes the value of a key, which starts from `default` if it is new. -/
def modify (d : Dict α) (key : String) (default : α) (f : α → α) : Dict α :=
  insert d key (f ((get? d key).getD default))

/-- Keys increase strictly, so no key occurs twice. -/
def Ordered (d : Dict α) : Prop := (keys d).Pairwise (· < ·)

section Keys

variable {κ : Type} [DecidableEq κ]

@[simp] theorem get?_nil (key : κ) : get? ([] : List (κ × α)) key = none := rfl

theorem get?_replace (d : List (κ × α)) (key other : κ) (value : α) :
    get? (replace d key value) other =
      if other = key then (get? d key).map fun _ => value else get? d other := by
  induction d with
  | nil => simp [replace]
  | cons entry rest ih =>
    obtain ⟨k, v⟩ := entry
    rw [replace]
    by_cases hk : k = key <;> by_cases ho : other = key <;> by_cases hko : k = other <;>
      simp_all [get?]

variable [LT κ] [DecidableLT κ]

theorem get?_place_of_ne (d : List (κ × α)) {key other : κ} (value : α) (h : other ≠ key) :
    get? (place d key value) other = get? d other := by
  induction d with
  | nil => simp [place, get?, Ne.symm h]
  | cons entry rest ih =>
    obtain ⟨k, v⟩ := entry
    rw [place]
    split <;> simp [get?, ih, Ne.symm h]

theorem get?_place_self (d : List (κ × α)) (key : κ) (value : α) (h : get? d key = none) :
    get? (place d key value) key = some value := by
  induction d with
  | nil => simp [place, get?]
  | cons entry rest ih =>
    obtain ⟨k, v⟩ := entry
    have hk : k ≠ key := fun hk => by simp [get?, hk] at h
    rw [place]
    split
    · simp [get?]
    · simp only [get?, hk, if_false] at h ⊢
      exact ih h

theorem get?_insert (d : List (κ × α)) (key other : κ) (value : α) :
    get? (insert d key value) other = if other = key then some value else get? d other := by
  rw [insert, contains]
  cases hd : get? d key with
  | none =>
    by_cases h : other = key
    · subst h; simp [get?_place_self d other value hd]
    · simp [h, get?_place_of_ne d value h]
  | some old => simp [get?_replace, hd]

theorem get?_insert_self (d : List (κ × α)) (key : κ) (value : α) :
    get? (insert d key value) key = some value := by simp [get?_insert]

theorem get?_insert_of_ne (d : List (κ × α)) {key other : κ} (value : α) (h : other ≠ key) :
    get? (insert d key value) other = get? d other := by simp [get?_insert, h]

end Keys

theorem get?_erase (d : Dict α) (key other : String) :
    get? (erase d key) other = if other = key then none else get? d other := by
  unfold erase
  induction d with
  | nil => simp
  | cons entry rest ih =>
    obtain ⟨k, v⟩ := entry
    by_cases hk : k = key
    · subst hk
      rw [List.filter_cons_of_neg (by simp), ih]
      by_cases ho : other = k
      · simp [ho]
      · simp [get?, ho, Ne.symm ho]
    · rw [List.filter_cons_of_pos (by simpa using hk)]
      by_cases ho : k = other
      · subst ho; simp [get?, hk]
      · simp only [get?, ho, if_false, ih]

theorem get?_mapValues (f : α → β) (d : Dict α) (key : String) :
    get? (mapValues f d) key = (get? d key).map f := by
  induction d with
  | nil => simp [mapValues]
  | cons entry rest ih =>
    obtain ⟨k, v⟩ := entry
    simp only [mapValues] at ih
    by_cases h : k = key <;> simp [mapValues, get?, h, ih]

end Dict

end DocModel
