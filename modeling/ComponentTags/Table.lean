import ComponentTags.Text.Basic

/-!
# Tables

A table maps texts to values and remembers in which order its keys came. Writing a key that is
there already changes its value and leaves it in its place (`keys_put_of_mem`); a new key goes to
the end (`keys_put_of_not_mem`).
-/

namespace ComponentTags

variable {α β : Type}

namespace Entries

/-- The entries with `value` under `key`, in the place of the key or at the end. -/
def put (key : Text) (value : α) : List (Text × α) → List (Text × α)
  | [] => [(key, value)]
  | (k, v) :: rest => if k = key then (key, value) :: rest else (k, v) :: put key value rest

theorem map_fst_put (key : Text) (value : α) (entries : List (Text × α)) :
    (put key value entries).map Prod.fst =
      if key ∈ entries.map Prod.fst then entries.map Prod.fst
      else entries.map Prod.fst ++ [key] := by
  induction entries with
  | nil => simp [put]
  | cons e rest ih =>
    obtain ⟨k, v⟩ := e
    by_cases h : k = key
    · simp [put, h]
    · have h' : ¬ key = k := fun e => h e.symm
      simp only [put, h, if_false, List.map_cons, ih, List.mem_cons, h', false_or]
      split <;> simp

theorem lookup_put (key k : Text) (value : α) (entries : List (Text × α)) :
    (put key value entries).lookup k = if k = key then some value else entries.lookup k := by
  induction entries with
  | nil =>
    by_cases h : k = key
    · simp [put, h]
    · have hb : (k == key) = false := by simp [h]
      simp [put, List.lookup_cons, h, hb]
  | cons e rest ih =>
    obtain ⟨k', v⟩ := e
    by_cases h : k' = key
    · subst h
      by_cases hk : k = k'
      · simp [put, hk]
      · have hb : (k == k') = false := by simp [hk]
        simp [put, List.lookup_cons, hk, hb]
    · by_cases hk : k = k'
      · subst hk
        simp [put, h]
      · have hb : (k == k') = false := by simp [hk]
        simp [put, List.lookup_cons, h, hb, ih]

theorem put_of_not_mem {key : Text} {entries : List (Text × α)}
    (h : key ∉ entries.map Prod.fst) (value : α) :
    put key value entries = entries ++ [(key, value)] := by
  induction entries with
  | nil => rfl
  | cons e rest ih =>
    obtain ⟨k, v⟩ := e
    simp only [List.map_cons, List.mem_cons, not_or] at h
    have hk : ¬ k = key := fun e => h.1 e.symm
    rw [put, if_neg hk, ih h.2, List.cons_append]

theorem mem_put {key : Text} {value : α} {entries : List (Text × α)} {e : Text × α}
    (h : e ∈ put key value entries) : e = (key, value) ∨ e ∈ entries := by
  induction entries with
  | nil => exact Or.inl (by simpa [put] using h)
  | cons e' rest ih =>
    obtain ⟨k, v⟩ := e'
    rw [put] at h
    split at h
    · rcases List.mem_cons.1 h with rfl | h
      · exact Or.inl rfl
      · exact Or.inr (List.mem_cons_of_mem _ h)
    · rcases List.mem_cons.1 h with rfl | h
      · exact Or.inr (by simp)
      · exact (ih h).imp_right (List.mem_cons_of_mem _)

end Entries

/-- A finite map from texts, in the order in which its keys came. -/
structure Table (α : Type) where
  entries : List (Text × α)
  nodup : (entries.map Prod.fst).Nodup

namespace Table

def empty : Table α :=
  ⟨[], by simp⟩

instance : Inhabited (Table α) :=
  ⟨empty⟩

def keys (t : Table α) : List Text :=
  t.entries.map Prod.fst

def get? (t : Table α) (key : Text) : Option α :=
  t.entries.lookup key

def has (t : Table α) (key : Text) : Bool :=
  t.keys.contains key

def put (t : Table α) (key : Text) (value : α) : Table α where
  entries := Entries.put key value t.entries
  nodup := by
    rw [Entries.map_fst_put]
    split
    · exact t.nodup
    · next h =>
      rw [List.nodup_append]
      refine ⟨t.nodup, by simp, ?_⟩
      intro a ha b hb
      rw [List.mem_singleton] at hb
      subst hb
      exact fun e => h (e ▸ ha)

/-- The table with the entries of a list written one after the other. -/
def putAll (t : Table α) (entries : List (Text × α)) : Table α :=
  entries.foldl (fun t e => t.put e.1 e.2) t

/-- The table of a list of entries, the later ones winning. -/
def ofList (entries : List (Text × α)) : Table α :=
  empty.putAll entries

def filter (p : Text → α → Bool) (t : Table α) : Table α where
  entries := t.entries.filter fun e => p e.1 e.2
  nodup := (List.filter_sublist.map Prod.fst).nodup t.nodup

@[simp] theorem get?_empty (key : Text) : (empty : Table α).get? key = none := rfl

@[simp] theorem get?_put (t : Table α) (key k : Text) (value : α) :
    (t.put key value).get? k = if k = key then some value else t.get? k :=
  Entries.lookup_put key k value t.entries

theorem mem_keys_iff {t : Table α} {key : Text} :
    key ∈ t.keys ↔ ∃ value, t.get? key = some value := by
  rw [← Option.isSome_iff_exists, get?, List.lookup_isSome_iff, keys, List.mem_map]
  simp only [beq_iff_eq, eq_comm (a := key)]

theorem keys_put_of_mem {t : Table α} {key : Text} (h : key ∈ t.keys) (value : α) :
    (t.put key value).keys = t.keys := by
  rw [keys, put, Entries.map_fst_put, if_pos (by exact h)]
  rfl

theorem keys_put_of_not_mem {t : Table α} {key : Text} (h : key ∉ t.keys) (value : α) :
    (t.put key value).keys = t.keys ++ [key] := by
  rw [keys, put, Entries.map_fst_put, if_neg (by exact h)]
  rfl

end Table

end ComponentTags
