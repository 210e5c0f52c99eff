import ComponentTags.Proofs.CamelKeys

/-!
# Tables of lists

A table may list several values under a key. More values for a key come behind those that are there
(`Table.listed_foldl_extend`), and a table is given by its keys and by what is listed under them
(`Table.ext_of_listed`).
-/

namespace ComponentTags

/-! ## Entries with distinct keys -/

namespace Entries

variable {α : Type} {entries : List (Text × α)}

theorem filter_key_eq (h : (entries.map Prod.fst).Nodup) (key : Text) :
    entries.filter (fun e => e.1 = key) =
      (entries.lookup key).toList.map fun value => (key, value) := by
  cases hl : entries.lookup key with
  | none =>
    rw [Option.toList_none, List.map_nil, List.filter_eq_nil_iff]
    intro e he hkey
    simpa [of_decide_eq_true hkey] using List.lookup_eq_none_iff.1 hl e he
  | some value =>
    obtain ⟨before, after, rfl, hbefore, hafter⟩ :=
      exists_append_of_mem h ((lookup_eq_some_iff_mem h).1 hl)
    have hnone : ∀ l : List (Text × α), (∀ e ∈ l, e.1 ≠ key) →
        l.filter (fun e => e.1 = key) = [] :=
      fun l hl => List.filter_eq_nil_iff.2 (by simpa using hl)
    simp [hnone _ hbefore, hnone _ hafter]

theorem lastWith_map_snd {β : Type} (f : α → β) (p : Text → Bool) (entries : List (Text × α)) :
    lastWith p (entries.map fun e => (e.1, f e.2)) = (lastWith p entries).map f := by
  rw [lastWith, ← List.map_reverse, List.find?_map, Option.map_map, lastWith, Option.map_map]
  rfl

theorem lookup_filter_ne {κ : Type} [BEq κ] [LawfulBEq κ] [DecidableEq κ]
    (entries : List (κ × α)) (key k : κ) :
    (entries.filter fun e => e.1 ≠ key).lookup k = if k = key then none else entries.lookup k := by
  induction entries with
  | nil => simp
  | cons e entries ih =>
    obtain ⟨k', value⟩ := e
    by_cases hkey : k' = key
    · rw [List.filter_cons_of_neg (by simpa using hkey), ih, List.lookup_cons, ← hkey]
      cases hk : k == k' with
      | true => rw [if_pos (eq_of_beq hk), if_pos (eq_of_beq hk)]
      | false => rfl
    · rw [List.filter_cons_of_pos (by simpa using hkey), List.lookup_cons, List.lookup_cons, ih]
      cases hk : k == k' with
      | true =>
        obtain rfl := eq_of_beq hk
        simp [hkey]
      | false => rfl

end Entries

/-! ## Tables of lists -/

namespace Table

variable {α β : Type} {t t' : Table (List α)}

/-- What is listed under a key; nothing if there is no such key. -/
def listed (t : Table (List α)) (key : Text) : List α :=
  (t.get? key).getD []

/-- The table with more under a key. -/
def extend (t : Table (List α)) (key : Text) (values : List α) : Table (List α) :=
  t.put key (t.listed key ++ values)

theorem listed_extend (t : Table (List α)) (key k : Text) (values : List α) :
    (t.extend key values).listed k = if k = key then t.listed k ++ values else t.listed k := by
  unfold extend
  rw [listed, get?_put]
  split
  · next h => rw [h, Option.getD_some]
  · rfl

theorem listed_foldl_extend (key : β → Text) (values : β → List α) (l : List β)
    (t : Table (List α)) (k : Text) :
    (l.foldl (fun t b => t.extend (key b) (values b)) t).listed k =
      t.listed k ++ (l.filter fun b => key b = k).flatMap values := by
  induction l generalizing t with
  | nil => simp
  | cons b l ih =>
    rw [List.foldl_cons, ih, listed_extend]
    by_cases h : key b = k
    · simp [h]
    · simp [h, Ne.symm h]

theorem keys_foldl_extend (f : β → List α) (entries : List (Text × β)) (t : Table (List α)) :
    (entries.foldl (fun t e => t.extend e.1 (f e.2)) t).keys =
      (t.keys ++ entries.map Prod.fst).eraseDups :=
  keys_foldl_put (fun t e => t.listed e.1 ++ f e.2) t entries

theorem listed_ofList {entries : List (Text × β)} (hkeys : (entries.map Prod.fst).Nodup)
    (f : β → List α) (key : Text) :
    (ofList (entries.map fun e => (e.1, f e.2))).listed key = (entries.lookup key).elim [] f := by
  rw [listed, get?_ofList, Entries.lastWith_map_snd, ← Entries.lookup_eq_lastWith hkeys]
  cases entries.lookup key <;> rfl

theorem mem_listed_ofList {entries : List (Text × β)} {f : β → List α} {key : Text} {x : α}
    (h : x ∈ (ofList (entries.map fun e => (e.1, f e.2))).listed key) : ∃ value, x ∈ f value := by
  rw [listed, get?_ofList, Entries.lastWith_map_snd] at h
  cases hlast : Entries.lastWith (· = key) entries with
  | none =>
    rw [hlast] at h
    cases h
  | some value =>
    rw [hlast] at h
    exact ⟨value, h⟩

theorem ext_of_listed (hkeys : t.keys = t'.keys) (h : ∀ key, t.listed key = t'.listed key) :
    t = t' := by
  refine ext_of_get? hkeys fun key => ?_
  have hkey := h key
  unfold listed at hkey
  by_cases hm : key ∈ t.keys
  · obtain ⟨values, hvalues⟩ := mem_keys_iff.1 hm
    obtain ⟨values', hvalues'⟩ := mem_keys_iff.1 (hkeys ▸ hm)
    rw [hvalues, hvalues'] at hkey ⊢
    exact congrArg some hkey
  · have hnone : ∀ s : Table (List α), key ∉ s.keys → s.get? key = none := by
      intro s hs
      rw [Option.eq_none_iff_forall_ne_some]
      exact fun values hvalues => hs (mem_keys_iff.2 ⟨values, hvalues⟩)
    rw [hnone t hm, hnone t' (hkeys ▸ hm)]

end Table

end ComponentTags
