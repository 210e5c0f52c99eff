import ComponentTags.Config.Json
import ComponentTags.Proofs.Replacing

/-!
# The keys of objects that are read

No object that is read has a key twice (`Json.distinct_of_read`), since a key that comes again takes
the place of the one before. One token keeps this for every object that the machine holds, closed
or open (`State.Distinct.take`), and so do all the tokens of a text (`State.Distinct.takeAll`).
-/

namespace ComponentTags

/-- Data in which no object has a key twice. -/
inductive Data.Distinct : Data → Prop
  | null : Distinct .null
  | bool (value : Bool) : Distinct (.bool value)
  | number (literal : Text) : Distinct (.number literal)
  | text (value : Text) : Distinct (.text value)
  | list {items : List Data} (items_distinct : ∀ item ∈ items, Distinct item) :
      Distinct (.list items)
  | object {members : List (Text × Data)} (nodup : (members.map Prod.fst).Nodup)
      (values_distinct : ∀ e ∈ members, Distinct e.2) : Distinct (.object members)

namespace Json

/-! ## States -/

/-- An open list or object, seen as if it were closed. -/
def Open.closed : Open → Data
  | .list done => .list done.reverse
  | .object done _ => .object done

/-- The data of what may come next. -/
def Awaiting.held? : Awaiting → Option Data
  | .key done => some (.object done)
  | .colon done _ => some (.object done)
  | .more held => some held
  | _ => none

/-- No object that the machine holds has a key twice. -/
structure State.Distinct (s : State) : Prop where
  awaiting : ∀ value ∈ s.awaiting.held?, value.Distinct
  stack : ∀ o ∈ s.stack, o.closed.Distinct

def Token.Distinct : Token → Prop
  | .atom value => value.Distinct
  | _ => True

variable {value : Data} {members : List (Text × Data)} {stack : List Open} {token : Token}
  {s s' : State} {c : Cursor}

theorem distinct_object_put (h : (Data.object members).Distinct) (key : Text)
    (hvalue : value.Distinct) : (Data.object (Entries.put key value members)).Distinct := by
  cases h with
  | object nodup values =>
    refine .object (Table.put ⟨members, nodup⟩ key value).nodup fun e he => ?_
    rcases Entries.mem_put he with rfl | he
    · exact hvalue
    · exact values e he

theorem distinct_object_nil : (Data.object []).Distinct :=
  .object (by simp) (by simp)

theorem distinct_list_nil : (Data.list []).Distinct :=
  .list (by simp)

theorem distinct_of_held {awaiting : Awaiting} (hheld : awaiting.held? = some value)
    (hvalue : value.Distinct) (hstack : ∀ o ∈ stack, o.closed.Distinct) :
    State.Distinct ⟨awaiting, stack⟩ :=
  ⟨fun _ hv => Option.some.inj (hheld.symm.trans hv) ▸ hvalue, hstack⟩

theorem distinct_of_held_none {awaiting : Awaiting} (hheld : awaiting.held? = none)
    (hstack : ∀ o ∈ stack, o.closed.Distinct) : State.Distinct ⟨awaiting, stack⟩ :=
  ⟨fun _ hv => absurd (hheld.symm.trans hv) nofun, hstack⟩

theorem distinct_list_cons {done : List Data} (h : (Open.list done).closed.Distinct)
    (hvalue : value.Distinct) : (Open.list (value :: done)).closed.Distinct := by
  cases h with
  | list items =>
    refine .list fun item hitem => ?_
    rcases List.mem_append.1 (List.reverse_cons ▸ hitem) with hitem | hitem
    · exact items item hitem
    · exact List.mem_singleton.1 hitem ▸ hvalue

section Steps

variable (hstack : ∀ o ∈ stack, o.closed.Distinct)

include hstack

theorem distinct_of_takeValue (ht : token.Distinct) (h : takeValue stack token = .ok s) :
    s.Distinct := by
  unfold takeValue at h
  split at h
  · cases h
    exact distinct_of_held rfl ht hstack
  · cases h
    exact distinct_of_held_none rfl hstack
  · cases h
    exact distinct_of_held_none rfl hstack
  · cases h
  · cases h
  · cases h

theorem distinct_of_takeKey (hmembers : (Data.object members).Distinct)
    (h : takeKey members stack token = .ok s) : s.Distinct := by
  unfold takeKey at h
  split at h
  · cases h
    exact distinct_of_held rfl hmembers hstack
  · cases h
  · cases h

theorem distinct_of_takeMore (hvalue : value.Distinct) (h : takeMore value stack token = .ok s) :
    s.Distinct := by
  -- A token behind a value is taken by the innermost open list or object alone.
  cases stack with
  | nil => cases h
  | cons o stack =>
    obtain ⟨hopen, hrest⟩ := List.forall_mem_cons.1 hstack
    unfold takeMore at h
    split at h
    · next heq =>
      cases heq
      cases h
      exact distinct_of_held_none rfl
        (List.forall_mem_cons.2 ⟨distinct_list_cons hopen hvalue, hrest⟩)
    · next heq =>
      cases heq
      cases h
      exact distinct_of_held rfl (distinct_list_cons hopen hvalue) hrest
    · next heq =>
      cases heq
      cases h
      exact distinct_of_held rfl (distinct_object_put hopen _ hvalue) hrest
    · next heq =>
      cases heq
      cases h
      exact distinct_of_held rfl (distinct_object_put hopen _ hvalue) hrest
    · cases h

end Steps

/-- **Step.** One token keeps the keys apart. -/
theorem State.Distinct.take (hs : s.Distinct) (ht : token.Distinct) (h : s.take token = .ok s') :
    s'.Distinct := by
  obtain ⟨awaiting, stack⟩ := s
  obtain ⟨hheld, hstack⟩ := hs
  unfold State.take at h
  cases awaiting with
  | value => exact distinct_of_takeValue hstack ht h
  | firstItem =>
    dsimp only at h
    split at h
    · cases h
      exact distinct_of_held rfl distinct_list_nil hstack
    · have hopen : ∀ o ∈ Open.list [] :: stack, o.closed.Distinct :=
        List.forall_mem_cons.2 ⟨distinct_list_nil, hstack⟩
      exact distinct_of_takeValue hopen ht h
  | firstKey =>
    dsimp only at h
    split at h
    · cases h
      exact distinct_of_held rfl distinct_object_nil hstack
    · exact distinct_of_takeKey hstack distinct_object_nil h
  | key done => exact distinct_of_takeKey hstack (hheld _ rfl) h
  | colon done key =>
    dsimp only at h
    split at h
    · cases h
      exact distinct_of_held_none rfl (List.forall_mem_cons.2 ⟨hheld _ rfl, hstack⟩)
    · cases h
  | more value => exact distinct_of_takeMore hstack (hheld _ rfl) h

/-! ## Tokens -/

theorem distinct_of_number? {text : Text} {n : Nat} (h : number? text = some (token, n)) :
    token.Distinct := by
  unfold number? at h
  dsimp only at h
  generalize (if ['-'].isPrefixOf text then 1 else 0) = sign at h
  split at h
  · cases h
  · split at h
    · cases h
      trivial
    · cases h
      exact .number _

theorem distinct_of_word? {text : Text} {n : Nat} (h : word? text = some (token, n)) :
    token.Distinct := by
  obtain ⟨w, hw, he⟩ := Option.map_eq_some_iff.1 h
  obtain ⟨rfl, -⟩ := Prod.mk.inj he
  have hmem := List.mem_of_find?_eq_some hw
  simp only [words, List.mem_cons, List.not_mem_nil, or_false] at hmem
  rcases hmem with rfl | rfl | rfl | rfl | rfl | rfl <;> constructor

theorem distinct_of_string? {text : Text} {n : Nat} (h : string? text = some (token, n)) :
    token.Distinct := by
  unfold string? at h
  split at h
  · cases h
  · split at h
    · cases h
      exact .text _
    · cases h
      trivial

theorem distinct_of_token? {n : Nat} (h : token? c = some (token, n)) : token.Distinct := by
  unfold token? at h
  split at h
  · exact distinct_of_string? h
  · split at h
    · cases h
      trivial
    · cases hword : word? c.rest with
      | some found =>
        rw [hword] at h
        cases h
        exact distinct_of_word? hword
      | none =>
        rw [hword] at h
        exact distinct_of_number? h
  · cases h

/-! ## Texts -/

/-- **Run.** All the tokens of a text keep the keys apart. -/
theorem State.Distinct.takeAll (hs : s.Distinct)
    (h : (c.pieces token?).foldlM State.takePiece s = .ok s') : s'.Distinct := by
  induction c using Cursor.pieces_induction token? generalizing s with
  | nil c hr =>
    rw [Cursor.pieces_nil hr] at h
    cases h
    exact hs
  | plain c a rest hr hh ih =>
    rw [Cursor.pieces_plain hr hh, List.foldlM_cons, State.takePiece] at h
    split at h
    · exact ih hs h
    · cases h
  | found c token n hr hh ih =>
    rw [Cursor.pieces_of_hit hr hh, List.foldlM_cons, State.takePiece] at h
    cases htake : s.take token with
    | error e =>
      rw [htake] at h
      cases h
    | ok s₁ =>
      rw [htake] at h
      exact ih (hs.take (distinct_of_token? hh) htake) h

/-- **Keys.** No object that is read has a key twice. -/
theorem distinct_of_read {text : Text} (h : read text = .ok value) : value.Distinct := by
  have hstart : State.Distinct ⟨.value, []⟩ := distinct_of_held_none rfl (by simp)
  unfold read at h
  split at h
  · cases h
  · next value hrun =>
    cases h
    exact (hstart.takeAll hrun).awaiting value rfl
  · cases h

end Json

end ComponentTags
