import ComponentTags.Attribute.Group
import Mathlib.Tactic.ByContra

/-!
# What a parenthesised group is

A group begins with an opening parenthesis, has as many closing as opening ones, and every
shorter beginning of it still has more opening ones (`IsGroup`). `length?` finds the group that a
text begins with, and nothing else (`length?_eq_some_iff`).
-/

namespace ComponentTags.Group

variable {depth n : Nat} {c : Char} {text t rest : Text}

structure IsGroup (t : Text) : Prop where
  opens : t.head? = some '('
  balanced : t.count '(' = t.count ')'
  /-- No shorter beginning is balanced. -/
  shortest : ∀ u w, t = u ++ w → u ≠ [] → w ≠ [] → u.count ')' < u.count '('

/-- The text closes the last of `depth` open parentheses with its last character, and not
before. -/
structure Closes (depth : Nat) (t : Text) : Prop where
  balanced : t.count '(' + depth = t.count ')'
  shortest : ∀ u w, t = u ++ w → w ≠ [] → u.count ')' < u.count '(' + depth

/-- The number of parentheses that are open behind a character. -/
def depthAfter (depth : Nat) (c : Char) : Nat :=
  if c = '(' then depth + 1 else if c = ')' then depth - 1 else depth

theorem count_cons_depthAfter (hd : 1 ≤ depth) (c : Char) (u : Text) :
    (c :: u).count '(' + depth + u.count ')' =
      (c :: u).count ')' + (u.count '(' + depthAfter depth c) := by
  unfold depthAfter
  by_cases h₁ : c = '('
  · subst h₁
    simp
    omega
  by_cases h₂ : c = ')'
  · subst h₂
    simp
    omega
  simp [h₁, h₂]
  omega

theorem closes_zero : Closes 0 t ↔ t = [] := by
  constructor
  · intro h
    rcases t with _ | ⟨c, t⟩
    · rfl
    · simpa using h.shortest [] (c :: t) rfl (by simp)
  · rintro rfl
    exact ⟨rfl, fun u w h hw => by simp [hw] at h⟩

theorem not_closes_nil (hd : 1 ≤ depth) : ¬ Closes depth [] := by
  intro h
  have := h.balanced
  simp at this
  omega

theorem closes_cons (hd : 1 ≤ depth) : Closes depth (c :: t) ↔ Closes (depthAfter depth c) t := by
  constructor
  · intro h
    refine ⟨?_, fun u w hu hw => ?_⟩
    · have h₁ := h.balanced
      have h₂ := count_cons_depthAfter hd c t
      omega
    · have h₁ := h.shortest (c :: u) w (by simp [hu]) hw
      have h₂ := count_cons_depthAfter hd c u
      omega
  · intro h
    refine ⟨?_, fun u w hu hw => ?_⟩
    · have h₁ := h.balanced
      have h₂ := count_cons_depthAfter hd c t
      omega
    · rcases u with _ | ⟨b, u⟩
      · simpa using Nat.pos_of_ne_zero (by omega)
      · obtain ⟨rfl, ht⟩ := List.cons.inj hu
        have h₁ := h.shortest u w ht hw
        have h₂ := count_cons_depthAfter hd c u
        omega

theorem isGroup_cons : IsGroup (c :: t) ↔ c = '(' ∧ Closes 1 t := by
  constructor
  · intro h
    obtain rfl : c = '(' := by simpa using h.opens
    refine ⟨rfl, ?_, fun u w hu hw => ?_⟩
    · simpa using h.balanced
    · simpa using h.shortest ('(' :: u) w (by simp [hu]) (by simp) hw
  · rintro ⟨rfl, h⟩
    refine ⟨rfl, ?_, fun u w hu hu' hw => ?_⟩
    · simpa using h.balanced
    · rcases u with _ | ⟨b, u⟩
      · exact absurd rfl hu'
      · obtain ⟨rfl, ht⟩ := List.cons.inj hu
        simpa using h.shortest u w ht hw

theorem closing?_cons (hd : 1 ≤ depth) (c : Char) (cs : Text) :
    closing? depth (c :: cs) =
      if depthAfter depth c = 0 then some 1
      else (closing? (depthAfter depth c) cs).map (· + 1) := by
  rw [closing?]
  unfold depthAfter
  by_cases h₁ : c = '('
  · simp [h₁]
  by_cases h₂ : c = ')'
  · by_cases h₃ : depth ≤ 1
    · simp [h₂, h₃]
    · have h₄ : ¬ depth - 1 = 0 := by omega
      simp [h₂, h₃, h₄]
  have h₅ : depth ≠ 0 := by omega
  simp [h₁, h₂, h₅]

/-- A step of the search for the closing parenthesis goes on with the parentheses that are open
behind the character. -/
theorem closing?_eq_some_iff (hd : 1 ≤ depth) :
    closing? depth text = some n ↔ ∃ t rest, text = t ++ rest ∧ t.length = n ∧ Closes depth t := by
  induction text generalizing depth n with
  | nil =>
    simp only [closing?, reduceCtorEq, false_iff]
    rintro ⟨t, rest, h, -, hc⟩
    obtain ⟨rfl, -⟩ := List.append_eq_nil_iff.1 h.symm
    exact not_closes_nil hd hc
  | cons c cs ih =>
    rw [closing?_cons hd]
    constructor
    · intro h
      split at h
      · next h₀ =>
        refine ⟨[c], cs, rfl, by simpa using h, ?_⟩
        rw [closes_cons hd, h₀]
        exact closes_zero.2 rfl
      · next h₀ =>
        obtain ⟨m, hm, rfl⟩ := Option.map_eq_some_iff.1 h
        obtain ⟨t, rest, rfl, rfl, ht⟩ := (ih (by omega)).1 hm
        exact ⟨c :: t, rest, rfl, rfl, (closes_cons hd).2 ht⟩
    · rintro ⟨t, rest, h, rfl, ht⟩
      rcases t with _ | ⟨b, t⟩
      · exact absurd ht (not_closes_nil hd)
      obtain ⟨rfl, rfl⟩ := List.cons.inj h
      rw [closes_cons hd] at ht
      split
      · next h₀ =>
        rw [h₀] at ht
        simp [closes_zero.1 ht]
      · next h₀ =>
        rw [(ih (by omega)).2 ⟨t, rest, rfl, rfl, ht⟩]
        rfl

theorem length?_eq_some_iff :
    length? text = some n ↔ ∃ t rest, text = t ++ rest ∧ t.length = n ∧ IsGroup t := by
  constructor
  · intro h
    rcases text with _ | ⟨c, cs⟩
    · simp [length?] at h
    rw [length?] at h
    split at h
    · next hc =>
      obtain ⟨m, hm, rfl⟩ := Option.map_eq_some_iff.1 h
      obtain ⟨t, rest, rfl, rfl, ht⟩ := (closing?_eq_some_iff (Nat.le_refl 1)).1 hm
      exact ⟨c :: t, rest, rfl, rfl, isGroup_cons.2 ⟨hc, ht⟩⟩
    · simp at h
  · rintro ⟨t, rest, rfl, rfl, ht⟩
    rcases t with _ | ⟨c, t⟩
    · simpa using ht.opens
    obtain ⟨rfl, hc⟩ := isGroup_cons.1 ht
    have h := (closing?_eq_some_iff (Nat.le_refl 1)).2 ⟨t, rest, rfl, rfl, hc⟩
    simp [length?, h]

theorem length?_append (h : IsGroup t) (rest : Text) : length? (t ++ rest) = some t.length :=
  length?_eq_some_iff.2 ⟨t, rest, rfl, rfl, h⟩

theorem IsGroup.eq_of_append_eq {u v w : Text} (ht : IsGroup t) (hu : IsGroup u)
    (h : t ++ v = u ++ w) : t = u := by
  have hl := length?_append ht v
  rw [h, length?_append hu w, Option.some.injEq] at hl
  exact (List.append_inj h hl.symm).1

theorem isGroup_iff_length? : IsGroup t ↔ length? t = some t.length := by
  constructor
  · intro h
    simpa using length?_append h []
  · intro h
    obtain ⟨u, rest, hu, hl, hg⟩ := length?_eq_some_iff.1 h
    have hr : rest = [] := by
      have := congrArg List.length hu
      rw [List.length_append] at this
      exact List.eq_nil_of_length_eq_zero (by omega)
    rw [hu, hr, List.append_nil]
    exact hg

instance (t : Text) : Decidable (IsGroup t) :=
  decidable_of_iff _ isGroup_iff_length?.symm

theorem IsGroup.exists_eq (h : IsGroup t) : ∃ inner, t = '(' :: inner ++ [')'] := by
  rcases t with _ | ⟨c, t⟩
  · simpa using h.opens
  obtain ⟨rfl, hc⟩ := isGroup_cons.1 h
  rcases List.eq_nil_or_concat t with rfl | ⟨inner, a, rfl⟩
  · exact absurd hc (not_closes_nil (Nat.le_refl 1))
  have h₁ := hc.balanced
  have h₂ := hc.shortest inner [a] (by simp) (by simp)
  have ha : a = ')' := by
    by_contra ha
    rw [List.concat_eq_append, List.count_append, List.count_append,
      List.count_singleton, List.count_singleton] at h₁
    simp [ha] at h₁
    omega
  exact ⟨inner, by simp [ha]⟩

/-- Open parentheses are closed by a text with enough closing ones. -/
theorem exists_closes (h : t.count '(' + depth ≤ t.count ')') :
    ∃ u rest, t = u ++ rest ∧ Closes depth u := by
  induction t generalizing depth with
  | nil =>
    obtain rfl : depth = 0 := by simpa using h
    exact ⟨[], [], rfl, closes_zero.2 rfl⟩
  | cons c t ih =>
    by_cases hd : depth = 0
    · exact ⟨[], c :: t, rfl, hd ▸ closes_zero.2 rfl⟩
    · have hcount := count_cons_depthAfter (Nat.one_le_iff_ne_zero.2 hd) c t
      obtain ⟨u, rest, rfl, hu⟩ := ih (show t.count '(' + depthAfter depth c ≤ t.count ')' by omega)
      exact ⟨c :: u, rest, rfl, (closes_cons (Nat.one_le_iff_ne_zero.2 hd)).2 hu⟩

/-- A parenthesis that opens in a group closes there. -/
theorem IsGroup.exists_inner {u w : Text} (h : IsGroup (u ++ '(' :: w)) (hu : u ≠ []) :
    ∃ inner rest, '(' :: w = inner ++ rest ∧ IsGroup inner := by
  have hopen := h.shortest u ('(' :: w) rfl hu (by simp)
  have hbalanced := h.balanced
  rw [List.count_append, List.count_append, List.count_cons_self,
    List.count_cons_of_ne (by decide)] at hbalanced
  have hclose : w.count '(' + 1 ≤ w.count ')' := by omega
  obtain ⟨inner, rest, rfl, hinner⟩ := exists_closes hclose
  exact ⟨'(' :: inner, rest, rfl, isGroup_cons.2 ⟨rfl, hinner⟩⟩

end ComponentTags.Group
