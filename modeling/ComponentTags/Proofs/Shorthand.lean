import ComponentTags.Proofs.Group
import ComponentTags.Proofs.Reading

/-!
# Where the shorthand forms are found

Each search for a shorthand form finds exactly the texts of that form. `length` counts what the
search takes away.
-/

namespace ComponentTags.Shorthand

open Text

variable {c : Cursor} {directive name arguments inner text : Text} {n : Nat}

/-- A call is an at sign, the name of the directive and a group. -/
theorem call?_eq_some_iff :
    call? directive c = some (arguments, n) ↔
      ∃ rest, c.rest = '@' :: directive ++ arguments ++ rest ∧ Group.IsGroup arguments ∧
        n = directive.length + 1 + arguments.length := by
  constructor
  · intro h
    unfold call? at h
    split at h
    · next hp =>
      obtain ⟨rest, hr⟩ := List.isPrefixOf_iff_prefix.1 hp
      have hd : c.rest = '@' :: directive ++ '(' :: rest := by simp [← hr, callOpening]
      have hg : c.rest.drop (directive.length + 1) = '(' :: rest := by simp [hd]
      simp only [hg] at h
      split at h
      · next m hm =>
        obtain ⟨t, rest', ht, rfl, hgroup⟩ := Group.length?_eq_some_iff.1 hm
        simp only [Option.some.injEq, Prod.mk.injEq, ht, List.take_left] at h
        obtain ⟨rfl, rfl⟩ := h
        exact ⟨rest', by rw [hd, ht, List.append_assoc], hgroup, rfl⟩
      · simp at h
    · simp at h
  · rintro ⟨rest, hr, hg, rfl⟩
    obtain ⟨tail, htail⟩ := hg.exists_eq
    have hp : (callOpening directive).isPrefixOf c.rest = true := by
      rw [List.isPrefixOf_iff_prefix, hr, htail]
      exact ⟨tail ++ ')' :: rest, by simp [callOpening]⟩
    have hd : c.rest.drop (directive.length + 1) = arguments ++ rest := by
      rw [hr, List.append_assoc]
      exact List.drop_left' (by simp)
    simp [call?, hp, hd, Group.length?_append hg]

/-- An echo of the attribute bag is its name between double braces, after blanks and before
anything without a closing brace. -/
theorem bag?_eq_some_iff :
    bag? text = some (inner, n) ↔
      ∃ blanks rest, text = '{' :: '{' :: (blanks ++ bagName ++ inner ++ '}' :: '}' :: rest) ∧
        (∀ a ∈ blanks, isBlank a = true) ∧ '}' ∉ inner ∧
        n = blanks.length + bagName.length + inner.length + 4 := by
  constructor
  · intro h
    unfold bag? at h
    split at h
    · next text rest =>
      obtain ⟨tail₁, h₁, h₁', -⟩ := exists_eq_takeWhile_append isBlank rest
      simp only [h₁'] at h
      split at h
      · next tail htail =>
        obtain ⟨tail₂, h₂, h₂', -⟩ := exists_eq_takeWhile_append (· != '}') tail
        simp only [h₂'] at h
        split at h
        · next rest' =>
          simp only [Option.some.injEq, Prod.mk.injEq] at h
          obtain ⟨rfl, rfl⟩ := h
          refine ⟨rest.takeWhile isBlank, rest', ?_, fun a ha => of_mem_takeWhile ha, ?_, rfl⟩
          · have h₃ := List.isPrefixOf?_eq_some_iff_append_eq.1 htail
            rw [List.append_assoc, List.append_assoc, ← h₂, h₃, ← h₁]
          · intro hm
            simpa using of_mem_takeWhile hm
        · simp at h
      · simp at h
    · simp at h
  · rintro ⟨blanks, rest, rfl, hb, hi, rfl⟩
    have h₁ : (blanks ++ bagName ++ inner ++ '}' :: '}' :: rest).takeWhile isBlank = blanks := by
      rw [List.append_assoc, List.append_assoc]
      exact takeWhile_append hb (stops_cons.2 (by decide))
    have h₂ : (inner ++ '}' :: '}' :: rest).takeWhile (· != '}') = inner := by
      apply takeWhile_append
      · intro a ha
        have hne : a ≠ '}' := fun e => hi (e ▸ ha)
        simpa using hne
      · simp
    have h₃ : bagName.isPrefixOf? ((blanks ++ bagName ++ inner ++ '}' :: '}' :: rest).drop
        blanks.length) = some (inner ++ '}' :: '}' :: rest) := by
      rw [List.append_assoc, List.append_assoc, List.drop_left,
        List.isPrefixOf?_eq_some_iff_append_eq]
    simp only [bag?, h₁, h₂, h₃, List.drop_left]

theorem boundVariable?_eq_some_iff :
    boundVariable? c = some (name, n) ↔
      ∃ a rest, c.rest = a :: ':' :: '$' :: (name ++ rest) ∧ isSpace a = true ∧
        IsRun isWordChar name ∧ Stops isWordChar rest ∧ n = name.length + 3 := by
  constructor
  · intro h
    unfold boundVariable? at h
    split at h
    · next a rest hr =>
      obtain ⟨tail, h₁, -, h₂⟩ := exists_eq_takeWhile_append isWordChar rest
      simp only at h
      split at h
      · next hc =>
        simp only [Bool.and_eq_true, Bool.not_eq_true', List.isEmpty_eq_false_iff] at hc
        simp only [Option.some.injEq, Prod.mk.injEq] at h
        obtain ⟨rfl, rfl⟩ := h
        refine ⟨a, tail, by rw [hr, ← h₁], hc.1, ⟨hc.2, fun x hx => ?_⟩, h₂, rfl⟩
        exact of_mem_takeWhile hx
      · simp at h
    · simp at h
  · rintro ⟨a, rest, hr, ha, hn, hs, rfl⟩
    simp [boundVariable?, hr, takeWhile_append hn.2 hs, ha, hn.1]

theorem bagEcho?_eq_some_iff :
    bagEcho? c = some (text, n) ↔
      ∃ blanks rest inner m, c.rest = blanks ++ rest ∧ (∀ x ∈ blanks, isBlank x = true) ∧
        (blanks ≠ [] ∨ c.pos = 0) ∧ bag? rest = some (inner, m) ∧
        text = trimEnd isBlank inner ∧ n = blanks.length + m := by
  obtain ⟨tail, h₁, h₁', -⟩ := exists_eq_takeWhile_append isBlank c.rest
  constructor
  · intro h
    unfold bagEcho? at h
    simp only [h₁'] at h
    split at h
    · simp at h
    · next hc =>
      split at h
      · next inner m hb =>
        simp only [Option.some.injEq, Prod.mk.injEq] at h
        refine ⟨_, tail, inner, m, h₁, fun x hx => of_mem_takeWhile hx, ?_, hb, h.1.symm,
          h.2.symm⟩
        by_cases h₀ : c.pos = 0
        · exact Or.inr h₀
        · left
          intro he
          simp [he, h₀] at hc
      · simp at h
  · rintro ⟨blanks, rest, inner, m, hr, hb, hp, hbag, rfl, rfl⟩
    have ht : c.rest.takeWhile isBlank = blanks := by
      rw [hr]
      refine takeWhile_append hb ?_
      obtain ⟨_, _, rfl, -⟩ := bag?_eq_some_iff.1 hbag
      exact stops_cons.2 (by decide)
    have hc : (blanks.isEmpty && c.pos != 0) = false := by
      rcases hp with hp | hp
      · simp [hp]
      · simp [hp]
    simp only [bagEcho?, ht, hc]
    simp [hr, hbag]

theorem binding?_eq_some_iff :
    binding? c = some (name, n) ↔
      ∃ spaces rest, c.rest = spaces ++ ':' :: (name ++ '=' :: rest) ∧
        (∀ x ∈ spaces, isSpace x = true) ∧ (spaces ≠ [] ∨ c.pos = 0) ∧
        IsRun isAttributeNameChar name ∧ name.head? ≠ some ':' ∧
        n = spaces.length + name.length + 2 := by
  constructor
  · intro h
    obtain ⟨tail, h₁, h₁', -⟩ := exists_eq_takeWhile_append isSpace c.rest
    unfold binding? at h
    simp only [h₁'] at h
    split at h
    · simp at h
    · next hc =>
      split at h
      · next rest =>
        obtain ⟨tail', h₂, h₂', -⟩ := exists_eq_takeWhile_append isAttributeNameChar rest
        simp only [h₂'] at h
        split at h
        · next a as rest' ha =>
          split at h
          · simp at h
          · next hne =>
            simp only [Option.some.injEq, Prod.mk.injEq] at h
            obtain ⟨rfl, rfl⟩ := h
            refine ⟨c.rest.takeWhile isSpace, rest', ?_, fun x hx => of_mem_takeWhile hx, ?_,
              ⟨?_, fun x hx => of_mem_takeWhile hx⟩, ?_, rfl⟩
            · rw [← h₂, ← h₁]
            · by_cases h₀ : c.pos = 0
              · exact Or.inr h₀
              · left
                intro he
                simp [he, h₀] at hc
            · simp [ha]
            · simp [ha, hne]
        · simp at h
      · simp at h
  · rintro ⟨spaces, rest, hr, hs, hp, hn, hne, rfl⟩
    have ht : c.rest.takeWhile isSpace = spaces := by
      rw [hr]
      exact takeWhile_append hs (stops_cons.2 (by decide))
    have hc : (spaces.isEmpty && c.pos != 0) = false := by
      rcases hp with hp | hp
      · simp [hp]
      · simp [hp]
    have htn : (name ++ '=' :: rest).takeWhile isAttributeNameChar = name :=
      takeWhile_append hn.2 (stops_cons.2 (by decide))
    obtain ⟨a, as, rfl, -⟩ := hn.exists_cons
    have ha : a ≠ ':' := by simpa using hne
    have hd : (a :: as ++ '=' :: rest).drop (a :: as).length = '=' :: rest := List.drop_left
    simp only [binding?, ht, hc]
    simp only [hr, List.drop_left, htn, hd]
    simp [ha]

end ComponentTags.Shorthand
