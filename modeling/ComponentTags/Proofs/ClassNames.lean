import ComponentTags.Name

/-!
# The classes that names stand for

The class of a dotted name can be written down in one pass over the name (`Name.spelled`): a dot
becomes a backslash, what breaks words goes, and the first character of each word is a capital.
`Name.className` cuts the name up and puts it together again, with the same result
(`Name.className_eq_spelled`).
-/

namespace ComponentTags

open Text

namespace Text

variable {t : Text}

/-! ## Capitals -/

theorem Case.mapped_ne_nil {runs : List Run} {expansions : List (Nat × List Nat)}
    (h : (expansions.all fun e => !e.2.isEmpty) = true) (c : Char) :
    mapped runs expansions c ≠ [] := by
  unfold mapped
  split
  · next image himage =>
    obtain ⟨before, after, rfl, -⟩ := List.lookup_eq_some_iff.1 himage
    simp only [List.all_append, List.all_cons, Bool.and_eq_true] at h
    simpa using h.2.1
  · split <;> exact List.cons_ne_nil _ _

theorem upperChar_ne_nil (c : Char) : upperChar c ≠ [] := by
  unfold upperChar
  split
  · exact List.cons_ne_nil _ _
  · exact Case.mapped_ne_nil (by decide) c

theorem lowerChar_ne_nil (c : Char) : lowerChar c ≠ [] := by
  unfold lowerChar
  split
  · exact List.cons_ne_nil _ _
  · exact Case.mapped_ne_nil (by decide) c

theorem upperFirst_append (h : t ≠ []) (rest : Text) :
    upperFirst (t ++ rest) = upperFirst t ++ rest := by
  obtain ⟨c, cs, rfl⟩ := List.exists_cons_of_ne_nil h
  simp [upperFirst]

theorem lowerFirst_append (h : t ≠ []) (rest : Text) :
    lowerFirst (t ++ rest) = lowerFirst t ++ rest := by
  obtain ⟨c, cs, rfl⟩ := List.exists_cons_of_ne_nil h
  simp [lowerFirst]

theorem lowerFirst_ne_nil (h : t ≠ []) : lowerFirst t ≠ [] := by
  obtain ⟨c, cs, rfl⟩ := List.exists_cons_of_ne_nil h
  exact List.append_ne_nil_of_left_ne_nil (lowerChar_ne_nil c) cs

theorem joinWith_cons (mark first : Text) (texts : List Text) :
    joinWith mark (first :: texts) = first ++ texts.flatMap (mark ++ ·) := by
  induction texts generalizing first with
  | nil => simp [joinWith]
  | cons second texts ih =>
    rw [joinWith, List.intercalate_cons_cons, List.flatMap_cons, ← joinWith, ih]
    simp

end Text

namespace Name

variable {c : Char} {t : Text}

/-! ## One pass over a name -/

/-- Where a character of a name stands. -/
inductive Spot where
  /-- At the beginning of the name or behind a dot, but for breaks. -/
  | piece
  /-- Behind a break. -/
  | word
  | inside

/-- What is written for a character that is neither a dot nor a break. The first one of a piece is
a capital of its small letter; that makes a difference outside of ASCII alone. -/
def Spot.written (c : Char) : Spot → Text
  | .piece => upperFirst (lowerFirst (upperChar c))
  | .word => upperChar c
  | .inside => [c]

def Spot.afterBreak : Spot → Spot
  | .piece => .piece
  | .word => .word
  | .inside => .word

/-- The class that a name stands for, relative to its namespace. -/
def spelled (spot : Spot) : Text → Text
  | [] => []
  | c :: rest =>
    if c = '.' then '\\' :: spelled .piece rest
    else if c = '-' ∨ c = '_' ∨ c = ' ' then spelled spot.afterBreak rest
    else spot.written c ++ spelled .inside rest

/-! ## Cutting the name up -/

/-- What is made of a piece of a name from a spot on. -/
def Spot.image (t : Text) : Spot → Text
  | .piece => upperFirst (camelCase t)
  | .word => studlyCase t
  | .inside =>
    match t.splitOnP isWordBreak with
    | [] => []
    | first :: words => first ++ words.flatMap upperFirst

theorem image_nil (spot : Spot) : spot.image [] = [] := by
  cases spot <;> rfl

theorem studlyCase_cons_of_break (h : isWordBreak c = true) :
    studlyCase (c :: t) = studlyCase t := by
  rw [studlyCase, List.splitOnP_cons_eq_if_modifyHead, if_pos h]
  rfl

theorem studlyCase_cons (h : isWordBreak c = false) :
    studlyCase (c :: t) = upperChar c ++ Spot.image t .inside := by
  obtain ⟨first, words, hwords⟩ := List.exists_cons_of_ne_nil (List.splitOnP_ne_nil isWordBreak t)
  rw [studlyCase, List.splitOnP_cons_eq_if_modifyHead, if_neg (by simp [h]), Spot.image, hwords]
  simp [upperFirst]

theorem image_cons_of_break (h : isWordBreak c = true) (spot : Spot) :
    spot.image (c :: t) = spot.afterBreak.image t := by
  cases spot with
  | piece => simp only [Spot.image, Spot.afterBreak, camelCase, studlyCase_cons_of_break h]
  | word => exact studlyCase_cons_of_break h
  | inside =>
    rw [Spot.image, List.splitOnP_cons_eq_if_modifyHead, if_pos h]
    rfl

theorem image_cons (h : isWordBreak c = false) (spot : Spot) :
    spot.image (c :: t) = spot.written c ++ Spot.image t .inside := by
  cases spot with
  | piece =>
    have hupper := upperChar_ne_nil c
    simp only [Spot.image, camelCase, studlyCase_cons h, lowerFirst_append hupper,
      upperFirst_append (lowerFirst_ne_nil hupper), Spot.written]
  | word => exact studlyCase_cons h
  | inside =>
    obtain ⟨first, words, hwords⟩ :=
      List.exists_cons_of_ne_nil (List.splitOnP_ne_nil isWordBreak t)
    simp [Spot.image, List.splitOnP_cons_eq_if_modifyHead, h, hwords, Spot.written]

theorem isWordBreak_iff : isWordBreak c = true ↔ c = '-' ∨ c = '_' ∨ c = ' ' := by
  simp [isWordBreak, or_assoc]

/-- The pieces between the dots are spelled one after the other. -/
theorem spelled_eq_image {first : Text} {pieces : List Text} {spot : Spot}
    (h : t.splitOn '.' = first :: pieces) :
    spelled spot t =
      spot.image first ++ pieces.flatMap fun piece => '\\' :: Spot.image piece .piece := by
  induction t generalizing first pieces spot with
  | nil =>
    obtain ⟨rfl, rfl⟩ : [] = first ∧ [] = pieces := by simpa using h
    simp [spelled, image_nil]
  | cons c t ih =>
    obtain ⟨first', pieces', hsplit⟩ := List.exists_cons_of_ne_nil (List.splitOn_ne_nil '.' t)
    rw [List.splitOn, List.splitOnP_cons_eq_if_modifyHead, ← List.splitOn, hsplit] at h
    by_cases hdot : c = '.'
    · obtain ⟨rfl, rfl⟩ : [] = first ∧ first' :: pieces' = pieces := by simpa [hdot] using h
      rw [spelled, if_pos hdot, ih hsplit, image_nil]
      simp
    · obtain ⟨rfl, rfl⟩ : c :: first' = first ∧ pieces' = pieces := by simpa [hdot] using h
      rw [spelled, if_neg hdot]
      by_cases hbreak : isWordBreak c = true
      · rw [if_pos (isWordBreak_iff.1 hbreak), ih hsplit, image_cons_of_break hbreak]
      · rw [if_neg (mt isWordBreak_iff.2 hbreak), ih hsplit,
          image_cons (Bool.eq_false_iff.2 hbreak), List.append_assoc]

/-- **Class names.** Cutting a name up and putting it together again spells its class. -/
theorem className_eq_spelled (name : Text) : className name = spelled .piece name := by
  obtain ⟨first, pieces, hsplit⟩ := List.exists_cons_of_ne_nil (List.splitOn_ne_nil '.' name)
  rw [spelled_eq_image hsplit, className, hsplit, List.map_cons, joinWith_cons, List.flatMap_map]
  rfl

example : spelled .piece "forms.text-input".toList = "Forms\\TextInput".toList := by decide

end Name

end ComponentTags
