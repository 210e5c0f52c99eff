import ComponentTags.Proofs.Shorthand
import ComponentTags.Tag.Grammar

/-!
# Where groups end

The end of a group is a matter of counting (`Balances`): from its beginning up to there the text
has as many closing as opening parentheses, and up to every place between it has more opening
ones. `end?` finds this place behind an opening parenthesis, and finds none if there is none.

Nothing outside of the group matters. So a part of the text with the group in it has the same
group (`end?_extract`), and a call ends at the same place for the tag that it stands in and for the
attributes of that tag (`exists_callEnds_iff`).
-/

namespace ComponentTags.Group

variable {text t : Text} {start stop low high : Nat}

/-! ## Groups by places -/

/-- From `start` on, `stop` is the first place further on up to which there are as many closing as
opening parentheses; up to every place between there are more opening ones. -/
structure Balances (text : Text) (start stop : Nat) : Prop where
  lt_stop : start < stop
  stop_le : stop ≤ text.length
  balanced : (text.extract start stop).count ')' = (text.extract start stop).count '('
  shortest : ∀ q, start < q → q < stop →
    (text.extract start q).count ')' < (text.extract start q).count '('

theorem IsGroup.length_pos (h : IsGroup t) : 0 < t.length := by
  refine List.length_pos_iff.2 ?_
  rintro rfl
  simpa using h.opens

theorem isGroup_iff_take :
    IsGroup t ↔ t.head? = some '(' ∧ t.count ')' = t.count '(' ∧
      ∀ k, 0 < k → k < t.length → (t.take k).count ')' < (t.take k).count '(' := by
  constructor
  · intro h
    refine ⟨h.opens, h.balanced.symm, fun k hk hlt => ?_⟩
    refine h.shortest (t.take k) (t.drop k) (List.take_append_drop k t).symm ?_ ?_
    · exact List.ne_nil_of_length_pos (by rw [List.length_take]; omega)
    · exact List.ne_nil_of_length_pos (by rw [List.length_drop]; omega)
  · rintro ⟨hopens, hbalanced, hshortest⟩
    refine ⟨hopens, hbalanced.symm, ?_⟩
    rintro u w rfl hu hw
    have hpos := List.length_pos_iff.2 hw
    simpa using hshortest u.length (List.length_pos_iff.2 hu) (by rw [List.length_append]; omega)

theorem extract_eq_take (h : t <+: text.drop start) {q : Nat} (hq : q ≤ start + t.length) :
    text.extract start q = t.take (q - start) := by
  obtain ⟨rest, hrest⟩ := h
  rw [List.extract_eq_take_drop, ← hrest, List.take_append_of_le_length (by omega)]

/-- A group at a place of a text, by places and as a text. -/
theorem opens_and_balances_iff :
    text[start]? = some '(' ∧ Balances text start stop ↔
      ∃ t, t <+: text.drop start ∧ stop = start + t.length ∧ IsGroup t := by
  constructor
  · rintro ⟨hopens, h⟩
    have hlt := h.lt_stop
    have hle := h.stop_le
    have hlen : (text.extract start stop).length = stop - start := by
      rw [List.extract_eq_take_drop, List.length_take, List.length_drop]
      omega
    have hbegins : text.extract start stop <+: text.drop start := List.take_prefix _ _
    refine ⟨text.extract start stop, hbegins, by omega, isGroup_iff_take.2 ?_⟩
    refine ⟨?_, h.balanced, fun k hk hkl => ?_⟩
    · rw [List.extract_eq_take_drop, List.head?_take, if_neg (by omega), List.head?_drop]
      exact hopens
    · have hshortest := h.shortest (start + k) (by omega) (by omega)
      rwa [extract_eq_take hbegins (by omega), Nat.add_sub_cancel_left] at hshortest
  · rintro ⟨t, hbegins, rfl, hgroup⟩
    obtain ⟨hopens, hbalanced, hshortest⟩ := isGroup_iff_take.1 hgroup
    have hlen := hbegins.length_le
    have hpos := hgroup.length_pos
    rw [List.length_drop] at hlen
    refine ⟨?_, by omega, by omega, ?_, fun q hq hqs => ?_⟩
    · obtain ⟨rest, hrest⟩ := hbegins
      rw [← List.head?_drop, ← hrest, List.head?_append, hopens]
      rfl
    · rw [extract_eq_take hbegins (Nat.le_refl _), Nat.add_sub_cancel_left, List.take_length]
      exact hbalanced
    · rw [extract_eq_take hbegins (by omega)]
      exact hshortest (q - start) (by omega) (by omega)

theorem end?_eq_some_iff_exists :
    Group.end? text start = some stop ↔
      ∃ t, t <+: text.drop start ∧ stop = start + t.length ∧ IsGroup t := by
  rw [end?, Option.map_eq_some_iff]
  constructor
  · rintro ⟨n, hn, rfl⟩
    obtain ⟨t, rest, hdrop, rfl, hgroup⟩ := length?_eq_some_iff.1 hn
    exact ⟨t, ⟨rest, hdrop.symm⟩, rfl, hgroup⟩
  · rintro ⟨t, ⟨rest, hdrop⟩, rfl, hgroup⟩
    exact ⟨t.length, length?_eq_some_iff.2 ⟨t, rest, hdrop.symm, rfl, hgroup⟩, rfl⟩

theorem end?_eq_some_iff :
    Group.end? text start = some stop ↔ text[start]? = some '(' ∧ Balances text start stop :=
  Group.end?_eq_some_iff_exists.trans opens_and_balances_iff.symm

theorem end?_eq_none_iff :
    Group.end? text start = none ↔
      text[start]? ≠ some '(' ∨ ¬ ∃ stop, Balances text start stop := by
  rw [Option.eq_none_iff_forall_ne_some, ← not_and_or]
  constructor
  · rintro h ⟨hopens, stop, hstop⟩
    exact h stop (end?_eq_some_iff.2 ⟨hopens, hstop⟩)
  · intro h stop hstop
    obtain ⟨hopens, hbalances⟩ := end?_eq_some_iff.1 hstop
    exact h ⟨hopens, stop, hbalances⟩

/-! ## Groups in a part of a text -/

theorem drop_extract (text : Text) (high : Nat) (h : low ≤ start) :
    (text.extract low high).drop (start - low) = (text.drop start).take (high - start) := by
  have hlow : low + (start - low) = start := by omega
  have hhigh : high - low - (start - low) = high - start := by omega
  rw [List.extract_eq_take_drop, List.drop_take, List.drop_drop, hlow, hhigh]

/-- A part of a text has the groups of the text that end in it, at places counted from where the
part begins. -/
theorem end?_extract (text : Text) (high stop : Nat) (h : low ≤ start) :
    Group.end? (text.extract low high) (start - low) = some stop ↔
      Group.end? text start = some (low + stop) ∧ low + stop ≤ high := by
  rw [end?_eq_some_iff_exists, end?_eq_some_iff_exists, drop_extract text high h]
  constructor
  · rintro ⟨t, hbegins, rfl, hgroup⟩
    have hpos := hgroup.length_pos
    obtain ⟨hbegins, hle⟩ := List.prefix_take_iff.1 hbegins
    exact ⟨⟨t, hbegins, by omega, hgroup⟩, by omega⟩
  · rintro ⟨⟨t, hbegins, hstop, hgroup⟩, hle⟩
    exact ⟨t, List.prefix_take_iff.2 ⟨hbegins, by omega⟩, by omega, hgroup⟩

/-! ## The two readers of a call -/

variable {directive : Text} {c d : Cursor}

theorem exists_call?_iff :
    (∃ group n, Shorthand.call? directive c = some (group, n) ∧ c.pos + n = stop) ↔
      '@' :: directive <+: c.rest ∧ end? c.text (c.pos + (directive.length + 1)) = some stop := by
  rw [end?_eq_some_iff_exists, ← List.drop_drop, c.drop_text]
  constructor
  · rintro ⟨group, n, hcall, rfl⟩
    obtain ⟨rest, hrest, hgroup, rfl⟩ := Shorthand.call?_eq_some_iff.1 hcall
    rw [List.append_assoc] at hrest
    refine ⟨⟨group ++ rest, hrest.symm⟩, group, ⟨rest, ?_⟩, by omega, hgroup⟩
    rw [hrest]
    exact (List.drop_left' rfl).symm
  · rintro ⟨⟨tail, htail⟩, group, ⟨rest, hrest⟩, rfl, hgroup⟩
    have hdrop : c.rest.drop (directive.length + 1) = tail := by
      rw [← htail]
      exact List.drop_left' rfl
    rw [hdrop] at hrest
    refine ⟨group, _, Shorthand.call?_eq_some_iff.2 ⟨rest, ?_, hgroup, rfl⟩, by omega⟩
    rw [← htail, ← hrest, List.append_assoc]

theorem exists_callEnds_iff :
    (∃ e ∈ Tag.callEnds directive c, e.pos = stop) ↔
      ∃ group n, Shorthand.call? directive c = some (group, n) ∧ c.pos + n = stop := by
  have hpos : ∀ {group n}, Shorthand.call? directive c = some (group, n) →
      (c.advance n).pos = c.pos + n := by
    intro group n h
    obtain ⟨rest, hrest, -, rfl⟩ := Shorthand.call?_eq_some_iff.1 h
    refine Cursor.pos_advance ?_
    rw [hrest]
    simp
    omega
  unfold Tag.callEnds
  rcases hcall : Shorthand.call? directive c with _ | ⟨group, n⟩
  · simp
  · simp [hpos hcall]

/-- A call in a part of a text is a call of the text, and ends at the same place for both. -/
theorem exists_callEnds_extract (hd : d.text = c.text.extract low high)
    (hpos : c.pos = low + d.pos) :
    (∃ group n, Shorthand.call? directive d = some (group, n) ∧ d.pos + n = stop) ↔
      (∃ e ∈ Tag.callEnds directive c, e.pos = low + stop) ∧ low + stop ≤ high := by
  have hrest : d.rest = c.rest.take (high - c.pos) := by
    have hdrop := drop_extract c.text high (show low ≤ c.pos by omega)
    rwa [← hd, hpos, Nat.add_sub_cancel_left, d.drop_text, ← hpos, c.drop_text] at hdrop
  have hend := end?_extract c.text high stop (show low ≤ c.pos + (directive.length + 1) by omega)
  have hstart : c.pos + (directive.length + 1) - low = d.pos + (directive.length + 1) := by omega
  rw [hstart] at hend
  rw [exists_callEnds_iff, exists_call?_iff, exists_call?_iff, hd, hend, hrest,
    List.prefix_take_iff, List.length_cons]
  constructor
  · rintro ⟨⟨hname, -⟩, hgroup, hle⟩
    exact ⟨⟨hname, hgroup⟩, hle⟩
  · rintro ⟨⟨hname, hgroup⟩, hle⟩
    have hlt := (end?_eq_some_iff.1 hgroup).2.lt_stop
    exact ⟨⟨hname, by omega⟩, hgroup, hle⟩

/-- **The end of a group.** `end?` gives `stop` exactly if a parenthesis opens at `start` and the
text from there up to `stop` is the shortest with as many closing as opening ones; it gives nothing
exactly if no parenthesis opens there or there is no such place. In a part of the text it gives the
same place, counted from where the part begins, exactly if this place is in the part. So a call ends
at one place for the search through the tag that it stands in and for the search through a part of
that tag. -/
theorem end?_shortest_and_local (text : Text) (start : Nat) :
    (∀ stop, end? text start = some stop ↔
      text[start]? = some '(' ∧ Balances text start stop) ∧
    (end? text start = none ↔
      text[start]? ≠ some '(' ∨ ¬ ∃ stop, Balances text start stop) ∧
    (∀ low high stop, low ≤ start →
      (end? (text.extract low high) (start - low) = some stop ↔
        Group.end? text start = some (low + stop) ∧ low + stop ≤ high)) ∧
    ∀ (directive : Text) (low high : Nat) (c d : Cursor), c.text = text →
      d.text = text.extract low high → c.pos = low + d.pos → ∀ stop,
        ((∃ group n, Shorthand.call? directive d = some (group, n) ∧ d.pos + n = stop) ↔
          (∃ e ∈ Tag.callEnds directive c, e.pos = low + stop) ∧ low + stop ≤ high) := by
  refine ⟨fun stop => end?_eq_some_iff, end?_eq_none_iff, ?_, ?_⟩
  · intro low high stop h
    exact end?_extract text high stop h
  · rintro directive low high c d rfl hd hpos stop
    exact exists_callEnds_extract hd hpos

/-- A tag whose attributes are a call with a group in its group. -/
def nestedCallTag : Text :=
  "<x-a @class(f(1)) />".toList

/-- The call ends behind position 16 of the tag, which is 12 in its attributes, for both. -/
theorem end?_nestedCallTag :
    (nestedCallTag[11]? = some '(' ∧ Balances nestedCallTag 11 17) ∧
      Group.end? (nestedCallTag.extract 4 18) (11 - 4) = some 13 ∧
      ∃ e ∈ Tag.callEnds Shorthand.classDirective (Cursor.ofPos nestedCallTag 5),
        e.pos = 4 + 13 := by
  obtain ⟨hsome, -, hpart, hcalls⟩ := end?_shortest_and_local nestedCallTag 11
  have hend : end? nestedCallTag 11 = some 17 := by decide
  refine ⟨(hsome 17).1 hend, (hpart 4 18 13 (by decide)).2 ⟨hend, by decide⟩, ?_⟩
  have hcall := hcalls Shorthand.classDirective 4 18 (Cursor.ofPos nestedCallTag 5)
    (Cursor.ofPos (nestedCallTag.extract 4 18) 1) rfl rfl rfl 13
  exact (hcall.1 ⟨"(f(1))".toList, 12, by decide, rfl⟩).1

end ComponentTags.Group
