import ComponentTags.Proofs.Nesting
import ComponentTags.Proofs.Occurrences

/-!
# No closing tag is left

The pass for the closing tags of components is the last one of the standard passes. It goes over
what the other passes left, whatever came in there from attributes and names, and leaves no closing
tag (`not_holdsClosing_closeComponents`):

1. It finds every closing tag (`componentClosing?_ne_none`).
2. What it puts in has no bracket in it, and no closing tag goes on into it, because of the at sign
   behind its first space (`keepsOut_closing`). So it makes no new closing tag with what stands
   around it.
-/

namespace ComponentTags

open Text

variable {c : Cursor} {u : Text}

namespace Tag

theorem stops_isTagNameChar {gap : Text} (hgap : ∀ x ∈ gap, isSpace x = true) (v : Text) :
    Stops isTagNameChar (gap ++ '>' :: v) := by
  rcases gap with _ | ⟨a, gap⟩
  · exact stops_cons.2 (by decide)
  · refine stops_cons.2 (Bool.eq_false_iff.2 fun ha => ?_)
    have hspace := isSpace_of_isAttributeNameChar (isAttributeNameChar_of_isTagNameChar ha)
    rw [hgap a (by simp)] at hspace
    exact Bool.noConfusion hspace

theorem componentClosing?_ne_none (hu : IsClosing u) (hc : u <+: c.rest) :
    componentClosing? c ≠ none := by
  obtain ⟨gap, mark, name, gap', hmark, hgap, hname, hgap', rfl⟩ := hu
  obtain ⟨v, hv⟩ := hc
  have hr₁ : c.rest = ['<', '/'] ++ (gap ++ (mark ++ (name ++ (gap' ++ '>' :: v)))) := by
    simp [← hv]
  have hr₂ := Cursor.rest_advance_append hr₁
  have hr₃ := Cursor.rest_advance_append hr₂
  have hr₄ := Cursor.rest_advance_append hr₃
  have hr₅ := Cursor.rest_advance_append hr₄
  have hr₆ := Cursor.rest_advance_append hr₅
  have hstops : Stops isSpace (mark ++ (name ++ (gap' ++ '>' :: v))) := by
    rcases List.mem_cons.1 hmark with rfl | hmark
    · exact stops_cons.2 (by decide)
    · rw [List.mem_singleton.1 hmark]
      exact stops_cons.2 (by decide)
  have hfound := (Form.mark?_eq_some_iff (k := .opening)).2 ⟨mark, hmark, ⟨_, hr₃.symm⟩, rfl⟩
  change afterComponentMark? _ = some _ at hfound
  rw [componentClosing?_eq_bind, afterClosingMark?, Cursor.expect?_append hr₁, Option.bind_some,
    Cursor.skipWhile_append hr₂ hgap hstops, hfound, Option.bind_some,
    Cursor.skipWhile_append hr₄ hname (stops_isTagNameChar hgap' v),
    Cursor.skipWhile_append hr₅ hgap' (stops_cons.2 (by decide)),
    Cursor.expect?_append (show _ = ['>'] ++ v from hr₆)]
  exact Option.some_ne_none _

theorem IsClosing.exists_cons (h : IsClosing u) : ∃ w, u = '<' :: w := by
  obtain ⟨gap, mark, name, gap', -, -, -, -, rfl⟩ := h
  exact ⟨_, rfl⟩

/-- No closing tag goes on into what is put in for one. -/
theorem keepsOut_closing {hit : Cursor → Option (Unit × Nat)} {w : Text}
    (hu : IsClosing ('<' :: w)) : Cursor.KeepsOut hit (fun _ => Directive.closing) w := by
  intro d item n _ s v hs hne hbegins
  have hat : '@' ∉ s := fun hmem =>
    hu.not_mem (by decide) (by decide) (by decide) (List.mem_cons_of_mem _ (hs.subset hmem))
  obtain ⟨rest, hclosing⟩ : ∃ rest, Directive.closing = ' ' :: '@' :: rest := ⟨_, rfl⟩
  simp only [hclosing, List.cons_append] at hbegins
  rcases s with _ | ⟨a, _ | ⟨b, s⟩⟩
  · exact hne rfl
  · -- the last character of a closing tag is its bracket
    obtain ⟨w', hw⟩ := hu.exists_eq
    obtain ⟨w'', rfl⟩ := hs
    have heq : ('<' :: w'') ++ [a] = w' ++ ['>'] := hw
    have hlast : [a] = ['>'] := (List.append_inj' heq rfl).2
    have hspace := (List.cons_prefix_cons.1 hbegins).1
    simp [hspace] at hlast
  · have hb := (List.cons_prefix_cons.1 (List.cons_prefix_cons.1 hbegins).2).1
    exact hat (by simp [hb])

end Tag

namespace Compiler

/-- **The closing pass.** Whatever it goes over, it leaves no closing tag. -/
theorem not_holdsClosing_closeComponents (template : Text) :
    ¬ HoldsClosing (closeComponents template) := by
  rintro ⟨u, hu, hin⟩
  obtain ⟨w, rfl⟩ := hu.exists_cons
  rcases Cursor.infix_expand (Tag.keepsOut_closing hu) hin with
    ⟨d, -, hnone, hbegins⟩ | ⟨d, item, n, s, v, -, -, hs, hne, hbegins⟩
  · exact Tag.componentClosing?_ne_none hu hbegins hnone
  · obtain ⟨a, s, rfl⟩ := List.exists_cons_of_ne_nil hne
    obtain ⟨rfl, -⟩ := List.cons_prefix_cons.1 hbegins
    have hmem : '<' ∈ Directive.closing := hs.subset (by simp)
    exact absurd hmem (by decide)

theorem runPasses_append (t : Compiler) (before after : List Pass) (template : Text) :
    t.runPasses (before ++ after) template =
      t.runPasses before template >>= t.runPasses after := by
  induction before generalizing template with
  | nil => rw [List.nil_append, runPasses, pure_bind]
  | cons p before ih => simp only [List.cons_append, runPasses, ih, bind_assoc]

/-- The closing pass is the last pass of a compiler whose last variant is the standard one. -/
theorem exists_closeComponents_eq {t : Compiler} {variants : List Variant} {template out : Text}
    (hlast : variants.getLast? = some .standard)
    (h : (t.compile variants template).outcome = .ok out) :
    ∃ left, out = closeComponents left := by
  obtain ⟨before, rfl⟩ := List.getLast?_eq_some_iff.1 hlast
  have hpasses : (before ++ [Variant.standard]).flatMap Variant.passes =
      (before.flatMap Variant.passes ++ [.slots, .selfClosing, .opening]) ++ [.closing] := by
    simp [Variant.passes]
  rw [compile, hpasses, runPasses_append, Traced.outcome_bind] at h
  rcases hleft : (t.runPasses (before.flatMap Variant.passes ++ [.slots, .selfClosing, .opening])
    template).outcome with e | left
  · rw [hleft] at h
    cases h
  · rw [hleft] at h
    exact ⟨left, (Except.ok.inj h).symm⟩

/-- **No closing tag is left.** If the standard variant is compiled last, then what a compiler makes
of a template has no closing tag of a component anywhere in it. -/
theorem not_holdsClosing_of_compile {t : Compiler} {variants : List Variant} {template out : Text}
    (hlast : variants.getLast? = some .standard)
    (h : (t.compile variants template).outcome = .ok out) : ¬ HoldsClosing out := by
  obtain ⟨left, rfl⟩ := exists_closeComponents_eq hlast h
  exact not_holdsClosing_closeComponents left

/-- What is put in for the first tag parts the bracket before it from the slash behind it. -/
theorem not_holdsClosing_of_compile_seam :
    (everyClass.compile Variant.all "<</x-a>/x-b></\tx:c >".toList).outcome =
        .ok ("< @endComponentClass##END-COMPONENT-CLASS##/x-b>" ++
          " @endComponentClass##END-COMPONENT-CLASS##").toList ∧
      ¬ HoldsClosing ("< @endComponentClass##END-COMPONENT-CLASS##/x-b>" ++
        " @endComponentClass##END-COMPONENT-CLASS##").toList := by
  have hcompile : (everyClass.compile Variant.all "<</x-a>/x-b></\tx:c >".toList).outcome =
      .ok ("< @endComponentClass##END-COMPONENT-CLASS##/x-b>" ++
        " @endComponentClass##END-COMPONENT-CLASS##").toList := by
    decide
  exact ⟨hcompile, not_holdsClosing_of_compile rfl hcompile⟩

end Compiler

end ComponentTags
