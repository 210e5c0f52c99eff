import ComponentTags.Proofs.Replacing
import ComponentTags.Proofs.Shorthand

/-!
# The calls of a directive

A text is divided into calls of a directive and the gaps between them. This says which division it
is by places in the text, without a search (`Shorthand.IsDivision`): a call is an at sign, the name
of the directive and a group, and at no place in a gap a call begins. There is one such division
(`IsDivision.unique`), and the search for calls exchanges its calls and keeps its gaps
(`exists_isDivision`).

Parentheses that open in a group close there. So a beginning of a call that does not close stands in
a gap, as a whole (`IsDivision.exists_gap`), and stays.
-/

namespace ComponentTags.Shorthand

open Text

variable {directive helper text gap group last u v : Text} {calls : List (Text × Text)} {p : Nat}

/-! ## Calls and gaps -/

/-- A call with a group for its arguments. -/
def callText (directive group : Text) : Text :=
  '@' :: directive ++ group

/-- At position `p` of a text a call begins. -/
def CallsAt (directive text : Text) (p : Nat) : Prop :=
  ∃ group, Group.IsGroup group ∧ callText directive group <+: text.drop p

/-- Gaps with something for the group behind each of them, and the last gap. -/
def joined (f : Text → Text) (calls : List (Text × Text)) (last : Text) : Text :=
  calls.flatMap (fun c => c.1 ++ f c.2) ++ last

/-- A gap before a call or behind the calls, and where it begins. -/
inductive IsGap (directive : Text) : List (Text × Text) → Text → Nat → Text → Prop
  | last (last : Text) : IsGap directive [] last 0 last
  | front (gap group : Text) (calls : List (Text × Text)) (last : Text) :
      IsGap directive ((gap, group) :: calls) last 0 gap
  | behind {calls : List (Text × Text)} {last gap' : Text} {start : Nat} (gap group : Text)
      (h : IsGap directive calls last start gap') :
      IsGap directive ((gap, group) :: calls) last
        ((gap ++ callText directive group).length + start) gap'

/-- The gaps and groups are a division of a text: put together as calls they are the text, the
groups are groups, and at no position in a gap a call begins. -/
structure IsDivision (directive text : Text) (calls : List (Text × Text)) (last : Text) : Prop where
  joined_eq : joined (callText directive) calls last = text
  groups : ∀ c ∈ calls, Group.IsGroup c.2
  gaps : ∀ start gap, IsGap directive calls last start gap →
    ∀ p < gap.length, ¬ CallsAt directive text (start + p)

/-- The attribute for a call: the helper and the group with apostrophes for double quotes, between
double quotes. -/
def attributeText (directive helper group : Text) : Text :=
  [':'] ++ directive ++ ['=', '"'] ++ helper ++
    group.map (fun c => if c = '"' then '\x27' else c) ++ ['"']

theorem callsAt_append : CallsAt directive (u ++ v) (u.length + p) ↔ CallsAt directive v p := by
  rw [CallsAt, CallsAt, List.drop_length_add_append]

theorem CallsAt.of_isGroup (h : Group.IsGroup group) (u v : Text) :
    CallsAt directive (u ++ callText directive group ++ v) u.length := by
  rw [List.append_assoc]
  exact (callsAt_append (p := 0)).2 ⟨group, h, List.prefix_append _ _⟩

theorem joined_cons (f : Text → Text) (gap group : Text) (calls : List (Text × Text))
    (last : Text) :
    joined f ((gap, group) :: calls) last = gap ++ f group ++ joined f calls last := by
  simp [joined]

/-! ## Divisions call by call -/

theorem isDivision_nil_iff :
    IsDivision directive text [] last ↔
      last = text ∧ ∀ p < text.length, ¬ CallsAt directive text p := by
  constructor
  · rintro ⟨rfl, -, hgaps⟩
    exact ⟨rfl, fun p hp => by simpa using hgaps 0 last (.last last) p hp⟩
  · rintro ⟨rfl, h⟩
    refine ⟨rfl, by simp, fun start gap hgap p hp => ?_⟩
    cases hgap
    rw [Nat.zero_add]
    exact h p hp

/-- The first gap and call of a division are in their places, and the others are a division of the
rest. -/
theorem isDivision_cons_iff :
    IsDivision directive text ((gap, group) :: calls) last ↔
      ∃ v, text = gap ++ callText directive group ++ v ∧ Group.IsGroup group ∧
        (∀ p < gap.length, ¬ CallsAt directive text p) ∧ IsDivision directive v calls last := by
  constructor
  · rintro ⟨rfl, hgroups, hgaps⟩
    obtain ⟨hgroup, hgroups⟩ := List.forall_mem_cons.1 hgroups
    refine ⟨joined (callText directive) calls last, joined_cons .., hgroup, fun p hp => ?_, rfl,
      hgroups, fun start gap' hgap p hp => ?_⟩
    · simpa using hgaps 0 gap (.front gap group calls last) p hp
    · have hno := hgaps _ gap' (.behind gap group hgap) p hp
      rwa [joined_cons, Nat.add_assoc, callsAt_append] at hno
  · rintro ⟨v, rfl, hgroup, hfront, rfl, hgroups, hgaps⟩
    refine ⟨joined_cons .., List.forall_mem_cons.2 ⟨hgroup, hgroups⟩,
      fun start gap' hgap p hp => ?_⟩
    cases hgap with
    | front =>
      rw [Nat.zero_add]
      exact hfront p hp
    | behind _ _ hgap =>
      rw [Nat.add_assoc, callsAt_append]
      exact hgaps _ gap' hgap p hp

theorem length_le_of_callsAt {gap' : Text} (h : CallsAt directive text gap.length)
    (hno : ∀ p < gap'.length, ¬ CallsAt directive text p) : gap'.length ≤ gap.length :=
  Nat.le_of_not_lt fun hlt => hno _ hlt h

theorem not_forall_not_callsAt (h : Group.IsGroup group)
    (htext : text = gap ++ callText directive group ++ v) :
    ¬ ∀ p < text.length, ¬ CallsAt directive text p := by
  subst htext
  intro hnone
  refine hnone gap.length ?_ (CallsAt.of_isGroup h gap v)
  simp [callText]

/-- **Uniqueness.** A text has one division at most. -/
theorem IsDivision.unique {calls' : List (Text × Text)} {last' : Text}
    (h : IsDivision directive text calls last) (h' : IsDivision directive text calls' last') :
    calls = calls' ∧ last = last' := by
  induction calls generalizing text calls' with
  | nil =>
    obtain ⟨rfl, hnone⟩ := isDivision_nil_iff.1 h
    cases calls' with
    | nil => exact ⟨rfl, (isDivision_nil_iff.1 h').1.symm⟩
    | cons c calls' =>
      obtain ⟨v, hv, hgroup, -⟩ := isDivision_cons_iff.1 h'
      exact absurd hnone (not_forall_not_callsAt hgroup hv)
  | cons c calls ih =>
    obtain ⟨gap, group⟩ := c
    obtain ⟨v, hv, hgroup, hgap, hrest⟩ := isDivision_cons_iff.1 h
    cases calls' with
    | nil => exact absurd (isDivision_nil_iff.1 h').2 (not_forall_not_callsAt hgroup hv)
    | cons c' calls' =>
      obtain ⟨gap', group'⟩ := c'
      obtain ⟨v', hv', hgroup', hgap', hrest'⟩ := isDivision_cons_iff.1 h'
      have hcall : CallsAt directive text gap.length := hv ▸ CallsAt.of_isGroup hgroup gap v
      have hcall' : CallsAt directive text gap'.length := hv' ▸ CallsAt.of_isGroup hgroup' gap' v'
      have hlength : gap.length = gap'.length :=
        Nat.le_antisymm (length_le_of_callsAt hcall' hgap) (length_le_of_callsAt hcall hgap')
      have heq := hv.symm.trans hv'
      simp only [List.append_assoc] at heq
      obtain ⟨rfl, heq⟩ := List.append_inj heq hlength
      simp only [callText, List.append_assoc, List.cons_append, List.cons.injEq, true_and,
        List.append_cancel_left_eq] at heq
      obtain rfl := hgroup.eq_of_append_eq hgroup' heq
      obtain rfl := List.append_cancel_left heq
      obtain ⟨rfl, rfl⟩ := ih hrest hrest'
      exact ⟨rfl, rfl⟩

/-! ## The division of the search -/

theorem call?_advance_eq_none_iff (c : Cursor) (p : Nat) :
    call? directive (c.advance p) = none ↔ ¬ CallsAt directive c.rest p := by
  rw [Option.eq_none_iff_forall_ne_some, ← not_exists, not_iff_not]
  constructor
  · rintro ⟨⟨group, n⟩, h⟩
    obtain ⟨rest, hr, hgroup, -⟩ := call?_eq_some_iff.1 h
    rw [Cursor.rest_advance] at hr
    exact ⟨group, hgroup, rest, hr.symm⟩
  · rintro ⟨group, hgroup, rest, hr⟩
    refine ⟨(group, _), call?_eq_some_iff.2 ⟨rest, ?_, hgroup, rfl⟩⟩
    rw [Cursor.rest_advance, ← hr]
    rfl

/-- **Search.** The calls that the search finds are those of a division, and the gaps are kept. -/
theorem exists_isDivision (directive : Text) (f : Text → Text) (c : Cursor) :
    ∃ calls last, IsDivision directive c.rest calls last ∧
      Piece.expand f (c.pieces (call? directive)) = joined f calls last := by
  -- On the length of the text: behind the first call the text is shorter.
  obtain ⟨k, hk⟩ : ∃ k, c.rest.length = k := ⟨_, rfl⟩
  induction k using Nat.strongRecOn generalizing c with
  | ind k ih =>
    by_cases hmiss : c.Misses (call? directive) c.rest
    · refine ⟨[], c.rest, isDivision_nil_iff.2 ⟨rfl, fun p hp => ?_⟩, ?_⟩
      · exact (call?_advance_eq_none_iff c p).1 (hmiss p hp)
      · have hr : c.rest = c.rest ++ [] := (List.append_nil _).symm
        rw [Cursor.expand_pieces_of_misses f hr hmiss,
          Cursor.pieces_nil (Cursor.rest_advance_append hr)]
        exact List.append_nil _
    · obtain ⟨gap, a, v, group, n, hr, hgap, hhit⟩ := Cursor.exists_first_hit hmiss
      obtain ⟨rest, hrest, hgroup, rfl⟩ := call?_eq_some_iff.1 hhit
      have hfront : (c.advance gap.length).rest = callText directive group ++ rest := hrest
      have htext : c.rest = gap ++ (callText directive group ++ rest) := by
        rw [hr, ← hfront, Cursor.rest_advance_append hr]
      have hlength : directive.length + 1 + group.length = (callText directive group).length := by
        simp [callText]
        omega
      have hbehind := Cursor.rest_advance_append hfront
      have hshort : rest.length < k := by
        rw [← hk, htext, List.length_append, List.length_append, ← hlength]
        omega
      obtain ⟨calls, last, hdivision, hexpand⟩ := ih _ hshort _ (congrArg List.length hbehind)
      rw [hbehind] at hdivision
      refine ⟨(gap, group) :: calls, last, isDivision_cons_iff.2 ⟨rest, ?_, hgroup, ?_, hdivision⟩,
        ?_⟩
      · rw [htext, List.append_assoc]
      · exact fun p hp => (call?_advance_eq_none_iff c p).1 (hgap p hp)
      · rw [Cursor.expand_pieces_of_misses f htext hgap,
          Cursor.expand_pieces_of_hit f hfront (by simp [callText]) (hlength ▸ hhit), hexpand,
          joined_cons, List.append_assoc]

/-! ## Calls that do not close -/

theorem length_callOpening : (callOpening directive).length = directive.length + 2 := by
  simp [callOpening]

theorem callOpening_prefix_callText (h : Group.IsGroup group) :
    callOpening directive <+: callText directive group := by
  obtain ⟨inner, rfl⟩ := h.exists_eq
  exact ⟨inner ++ [')'], by simp [callOpening, callText]⟩

theorem getElem?_of_prefix_drop {i : Nat} (h : u <+: text.drop p) (hi : i < u.length) :
    text[p + i]? = u[i]? := by
  obtain ⟨rest, hrest⟩ := h
  rw [← List.getElem?_drop, ← hrest, List.getElem?_append_left hi]

theorem add_length_le_of_lt {s : Nat} (hopen : '(' ∉ directive)
    (hp : callOpening directive <+: text.drop p) (hs : callOpening directive <+: text.drop s)
    (hlt : p < s) : p + (callOpening directive).length ≤ s := by
  by_contra hle
  rw [length_callOpening] at hle
  -- the parenthesis of the first one would stand in the name of the second one
  obtain ⟨i, hi⟩ : ∃ i, p + (directive.length + 1) = s + i :=
    ⟨p + (directive.length + 1) - s, by omega⟩
  have hparen : text[p + (directive.length + 1)]? = some '(' := by
    rw [getElem?_of_prefix_drop hp (by simp [callOpening])]
    simp [callOpening]
  have hname : text[s + i]? = ('@' :: directive)[i]? := by
    rw [getElem?_of_prefix_drop hs (by rw [length_callOpening]; omega)]
    exact List.getElem?_append_left (by rw [List.length_cons]; omega)
  have hmem : '(' ∈ '@' :: directive := List.mem_of_getElem? (by rw [← hname, ← hi, hparen])
  simp [hopen] at hmem

/-- A beginning of a call in the arguments of another call closes there. -/
theorem exists_group_of_isGroup_append {w m : Text} (hclose : ')' ∉ directive)
    (hgroup : Group.IsGroup (w ++ m)) (hw : w ≠ []) (hm : m ≠ [])
    (h : callOpening directive <+: m ++ v) :
    ∃ inner, Group.IsGroup inner ∧ callText directive inner <+: m ++ v := by
  have hlast : ')' ∈ m := by
    obtain ⟨inner, heq⟩ := hgroup.exists_eq
    have hlast := congrArg List.getLast? heq
    rw [List.getLast?_append_of_ne_nil _ hm, List.getLast?_concat] at hlast
    exact List.mem_of_getLast? hlast
  have hname : '@' :: directive <+: m ++ v := (List.prefix_append _ _).trans h
  rcases List.prefix_or_prefix_of_prefix hname (List.prefix_append m v) with hname | hname
  · obtain ⟨m, rfl⟩ := hname
    rw [callOpening, List.append_assoc, List.prefix_append_right_inj] at h
    cases m with
    | nil => simp [hclose] at hlast
    | cons a m =>
      obtain rfl : '(' = a := (List.cons_prefix_cons.1 h).1
      rw [← List.append_assoc] at hgroup
      obtain ⟨inner, rest, heq, hinner⟩ := hgroup.exists_inner (by simp [hw])
      refine ⟨inner, hinner, rest ++ v, ?_⟩
      rw [callText, List.append_assoc, List.append_assoc, heq, List.append_assoc]
  · have hmem := hname.subset hlast
    simp [hclose] at hmem

/-- A beginning of a call that is not apart from another call begins a call itself. -/
theorem callsAt_of_overlap (hopen : '(' ∉ directive) (hclose : ')' ∉ directive)
    (hgroup : Group.IsGroup group) (htext : text = gap ++ callText directive group ++ v)
    (hp : callOpening directive <+: text.drop p)
    (hfront : gap.length < p + (callOpening directive).length)
    (hbehind : p < (gap ++ callText directive group).length) : CallsAt directive text p := by
  have hcall : callOpening directive <+: text.drop gap.length := by
    rw [htext, List.append_assoc, List.drop_left]
    exact (callOpening_prefix_callText hgroup).trans (List.prefix_append _ _)
  rcases Nat.lt_trichotomy p gap.length with hlt | rfl | hlt
  · have := add_length_le_of_lt hopen hp hcall hlt
    omega
  · exact htext ▸ CallsAt.of_isGroup hgroup gap v
  · -- the beginning stands in the arguments, behind their first parenthesis
    have hle := add_length_le_of_lt hopen hcall hp hlt
    rw [length_callOpening] at hle
    simp only [callText, List.length_append, List.length_cons] at hbehind
    obtain ⟨k, rfl⟩ : ∃ k, p = (gap ++ '@' :: directive).length + k :=
      Nat.exists_eq_add_of_le (by simp only [List.length_append, List.length_cons]; omega)
    simp only [List.length_append, List.length_cons] at hle hbehind
    have hsplit : text = (gap ++ '@' :: directive) ++ (group ++ v) := by
      rw [htext, callText]
      simp only [List.append_assoc]
    have hdrop : (group ++ v).drop k = group.drop k ++ v :=
      List.drop_append_of_le_length (by omega)
    rw [hsplit, List.drop_length_add_append, hdrop] at hp
    rw [hsplit, callsAt_append, CallsAt, hdrop]
    have hparts : Group.IsGroup (group.take k ++ group.drop k) := by
      rwa [List.take_append_drop]
    refine exists_group_of_isGroup_append hclose hparts ?_ ?_ hp
    · intro hnil
      have hlength := congrArg List.length hnil
      rw [List.length_take, List.length_nil] at hlength
      omega
    · rw [Ne, List.drop_eq_nil_iff]
      omega

/-- A beginning of a call that does not close stands in a gap. -/
theorem IsDivision.exists_gap (hopen : '(' ∉ directive) (hclose : ')' ∉ directive)
    (h : IsDivision directive text calls last) (hp : callOpening directive <+: text.drop p)
    (hno : ¬ CallsAt directive text p) :
    ∃ start gap, IsGap directive calls last start gap ∧ start ≤ p ∧
      p + (callOpening directive).length ≤ start + gap.length := by
  induction calls generalizing text p with
  | nil =>
    obtain ⟨rfl, -⟩ := isDivision_nil_iff.1 h
    refine ⟨0, last, .last last, Nat.zero_le p, ?_⟩
    have hle := hp.length_le
    rw [List.length_drop, length_callOpening] at hle
    rw [length_callOpening]
    omega
  | cons c calls ih =>
    obtain ⟨gap, group⟩ := c
    obtain ⟨v, rfl, hgroup, -, hrest⟩ := isDivision_cons_iff.1 h
    by_cases hfront : p + (callOpening directive).length ≤ gap.length
    · exact ⟨0, gap, .front gap group calls last, Nat.zero_le p, by omega⟩
    · by_cases hbehind : (gap ++ callText directive group).length ≤ p
      · obtain ⟨q, rfl⟩ := Nat.exists_eq_add_of_le hbehind
        rw [List.drop_length_add_append] at hp
        rw [callsAt_append] at hno
        obtain ⟨start, gap', hgap, hstart, hend⟩ := ih hrest hp hno
        exact ⟨_, gap', .behind gap group hgap, by omega, by omega⟩
      · exact absurd (callsAt_of_overlap hopen hclose hgroup rfl hp (by omega) (by omega)) hno

/-! ## Attributes for calls -/

theorem callAttribute_eq (directive helper group : Text) :
    callAttribute directive helper group = attributeText directive helper group := by
  rw [callAttribute, replaceChar_singleton]
  rfl

theorem count_attributeText (h : '"' ∉ directive) (helper group : Text) :
    (attributeText directive helper group).count '"' = helper.count '"' + 2 := by
  have hgroup : (group.map fun c => if c = '"' then '\x27' else c).count '"' = 0 := by
    rw [List.count_eq_zero, ← replaceChar_singleton]
    exact not_mem_replaceChar (by decide)
  have hdirective : directive.count '"' = 0 := List.count_eq_zero.2 h
  simp only [attributeText, List.count_append, hgroup, hdirective]
  simp
  omega

/-- **Calls.** A text has one division into calls and gaps. In it the calls become attributes, with
two double quotes more than the helper, and the gaps stay. A beginning of a call that does not close
is part of a gap, and a text without calls stays as it is. -/
theorem expandCalls_eq_joined (directive helper text : Text) :
    ∃ calls last,
      (∀ calls' last', IsDivision directive text calls' last' ↔ calls' = calls ∧ last' = last) ∧
      expandCalls directive helper text = joined (attributeText directive helper) calls last ∧
      ('"' ∉ directive → ∀ c ∈ calls,
        (attributeText directive helper c.2).count '"' = helper.count '"' + 2) ∧
      ('(' ∉ directive → ')' ∉ directive → ∀ p, callOpening directive <+: text.drop p →
        ¬ CallsAt directive text p →
          ∃ start gap, IsGap directive calls last start gap ∧ start ≤ p ∧
            p + (callOpening directive).length ≤ start + gap.length) ∧
      ((∀ p, ¬ CallsAt directive text p) → expandCalls directive helper text = text) := by
  obtain ⟨calls, last, hdivision, hexpand⟩ :=
    exists_isDivision directive (callAttribute directive helper) (Cursor.start text)
  have hdivision : IsDivision directive text calls last := hdivision
  rw [funext (callAttribute_eq directive helper)] at hexpand
  have hjoined : expandCalls directive helper text =
      joined (attributeText directive helper) calls last := by
    rw [expandCalls, funext (callAttribute_eq directive helper), hexpand]
  refine ⟨calls, last, fun calls' last' => ⟨fun h => h.unique hdivision, ?_⟩, hjoined,
    fun hquote c _ => count_attributeText hquote helper c.2,
    fun hopen hclose p hp hno => hdivision.exists_gap hopen hclose hp hno, fun hnone => ?_⟩
  · rintro ⟨rfl, rfl⟩
    exact hdivision
  · have hplain : IsDivision directive text [] text :=
      isDivision_nil_iff.2 ⟨rfl, fun p _ => hnone p⟩
    obtain ⟨rfl, rfl⟩ := hdivision.unique hplain
    exact hjoined

/-- A call in the arguments of one that does not close. -/
def unclosedCall : Text :=
  "@class(@class(\"a\")".toList

/-- The call that does not close is a gap, and stays before the attribute for the other one. -/
theorem expandCalls_unclosedCall :
    '"' ∉ classDirective ∧ '(' ∉ classDirective ∧ ')' ∉ classDirective ∧
    callOpening classDirective <+: unclosedCall.drop 0 ∧
    ¬ CallsAt classDirective unclosedCall 0 ∧
    IsDivision classDirective unclosedCall [("@class(".toList, "(\"a\")".toList)] [] ∧
    expandCalls classDirective "f".toList unclosedCall =
      "@class(".toList ++ ":class=\"f('a')\"".toList ∧
    (attributeText classDirective "f".toList "(\"a\")".toList).count '"' = 2 ∧
    ∃ start gap, IsGap classDirective [("@class(".toList, "(\"a\")".toList)] [] start gap ∧
      start ≤ 0 ∧ 0 + (callOpening classDirective).length ≤ start + gap.length := by
  have hquote : '"' ∉ classDirective := by decide
  have hopen : '(' ∉ classDirective := by decide
  have hclose : ')' ∉ classDirective := by decide
  have hnone : ∀ p < 7, ¬ CallsAt classDirective unclosedCall p := by
    have hmiss : ∀ p < 7, call? classDirective ((Cursor.start unclosedCall).advance p) = none := by
      decide
    exact fun p hp => (call?_advance_eq_none_iff (Cursor.start unclosedCall) p).1 (hmiss p hp)
  have hdivision : IsDivision classDirective unclosedCall
      [("@class(".toList, "(\"a\")".toList)] [] :=
    isDivision_cons_iff.2 ⟨[], rfl, by decide, hnone, isDivision_nil_iff.2 ⟨rfl, by simp⟩⟩
  have hprefix : callOpening classDirective <+: unclosedCall.drop 0 := by decide
  obtain ⟨calls, last, hunique, hexpand, hcount, hgap, -⟩ :=
    expandCalls_eq_joined classDirective "f".toList unclosedCall
  obtain ⟨rfl, rfl⟩ := (hunique _ _).1 hdivision
  refine ⟨hquote, hopen, hclose, hprefix, hnone 0 (by omega), hdivision, hexpand.trans (by decide),
    ?_, hgap hopen hclose 0 hprefix (hnone 0 (by omega))⟩
  exact (hcount hquote _ (List.mem_singleton_self _)).trans (by decide)

end ComponentTags.Shorthand
