import Dialect.Pattern.Matching

/-!
# Positions of a text

A position of a text is a way to cut it in two. Positions of one text are told apart by their offsets,
so the operations on lists of positions, which compare offsets only, are operations on sets:
`Cursor.mem_merge_iff`, `Cursor.mem_without_iff` and `Cursor.mem_positions_iff` say which sets. The lists
stay in descending order.
-/

namespace Dialect

namespace Cursor

/-- The position between the two parts of a text. -/
def between (before after : Text) : Cursor where
  offset := before.bytes
  before := before.getLast?
  after := after

@[simp]
theorem between_offset (before after : Text) : (between before after).offset = before.bytes := rfl

@[simp]
theorem between_before (before after : Text) : (between before after).before = before.getLast? := rfl

@[simp]
theorem between_after (before after : Text) : (between before after).after = after := rfl

theorem start_eq_between (text : Text) : start text = between [] text := rfl

/-- A cursor is a position of a text if it cuts the text in two. -/
def IsIn (text : Text) (cursor : Cursor) : Prop :=
  ∃ before after, before ++ after = text ∧ cursor = between before after

theorem isIn_between (before after : Text) : IsIn (before ++ after) (between before after) :=
  ⟨before, after, rfl, rfl⟩

theorem isIn_start (text : Text) : IsIn text (start text) := ⟨[], text, rfl, rfl⟩

/-! ## One position behind another -/

/-- Of two positions of a text one lies behind the other, with some text between them. -/
theorem IsIn.cases {text : Text} {cursor other : Cursor}
    (isIn : IsIn text cursor) (otherIsIn : IsIn text other) :
    (∃ before middle after, cursor = between before (middle ++ after) ∧
      other = between (before ++ middle) after) ∨
    (∃ before middle after, other = between before (middle ++ after) ∧
      cursor = between (before ++ middle) after) := by
  obtain ⟨before, after, joined, rfl⟩ := isIn
  obtain ⟨otherBefore, otherAfter, otherJoined, rfl⟩ := otherIsIn
  rcases List.append_eq_append_iff.mp (joined.trans otherJoined.symm) with
    ⟨middle, beforeEquality, afterEquality⟩ | ⟨middle, beforeEquality, afterEquality⟩
  · exact Or.inl ⟨before, middle, otherAfter, by rw [afterEquality], by rw [beforeEquality]⟩
  · exact Or.inr ⟨otherBefore, middle, after, by rw [afterEquality], by rw [beforeEquality]⟩

/-- The farther a position lies, the less text is behind it. -/
theorem IsIn.offset_lt_iff {text : Text} {cursor other : Cursor}
    (isIn : IsIn text cursor) (otherIsIn : IsIn text other) :
    cursor.offset < other.offset ↔ other.after.length < cursor.after.length := by
  have positive (middle : Text) : 0 < middle.bytes ↔ 0 < middle.length := by
    cases middle with
    | nil => simp
    | cons c rest => simp [Text.bytes_pos, -Text.bytes_cons]
  rcases isIn.cases otherIsIn with ⟨before, middle, after, rfl, rfl⟩ | ⟨before, middle, after, rfl, rfl⟩
  · have := positive middle
    simp only [between_offset, between_after, Text.bytes_append, List.length_append]
    omega
  · have := positive middle
    simp only [between_offset, between_after, Text.bytes_append, List.length_append]
    omega

/-- Positions of one text are told apart by how much text is behind them. -/
theorem IsIn.eq_of_length_eq {text : Text} {cursor other : Cursor}
    (isIn : IsIn text cursor) (otherIsIn : IsIn text other)
    (equality : cursor.after.length = other.after.length) : cursor = other := by
  rcases isIn.cases otherIsIn with ⟨before, middle, after, rfl, rfl⟩ | ⟨before, middle, after, rfl, rfl⟩
  all_goals
    have empty : middle = [] := by
      apply List.eq_nil_of_length_eq_zero
      simp only [between_after, List.length_append] at equality
      omega
    simp [empty]

/-- Positions of one text are told apart by their offsets. -/
theorem IsIn.eq_of_offset_eq {text : Text} {cursor other : Cursor}
    (isIn : IsIn text cursor) (otherIsIn : IsIn text other)
    (equality : cursor.offset = other.offset) : cursor = other := by
  have notBefore := isIn.offset_lt_iff otherIsIn
  have notBehind := otherIsIn.offset_lt_iff isIn
  exact isIn.eq_of_length_eq otherIsIn (by omega)

/-! ## One character further -/

@[simp]
theorem next?_between_nil (before : Text) : (between before []).next? = none := rfl

@[simp]
theorem next?_between_cons (before : Text) (c : Char) (rest : Text) :
    (between before (c :: rest)).next? = some (c, between (before ++ [c]) rest) := by
  simp [next?, between]

theorem IsIn.next {text : Text} {cursor next : Cursor} {c : Char} (isIn : IsIn text cursor)
    (step : cursor.next? = some (c, next)) : IsIn text next := by
  obtain ⟨before, after, joined, rfl⟩ := isIn
  cases after with
  | nil => simp at step
  | cons d rest =>
      rw [next?_between_cons] at step
      obtain ⟨rfl, rfl⟩ := Prod.mk.inj (Option.some.inj step)
      exact ⟨before ++ [d], rest, by simpa using joined, rfl⟩

theorem past?_between_nil (accepted : CharSet) (before : Text) :
    past? accepted (between before []) = none := rfl

theorem past?_between_cons (accepted : CharSet) (before : Text) (c : Char) (rest : Text) :
    past? accepted (between before (c :: rest)) =
      if accepted.contains c then some (between (before ++ [c]) rest) else none := by
  simp [past?]

/-- What lies between two positions of a text. -/
@[simp]
theorem upTo_between (before middle after : Text) :
    (between before (middle ++ after)).upTo (between (before ++ middle) after) = middle := by
  simp [upTo]

/-! ## Lists of positions -/

/-- Positions of a text, the farthest first and each one once. -/
structure Descending (text : Text) (cursors : List Cursor) : Prop where
  isIn : ∀ cursor ∈ cursors, IsIn text cursor
  ordered : cursors.Pairwise fun cursor other => other.offset < cursor.offset

namespace Descending

theorem nil (text : Text) : Descending text [] := ⟨by simp, List.Pairwise.nil⟩

theorem singleton {text : Text} {cursor : Cursor} (isIn : IsIn text cursor) :
    Descending text [cursor] :=
  ⟨by simpa using isIn, List.pairwise_singleton _ cursor⟩

theorem tail {text : Text} {cursor : Cursor} {cursors : List Cursor}
    (descending : Descending text (cursor :: cursors)) : Descending text cursors :=
  ⟨fun other member => descending.isIn other (List.mem_cons_of_mem cursor member),
    descending.ordered.of_cons⟩

theorem head_isIn {text : Text} {cursor : Cursor} {cursors : List Cursor}
    (descending : Descending text (cursor :: cursors)) : IsIn text cursor :=
  descending.isIn cursor List.mem_cons_self

theorem offset_lt_head {text : Text} {cursor : Cursor} {cursors : List Cursor}
    (descending : Descending text (cursor :: cursors)) :
    ∀ other ∈ cursors, other.offset < cursor.offset :=
  (List.pairwise_cons.mp descending.ordered).1

theorem cons {text : Text} {cursor : Cursor} {cursors : List Cursor}
    (isIn : IsIn text cursor) (farthest : ∀ other ∈ cursors, other.offset < cursor.offset)
    (descending : Descending text cursors) : Descending text (cursor :: cursors) :=
  ⟨by simpa using ⟨isIn, descending.isIn⟩, List.pairwise_cons.mpr ⟨farthest, descending.ordered⟩⟩

theorem filter {text : Text} {cursors : List Cursor} (descending : Descending text cursors)
    (kept : Cursor → Bool) : Descending text (cursors.filter kept) :=
  ⟨fun cursor member => descending.isIn cursor (List.mem_filter.mp member).1,
    descending.ordered.filter kept⟩

/-- A list without two different positions holds at most one. -/
theorem eq_singleton {text : Text} {cursors : List Cursor} {cursor : Cursor}
    (descending : Descending text cursors) (member : cursor ∈ cursors)
    (only : ∀ other ∈ cursors, other = cursor) : cursors = [cursor] := by
  cases cursors with
  | nil => simp at member
  | cons first others =>
      have firstEquality : first = cursor := only first List.mem_cons_self
      subst firstEquality
      cases others with
      | nil => rfl
      | cons second more =>
          have secondEquality : second = first := only second (by simp)
          have := descending.offset_lt_head second List.mem_cons_self
          rw [secondEquality] at this
          exact absurd this (Nat.lt_irrefl _)

end Descending

/-- Positions in descending order are determined by which they are. -/
theorem Descending.eq_of_mem_iff {text : Text} {cursors others : List Cursor}
    (descending : Descending text cursors) (othersDescending : Descending text others)
    (same : ∀ cursor, cursor ∈ cursors ↔ cursor ∈ others) : cursors = others := by
  have nodup {positions : List Cursor} (ordered : Descending text positions) : positions.Nodup := by
    apply ordered.ordered.imp
    intro cursor other nearer equality
    rw [equality] at nearer
    exact Nat.lt_irrefl _ nearer
  have permuted : cursors.Perm others :=
    (List.perm_ext_iff_of_nodup (nodup descending) (nodup othersDescending)).mpr same
  refine permuted.eq_of_pairwise ?_ descending.ordered othersDescending.ordered
  intro cursor other _ _ nearer farther
  exact absurd nearer (Nat.lt_asymm farther)

theorem mem_merge_iff {text : Text} {cursors others : List Cursor} {cursor : Cursor}
    (isIn : ∀ cursor ∈ cursors, IsIn text cursor) (othersIsIn : ∀ cursor ∈ others, IsIn text cursor) :
    cursor ∈ merge cursors others ↔ cursor ∈ cursors ∨ cursor ∈ others := by
  fun_induction merge cursors others with
  | case1 others => simp
  | case2 first cursors => simp
  | case3 first cursors other others nearer inductionHypothesis =>
      have restIsIn : ∀ cursor ∈ cursors, IsIn text cursor :=
        fun cursor member => isIn cursor (List.mem_cons_of_mem first member)
      rw [List.mem_cons, inductionHypothesis restIsIn othersIsIn, List.mem_cons (a := cursor) (b := first)]
      exact or_assoc.symm
  | case4 first cursors other others _ farther inductionHypothesis =>
      have restIsIn : ∀ cursor ∈ others, IsIn text cursor :=
        fun cursor member => othersIsIn cursor (List.mem_cons_of_mem other member)
      rw [List.mem_cons, inductionHypothesis isIn restIsIn, List.mem_cons (a := cursor) (b := other)]
      exact or_left_comm
  | case5 first cursors other others notNearer notFarther inductionHypothesis =>
      have restIsIn : ∀ cursor ∈ cursors, IsIn text cursor :=
        fun cursor member => isIn cursor (List.mem_cons_of_mem first member)
      have otherRestIsIn : ∀ cursor ∈ others, IsIn text cursor :=
        fun cursor member => othersIsIn cursor (List.mem_cons_of_mem other member)
      have same : first = other :=
        (isIn first List.mem_cons_self).eq_of_offset_eq (othersIsIn other List.mem_cons_self) (by omega)
      rw [List.mem_cons, inductionHypothesis restIsIn otherRestIsIn, List.mem_cons, List.mem_cons, same]
      constructor
      · rintro (atHead | inCursors | inOthers)
        · exact Or.inl (Or.inl atHead)
        · exact Or.inl (Or.inr inCursors)
        · exact Or.inr (Or.inr inOthers)
      · rintro ((atHead | inCursors) | atHead | inOthers)
        · exact Or.inl atHead
        · exact Or.inr (Or.inl inCursors)
        · exact Or.inl atHead
        · exact Or.inr (Or.inr inOthers)

theorem Descending.merge {text : Text} {cursors others : List Cursor}
    (descending : Descending text cursors) (otherDescending : Descending text others) :
    Descending text (merge cursors others) := by
  fun_induction Cursor.merge cursors others with
  | case1 others => exact otherDescending
  | case2 first cursors => exact descending
  | case3 first cursors other others nearer inductionHypothesis =>
      refine .cons descending.head_isIn ?_ (inductionHypothesis descending.tail otherDescending)
      intro cursor member
      rcases (mem_merge_iff descending.tail.isIn otherDescending.isIn).mp member with
        inCursors | inOthers
      · exact descending.offset_lt_head cursor inCursors
      · rcases List.mem_cons.mp inOthers with rfl | inRest
        · exact nearer
        · exact Nat.lt_trans (otherDescending.offset_lt_head cursor inRest) nearer
  | case4 first cursors other others _ farther inductionHypothesis =>
      refine .cons otherDescending.head_isIn ?_ (inductionHypothesis descending otherDescending.tail)
      intro cursor member
      rcases (mem_merge_iff descending.isIn otherDescending.tail.isIn).mp member with
        inCursors | inOthers
      · rcases List.mem_cons.mp inCursors with rfl | inRest
        · exact farther
        · exact Nat.lt_trans (descending.offset_lt_head cursor inRest) farther
      · exact otherDescending.offset_lt_head cursor inOthers
  | case5 first cursors other others notNearer notFarther inductionHypothesis =>
      refine .cons descending.head_isIn ?_
        (inductionHypothesis descending.tail otherDescending.tail)
      intro cursor member
      rcases (mem_merge_iff descending.tail.isIn otherDescending.tail.isIn).mp member with
        inCursors | inOthers
      · exact descending.offset_lt_head cursor inCursors
      · have := otherDescending.offset_lt_head cursor inOthers
        omega

theorem mem_without_iff {text : Text} {cursors others : List Cursor} {cursor : Cursor}
    (descending : Descending text cursors) (otherDescending : Descending text others) :
    cursor ∈ without cursors others ↔ cursor ∈ cursors ∧ cursor ∉ others := by
  fun_induction without cursors others with
  | case1 others => simp
  | case2 first cursors => simp
  | case3 first cursors other others nearer inductionHypothesis =>
      -- The first position lies behind all of the second list.
      have absent : first ∉ other :: others := by
        intro member
        rcases List.mem_cons.mp member with rfl | inRest
        · exact Nat.lt_irrefl _ nearer
        · have := otherDescending.offset_lt_head first inRest
          omega
      rw [List.mem_cons, inductionHypothesis descending.tail otherDescending]
      constructor
      · rintro (rfl | ⟨inCursors, outside⟩)
        · exact ⟨List.mem_cons_self, absent⟩
        · exact ⟨List.mem_cons_of_mem first inCursors, outside⟩
      · rintro ⟨inCursors, outside⟩
        rcases List.mem_cons.mp inCursors with rfl | inTail
        · exact Or.inl rfl
        · exact Or.inr ⟨inTail, outside⟩
  | case4 first cursors other others _ farther inductionHypothesis =>
      rw [inductionHypothesis descending otherDescending.tail]
      refine and_congr_right fun inCursors => not_congr ⟨List.mem_cons_of_mem other, ?_⟩
      intro inOthers
      rcases List.mem_cons.mp inOthers with rfl | inRest
      · rcases List.mem_cons.mp inCursors with rfl | inTail
        · exact absurd farther (Nat.lt_irrefl _)
        · have := descending.offset_lt_head cursor inTail
          omega
      · exact inRest
  | case5 first cursors other others notNearer notFarther inductionHypothesis =>
      have same : first = other :=
        descending.head_isIn.eq_of_offset_eq otherDescending.head_isIn (by omega)
      subst same
      rw [inductionHypothesis descending.tail otherDescending.tail]
      constructor
      · rintro ⟨inCursors, outside⟩
        refine ⟨List.mem_cons_of_mem first inCursors, ?_⟩
        intro inOthers
        rcases List.mem_cons.mp inOthers with rfl | inRest
        · exact Nat.lt_irrefl _ (descending.offset_lt_head cursor inCursors)
        · exact outside inRest
      · rintro ⟨inCursors, outside⟩
        rcases List.mem_cons.mp inCursors with rfl | inTail
        · exact absurd List.mem_cons_self outside
        · exact ⟨inTail, fun inRest => outside (List.mem_cons_of_mem first inRest)⟩

theorem without_sublist (cursors others : List Cursor) :
    (without cursors others).Sublist cursors := by
  fun_induction without cursors others with
  | case1 others => exact List.Sublist.refl []
  | case2 first cursors => exact List.Sublist.refl _
  | case3 first cursors other others _ inductionHypothesis => exact inductionHypothesis.cons_cons first
  | case4 first cursors other others _ _ inductionHypothesis => exact inductionHypothesis
  | case5 first cursors other others _ _ inductionHypothesis => exact inductionHypothesis.cons first

theorem Descending.without {text : Text} {cursors : List Cursor}
    (descending : Descending text cursors) (others : List Cursor) :
    Descending text (without cursors others) :=
  ⟨fun cursor member => descending.isIn cursor ((without_sublist cursors others).subset member),
    descending.ordered.sublist (without_sublist cursors others)⟩

/-- Lists with the same offsets hold the same positions. -/
theorem eq_of_samePlaces {text : Text} {cursors others : List Cursor}
    (isIn : ∀ cursor ∈ cursors, IsIn text cursor) (othersIsIn : ∀ cursor ∈ others, IsIn text cursor)
    (same : samePlaces cursors others = true) : cursors = others := by
  have offsets : cursors.map Cursor.offset = others.map Cursor.offset := by
    simpa [samePlaces] using same
  induction cursors generalizing others with
  | nil => exact (List.map_eq_nil_iff.mp offsets.symm).symm
  | cons first cursors inductionHypothesis =>
      cases others with
      | nil => simp at offsets
      | cons other others =>
          simp only [List.map_cons, List.cons.injEq] at offsets
          have headEquality : first = other :=
            (isIn first List.mem_cons_self).eq_of_offset_eq
              (othersIsIn other List.mem_cons_self) offsets.1
          have tailEquality : cursors = others :=
            inductionHypothesis
              (fun cursor member => isIn cursor (List.mem_cons_of_mem first member))
              (fun cursor member => othersIsIn cursor (List.mem_cons_of_mem other member))
              (by simpa [samePlaces] using offsets.2) offsets.2
          rw [headEquality, tailEquality]

/-! ## All positions of a text -/

theorem mem_onwards_iff (before after : Text) (farther : List Cursor) (cursor : Cursor) :
    cursor ∈ (between before after).onwards farther ↔
      cursor ∈ farther ∨
        ∃ middle rest, after = middle ++ rest ∧ cursor = between (before ++ middle) rest := by
  induction after generalizing before farther with
  | nil =>
      rw [onwards, next?_between_nil]
      simp only [List.mem_cons, List.nil_eq, List.append_eq_nil_iff]
      constructor
      · rintro (rfl | inFarther)
        · exact Or.inr ⟨[], [], ⟨rfl, rfl⟩, by simp⟩
        · exact Or.inl inFarther
      · rintro (inFarther | ⟨middle, rest, ⟨rfl, rfl⟩, rfl⟩)
        · exact Or.inr inFarther
        · exact Or.inl (by simp)
  | cons c after inductionHypothesis =>
      rw [onwards, next?_between_cons]
      simp only [inductionHypothesis, List.mem_cons]
      constructor
      · rintro ((rfl | inFarther) | ⟨middle, rest, rfl, rfl⟩)
        · exact Or.inr ⟨[], c :: after, rfl, by simp⟩
        · exact Or.inl inFarther
        · exact Or.inr ⟨c :: middle, rest, rfl, by simp⟩
      · rintro (inFarther | ⟨middle, rest, equality, rfl⟩)
        · exact Or.inl (Or.inr inFarther)
        · cases middle with
          | nil => exact Or.inl (Or.inl (by simp_all))
          | cons first middle =>
              simp only [List.cons_append, List.cons.injEq] at equality
              obtain ⟨rfl, rfl⟩ := equality
              exact Or.inr ⟨middle, rest, rfl, by simp⟩

theorem mem_positions_iff (text : Text) (cursor : Cursor) :
    cursor ∈ positions text ↔ IsIn text cursor := by
  rw [positions, start_eq_between, mem_onwards_iff]
  simp only [List.not_mem_nil, false_or, List.nil_append, IsIn]
  constructor
  · rintro ⟨before, after, rfl, rfl⟩
    exact ⟨before, after, rfl, rfl⟩
  · rintro ⟨before, after, rfl, rfl⟩
    exact ⟨before, after, rfl, rfl⟩

private theorem descending_onwards {text : Text} (before after : Text) {passed : List Cursor}
    (joined : before ++ after = text) (descending : Descending text passed)
    (nearer : ∀ cursor ∈ passed, cursor.offset < before.bytes) :
    Descending text ((between before after).onwards passed) := by
  induction after generalizing before passed with
  | nil =>
      rw [onwards, next?_between_nil]
      exact .cons ⟨before, [], joined, rfl⟩ nearer descending
  | cons c after inductionHypothesis =>
      rw [onwards, next?_between_cons]
      have isIn : IsIn text (between before (c :: after)) := ⟨before, c :: after, joined, rfl⟩
      apply inductionHypothesis (before ++ [c]) (by simpa using joined)
      · exact .cons isIn nearer descending
      · intro cursor member
        have positive := c.utf8Size_pos
        simp only [Text.bytes_append, Text.bytes_cons, Text.bytes_nil]
        rcases List.mem_cons.mp member with rfl | inPassed
        · rw [between_offset]
          omega
        · have := nearer cursor inPassed
          omega

theorem descending_positions (text : Text) : Descending text (positions text) :=
  descending_onwards [] text rfl (.nil text) (by simp)

end Cursor

end Dialect
