import Dialect.Proofs.Characters

/-!
# Where a quote is closed

Behind an opening quote a reader is in one of three states: inside the literal, just behind a
backslash, or behind the closing quote. The last state is never left, so whether a quote is closed
depends on the text only through the states it leads to. One text is *quieter* than another when it
closes a quote only where the other one does. Cutting a text off makes it quieter, and so does putting
characters without quotes and backslashes in the place of a comment, a literal or other such characters
(`Text.Quieter.replace`).
-/

namespace Dialect

/-- Where a reader stands behind an opening quote. -/
inductive QuoteState where
  | inside
  | escaped
  | closed
  deriving DecidableEq, Repr

namespace QuoteState

/-- The state behind one more character. -/
def step (quote : Char) : QuoteState → Char → QuoteState
  | .inside, c =>
      if c = '\\' then .escaped else if c = quote then .closed else .inside
  | .escaped, _ => .inside
  | .closed, _ => .closed

/-- The state behind a text. -/
def after (quote : Char) (state : QuoteState) (text : Text) : QuoteState :=
  text.foldl (step quote) state

@[simp]
theorem after_nil (quote : Char) (state : QuoteState) : after quote state [] = state := rfl

@[simp]
theorem after_cons (quote : Char) (state : QuoteState) (c : Char) (rest : Text) :
    after quote state (c :: rest) = after quote (step quote state c) rest := rfl

@[simp]
theorem after_append (quote : Char) (state : QuoteState) (left right : Text) :
    after quote state (left ++ right) = after quote (after quote state left) right :=
  List.foldl_append

@[simp]
theorem after_closed (quote : Char) (text : Text) : after quote .closed text = .closed := by
  induction text with
  | nil => rfl
  | cons c rest inductionHypothesis => exact inductionHypothesis

/-- Behind anything but a backslash the quote is closed or still open. -/
theorem step_cases {quote c : Char} (notBackslash : c ≠ '\\') (state : QuoteState) :
    step quote state c = .closed ∨ step quote state c = .inside := by
  cases state with
  | escaped => exact Or.inr rfl
  | closed => exact Or.inl rfl
  | inside =>
      rw [step, if_neg notBackslash]
      by_cases isQuoteChar : c = quote
      · exact Or.inl (if_pos isQuoteChar)
      · exact Or.inr (if_neg isQuoteChar)

theorem step_of_ordinary {quote c : Char} {state : QuoteState} (notBackslash : c ≠ '\\')
    (notQuote : c ≠ quote) (notClosed : state ≠ .closed) : step quote state c = .inside := by
  cases state with
  | inside => rw [step, if_neg notBackslash, if_neg notQuote]
  | escaped => rfl
  | closed => exact absurd rfl notClosed

end QuoteState

namespace Text

open QuoteState

/-! ## Closed and unclosed quotes -/

theorem closeQuote?_cons_of_ne_backslash {c : Char} (quote : Char) (rest : Text)
    (different : c ≠ '\\') :
    closeQuote? quote (c :: rest) =
      if c = quote then some ([c], rest)
      else (closeQuote? quote rest).map fun (body, after) => (c :: body, after) := by
  rw [closeQuote?]
  · exact fun equality _ => different equality
  · exact fun _ _ equality _ => different equality

/-- The two ways in which a backslash can start a text are excluded. -/
theorem ne_backslash_of_excluded {c : Char} {rest : Text}
    (alone : c = '\\' → rest = [] → False)
    (paired : ∀ d others, c = '\\' → rest = d :: others → False) :
    c ≠ '\\' := by
  intro equality
  cases rest with
  | nil => exact alone equality rfl
  | cons d others => exact paired d others equality rfl

/-- A quote is not closed exactly when the text behind it does not lead to the closed state. -/
theorem closeQuote?_eq_none_iff (quote : Char) (text : Text) :
    closeQuote? quote text = none ↔ after quote .inside text ≠ .closed := by
  fun_induction closeQuote? quote text with
  | case1 => simp
  | case2 => simp [step]
  | case3 c rest inductionHypothesis =>
      rw [Option.map_eq_none_iff, inductionHypothesis]
      simp [step]
  | case4 rest alone paired =>
      have different := ne_backslash_of_excluded alone paired
      simp [step, different]
  | case5 c rest alone paired notQuote inductionHypothesis =>
      have different := ne_backslash_of_excluded alone paired
      rw [Option.map_eq_none_iff, inductionHypothesis]
      simp [step, different, notQuote]

/-- What closes a quote closes it whatever follows. -/
theorem closeQuote?_append_of_eq_some {quote : Char} {text body rest : Text}
    (closed : closeQuote? quote text = some (body, rest)) (other : Text) :
    closeQuote? quote (body ++ other) = some (body, other) := by
  fun_induction closeQuote? quote text generalizing body with
  | case1 => simp at closed
  | case2 => simp at closed
  | case3 c text inductionHypothesis =>
      obtain ⟨⟨inner, tail⟩, innerClosed, equality⟩ := Option.map_eq_some_iff.mp closed
      simp only [Prod.mk.injEq] at equality
      obtain ⟨rfl, rfl⟩ := equality
      simp [closeQuote?, inductionHypothesis innerClosed]
  | case4 text alone paired =>
      simp only [Option.some.injEq, Prod.mk.injEq] at closed
      obtain ⟨rfl, rfl⟩ := closed
      have different := ne_backslash_of_excluded alone paired
      rw [List.singleton_append, closeQuote?_cons_of_ne_backslash quote other different, if_pos rfl]
  | case5 c text alone paired notQuote inductionHypothesis =>
      obtain ⟨⟨inner, tail⟩, innerClosed, equality⟩ := Option.map_eq_some_iff.mp closed
      simp only [Prod.mk.injEq] at equality
      obtain ⟨rfl, rfl⟩ := equality
      have different := ne_backslash_of_excluded alone paired
      rw [List.cons_append, closeQuote?_cons_of_ne_backslash quote _ different, if_neg notQuote,
        inductionHypothesis innerClosed, Option.map_some]

/-! ## Literals -/

theorem literal?_cons_of_not_isQuote {c : Char} (rest : Text) (ordinary : isQuote c = false) :
    literal? (c :: rest) = none := by
  rw [literal?, ordinary]
  rfl

/-- No literal starts at a quote exactly when the quote is not closed. -/
theorem literal?_cons_eq_none_iff (c : Char) (rest : Text) :
    literal? (c :: rest) = none ↔ (isQuote c = true → after c .inside rest ≠ .closed) := by
  rw [literal?]
  by_cases quote : isQuote c = true
  · rw [if_pos quote, Option.map_eq_none_iff, closeQuote?_eq_none_iff]
    exact ⟨fun unclosed _ => unclosed, fun unclosed => unclosed quote⟩
  · simp [quote]

/-- A literal is the literal at the start of itself and of all that starts with it. -/
theorem literal?_append_of_eq_some {text literal rest : Text}
    (found : literal? text = some (literal, rest)) (other : Text) :
    literal? (literal ++ other) = some (literal, other) := by
  cases text with
  | nil => simp [literal?] at found
  | cons c text =>
      rw [literal?] at found
      split at found
      next quote =>
        obtain ⟨⟨body, tail⟩, closed, equality⟩ := Option.map_eq_some_iff.mp found
        simp only [Prod.mk.injEq] at equality
        obtain ⟨rfl, rfl⟩ := equality
        rw [List.cons_append, literal?, if_pos quote, closeQuote?_append_of_eq_some closed other,
          Option.map_some]
      next => simp at found

/-! ## Quieter texts -/

/-- A text is quieter than another one if it closes a quote, from whatever state, only where the
other one does. -/
def Quieter (small large : Text) : Prop :=
  ∀ quote state, isQuote quote = true →
    after quote state small = .closed → after quote state large = .closed

namespace Quieter

theorem refl (text : Text) : Quieter text text := fun _ _ _ closed => closed

theorem of_append_right (left right : Text) : Quieter left (left ++ right) := by
  intro quote state _ closed
  rw [after_append, closed, after_closed]

theorem append_left (left : Text) {small large : Text} (quieter : Quieter small large) :
    Quieter (left ++ small) (left ++ large) := by
  intro quote state isQuote closed
  rw [after_append] at closed ⊢
  exact quieter quote _ isQuote closed

theorem nil (text : Text) : Quieter [] text := of_append_right [] text

/-- Where the larger text starts no literal, the quieter one starts none either. -/
theorem literal?_eq_none {small large : Text} (quieter : Quieter small large) {c : Char}
    (unclosed : literal? (c :: large) = none) :
    literal? (c :: small) = none := by
  rw [literal?_cons_eq_none_iff] at unclosed ⊢
  intro quote closed
  exact unclosed quote (quieter c .inside quote closed)

end Quieter

/-! ## Fillers -/

/-- Some characters among which there is no quote and no backslash. -/
structure IsFiller (text : Text) : Prop where
  nonempty : text ≠ []
  ordinary : ∀ c ∈ text, c ≠ '\\' ∧ isQuote c = false

/-- Behind a text that settles, no reader is just behind a backslash. -/
def Settles (text : Text) : Prop :=
  ∀ quote state, isQuote quote = true →
    after quote state text = .closed ∨ after quote state text = .inside

/-- A quote that is open before a filler is open behind it. -/
theorem IsFiller.after_eq {filler : Text} (isFiller : filler.IsFiller) {quote : Char}
    (isQuoteChar : isQuote quote = true) {state : QuoteState} (notClosed : state ≠ .closed) :
    after quote state filler = .inside := by
  obtain ⟨nonempty, ordinary⟩ := isFiller
  induction filler generalizing state with
  | nil => exact absurd rfl nonempty
  | cons c rest inductionHypothesis =>
      obtain ⟨notBackslash, notQuote⟩ := ordinary c List.mem_cons_self
      have restOrdinary : ∀ d ∈ rest, d ≠ '\\' ∧ isQuote d = false :=
        fun d member => ordinary d (List.mem_cons_of_mem c member)
      rw [after_cons, step_of_ordinary notBackslash (ne_of_isQuote isQuoteChar notQuote) notClosed]
      by_cases empty : rest = []
      · rw [empty, after_nil]
      · exact inductionHypothesis (by decide) empty restOrdinary

theorem IsFiller.settles {filler : Text} (isFiller : filler.IsFiller) : filler.Settles := by
  intro quote state isQuoteChar
  by_cases closed : state = .closed
  · exact Or.inl (by rw [closed, after_closed])
  · exact Or.inr (isFiller.after_eq isQuoteChar closed)

theorem Settles.append_left (front : Text) {text : Text} (settles : text.Settles) :
    Settles (front ++ text) := by
  intro quote state isQuoteChar
  rw [after_append]
  exact settles quote _ isQuoteChar

theorem after_inside_of_closeQuote? {quote : Char} {text body rest : Text}
    (closed : closeQuote? quote text = some (body, rest)) (other : Char) :
    after other .inside body = .closed ∨ after other .inside body = .inside := by
  fun_induction closeQuote? quote text generalizing body with
  | case1 => simp at closed
  | case2 => simp at closed
  | case3 c text inductionHypothesis =>
      obtain ⟨⟨inner, tail⟩, innerClosed, equality⟩ := Option.map_eq_some_iff.mp closed
      obtain ⟨rfl, rfl⟩ := Prod.mk.inj equality
      exact @inductionHypothesis inner innerClosed
  | case4 text alone paired =>
      obtain ⟨rfl, rfl⟩ := Prod.mk.inj (Option.some.inj closed)
      exact step_cases (ne_backslash_of_excluded alone paired) .inside
  | case5 c text alone paired _ inductionHypothesis =>
      obtain ⟨⟨inner, tail⟩, innerClosed, equality⟩ := Option.map_eq_some_iff.mp closed
      obtain ⟨rfl, rfl⟩ := Prod.mk.inj equality
      rw [after_cons]
      rcases step_cases (ne_backslash_of_excluded alone paired) .inside with isClosed | isInside
      · exact Or.inl (by rw [isClosed, after_closed])
      · rw [isInside]
        exact inductionHypothesis innerClosed

/-- A reader that started at an earlier quote and comes to a whole literal goes through it in step with
the reader of the literal, and so no backslash is left behind it. -/
theorem settles_of_literal? {text literal rest : Text} (found : literal? text = some (literal, rest)) :
    Settles literal := by
  intro quote state _
  cases text with
  | nil => simp [literal?] at found
  | cons c text =>
      rw [literal?, Option.ite_none_right_eq_some] at found
      obtain ⟨isQuoteChar, mapped⟩ := found
      obtain ⟨⟨body, tail⟩, closed, equality⟩ := Option.map_eq_some_iff.mp mapped
      obtain ⟨rfl, rfl⟩ := Prod.mk.inj equality
      have different : c ≠ '\\' := (ne_of_isQuote isQuoteChar (by decide)).symm
      rw [after_cons]
      rcases step_cases different state with isClosed | isInside
      · exact Or.inl (by rw [isClosed, after_closed])
      · rw [isInside]
        exact after_inside_of_closeQuote? closed quote

/-- A filler closes a quote no sooner than a text that settles: it leaves a quote that was open just
open. -/
theorem Quieter.replace {filler settled small large : Text} (isFiller : filler.IsFiller)
    (settles : settled.Settles)
    (inside : ∀ quote, isQuote quote = true → after quote .inside small = .closed →
      after quote .inside large = .closed) :
    Quieter (filler ++ small) (settled ++ large) := by
  intro quote state isQuoteChar closes
  by_cases already : state = .closed
  · rw [already, after_closed]
  · rw [after_append, isFiller.after_eq isQuoteChar already] at closes
    have later := inside quote isQuoteChar closes
    rw [after_append]
    rcases settles quote state isQuoteChar with stateClosed | stateInside
    · rw [stateClosed, after_closed]
    · rw [stateInside, later]

end Text

end Dialect
