import Dialect.Line.Reader
import Dialect.Proofs.Characters
import Dialect.Proofs.Quotation
import Dialect.Proofs.Slices

/-!
# Reading a line by its bytes

A line can be cut into pieces by one pass over its bytes, with the offset at which the current piece
starts and the offset that has been reached. Behind a backslash two bytes are skipped, so the pass comes
to offsets inside characters; but it cuts only at quotes, slashes and stars, and these are never inside a
character. Main statement: every slice that the pass takes exists, and its pieces are the pieces of the
line (`Line.scan?_eq`).
-/

namespace Dialect

namespace Text

/-! ## Literals -/

/-- The offset behind the quote that closes a literal, looked for from an offset on. -/
def quoteEnd? (bytes : List UInt8) (quote : UInt8) (index : Nat) : Option Nat :=
  match _here : bytes[index]? with
  | none => none
  | some byte =>
      if byte = asciiByte '\\' then quoteEnd? bytes quote (index + 2)
      else if byte = quote then some (index + 1)
      else quoteEnd? bytes quote (index + 1)
termination_by bytes.length - index
decreasing_by
  · have := List.getElem?_eq_some_iff.mp _here
    obtain ⟨inside, _⟩ := this
    omega
  · have := List.getElem?_eq_some_iff.mp _here
    obtain ⟨inside, _⟩ := this
    omega

/-- The bytes of the quotes. -/
def isQuoteByte (byte : UInt8) : Bool := byte == asciiByte '"' || byte == asciiByte '\''

/-- The offset behind the literal that starts at an offset. -/
def literalEndAt? (bytes : List UInt8) (start : Nat) : Option Nat :=
  bytes[start]?.bind fun quote =>
    if isQuoteByte quote then quoteEnd? bytes quote (start + 1) else none

theorem quoteEnd?_of_getElem? {bytes : List UInt8} {index : Nat} {byte : UInt8}
    (here : bytes[index]? = some byte) (quote : UInt8) :
    quoteEnd? bytes quote index =
      if byte = asciiByte '\\' then quoteEnd? bytes quote (index + 2)
      else if byte = quote then some (index + 1)
      else quoteEnd? bytes quote (index + 1) := by
  rw [quoteEnd?]
  split
  next atEnd => simp [here] at atEnd
  next other isOther =>
    rw [here] at isOther
    obtain rfl := Option.some.inj isOther
    rfl

theorem quoteEnd?_of_end {bytes : List UInt8} {index : Nat} (atEnd : bytes[index]? = none) (quote : UInt8) :
    quoteEnd? bytes quote index = none := by
  rw [quoteEnd?]
  split
  next => rfl
  next here => simp [atEnd] at here

theorem lt_of_quoteEnd? {bytes : List UInt8} {quote : UInt8} {index stop : Nat}
    (found : quoteEnd? bytes quote index = some stop) : index < stop := by
  fun_induction quoteEnd? bytes quote index with
  | case1 index atEnd => simp at found
  | case2 index here inductionHypothesis =>
      have := inductionHypothesis found
      omega
  | case3 index here notBackslash =>
      simp at found
      omega
  | case4 index byte here _ _ inductionHypothesis =>
      have := inductionHypothesis found
      omega

theorem lt_of_literalEndAt? {bytes : List UInt8} {start stop : Nat}
    (found : literalEndAt? bytes start = some stop) : start < stop := by
  obtain ⟨quote, _, closed⟩ := Option.bind_eq_some_iff.mp found
  split at closed
  next => exact Nat.lt_of_succ_lt (lt_of_quoteEnd? closed)
  next => simp at closed

theorem lt_getD_literalEndAt? (bytes : List UInt8) (start : Nat) :
    start < (literalEndAt? bytes start).getD (start + 1) := by
  cases found : literalEndAt? bytes start with
  | none => exact Nat.lt_succ_self start
  | some stop => exact lt_of_literalEndAt? found

theorem toNat_of_isQuote {quote : Char} (isQuote : isQuote quote = true) : quote.toNat < 128 := by
  obtain rfl | rfl := (isQuote_iff quote).mp isQuote
  · decide
  · decide

theorem quoteEnd?_of_wide_byte {quote : Char} (quoteAscii : quote.toNat < 128) {text : Text} (index : Nat)
    (byte : UInt8) (here : text.utf8[index]? = some byte) (wide : 128 ≤ byte.toNat) :
    quoteEnd? text.utf8 (asciiByte quote) index = quoteEnd? text.utf8 (asciiByte quote) (index + 1) := by
  rw [quoteEnd?_of_getElem? here, if_neg (ne_asciiByte_of_wide wide (by decide)),
    if_neg (ne_asciiByte_of_wide wide quoteAscii)]

/-- Behind a backslash two bytes are passed over, and then what is left of the escaped character. -/
theorem quoteEnd?_of_escape {quote : Char} (quoteAscii : quote.toNat < 128) (before : Text) (c : Char)
    (rest : Text) :
    quoteEnd? (before ++ '\\' :: c :: rest).utf8 (asciiByte quote) before.bytes =
      quoteEnd? (before ++ '\\' :: c :: rest).utf8 (asciiByte quote) (before ++ ['\\', c]).bytes := by
  have split : before ++ '\\' :: c :: rest = (before ++ ['\\']) ++ c :: rest := by simp
  have start : before.bytes + 2 = (before ++ ['\\']).bytes + 1 := by
    rw [bytes_append]
    rfl
  have stop : (before ++ ['\\', c]).bytes = (before ++ ['\\']).bytes + c.utf8Size := by
    rw [bytes_append, bytes_append, Nat.add_assoc]
    rfl
  rw [quoteEnd?_of_getElem? (getElem?_utf8_ascii before (c :: rest) (by decide)), if_pos rfl, start,
    passes_others (quoteEnd?_of_wide_byte quoteAscii) split, stop]

theorem quoteEnd?_of_ordinary {quote c : Char} (quoteAscii : quote.toNat < 128) (notBackslash : c ≠ '\\')
    (different : c ≠ quote) (before rest : Text) :
    quoteEnd? (before ++ c :: rest).utf8 (asciiByte quote) before.bytes =
      quoteEnd? (before ++ c :: rest).utf8 (asciiByte quote) (before ++ [c]).bytes := by
  rw [bytes_append, bytes_singleton]
  by_cases ascii : c.toNat < 128
  · rw [quoteEnd?_of_getElem? (getElem?_utf8_ascii before rest ascii),
      if_neg (by rwa [asciiByte_eq_iff ascii (by decide)]),
      if_neg (by rwa [asciiByte_eq_iff ascii quoteAscii]), utf8Size_of_ascii ascii]
  · exact passes_wide (quoteEnd?_of_wide_byte quoteAscii) rfl (Nat.le_of_not_lt ascii)

theorem quoteEnd?_eq {quote : Char} (quoteAscii : quote.toNat < 128) (before rest : Text) :
    quoteEnd? (before ++ rest).utf8 (asciiByte quote) before.bytes =
      (closeQuote? quote rest).map fun (body, _) => before.bytes + body.bytes := by
  fun_induction closeQuote? quote rest generalizing before with
  | case1 => rw [List.append_nil, quoteEnd?_of_end (getElem?_utf8_end before), Option.map_none]
  | case2 =>
      have beyond : (before ++ ['\\']).utf8[before.bytes + 2]? = none := by
        rw [List.getElem?_eq_none]
        rw [length_utf8, bytes_append]
        exact Nat.add_le_add_left (by decide) _
      rw [quoteEnd?_of_getElem? (getElem?_utf8_ascii before [] (by decide)), if_pos rfl,
        quoteEnd?_of_end beyond, Option.map_none]
  | case3 c rest inductionHypothesis =>
      have behind := inductionHypothesis (before ++ ['\\', c])
      rw [List.append_assoc] at behind
      rw [quoteEnd?_of_escape quoteAscii]
      refine behind.trans ?_
      cases closeQuote? quote rest with
      | none => rfl
      | some found => simp [Nat.add_assoc]
  | case4 rest notAlone notEscaping =>
      have notBackslash := ne_backslash_of_excluded notAlone notEscaping
      rw [quoteEnd?_of_getElem? (getElem?_utf8_ascii before rest quoteAscii),
        if_neg (by rwa [asciiByte_eq_iff quoteAscii (by decide)]), if_pos rfl]
      simp [utf8Size_of_ascii quoteAscii]
  | case5 c rest notAlone notEscaping different inductionHypothesis =>
      have behind := inductionHypothesis (before ++ [c])
      rw [List.append_assoc] at behind
      rw [quoteEnd?_of_ordinary quoteAscii (ne_backslash_of_excluded notAlone notEscaping) different]
      refine behind.trans ?_
      cases closeQuote? quote rest with
      | none => rfl
      | some found => simp [Nat.add_assoc]

theorem isQuoteByte_asciiByte {c : Char} (ascii : c.toNat < 128) : isQuoteByte (asciiByte c) = isQuote c := by
  rw [Bool.eq_iff_iff, isQuote_iff, isQuoteByte, Bool.or_eq_true, beq_iff_eq, beq_iff_eq,
    asciiByte_eq_iff ascii (by decide), asciiByte_eq_iff ascii (by decide)]

theorem isQuoteByte_of_wide {byte : UInt8} (wide : 128 ≤ byte.toNat) : isQuoteByte byte = false := by
  rw [isQuoteByte, Bool.or_eq_false_iff, beq_eq_false_iff_ne, beq_eq_false_iff_ne]
  exact ⟨ne_asciiByte_of_wide wide (by decide), ne_asciiByte_of_wide wide (by decide)⟩

theorem literalEndAt?_of_wide {bytes : List UInt8} {index : Nat} {byte : UInt8}
    (here : bytes[index]? = some byte) (wide : 128 ≤ byte.toNat) : literalEndAt? bytes index = none := by
  rw [literalEndAt?, here, Option.bind_some, isQuoteByte_of_wide wide, if_neg Bool.false_ne_true]

theorem literalEndAt?_eq (before rest : Text) :
    literalEndAt? (before ++ rest).utf8 before.bytes =
      (literal? rest).map fun (literal, _) => before.bytes + literal.bytes := by
  cases rest with
  | nil => rw [List.append_nil, literalEndAt?, getElem?_utf8_end]; rfl
  | cons c rest =>
      by_cases ascii : c.toNat < 128
      · rw [literalEndAt?, getElem?_utf8_ascii before rest ascii, Option.bind_some,
          isQuoteByte_asciiByte ascii, literal?]
        by_cases quote : isQuote c = true
        · have closed := quoteEnd?_eq ascii (before ++ [c]) rest
          rw [List.append_assoc, bytes_append, bytes_cons, utf8Size_of_ascii ascii] at closed
          rw [if_pos quote, if_pos quote, Option.map_map]
          refine closed.trans ?_
          cases closeQuote? c rest with
          | none => rfl
          | some found => simp [utf8Size_of_ascii ascii, Nat.add_assoc]
        · rw [if_neg quote, if_neg quote, Option.map_none]
      · obtain ⟨byte, here, wide⟩ := exists_wide_byte before rest (Nat.le_of_not_lt ascii)
        have notQuote : isQuote c = false := Bool.eq_false_iff.mpr fun quote => ascii (toNat_of_isQuote quote)
        rw [literalEndAt?_of_wide here wide, literal?_cons_of_not_isQuote rest notQuote, Option.map_none]

/-! ## The end of a comment -/

theorem seek?_star_slash (text : Text) :
    match closeComment? text with
    | none => text.seek? ['*', '/'] = none
    | some (body, _) => ∃ offset, text.seek? ['*', '/'] = some offset ∧ offset + 2 = body.bytes := by
  fun_induction closeComment? text with
  | case1 => rfl
  | case2 rest => exact ⟨0, rfl, rfl⟩
  | case3 c rest notClosing inductionHypothesis =>
      have notHere : List.isPrefixOf ['*', '/'] (c :: rest) = false := by
        rw [Bool.eq_false_iff]
        intro starts
        obtain ⟨others, whole⟩ := List.isPrefixOf_iff_prefix.mp starts
        simp only [List.cons_append, List.nil_append, List.cons.injEq] at whole
        exact notClosing others whole.1.symm whole.2.symm
      rw [seek?, notHere]
      cases closed : closeComment? rest with
      | none =>
          rw [closed] at inductionHypothesis
          simp [inductionHypothesis]
      | some found =>
          rw [closed] at inductionHypothesis
          obtain ⟨offset, found, size⟩ := inductionHypothesis
          refine ⟨c.utf8Size + offset, by simp [found], ?_⟩
          rw [bytes_cons, ← size, Nat.add_assoc]

end Text

namespace Line

/-! ## Pieces -/

/-- The code between two offsets, unless there is none. -/
def codeBetween? (text : Text) (start stop : Nat) : Option (List Piece) :=
  if start < stop then (text.slice? start stop).map fun part => [.code part] else some []

/-- The pieces of a line from an offset on and whether a block comment is open at its end. The first
piece starts at the first offset, and the bytes up to the second one belong to it. -/
def scanFrom? (text : Text) (start index : Nat) (inComment : Bool) : Option (List Piece × Bool) :=
  match _here : text.utf8[index]? with
  | none =>
      if start < text.bytes then do
        let part ← text.sliceFrom? start
        return ([if inComment then .comment part else .code part], inComment)
      else return ([], inComment)
  | some byte =>
      if inComment then do
        let rest ← text.sliceFrom? index
        match rest.seek? ['*', '/'] with
        | none =>
            let part ← text.sliceFrom? start
            return ([.comment part], true)
        | some offset =>
            let part ← text.slice? start (index + offset + 2)
            let (pieces, isOpen) ← scanFrom? text (index + offset + 2) (index + offset + 2) false
            return (.comment part :: pieces, isOpen)
      else if Text.isQuoteByte byte then
        scanFrom? text start ((Text.literalEndAt? text.utf8 index).getD (index + 1)) false
      else if byte = Text.asciiByte '/' ∧ text.utf8[index + 1]? = some (Text.asciiByte '/') then do
        let code ← codeBetween? text start index
        let part ← text.sliceFrom? index
        return (code ++ [.comment part], false)
      else if byte = Text.asciiByte '/' ∧ text.utf8[index + 1]? = some (Text.asciiByte '*') then do
        let code ← codeBetween? text start index
        let (pieces, isOpen) ← scanFrom? text index (index + 2) true
        return (code ++ pieces, isOpen)
      else scanFrom? text start (index + 1) false
termination_by text.utf8.length - index
decreasing_by
  all_goals
    have inside := (List.getElem?_eq_some_iff.mp _here).1
  · omega
  · have := Text.lt_getD_literalEndAt? text.utf8 index
    omega
  · omega
  · omega

/-- Cuts a line into pieces by its bytes. -/
def scan? (text : Text) (openBefore : Bool) : Option Line := do
  let (pieces, openAfter) ← scanFrom? text 0 0 openBefore
  return { text, pieces, openBefore, openAfter }

theorem scanFrom?_of_end {text : Text} {index : Nat} (atEnd : text.utf8[index]? = none) (start : Nat)
    (inComment : Bool) :
    scanFrom? text start index inComment =
      if start < text.bytes then do
        let part ← text.sliceFrom? start
        return ([if inComment then .comment part else .code part], inComment)
      else return ([], inComment) := by
  rw [scanFrom?]
  split
  next => rfl
  next here => simp [atEnd] at here

theorem scanFrom?_in_comment {text : Text} {index : Nat} {byte : UInt8}
    (here : text.utf8[index]? = some byte) (start : Nat) :
    scanFrom? text start index true = do
      let rest ← text.sliceFrom? index
      match rest.seek? ['*', '/'] with
      | none =>
          let part ← text.sliceFrom? start
          return ([.comment part], true)
      | some offset =>
          let part ← text.slice? start (index + offset + 2)
          let (pieces, isOpen) ← scanFrom? text (index + offset + 2) (index + offset + 2) false
          return (.comment part :: pieces, isOpen) := by
  rw [scanFrom?]
  split
  next atEnd => simp [here] at atEnd
  next => rfl

theorem scanFrom?_in_code {text : Text} {index : Nat} {byte : UInt8}
    (here : text.utf8[index]? = some byte) (start : Nat) :
    scanFrom? text start index false =
      if Text.isQuoteByte byte then
        scanFrom? text start ((Text.literalEndAt? text.utf8 index).getD (index + 1)) false
      else if byte = Text.asciiByte '/' ∧ text.utf8[index + 1]? = some (Text.asciiByte '/') then do
        let code ← codeBetween? text start index
        let part ← text.sliceFrom? index
        return (code ++ [.comment part], false)
      else if byte = Text.asciiByte '/' ∧ text.utf8[index + 1]? = some (Text.asciiByte '*') then do
        let code ← codeBetween? text start index
        let (pieces, isOpen) ← scanFrom? text index (index + 2) true
        return (code ++ pieces, isOpen)
      else scanFrom? text start (index + 1) false := by
  rw [scanFrom?]
  split
  next atEnd => simp [here] at atEnd
  next other isOther =>
    rw [here] at isOther
    obtain rfl := Option.some.inj isOther
    rfl

/-- Code that has been passed, in front of the pieces behind it. -/
def behindCode (passed : Text) (pieces : List Piece) : List Piece :=
  if passed = [] then pieces else Piece.consCode passed pieces

theorem behindCode_consCode {added : Text} (nonempty : added ≠ []) (passed : Text) (pieces : List Piece) :
    behindCode passed (Piece.consCode added pieces) = behindCode (passed ++ added) pieces := by
  by_cases empty : passed = []
  · rw [behindCode, if_pos empty, behindCode, empty, List.nil_append, if_neg nonempty]
  · rw [behindCode, if_neg empty, behindCode, if_neg (by simp [empty])]
    match pieces with
    | [] => rfl
    | .code first :: others => simp [Piece.consCode]
    | .comment _ :: _ => rfl

theorem behindCode_comment (passed content : Text) (pieces : List Piece) :
    behindCode passed (.comment content :: pieces) =
      (if passed = [] then [] else [.code passed]) ++ .comment content :: pieces := by
  by_cases empty : passed = []
  · rw [behindCode, if_pos empty, if_pos empty, List.nil_append]
  · rw [behindCode, if_neg empty, if_neg empty]
    rfl

theorem codeBetween?_eq (before passed rest : Text) :
    codeBetween? (before ++ passed ++ rest) before.bytes (before ++ passed).bytes =
      some (if passed = [] then [] else [.code passed]) := by
  rw [codeBetween?]
  by_cases empty : passed = []
  · rw [if_pos empty, if_neg (by simp [empty])]
  · rw [if_neg empty, if_pos (Text.bytes_lt_bytes_append before empty), Text.bytes_append, Text.slice?_append,
      Option.map_some]

section Comment

variable {rest : Text} (before opening : Text)

theorem scanFrom?_of_unclosed_comment (unclosed : Text.closeComment? rest = none) :
    scanFrom? (before ++ opening ++ rest) before.bytes (before ++ opening).bytes true =
      some (Piece.commentOf (opening ++ rest), true) := by
  cases rest with
  | nil =>
      rw [List.append_nil, List.append_nil, scanFrom?_of_end (Text.getElem?_utf8_end _), Piece.commentOf]
      by_cases empty : opening = []
      · rw [if_pos empty, if_neg (by simp [empty])]
        rfl
      · rw [if_neg empty, if_pos (Text.bytes_lt_bytes_append before empty), Text.sliceFrom?_append]
        rfl
  | cons c rest =>
      obtain ⟨byte, here, _⟩ := Text.exists_byte (before ++ opening) c rest
      have notFound := Text.seek?_star_slash (c :: rest)
      rw [unclosed] at notFound
      have whole : (before ++ opening ++ c :: rest).sliceFrom? before.bytes = some (opening ++ c :: rest) := by
        rw [List.append_assoc, Text.sliceFrom?_append]
      rw [scanFrom?_in_comment here, Text.sliceFrom?_append, Option.bind_eq_bind, Option.bind_some, notFound,
        whole, Piece.commentOf, if_neg (by simp)]
      rfl

theorem scanFrom?_of_closed_comment {body after : Text}
    (closed : Text.closeComment? rest = some (body, after)) :
    scanFrom? (before ++ opening ++ rest) before.bytes (before ++ opening).bytes true =
      (scanFrom? (before ++ opening ++ rest) (before ++ opening ++ body).bytes
        (before ++ opening ++ body).bytes false).map fun (pieces, isOpen) =>
          (.comment (opening ++ body) :: pieces, isOpen) := by
  obtain ⟨rfl, nonempty⟩ := Text.closeComment?_append closed
  obtain ⟨c, others, isRest⟩ : ∃ c others, body ++ after = c :: others :=
    List.exists_cons_of_ne_nil (by simp [nonempty])
  obtain ⟨byte, here, _⟩ := Text.exists_byte (before ++ opening) c others
  rw [← isRest] at here
  have found := Text.seek?_star_slash (body ++ after)
  rw [closed] at found
  obtain ⟨offset, isOffset, size⟩ := found
  have stop : (before ++ opening).bytes + offset + 2 = (before ++ opening ++ body).bytes := by
    rw [Nat.add_assoc, size, Text.bytes_append (before ++ opening)]
  have part : (before ++ opening ++ (body ++ after)).slice? before.bytes (before ++ opening ++ body).bytes =
      some (opening ++ body) :=
    Text.slice?_eq_some_iff.mpr ⟨before, after, by simp, rfl, by simp⟩
  rw [scanFrom?_in_comment here, Text.sliceFrom?_append, Option.bind_eq_bind, Option.bind_some, isOffset]
  simp only [stop, part, Option.bind_eq_bind, Option.bind_some, Option.pure_def, Option.map_eq_bind]
  rfl

end Comment

section Code

variable {c : Char} {rest : Text} (before passed : Text)

theorem scanFrom?_of_wide_byte {text : Text} (start index : Nat) (byte : UInt8)
    (here : text.utf8[index]? = some byte) (wide : 128 ≤ byte.toNat) :
    scanFrom? text start index false = scanFrom? text start (index + 1) false := by
  have notSlash : byte ≠ Text.asciiByte '/' := Text.ne_asciiByte_of_wide wide (by decide)
  rw [scanFrom?_in_code here, Text.isQuoteByte_of_wide wide, if_neg Bool.false_ne_true,
    if_neg (fun both => notSlash both.1), if_neg (fun both => notSlash both.1)]

/-- The bytes of a slash and of a mark behind it stand only where these characters stand. -/
theorem slash_and_mark_iff {mark : Char} (ascii : c.toNat < 128) (markAscii : mark.toNat < 128) :
    (Text.asciiByte c = Text.asciiByte '/' ∧
        (before ++ c :: rest).utf8[before.bytes + 1]? = some (Text.asciiByte mark)) ↔
      c = '/' ∧ ∃ others, rest = mark :: others := by
  rw [Text.asciiByte_eq_iff ascii (by decide), Text.getElem?_utf8_second before rest ascii markAscii]

/-- The scanner passes over a character that starts neither a literal nor a comment. -/
theorem scanFrom?_of_ordinary (notLine : ∀ others, c = '/' → rest = '/' :: others → False)
    (notBlock : ∀ others, c = '/' → rest = '*' :: others → False)
    (unclosed : Text.literal? (c :: rest) = none) :
    scanFrom? (before ++ c :: rest) passed.bytes before.bytes false =
      scanFrom? (before ++ c :: rest) passed.bytes (before ++ [c]).bytes false := by
  rw [Text.bytes_append, Text.bytes_singleton]
  by_cases ascii : c.toNat < 128
  · have notClosed := Text.literalEndAt?_eq before (c :: rest)
    rw [unclosed, Option.map_none] at notClosed
    rw [scanFrom?_in_code (Text.getElem?_utf8_ascii before rest ascii), notClosed, Option.getD_none,
      Text.utf8Size_of_ascii ascii]
    split
    next => rfl
    next =>
      rw [if_neg, if_neg]
      · intro both
        obtain ⟨isSlash, others, isRest⟩ := (slash_and_mark_iff before ascii (by decide)).mp both
        exact notBlock others isSlash isRest
      · intro both
        obtain ⟨isSlash, others, isRest⟩ := (slash_and_mark_iff before ascii (by decide)).mp both
        exact notLine others isSlash isRest
  · exact Text.passes_wide (scanFrom?_of_wide_byte passed.bytes) rfl (Nat.le_of_not_lt ascii)

theorem scanFrom?_of_literal? {quoted after : Text} (found : Text.literal? (c :: rest) = some (quoted, after)) :
    scanFrom? (before ++ c :: rest) passed.bytes before.bytes false =
      scanFrom? (before ++ c :: rest) passed.bytes (before ++ quoted).bytes false := by
  have quote : isQuote c = true := by
    rw [← Bool.not_eq_false]
    intro notQuote
    simp [Text.literal?_cons_of_not_isQuote rest notQuote] at found
  have ascii := Text.toNat_of_isQuote quote
  have stop := Text.literalEndAt?_eq before (c :: rest)
  rw [found, Option.map_some] at stop
  rw [scanFrom?_in_code (Text.getElem?_utf8_ascii before rest ascii), Text.isQuoteByte_asciiByte ascii,
    if_pos quote, stop, Option.getD_some, Text.bytes_append]

theorem scanFrom?_of_line_comment :
    scanFrom? (before ++ passed ++ '/' :: '/' :: rest) before.bytes (before ++ passed).bytes false =
      some (behindCode passed [.comment ('/' :: '/' :: rest)], false) := by
  rw [scanFrom?_in_code (Text.getElem?_utf8_ascii (before ++ passed) ('/' :: rest) (by decide)),
    if_neg (by decide),
    if_pos ((slash_and_mark_iff (before ++ passed) (by decide) (by decide)).mpr ⟨rfl, rest, rfl⟩),
    codeBetween?_eq, Text.sliceFrom?_append, behindCode_comment]
  rfl

theorem scanFrom?_of_block_comment :
    scanFrom? (before ++ passed ++ '/' :: '*' :: rest) before.bytes (before ++ passed).bytes false =
      (scanFrom? (before ++ passed ++ '/' :: '*' :: rest) (before ++ passed).bytes
        (before ++ passed ++ ['/', '*']).bytes true).map fun (pieces, isOpen) =>
          ((if passed = [] then [] else [.code passed]) ++ pieces, isOpen) := by
  have stop : (before ++ passed ++ ['/', '*']).bytes = (before ++ passed).bytes + 2 :=
    Text.bytes_append (before ++ passed) ['/', '*']
  rw [scanFrom?_in_code (Text.getElem?_utf8_ascii (before ++ passed) ('*' :: rest) (by decide)),
    if_neg (by decide), if_neg,
    if_pos ((slash_and_mark_iff (before ++ passed) (by decide) (by decide)).mpr ⟨rfl, rest, rfl⟩),
    codeBetween?_eq, stop, Option.map_eq_bind]
  · rfl
  · intro both
    obtain ⟨_, others, isRest⟩ := (slash_and_mark_iff (before ++ passed) (by decide) (by decide)).mp both
    simp at isRest

end Code

/-- Between two characters of code, the scanner finds what is read there. -/
theorem scanFrom?_eq (before passed rest : Text) :
    scanFrom? (before ++ passed ++ rest) before.bytes (before ++ passed).bytes false =
      some (behindCode passed (readCode rest).1, (readCode rest).2) := by
  fun_induction readCode rest generalizing before passed with
  | case1 =>
      rw [List.append_nil, scanFrom?_of_end (Text.getElem?_utf8_end _), behindCode]
      by_cases empty : passed = []
      · rw [if_pos empty, if_neg (by simp [empty])]
        rfl
      · rw [if_neg empty, if_pos (Text.bytes_lt_bytes_append before empty), Text.sliceFrom?_append]
        rfl
  | case2 rest => exact scanFrom?_of_line_comment before passed
  | case3 rest unclosed =>
      have comment := scanFrom?_of_unclosed_comment (before ++ passed) ['/', '*'] unclosed
      rw [List.append_assoc _ ['/', '*']] at comment
      rw [scanFrom?_of_block_comment, behindCode_comment]
      exact congrArg _ comment
  | case4 rest body after closed pieces isOpen readAfter inductionHypothesis =>
      obtain ⟨whole, _⟩ := Text.closeComment?_append closed
      have comment := scanFrom?_of_closed_comment (before ++ passed) ['/', '*'] closed
      have behind := inductionHypothesis (before ++ passed ++ ['/', '*'] ++ body) []
      rw [readAfter, List.append_nil, List.append_assoc _ body, whole] at behind
      rw [behind, List.append_assoc _ ['/', '*']] at comment
      rw [scanFrom?_of_block_comment, behindCode_comment]
      exact congrArg _ comment
  | case5 c rest notLine notBlock unclosed pieces isOpen readAfter inductionHypothesis =>
      have behind := inductionHypothesis before (passed ++ [c])
      rw [readAfter] at behind
      rw [scanFrom?_of_ordinary (before ++ passed) before notLine notBlock unclosed,
        behindCode_consCode (by simp), ← behind]
      simp only [List.append_assoc, List.singleton_append]
  | case6 c rest notLine notBlock quoted after found pieces isOpen readAfter inductionHypothesis =>
      obtain ⟨whole, nonempty⟩ := Text.literal?_append found
      have behind := inductionHypothesis before (passed ++ quoted)
      rw [readAfter] at behind
      rw [scanFrom?_of_literal? (before ++ passed) before found, behindCode_consCode nonempty, ← behind,
        ← whole]
      simp only [List.append_assoc]

/-- Every slice that the scanner takes exists, and its pieces are the pieces of the line. -/
theorem scan?_eq (text : Text) (openBefore : Bool) : scan? text openBefore = some (read text openBefore) := by
  cases openBefore with
  | false =>
      have code := scanFrom?_eq [] [] text
      simp only [List.nil_append, Text.bytes_nil] at code
      rw [scan?, code]
      rfl
  | true =>
      rw [scan?, read, if_pos rfl, readComment]
      cases closed : Text.closeComment? text with
      | none =>
          have comment := scanFrom?_of_unclosed_comment [] [] closed
          simp only [List.nil_append, Text.bytes_nil] at comment
          rw [comment]
          rfl
      | some found =>
          obtain ⟨body, after⟩ := found
          obtain ⟨whole, _⟩ := Text.closeComment?_append closed
          have comment := scanFrom?_of_closed_comment [] [] closed
          have behind := scanFrom?_eq body [] after
          rw [List.append_nil, whole] at behind
          simp only [List.nil_append, Text.bytes_nil, behind] at comment
          rw [comment]
          rfl

end Line

end Dialect
