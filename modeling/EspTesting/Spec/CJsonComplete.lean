import EspTesting.Spec.CJsonAccepts

/-!
# What the parser does not refuse

The other direction: if no allocation fails, a text of `lexis` that is not nested too deeply is
parsed to its value, whatever follows it.

## Key results

- `parseValue_complete`: a text is parsed to its value
- `text_lexis_of_json`: a text of JSON is one of the parser
-/

namespace EspTesting.CJson

open Json (quote comma colon openBracket closeBracket openBrace closeBrace backslash quoted
  Text ItemsText MembersText itemsDepth membersDepth StringText)

open ParseBuffer

variable {D : Type} {F : Doubles D}

/-- No character of a number follows. -/
def NumberEnds (r : List UInt8) : Prop := ∀ c, r.head? = some c → isNumberChar c = false

/-- No allocation fails. -/
def ParseBuffer.Allocates (b : ParseBuffer) : Prop := ∀ k, b.hooks k = true

/-- Reading does not change what the allocator answers. -/
theorem Reads.allocates {b b' : ParseBuffer} {t : List UInt8} (h : Reads b t b')
    (hb : b.Allocates) : b'.Allocates := fun k => by rw [h.hooks]; exact hb k

/-- What is left behind a text that stood there. -/
theorem Reads.rest_eq {b b' : ParseBuffer} {t r : List UInt8} (h : Reads b t b')
    (hb : b.rest = t ++ r) : b'.rest = r := List.append_cancel_left (h.rest.symm.trans hb)

/-- The allocation succeeds. -/
theorem ParseBuffer.exists_allocate {b : ParseBuffer} (hb : b.Allocates) :
    ∃ b', b.allocate = .ok b' ∧ Reads b [] b' :=
  ⟨_, if_pos (hb _), ⟨rfl, rfl, rfl, rfl⟩⟩

/-- White space in front of a character that is none. -/
theorem ParseBuffer.reads_skipWhitespace {b : ParseBuffer} {w r : List UInt8} {c : UInt8}
    (hrest : b.rest = w ++ c :: r) (hw : (lexis F).Blank w) (hc : 32 < c) :
    Reads b w b.skipWhitespace := by
  rw [skipWhitespace_eq hrest hw hc]
  exact reads_advance hrest

/-- The test on the next byte. -/
theorem ParseBuffer.isAt_eq {b : ParseBuffer} {c : UInt8} {r : List UInt8} (hb : b.rest = c :: r)
    (d : UInt8) : b.isAt d = (c == d) := by
  simp only [isAt, hb, List.head?_cons]
  rfl

/-- A literal with another first byte does not stand there. -/
theorem ParseBuffer.isLiteral_of_ne {b : ParseBuffer} {c d : UInt8} {r text : List UInt8}
    (hb : b.rest = c :: r) (hne : c ≠ d) : b.isLiteral (d :: text) = false := by
  rw [← Bool.not_eq_true, isLiteral_iff (List.cons_ne_nil _ _)]
  rintro ⟨r', hr'⟩
  rw [hb] at hr'
  exact hne (List.cons.inj hr').1

/-! ## Tokens -/

/-- A string token is read. -/
theorem parseString_complete (item : Item D) {b : ParseBuffer} {s t r : List UInt8}
    (hb : b.Allocates) (hrest : b.rest = quoted t ++ r) (hs : (lexis F).string s t) :
    ∃ b', parseString item b = .ok ({ item with type := .string, valuestring := some s }, b') ∧
      Reads b (quoted t) b' := by
  obtain ⟨⟨k, hscan⟩, hdecode⟩ := hs
  obtain ⟨b', hb', hread⟩ := b.exists_allocate hb
  have hcons : b.rest = quote :: (t ++ quote :: r) := by
    rw [hrest]
    simp only [quoted, List.cons_append, List.append_assoc, List.nil_append]
  have hfirst : b.read = .ok quote := by simp only [ParseBuffer.read, hcons]
  have hunits := units_of_scanned hscan
  -- the buffer has a byte for each unit of the text
  have hfits : Fits (t.length + 1 - k) t := .inl (by omega)
  obtain ⟨heq, hroom⟩ := unescape_eq t.length r ⟨[], t.length + 1 - k + 1⟩ hfits
    (by simp)
  obtain hfail | ⟨s', hs'⟩ := decode_cases (Nat.le_refl t.length)
  · cases hdecode.symm.trans (hfail [])
  · obtain rfl := Except.ok.inj (hdecode.symm.trans (hs' []))
    have hput : Output.put ⟨s, t.length + 1 - k + 1⟩ [0] =
        .ok ⟨s ++ [0], t.length + 1 - k + 1⟩ :=
      if_pos (Nat.add_le_add_right (hroom s (hs' r)) 1)
    have hquoted : (quoted t).length = t.length + 2 := by
      simp only [quoted, List.length_append, List.length_cons, List.length_nil]
    refine ⟨b'.advance (t.length + 2), ?_, ?_⟩
    · simp only [parseString, hfirst, bind, Except.bind, ne_eq, not_true_eq_false, if_false,
        hcons, List.drop_succ_cons, List.drop_zero, scanString_of_scanned hscan, hb', heq, hs',
        Except.map, List.nil_append, hput]
    · rw [← hquoted]
      rw [hread.rest] at hrest
      exact hread.trans (reads_advance hrest)

/-- A number token is read. -/
theorem parseNumber_complete (item : Item D) {b : ParseBuffer} {n : D} {t r : List UInt8}
    (hrest : b.rest = t ++ r) (hr : NumberEnds r) (hn : (lexis F).number n t) :
    parseNumber F item b =
      .ok ({ item with valuedouble := n, valueint := F.saturate n, type := .number },
        b.advance t.length) := by
  obtain ⟨⟨c, hc, -⟩, hlen, hchars, hstrtod⟩ := hn
  have hne : t.length ≠ 0 := by
    intro h
    rw [List.length_eq_zero_iff.mp h] at hc
    cases hc
  -- nothing that could stand in a number follows
  have hend : (r.take (63 - t.length)).takeWhile isNumberChar = [] := by
    cases r with
    | nil => rw [List.take_nil, List.takeWhile_nil]
    | cons c r =>
      cases 63 - t.length with
      | zero => rw [List.take_zero, List.takeWhile_nil]
      | succ k =>
        rw [List.take_succ_cons, List.takeWhile_cons_of_neg]
        rw [hr c rfl]
        decide
  have htext : (b.rest.take 63).takeWhile isNumberChar = t := by
    rw [hrest, List.take_append, List.take_of_length_le hlen,
      List.takeWhile_append_of_pos hchars, hend, List.append_nil]
  simp only [parseNumber, htext, hstrtod, if_neg hne]

/-! ## Values -/

/-- The item `item` and the buffer `b`, once the text `t` of `v` is parsed. -/
def ParsedAs (item : Item D) (b : ParseBuffer) (v : Json D) (t : List UInt8)
    (p : Item D × ParseBuffer) : Prop :=
  Reads b t p.2 ∧ p.1.value = v ∧ p.1.string = item.string

/-- A number ends in front of a byte that cannot stand in one. -/
theorem NumberEnds.cons {c : UInt8} (hc : isNumberChar c = false) (r : List UInt8) :
    NumberEnds (c :: r) := by
  rintro _ ⟨⟩
  exact hc

/-- Neither a blank nor what follows it belongs to a number. -/
theorem NumberEnds.blank_append {w r : List UInt8} (hw : (lexis F).Blank w) (h : NumberEnds r) :
    NumberEnds (w ++ r) := by
  cases w with
  | nil => exact h
  | cons c w =>
    apply NumberEnds.cons
    have hc : c ≤ 32 := hw c (List.mem_cons_self ..)
    have hall : ∀ n : Fin 33, isNumberChar (UInt8.ofNat n.val) = false := by decide
    have := hall ⟨c.toNat, Nat.lt_succ_of_le (UInt8.le_iff_toNat_le.mp hc)⟩
    rwa [UInt8.ofNat_toNat] at this

/-- A first character that belongs to no literal. -/
theorem ParseBuffer.isLiteral_eq_false {b : ParseBuffer} {c : UInt8} {r : List UInt8}
    (hb : b.rest = c :: r) (hn : c ≠ 0x6E) (hf : c ≠ 0x66) (ht : c ≠ 0x74) :
    b.isLiteral Json.nullText = false ∧ b.isLiteral Json.falseText = false ∧
      b.isLiteral Json.trueText = false :=
  ⟨isLiteral_of_ne hb hn, isLiteral_of_ne hb hf, isLiteral_of_ne hb ht⟩

/-- In front of a quotation mark a string is parsed. -/
theorem parseValue_eq_string (room : Nat) (item : Item D) {b : ParseBuffer} {r : List UInt8}
    (hb : b.rest = quote :: r) : parseValue F room item b = parseString item b := by
  obtain ⟨hnull, hfalse, htrue⟩ := isLiteral_eq_false hb (by decide) (by decide) (by decide)
  unfold parseValue
  simp only [hnull, hfalse, htrue, isAt_eq hb, Bool.false_eq_true, if_false, beq_self_eq_true,
    if_true]

/-- In front of a sign or a digit a number is parsed. -/
theorem parseValue_eq_number (room : Nat) (item : Item D) {b : ParseBuffer} {c : UInt8}
    {r : List UInt8} (hb : b.rest = c :: r) (hc : c = 0x2D ∨ 0x30 ≤ c ∧ c ≤ 0x39) :
    parseValue F room item b = parseNumber F item b := by
  have hne : c ≠ 0x6E ∧ c ≠ 0x66 ∧ c ≠ 0x74 ∧ c ≠ quote := by
    refine ⟨?_, ?_, ?_, ?_⟩
    all_goals
      rintro rfl
      revert hc
      decide
  obtain ⟨hnull, hfalse, htrue⟩ := isLiteral_eq_false hb hne.1 hne.2.1 hne.2.2.1
  have hquote : (c == quote) = false := beq_eq_false_iff_ne.mpr hne.2.2.2
  have hnum : b.isAtNumber = true := by
    simp only [isAtNumber, hb, List.head?_cons, Option.any_some, Bool.or_eq_true, beq_iff_eq,
      Bool.and_eq_true, decide_eq_true_eq]
    exact hc
  unfold parseValue
  simp only [hnull, hfalse, htrue, isAt_eq hb, hquote, hnum, Bool.false_eq_true, if_false,
    if_true]

/-- In front of a bracket an array is parsed. -/
theorem parseValue_eq_array (room : Nat) (item : Item D) {b : ParseBuffer} {r : List UInt8}
    (hb : b.rest = openBracket :: r) :
    parseValue F (room + 1) item b = parseArray F (parseValue F room) item b := by
  obtain ⟨hnull, hfalse, htrue⟩ := isLiteral_eq_false hb (by decide) (by decide) (by decide)
  have hnum : b.isAtNumber = false := by
    simp only [isAtNumber, hb]
    rfl
  have hquote : (openBracket == quote) = false := by decide
  rw [parseValue]
  simp only [hnull, hfalse, htrue, isAt_eq hb, hquote, hnum, Bool.false_eq_true, if_false,
    beq_self_eq_true, if_true]

/-- In front of a brace an object is parsed. -/
theorem parseValue_eq_object (room : Nat) (item : Item D) {b : ParseBuffer} {r : List UInt8}
    (hb : b.rest = openBrace :: r) :
    parseValue F (room + 1) item b = parseObject F (parseValue F room) item b := by
  obtain ⟨hnull, hfalse, htrue⟩ := isLiteral_eq_false hb (by decide) (by decide) (by decide)
  have hnum : b.isAtNumber = false := by
    simp only [isAtNumber, hb]
    rfl
  have hquote : (openBrace == quote) = false := by decide
  have hopen : (openBrace == openBracket) = false := by decide
  rw [parseValue]
  simp only [hnull, hfalse, htrue, isAt_eq hb, hquote, hnum, hopen, Bool.false_eq_true, if_false,
    beq_self_eq_true, if_true]

/-! ### Arrays -/

/-- The characters `buffer_skip_whitespace` passes in front of `l`. -/
def blanks (l : List UInt8) : Nat :=
  if l.all (· ≤ 32) then l.length - 1 else (l.takeWhile (· ≤ 32)).length

/-- In front of a visible byte there are no blanks. -/
theorem blanks_cons {c : UInt8} (hc : 32 < c) (r : List UInt8) : blanks (c :: r) = 0 := by
  have hnot : ¬(c :: r).all (· ≤ 32) := by
    simp [UInt8.not_le.mpr hc]
  rw [blanks, if_neg hnot, List.takeWhile_cons_of_neg (by simpa using hc), List.length_nil]

/-- Skipping steps over as many bytes as there are blanks. -/
theorem ParseBuffer.skipWhitespace_eq_advance (b : ParseBuffer) :
    b.skipWhitespace = b.advance (blanks b.rest) := by
  unfold blanks
  split
  · rename_i hall
    exact skipWhitespace_stuck (by simpa using hall)
  · rename_i hnot
    simp only [List.all_eq_true, decide_eq_true_eq] at hnot
    obtain ⟨w, c, r, hrest, hw, hc⟩ | hall := blank_or_exists b.rest
    · rw [skipWhitespace_eq hrest hw hc, hrest, List.takeWhile_append_of_pos (by simpa using hw),
        List.takeWhile_cons_of_neg (by simpa using hc), List.append_nil]
    · exact absurd hall hnot

/-- The buffer that the loops of `parse_array` and `parse_object` start with is one back from
    the first character that is no white space; they come to the same place from `b`. -/
theorem ParseBuffer.skip_stepBack {b : ParseBuffer} {c : UInt8} {r : List UInt8}
    (hrest : (b.advance 1).skipWhitespace.rest = c :: r) (hc : 32 < c) (k : Nat) :
    (({ (b.advance 1).skipWhitespace.stepBack with allocated := k } : ParseBuffer).advance
        1).skipWhitespace =
      (({ b with allocated := k } : ParseBuffer).advance 1).skipWhitespace := by
  have hoff := (b.advance 1).offset_le_skipWhitespace
  have hback := advance_stepBack (b := (b.advance 1).skipWhitespace)
    (Nat.lt_of_lt_of_le (Nat.succ_pos _) hoff)
  have hleft : ({ (b.advance 1).skipWhitespace.stepBack with allocated := k } :
      ParseBuffer).advance 1 = { (b.advance 1).skipWhitespace with allocated := k } := by
    rw [← hback]
    rfl
  -- the second time there is nothing to skip
  have hblanks : blanks ({ (b.advance 1).skipWhitespace with allocated := k } :
      ParseBuffer).rest = 0 := by
    show blanks (b.advance 1).skipWhitespace.rest = 0
    rw [hrest, blanks_cons hc]
  rw [hleft, skipWhitespace_eq_advance, hblanks, skipWhitespace_eq_advance,
    skipWhitespace_eq_advance]
  rfl

/-- The blanks in front of the first element may be skipped before. -/
theorem parseElements_skip (parseValue : ValueParser D) (fuel : Nat) (head : List (Item D))
    {b : ParseBuffer} {c : UInt8} {r : List UInt8}
    (hrest : (b.advance 1).skipWhitespace.rest = c :: r) (hc : 32 < c) :
    parseElements F parseValue fuel head (b.advance 1).skipWhitespace.stepBack =
      parseElements F parseValue fuel head b := by
  cases fuel with
  | zero => rfl
  | succ fuel =>
    have hskip := skip_stepBack hrest hc (b.allocated + 1)
    have heq := skipWhitespace_eq_advance (b.advance 1)
    unfold parseElements allocate
    -- both buffers stand at the same allocation
    have hhooks : (b.advance 1).skipWhitespace.stepBack.hooks
        (b.advance 1).skipWhitespace.stepBack.allocated = b.hooks b.allocated := by
      rw [heq]
      rfl
    have hallocated : (b.advance 1).skipWhitespace.stepBack.allocated = b.allocated := by
      rw [heq]
      rfl
    rw [hhooks, hallocated]
    split
    · simp only [bind, Except.bind, hskip]
    · rfl

/-- The elements parsed behind the character in front of them, once `vs` are parsed. -/
def ElementsParsedAs (head : List (Item D)) (b : ParseBuffer) (vs : List (Json D))
    (t : List UInt8) (p : List (Item D) × ParseBuffer) : Prop :=
  Reads (b.advance 1) t p.2 ∧ ∃ child, p.1 = head ++ child ∧ values child = vs

/-- `parse_array` finds no elements. -/
theorem parseArray_empty (parseValue : ValueParser D) (item : Item D) {b : ParseBuffer}
    {w r : List UInt8} (hw : (lexis F).Blank w)
    (hrest : b.rest = openBracket :: w ++ [closeBracket] ++ r) :
    ∃ p, parseArray F parseValue item b = .ok p ∧
      ParsedAs item b (.array []) (openBracket :: w ++ [closeBracket]) p := by
  have hcons : b.rest = openBracket :: (w ++ closeBracket :: r) := by simpa using hrest
  have hread : b.read = .ok openBracket := by simp only [ParseBuffer.read, hcons]
  have hone := reads_advance_one hcons
  have hrest₁ : (b.advance 1).rest = w ++ closeBracket :: r := hone.rest_eq hcons
  -- the blanks, and the closing bracket
  have hskip := reads_skipWhitespace hrest₁ hw (by decide)
  have hrest₂ := hskip.rest_eq hrest₁
  have hclose := reads_advance_one hrest₂
  refine ⟨({ item with type := .array, child := [] }, (b.advance 1).skipWhitespace.advance 1),
    ?_, hone.trans (hskip.trans hclose), ?_, rfl⟩
  · simp only [parseArray, hread, bind, Except.bind, ne_eq, not_true_eq_false, if_false,
      isAt_eq hrest₂, beq_self_eq_true, if_true]
    rfl
  · simp only [Item.value, values]

/-- `parse_array` around its loop. -/
theorem parseArray_complete (parseValue : ValueParser D) (item : Item D) {b : ParseBuffer}
    {vs : List (Json D)} {t r : List UInt8} {c : UInt8} {w y : List UInt8}
    (hrest : b.rest = openBracket :: t ++ [closeBracket] ++ r) (ht : t = w ++ c :: y)
    (hw : (lexis F).Blank w) (hc : 32 < c) (hne : c ≠ closeBracket)
    (helements : ∃ p, parseElements F parseValue (b.content.length + 1) [] b = .ok p ∧
      ElementsParsedAs [] b vs t p) :
    ∃ p, parseArray F parseValue item b = .ok p ∧
      ParsedAs item b (.array vs) (openBracket :: t ++ [closeBracket]) p := by
  have hcons : b.rest = openBracket :: (t ++ closeBracket :: r) := by simpa using hrest
  have hread : b.read = .ok openBracket := by simp only [ParseBuffer.read, hcons]
  have hone := reads_advance_one hcons
  have hrest₁ : (b.advance 1).rest = t ++ closeBracket :: r := hone.rest_eq hcons
  -- no closing bracket follows, so there are elements
  have hrest₁' : (b.advance 1).rest = w ++ c :: (y ++ closeBracket :: r) := by
    rw [hrest₁, ht, List.append_assoc, List.cons_append]
  have hskip := reads_skipWhitespace hrest₁' hw hc
  have hrest₂ := hskip.rest_eq hrest₁'
  have haccess : (b.advance 1).skipWhitespace.canAccessAtIndex 0 = true :=
    canAccessAtIndex_iff.mpr (by rw [hrest₂]; exact Nat.succ_pos _)
  have hnot : (c == closeBracket) = false := beq_eq_false_iff_ne.mpr hne
  obtain ⟨p, hp, hreads, child, hchild, hvalues⟩ := helements
  have hrest₃ := hreads.rest_eq hrest₁
  have hcontent : (b.advance 1).skipWhitespace.content = b.content := hskip.content
  refine ⟨({ item with type := .array, child := p.1 }, p.2.advance 1), ?_,
    hone.trans (hreads.trans (reads_advance_one hrest₃)), ?_, rfl⟩
  · simp only [parseArray, hread, bind, Except.bind, ne_eq, not_true_eq_false, if_false,
      isAt_eq hrest₂, hnot, haccess, Bool.not_true, Bool.false_eq_true, hcontent,
      parseElements_skip parseValue _ _ hrest₂ hc, hp, isAt_eq hrest₃, beq_self_eq_true]
    rfl
  · rw [List.nil_append] at hchild
    simp only [Item.value, hchild, hvalues]

/-! ### Objects -/

/-- The blanks in front of the first member may be skipped before. -/
theorem parseMembers_skip (parseValue : ValueParser D) (fuel : Nat) (head : List (Item D))
    {b : ParseBuffer} {c : UInt8} {r : List UInt8}
    (hrest : (b.advance 1).skipWhitespace.rest = c :: r) (hc : 32 < c) :
    parseMembers F parseValue fuel head (b.advance 1).skipWhitespace.stepBack =
      parseMembers F parseValue fuel head b := by
  cases fuel with
  | zero => rfl
  | succ fuel =>
    have hskip := skip_stepBack hrest hc (b.allocated + 1)
    have heq := skipWhitespace_eq_advance (b.advance 1)
    have hoff : b.offset + 1 ≤ (b.advance 1).skipWhitespace.offset :=
      (b.advance 1).offset_le_skipWhitespace
    unfold parseMembers allocate
    have hhooks : (b.advance 1).skipWhitespace.stepBack.hooks
        (b.advance 1).skipWhitespace.stepBack.allocated = b.hooks b.allocated := by
      rw [heq]
      rfl
    have hallocated : (b.advance 1).skipWhitespace.stepBack.allocated = b.allocated := by
      rw [heq]
      rfl
    have hcontent : (b.advance 1).skipWhitespace.content = b.content := by
      rw [heq]
      rfl
    -- something follows the character in front of the first name, in both buffers
    have hlen := congrArg List.length hrest
    rw [ParseBuffer.rest, List.length_drop, List.length_cons, hcontent] at hlen
    have haccess : ({ (b.advance 1).skipWhitespace.stepBack with allocated := b.allocated + 1 } :
        ParseBuffer).canAccessAtIndex 1 = true := by
      simp only [canAccessAtIndex, stepBack, hcontent, decide_eq_true_eq]
      omega
    have haccess' : ({ b with allocated := b.allocated + 1 } :
        ParseBuffer).canAccessAtIndex 1 = true := by
      simp only [canAccessAtIndex, decide_eq_true_eq]
      omega
    rw [hhooks, hallocated]
    split
    · simp only [bind, Except.bind, hskip, haccess, haccess']
    · rfl

/-- The members parsed behind the character in front of them, once `ms` are parsed. -/
def MembersParsedAs (head : List (Item D)) (b : ParseBuffer) (ms : List (List UInt8 × Json D))
    (t : List UInt8) (p : List (Item D) × ParseBuffer) : Prop :=
  Reads (b.advance 1) t p.2 ∧ ∃ child, p.1 = head ++ child ∧ members child = ms

/-- `parse_object` finds no members. -/
theorem parseObject_empty (parseValue : ValueParser D) (item : Item D) {b : ParseBuffer}
    {w r : List UInt8} (hw : (lexis F).Blank w)
    (hrest : b.rest = openBrace :: w ++ [closeBrace] ++ r) :
    ∃ p, parseObject F parseValue item b = .ok p ∧
      ParsedAs item b (.object []) (openBrace :: w ++ [closeBrace]) p := by
  have hcons : b.rest = openBrace :: (w ++ closeBrace :: r) := by simpa using hrest
  have hone := reads_advance_one hcons
  have hrest₁ : (b.advance 1).rest = w ++ closeBrace :: r := hone.rest_eq hcons
  -- the blanks, and the closing brace
  have hskip := reads_skipWhitespace hrest₁ hw (by decide)
  have hrest₂ := hskip.rest_eq hrest₁
  have hclose := reads_advance_one hrest₂
  refine ⟨({ item with type := .object, child := [] }, (b.advance 1).skipWhitespace.advance 1),
    ?_, hone.trans (hskip.trans hclose), ?_, rfl⟩
  · simp only [parseObject, isAt_eq hcons, bind, Except.bind, isAt_eq hrest₂, beq_self_eq_true,
      Bool.not_true, Bool.false_eq_true, if_false, if_true]
    rfl
  · simp only [Item.value, members]

/-- `parse_object` around its loop. -/
theorem parseObject_complete (parseValue : ValueParser D) (item : Item D) {b : ParseBuffer}
    {ms : List (List UInt8 × Json D)} {t r w y : List UInt8} {c : UInt8}
    (hrest : b.rest = openBrace :: t ++ [closeBrace] ++ r) (ht : t = w ++ c :: y)
    (hw : (lexis F).Blank w) (hc : 32 < c) (hne : c ≠ closeBrace)
    (hmembers : ∃ p, parseMembers F parseValue (b.content.length + 1) [] b = .ok p ∧
      MembersParsedAs [] b ms t p) :
    ∃ p, parseObject F parseValue item b = .ok p ∧
      ParsedAs item b (.object ms) (openBrace :: t ++ [closeBrace]) p := by
  have hcons : b.rest = openBrace :: (t ++ closeBrace :: r) := by simpa using hrest
  have hone := reads_advance_one hcons
  have hrest₁ : (b.advance 1).rest = t ++ closeBrace :: r := hone.rest_eq hcons
  -- no closing brace follows, so there are members
  have hrest₁' : (b.advance 1).rest = w ++ c :: (y ++ closeBrace :: r) := by
    rw [hrest₁, ht, List.append_assoc, List.cons_append]
  have hskip := reads_skipWhitespace hrest₁' hw hc
  have hrest₂ := hskip.rest_eq hrest₁'
  have haccess : (b.advance 1).skipWhitespace.canAccessAtIndex 0 = true :=
    canAccessAtIndex_iff.mpr (by rw [hrest₂]; exact Nat.succ_pos _)
  have hnot : (c == closeBrace) = false := beq_eq_false_iff_ne.mpr hne
  obtain ⟨p, hp, hreads, child, hchild, hvalues⟩ := hmembers
  have hrest₃ := hreads.rest_eq hrest₁
  have hcontent : (b.advance 1).skipWhitespace.content = b.content := hskip.content
  refine ⟨({ item with type := .object, child := p.1 }, p.2.advance 1), ?_,
    hone.trans (hreads.trans (reads_advance_one hrest₃)), ?_, rfl⟩
  · simp only [parseObject, isAt_eq hcons, bind, Except.bind, Bool.not_true, if_false,
      isAt_eq hrest₂, hnot, haccess, Bool.false_eq_true, hcontent,
      parseMembers_skip parseValue _ _ hrest₂ hc, hp, isAt_eq hrest₃, beq_self_eq_true]
    rfl
  · rw [List.nil_append] at hchild
    simp only [Item.value, hchild, hvalues]

/-! ### Texts -/

/-- The first character behind the blanks of the items of an array. -/
theorem exists_head_of_itemsText {vs : List (Json D)} {t : List UInt8}
    (h : ItemsText (lexis F) vs t) :
    ∃ w c y, t = w ++ c :: y ∧ (lexis F).Blank w ∧ 32 < c ∧ c ≠ closeBracket := by
  cases h with
  | @last v w t w' hw h _ =>
    obtain ⟨c, r, rfl, hc, hne, hascii⟩ := exists_head_of_text h
    exact ⟨w, c, r ++ w', by simp, hw, hc, hne⟩
  | @more v vs w t w' ts hw h _ _ =>
    obtain ⟨c, r, rfl, hc, hne, hascii⟩ := exists_head_of_text h
    exact ⟨w, c, r ++ w' ++ comma :: ts, by simp, hw, hc, hne⟩

/-- The first character behind the blanks of the members of an object. -/
theorem exists_head_of_membersText {ms : List (List UInt8 × Json D)} {t : List UInt8}
    (h : MembersText (lexis F) ms t) :
    ∃ w y, t = w ++ quote :: y ∧ (lexis F).Blank w := by
  cases h with
  | @last s v w k w' w'' t w₃ hw _ _ _ _ _ =>
    exact ⟨w, k ++ quote :: (w' ++ colon :: (w'' ++ t ++ w₃)), by simp [quoted], hw⟩
  | @more s v ms w k w' w'' t w₃ ts hw _ _ _ _ _ _ =>
    exact ⟨w, k ++ quote :: (w' ++ colon :: (w'' ++ t ++ w₃ ++ comma :: ts)),
      by simp [quoted], hw⟩

/-- A literal is read. -/
theorem parseValue_literal {room : Nat} {item : Item D} {b : ParseBuffer} {v : Json D}
    {text r : List UInt8} (hrest : b.rest = text ++ r) (item' : Item D)
    (heq : parseValue F room item b = .ok (item', b.advance text.length))
    (hv : item'.value = v) (hstring : item'.string = item.string) :
    ∃ p, parseValue F room item b = .ok p ∧ ParsedAs item b v text p :=
  ⟨_, heq, reads_advance hrest, hv, hstring⟩

/-- The text between two brackets. -/
theorem rest_of_bracketed {b : ParseBuffer} {o c : UInt8} {t r : List UInt8}
    (hrest : b.rest = o :: t ++ [c] ++ r) :
    (b.advance 1).rest = t ++ c :: r ∧ t.length < b.content.length + 1 := by
  have hcons : b.rest = o :: (t ++ c :: r) := by simpa using hrest
  have hlen := congrArg List.length hcons
  rw [ParseBuffer.rest, List.length_drop, List.length_cons, List.length_append] at hlen
  exact ⟨(reads_advance_one hcons).rest_eq hcons, by omega⟩

/-- The parser of a value reads the text `t` of `v`. -/
def ReadsValue (parseValue : ValueParser D) (v : Json D) (t : List UInt8) : Prop :=
  ∀ (item : Item D) (b : ParseBuffer) (r : List UInt8), b.Allocates → b.rest = t ++ r →
    NumberEnds r → ∃ p, parseValue item b = .ok p ∧ ParsedAs item b v t p

/-- One turn of the loop of `parse_array`. -/
theorem parseElements_step {parseValue : ValueParser D} (fuel : Nat) (head : List (Item D))
    {b : ParseBuffer} {v : Json D} {w t w' z : List UInt8} {d : UInt8} (hb : b.Allocates)
    (hw : (lexis F).Blank w) (htext : Text (lexis F) v t) (hw' : (lexis F).Blank w')
    (hd : 32 < d) (hnum : isNumberChar d = false)
    (hrest : (b.advance 1).rest = w ++ t ++ w' ++ d :: z)
    (hvalue : ReadsValue parseValue v t) :
    ∃ item b', item.value = v ∧ b'.Allocates ∧ b'.rest = d :: z ∧
      Reads (b.advance 1) (w ++ t ++ w') b' ∧
      parseElements F parseValue (fuel + 1) head b =
        if d == comma then parseElements F parseValue fuel (head ++ [item]) b'
        else .ok (head ++ [item], b') := by
  obtain ⟨b₁, hb₁, hread₁⟩ := b.exists_allocate hb
  have hread₁ := hread₁.advance 1
  obtain ⟨c, y, hcons, hc, -⟩ := exists_head_of_text htext
  have hrest₁ : (b₁.advance 1).rest = w ++ (t ++ (w' ++ d :: z)) := by
    rw [← List.append_assoc, ← List.append_assoc, ← hrest]
    exact hread₁.rest.symm
  -- the blanks in front, the value, the blanks behind
  have hskip : Reads (b₁.advance 1) w (b₁.advance 1).skipWhitespace := by
    rw [hcons, List.cons_append] at hrest₁
    exact reads_skipWhitespace hrest₁ hw hc
  have hb₂ : (b₁.advance 1).skipWhitespace.Allocates :=
    hskip.allocates (hread₁.allocates fun k => hb k)
  obtain ⟨p, hp, hreads, hv, -⟩ := hvalue (Item.new F) _ _ hb₂ (hskip.rest_eq hrest₁)
    ((NumberEnds.cons hnum z).blank_append hw')
  have hrest₃ := hreads.rest_eq (hskip.rest_eq hrest₁)
  have hskip' := reads_skipWhitespace hrest₃ hw' hd
  have hrest₄ := hskip'.rest_eq hrest₃
  have hall := (hread₁.trans hskip).trans (hreads.trans hskip')
  rw [List.nil_append, ← List.append_assoc] at hall
  refine ⟨p.1, p.2.skipWhitespace, hv, hall.allocates fun k => hb k, hrest₄, hall, ?_⟩
  rw [parseElements]
  simp only [hb₁, hp, bind, Except.bind, isAt_eq hrest₄]

/-- One turn of the loop of `parse_object`. -/
theorem parseMembers_step {parseValue : ValueParser D} (fuel : Nat) (head : List (Item D))
    {b : ParseBuffer} {s : List UInt8} {v : Json D} {w k w₁ w₂ t w₃ z : List UInt8} {d : UInt8}
    (hb : b.Allocates) (hw : (lexis F).Blank w) (hk : (lexis F).string s k)
    (hw₁ : (lexis F).Blank w₁) (hw₂ : (lexis F).Blank w₂) (htext : Text (lexis F) v t)
    (hw₃ : (lexis F).Blank w₃) (hd : 32 < d) (hnum : isNumberChar d = false)
    (hrest : (b.advance 1).rest =
      w ++ quoted k ++ w₁ ++ colon :: (w₂ ++ t ++ w₃) ++ d :: z)
    (hvalue : ReadsValue parseValue v t) :
    ∃ item b', item.value = v ∧ item.string = some s ∧ b'.Allocates ∧ b'.rest = d :: z ∧
      Reads (b.advance 1) (w ++ quoted k ++ w₁ ++ colon :: (w₂ ++ t ++ w₃)) b' ∧
      parseMembers F parseValue (fuel + 1) head b =
        if d == comma then parseMembers F parseValue fuel (head ++ [item]) b'
        else .ok (head ++ [item], b') := by
  obtain ⟨b₁, hb₁, hread₁⟩ := b.exists_allocate hb
  have hread₁ := hread₁.advance 1
  obtain ⟨c, y, hcons, hc, -⟩ := exists_head_of_text htext
  have hrest₁ : (b₁.advance 1).rest =
      w ++ (quoted k ++ (w₁ ++ colon :: (w₂ ++ (t ++ (w₃ ++ d :: z))))) := by
    have := hread₁.rest.symm.trans hrest
    simpa only [List.append_assoc, List.cons_append, List.nil_append] using this
  have haccess : b₁.canAccessAtIndex 1 = true := by
    have hlen := congrArg List.length hrest₁
    rw [rest_advance, List.length_drop] at hlen
    simp only [List.length_append, List.length_cons] at hlen
    exact canAccessAtIndex_iff.mpr (by omega)
  -- the name
  have hskip : Reads (b₁.advance 1) w (b₁.advance 1).skipWhitespace :=
    reads_skipWhitespace hrest₁ hw (by decide : (32 : UInt8) < quote)
  have hb₂ : (b₁.advance 1).skipWhitespace.Allocates :=
    hskip.allocates (hread₁.allocates fun k => hb k)
  have hrest₂ := hskip.rest_eq hrest₁
  obtain ⟨b₃, hname, hread₃⟩ := parseString_complete (Item.new F) hb₂ hrest₂ hk
  have hrest₃ := hread₃.rest_eq hrest₂
  have hskip₃ := reads_skipWhitespace hrest₃ hw₁ (by decide : (32 : UInt8) < colon)
  have hrest₄ := hskip₃.rest_eq hrest₃
  -- the colon and the value
  have hcolon := reads_advance_one hrest₄
  have hrest₅ := hcolon.rest_eq hrest₄
  have hskip₅ : Reads (b₃.skipWhitespace.advance 1) w₂
      (b₃.skipWhitespace.advance 1).skipWhitespace := by
    rw [hcons, List.cons_append] at hrest₅
    exact reads_skipWhitespace hrest₅ hw₂ hc
  have hrest₆ := hskip₅.rest_eq hrest₅
  have hb₆ := hskip₅.allocates (hcolon.allocates (hskip₃.allocates (hread₃.allocates hb₂)))
  obtain ⟨p, hp, hreads, hv, hstring⟩ := hvalue
    { Item.new F with type := .string, string := some s, valuestring := none } _ _ hb₆ hrest₆
    ((NumberEnds.cons hnum z).blank_append hw₃)
  have hrest₇ := hreads.rest_eq hrest₆
  have hskip₇ := reads_skipWhitespace hrest₇ hw₃ hd
  have hrest₈ := hskip₇.rest_eq hrest₇
  have hall := ((hread₁.trans hskip).trans (hread₃.trans hskip₃)).trans
    (hcolon.trans (hskip₅.trans (hreads.trans hskip₇)))
  have heq : [] ++ w ++ (quoted k ++ w₁) ++ ([colon] ++ (w₂ ++ (t ++ w₃))) =
      w ++ quoted k ++ w₁ ++ colon :: (w₂ ++ t ++ w₃) := by
    simp only [List.nil_append, List.append_assoc, List.cons_append]
  rw [heq] at hall
  refine ⟨p.1, p.2.skipWhitespace, hv, hstring, hall.allocates fun k => hb k, hrest₈, hall, ?_⟩
  rw [parseMembers]
  simp only [hb₁, haccess, hname, hp, bind, Except.bind, isAt_eq hrest₄, isAt_eq hrest₈,
    beq_self_eq_true, Bool.not_true, Bool.false_eq_true, if_false]

mutual

/-- A text is parsed to its value, if it is not a number that what follows goes on with. -/
theorem parseValue_complete : ∀ {v : Json D} {t : List UInt8}, Text (lexis F) v t →
    ∀ {room : Nat} (item : Item D) {b : ParseBuffer} {r : List UInt8}, v.depth ≤ room →
      b.Allocates → b.rest = t ++ r → (v.isNumber = true → NumberEnds r) →
      ∃ p, parseValue F room item b = .ok p ∧ ParsedAs item b v t p
  | _, _, .null, room, item, b, r, _, _, hrest, _ => by
    refine parseValue_literal hrest { item with type := .null } ?_ ?_ rfl
    · have hlit : b.isLiteral Json.nullText = true := (isLiteral_iff (by decide)).mpr ⟨r, hrest⟩
      unfold parseValue
      simp only [hlit, if_true]
      rfl
    · simp only [Item.value]
  | _, _, .false, room, item, b, r, _, _, hrest, _ => by
    refine parseValue_literal hrest { item with type := .false } ?_ ?_ rfl
    · have hnull : b.isLiteral Json.nullText = false := isLiteral_of_ne hrest (by decide)
      have hlit : b.isLiteral Json.falseText = true := (isLiteral_iff (by decide)).mpr ⟨r, hrest⟩
      unfold parseValue
      simp only [hnull, hlit, Bool.false_eq_true, if_false, if_true]
      rfl
    · simp only [Item.value]
  | _, _, .true, room, item, b, r, _, _, hrest, _ => by
    refine parseValue_literal hrest { item with type := .true, valueint := 1 } ?_ ?_ rfl
    · have hnull : b.isLiteral Json.nullText = false := isLiteral_of_ne hrest (by decide)
      have hfalse : b.isLiteral Json.falseText = false := isLiteral_of_ne hrest (by decide)
      have hlit : b.isLiteral Json.trueText = true := (isLiteral_iff (by decide)).mpr ⟨r, hrest⟩
      unfold parseValue
      simp only [hnull, hfalse, hlit, Bool.false_eq_true, if_false, if_true]
      rfl
    · simp only [Item.value]
  | _, _, .number h, room, item, b, r, _, _, hrest, hr => by
    obtain ⟨⟨c, hc, hrange⟩, -⟩ := id h
    obtain ⟨y, rfl⟩ := List.head?_eq_some_iff.mp hc
    refine ⟨_, (parseValue_eq_number room item hrest hrange).trans
      (parseNumber_complete item hrest (hr rfl) h), reads_advance hrest, ?_, rfl⟩
    simp only [Item.value]
  | _, _, .string h, room, item, b, r, _, hb, hrest, _ => by
    obtain ⟨b', hparse, hreads⟩ := parseString_complete item hb hrest h
    refine ⟨_, (parseValue_eq_string room item hrest).trans hparse, hreads, ?_, rfl⟩
    simp only [Item.value, Option.getD_some]
  | _, _, .emptyArray hw, room, item, b, r, hdepth, _, hrest, _ => by
    obtain ⟨room, rfl⟩ : ∃ k, room = k + 1 := ⟨room - 1, by simp [Json.depth] at hdepth; omega⟩
    rw [parseValue_eq_array room item hrest]
    exact parseArray_empty _ item hw hrest
  | _, _, .array h, room, item, b, r, hdepth, hb, hrest, _ => by
    simp only [Json.depth] at hdepth
    obtain ⟨room, rfl⟩ : ∃ k, room = k + 1 := ⟨room - 1, by omega⟩
    obtain ⟨w, c, y, ht, hw, hc, hne⟩ := exists_head_of_itemsText h
    rw [parseValue_eq_array room item hrest]
    refine parseArray_complete _ item hrest ht hw hc hne ?_
    obtain ⟨hrest₁, hlen⟩ := rest_of_bracketed hrest
    exact parseElements_complete h _ [] (Nat.le_of_succ_le_succ hdepth) hb hrest₁ hlen
  | _, _, .emptyObject hw, room, item, b, r, hdepth, _, hrest, _ => by
    obtain ⟨room, rfl⟩ : ∃ k, room = k + 1 := ⟨room - 1, by simp [Json.depth] at hdepth; omega⟩
    rw [parseValue_eq_object room item hrest]
    exact parseObject_empty _ item hw hrest
  | _, _, .object h, room, item, b, r, hdepth, hb, hrest, _ => by
    simp only [Json.depth] at hdepth
    obtain ⟨room, rfl⟩ : ∃ k, room = k + 1 := ⟨room - 1, by omega⟩
    obtain ⟨w, y, ht, hw⟩ := exists_head_of_membersText h
    rw [parseValue_eq_object room item hrest]
    refine parseObject_complete _ item hrest ht hw (by decide) (by decide) ?_
    obtain ⟨hrest₁, hlen⟩ := rest_of_bracketed hrest
    exact parseMembers_complete h _ [] (Nat.le_of_succ_le_succ hdepth) hb hrest₁ hlen

/-- The elements of an array are parsed to their values. -/
theorem parseElements_complete : ∀ {vs : List (Json D)} {t : List UInt8},
    ItemsText (lexis F) vs t → ∀ {room : Nat} (fuel : Nat) (head : List (Item D)) {b : ParseBuffer}
      {r : List UInt8}, itemsDepth vs ≤ room → b.Allocates →
      (b.advance 1).rest = t ++ closeBracket :: r → t.length < fuel →
      ∃ p, parseElements F (parseValue F room) fuel head b = .ok p ∧
        ElementsParsedAs head b vs t p
  | _, _, .last hw h hw', room, fuel, head, b, r, hdepth, hb, hrest, hfuel => by
    obtain ⟨fuel, rfl⟩ : ∃ k, fuel = k + 1 := ⟨fuel - 1, by omega⟩
    simp only [itemsDepth, Nat.max_zero] at hdepth
    obtain ⟨item, b', hv, -, -, hreads, heq⟩ := parseElements_step fuel head hb hw h hw'
      (by decide) (by decide) hrest fun item _ _ hb hrest hr =>
        parseValue_complete h item hdepth hb hrest fun _ => hr
    exact ⟨_, heq, hreads, [item], rfl, by simp only [values, hv]⟩
  | _, _, .more hw h hw' hs, room, fuel, head, b, r, hdepth, hb, hrest, hfuel => by
    obtain ⟨fuel, rfl⟩ : ∃ k, fuel = k + 1 := ⟨fuel - 1, by omega⟩
    simp only [itemsDepth] at hdepth
    rw [List.length_append, List.length_cons] at hfuel
    rw [List.append_assoc, List.cons_append] at hrest
    obtain ⟨item, b', hv, hb', hrest', hreads, heq⟩ := parseElements_step fuel head hb hw h hw'
      (by decide) (by decide) hrest fun item _ _ hb hrest hr =>
        parseValue_complete h item (Nat.le_trans (Nat.le_max_left ..) hdepth) hb hrest fun _ => hr
    have hcomma := reads_advance_one hrest'
    obtain ⟨p, hp, hreads', child, hchild, hvalues⟩ := parseElements_complete hs fuel
      (head ++ [item]) (Nat.le_trans (Nat.le_max_right ..) hdepth) hb'
      (hcomma.rest_eq hrest') (by omega)
    refine ⟨p, heq.trans hp, hreads.trans (hcomma.trans hreads'), item :: child, ?_, ?_⟩
    · rw [hchild, List.append_assoc, List.singleton_append]
    · simp only [values, hv, hvalues]

/-- The members of an object are parsed to their names and values. -/
theorem parseMembers_complete : ∀ {ms : List (List UInt8 × Json D)} {t : List UInt8},
    MembersText (lexis F) ms t → ∀ {room : Nat} (fuel : Nat) (head : List (Item D))
      {b : ParseBuffer}
      {r : List UInt8}, membersDepth ms ≤ room → b.Allocates →
      (b.advance 1).rest = t ++ closeBrace :: r → t.length < fuel →
      ∃ p, parseMembers F (parseValue F room) fuel head b = .ok p ∧
        MembersParsedAs head b ms t p
  | _, _, .last hw hk hw₁ hw₂ h hw₃, room, fuel, head, b, r, hdepth, hb, hrest, hfuel => by
    obtain ⟨fuel, rfl⟩ : ∃ k, fuel = k + 1 := ⟨fuel - 1, by omega⟩
    simp only [membersDepth, Nat.max_zero] at hdepth
    obtain ⟨item, b', hv, hstring, -, -, hreads, heq⟩ := parseMembers_step fuel head hb hw hk
      hw₁ hw₂ h hw₃ (by decide) (by decide) hrest fun item _ _ hb hrest hr =>
        parseValue_complete h item hdepth hb hrest fun _ => hr
    exact ⟨_, heq, hreads, [item], rfl, by simp only [members, hv, hstring, Option.getD_some]⟩
  | _, _, .more hw hk hw₁ hw₂ h hw₃ hs, room, fuel, head, b, r, hdepth, hb, hrest,
      hfuel => by
    obtain ⟨fuel, rfl⟩ : ∃ k, fuel = k + 1 := ⟨fuel - 1, by omega⟩
    simp only [membersDepth] at hdepth
    have hassoc : ∀ x y z z' : List UInt8,
        x ++ colon :: (y ++ comma :: z) ++ z' = x ++ colon :: y ++ comma :: (z ++ z') := by simp
    simp only [List.length_append, List.length_cons] at hfuel
    rw [hassoc] at hrest
    obtain ⟨item, b', hv, hstring, hb', hrest', hreads, heq⟩ := parseMembers_step fuel head hb hw
      hk hw₁ hw₂ h hw₃ (by decide) (by decide) hrest fun item _ _ hb hrest hr =>
        parseValue_complete h item (Nat.le_trans (Nat.le_max_left ..) hdepth) hb hrest fun _ => hr
    have hcomma := reads_advance_one hrest'
    obtain ⟨p, hp, hreads', child, hchild, hmembers⟩ := parseMembers_complete hs fuel
      (head ++ [item]) (Nat.le_trans (Nat.le_max_right ..) hdepth) hb'
      (hcomma.rest_eq hrest') (by omega)
    refine ⟨p, heq.trans hp, ?_, item :: child, ?_, ?_⟩
    · have := hreads.trans (hcomma.trans hreads')
      simpa only [List.append_assoc, List.cons_append, List.nil_append] using this
    · rw [hchild, List.append_assoc, List.singleton_append]
    · simp only [members, hv, hstring, hmembers, Option.getD_some]

end

/-! ## Whole texts -/

/-- White space behind a byte order mark or none is skipped. -/
theorem reads_start {value bom w t rest : List UInt8} {v : Json D} {b : ParseBuffer}
    (hrest : b.rest = value) (hvalue : value = bom ++ w ++ t ++ rest)
    (hbom : bom = [] ∨ bom = byteOrderMark ∧ 5 ≤ value.length) (hw : (lexis F).Blank w)
    (ht : Text (lexis F) v t) :
    Reads b (bom ++ w) b.skipUtf8Bom.skipWhitespace := by
  obtain ⟨c, y, hcons, hc, -, hascii⟩ := exists_head_of_text ht
  have hskipBom : b.skipUtf8Bom = b.advance bom.length := by
    obtain rfl | ⟨rfl, hlen⟩ := hbom
    · -- no text starts with the first byte of a byte order mark
      have htake : (b.rest.take 3 == [0xEF, 0xBB, 0xBF]) = false := by
        rw [beq_eq_false_iff_ne, hrest, hvalue, List.nil_append]
        intro heq
        have hhead := congrArg List.head? heq
        cases w with
        | nil =>
          rw [hcons] at hhead
          simp only [List.nil_append, List.cons_append, List.take_succ_cons, List.head?_cons,
            Option.some.injEq] at hhead
          rw [hhead] at hascii
          exact absurd hascii (by decide)
        | cons x w =>
          simp only [List.cons_append, List.take_succ_cons, List.head?_cons,
            Option.some.injEq] at hhead
          have hx : x ≤ 32 := hw x (List.mem_cons_self ..)
          rw [hhead] at hx
          exact absurd hx (by decide)
      simp only [skipUtf8Bom, htake, Bool.and_false, Bool.false_eq_true, if_false]
      rfl
    · have haccess : b.canAccessAtIndex 4 = true :=
        canAccessAtIndex_iff.mpr (by rw [hrest]; omega)
      have htake : (b.rest.take 3 == [0xEF, 0xBB, 0xBF]) = true := by
        rw [hrest, hvalue, byteOrderMark]
        exact beq_iff_eq.mpr rfl
      simp only [skipUtf8Bom, haccess, htake, Bool.and_true, if_true]
      rfl
  have hbomRest : b.rest = bom ++ (w ++ c :: (y ++ rest)) := by
    rw [hrest, hvalue, hcons]
    simp
  have hread := reads_advance hbomRest
  rw [hskipBom]
  exact hread.trans (reads_skipWhitespace (hread.rest_eq hbomRest) hw hc)

/-- If no allocation fails, a text that is not nested too deeply is parsed to its value. What
    follows it is left, unless a terminator is required. -/
theorem parseWithLengthOpts_complete {hooks : Nat → Bool} (hhooks : ∀ k, hooks k = true)
    {value bom w t rest : List UInt8} {v : Json D} (hvalue : value = bom ++ w ++ t ++ rest)
    (hbom : bom = [] ∨ bom = byteOrderMark ∧ 5 ≤ value.length) (hw : (lexis F).Blank w)
    (ht : Text (lexis F) v t) (hdepth : v.depth ≤ nestingLimit)
    (hends : v.isNumber = true → NumberEnds rest)
    (requireNullTerminated : Bool)
    (hterm : requireNullTerminated = true → ∃ w', rest = w' ++ [0] ∧ (lexis F).Blank w') :
    ∃ item n, parseWithLengthOpts F hooks value requireNullTerminated = .ok (item, n) ∧
      item.value = v ∧ (requireNullTerminated = false → n = (bom ++ w ++ t).length) := by
  obtain ⟨b, hb, hread⟩ := exists_allocate (b := ⟨value, 0, hooks, 0⟩) hhooks
  have hrest : b.rest = value := hread.rest.symm
  have hstart := reads_start hrest hvalue hbom hw ht
  have hall : b.Allocates := hread.allocates hhooks
  have hrest₁ : b.skipUtf8Bom.skipWhitespace.rest = t ++ rest := by
    rw [List.append_assoc] at hvalue
    exact hstart.rest_eq (hrest.trans hvalue)
  obtain ⟨p, hp, hreads, hv, -⟩ := parseValue_complete ht (Item.new F) hdepth
    (hstart.allocates hall) hrest₁ hends
  have hne : ¬value.length = 0 := by
    obtain ⟨c, y, rfl, -⟩ := exists_head_of_text ht
    rw [hvalue]
    simp
  have hoffset : p.2.offset = (bom ++ w ++ t).length := by
    rw [(hstart.trans hreads).offset, hread.offset, List.length_nil, Nat.add_zero, Nat.zero_add]
  unfold parseWithLengthOpts
  simp only [if_neg hne, hb, hp, bind, Except.bind]
  cases requireNullTerminated with
  | false => exact ⟨p.1, p.2.offset, rfl, hv, fun _ => hoffset⟩
  | true =>
    obtain ⟨w', hw', hblank⟩ := hterm rfl
    have hrest₂ : p.2.rest = w' ++ [0] := (hreads.rest_eq hrest₁).trans hw'
    -- nothing but blanks and the NUL is left
    have hskip : p.2.skipWhitespace = p.2.advance (p.2.rest.length - 1) := by
      apply skipWhitespace_stuck
      rw [hrest₂]
      intro c hc
      obtain hc | hc := List.mem_append.mp hc
      · exact hblank c hc
      · rw [List.mem_singleton.mp hc]
        decide
    have hzero : p.2.skipWhitespace.isAt 0 = true := by
      rw [hskip]
      apply isAt_iff.mpr
      refine ⟨[], ?_⟩
      rw [rest_advance, hrest₂, List.length_append, List.length_singleton, Nat.add_sub_cancel,
        List.drop_left]
    simp only [if_true, hzero, Bool.not_true, Bool.false_eq_true, if_false]
    exact ⟨p.1, _, rfl, hv, fun h => absurd h.symm Bool.false_ne_true⟩

end EspTesting.CJson
