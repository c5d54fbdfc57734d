import Mathlib.Data.List.TakeWhile
import EspTesting.Spec.CJsonString

/-!
# What the parser accepts

The language of the parser is that of `lexis`: JSON with any character up to the space between
its tokens, with the strings that `parse_string` takes and the numbers that `strtod` takes.

## Key results

- `parseValue_meets`: an item that is parsed is well formed, and stands for the characters read
-/

namespace EspTesting.CJson

open Json (quote comma colon openBracket closeBracket openBrace closeBrace backslash quoted
  Text ItemsText MembersText itemsDepth membersDepth)

variable {D : Type}

/-! ## The value of an item -/

mutual

/-- The JSON value of an item. -/
def Item.value : Item D → Json D
  | ⟨type, valuestring, _, valuedouble, _, child⟩ =>
    match type with
    | .false => .bool false
    | .true => .bool true
    | .number => .number valuedouble
    | .string => .string (valuestring.getD [])
    | .array => .array (values child)
    | .object => .object (members child)
    | _ => .null

/-- The values of the children of an array. -/
def values : List (Item D) → List (Json D)
  | [] => []
  | item :: child => item.value :: values child

/-- The names and values of the children of an object. -/
def members : List (Item D) → List (List UInt8 × Json D)
  | [] => []
  | item :: child => (item.string.getD [], item.value) :: members child

end

mutual

/-- Only the fields of its type are set in an item. -/
def Item.WellFormed (F : Doubles D) : Item D → Prop
  | ⟨type, valuestring, valueint, valuedouble, _, child⟩ =>
    match type with
    | .null | .false | .true => valuestring = none ∧ child = []
    | .number => valuestring = none ∧ valueint = F.saturate valuedouble ∧ child = []
    | .string => valuestring.isSome ∧ child = []
    | .array => valuestring = none ∧ ElementsWellFormed F child
    | .object => valuestring = none ∧ MembersWellFormed F child
    | _ => False

/-- The elements of an array have no names. -/
def ElementsWellFormed (F : Doubles D) : List (Item D) → Prop
  | [] => True
  | item :: child => (item.string = none ∧ item.WellFormed F) ∧ ElementsWellFormed F child

/-- The members of an object have names. -/
def MembersWellFormed (F : Doubles D) : List (Item D) → Prop
  | [] => True
  | item :: child => (item.string.isSome ∧ item.WellFormed F) ∧ MembersWellFormed F child

end

/-- An item in which nothing but a name is set. -/
structure Item.Fresh (item : Item D) : Prop where
  valuestring : item.valuestring = none
  child : item.child = []

/-- A new item is empty. -/
theorem Item.fresh_new (F : Doubles D) : (Item.new F).Fresh := ⟨rfl, rfl⟩

/-! ## The tokens of the parser -/

/-- What the parser takes for its tokens. -/
def lexis (F : Doubles D) : Json.Lexis D where
  blank c := c ≤ 32
  string s t := (∃ k, Scanned t k) ∧ decode t.length t.length (t ++ [quote]) = .ok s
  number n t :=
    (∃ c, t.head? = some c ∧ (c = 0x2D ∨ 0x30 ≤ c ∧ c ≤ 0x39)) ∧ t.length ≤ 63 ∧
      (∀ c ∈ t, isNumberChar c) ∧ F.strtod t = (n, t.length)

/-- `strtod` reads some of the characters in front of it, and no more of them are needed to
    read the same number. -/
structure Doubles.ReadsPrefix (F : Doubles D) : Prop where
  le : ∀ s, (F.strtod s).2 ≤ s.length
  take : ∀ s, F.strtod (s.take (F.strtod s).2) = F.strtod s

/-! ## Reading -/

/-- `b'` is `b` behind the characters `t`. -/
structure Reads (b : ParseBuffer) (t : List UInt8) (b' : ParseBuffer) : Prop where
  content : b'.content = b.content
  hooks : b'.hooks = b.hooks
  offset : b'.offset = b.offset + t.length
  rest : b.rest = t ++ b'.rest

namespace Reads

variable {b b' b'' : ParseBuffer} {t t' : List UInt8}

/-- Nothing is read. -/
theorem refl (b : ParseBuffer) : Reads b [] b := ⟨rfl, rfl, rfl, rfl⟩

/-- Two texts one behind the other. -/
theorem trans (h : Reads b t b') (h' : Reads b' t' b'') : Reads b (t ++ t') b'' where
  content := h'.content.trans h.content
  hooks := h'.hooks.trans h.hooks
  offset := by rw [h'.offset, h.offset, List.length_append, Nat.add_assoc]
  rest := by rw [h.rest, h'.rest, List.append_assoc]

/-- Two buffers with the same text at the same position. -/
theorem advance (h : Reads b [] b') (n : Nat) : Reads (b.advance n) [] (b'.advance n) where
  content := h.content
  hooks := h.hooks
  offset := by
    have := h.offset
    simp only [List.length_nil, Nat.add_zero] at this
    simp only [ParseBuffer.advance, this, List.length_nil, Nat.add_zero]
  rest := by
    have := h.rest
    simp only [List.nil_append, ParseBuffer.rest] at this
    simp only [List.nil_append, ParseBuffer.rest, ParseBuffer.advance, ← List.drop_drop, this]

end Reads

namespace ParseBuffer

variable {b b' : ParseBuffer} {c : UInt8} {t r : List UInt8}

/-- What is left behind the bytes stepped over. -/
theorem rest_advance (b : ParseBuffer) (n : Nat) : (b.advance n).rest = b.rest.drop n := by
  simp only [rest, advance, List.drop_drop]

/-- Stepping over a text that stands there reads it. -/
theorem reads_advance (h : b.rest = t ++ r) : Reads b t (b.advance t.length) where
  content := rfl
  hooks := rfl
  offset := rfl
  rest := by rw [rest_advance, h, List.drop_left]

/-- Stepping over one byte. -/
theorem reads_advance_one (h : b.rest = c :: r) : Reads b [c] (b.advance 1) :=
  reads_advance (t := [c]) h

/-- The byte that stands next. -/
theorem isAt_iff : b.isAt c = true ↔ ∃ r, b.rest = c :: r := by
  unfold isAt
  cases b.rest <;> simp

/-- A byte is there exactly if as many are left. -/
theorem canAccessAtIndex_iff {index : Nat} :
    b.canAccessAtIndex index = true ↔ index < b.rest.length := by
  simp only [canAccessAtIndex, rest, List.length_drop, decide_eq_true_eq]
  omega

/-- A literal is recognised exactly if it stands there. -/
theorem isLiteral_iff {text : List UInt8} (hne : text ≠ []) :
    b.isLiteral text = true ↔ ∃ r, b.rest = text ++ r := by
  have hpos : 0 < text.length := List.length_pos_iff.mpr hne
  simp only [isLiteral, canRead, Bool.and_eq_true, decide_eq_true_eq, beq_iff_eq]
  constructor
  · intro h
    obtain ⟨r, hr⟩ := List.prefix_iff_eq_take.mpr h.2.symm
    exact ⟨r, hr.symm⟩
  · -- the comparison reads inside the buffer
    rintro ⟨r, hr⟩
    have hlen := congrArg List.length hr
    simp only [rest, List.length_drop, List.length_append] at hlen
    exact ⟨by omega, by rw [hr, List.take_left]⟩

/-- Allocation leaves the position. -/
theorem allocate_meets (b : ParseBuffer) :
    b.allocate.Meets (· = .fail) (Reads b [] ·) := by
  unfold allocate
  split
  · exact ⟨rfl, rfl, rfl, rfl⟩
  · exact rfl

/-! ### White space -/

/-- Nothing but blanks are left. -/
def Stuck (b : ParseBuffer) : Prop := ∀ c ∈ b.rest, c ≤ 32

/-- Only blanks are left, so nothing visible is next. -/
theorem Stuck.isAt (h : b.Stuck) (hc : 32 < c) : b.isAt c = false := by
  by_contra heq
  obtain ⟨r, hr⟩ := isAt_iff.mp (by simpa using heq)
  exact absurd (h c (hr ▸ List.mem_cons_self ..)) (UInt8.not_le.mpr hc)

/-- Only blanks are left, so only blanks are read. -/
theorem Stuck.not_reads (h : b.Stuck) (hread : Reads b t b') (hc : c ∈ t) : c ≤ 32 :=
  h c (hread.rest ▸ List.mem_append_left _ hc)

/-- A character that is no blank, or none. -/
theorem blank_or_exists (l : List UInt8) :
    (∃ w c r, l = w ++ c :: r ∧ (∀ x ∈ w, x ≤ 32) ∧ 32 < c) ∨ ∀ x ∈ l, x ≤ 32 := by
  induction l with
  | nil => exact .inr (by simp)
  | cons x l ih =>
    by_cases hx : x ≤ 32
    · obtain ⟨w, c, r, rfl, hw, hc⟩ | hall := ih
      · exact .inl ⟨x :: w, c, r, rfl, List.forall_mem_cons.mpr ⟨hx, hw⟩, hc⟩
      · exact .inr (List.forall_mem_cons.mpr ⟨hx, hall⟩)
    · exact .inl ⟨[], x, l, rfl, by simp, UInt8.not_le.mp hx⟩

/-- White space is skipped up to a character that is none. -/
theorem skipWhitespace_eq {w : List UInt8} (hrest : b.rest = w ++ c :: r)
    (hw : ∀ x ∈ w, x ≤ 32) (hc : 32 < c) : b.skipWhitespace = b.advance w.length := by
  have htake : b.rest.takeWhile (· ≤ 32) = w := by
    rw [hrest, List.takeWhile_append_of_pos (by simpa using hw),
      List.takeWhile_cons_of_neg (by simpa using hc), List.append_nil]
  have hlen : b.rest.length = b.content.length - b.offset := List.length_drop
  -- there is something to read
  have haccess : b.canAccessAtIndex 0 = true :=
    canAccessAtIndex_iff.mpr (by rw [hrest, List.length_append, List.length_cons]; omega)
  rw [hrest, List.length_append, List.length_cons] at hlen
  have hoff : ¬b.offset + w.length = b.content.length := by omega
  simp only [skipWhitespace, haccess, Bool.not_true, Bool.false_eq_true, if_false, htake,
    advance, if_neg hoff]

/-- If there is none, the last character is left. -/
theorem skipWhitespace_stuck (h : ∀ c ∈ b.rest, c ≤ 32) :
    b.skipWhitespace = b.advance (b.rest.length - 1) := by
  have htake : b.rest.takeWhile (· ≤ 32) = b.rest := by
    rw [List.takeWhile_eq_self_iff]
    simpa using h
  have hlen : b.rest.length = b.content.length - b.offset := List.length_drop
  by_cases hpos : 0 < b.rest.length
  · have haccess : b.canAccessAtIndex 0 = true := canAccessAtIndex_iff.mpr hpos
    have hoff : b.offset + b.rest.length = b.content.length := by omega
    simp only [skipWhitespace, haccess, Bool.not_true, Bool.false_eq_true, if_false, htake,
      advance, if_pos hoff, stepBack]
    congr 1
    omega
  · have haccess : b.canAccessAtIndex 0 = false := by
      rw [← Bool.not_eq_true, canAccessAtIndex_iff]
      exact hpos
    have hzero : b.rest.length - 1 = 0 := by omega
    simp only [skipWhitespace, haccess, Bool.not_false, if_true, hzero]
    rfl

theorem skipWhitespace_cases (b : ParseBuffer) :
    (∃ w c r, (∀ x ∈ w, x ≤ 32) ∧ 32 < c ∧ Reads b w b.skipWhitespace ∧
      b.skipWhitespace.rest = c :: r) ∨
    (b.Stuck ∧ b.skipWhitespace = b.advance (b.rest.length - 1)) := by
  obtain ⟨w, c, r, hrest, hw, hc⟩ | hall := blank_or_exists b.rest
  · rw [skipWhitespace_eq hrest hw hc]
    exact .inl ⟨w, c, r, hw, hc, reads_advance hrest, by rw [rest_advance, hrest, List.drop_left]⟩
  · exact .inr ⟨hall, skipWhitespace_stuck hall⟩

theorem Stuck.advance (h : b.Stuck) (n : Nat) : (b.advance n).Stuck := by
  intro c hc
  rw [rest_advance] at hc
  exact h c (List.mem_of_mem_drop hc)

/-- Behind white space, there is a character that is none, or there are only blanks left. -/
theorem skipWhitespace_reads_or_stuck (b : ParseBuffer) :
    (∃ w c r, (∀ x ∈ w, x ≤ 32) ∧ 32 < c ∧ Reads b w b.skipWhitespace ∧
      b.skipWhitespace.rest = c :: r) ∨ b.skipWhitespace.Stuck := by
  obtain h | ⟨hstuck, heq⟩ := b.skipWhitespace_cases
  · exact .inl h
  · exact .inr (heq ▸ hstuck.advance _)

theorem offset_le_skipWhitespace (b : ParseBuffer) : b.offset ≤ b.skipWhitespace.offset := by
  obtain ⟨w, c, r, -, -, hread, -⟩ | ⟨-, heq⟩ := b.skipWhitespace_cases
  · rw [hread.offset]
    exact Nat.le_add_right ..
  · rw [heq]
    exact Nat.le_add_right ..

theorem skipWhitespace_rest_ne_nil (h : b.rest ≠ []) : b.skipWhitespace.rest ≠ [] := by
  obtain ⟨w, c, r, -, -, -, hrest⟩ | ⟨-, heq⟩ := b.skipWhitespace_cases
  · rw [hrest]
    exact List.cons_ne_nil _ _
  · have hpos := List.length_pos_iff.mpr h
    rw [heq, rest_advance, ← List.length_pos_iff, List.length_drop]
    omega

theorem advance_stepBack (h : 0 < b.offset) : b.stepBack.advance 1 = b := by
  simp only [stepBack, advance, Nat.sub_add_cancel h]

end ParseBuffer

open ParseBuffer

/-! ## Strings and numbers -/

/-- `parse_string` stays within its buffers. -/
theorem parseString_meets (F : Doubles D) (item : Item D) {b : ParseBuffer} (hne : b.rest ≠ []) :
    (parseString item b).Meets (· = .fail) fun p => ∃ s t, Reads b (quoted t) p.2 ∧
      (lexis F).string s t ∧ p.1 = { item with type := .string, valuestring := some s } := by
  obtain ⟨c, r, hrest⟩ := List.exists_cons_of_ne_nil hne
  have hread : b.read = .ok c := by simp only [ParseBuffer.read, hrest]
  by_cases hc : c = quote
  · subst hc
    simp only [parseString, hread, hrest, List.drop_succ_cons, List.drop_zero, bind, Except.bind,
      ne_eq, not_true_eq_false, if_false]
    refine (scanString_meets r).bind fun p hp => ?_
    obtain ⟨t, r, rfl, hlen, hscan⟩ := hp
    refine b.allocate_meets.bind fun b' hb' => ?_
    have hunits := units_of_scanned hscan
    have hfits : Fits (t.length + 1 - p.2) t := .inl (by omega)
    obtain ⟨heq, hroom⟩ := unescape_eq t.length r ⟨[], t.length + 1 - p.2 + 1⟩ hfits
      (by simp)
    rw [← hlen, heq]
    obtain hfail | ⟨s, hs⟩ := decode_cases (Nat.le_refl t.length)
    · rw [hfail]
      exact rfl
    · have hput : Output.put ⟨s, t.length + 1 - p.2 + 1⟩ [0] =
          .ok ⟨s ++ [0], t.length + 1 - p.2 + 1⟩ :=
        if_pos (Nat.add_le_add_right (hroom s (hs r)) 1)
      simp only [hs, Except.map, List.nil_append, hput, Except.meets_ok]
      have hrest' : b'.rest = quoted t ++ r := by
        rw [hb'.rest, List.nil_append] at hrest
        rw [hrest]
        simp only [quoted, List.cons_append, List.append_assoc, List.nil_append]
      -- the text and its two quotation marks are stepped over
      have hreads := reads_advance hrest'
      have hquoted : (quoted t).length = t.length + 2 := by
        simp only [quoted, List.length_append, List.length_cons, List.length_nil]
      rw [hquoted] at hreads
      exact ⟨s, t, hb'.trans hreads, ⟨⟨_, hscan⟩, hs []⟩, rfl⟩
  · simp [parseString, hread, hc, bind, Except.bind, throw, throwThe, MonadExceptOf.throw]

/-- `parse_number` reads the characters of a number. -/
theorem parseNumber_meets {F : Doubles D} (hF : F.ReadsPrefix) (item : Item D)
    {b : ParseBuffer} (hnum : b.isAtNumber = true) :
    (parseNumber F item b).Meets (· = .fail) fun p => ∃ n t, Reads b t p.2 ∧
      (lexis F).number n t ∧
      p.1 = { item with valuedouble := n, valueint := F.saturate n, type := .number } := by
  simp only [parseNumber]
  generalize hs : (b.rest.take 63).takeWhile isNumberChar = s
  -- the characters `strtod` gets to see
  have hprefix : s <+: b.rest :=
    (hs ▸ List.takeWhile_prefix _).trans (List.take_prefix 63 b.rest)
  refine .ite (fun _ => rfl) fun hpos => ?_
  have hle := hF.le s
  have htake := hF.take s
  have hlen : (s.take (F.strtod s).2).length = (F.strtod s).2 := List.length_take_of_le hle
  have hs63 : s.length ≤ 63 := by
    have h₁ := (hs ▸ List.takeWhile_prefix _ : s <+: b.rest.take 63).length_le
    have h₂ := List.length_take_le 63 b.rest
    omega
  obtain ⟨r, hr⟩ := ((List.take_prefix (F.strtod s).2 s).trans hprefix)
  refine ⟨(F.strtod s).1, s.take (F.strtod s).2, ?_, ⟨?_, by omega, ?_, ?_⟩, rfl⟩
  · have hread := reads_advance hr.symm
    rw [hlen] at hread
    exact hread
  · -- the first character is the one `parse_value` looked at
    simp only [isAtNumber, ← hr] at hnum
    cases hcons : s.take (F.strtod s).2 with
    | nil => rw [hcons] at hlen; exact absurd hlen.symm hpos
    | cons c t =>
      rw [hcons] at hnum
      simp only [List.cons_append, List.head?_cons, Option.any_some, Bool.or_eq_true, beq_iff_eq,
        Bool.and_eq_true, decide_eq_true_eq] at hnum
      exact ⟨c, rfl, hnum⟩
  · -- all of them can stand in a number
    intro c hc
    have hmem := List.mem_of_mem_take hc
    rw [← hs] at hmem
    exact List.all_eq_true.mp List.all_takeWhile c hmem
  · rw [htake, hlen]

/-! ## Values -/

/-- The first character of a text: none that is skipped, no bracket that closes, and none of a
    byte order mark. -/
theorem exists_head_of_text {F : Doubles D} {v : Json D} {t : List UInt8}
    (h : Text (lexis F) v t) :
    ∃ c r, t = c :: r ∧ 32 < c ∧ c ≠ closeBracket ∧ c < 0x80 := by
  cases h with
  | null => exact ⟨_, _, rfl, by decide⟩
  | false => exact ⟨_, _, rfl, by decide⟩
  | true => exact ⟨_, _, rfl, by decide⟩
  | number h =>
    -- a sign or a digit
    obtain ⟨⟨c, hc, hrange⟩, -⟩ := h
    obtain ⟨r, rfl⟩ := List.head?_eq_some_iff.mp hc
    refine ⟨c, r, rfl, ?_⟩
    obtain rfl | h := hrange
    · decide
    · refine ⟨UInt8.lt_of_lt_of_le (by decide) h.1, ?_, UInt8.lt_of_le_of_lt h.2 (by decide)⟩
      rintro rfl
      exact absurd h.2 (by decide)
  | string => exact ⟨_, _, rfl, by decide⟩
  | emptyArray => exact ⟨_, _, rfl, by decide⟩
  | array => exact ⟨_, _, rfl, by decide⟩
  | emptyObject => exact ⟨_, _, rfl, by decide⟩
  | object => exact ⟨_, _, rfl, by decide⟩

/-- The text of items has a byte that is not blank. -/
theorem exists_mem_of_itemsText {F : Doubles D} {vs : List (Json D)} {t : List UInt8}
    (h : ItemsText (lexis F) vs t) : ∃ c ∈ t, 32 < c := by
  cases h with
  | last _ h _ =>
    obtain ⟨c, r, rfl, hc, -⟩ := exists_head_of_text h
    exact ⟨c, by simp, hc⟩
  | more _ h _ _ =>
    obtain ⟨c, r, rfl, hc, -⟩ := exists_head_of_text h
    exact ⟨c, by simp, hc⟩

/-- The text of members has a byte that is not blank. -/
theorem exists_mem_of_membersText {F : Doubles D} {ms : List (List UInt8 × Json D)}
    {t : List UInt8} (h : MembersText (lexis F) ms t) : ∃ c ∈ t, 32 < c := by
  cases h with
  | last => exact ⟨quote, by simp [quoted], by decide⟩
  | more => exact ⟨quote, by simp [quoted], by decide⟩

/-- `p` is the item `item` and the buffer `b`, once a value is parsed. -/
def Parsed (F : Doubles D) (room : Nat) (item : Item D) (b : ParseBuffer)
    (p : Item D × ParseBuffer) : Prop :=
  ∃ t, Reads b t p.2 ∧ Text (lexis F) p.1.value t ∧ p.1.value.depth ≤ room ∧
    p.1.WellFormed F ∧ p.1.string = item.string

/-- A parser of values fails or parses a value. -/
def ParsesValues (F : Doubles D) (room : Nat) (parseValue : ValueParser D) : Prop :=
  ∀ item b, item.Fresh → (parseValue item b).Meets (· = .fail) (Parsed F room item b)

section

variable {F : Doubles D} {parseValue : ValueParser D} {room : Nat}

/-- The elements parsed behind the character in front of them. -/
def ElementsParsed (F : Doubles D) (room : Nat) (head : List (Item D)) (b : ParseBuffer)
    (p : List (Item D) × ParseBuffer) : Prop :=
  p.2.Stuck ∨ ∃ child t, p.1 = head ++ child ∧ Reads (b.advance 1) t p.2 ∧
    ItemsText (lexis F) (values child) t ∧ itemsDepth (values child) ≤ room ∧
    ElementsWellFormed F child

/-- Behind a comma, the rest of the elements is parsed. -/
theorem ElementsParsed.more {F : Doubles D} {room : Nat} {head : List (Item D)}
    {item : Item D} {b b' : ParseBuffer} {w t w' y : List UInt8} {p : List (Item D) × ParseBuffer}
    (hw : (lexis F).Blank w) (htext : Text (lexis F) item.value t) (hw' : (lexis F).Blank w')
    (hdepth : item.value.depth ≤ room) (hwf : item.string = none ∧ item.WellFormed F)
    (hreads : Reads (b.advance 1) (w ++ t ++ w') b') (hy : b'.rest = comma :: y)
    (h : ElementsParsed F room (head ++ [item]) b' p) : ElementsParsed F room head b p := by
  obtain hstuck | ⟨child, ts, hp, hr, hitems, hitemsDepth, hitemsWf⟩ := h
  · exact .inl hstuck
  · refine .inr ⟨item :: child, w ++ t ++ w' ++ comma :: ts, ?_, ?_, ?_, ?_, ?_⟩
    · rw [hp, List.append_assoc, List.singleton_append]
    · exact hreads.trans ((reads_advance_one hy).trans hr)
    · simp only [values]
      exact .more hw htext hw' hitems
    · simp only [values, itemsDepth]
      exact Nat.max_le.mpr ⟨hdepth, hitemsDepth⟩
    · simp only [ElementsWellFormed]
      exact ⟨hwf, hitemsWf⟩

/-- The loop of `parse_array` ends, and stays within the text. -/
theorem parseElements_meets (hvalue : ParsesValues F room parseValue) (fuel : Nat)
    (head : List (Item D)) (b : ParseBuffer) (hfuel : (b.advance 1).rest.length < fuel) :
    (parseElements F parseValue fuel head b).Meets (· = .fail) (ElementsParsed F room head b) := by
  induction fuel generalizing head b with
  | zero => exact absurd hfuel (Nat.not_lt_zero _)
  | succ fuel ih =>
    unfold parseElements
    -- a new item, and the value it takes
    refine b.allocate_meets.bind fun b₁ hb₁ => ?_
    refine (hvalue _ _ (Item.fresh_new F)).bind fun p hp => ?_
    obtain ⟨t, hread, htext, hdepth, hwf, hstring⟩ := hp
    obtain ⟨x, r, rfl, hx, -⟩ := exists_head_of_text htext
    obtain ⟨w, -, -, hw, -, hskip, -⟩ | hstuck := (b₁.advance 1).skipWhitespace_reads_or_stuck
    · obtain ⟨w', -, -, hw', -, hskip', -⟩ | hstuck' := p.2.skipWhitespace_reads_or_stuck
      · have hreads := ((hb₁.advance 1).trans hskip).trans (hread.trans hskip')
        rw [List.nil_append, ← List.append_assoc] at hreads
        refine .ite (fun hcomma => ?_) fun _ => ?_
        · -- a comma: the elements behind it, by induction on the fuel
          obtain ⟨y, hy⟩ := isAt_iff.mp hcomma
          have hlen := congrArg List.length hreads.rest
          rw [hy, List.length_append, List.length_cons] at hlen
          have hnext : (p.2.skipWhitespace.advance 1).rest.length < fuel := by
            rw [rest_advance, hy, List.drop_succ_cons, List.drop_zero]
            omega
          exact (ih _ _ hnext).mono fun q hq =>
            hq.more hw htext hw' hdepth ⟨hstring, hwf⟩ hreads hy
        · -- the last element
          refine .inr ⟨[p.1], _, rfl, hreads, ?_, ?_, ?_⟩
          · simp only [values]
            exact .last hw htext hw'
          · simpa only [values, itemsDepth, Nat.max_zero] using hdepth
          · simp only [ElementsWellFormed]
            exact ⟨⟨hstring, hwf⟩, trivial⟩
      · refine .ite (fun hcomma => ?_) fun _ => .inl hstuck'
        rw [hstuck'.isAt (by decide)] at hcomma
        cases hcomma
    · exact absurd (hstuck.not_reads hread (List.mem_cons_self ..)) (UInt8.not_le.mpr hx)

/-- `parse_array` at an opening bracket. -/
theorem parseArray_meets (hvalue : ParsesValues F room parseValue) {item : Item D}
    (hitem : item.Fresh) {b : ParseBuffer} (hopen : b.isAt openBracket = true) :
    (parseArray F parseValue item b).Meets (· = .fail) (Parsed F (room + 1) item b) := by
  obtain ⟨r, hr⟩ := isAt_iff.mp hopen
  have hread : b.read = .ok openBracket := by simp only [ParseBuffer.read, hr]
  have hone := reads_advance_one hr
  have hoff := (b.advance 1).offset_le_skipWhitespace
  have hback := advance_stepBack (b := (b.advance 1).skipWhitespace)
    (Nat.lt_of_lt_of_le (Nat.succ_pos _) hoff)
  simp only [parseArray, hread, bind, Except.bind, ne_eq, not_true_eq_false, if_false]
  refine .ite (fun hclose => ?_) fun _ => ?_
  · -- an empty array
    obtain ⟨w, -, -, hw, -, hskip, -⟩ | hstuck := (b.advance 1).skipWhitespace_reads_or_stuck
    · obtain ⟨y, hy⟩ := isAt_iff.mp hclose
      refine ⟨_, hone.trans (hskip.trans (reads_advance_one hy)), ?_, ?_, ?_, rfl⟩
      · simp only [Item.value, values]
        exact .emptyArray hw
      · simp only [Item.value, values, Json.depth, itemsDepth]
        exact Nat.succ_le_succ (Nat.zero_le _)
      · simp only [Item.WellFormed, ElementsWellFormed]
        exact ⟨hitem.valuestring, trivial⟩
    · rw [hstuck.isAt (by decide)] at hclose
      cases hclose
  · refine .ite (fun _ => rfl) fun _ => ?_
    have hfuel : ((b.advance 1).skipWhitespace.stepBack.advance 1).rest.length <
        (b.advance 1).skipWhitespace.content.length + 1 := by
      rw [hback, ParseBuffer.rest, List.length_drop]
      omega
    -- the elements, and the bracket behind them
    refine (parseElements_meets hvalue _ [] _ hfuel).bind fun p hp => ?_
    refine .ite (fun _ => rfl) fun hclose => ?_
    simp only [Bool.not_eq_eq_eq_not, Bool.not_true, Bool.not_eq_false] at hclose
    obtain hstuck | ⟨child, t, hhead, hreads, htext, hdepth, hwf⟩ := hp
    · rw [hstuck.isAt (by decide)] at hclose
      cases hclose
    · rw [hback] at hreads
      rw [List.nil_append] at hhead
      obtain ⟨w, -, -, hw, -, hskip, -⟩ | hstuck := (b.advance 1).skipWhitespace_reads_or_stuck
      · obtain ⟨y, hy⟩ := isAt_iff.mp hclose
        refine ⟨_, hone.trans ((hskip.trans hreads).trans (reads_advance_one hy)), ?_, ?_, ?_, rfl⟩
        · simp only [Item.value, hhead]
          exact .array (htext.blank_append hw)
        · simp only [Item.value, hhead, Json.depth]
          exact Nat.succ_le_succ hdepth
        · simp only [Item.WellFormed, hhead]
          exact ⟨hitem.valuestring, hwf⟩
      · obtain ⟨c, hc, hlt⟩ := exists_mem_of_itemsText htext
        exact absurd (hstuck.not_reads hreads hc) (UInt8.not_le.mpr hlt)

/-- The members parsed behind the character in front of them. -/
def MembersParsed (F : Doubles D) (room : Nat) (head : List (Item D)) (b : ParseBuffer)
    (p : List (Item D) × ParseBuffer) : Prop :=
  p.2.Stuck ∨ ∃ child t, p.1 = head ++ child ∧ Reads (b.advance 1) t p.2 ∧
    MembersText (lexis F) (members child) t ∧ membersDepth (members child) ≤ room ∧
    MembersWellFormed F child

/-- A name and a value in front of the rest of the members. -/
theorem MembersParsed.more {F : Doubles D} {room : Nat} {head : List (Item D)} {item : Item D}
    {b b' : ParseBuffer} {s w k w₁ w₂ t w₃ y : List UInt8} {p : List (Item D) × ParseBuffer}
    (hw : (lexis F).Blank w) (hk : (lexis F).string s k) (hw₁ : (lexis F).Blank w₁)
    (hw₂ : (lexis F).Blank w₂) (htext : Text (lexis F) item.value t) (hw₃ : (lexis F).Blank w₃)
    (hdepth : item.value.depth ≤ room) (hstring : item.string = some s)
    (hwf : item.WellFormed F)
    (hreads : Reads (b.advance 1) (w ++ quoted k ++ w₁ ++ colon :: (w₂ ++ t ++ w₃)) b')
    (hy : b'.rest = comma :: y) (h : MembersParsed F room (head ++ [item]) b' p) :
    MembersParsed F room head b p := by
  obtain hstuck | ⟨child, ts, hp, hr, hmembers, hmembersDepth, hmembersWf⟩ := h
  · exact .inl hstuck
  · refine .inr ⟨item :: child, _, ?_, hreads.trans ((reads_advance_one hy).trans hr), ?_, ?_, ?_⟩
    · rw [hp, List.append_assoc, List.singleton_append]
    · simp only [members, hstring, Option.getD_some]
      have := MembersText.more hw hk hw₁ hw₂ htext hw₃ hmembers
      simpa only [List.append_assoc, List.cons_append, List.nil_append] using this
    · simp only [members, membersDepth]
      exact Nat.max_le.mpr ⟨hdepth, hmembersDepth⟩
    · simp only [MembersWellFormed]
      exact ⟨⟨by rw [hstring]; rfl, hwf⟩, hmembersWf⟩

/-- The loop of `parse_object` ends, and stays within the text. -/
theorem parseMembers_meets (hvalue : ParsesValues F room parseValue) (fuel : Nat)
    (head : List (Item D)) (b : ParseBuffer) (hfuel : (b.advance 1).rest.length < fuel) :
    (parseMembers F parseValue fuel head b).Meets (· = .fail) (MembersParsed F room head b) := by
  induction fuel generalizing head b with
  | zero => exact absurd hfuel (Nat.not_lt_zero _)
  | succ fuel ih =>
    unfold parseMembers
    refine b.allocate_meets.bind fun b₁ hb₁ => ?_
    refine .ite (fun _ => rfl) fun haccess => ?_
    simp only [Bool.not_eq_eq_eq_not, Bool.not_true, Bool.not_eq_false,
      canAccessAtIndex_iff] at haccess
    have hne : (b₁.advance 1).rest ≠ [] := by
      rw [rest_advance, ← List.length_pos_iff, List.length_drop]
      omega
    -- the name of the member
    refine (parseString_meets F (Item.new F) (skipWhitespace_rest_ne_nil hne)).bind
      fun p hp => ?_
    obtain ⟨s, k, hkey, hk, hitem⟩ := hp
    refine .ite (fun _ => rfl) fun hcolon => ?_
    simp only [Bool.not_eq_eq_eq_not, Bool.not_true, Bool.not_eq_false] at hcolon
    have hfresh : Item.Fresh
        { p.1 with string := p.1.valuestring, valuestring := none } := by
      rw [hitem]
      exact ⟨rfl, rfl⟩
    -- the value behind the colon
    refine (hvalue _ _ hfresh).bind fun q hq => ?_
    obtain ⟨t, hread, htext, hdepth, hwf, hstring⟩ := hq
    rw [hitem] at hstring
    obtain ⟨x, r, rfl, hx, -⟩ := exists_head_of_text htext
    obtain ⟨w, -, -, hw, -, hskip, -⟩ | hstuck := (b₁.advance 1).skipWhitespace_reads_or_stuck
    · obtain ⟨w₁, -, -, hw₁, -, hskip₁, -⟩ | hstuck := p.2.skipWhitespace_reads_or_stuck
      · obtain ⟨z, hz⟩ := isAt_iff.mp hcolon
        obtain ⟨w₂, -, -, hw₂, -, hskip₂, -⟩ | hstuck :=
          (p.2.skipWhitespace.advance 1).skipWhitespace_reads_or_stuck
        · obtain ⟨w₃, -, -, hw₃, -, hskip₃, -⟩ | hstuck' := q.2.skipWhitespace_reads_or_stuck
          · have hname := ((hb₁.advance 1).trans hskip).trans (hkey.trans hskip₁)
            have hreads := hname.trans ((reads_advance_one hz).trans
              (hskip₂.trans (hread.trans hskip₃)))
            have heq : [] ++ w ++ (quoted k ++ w₁) ++ ([colon] ++ (w₂ ++ (x :: r ++ w₃))) =
                w ++ quoted k ++ w₁ ++ colon :: (w₂ ++ x :: r ++ w₃) := by
              simp only [List.nil_append, List.append_assoc, List.cons_append]
            rw [heq] at hreads
            refine .ite (fun hcomma => ?_) fun _ => ?_
            · -- a comma: the members behind it, by induction on the fuel
              obtain ⟨y, hy⟩ := isAt_iff.mp hcomma
              have hlen := congrArg List.length hreads.rest
              rw [hy, List.length_append, List.length_cons] at hlen
              have hnext : (q.2.skipWhitespace.advance 1).rest.length < fuel := by
                rw [rest_advance, hy, List.drop_succ_cons, List.drop_zero]
                omega
              exact (ih _ _ hnext).mono fun q' hq' =>
                hq'.more hw hk hw₁ hw₂ htext hw₃ hdepth hstring hwf hreads hy
            · -- the last member
              refine .inr ⟨[q.1], _, rfl, hreads, ?_, ?_, ?_⟩
              · simp only [members, hstring, Option.getD_some]
                exact .last hw hk hw₁ hw₂ htext hw₃
              · simpa only [members, membersDepth, Nat.max_zero] using hdepth
              · simp only [MembersWellFormed]
                exact ⟨⟨by rw [hstring]; rfl, hwf⟩, trivial⟩
          · refine .ite (fun hcomma => ?_) fun _ => .inl hstuck'
            rw [hstuck'.isAt (by decide)] at hcomma
            cases hcomma
        · exact absurd (hstuck.not_reads hread (List.mem_cons_self ..)) (UInt8.not_le.mpr hx)
      · rw [hstuck.isAt (by decide)] at hcolon
        cases hcolon
    · exact absurd (hstuck.not_reads hkey (List.mem_cons_self ..)) (by decide)

/-- `parse_object` at an opening brace. -/
theorem parseObject_meets (hvalue : ParsesValues F room parseValue) {item : Item D}
    (hitem : item.Fresh) {b : ParseBuffer} (hopen : b.isAt openBrace = true) :
    (parseObject F parseValue item b).Meets (· = .fail) (Parsed F (room + 1) item b) := by
  obtain ⟨r, hr⟩ := isAt_iff.mp hopen
  have hone := reads_advance_one hr
  have hoff := (b.advance 1).offset_le_skipWhitespace
  have hback := advance_stepBack (b := (b.advance 1).skipWhitespace)
    (Nat.lt_of_lt_of_le (Nat.succ_pos _) hoff)
  simp only [parseObject, hopen, Bool.not_true, Bool.false_eq_true, if_false]
  refine .ite (fun hclose => ?_) fun _ => ?_
  · -- an empty object
    obtain ⟨w, -, -, hw, -, hskip, -⟩ | hstuck := (b.advance 1).skipWhitespace_reads_or_stuck
    · obtain ⟨y, hy⟩ := isAt_iff.mp hclose
      refine ⟨_, hone.trans (hskip.trans (reads_advance_one hy)), ?_, ?_, ?_, rfl⟩
      · simp only [Item.value, members]
        exact .emptyObject hw
      · simp only [Item.value, members, Json.depth, membersDepth]
        exact Nat.succ_le_succ (Nat.zero_le _)
      · simp only [Item.WellFormed, MembersWellFormed]
        exact ⟨hitem.valuestring, trivial⟩
    · rw [hstuck.isAt (by decide)] at hclose
      cases hclose
  · refine .ite (fun _ => rfl) fun _ => ?_
    have hfuel : ((b.advance 1).skipWhitespace.stepBack.advance 1).rest.length <
        (b.advance 1).skipWhitespace.content.length + 1 := by
      rw [hback, ParseBuffer.rest, List.length_drop]
      omega
    -- the members, and the brace behind them
    refine (parseMembers_meets hvalue _ [] _ hfuel).bind fun p hp => ?_
    refine .ite (fun _ => rfl) fun hclose => ?_
    simp only [Bool.not_eq_eq_eq_not, Bool.not_true, Bool.not_eq_false] at hclose
    obtain hstuck | ⟨child, t, hhead, hreads, htext, hdepth, hwf⟩ := hp
    · rw [hstuck.isAt (by decide)] at hclose
      cases hclose
    · rw [hback] at hreads
      rw [List.nil_append] at hhead
      obtain ⟨w, -, -, hw, -, hskip, -⟩ | hstuck := (b.advance 1).skipWhitespace_reads_or_stuck
      · obtain ⟨y, hy⟩ := isAt_iff.mp hclose
        refine ⟨_, hone.trans ((hskip.trans hreads).trans (reads_advance_one hy)), ?_, ?_, ?_, rfl⟩
        · simp only [Item.value, hhead]
          exact .object (htext.blank_append hw)
        · simp only [Item.value, hhead, Json.depth]
          exact Nat.succ_le_succ hdepth
        · simp only [Item.WellFormed, hhead]
          exact ⟨hitem.valuestring, hwf⟩
      · obtain ⟨c, hc, hlt⟩ := exists_mem_of_membersText htext
        exact absurd (hstuck.not_reads hreads hc) (UInt8.not_le.mpr hlt)

end

/-- A literal that is parsed. -/
theorem parsed_literal {F : Doubles D} {room : Nat} {item item' : Item D} {b : ParseBuffer}
    {text : List UInt8} (hne : text ≠ []) (hlit : b.isLiteral text = true)
    (htext : Text (lexis F) item'.value text) (hdepth : item'.value.depth = 0)
    (hwf : item'.WellFormed F) (hstring : item'.string = item.string) :
    Parsed F room item b (item', b.advance text.length) := by
  obtain ⟨r, hr⟩ := (isLiteral_iff hne).mp hlit
  exact ⟨text, reads_advance hr, htext, hdepth ▸ Nat.zero_le _, hwf, hstring⟩

/-- A value is parsed, if the values one level deeper are. -/
theorem parseValue_step {F : Doubles D} (hF : F.ReadsPrefix) (room : Nat)
    (hnested : ∀ room', room = room' + 1 → ParsesValues F room' (parseValue F room')) :
    ParsesValues F room (parseValue F room) := by
  intro item b hitem
  unfold parseValue
  refine .ite (fun hlit => ?_) fun _ => ?_
  · exact parsed_literal (by decide) hlit (by simp only [Item.value]; exact .null)
      (by simp only [Item.value, Json.depth])
      (by simp only [Item.WellFormed]; exact ⟨hitem.valuestring, hitem.child⟩) rfl
  refine .ite (fun hlit => ?_) fun _ => ?_
  · exact parsed_literal (by decide) hlit (by simp only [Item.value]; exact .false)
      (by simp only [Item.value, Json.depth])
      (by simp only [Item.WellFormed]; exact ⟨hitem.valuestring, hitem.child⟩) rfl
  refine .ite (fun hlit => ?_) fun _ => ?_
  · exact parsed_literal (by decide) hlit (by simp only [Item.value]; exact .true)
      (by simp only [Item.value, Json.depth])
      (by simp only [Item.WellFormed]; exact ⟨hitem.valuestring, hitem.child⟩) rfl
  -- the literals are done; now by the byte that stands next
  refine .ite (fun hquote => ?_) fun _ => ?_
  · obtain ⟨r, hr⟩ := isAt_iff.mp hquote
    refine (parseString_meets F item (hr ▸ List.cons_ne_nil _ _)).mono fun p hp => ?_
    obtain ⟨s, t, hreads, hs, heq⟩ := hp
    refine ⟨_, hreads, ?_, ?_, ?_, ?_⟩
    · simp only [heq, Item.value, Option.getD_some]
      exact .string hs
    · simp only [heq, Item.value, Json.depth]
      exact Nat.zero_le _
    · simp only [heq, Item.WellFormed]
      exact ⟨rfl, hitem.child⟩
    · rw [heq]
  refine .ite (fun hnum => ?_) fun _ => ?_
  · refine (parseNumber_meets hF item hnum).mono fun p hp => ?_
    obtain ⟨n, t, hreads, hn, heq⟩ := hp
    refine ⟨_, hreads, ?_, ?_, ?_, ?_⟩
    · simp only [heq, Item.value]
      exact .number hn
    · simp only [heq, Item.value, Json.depth]
      exact Nat.zero_le _
    · simp only [heq, Item.WellFormed]
      exact ⟨hitem.valuestring, trivial, hitem.child⟩
    · rw [heq]
  refine .ite (fun hopen => ?_) fun _ => ?_
  · cases room with
    | zero => exact rfl
    | succ room => exact parseArray_meets (hnested room rfl) hitem hopen
  refine .ite (fun hopen => ?_) fun _ => rfl
  cases room with
  | zero => exact rfl
  | succ room => exact parseObject_meets (hnested room rfl) hitem hopen

/-- The parser stays within the text and ends, and an item that is parsed is well formed and
    stands for the characters read. -/
theorem parseValue_meets {F : Doubles D} (hF : F.ReadsPrefix) (room : Nat) :
    ParsesValues F room (parseValue F room) := by
  induction room with
  | zero => exact parseValue_step hF 0 fun _ h => absurd h (Nat.succ_ne_zero _).symm
  | succ room ih => exact parseValue_step hF _ fun room' h => Nat.succ.inj h ▸ ih

/-! ## Whole texts -/

/-- The byte order mark of UTF-8. -/
def byteOrderMark : List UInt8 := [0xEF, 0xBB, 0xBF]

/-- The first `n` bytes of a buffer stand for a value: a byte order mark or none, white space,
    and a text. A mark that is not followed by two bytes is not skipped. -/
def StartsWith (F : Doubles D) (value : List UInt8) (v : Json D) (n : Nat) : Prop :=
  ∃ bom w t rest, value = bom ++ w ++ t ++ rest ∧
    (bom = [] ∨ bom = byteOrderMark ∧ 5 ≤ value.length) ∧ (lexis F).Blank w ∧
    Text (lexis F) v t ∧ n = (bom ++ w ++ t).length

/-- The byte order mark that is skipped. -/
theorem reads_skipUtf8Bom (b : ParseBuffer) : ∃ bom, Reads b bom b.skipUtf8Bom ∧
    (bom = [] ∨ bom = byteOrderMark ∧ 5 ≤ b.rest.length) := by
  unfold skipUtf8Bom
  split
  · rename_i h
    rw [Bool.and_eq_true, beq_iff_eq, canAccessAtIndex_iff] at h
    obtain ⟨r, hr⟩ := List.prefix_iff_eq_take.mpr (h.2.symm : byteOrderMark = b.rest.take 3)
    exact ⟨byteOrderMark, reads_advance hr.symm, .inr ⟨rfl, h.1⟩⟩
  · exact ⟨[], .refl b, .inl rfl⟩

/-- Where only blanks are left no value was read. -/
theorem not_stuck_of_reads {F : Doubles D} {v : Json D} {b b' : ParseBuffer} {t : List UInt8}
    (h : b.Stuck) (hread : Reads b t b') : ¬Text (lexis F) v t := by
  intro htext
  obtain ⟨c, r, rfl, hc, -⟩ := exists_head_of_text htext
  exact absurd (h.not_reads hread (List.mem_cons_self ..)) (UInt8.not_le.mpr hc)

/-- A value at the head of a buffer is parsed, or none. -/
theorem parseStart_meets {F : Doubles D} (hF : F.ReadsPrefix) (value : List UInt8)
    {b : ParseBuffer} (hrest : b.rest = value) (hoff : b.offset = 0) :
    (parseValue F nestingLimit (Item.new F) b.skipUtf8Bom.skipWhitespace).Meets (· = .fail)
      fun p => p.1.WellFormed F ∧ p.1.value.depth ≤ nestingLimit ∧
        StartsWith F value p.1.value p.2.offset ∧ p.2.rest = value.drop p.2.offset := by
  refine (parseValue_meets hF nestingLimit _ _ (Item.fresh_new F)).mono fun p hp => ?_
  obtain ⟨t, hread, htext, hdepth, hwf, -⟩ := hp
  -- in front of the value: a byte order mark and blanks
  obtain ⟨bom, hbom, hcase⟩ := reads_skipUtf8Bom b
  obtain ⟨w, -, -, hw, -, hskip, -⟩ | hstuck := b.skipUtf8Bom.skipWhitespace_reads_or_stuck
  · have hall := (hbom.trans hskip).trans hread
    have hoffset := hall.offset
    rw [hoff, Nat.zero_add] at hoffset
    have hvalue := hrest.symm.trans hall.rest
    refine ⟨hwf, hdepth, ⟨bom, w, t, p.2.rest, hvalue, hrest ▸ hcase, hw, htext, hoffset⟩, ?_⟩
    rw [hoffset, hvalue, List.drop_left]
  · exact absurd htext (not_stuck_of_reads hstuck hread)

/-- What `cJSON_ParseWithLengthOpts` returns. If a terminator is required, only white space is
    left in front of one that ends the buffer. -/
def ParsedTop (F : Doubles D) (value : List UInt8) (requireNullTerminated : Bool)
    (p : Item D × Nat) : Prop :=
  p.1.WellFormed F ∧ p.1.value.depth ≤ nestingLimit ∧
    if requireNullTerminated then
      ∃ n w, StartsWith F value p.1.value n ∧ (lexis F).Blank w ∧
        value.drop n = w ++ [0] ∧ p.2 + 1 = value.length
    else StartsWith F value p.1.value p.2

/-- What is left where only blanks are left is blank. -/
theorem blank_of_stuck {F : Doubles D} {b : ParseBuffer} (h : b.Stuck) {l : List UInt8}
    (hl : ∀ c ∈ l, c ∈ b.rest) : (lexis F).Blank l := fun c hc => h c (hl c hc)

/-- The terminator that is required. -/
theorem terminated_meets {F : Doubles D} {value : List UInt8} {b : ParseBuffer}
    (hoff : b.offset ≤ value.length) (hcontent : b.rest = value.drop b.offset)
    (h : b.skipWhitespace.isAt 0 = true) :
    ∃ w, (lexis F).Blank w ∧ b.rest = w ++ [0] ∧ b.skipWhitespace.offset + 1 = value.length := by
  obtain ⟨r, hr⟩ := isAt_iff.mp h
  obtain ⟨w, c, r', -, hc, -, hrest⟩ | ⟨hstuck, heq⟩ := b.skipWhitespace_cases
  · -- a character that is no white space is no terminator
    rw [hr] at hrest
    rw [← (List.cons.inj hrest).1] at hc
    exact absurd hc (by decide)
  · rw [heq, rest_advance] at hr
    have hlen := congrArg List.length hr
    rw [List.length_drop, List.length_cons] at hlen
    obtain rfl : r = [] := List.eq_nil_of_length_eq_zero (by omega)
    refine ⟨b.rest.take (b.rest.length - 1), ?_, ?_, ?_⟩
    · exact blank_of_stuck hstuck fun c hc => List.mem_of_mem_take hc
    · rw [← hr, List.take_append_drop]
    · have hvalue := congrArg List.length hcontent
      rw [List.length_drop] at hvalue
      rw [heq, advance]
      simp only
      omega

/-- `cJSON_ParseWithLengthOpts` fails or returns an item, and never reads behind the text,
    writes behind an allocation or runs on. -/
theorem parseWithLengthOpts_meets {F : Doubles D} (hF : F.ReadsPrefix) (hooks : Nat → Bool)
    (value : List UInt8) (requireNullTerminated : Bool) :
    (parseWithLengthOpts F hooks value requireNullTerminated).Meets (· = .fail)
      (ParsedTop F value requireNullTerminated) := by
  unfold parseWithLengthOpts
  refine .ite (fun _ => rfl) fun _ => ?_
  refine (allocate_meets _).bind fun b hb => ?_
  have hrest : b.rest = value := hb.rest.symm
  refine (parseStart_meets hF value hrest hb.offset).bind fun p hp => ?_
  obtain ⟨hwf, hdepth, hstart, hdrop⟩ := hp
  cases requireNullTerminated with
  | false => exact ⟨hwf, hdepth, hstart⟩
  | true =>
    simp only [if_true]
    cases hzero : p.2.skipWhitespace.isAt 0 with
    | false => exact rfl
    | true =>
      obtain ⟨bom, w, t, rest, hvalue, -, -, -, hn⟩ := id hstart
      have hoff : p.2.offset ≤ value.length := by
        rw [hn, hvalue]
        simp only [List.length_append]
        omega
      obtain ⟨w, hw, hend, hlen⟩ := terminated_meets hoff hdrop hzero
      exact ⟨hwf, hdepth, _, w, hstart, hw, hdrop ▸ hend, hlen⟩

end EspTesting.CJson
