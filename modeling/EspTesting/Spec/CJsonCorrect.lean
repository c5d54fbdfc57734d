import EspTesting.Spec.CJsonComplete
import EspTesting.Spec.CJsonInts

/-!
# JSON text in and out

What the parser and the printer of cJSON promise together: the parser is safe on every input and
accepts a known language, which contains JSON; the printer writes JSON, which the parser reads
back as the same value.

## Key results

- `parseWithLengthOpts_safe`: no input makes the parser leave its buffers or run on
- `parseWithLengthOpts_iff`: the texts that are accepted, and their values
- `cJsonParse_of_json`: a text of JSON is parsed to its value
- `cJsonParse_print`: what is printed is parsed to the value it was printed for
-/

namespace EspTesting.CJson

open Json (Text render AllTokens StringText NumberText)

variable {D : Type} {F : Doubles D}

/-! ## Safety -/

/-- Whatever the bytes of the buffer are and whichever allocations fail, the parser ends without
    a read behind the buffer or a write behind an allocation, and an item it returns is well
    formed, not nested too deeply, and ends within the buffer. -/
theorem parseWithLengthOpts_safe (hF : F.ReadsPrefix) (hooks : Nat → Bool) (value : List UInt8)
    (requireNullTerminated : Bool) :
    parseWithLengthOpts F hooks value requireNullTerminated = .error .fail ∨
      ∃ item n, parseWithLengthOpts F hooks value requireNullTerminated = .ok (item, n) ∧
        item.WellFormed F ∧ item.value.depth ≤ nestingLimit ∧ n ≤ value.length := by
  have hmeets := parseWithLengthOpts_meets hF hooks value requireNullTerminated
  cases h : parseWithLengthOpts F hooks value requireNullTerminated with
  | error e =>
    rw [h] at hmeets
    exact .inl (congrArg Except.error hmeets)
  | ok p =>
    rw [h] at hmeets
    obtain ⟨hwf, hdepth, hend⟩ := hmeets
    refine .inr ⟨p.1, p.2, rfl, hwf, hdepth, ?_⟩
    cases requireNullTerminated with
    -- the position is behind the value
    | false =>
      obtain ⟨bom, w, t, rest, hvalue, -, -, -, hn⟩ := hend
      have hlen := congrArg List.length hvalue
      rw [List.length_append, ← hn] at hlen
      omega
    | true =>
      obtain ⟨-, -, -, -, -, hn⟩ := hend
      omega

/-- The parser is safe on a text that breaks off in the middle of an escape, with an allocator
    that has no third block. -/
theorem parseWithLengthOpts_safe_truncated :
    parseWithLengthOpts Doubles.ints (fun k => k < 3) [0x5B, 0x31, 0x2C, 0x22, 0x5C] false =
        .error .fail ∨
      ∃ item n, parseWithLengthOpts Doubles.ints (fun k => k < 3)
          [0x5B, 0x31, 0x2C, 0x22, 0x5C] false = .ok (item, n) ∧
        item.WellFormed Doubles.ints ∧ item.value.depth ≤ nestingLimit ∧ n ≤ 5 :=
  parseWithLengthOpts_safe readsPrefix_ints _ _ _

/-! ## The language -/

theorem numberEnds_nil : NumberEnds [] := fun c hc => by cases hc

theorem numberEnds_zero (r : List UInt8) : NumberEnds (0 :: r) := .cons (by decide) r

/-- If no allocation fails and a terminator is required, the parser accepts exactly the texts of
    `lexis` that are not nested too deeply, between white space and up to a terminator that ends
    the buffer, and returns their values. -/
theorem parseWithLengthOpts_iff (hF : F.ReadsPrefix) {hooks : Nat → Bool}
    (hhooks : ∀ k, hooks k = true) (value : List UInt8) (v : Json D) :
    (∃ item n, parseWithLengthOpts F hooks value true = .ok (item, n) ∧ item.value = v) ↔
      v.depth ≤ nestingLimit ∧ ∃ bom w t w', value = bom ++ w ++ t ++ w' ++ [0] ∧
        (bom = [] ∨ bom = byteOrderMark ∧ 5 ≤ value.length) ∧ (lexis F).Blank w ∧
        Text (lexis F) v t ∧ (lexis F).Blank w' := by
  constructor
  · rintro ⟨item, n, hparse, rfl⟩
    have hmeets := parseWithLengthOpts_meets hF hooks value true
    rw [hparse] at hmeets
    obtain ⟨-, hdepth, m, w', hstart, hblank, hdrop, -⟩ := hmeets
    obtain ⟨bom, w, t, rest, hvalue, hbom, hw, ht, hm⟩ := hstart
    refine ⟨hdepth, bom, w, t, w', ?_, hbom, hw, ht, hblank⟩
    have hrest : rest = w' ++ [0] := by
      rw [← hdrop, hm, hvalue, List.drop_left]
    rw [hvalue, hrest, ← List.append_assoc]
  · -- the blanks behind the value end a number
    rintro ⟨hdepth, bom, w, t, w', hvalue, hbom, hw, ht, hw'⟩
    rw [List.append_assoc] at hvalue
    obtain ⟨item, n, hparse, hv, -⟩ := parseWithLengthOpts_complete hhooks hvalue hbom hw ht
      hdepth (fun _ => (numberEnds_zero []).blank_append hw') true fun _ => ⟨w', rfl, hw'⟩
    exact ⟨item, n, hparse, hv⟩

/-- The text `[7]` is accepted, and stands for a list of one number. -/
theorem parseWithLengthOpts_iff_seven :
    ∃ item n, parseWithLengthOpts Doubles.ints (fun _ => true) [0x5B, 0x37, 0x5D, 0] true =
      .ok (item, n) ∧ item.value = .array [.number 7] := by
  have hnil := (lexis Doubles.ints).blank_nil
  have hseven : (lexis Doubles.ints).number 7 [0x37] :=
    ⟨⟨0x37, rfl, by decide⟩, by decide, List.forall_mem_singleton.mpr (by decide), by decide⟩
  exact (parseWithLengthOpts_iff readsPrefix_ints (fun _ => rfl) _ _).mpr
    ⟨by decide, [], [], [0x5B, 0x37, 0x5D], [], rfl, .inl rfl, hnil,
      .array (.last hnil (.number hseven) hnil), hnil⟩

/-! ## JSON -/

/-- JSON with the numbers that `strtod` reads in full. A number of more than 63 characters does
    not fit into the buffer of `parse_number`. -/
def jsonLexis (F : Doubles D) : Json.Lexis D :=
  Json.standard fun n t => t.length ≤ 63 ∧ F.strtod t = (n, t.length)

/-- The characters of a number of JSON. -/
theorem isNumberChar_of_numberText {t : List UInt8} (h : NumberText t) :
    (∃ c, t.head? = some c ∧ (c = 0x2D ∨ 0x30 ≤ c ∧ c ≤ 0x39)) ∧
      ∀ c ∈ t, isNumberChar c = true := by
  obtain ⟨sign, int, frac, exp, rfl, hsign, hint, hfrac, hexp⟩ := h
  have hdigit : ∀ c, Json.IsDigit c → isNumberChar c = true := by
    intro c hc
    simp [isNumberChar, hc.1, hc.2]
  have hdigits : Json.Digits int := by
    obtain rfl | h := hint
    · exact ⟨List.cons_ne_nil _ _, by simp [Json.IsDigit]⟩
    · exact h.1
  obtain ⟨d, ds, rfl⟩ := List.exists_cons_of_ne_nil hdigits.1
  -- the first character, and then all of them part by part
  constructor
  · obtain rfl | rfl := hsign
    · exact ⟨d, rfl, .inr (hdigits.2 d (List.mem_cons_self ..))⟩
    · exact ⟨0x2D, rfl, .inl rfl⟩
  · intro c hc
    simp only [List.mem_append] at hc
    obtain ((hc | hc) | hc) | hc := hc
    · obtain rfl | rfl := hsign
      · cases hc
      · rw [List.mem_singleton.mp hc]
        decide
    · exact hdigit c (hdigits.2 c hc)
    · obtain rfl | ⟨fs, rfl, hfs⟩ := hfrac
      · cases hc
      · obtain rfl | hc := List.mem_cons.mp hc
        · decide
        · exact hdigit c (hfs.2 c hc)
    · obtain rfl | ⟨e, s, es, rfl, he, hs, hes⟩ := hexp
      · cases hc
      · simp only [List.cons_append, List.mem_cons, List.mem_append] at hc
        obtain rfl | hc | hc := hc
        · obtain rfl | rfl := he <;> decide
        · obtain rfl | rfl | rfl := hs
          · cases hc
          · rw [List.mem_singleton.mp hc]
            decide
          · rw [List.mem_singleton.mp hc]
            decide
        · exact hdigit c (hes.2 c hc)

theorem blank_of_json {c : UInt8} (h : (jsonLexis F).blank c) : (lexis F).blank c := by
  show c ≤ 32
  obtain rfl | rfl | rfl | rfl := h <;> decide

/-- A text of JSON is one of the parser, with the same value. -/
theorem text_lexis_of_json {v : Json D} {t : List UInt8} (h : Text (jsonLexis F) v t) :
    Text (lexis F) v t := by
  refine h.mono (fun _ => blank_of_json) ?_ ?_
  · intro s t hs
    exact ⟨scanned_of_stringText hs, decode_of_stringText hs [] (Nat.le_refl _)⟩
  · rintro n t ⟨htext, hlen, hstrtod⟩
    obtain ⟨hhead, hchars⟩ := isNumberChar_of_numberText htext
    exact ⟨hhead, hlen, hchars, hstrtod⟩

/-- `cJSON_Parse` on a text of `lexis`, and whatever else follows it. -/
theorem cJsonParse_complete {hooks : Nat → Bool} (hhooks : ∀ k, hooks k = true)
    {w t rest : List UInt8} {v : Json D} (hw : (lexis F).Blank w) (ht : Text (lexis F) v t)
    (hdepth : v.depth ≤ nestingLimit) (hends : v.isNumber = true → NumberEnds rest) :
    ∃ item, cJsonParse F hooks (w ++ t ++ rest) = .ok item ∧ item.value = v := by
  -- a number may also end at the NUL
  have hends' : v.isNumber = true → NumberEnds (rest ++ [0]) := by
    intro hnumber
    cases rest with
    | nil => exact numberEnds_zero []
    | cons c rest => exact hends hnumber
  have hvalue : w ++ t ++ rest ++ [0] = [] ++ w ++ t ++ (rest ++ [0]) := by simp
  obtain ⟨item, n, hparse, hv, -⟩ := parseWithLengthOpts_complete hhooks hvalue (.inl rfl) hw ht
    hdepth hends' false (fun h => absurd h Bool.false_ne_true)
  refine ⟨item, ?_, hv⟩
  simp only [cJsonParse, hparse, bind, Except.bind]
  rfl

/-- If no allocation fails, `cJSON_Parse` returns the value of every text of JSON that is not
    nested too deeply. What follows the text in the string does not matter, but that a number
    has to end where it does. -/
theorem cJsonParse_of_json {hooks : Nat → Bool} (hhooks : ∀ k, hooks k = true)
    {w t rest : List UInt8} {v : Json D} (hw : (jsonLexis F).Blank w)
    (ht : Text (jsonLexis F) v t) (hdepth : v.depth ≤ nestingLimit)
    (hends : v.isNumber = true → NumberEnds rest) :
    ∃ item, cJsonParse F hooks (w ++ t ++ rest) = .ok item ∧ item.value = v :=
  cJsonParse_complete hhooks (hw.mono fun _ => blank_of_json) (text_lexis_of_json ht) hdepth hends

/-- A character behind the first plane, escaped as two surrogates, is parsed to its four bytes.
    The digit behind the string is left. -/
theorem cJsonParse_of_json_surrogates :
    ∃ item, cJsonParse Doubles.ints (fun _ => true)
        ([] ++ Json.quoted [0x5C, 0x75, 0x44, 0x38, 0x33, 0x64, 0x5C, 0x75, 0x64, 0x65, 0x30, 0x30]
          ++ [0x31]) = .ok item ∧ item.value = .string [0xF0, 0x9F, 0x98, 0x80] := by
  have htext : StringText [0xF0, 0x9F, 0x98, 0x80]
      [0x5C, 0x75, 0x44, 0x38, 0x33, 0x64, 0x5C, 0x75, 0x64, 0x65, 0x30, 0x30] :=
    .surrogates (c := Char.ofNat 0x1F600) (s := []) (by decide) (by decide) (by decide) .nil
  exact cJsonParse_of_json (fun _ => rfl) (jsonLexis Doubles.ints).blank_nil (.string htext)
    (by decide) fun hnumber => absurd hnumber Bool.false_ne_true

/-! ## Printing -/

/-- Whatever the blocks of the allocator hold, the printer writes nothing outside its buffer and
    returns the text of the item with a terminator, or fails. It fails only if there is no block
    of a size up to `INT_MAX`, or if the text is longer. -/
theorem cJsonPrintUnformatted_correct (hF : F.PrintsShort) {hooks : Hooks} (hsized : hooks.Sized)
    {item : Item D} (hwf : item.WellFormed F) (hzero : NoZero item.value) :
    cJsonPrintUnformatted F hooks item = .ok (render F.text item.value ++ [0]) ∨
      cJsonPrintUnformatted F hooks item = .error .fail ∧
        ¬(hooks.Enough ∧ (render F.text item.value).length + 2 ≤ 2147483647) := by
  have hmeets := cJsonPrintUnformatted_meets hF hsized hwf hzero
  cases h : cJsonPrintUnformatted F hooks item with
  | ok out =>
    rw [h] at hmeets
    exact .inl (congrArg Except.ok hmeets)
  | error e =>
    rw [h] at hmeets
    exact .inr ⟨congrArg Except.error hmeets.1, hmeets.2⟩

/-- An allocator with enough blocks is all the printer needs. -/
theorem cJsonPrintUnformatted_eq (hF : F.PrintsShort) {hooks : Hooks} (hsized : hooks.Sized)
    (henough : hooks.Enough) {item : Item D} (hwf : item.WellFormed F) (hzero : NoZero item.value)
    (hlen : (render F.text item.value).length + 2 ≤ 2147483647) :
    cJsonPrintUnformatted F hooks item = .ok (render F.text item.value ++ [0]) := by
  obtain ⟨out, hout, rfl⟩ := (cJsonPrintUnformatted_meets hF hsized hwf hzero).exists_ok
    fun e he => he.2 ⟨henough, hlen⟩
  exact hout

/-- An allocator with a block for every size, full of ones. -/
def Hooks.ones : Hooks := ⟨fun _ n => some (List.replicate n 0xFF), true⟩

theorem sized_ones : Hooks.ones.Sized := by
  rintro k n block ⟨⟩
  exact List.length_replicate

/-- A string with a quote in it. -/
theorem cJsonPrintUnformatted_correct_quote :
    cJsonPrintUnformatted Doubles.ints Hooks.ones (createString Doubles.ints [0x61, 0x22]) =
        .ok (render Doubles.ints.text (.string [0x61, 0x22]) ++ [0]) ∨
      cJsonPrintUnformatted Doubles.ints Hooks.ones (createString Doubles.ints [0x61, 0x22]) =
          .error .fail ∧
        ¬(Hooks.ones.Enough ∧
          (render Doubles.ints.text (.string [0x61, 0x22])).length + 2 ≤ 2147483647) :=
  cJsonPrintUnformatted_correct printsShort_ints sized_ones
    (by simp [createString, Item.new, Item.WellFormed])
    (by simp [createString, Item.new, Item.value, NoZero, AllTokens, Http.cString])

/-! ## There and back -/

/-- What is printed is a text of JSON, if its numbers are. -/
theorem text_json_of_render (hF : F.PrintsShort) {v : Json D}
    (hv : AllTokens (fun _ => True) F.Rereads v) : Text (jsonLexis F) v (render F.text v) := by
  refine Json.text_render (S := fun _ => True) (P := F.Rereads) ?_ ?_ v hv
  · exact fun s _ => Json.stringText_escape s
  · intro n hn
    refine ⟨hn.1, ?_, hn.2⟩
    exact Nat.le_trans (numberText_eq hF n).2.1 (by decide)

/-- The text of an item is parsed to an item of the same value, if its numbers are read back as
    they are written. -/
theorem cJsonParse_render (hF : F.PrintsShort) {hooks : Nat → Bool} (hhooks : ∀ k, hooks k = true)
    {v : Json D} (hdepth : v.depth ≤ nestingLimit)
    (hv : AllTokens (fun _ => True) F.Rereads v) :
    ∃ item, cJsonParse F hooks (render F.text v) = .ok item ∧ item.value = v := by
  have htext := text_lexis_of_json (text_json_of_render hF hv)
  have := cJsonParse_complete hhooks (lexis F).blank_nil htext hdepth fun _ => numberEnds_nil
  rwa [List.nil_append, List.append_nil] at this

/-- What `cJSON_PrintUnformatted` returns is a C string that `cJSON_Parse` takes for the value it
    was printed for. -/
theorem cJsonParse_print (hF : F.PrintsShort) {hooks : Hooks} (hsized : hooks.Sized)
    {allocates : Nat → Bool} (hallocates : ∀ k, allocates k = true) {item : Item D}
    (hwf : item.WellFormed F) (hzero : NoZero item.value) (hdepth : item.value.depth ≤ nestingLimit)
    (hnumbers : AllTokens (fun _ => True) F.Rereads item.value) {out : List UInt8}
    (hout : cJsonPrintUnformatted F hooks item = .ok out) :
    ∃ item', cJsonParse F allocates (Http.cString out) = .ok item' ∧ item'.value = item.value := by
  have hmeets := cJsonPrintUnformatted_meets hF hsized hwf hzero
  have hrender := hmeets.of_eq_ok hout
  have hstring : Http.cString out = render F.text item.value := by
    rw [hrender]
    exact cString_terminated (render_ne_zero (fun n => (numberText_eq hF n).2.2) item.value)
  rw [hstring]
  exact cJsonParse_render hF hallocates hdepth hnumbers

theorem enough_ones : Hooks.ones.Enough := fun _ _ _ => rfl

/-- An object of one number is printed, and parsed to the same value. -/
theorem cJsonParse_print_object :
    ∃ out item', cJsonPrintUnformatted Doubles.ints Hooks.ones
        ((createObject Doubles.ints).addItemToObject [0x61] (createNumber Doubles.ints (-7))) =
          .ok out ∧
      cJsonParse Doubles.ints (fun _ => true) (Http.cString out) = .ok item' ∧
      item'.value = .object [([0x61], .number (-7))] := by
  have hwf : ((createObject Doubles.ints).addItemToObject [0x61]
      (createNumber Doubles.ints (-7))).WellFormed Doubles.ints := by
    simp [createObject, createNumber, Item.addItemToObject, Item.new, Item.WellFormed,
      MembersWellFormed]
  have hzero : NoZero ((createObject Doubles.ints).addItemToObject [0x61]
      (createNumber Doubles.ints (-7))).value := by
    simp [createObject, createNumber, Item.addItemToObject, Item.new, Item.value, members,
      NoZero, AllTokens, Json.AllTokensMembers, Http.cString]
  -- the one number is read back
  have hnumbers : AllTokens (fun _ => True) Doubles.ints.Rereads
      ((createObject Doubles.ints).addItemToObject [0x61]
        (createNumber Doubles.ints (-7))).value := by
    simp only [createObject, createNumber, Item.addItemToObject, Item.new, Item.value, members,
      AllTokens, Json.AllTokensMembers, List.nil_append, and_true, true_and]
    exact rereads_ofInt holdsInts_ints (-7)
  have hlen : (render Doubles.ints.text ((createObject Doubles.ints).addItemToObject [0x61]
      (createNumber Doubles.ints (-7))).value).length ≤ 8 := by decide +kernel
  have hout := cJsonPrintUnformatted_eq printsShort_ints sized_ones enough_ones hwf hzero
    (by omega)
  exact ⟨_, (cJsonParse_print printsShort_ints sized_ones (fun _ => rfl) hwf hzero (by decide)
    hnumbers hout).imp fun item' h => ⟨hout, h⟩⟩

end EspTesting.CJson
