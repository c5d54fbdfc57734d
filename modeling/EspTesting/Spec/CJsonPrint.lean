import EspTesting.Native.CJsonPrint
import EspTesting.Spec.CJsonAccepts

/-!
# What the printer writes

Whatever the blocks of the allocator hold, `cJSON_PrintUnformatted` writes the text `render`
gives for the value of the item, or nothing. It never writes outside its buffer, and finds its
own terminator each time it looks for one.

## Key results

- `printValue_meets`: a value is printed behind what has been printed, with a terminator
- `cJsonPrintUnformatted_meets`: the block returned holds the text of the item, and there is
  one if the allocator gives the blocks and the text is not too long
-/

namespace EspTesting.CJson

open Json (quote comma colon openBracket closeBracket openBrace closeBrace backslash letterU
  quoted escape escapeByte render renderItems renderMembers AllTokens AllTokensItems
  AllTokensMembers)
open Http (cString)

variable {D : Type} {F : Doubles D}

/-! ## C strings -/

/-- Bytes without a NUL are all of the string. -/
theorem cString_of_ne_zero {s : List UInt8} (h : ∀ c ∈ s, c ≠ 0) : cString s = s := by
  rw [cString, List.takeWhile_eq_self_iff]
  simpa using h

/-- A C string has no NUL. -/
theorem cString_ne_zero (s : List UInt8) : ∀ c ∈ cString s, c ≠ 0 := by
  intro c hc
  simpa using List.mem_takeWhile_imp hc

/-- A C string ends where it ends. -/
theorem cString_cString (s : List UInt8) : cString (cString s) = cString s :=
  cString_of_ne_zero (cString_ne_zero s)

/-- A string is what stands in front of its terminator. -/
theorem cString_terminated {s : List UInt8} (h : ∀ c ∈ s, c ≠ 0) : cString (s ++ [0]) = s := by
  rw [cString, List.takeWhile_append_of_pos (by simpa using h),
    List.takeWhile_cons_of_neg (by decide), List.append_nil]

/-! ## The allocator -/

/-- A block has the size asked for. -/
def Hooks.Sized (hooks : Hooks) : Prop :=
  ∀ k n block, hooks.block k n = some block → block.length = n

/-- There is a block for every size up to `INT_MAX`. -/
def Hooks.Enough (hooks : Hooks) : Prop := ∀ k n, n ≤ 2147483647 → (hooks.block k n).isSome

/-- The printer fails, for want of a block or because of a text that is too long. -/
def Refused (hooks : Hooks) (total : Nat) (e : Stop) : Prop :=
  e = .fail ∧ ¬(hooks.Enough ∧ total + 2 ≤ 2147483647)

/-- The text `out` is printed, and there is room behind it. -/
structure Printed (hooks : Hooks) (p : PrintBuffer) (out : List UInt8) : Prop where
  hooks : p.hooks = hooks
  offset : p.offset = out.length
  buffer : ∃ rest, rest ≠ [] ∧ p.buffer = out ++ rest

/-- The text `out` is printed with a terminator, which `update_offset` will find. -/
structure Terminated (hooks : Hooks) (p : PrintBuffer) (out : List UInt8) : Prop where
  hooks : p.hooks = hooks
  offset : p.offset ≤ out.length
  nonzero : ∀ c ∈ out.drop p.offset, c ≠ 0
  buffer : ∃ rest, p.buffer = out ++ 0 :: rest

/-- The text `out` is printed with a terminator, up to which the offset is. -/
structure Ended (hooks : Hooks) (p : PrintBuffer) (out : List UInt8) : Prop where
  hooks : p.hooks = hooks
  offset : p.offset = out.length
  buffer : ∃ rest, p.buffer = out ++ 0 :: rest

section

variable {hooks : Hooks} {p : PrintBuffer} {out : List UInt8} {total : Nat}

/-- Behind the text there is the NUL. -/
theorem Ended.printed (h : Ended hooks p out) : Printed hooks p out where
  hooks := h.hooks
  offset := h.offset
  buffer := by
    obtain ⟨rest, hrest⟩ := h.buffer
    exact ⟨0 :: rest, List.cons_ne_nil _ _, hrest⟩

/-! ## The buffer -/

/-- A buffer that grows keeps what is printed, or the allocator refused. -/
theorem PrintBuffer.grow_meets (hsized : hooks.Sized) (h : Printed hooks p out) {n : Nat}
    (hn : out.length < n) (hmax : n ≤ 2147483647) (hle : p.buffer.length ≤ n) :
    (p.grow n).Meets (fun e => e = .fail ∧ ¬hooks.Enough) fun p' =>
      Printed hooks p' out ∧ p'.buffer.length = n := by
  unfold grow
  rw [h.hooks]
  obtain ⟨rest, hrest, hbuffer⟩ := h.buffer
  have hpos := List.length_pos_iff.mpr hrest
  cases hblock : hooks.block p.allocated n with
  | none =>
    refine ⟨rfl, fun henough => ?_⟩
    have := henough p.allocated n hmax
    rw [hblock] at this
    cases this
  | some block =>
    have hlen := hsized _ _ _ hblock
    -- both ways of copying take all that is printed, and a byte behind it
    have hcopied : ∀ m, out.length < m → ∃ rest', rest' ≠ [] ∧ p.buffer.take m = out ++ rest' := by
      intro m hm
      refine ⟨rest.take (m - out.length), ?_, ?_⟩
      · rw [← List.length_pos_iff, List.length_take]
        omega
      · rw [hbuffer, List.take_append, List.take_of_length_le (by omega)]
    simp only
    generalize hc : (if hooks.reallocates = true then p.buffer.take n
      else p.buffer.take (p.offset + 1)) = copied
    have hle' : copied.length ≤ n := by
      rw [← hc]
      have hoff := h.offset
      split
      · rw [List.length_take]
        omega
      · rw [List.length_take]
        omega
    obtain ⟨rest', hne, hout⟩ : ∃ rest', rest' ≠ [] ∧ copied = out ++ rest' := by
      rw [← hc]
      split
      · exact hcopied n hn
      · exact hcopied _ (by rw [h.offset]; omega)
    rw [if_pos (by omega)]
    refine ⟨⟨rfl, h.offset, rest' ++ block.drop copied.length, ?_, ?_⟩, ?_⟩
    · exact List.append_ne_nil_of_left_ne_nil hne _
    · rw [hout, List.append_assoc]
    · simp only [List.length_append, List.length_drop]
      omega

/-- The buffer is large enough for what is needed, and one more. -/
theorem PrintBuffer.ensure_meets (hsized : hooks.Sized) (h : Printed hooks p out) (needed : Nat)
    (hneeded : out.length + needed ≤ total + 1) :
    (p.ensure needed).Meets (Refused hooks total) fun p' =>
      Printed hooks p' out ∧ out.length + needed < p'.buffer.length := by
  unfold ensure
  obtain ⟨rest, hrest, hbuffer⟩ := h.buffer
  have hpos := List.length_pos_iff.mpr hrest
  have hlen := congrArg List.length hbuffer
  rw [List.length_append] at hlen
  have hoff := h.offset
  simp only
  rw [if_neg (by omega)]
  -- the buffer is large enough, it is doubled, or the limit is reached
  refine .ite (fun hbig => ⟨rfl, fun hok => by omega⟩) fun hsmall => ?_
  refine .ite (fun hfits => ⟨h, by omega⟩) fun hnot => ?_
  have hE : ∀ e, (e = Stop.fail ∧ ¬hooks.Enough) → Refused hooks total e :=
    fun e he => ⟨he.1, fun hok => he.2 hok.1⟩
  refine .ite (fun hhalf => ?_) fun hhalf => ?_
  · refine .ite (fun hmax => ?_) fun hmax => ⟨rfl, fun hok => by omega⟩
    exact (grow_meets hsized h (by omega) (Nat.le_refl _) (by omega)).imp hE fun p' hp' =>
      ⟨hp'.1, by omega⟩
  · exact (grow_meets hsized h (by omega) (by omega) (by omega)).imp hE fun p' hp' =>
      ⟨hp'.1, by omega⟩

/-- Bytes written behind the beginning `a` of the buffer. -/
theorem PrintBuffer.write_append {a rest : List UInt8} (bytes : List UInt8)
    (hbuffer : p.buffer = a ++ rest) (hlen : bytes.length ≤ rest.length) :
    p.write a.length bytes =
      .ok { p with buffer := a ++ bytes ++ rest.drop bytes.length } := by
  unfold write
  rw [hbuffer, if_pos (by rw [List.length_append]; omega), List.take_left, List.drop_append,
    List.drop_of_length_le (by omega), List.nil_append, Nat.add_sub_cancel_left]

/-- The terminator is found. -/
theorem PrintBuffer.updateOffset_eq (h : Terminated hooks p out) :
    ∃ p', p.updateOffset = .ok p' ∧ Ended hooks p' out := by
  obtain ⟨rest, hbuffer⟩ := h.buffer
  have hdrop : p.buffer.drop p.offset = out.drop p.offset ++ 0 :: rest := by
    rw [hbuffer, List.drop_append_of_le_length h.offset]
  -- the NUL is the first one behind the offset
  have hstring : cString (p.buffer.drop p.offset) = out.drop p.offset := by
    rw [hdrop, cString, List.takeWhile_append_of_pos
      (fun c hc => by simpa using h.nonzero c hc), List.takeWhile_cons_of_neg (by decide),
      List.append_nil]
  have hlen : (out.drop p.offset).length < (p.buffer.drop p.offset).length := by
    rw [hdrop, List.length_append, List.length_cons]
    omega
  have hoff := h.offset
  refine ⟨{ p with offset := p.offset + (out.drop p.offset).length }, ?_,
    ⟨h.hooks, ?_, rest, hbuffer⟩⟩
  · simp only [updateOffset, hstring, if_pos hlen]
  · simp only [List.length_drop]
    omega

/-- A short text is written, and the offset moves for a part of it. -/
theorem printChar_meets (hsized : hooks.Sized) (h : Printed hooks p out) {needed length : Nat}
    {text : List UInt8} (htext : text.length ≤ needed)
    (hneeded : out.length + needed ≤ total + 1) :
    (printChar needed text length p).Meets (Refused hooks total) fun p' =>
      p'.hooks = hooks ∧ p'.offset = out.length + length ∧
        ∃ rest, rest ≠ [] ∧ p'.buffer = out ++ text ++ rest := by
  refine (p.ensure_meets hsized h needed hneeded).bind fun p₁ hp₁ => ?_
  obtain ⟨hp₁, hroom⟩ := hp₁
  obtain ⟨rest, hrest, hbuffer⟩ := hp₁.buffer
  have hlen := congrArg List.length hbuffer
  rw [List.length_append] at hlen
  -- there is room for the text
  have hwrite := p₁.write_append text hbuffer (by omega)
  rw [← hp₁.offset] at hwrite
  simp only [hwrite, bind, Except.bind]
  refine ⟨hp₁.hooks, by simp only [hp₁.offset], rest.drop text.length, ?_, rfl⟩
  rw [← List.length_pos_iff, List.length_drop]
  omega

/-- A character that the offset moves behind. -/
theorem printChar_printed (hsized : hooks.Sized) (h : Printed hooks p out) {needed : Nat}
    {c : UInt8} {text : List UInt8} (htext : text.length + 1 ≤ needed)
    (hneeded : out.length + needed ≤ total + 1) :
    (printChar needed (c :: text) 1 p).Meets (Refused hooks total)
      (Printed hooks · (out ++ [c])) := by
  refine (printChar_meets hsized h htext hneeded).mono fun p' hp' => ?_
  obtain ⟨hhooks, hoff, rest, hrest, hbuffer⟩ := hp'
  refine ⟨hhooks, ?_, text ++ rest, ?_, ?_⟩
  · rw [hoff, List.length_append, List.length_singleton]
  · exact List.append_ne_nil_of_right_ne_nil _ hrest
  · rw [hbuffer]
    simp

/-- A closing bracket and a terminator. -/
theorem printChar_terminated (hsized : hooks.Sized) (h : Printed hooks p out) {c : UInt8}
    (hc : c ≠ 0) (hneeded : out.length + 2 ≤ total + 1) :
    (printChar 2 [c, 0] 0 p).Meets (Refused hooks total) (Terminated hooks · (out ++ [c])) := by
  refine (printChar_meets hsized h (Nat.le_refl 2) hneeded).mono fun p' hp' => ?_
  obtain ⟨hhooks, hoff, rest, -, hbuffer⟩ := hp'
  rw [Nat.add_zero] at hoff
  refine ⟨hhooks, ?_, ?_, rest, ?_⟩
  · rw [hoff, List.length_append]
    omega
  · intro x hx
    rw [hoff, List.drop_left, List.mem_singleton] at hx
    exact hx ▸ hc
  · rw [hbuffer]
    simp

/-- A literal and its terminator. -/
theorem printLiteral_meets (hsized : hooks.Sized) (h : Printed hooks p out)
    {text : List UInt8} (htext : ∀ c ∈ text, c ≠ 0)
    (htotal : out.length + text.length ≤ total) :
    (printLiteral text p).Meets (Refused hooks total) (Terminated hooks · (out ++ text)) := by
  refine (p.ensure_meets hsized h (text.length + 1) (by omega)).bind fun p₁ hp₁ => ?_
  obtain ⟨hp₁, hroom⟩ := hp₁
  obtain ⟨rest, hrest, hbuffer⟩ := hp₁.buffer
  have hlen := congrArg List.length hbuffer
  rw [List.length_append] at hlen
  -- the text and its NUL
  have hwrite := p₁.write_append (text ++ [0]) hbuffer
    (by rw [List.length_append, List.length_singleton]; omega)
  rw [← hp₁.offset] at hwrite
  rw [hwrite]
  refine ⟨hp₁.hooks, ?_, ?_, rest.drop (text ++ [0]).length, ?_⟩
  · simp only [hp₁.offset, List.length_append]
    omega
  · intro c hc
    simp only [hp₁.offset, List.drop_left] at hc
    exact htext c hc
  · simp

end

/-! ## Strings -/

/-- The escape of a byte is as long as counted. -/
theorem length_escapeByte (c : UInt8) : (escapeByte c).length = 1 + escapeCharacters c := by
  revert c
  rw [UInt8.forall_iff_fin]
  decide +kernel

/-- The escape of a text is as long as counted. -/
theorem length_escape (s : List UInt8) :
    (escape s).length = s.length + (s.map escapeCharacters).sum := by
  induction s with
  | nil => rfl
  | cons c s ih =>
    have := length_escapeByte c
    simp only [escape, List.flatMap_cons, List.length_append, List.map_cons, List.sum_cons,
      List.length_cons] at ih ⊢
    omega

/-- A character that needs no escape. -/
theorem escapeByte_of_plain {c : UInt8} (h : c > 31 ∧ c ≠ quote ∧ c ≠ backslash) :
    escapeByte c = [c] := by
  have h₁ : ¬(c = quote ∨ c = backslash) := fun hc => hc.elim h.2.1 h.2.2
  -- no control character
  have hne : ∀ d : UInt8, d ≤ 31 → c ≠ d := by
    rintro d hd rfl
    exact absurd h.1 (UInt8.not_lt.mpr hd)
  have hlt : ¬c < 0x20 := by
    have := UInt8.lt_iff_toNat_lt.mp h.1
    rw [UInt8.lt_iff_toNat_lt]
    simp only [UInt8.reduceToNat] at this ⊢
    omega
  simp only [escapeByte, if_neg h₁, if_neg (hne 0x08 (by decide)), if_neg (hne 0x0C (by decide)),
    if_neg (hne 0x0A (by decide)), if_neg (hne 0x0D (by decide)), if_neg (hne 0x09 (by decide)),
    if_neg hlt]

/-- No additional characters are needed exactly if nothing is escaped. -/
theorem escape_eq_self {s : List UInt8} (h : (s.map escapeCharacters).sum = 0) :
    escape s = s := by
  induction s with
  | nil => rfl
  | cons c s ih =>
    simp only [List.map_cons, List.sum_cons, Nat.add_eq_zero_iff] at h
    -- nothing is counted for the first byte
    have hplain : escapeByte c = [c] := by
      apply escapeByte_of_plain
      have hc := h.1
      unfold escapeCharacters at hc
      have hspace : (31 : UInt8) < c ↔ ¬c < 32 := by
        rw [UInt8.lt_iff_toNat_lt, UInt8.lt_iff_toNat_lt]
        simp only [UInt8.reduceToNat]
        omega
      grind
    have ih := ih h.2
    simp only [escape] at ih ⊢
    rw [List.flatMap_cons, hplain, ih, List.singleton_append]

/-- No NUL in an escaped text. -/
theorem escape_ne_zero {s : List UInt8} : ∀ c ∈ escape s, c ≠ 0 := by
  have hbyte : ∀ b : UInt8, ∀ c ∈ escapeByte b, c ≠ 0 := by
    rw [UInt8.forall_iff_fin]
    decide +kernel
  intro c hc
  obtain ⟨b, -, hb⟩ := List.mem_flatMap.mp hc
  exact hbyte b c hb

/-- An escaped character: a backslash, and what the loop writes behind it, with a terminator
    behind a control code. -/
theorem copyString_escape {c : UInt8} (hplain : ¬(c > 31 ∧ c ≠ quote ∧ c ≠ backslash)) :
    ∃ text tail, escapeByte c = backslash :: text ∧ tail.length ≤ 1 ∧
      ∀ input i p, copyString (c :: input) i p =
        (p.write i [backslash] >>= fun p => p.write (i + 1) (text ++ tail)) >>= fun p =>
          copyString input (i + (text.length + 1)) p := by
  have hcomm : c = backslash ∨ c = quote ↔ c = quote ∨ c = backslash := Or.comm
  unfold escapeByte
  -- one case for each escape of the source, in its order
  by_cases h₁ : c = quote ∨ c = backslash
  · refine ⟨[c], [], by rw [if_pos h₁], Nat.zero_le _, fun input i p => ?_⟩
    simp only [copyString, if_neg hplain, hcomm, if_pos h₁, bind_assoc]
    rfl
  rw [if_neg h₁]
  by_cases h₂ : c = 0x08
  · refine ⟨[0x62], [], by rw [if_pos h₂], Nat.zero_le _, fun input i p => ?_⟩
    simp only [copyString, if_neg hplain, hcomm, if_neg h₁, if_pos h₂, bind_assoc]
    rfl
  rw [if_neg h₂]
  by_cases h₃ : c = 0x0C
  · refine ⟨[0x66], [], by rw [if_pos h₃], Nat.zero_le _, fun input i p => ?_⟩
    simp only [copyString, if_neg hplain, hcomm, if_neg h₁, if_neg h₂, if_pos h₃, bind_assoc]
    rfl
  rw [if_neg h₃]
  by_cases h₄ : c = 0x0A
  · refine ⟨[0x6E], [], by rw [if_pos h₄], Nat.zero_le _, fun input i p => ?_⟩
    simp only [copyString, if_neg hplain, hcomm, if_neg h₁, if_neg h₂, if_neg h₃, if_pos h₄,
      bind_assoc]
    rfl
  rw [if_neg h₄]
  by_cases h₅ : c = 0x0D
  · refine ⟨[0x72], [], by rw [if_pos h₅], Nat.zero_le _, fun input i p => ?_⟩
    simp only [copyString, if_neg hplain, hcomm, if_neg h₁, if_neg h₂, if_neg h₃, if_neg h₄,
      if_pos h₅, bind_assoc]
    rfl
  rw [if_neg h₅]
  by_cases h₆ : c = 0x09
  · refine ⟨[0x74], [], by rw [if_pos h₆], Nat.zero_le _, fun input i p => ?_⟩
    simp only [copyString, if_neg hplain, hcomm, if_neg h₁, if_neg h₂, if_neg h₃, if_neg h₄,
      if_neg h₅, if_pos h₆, bind_assoc]
    rfl
  rw [if_neg h₆]
  have h₇ : c < 0x20 := by
    rw [UInt8.lt_iff_toNat_lt]
    by_contra hge
    apply hplain
    rw [not_or] at h₁
    refine ⟨UInt8.lt_iff_toNat_lt.mpr ?_, h₁⟩
    simp only [UInt8.reduceToNat] at hge ⊢
    omega
  refine ⟨sprintfU c, [0], by rw [if_pos h₇]; rfl, Nat.le_refl _, fun input i p => ?_⟩
  simp only [copyString, if_neg hplain, hcomm, if_neg h₁, if_neg h₂, if_neg h₃, if_neg h₄,
    if_neg h₅, if_neg h₆, bind_assoc]
  rfl

section

variable {hooks : Hooks} {p : PrintBuffer} {out : List UInt8} {total : Nat}

/-- A backslash and what is written behind it. -/
theorem write_escape {a rest : List UInt8} (text : List UInt8) (hbuffer : p.buffer = a ++ rest)
    (hlen : text.length + 1 ≤ rest.length) :
    (p.write a.length [backslash] >>= fun p => p.write (a.length + 1) text) =
      .ok { p with buffer := a ++ backslash :: text ++ rest.drop (text.length + 1) } := by
  have h₁ := p.write_append [backslash] hbuffer (by rw [List.length_singleton]; omega)
  have h₂ := PrintBuffer.write_append (p := { p with
      buffer := a ++ [backslash] ++ rest.drop [backslash].length }) text rfl
    (by rw [List.length_drop, List.length_singleton]; omega)
  rw [List.length_append, List.length_singleton] at h₂
  simp only [h₁, bind, Except.bind, List.length_singleton] at h₂ ⊢
  rw [h₂, List.drop_drop]
  simp [Nat.add_comm]

/-- The loop writes the escaped form of a character and goes on behind it. -/
theorem copyString_cons (c : UInt8) (input : List UInt8) {a rest : List UInt8}
    (hbuffer : p.buffer = a ++ rest) (hlen : (escapeByte c).length + 1 ≤ rest.length) :
    ∃ rest', rest'.length + (escapeByte c).length = rest.length ∧
      copyString (c :: input) a.length p =
        copyString input (a ++ escapeByte c).length
          { p with buffer := a ++ escapeByte c ++ rest' } := by
  by_cases hplain : c > 31 ∧ c ≠ quote ∧ c ≠ backslash
  · rw [escapeByte_of_plain hplain] at hlen ⊢
    rw [List.length_singleton] at hlen
    have hwrite := p.write_append [c] hbuffer (by rw [List.length_singleton]; omega)
    refine ⟨rest.drop [c].length, ?_, ?_⟩
    · rw [List.length_drop, List.length_singleton]
      omega
    · simp only [copyString, if_pos hplain, hwrite, bind, Except.bind, List.length_append,
        List.length_singleton]
  · -- the NUL `sprintf` writes behind the digits is overwritten
    obtain ⟨text, tail, htext, htail, hcopy⟩ := copyString_escape hplain
    rw [htext] at hlen ⊢
    rw [List.length_cons] at hlen
    have hwrite := write_escape (text ++ tail) hbuffer
      (by rw [List.length_append]; omega)
    refine ⟨tail ++ rest.drop ((text ++ tail).length + 1), ?_, ?_⟩
    · simp only [List.length_append, List.length_drop, List.length_cons]
      omega
    · rw [hcopy, hwrite]
      simp [bind, Except.bind]

/-- The loop writes the escaped form of the string. -/
theorem copyString_eq (input : List UInt8) {a rest : List UInt8} (hbuffer : p.buffer = a ++ rest)
    (hlen : (escape input).length + 1 ≤ rest.length) :
    ∃ rest', rest'.length + (escape input).length = rest.length ∧
      copyString input a.length p = .ok { p with buffer := a ++ escape input ++ rest' } := by
  induction input generalizing a rest p with
  | nil =>
    refine ⟨rest, by simp [escape], ?_⟩
    simp only [copyString, escape, List.flatMap_nil, List.append_nil, ← hbuffer]
  | cons c input ih =>
    have hcons : escape (c :: input) = escapeByte c ++ escape input := List.flatMap_cons
    rw [hcons, List.length_append] at hlen ⊢
    -- the first byte, and the others behind it
    obtain ⟨rest₁, hlen₁, hcopy₁⟩ := copyString_cons c input hbuffer (by omega)
    obtain ⟨rest₂, hlen₂, hcopy₂⟩ := @ih { p with buffer := a ++ escapeByte c ++ rest₁ } _ _ rfl
      (by omega)
    refine ⟨rest₂, by omega, ?_⟩
    rw [hcopy₁, hcopy₂, List.append_assoc a]

/-- Between the quotes, a string is copied or escaped, with the same result. -/
theorem writeString_eq (s : List UInt8) {a rest : List UInt8} (hbuffer : p.buffer = a ++ rest)
    (hlen : (escape s).length + 1 ≤ rest.length) :
    ∃ rest', rest'.length + (escape s).length = rest.length ∧
      writeString (s.map escapeCharacters).sum s a.length p =
        .ok { p with buffer := a ++ escape s ++ rest' } := by
  unfold writeString
  by_cases hzero : (s.map escapeCharacters).sum = 0
  · rw [if_pos hzero, escape_eq_self hzero] at *
    refine ⟨rest.drop s.length, ?_, p.write_append s hbuffer (by omega)⟩
    rw [List.length_drop]
    omega
  · rw [if_neg hzero]
    exact copyString_eq s hbuffer hlen

/-- The quotation marks take two bytes. -/
theorem length_quoted (t : List UInt8) : (quoted t).length = t.length + 2 := by
  simp only [quoted, List.length_append, List.length_cons, List.length_nil]

/-- A text between two signs. -/
theorem enclosed_ne_zero {x y : UInt8} {text : List UInt8} (hx : x ≠ 0)
    (htext : ∀ c ∈ text, c ≠ 0) (hy : y ≠ 0) : ∀ c ∈ x :: text ++ [y], c ≠ 0 := by
  intro c hc
  obtain hc | hc := List.mem_append.mp hc
  · obtain rfl | hc := List.mem_cons.mp hc
    · exact hx
    · exact htext c hc
  · rw [List.mem_singleton.mp hc]
    exact hy

/-- A string between its quotes. -/
theorem quoted_ne_zero {s : List UInt8} : ∀ c ∈ quoted (escape s), c ≠ 0 :=
  enclosed_ne_zero (by decide) escape_ne_zero (by decide)

/-- A string is printed with its quotes and a terminator. -/
theorem printStringPtr_meets (hsized : hooks.Sized) (h : Printed hooks p out)
    (input : Option (List UInt8))
    (htotal : out.length + (quoted (escape (cString (input.getD [])))).length ≤ total) :
    (printStringPtr input p).Meets (Refused hooks total)
      (Terminated hooks · (out ++ quoted (escape (cString (input.getD []))))) := by
  rw [length_quoted] at htotal
  cases input with
  | none =>
    refine (p.ensure_meets hsized h 3 (by simp only [Option.getD_none] at htotal; omega)).bind
      fun p₁ hp₁ => ?_
    obtain ⟨hp₁, hroom⟩ := hp₁
    obtain ⟨rest, hrest, hbuffer⟩ := hp₁.buffer
    have hlen := congrArg List.length hbuffer
    rw [List.length_append] at hlen
    have hwrite := p₁.write_append [quote, quote, 0] hbuffer
      (by simp only [List.length_cons, List.length_nil]; omega)
    rw [← hp₁.offset] at hwrite
    rw [hwrite]
    refine ⟨hp₁.hooks, ?_, ?_, rest.drop 3, ?_⟩
    · simp only [hp₁.offset, List.length_append]
      omega
    · simp only [hp₁.offset, List.drop_left]
      exact quoted_ne_zero
    · simp [quoted, cString, escape]
  | some input =>
    simp only [printStringPtr, Option.map_some, Option.getD_some] at htotal ⊢
    generalize cString input = s at htotal ⊢
    have hescape := length_escape s
    refine (p.ensure_meets hsized h _ (by omega)).bind fun p₁ hp₁ => ?_
    obtain ⟨hp₁, hroom⟩ := hp₁
    obtain ⟨rest, hrest, hbuffer⟩ := hp₁.buffer
    have hlen := congrArg List.length hbuffer
    rw [List.length_append] at hlen
    have hwrite := p₁.write_append [quote] hbuffer (by rw [List.length_singleton]; omega)
    rw [← hp₁.offset] at hwrite
    -- the text between the quotation marks
    obtain ⟨rest', hrest', hbody⟩ := writeString_eq (p := { p₁ with
        buffer := out ++ [quote] ++ rest.drop [quote].length }) s rfl
      (by rw [List.length_drop, List.length_singleton]; omega)
    rw [List.length_drop, List.length_singleton] at hrest'
    have hindex : (out ++ [quote]).length = p₁.offset + 1 := by
      rw [hp₁.offset, List.length_append, List.length_singleton]
    have hclose := PrintBuffer.write_append (p := { p₁ with
        buffer := out ++ [quote] ++ escape s ++ rest' }) [quote, 0] rfl
      (by simp only [List.length_cons, List.length_nil]; omega)
    have hindex' : (out ++ [quote] ++ escape s).length =
        p₁.offset + (s.length + (s.map escapeCharacters).sum + 1) := by
      rw [List.length_append, hindex, hescape]
      omega
    rw [hindex] at hbody
    rw [hindex'] at hclose
    simp only [hwrite, hbody, hclose, bind, Except.bind]
    refine ⟨hp₁.hooks, ?_, ?_, rest'.drop 2, ?_⟩
    · simp only [hp₁.offset, List.length_append]
      omega
    · simp only [hp₁.offset, List.drop_left]
      exact quoted_ne_zero
    · simp [quoted]

end

/-! ## Numbers -/

/-- `sprintf` with 15 or 17 digits fits into the buffer of `print_number`. -/
structure Doubles.PrintsShort (F : Doubles D) : Prop where
  length_le : ∀ precision d, precision = 15 ∨ precision = 17 →
    (F.sprintfG precision d).length ≤ 25
  ne_zero : ∀ precision d, ∀ c ∈ F.sprintfG precision d, c ≠ 0

/-- The text of a number. -/
def Doubles.text (F : Doubles D) (d : D) : List UInt8 :=
  if F.isNanOrInf d then Json.nullText
  else if F.eq d (F.ofInt (F.saturate d)) then sprintfD (F.saturate d)
  else if F.recovers (F.sprintfG 15 d) d then F.sprintfG 15 d
  else F.sprintfG 17 d

/-- A whole number fits the buffer. -/
theorem length_sprintfD_le (i : Int32) : (sprintfD i).length ≤ 25 := by
  have hlt := i.toInt_lt
  have hle := i.le_toInt
  have := Json.length_decimal_le (i := i.toInt) (k := 10) (by decide) (by omega)
  exact Nat.le_trans this (by decide)

/-- No NUL in a whole number. -/
theorem sprintfD_ne_zero {i : Int32} : ∀ c ∈ sprintfD i, c ≠ 0 := by
  rintro c hc rfl
  obtain h | h := Json.mem_decimal hc
  · exact absurd h (by decide)
  · exact absurd h.1 (by decide)

/-- The text fits the buffer. -/
theorem numberBuffer_eq {text : List UInt8} (h : text.length ≤ 25) :
    numberBuffer text = .ok text := if_pos (by omega)

/-- The text of a number fits into its buffer. -/
theorem numberText_eq (hF : F.PrintsShort) (d : D) :
    numberText F (F.saturate d) d = .ok (F.text d) ∧ (F.text d).length ≤ 25 ∧
      ∀ c ∈ F.text d, c ≠ 0 := by
  have h₁₅ := hF.length_le 15 d (.inl rfl)
  have h₁₇ := hF.length_le 17 d (.inr rfl)
  unfold numberText Doubles.text
  split
  · exact ⟨numberBuffer_eq (by decide), by decide, Json.nullText_ne_zero⟩
  · split
    · exact ⟨numberBuffer_eq (length_sprintfD_le _), length_sprintfD_le _, sprintfD_ne_zero⟩
    · -- 15 digits, or 17 if they are not read back
      simp only [numberBuffer_eq h₁₅, numberBuffer_eq h₁₇, bind, Except.bind]
      split
      · exact ⟨rfl, h₁₅, hF.ne_zero 15 d⟩
      · exact ⟨rfl, h₁₇, hF.ne_zero 17 d⟩

section

variable {hooks : Hooks} {p : PrintBuffer} {out : List UInt8} {total : Nat}

/-- A number is printed with a terminator. -/
theorem printNumber_meets (hF : F.PrintsShort) (hsized : hooks.Sized) (h : Printed hooks p out)
    (d : D) (htotal : out.length + (F.text d).length ≤ total) :
    (printNumber F (F.saturate d) d p).Meets (Refused hooks total)
      (Terminated hooks · (out ++ F.text d)) := by
  obtain ⟨htext, hshort, hzero⟩ := numberText_eq hF d
  simp only [printNumber, htext, bind, Except.bind, if_neg (by omega : ¬(F.text d).length > 25)]
  refine (p.ensure_meets hsized h ((F.text d).length + 1) (by omega)).bind fun p₁ hp₁ => ?_
  obtain ⟨hp₁, hroom⟩ := hp₁
  obtain ⟨rest, hrest, hbuffer⟩ := hp₁.buffer
  have hlen := congrArg List.length hbuffer
  rw [List.length_append] at hlen
  -- the digits and the NUL
  have hwrite := p₁.write_append (F.text d ++ [0]) hbuffer
    (by rw [List.length_append, List.length_singleton]; omega)
  rw [← hp₁.offset] at hwrite
  rw [hwrite]
  refine ⟨hp₁.hooks, ?_, ?_, rest.drop (F.text d ++ [0]).length, ?_⟩
  · simp only [hp₁.offset, List.length_append]
    omega
  · intro c hc
    rw [List.drop_of_length_le] at hc
    · cases hc
    · simp only [hp₁.offset, List.length_append]
      omega
  · simp

/-! ## Values -/

/-- A string without a zero byte is printed as it is. -/
theorem printString_meets (hsized : hooks.Sized) (h : Printed hooks p out)
    (input : Option (List UInt8)) (hzero : ∀ c ∈ input.getD [], c ≠ 0)
    (htotal : out.length + (quoted (escape (input.getD []))).length ≤ total) :
    (printStringPtr input p).Meets (Refused hooks total)
      (Terminated hooks · (out ++ quoted (escape (input.getD [])))) := by
  have hstring := cString_of_ne_zero hzero
  rw [← hstring] at htotal ⊢
  exact printStringPtr_meets hsized h input htotal

/-- The terminator of what has been printed is found. -/
theorem updateOffset_meets {E : Stop → Prop} (h : Terminated hooks p out) :
    p.updateOffset.Meets E (Ended hooks · out) := by
  obtain ⟨p', heq, hp'⟩ := p.updateOffset_eq h
  rw [heq]
  exact hp'

end

/-- No string in a value holds a zero byte. -/
def NoZero (v : Json D) : Prop := AllTokens (fun s => ∀ c ∈ s, c ≠ 0) (fun _ => True) v

section

variable {hooks : Hooks} {total : Nat}

mutual

/-- A value is printed behind what has been printed, with a terminator. -/
theorem printValue_meets (hF : F.PrintsShort) (hsized : hooks.Sized) :
    ∀ item : Item D, item.WellFormed F → NoZero item.value →
      ∀ {p : PrintBuffer} {out : List UInt8}, Printed hooks p out →
        out.length + (render F.text item.value).length ≤ total →
        (printValue F item p).Meets (Refused hooks total)
          (Terminated hooks · (out ++ render F.text item.value))
  | ⟨type, valuestring, valueint, valuedouble, string, child⟩, hwf, hzero, p, out, hp, htotal => by
    cases type with
    | invalid => exact absurd hwf (by simp only [Item.WellFormed]; exact id)
    | raw => exact absurd hwf (by simp only [Item.WellFormed]; exact id)
    | null =>
      simp only [Item.value, render] at htotal ⊢
      exact printLiteral_meets hsized hp Json.nullText_ne_zero htotal
    | false =>
      simp only [Item.value, render] at htotal ⊢
      exact printLiteral_meets hsized hp Json.falseText_ne_zero htotal
    | true =>
      simp only [Item.value, render] at htotal ⊢
      exact printLiteral_meets hsized hp Json.trueText_ne_zero htotal
    | number =>
      simp only [Item.WellFormed] at hwf
      simp only [Item.value, render] at htotal ⊢
      rw [hwf.2.1]
      exact printNumber_meets hF hsized hp valuedouble htotal
    | string =>
      simp only [NoZero, Item.value, AllTokens] at hzero
      simp only [Item.value, render] at htotal ⊢
      exact printString_meets hsized hp valuestring hzero htotal
    | array =>
      simp only [Item.WellFormed] at hwf
      simp only [NoZero, Item.value, AllTokens] at hzero
      simp only [Item.value, render, List.length_append, List.length_cons] at htotal ⊢
      simp only [printValue]
      refine (printChar_printed hsized hp (Nat.le_refl 1) (by omega)).bind fun p₁ hp₁ => ?_
      -- the elements between the brackets
      refine (printElements_meets hF hsized child hwf.2 hzero hp₁
        (by simp only [List.length_append, List.length_singleton]; omega)).bind fun p₂ hp₂ => ?_
      refine (printChar_terminated hsized hp₂ (by decide)
        (by simp only [List.length_append, List.length_singleton]; omega)).mono fun p₃ hp₃ => ?_
      simpa using hp₃
    | object =>
      simp only [Item.WellFormed] at hwf
      simp only [NoZero, Item.value, AllTokens] at hzero
      simp only [Item.value, render, List.length_append, List.length_cons] at htotal ⊢
      simp only [printValue]
      refine (printChar_printed hsized hp (Nat.le_succ 1) (by omega)).bind fun p₁ hp₁ => ?_
      -- the members between the braces
      refine (printMembers_meets hF hsized child hwf.2 hzero hp₁
        (by simp only [List.length_append, List.length_singleton]; omega)).bind fun p₂ hp₂ => ?_
      refine (printChar_terminated hsized hp₂ (by decide)
        (by simp only [List.length_append, List.length_singleton]; omega)).mono fun p₃ hp₃ => ?_
      simpa using hp₃

/-- The elements of an array are printed with commas between them. -/
theorem printElements_meets (hF : F.PrintsShort) (hsized : hooks.Sized) :
    ∀ child : List (Item D), ElementsWellFormed F child →
      AllTokensItems (fun s => ∀ c ∈ s, c ≠ 0) (fun _ => True) (values child) →
      ∀ {p : PrintBuffer} {out : List UInt8}, Printed hooks p out →
        out.length + (renderItems F.text (values child)).length + 1 ≤ total →
        (printElements F child p).Meets (Refused hooks total)
          (Printed hooks · (out ++ renderItems F.text (values child)))
  | [], _, _, p, out, hp, _ => by
    simp only [values, renderItems, List.append_nil, printElements]
    exact hp
  | [item], hwf, hzero, p, out, hp, htotal => by
    simp only [ElementsWellFormed] at hwf
    simp only [values, AllTokensItems] at hzero
    simp only [values, renderItems] at htotal ⊢
    simp only [printElements]
    refine (printValue_meets hF hsized item hwf.1.2 hzero.1 hp (by omega)).bind fun p₁ hp₁ => ?_
    exact (updateOffset_meets hp₁).mono fun p₂ hp₂ => hp₂.printed
  | item :: next :: child, hwf, hzero, p, out, hp, htotal => by
    simp only [ElementsWellFormed] at hwf
    simp only [values, AllTokensItems] at hzero
    simp only [values, renderItems, List.length_append, List.length_cons] at htotal ⊢
    simp only [printElements]
    refine (printValue_meets hF hsized item hwf.1.2 hzero.1 hp (by omega)).bind fun p₁ hp₁ => ?_
    refine (updateOffset_meets hp₁).bind fun p₂ hp₂ => ?_
    refine (printChar_printed hsized hp₂.printed (Nat.le_refl 2)
      (by simp only [List.length_append]; omega)).bind fun p₃ hp₃ => ?_
    -- a comma, and the elements behind it
    have hrest := printElements_meets hF hsized (next :: child)
      (by simp only [ElementsWellFormed]; exact hwf.2)
      (by simp only [values, AllTokensItems]; exact hzero.2) hp₃
      (by simp only [values, List.length_append, List.length_singleton]; omega)
    refine hrest.mono fun p₄ hp₄ => ?_
    simpa [values] using hp₄

/-- The members of an object are printed with commas between them. -/
theorem printMembers_meets (hF : F.PrintsShort) (hsized : hooks.Sized) :
    ∀ child : List (Item D), MembersWellFormed F child →
      AllTokensMembers (fun s => ∀ c ∈ s, c ≠ 0) (fun _ => True) (members child) →
      ∀ {p : PrintBuffer} {out : List UInt8}, Printed hooks p out →
        out.length + (renderMembers F.text (members child)).length + 1 ≤ total →
        (printMembers F child p).Meets (Refused hooks total)
          (Printed hooks · (out ++ renderMembers F.text (members child)))
  | [], _, _, p, out, hp, _ => by
    simp only [members, renderMembers, List.append_nil, printMembers]
    exact hp
  | [item], hwf, hzero, p, out, hp, htotal => by
    simp only [MembersWellFormed] at hwf
    simp only [members, AllTokensMembers] at hzero
    simp only [members, renderMembers, List.length_append, List.length_cons] at htotal ⊢
    simp only [printMembers]
    refine (printString_meets hsized hp item.string hzero.1.1 (by omega)).bind fun p₁ hp₁ => ?_
    refine (updateOffset_meets hp₁).bind fun p₂ hp₂ => ?_
    refine (printChar_printed hsized hp₂.printed (Nat.le_refl 1)
      (by simp only [List.length_append]; omega)).bind fun p₃ hp₃ => ?_
    refine (printValue_meets hF hsized item hwf.1.2 hzero.1.2 hp₃
      (by simp only [List.length_append, List.length_singleton]; omega)).bind fun p₄ hp₄ => ?_
    refine (updateOffset_meets hp₄).bind fun p₅ hp₅ => ?_
    refine (printChar_meets hsized hp₅.printed (Nat.le_refl 1)
      (by simp only [List.length_append, List.length_singleton]; omega)).mono fun p₆ hp₆ => ?_
    obtain ⟨hhooks, hoff, rest, hrest, hbuffer⟩ := hp₆
    refine ⟨hhooks, ?_, 0 :: rest, List.cons_ne_nil _ _, ?_⟩
    · rw [hoff]
      simp
    · rw [hbuffer]
      simp
  | item :: next :: child, hwf, hzero, p, out, hp, htotal => by
    simp only [MembersWellFormed] at hwf
    simp only [members, AllTokensMembers] at hzero
    simp only [members, renderMembers, List.length_append, List.length_cons] at htotal ⊢
    simp only [printMembers]
    refine (printString_meets hsized hp item.string hzero.1.1 (by omega)).bind fun p₁ hp₁ => ?_
    refine (updateOffset_meets hp₁).bind fun p₂ hp₂ => ?_
    refine (printChar_printed hsized hp₂.printed (Nat.le_refl 1)
      (by simp only [List.length_append]; omega)).bind fun p₃ hp₃ => ?_
    refine (printValue_meets hF hsized item hwf.1.2 hzero.1.2 hp₃
      (by simp only [List.length_append, List.length_singleton]; omega)).bind fun p₄ hp₄ => ?_
    refine (updateOffset_meets hp₄).bind fun p₅ hp₅ => ?_
    refine (printChar_printed hsized hp₅.printed (Nat.le_refl 2)
      (by simp only [List.length_append, List.length_singleton]; omega)).bind fun p₆ hp₆ => ?_
    -- a comma, and the members behind it
    have hrest := printMembers_meets hF hsized (next :: child)
      (by simp only [MembersWellFormed]; exact hwf.2)
      (by simp only [members, AllTokensMembers]; exact hzero.2) hp₆
      (by simp only [members, List.length_append, List.length_singleton]; omega)
    refine hrest.mono fun p₇ hp₇ => ?_
    simpa [members] using hp₇

end

/-! ## Whole texts -/

/-- The copy that is returned. -/
theorem printed_meets (hsized : hooks.Sized) {p : PrintBuffer} {out : List UInt8}
    (h : Ended hooks p out) (htotal : out.length ≤ total) :
    p.printed.Meets (Refused hooks total) (· = out ++ [0]) := by
  unfold PrintBuffer.printed
  obtain ⟨rest, hbuffer⟩ := h.buffer
  rw [h.hooks, h.offset]
  cases hblock : hooks.block p.allocated (out.length + 1) with
  | none =>
    refine ⟨rfl, fun hok => ?_⟩
    have := hok.1 p.allocated (out.length + 1) (by omega)
    rw [hblock] at this
    cases this
  | some block =>
    have hlen := hsized _ _ _ hblock
    -- the text and its NUL are copied
    have htake : p.buffer.take (out.length + 1) = out ++ [0] := by
      rw [hbuffer, List.take_append, List.take_of_length_le (by omega)]
      simp
    have hdrop : block.drop p.buffer.length = [] := by
      rw [List.drop_eq_nil_iff, hbuffer, List.length_append, List.length_cons]
      omega
    have hdrop' : block.drop (out ++ [0]).length = [] := by
      rw [List.drop_eq_nil_iff, List.length_append, List.length_singleton]
      omega
    simp only [htake, hdrop, hdrop', List.append_nil]
    split
    · exact rfl
    · rw [if_pos (by simp only [List.length_append, List.length_singleton]; omega)]
      simp

/-- `cJSON_PrintUnformatted` returns the text of the item with its terminator, or fails for want
    of a block or because the text is too long. -/
theorem cJsonPrintUnformatted_meets (hF : F.PrintsShort) (hsized : hooks.Sized) {item : Item D}
    (hwf : item.WellFormed F) (hzero : NoZero item.value) :
    (cJsonPrintUnformatted F hooks item).Meets
      (Refused hooks (render F.text item.value).length) (· = render F.text item.value ++ [0]) := by
  unfold cJsonPrintUnformatted
  cases hblock : hooks.block 0 256 with
  | none =>
    refine ⟨rfl, fun hok => ?_⟩
    have := hok.1 0 256 (by decide)
    rw [hblock] at this
    cases this
  | some block =>
    have hlen := hsized _ _ _ hblock
    -- nothing is printed yet
    have hstart : Printed hooks ⟨block, 0, hooks, 1⟩ [] :=
      ⟨rfl, rfl, block, List.length_pos_iff.mp (by omega), rfl⟩
    refine (printValue_meets hF hsized item hwf hzero hstart (by simp)).bind fun p₁ hp₁ => ?_
    refine (updateOffset_meets hp₁).bind fun p₂ hp₂ => ?_
    exact printed_meets hsized hp₂ (Nat.le_refl _)

end

section

variable {number : D → List UInt8}

mutual

/-- What is printed has no zero byte in it, if no number has. -/
theorem render_ne_zero (hnumber : ∀ n, ∀ c ∈ number n, c ≠ 0) :
    ∀ v : Json D, ∀ c ∈ v.render number, c ≠ 0
  | .null => by simp only [render]; exact Json.nullText_ne_zero
  | .bool true => by simp only [render]; exact Json.trueText_ne_zero
  | .bool false => by simp only [render]; exact Json.falseText_ne_zero
  | .number n => by simp only [render]; exact hnumber n
  | .string s => by simp only [render]; exact quoted_ne_zero
  | .array items => by
    simp only [render]
    exact enclosed_ne_zero (by decide) (renderItems_ne_zero hnumber items) (by decide)
  | .object ms => by
    simp only [render]
    exact enclosed_ne_zero (by decide) (renderMembers_ne_zero hnumber ms) (by decide)

/-- No NUL in the text of items. -/
theorem renderItems_ne_zero (hnumber : ∀ n, ∀ c ∈ number n, c ≠ 0) :
    ∀ vs : List (Json D), ∀ c ∈ renderItems number vs, c ≠ 0
  | [] => by simp [renderItems]
  | [v] => by simp only [renderItems]; exact render_ne_zero hnumber v
  | v :: v' :: vs => by
    have hv := render_ne_zero hnumber v
    have hvs := renderItems_ne_zero hnumber (v' :: vs)
    simp only [renderItems]
    intro c hc
    obtain hc | hc := List.mem_append.mp hc
    · exact hv c hc
    · obtain rfl | hc := List.mem_cons.mp hc
      · decide
      · exact hvs c hc

/-- No NUL in the text of members. -/
theorem renderMembers_ne_zero (hnumber : ∀ n, ∀ c ∈ number n, c ≠ 0) :
    ∀ ms : List (List UInt8 × Json D), ∀ c ∈ renderMembers number ms, c ≠ 0
  | [] => by simp [renderMembers]
  | [(s, v)] => by
    have hv := render_ne_zero hnumber v
    simp only [renderMembers]
    intro c hc
    obtain hc | hc := List.mem_append.mp hc
    · exact quoted_ne_zero c hc
    · obtain rfl | hc := List.mem_cons.mp hc
      · decide
      · exact hv c hc
  | (s, v) :: m :: ms => by
    have hv := render_ne_zero hnumber v
    have hms := renderMembers_ne_zero hnumber (m :: ms)
    simp only [renderMembers]
    intro c hc
    obtain hc | hc := List.mem_append.mp hc
    · exact quoted_ne_zero c hc
    · obtain rfl | hc := List.mem_cons.mp hc
      · decide
      · obtain hc | hc := List.mem_append.mp hc
        · exact hv c hc
        · obtain rfl | hc := List.mem_cons.mp hc
          · decide
          · exact hms c hc

end

end

end EspTesting.CJson
