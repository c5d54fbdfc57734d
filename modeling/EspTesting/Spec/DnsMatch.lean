import EspTesting.ForStd.Labels
import EspTesting.Native.DnsServer

/-!
# The DNS name matcher

`dns_hostname_match` walks along the labels of the packet and the characters of the host name
at the same time, and skips a dot of the host name wherever it stands behind a label. What it
accepts are the labels that spell the host name in this way (`Spells`), closed by a byte zero
that may lie one byte behind the packet. These are the labels of the components of the host
name only if the labels end where the components do.

## Key results

- `dnsHostnameMatch_eq_true_iff`: what the matcher accepts
- `spells_hostnameOf_iff`: the labels of the components, among those that spell the host name
- `dnsHostnameMatch_correct_iff`
-/

namespace EspTesting.Dns

open Labels

variable {packet : Nat → UInt8} {len : Nat} {h h' : List UInt8} {ls : List Label}

/-- The labels spell the host name, when a dot is skipped behind each label that a dot
    follows. -/
def Spells : List UInt8 → List Label → Prop
  | h, [] => h = []
  | h, l :: ls => lower (h.take l.length) = lower l ∧ Spells (skipDot (h.drop l.length)) ls

/-! ## The loops -/

/-- Every turn comes closer to the end of the packet. -/
theorem decreases_matchLoop (packet : Nat → UInt8) (len : Nat) :
    Loop.Decreases (MatchLoop.more packet len) (MatchLoop.next packet len)
      (MatchLoop.measure len) := by
  intro s hmore
  simp only [MatchLoop.more, Bool.and_eq_true, Bool.not_eq_true', decide_eq_true_eq] at hmore
  obtain ⟨⟨⟨hfailed, hlt⟩, _⟩, _⟩ := hmore
  unfold MatchLoop.next
  dsimp only
  split
  · simp [MatchLoop.measure, hfailed]
  · split
    · simp [MatchLoop.measure, hfailed]
    · simp only [MatchLoop.measure, hfailed, Bool.false_eq_true, if_false]
      omega

/-- The loop over a label compares it with as many characters of the host name. -/
theorem matchLabel_eq_some_iff {offset n : Nat} : matchLabel packet offset n h = some h' ↔
    lower (h.take n) = lower (block packet offset n) ∧ h' = h.drop n := by
  induction n generalizing offset h with
  | zero =>
    simp [matchLabel, block, lower, eq_comm]
  | succ n ih =>
    rw [block_succ]
    cases h with
    -- the host name ends first
    | nil => simp [matchLabel, lower]
    | cons c h =>
      simp only [matchLabel, ne_eq, ite_not, List.take_succ_cons, List.drop_succ_cons, lower,
        List.map_cons, List.cons.injEq]
      split
      · rename_i hsame
        rw [ih]
        simp [lower, hsame]
      · rename_i hdiff
        rw [eq_comm] at hdiff
        simp [hdiff]

/-- A label that does not match differs. -/
theorem matchLabel_eq_none {offset n : Nat} (hnone : matchLabel packet offset n h = none) :
    lower (h.take n) ≠ lower (block packet offset n) := by
  intro hsame
  have hsome := matchLabel_eq_some_iff.mpr ⟨hsame, rfl⟩
  exact absurd (hsome.symm.trans hnone) (Option.some_ne_none _)

/-- The rest of the packet holds labels that spell the rest of the host name. -/
def MatchLoop.Accepts (packet : Nat → UInt8) (len : Nat) (s : MatchLoop) : Prop :=
  s.failed = false ∧
    ∃ ls, Closed packet s.offset ls ∧ s.offset + size ls ≤ len ∧ Spells s.h ls

/-- The labels accepted begin with one of the length that the packet gives. -/
theorem MatchLoop.accepts_iff_cons {s : MatchLoop} (hfailed : s.failed = false)
    (hne : packet s.offset ≠ 0) :
    s.Accepts packet len ↔ s.offset + 1 + (packet s.offset).toNat ≤ len ∧
      lower (s.h.take (packet s.offset).toNat) =
        lower (block packet (s.offset + 1) (packet s.offset).toNat) ∧
      ∃ ls, Closed packet (s.offset + 1 + (packet s.offset).toNat) ls ∧
        s.offset + 1 + (packet s.offset).toNat + size ls ≤ len ∧
        Spells (skipDot (s.h.drop (packet s.offset).toNat)) ls := by
  constructor
  · rintro ⟨_, ls, ⟨hwire, hzero⟩, hsize, hspell⟩
    cases ls with
    | nil => exact absurd hzero hne
    | cons l ls =>
      -- the first label has the length that is written there
      obtain ⟨_, hlen, hblock, hrest⟩ := hwire
      simp only [size] at hsize hzero
      rw [hlen, hblock]
      refine ⟨by omega, hspell.1, ls, ⟨?_, ?_⟩, by omega, hspell.2⟩
      · rwa [Nat.add_assoc, Nat.add_comm 1]
      · rwa [Nat.add_assoc s.offset 1, Nat.add_comm 1, Nat.add_assoc s.offset]
  · rintro ⟨hle, hsame, ls, ⟨hwire, hzero⟩, hsize, hspell⟩
    refine ⟨hfailed, block packet (s.offset + 1) (packet s.offset).toNat :: ls,
      ⟨⟨?_, ?_, ?_, ?_⟩, ?_⟩, ?_, ?_, ?_⟩
    · intro hnil
      have hzero' := congrArg List.length hnil
      rw [length_block] at hzero'
      exact hne (UInt8.toNat_inj.mp hzero')
    · rw [length_block]
    · rw [length_block]
    · rwa [length_block, Nat.add_comm _ 1, ← Nat.add_assoc]
    · rwa [size, length_block, Nat.add_comm _ 1, ← Nat.add_assoc, ← Nat.add_assoc]
    · rw [size, length_block]
      omega
    · rw [length_block]
      exact hsame
    · rwa [length_block]

/-- A pass of the loop takes one label off. -/
theorem MatchLoop.accepts_next_iff {s : MatchLoop} (hmore : s.more packet len = true) :
    (s.next packet len).Accepts packet len ↔ s.Accepts packet len := by
  simp only [MatchLoop.more, Bool.and_eq_true, Bool.not_eq_true', decide_eq_true_eq, bne_iff_ne,
    ne_eq] at hmore
  obtain ⟨⟨⟨hfailed, hlt⟩, hne⟩, _⟩ := hmore
  have hpos : (packet s.offset).toNat ≠ 0 := fun hzero => hne (UInt8.toNat_inj.mp hzero)
  rw [MatchLoop.accepts_iff_cons hfailed hne]
  unfold MatchLoop.next
  dsimp only
  split
  · rename_i hlong
    exact iff_of_false (fun haccepts => Bool.noConfusion haccepts.1) (by omega)
  · rename_i hfits
    split
    · rename_i hnone
      exact iff_of_false (fun haccepts => Bool.noConfusion haccepts.1)
        fun haccepts => matchLabel_eq_none hnone haccepts.2.1
    · -- the label is one of the host name
      rename_i h hsome
      obtain ⟨hsame, rfl⟩ := matchLabel_eq_some_iff.mp hsome
      simp only [MatchLoop.Accepts, hfailed, true_and, hsame]
      exact ⟨fun hrest => ⟨by omega, hrest⟩, fun hrest => hrest.2⟩

/-- Where the loop ends, nothing of the host name is left if the rest is accepted. -/
theorem MatchLoop.accepts_iff_of_exit {s : MatchLoop} (hexit : s.more packet len = false)
    (hle : s.offset ≤ len) :
    s.Accepts packet len ↔ (!s.failed && packet s.offset == 0 && s.h.isEmpty) = true := by
  simp only [Bool.and_eq_true, Bool.not_eq_true', beq_iff_eq, List.isEmpty_iff]
  constructor
  · rintro ⟨hfailed, ls, ⟨hwire, hzero⟩, hsize, hspell⟩
    cases ls with
    | nil => exact ⟨⟨hfailed, hzero⟩, hspell⟩
    | cons l ls =>
      -- with a further label the loop would go on
      have hne := hwire.ne_zero
      obtain ⟨hl, hlen, _⟩ := hwire
      simp only [size] at hsize
      have hlt : s.offset < len := by omega
      have hh : s.h ≠ [] := by
        intro hnil
        have hspell' := congrArg List.length hspell.1
        rw [hnil, List.take_nil, length_lower, length_lower] at hspell'
        exact hl (List.length_eq_zero_iff.mp hspell'.symm)
      simp [MatchLoop.more, hfailed, hlt, hne, hh] at hexit
  · rintro ⟨⟨hfailed, hzero⟩, hempty⟩
    exact ⟨hfailed, [], ⟨trivial, hzero⟩, hle, hempty⟩

/-- The loop stays inside the packet. -/
theorem MatchLoop.offset_next_le {s : MatchLoop} (hle : s.offset ≤ len) :
    (s.next packet len).offset ≤ len := by
  unfold MatchLoop.next
  dsimp only
  split
  · exact hle
  · split
    · exact hle
    · dsimp only
      omega

/-- What the matcher accepts: labels that spell the host name, closed by a byte zero in the
    packet or right behind it. -/
theorem dnsHostnameMatch_eq_true_iff (packet : Nat → UInt8) (len : Nat) (h : List UInt8) :
    dnsHostnameMatch packet len h = true ↔
      ∃ ls, Closed packet sizeofDnsHeader ls ∧ sizeofDnsHeader + size ls ≤ len ∧ Spells h ls := by
  unfold dnsHostnameMatch
  split
  · rename_i hshort
    apply iff_of_false Bool.false_ne_true
    rintro ⟨ls, _, hsize, _⟩
    omega
  · rename_i hlong
    obtain ⟨n, _, hexit⟩ := Loop.exits_run (decreases_matchLoop packet len)
      ⟨sizeofDnsHeader, h, false⟩
    dsimp only
    generalize Loop.run _ _ _ _ = s at hexit
    -- each pass keeps the rest of the packet acceptable or not
    obtain ⟨hle, haccepts⟩ := hexit.invariant (I := fun s => s.offset ≤ len ∧
      (s.Accepts packet len ↔ MatchLoop.Accepts packet len ⟨sizeofDnsHeader, h, false⟩))
      (fun s hmore hs => ⟨s.offset_next_le hs.1, (s.accepts_next_iff hmore).trans hs.2⟩)
      ⟨Nat.le_of_not_lt hlong, Iff.rfl⟩
    rw [← MatchLoop.accepts_iff_of_exit hexit.cond_eq_false hle, haccepts]
    exact and_iff_right rfl

/-! ## The components of the host name -/

/-- The host name with the components, with dots between them. -/
def hostnameOf (comps : List Label) : List UInt8 := List.intercalate [46] comps

/-- A dot stands between the components. -/
theorem hostnameOf_cons_cons (c c' : Label) (comps : List Label) :
    hostnameOf (c :: c' :: comps) = c ++ 46 :: hostnameOf (c' :: comps) := by
  simp [hostnameOf, List.intercalate]

/-- Labels that spell the host name are its components exactly if they have their lengths. -/
theorem spells_hostnameOf_iff (comps ls : List Label) :
    Spells (hostnameOf comps) ls ∧ ls.map List.length = comps.map List.length ↔
      ls.map lower = comps.map lower := by
  -- labels that are equal but for case are equally long
  have hlengths (ls comps : List Label) (hsame : ls.map lower = comps.map lower) :
      ls.map List.length = comps.map List.length := by
    have hmap := congrArg (List.map List.length) hsame
    simpa [List.map_map, Function.comp_def] using hmap
  induction comps generalizing ls with
  | nil =>
    cases ls with
    | nil => simp [Spells, hostnameOf, List.intercalate]
    | cons l ls => simp
  | cons c comps ih =>
    cases ls with
    | nil => simp
    | cons l ls =>
      -- what is left of the host name behind the first component
      have hrest (hlen : l.length = c.length) : (hostnameOf (c :: comps)).take l.length = c ∧
          skipDot ((hostnameOf (c :: comps)).drop l.length) = hostnameOf comps := by
        rw [hlen]
        cases comps with
        | nil => simp [hostnameOf, List.intercalate, skipDot]
        | cons c' comps =>
          rw [hostnameOf_cons_cons, List.take_left, List.drop_left]
          exact ⟨rfl, rfl⟩
      constructor
      · rintro ⟨⟨hsame, hspell⟩, hlen⟩
        simp only [List.map_cons, List.cons.injEq] at hlen ⊢
        obtain ⟨htake, hdrop⟩ := hrest hlen.1
        rw [htake] at hsame
        rw [hdrop] at hspell
        exact ⟨hsame.symm, (ih ls).mp ⟨hspell, hlen.2⟩⟩
      · intro hsame
        refine ⟨?_, hlengths _ _ hsame⟩
        simp only [List.map_cons, List.cons.injEq] at hsame
        obtain ⟨htake, hdrop⟩ := hrest (by
          rw [← length_lower l, hsame.1, length_lower])
        show lower _ = lower l ∧ Spells (skipDot _) ls
        rw [htake, hdrop]
        exact ⟨hsame.1.symm, ((ih ls).mpr hsame.2).1⟩

/-- From the end of the header on the packet holds, within its bytes, a name with the
    components, in upper or lower case. -/
def HoldsName (packet : Nat → UInt8) (len : Nat) (comps : List Label) : Prop :=
  ∃ ls, Closed packet sizeofDnsHeader ls ∧ sizeofDnsHeader + size ls < len ∧
    ls.map lower = comps.map lower

/-- The matcher accepts exactly the packets with the host name if the labels that spell the host
    name, if there are any, have the lengths of its components and are closed in the packet. -/
theorem dnsHostnameMatch_correct_iff (packet : Nat → UInt8) (len : Nat) (comps : List Label) :
    (dnsHostnameMatch packet len (hostnameOf comps) = true ↔ HoldsName packet len comps) ↔
      ∀ ls, Closed packet sizeofDnsHeader ls → sizeofDnsHeader + size ls ≤ len →
        Spells (hostnameOf comps) ls →
        sizeofDnsHeader + size ls < len ∧ ls.map List.length = comps.map List.length := by
  rw [dnsHostnameMatch_eq_true_iff]
  constructor
  · -- the packet has one name only
    intro hiff ls hclosed hsize hspell
    obtain ⟨ls', hclosed', hsize', hsame⟩ := hiff.mp ⟨ls, hclosed, hsize, hspell⟩
    rw [hclosed.unique hclosed']
    exact ⟨hsize', ((spells_hostnameOf_iff comps ls').mpr hsame).2⟩
  · intro hlengths
    constructor
    · rintro ⟨ls, hclosed, hsize, hspell⟩
      obtain ⟨hlt, hlen⟩ := hlengths ls hclosed hsize hspell
      exact ⟨ls, hclosed, hlt, (spells_hostnameOf_iff comps ls).mp ⟨hspell, hlen⟩⟩
    · rintro ⟨ls, hclosed, hsize, hsame⟩
      exact ⟨ls, hclosed, by omega, ((spells_hostnameOf_iff comps ls).mpr hsame).1⟩

/-- A query for `dev.ice.local`. -/
def splitQuery : List UInt8 :=
  List.replicate 12 0 ++ 3 :: cString "dev" ++ 3 :: cString "ice" ++ 5 :: cString "local" ++
    [0, 0, 1, 0, 1]

/-- The host name `device.local` is found in the query for `dev.ice.local`. -/
theorem dnsHostnameMatch_not_correct :
    ¬(dnsHostnameMatch (fun i => splitQuery.getD i 0) 31
      (hostnameOf [cString "device", cString "local"]) = true ↔
      HoldsName (fun i => splitQuery.getD i 0) 31 [cString "device", cString "local"]) := by
  intro hiff
  obtain ⟨ls, hclosed, _, hsame⟩ := hiff.mp (by decide +kernel)
  have hls : Closed (fun i => splitQuery.getD i 0) sizeofDnsHeader
      [cString "dev", cString "ice", cString "local"] := by
    decide +kernel
  rw [hclosed.unique hls] at hsame
  exact absurd hsame (by decide +kernel)

end EspTesting.Dns
