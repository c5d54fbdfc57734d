import EspTesting.Native.St25dvNdefJson
import EspTesting.Spec.CJsonCorrect
import EspTesting.Spec.NdefRoundTrip

/-!
# JSON on the tag

A message of app names and JSON records is written with the functions of the firmware. Whatever
stood on the tag before, each JSON record that is read back holds a text that cJSON parses to the
value it was written for.

## Key results

- `writeEntries_eq`: the calls write the records that `Entry.record` says
- `ndefRead_json`: a JSON record is read back, and parsed to its value
-/

namespace EspTesting.St25dv

open CJson (Item Doubles Hooks Stop NoZero nestingLimit cJsonParse cJsonPrintUnformatted)
open Json (AllTokens render)
open Http (cString)

variable {D : Type}

/-! ## The calls -/

/-- What a call writes: the name of an app, or an item, with the blocks its printer gets. -/
inductive Entry (D : Type) where
  | appLauncher (appPackage : List UInt8)
  | json (hooks : Hooks) (item : Item D)

/-- The calls that write a message; `mb` is set on the first one, `me` on the last one. -/
def writeEntries (F : Doubles D) (mb : Bool) :
    List (Entry D) → UInt16 × Tag → Except Stop (UInt16 × Tag)
  | [], s => .ok s
  | .appLauncher appPackage :: entries, s =>
    writeEntries F false entries
      (st25dvNdefWriteAppLauncherRecord s.1 mb entries.isEmpty appPackage s.2).2
  | .json hooks item :: entries, s => do
    let (_, s) ← st25dvNdefWriteJsonRecord F hooks s.1 mb entries.isEmpty item s.2
    writeEntries F false entries s

/-- The item has a text that is read back, and the allocator has room for it. -/
structure Printable (F : Doubles D) (hooks : Hooks) (item : Item D) : Prop where
  sized : hooks.Sized
  enough : hooks.Enough
  wellFormed : item.WellFormed F
  noZero : NoZero item.value
  depth : item.value.depth ≤ nestingLimit
  rereads : AllTokens (fun _ => True) F.Rereads item.value

/-- What is to be written can be. -/
def Entry.Printable (F : Doubles D) : Entry D → Prop
  | .appLauncher _ => True
  | .json hooks item => St25dv.Printable F hooks item

/-- The record that is written. -/
def Entry.record (F : Doubles D) : Entry D → Std25dvNdefRecord
  | .appLauncher appPackage => ⟨ndefSt25dvTnfExternal, ndefAppLauncherType, appPackage⟩
  | .json _ item => ⟨ndefSt25dvTnfMime, ndefJsonType, render F.text item.value⟩

theorem Entry.tnf_le (F : Doubles D) (entry : Entry D) : (entry.record F).tnf ≤ 7 := by
  cases entry with
  | appLauncher appPackage => exact (by decide : ndefSt25dvTnfExternal ≤ 7)
  | json hooks item => exact (by decide : ndefSt25dvTnfMime ≤ 7)

/-- The text of an item is the C string that is printed for it. -/
theorem cString_print {F : Doubles D} (hF : F.PrintsShort) {hooks : Hooks} {item : Item D}
    (h : Printable F hooks item) (hlen : (render F.text item.value).length < 256) :
    ∃ out, cJsonPrintUnformatted F hooks item = .ok out ∧
      cString out = render F.text item.value := by
  have hne := CJson.render_ne_zero (fun n => (CJson.numberText_eq hF n).2.2) item.value
  exact ⟨_, CJson.cJsonPrintUnformatted_eq hF h.sized h.enough h.wellFormed h.noZero (by omega),
    CJson.cString_terminated hne⟩

/-- A record is no shorter than its payload. -/
theorem payload_le_recordSize (record : Std25dvNdefRecord) :
    record.payload.length ≤ recordSize record := by
  unfold recordSize
  omega

/-- The calls write the records, one behind the other. -/
theorem writeEntries_eq {F : Doubles D} (hF : F.PrintsShort) {entries : List (Entry D)}
    (hprint : ∀ entry ∈ entries, entry.Printable F)
    (hfit : messageSize (entries.map (Entry.record F)) < 256) (mb : Bool) (s : UInt16 × Tag) :
    writeEntries F mb entries s = .ok (writeFrom mb (entries.map (Entry.record F)) s) := by
  induction entries generalizing mb s with
  | nil => rfl
  | cons entry entries ih =>
    obtain ⟨hentry, hentries⟩ := List.forall_mem_cons.mp hprint
    have hsize : messageSize ((entry :: entries).map (Entry.record F)) =
        recordSize (entry.record F) + messageSize (entries.map (Entry.record F)) := List.sum_cons
    have hrest := ih hentries (by omega)
    rw [List.map_cons, writeFrom, List.isEmpty_map]
    cases entry with
    | appLauncher appPackage => exact hrest false _
    | json hooks item =>
      have hpayload := payload_le_recordSize ((Entry.json hooks item).record F)
      obtain ⟨out, hout, hstring⟩ := cString_print hF hentry
        (Nat.lt_of_le_of_lt hpayload (by omega))
      simp only [writeEntries, st25dvNdefWriteJsonRecord, hout, hstring, bind, Except.bind, pure,
        Except.pure]
      exact hrest false _

/-! ## Reading a JSON record -/

/-- A JSON record of a message written within the first 256 bytes of the tag is read back, and its
    payload is parsed to an item of the value it was written for. -/
theorem ndefRead_json {F : Doubles D} (hF : F.PrintsShort) {entries : List (Entry D)}
    (hprint : ∀ entry ∈ entries, entry.Printable F)
    (hfit : 10 + messageSize (entries.map (Entry.record F)) < 256) (tag : Tag) (enda1 : UInt8)
    {k : Nat} {hooks : Hooks} {item : Item D} (hk : entries[k]? = some (.json hooks item))
    {allocates : Nat → Bool} (hallocates : ∀ n, allocates n = true) :
    ∃ s, writeEntries F true entries (ccfileLength, tag) = .ok s ∧
      ndefIsMessage s.2.mem = true ∧
      ∃ n read, Loop.Exits (ndefCond s.2.mem enda1)
          (ndefReadRecord s.2.mem (UInt8.ofNat (k + 1))) n (ndefStart s.2.mem) read ∧
        read.recordCount.toNat = entries.length ∧
        ∃ payload, read.outputRecords = some ⟨ndefSt25dvTnfMime, ndefJsonType, payload⟩ ∧
          ∃ item', cJsonParse F allocates payload = .ok item' ∧ item'.value = item.value := by
  refine ⟨_, writeEntries_eq hF hprint (by omega) true _, ?_⟩
  generalize hrecords : entries.map (Entry.record F) = records at hfit
  have hlength : records.length = entries.length := by rw [← hrecords, List.length_map]
  have hrecord : records[k]? = some ((Entry.json hooks item).record F) := by
    rw [← hrecords, List.getElem?_map, hk, Option.map_some]
  have hlt : k < records.length := (List.getElem?_eq_some_iff.mp hrecord).1
  have hne : records ≠ [] := List.ne_nil_of_length_pos (Nat.zero_lt_of_lt hlt)
  have htnf : ∀ record ∈ records, record.tnf ≤ 7 := by
    intro record hmem
    rw [← hrecords] at hmem
    obtain ⟨entry, -, rfl⟩ := List.mem_map.mp hmem
    exact entry.tnf_le F
  -- what the calls leave on the tag, and what the loop reads there
  obtain ⟨hmessage, hstart, hremaining⟩ :=
    remaining_of_written hfit htnf (writeMessage_spec hne hfit tag)
  have hsize := length_le_messageSize records
  have hnum : (UInt8.ofNat (k + 1)).toNat = k + 1 := by
    rw [UInt8.toNat_ofNat']
    omega
  obtain ⟨n, read, hexits, hcount, houtput⟩ := hremaining.exits
    (s := ⟨10, 0, none, false⟩) hne rfl rfl (by show 0 + _ < _; omega)
  refine ⟨hmessage, n, read, ?_, ?_, render F.text item.value, ?_, ?_⟩
  · show Loop.Exits _ _ n (ndefStart (writeMessage records tag).2.mem) read
    rw [hstart]
    exact hexits
  · rw [hcount, ← hlength]
    exact Nat.zero_add _
  · rw [houtput, hnum]
    show (if 0 < k + 1 then records[k + 1 - (0 + 1)]? else none).or none = _
    rw [if_pos (Nat.succ_pos k), Option.or_none]
    exact hrecord
  · have hitem : Printable F hooks item := hprint _ (List.mem_of_getElem? hk)
    exact CJson.cJsonParse_render hF hallocates hitem.depth hitem.rereads

/-- The size of the screen. -/
def screenItem : Item Int32 :=
  let object := (CJson.createObject Doubles.ints).addItemToObject (CJson.nameBytes "height")
    (CJson.createNumber Doubles.ints 720)
  object.addItemToObject (CJson.nameBytes "width") (CJson.createNumber Doubles.ints 1280)

theorem printable_screenItem : Printable Doubles.ints Hooks.ones screenItem where
  sized := CJson.sized_ones
  enough := CJson.enough_ones
  wellFormed := by
    simp [screenItem, CJson.createObject, CJson.createNumber, CJson.Item.addItemToObject,
      CJson.Item.new, CJson.Item.WellFormed, CJson.MembersWellFormed]
  noZero := by
    simp only [screenItem, CJson.createObject, CJson.createNumber, CJson.Item.addItemToObject,
      CJson.Item.new, CJson.Item.value, CJson.members, NoZero, AllTokens, Json.AllTokensMembers,
      List.nil_append, List.cons_append, Option.getD_some, and_true]
    exact ⟨CJson.cString_ne_zero _, CJson.cString_ne_zero _⟩
  depth := by decide
  rereads := by
    simp only [screenItem, CJson.createObject, CJson.createNumber, CJson.Item.addItemToObject,
      CJson.Item.new, CJson.Item.value, CJson.members, AllTokens, Json.AllTokensMembers,
      List.nil_append, List.cons_append, and_true, true_and]
    exact ⟨CJson.rereads_ofInt CJson.holdsInts_ints 720,
      CJson.rereads_ofInt CJson.holdsInts_ints 1280⟩

/-- The name of the app and the size of the screen. -/
def screenEntries : List (Entry Int32) :=
  [.appLauncher (CJson.nameBytes "com.blauberg.universal"), .json Hooks.ones screenItem]

/-- The two records on a tag full of terminators. -/
theorem ndefRead_json_screen :
    ∃ s, writeEntries Doubles.ints true screenEntries (ccfileLength, ⟨fun _ => 0xFE, []⟩) = .ok s ∧
      ndefIsMessage s.2.mem = true ∧
      ∃ n read, Loop.Exits (ndefCond s.2.mem 3) (ndefReadRecord s.2.mem 2) n
          (ndefStart s.2.mem) read ∧ read.recordCount.toNat = 2 ∧
        ∃ payload, read.outputRecords = some ⟨ndefSt25dvTnfMime, ndefJsonType, payload⟩ ∧
          ∃ item', cJsonParse Doubles.ints (fun _ => true) payload = .ok item' ∧
            item'.value = screenItem.value := by
  have hprint : ∀ entry ∈ screenEntries, entry.Printable Doubles.ints :=
    List.forall_mem_cons.mpr ⟨trivial, List.forall_mem_singleton.mpr printable_screenItem⟩
  exact ndefRead_json CJson.printsShort_ints hprint (by decide +kernel) ⟨fun _ => 0xFE, []⟩ 3 rfl
    (fun _ => rfl)

end EspTesting.St25dv
