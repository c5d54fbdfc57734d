import EspTesting.Spec.BgcpDecoder

/-!
# Parameter tables built by bind calls

Every bind function fills one slot, the one with the number or else the first free one,
with a parameter that depends on the call alone (`BindCall.param`). So every slot of a
table built by bind calls is free or holds the parameter of one of the calls, and what is
true of `BindCall.param` for every call is true of every slot.
-/

namespace EspTesting.Bgcp

namespace BindCall

/-- The number a call binds. -/
def num : BindCall → UInt16
  | uint8T n _ _ _ | uint16T n _ _ _ | bool n _ | binary n _ _ | const n _ _ | str n _ _ _
  | ranked n _ _ | cmd n _ | resp n _ | action n _ _ _ => n

/-- The variable a call binds. -/
def linkedData : BindCall → Option Nat
  | uint8T _ a _ _ | uint16T _ a _ _ | bool _ a | binary _ a _ | const _ a _ | str _ a _ _
  | ranked _ a _ | action _ a _ _ => a
  | cmd _ _ | resp _ _ => none

/-- The number of bytes a variable is bound with. -/
def size : BindCall → Nat
  | uint8T _ _ _ _ | bool _ _ | ranked _ _ _ => 1
  | uint16T _ _ _ _ => 2
  | binary _ _ n | const _ _ n | str _ _ _ n => n.toNat
  | cmd _ _ | resp _ _ | action _ _ _ _ => 0

/-- The data type a call sets. -/
def dataType : BindCall → DataType
  | uint8T _ _ _ _ => .type8B
  | uint16T _ _ _ _ => .type16B
  | bool _ _ => .type1B
  | binary _ _ _ | str _ _ _ _ => .typeBin
  | const _ _ _ => .typeConstBin
  | ranked _ _ _ => .type8BRange
  | cmd _ _ | resp _ _ | action _ _ _ _ => .typeAction

/-- The union member a call sets. -/
def data : BindCall → ParamUnion
  | uint8T _ _ min max => .description ⟨min.toNat, max.toNat⟩
  | uint16T _ _ min max => .description ⟨min.toNat, max.toNat⟩
  | bool _ _ => .description ⟨2, 0⟩
  | binary _ _ n | const _ _ n => .description ⟨0, n.toNat⟩
  | str _ _ min n => .description ⟨min.toNat, n.toNat⟩
  | ranked _ _ values => .validator ⟨values⟩
  | cmd _ executor => .dascriptors ⟨executor.map .custom, none⟩
  | resp _ responder => .dascriptors ⟨none, responder.map .custom⟩
  | action _ _ updateFunc respFunc =>
    .dascriptors ⟨updateFunc.map .custom, respFunc.map .custom⟩

/-- The parameter a call puts into its slot. -/
def param (c : BindCall) : Param where
  paramNum := c.num
  dataType := c.dataType
  linkedData := c.linkedData
  timeUpdate := 0
  data := c.data

/-- Every bind function fills the slot of its number with its parameter, or fails for want
    of a slot. -/
theorem run_eq (tbl : ParamList) (c : BindCall) :
    c.run tbl = match bindSlot tbl c.num with
      | none => (false, tbl)
      | some i => (true, tbl.set i c.param i.isLt) := by
  cases c <;> rfl

/-- The update handler of a bound parameter stays inside the variable. -/
theorem fits_param (c : BindCall) : c.param.Fits := by
  intro funcs f hproc hf
  cases c with
  | cmd n executor =>
    obtain rfl := Option.some.inj hproc
    obtain ⟨_, _, rfl⟩ := Option.map_eq_some_iff.mp hf
    trivial
  | action n a updateFunc respFunc =>
    obtain rfl := Option.some.inj hproc
    obtain ⟨_, _, rfl⟩ := Option.map_eq_some_iff.mp hf
    trivial
  | resp n responder =>
    obtain rfl := Option.some.inj hproc
    cases hf
  -- nothing updates a constant
  | const n a size =>
    obtain rfl := Option.some.inj hproc
    cases hf
  | _ =>
    obtain rfl := Option.some.inj hproc
    obtain rfl := Option.some.inj hf
    exact Nat.le_refl _

/-- A write to the parameter of a call is a write to the variable it bound. -/
theorem size_param_le (c : BindCall) : c.param.size ≤ c.size := by
  cases c with
  | _ => exact Nat.le_refl _

end BindCall

/-! ## Slots -/

/-- What every slot of a table satisfies. -/
theorem buildTable_induction (P : Param → Prop) (hzero : P Param.zero) {calls : List BindCall}
    (hcalls : ∀ c ∈ calls, P c.param) (i : Fin paramNumMax) : P ((buildTable calls).get i) := by
  suffices ∀ (calls : List BindCall) (tbl : ParamList), (∀ i : Fin paramNumMax, P (tbl.get i)) →
      (∀ c ∈ calls, P c.param) → ∀ i : Fin paramNumMax,
        P (calls.foldl (fun tbl call => (call.run tbl).2) tbl)[i] by
    refine this calls ParamList.zero (fun i => ?_) hcalls i
    have hslot : (ParamList.zero.get i) = Param.zero := Vector.getElem_replicate i.2
    rw [hslot]
    exact hzero
  -- induction on the calls, for every table they start on
  intro calls
  induction calls with
  | nil => exact fun tbl htbl _ => htbl
  | cons c calls ih =>
    intro tbl htbl hcalls
    refine ih _ ?_ fun c' h => hcalls c' (List.mem_cons_of_mem _ h)
    show ∀ i : Fin paramNumMax, P (c.run tbl).2[i]
    rw [c.run_eq]
    cases bindSlot tbl c.num with
    | none => exact htbl
    | some j =>
      intro i
      show P (tbl.set j c.param j.isLt)[(i : Nat)]
      rw [Vector.getElem_set]
      split
      · exact hcalls c (List.mem_cons_self ..)
      · exact htbl i

/-- Every slot is free or holds the parameter of a call. -/
theorem slot_buildTable (calls : List BindCall) (i : Fin paramNumMax) :
    ((buildTable calls).get i) = Param.zero ∨ ∃ c ∈ calls, ((buildTable calls).get i) = c.param :=
  buildTable_induction (fun p => p = Param.zero ∨ ∃ c ∈ calls, p = c.param) (Or.inl rfl)
    (fun c hc => Or.inr ⟨c, hc, rfl⟩) i

/-- Every slot in use is linked as the call asked for. -/
theorem fresh_buildTable (calls : List BindCall) : (buildTable calls).Fresh :=
  fun i => buildTable_induction (fun p => p.timeUpdate = getTime) rfl
    (fun _ _ => rfl) i

/-- A zeroed slot has no handler. -/
theorem fits_zero : Param.zero.Fits := by
  intro funcs f hproc hf
  obtain rfl := Option.some.inj hproc
  obtain rfl := Option.some.inj hf
  exact Nat.le_refl _

/-- The handlers of a slot fit its variable. -/
theorem fits_buildTable (calls : List BindCall) (i : Fin paramNumMax) :
    ((buildTable calls).get i).Fits :=
  buildTable_induction Param.Fits fits_zero (fun c _ => c.fits_param) i

/-- The slot a number is found in has that number. -/
theorem paramNum_of_getParam {tbl : ParamList} {num : UInt16} {i : Fin paramNumMax}
    (h : getParam tbl num = some i) : (tbl.get i).paramNum = num := by
  have hfound := List.find?_some h
  exact of_decide_eq_true hfound

end EspTesting.Bgcp
