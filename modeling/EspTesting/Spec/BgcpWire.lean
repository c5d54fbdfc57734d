import EspTesting.ForStd.UInt
import EspTesting.Native.BgcpDataProcessor

/-!
# The BGCP message format

A BGCP message is a list of entries. An entry names a function and a parameter number
and may carry a data block, or it marks a number as not supported. On the wire a
function or page command is written only where it differs from the one in force, and a
block size only where it differs from the default of one byte.

Nothing here refers to the state of the queue or of the parser: `encode` is the format
both are compared with.
-/

namespace EspTesting.Bgcp

/-- The functions of the protocol. -/
inductive Func where
  | r
  | w
  | rw
  | incRw
  | decRw
  | resp
  deriving DecidableEq, Repr

/-- The code of a function on the wire. -/
def Func.code : Func → UInt8
  | r => bgcpFuncR
  | w => bgcpFuncW
  | rw => bgcpFuncRw
  | incRw => bgcpFuncIncRw
  | decRw => bgcpFuncDecRw
  | resp => bgcpFuncResp

/-- The functions whose entries carry a data block. -/
def Func.hasData : Func → Bool
  | w | rw | resp => true
  | r | incRw | decRw => false

/-- The functions that ask for an answer. -/
def Func.asksAnswer : Func → Bool
  | r | rw | incRw | decRw => true
  | w | resp => false

/-- The function command, if the function in force is another one. The first function of
    a message needs no command code. -/
def funcPieces (first : Bool) (curFunc func : UInt8) : List (List UInt8) :=
  if func ≠ curFunc then (if first then [] else [[bgcpCmdFunc]]) ++ [[func]] else []

/-- The page command, if the page in force is another one. -/
def pagePieces (curPage page : UInt8) : List (List UInt8) :=
  if page ≠ curPage then [[bgcpCmdPage], [page]] else []

/-- One entry of a message. -/
inductive Entry where
  | param (func : Func) (num : UInt16) (data : List UInt8)
  | notSup (num : UInt16)
  deriving DecidableEq, Repr

namespace Entry

/-- The function in force for an entry; a not-supported mark is sent as a response. -/
def func : Entry → Func
  | param f _ _ => f
  | notSup _ => .resp

/-- The parameter number. -/
def num : Entry → UInt16
  | param _ n _ => n
  | notSup n => n

/-- The page of the parameter number. -/
def page (e : Entry) : UInt8 := (e.num >>> 8).toUInt8

/-- The data block. -/
def data : Entry → List UInt8
  | param _ _ d => d
  | notSup _ => []

/-- An entry that can be written: the low byte of its number is no command code, and the
    functions that carry data carry 1 to 255 bytes of it. -/
def WellFormed : Entry → Prop
  | param f n d => n.toUInt8 < bgcpCmdFunc ∧
      if f.hasData then 1 ≤ d.length ∧ d.length ≤ 255 else d = []
  | notSup _ => True

instance : DecidablePred WellFormed := fun e => by
  cases e <;> unfold WellFormed <;> infer_instance

/-- What the parser should do with an entry. -/
def event : Entry → PerformEvent
  | param f n d => ⟨f.code, n, .data d⟩
  | notSup n => ⟨bgcpFuncResp, n, .notSupported⟩

/-- The block size, the low byte of the number and the data. -/
def bodyPieces : Entry → List (List UInt8)
  | param _ n d =>
    (if d.length > 1 then [[bgcpCmdSize], [d.length.toUInt8]] else []) ++ [[n.toUInt8]] ++
      (if d.length ≠ 0 then [d] else [])
  | notSup n => [[bgcpCmdNotSup], [n.toUInt8]]

/-- The pieces an entry is written in, behind a message whose last function and page are
    `curFunc` and `curPage`. -/
def pieces (first : Bool) (curFunc curPage : UInt8) (e : Entry) : List (List UInt8) :=
  funcPieces first curFunc e.func.code ++ pagePieces curPage e.page ++ e.bodyPieces

/-- The bytes of an entry. -/
def encode (first : Bool) (curFunc curPage : UInt8) (e : Entry) : List UInt8 :=
  (e.pieces first curFunc curPage).flatten

end Entry

/-- The bytes of a list of entries behind a message whose last function and page are
    `curFunc` and `curPage`. -/
def encodeFrom (first : Bool) (curFunc curPage : UInt8) : List Entry → List UInt8
  | [] => []
  | e :: es => e.encode first curFunc curPage ++ encodeFrom false e.func.code e.page es

/-- The message for a list of entries. -/
def encode (es : List Entry) : List UInt8 := encodeFrom true noFunc 0 es

/-! ## Facts about the format -/

/-- The code of a function is not the one for none. -/
theorem Func.code_ne_noFunc (f : Func) : f.code ≠ noFunc := by
  cases f <;> decide

/-- The code of a function is valid. -/
theorem Func.isValidFunc_code (f : Func) : isValidFunc f.code = true := by
  cases f <;> decide

/-- The code and the function agree on whether data follow. -/
theorem Func.hasDataBlock_code (f : Func) : hasDataBlock f.code = f.hasData := by
  cases f <;> decide

/-- The code and the function agree on whether an answer is asked for. -/
theorem Func.isReadFunc_code (f : Func) : isReadFunc f.code = f.asksAnswer := by
  cases f <;> decide

namespace Entry

/-- The body of an entry starts with a piece of one byte. -/
theorem bodyPieces_eq_cons (e : Entry) : ∃ b rest, e.bodyPieces = [b] :: rest := by
  cases e with
  | notSup n => exact ⟨_, _, rfl⟩
  | param f n d =>
    simp only [bodyPieces]
    split
    · exact ⟨_, _, rfl⟩
    · exact ⟨_, _, rfl⟩

/-- No piece is empty. -/
theorem pieces_ne_nil (first : Bool) (curFunc curPage : UInt8) (e : Entry) :
    ∀ piece ∈ e.pieces first curFunc curPage, piece ≠ [] := by
  intro piece h
  simp only [pieces, List.mem_append] at h
  -- the function, the page, the body
  rcases h with (h | h) | h
  · simp only [funcPieces] at h
    split at h
    · cases first with
      | true =>
        rw [if_pos rfl, List.nil_append, List.mem_singleton] at h
        simp only [h, ne_eq, List.cons_ne_nil, not_false_eq_true]
      | false =>
        rw [if_neg (by decide), List.singleton_append, List.mem_cons, List.mem_singleton] at h
        rcases h with rfl | rfl <;> simp
    · simp at h
  · simp only [pagePieces] at h
    split at h
    · simp only [List.mem_cons, List.not_mem_nil, or_false] at h
      rcases h with rfl | rfl <;> simp
    · simp at h
  · cases e with
    | notSup n =>
      simp only [bodyPieces, List.mem_cons, List.not_mem_nil, or_false] at h
      rcases h with rfl | rfl <;> simp
    | param f n d =>
      simp only [bodyPieces, List.mem_append] at h
      rcases h with (h | h) | h
      · split at h
        · simp only [List.mem_cons, List.not_mem_nil, or_false] at h
          rcases h with rfl | rfl <;> simp
        · simp at h
      · simp only [List.mem_cons, List.not_mem_nil, or_false] at h
        simp only [h, ne_eq, List.cons_ne_nil, not_false_eq_true]
      · split at h
        · rename_i hd
          simp only [List.mem_cons, List.not_mem_nil, or_false] at h
          subst h
          exact fun hnil => hd (by rw [hnil, List.length_nil])
        · simp at h

/-- An entry takes at least one byte. -/
theorem encode_ne_nil (first : Bool) (curFunc curPage : UInt8) (e : Entry) :
    e.encode first curFunc curPage ≠ [] := by
  obtain ⟨b, rest, h⟩ := e.bodyPieces_eq_cons
  simp only [encode, pieces, h, List.flatten_append, List.flatten_cons, List.singleton_append,
    ne_eq, List.append_eq_nil_iff, List.cons_ne_nil, and_false, not_false_eq_true]

/-- The first entry of a message opens with its function code. -/
theorem encode_first (e : Entry) :
    e.encode true noFunc 0 = e.func.code :: e.encode false e.func.code 0 := by
  have h := e.func.code_ne_noFunc
  simp only [encode, pieces, funcPieces, if_pos h, ne_eq, not_true_eq_false, if_false,
    if_true, List.nil_append, List.cons_append, List.flatten_cons]

end Entry

/-- A message opens with the function code of its first entry. -/
theorem encode_cons (e : Entry) (es : List Entry) :
    encode (e :: es) = e.func.code :: encodeFrom false e.func.code 0 (e :: es) := by
  simp only [encode, encodeFrom, e.encode_first, List.cons_append]

end EspTesting.Bgcp
