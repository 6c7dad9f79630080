import Samaritan.Lib.Decimal

/-!
# RESP Values

The values of the Redis protocol (`proc/redis/resp.go`). The source keeps the type
byte and one field per kind of payload in a struct; its constructors and its decoder
only ever fill the field of the value's own type, so a value is modelled as a sum.
The difference between a nil and an empty slice is kept where the protocol has it:
in bulk strings and arrays.
-/

namespace Samaritan.Redis

open Samaritan.Lib

/-! ## Values -/

/-- The bytes of a Go string constant. -/
def bytesOf (s : String) : Bytes := s.toUTF8.data.toList

/-- Carriage return. -/
def CR : UInt8 := 13

/-- Line feed. -/
def LF : UInt8 := 10

/-- The delimiter of the protocol. -/
def CRLF : Bytes := [CR, LF]

/-- The type bytes of the protocol. -/
inductive RespType where
  | simpleString
  | error
  | integer
  | bulkString
  | array
  deriving DecidableEq

/-- The byte a type is written as. -/
def RespType.byte : RespType → UInt8
  | .simpleString => 43
  | .error => 45
  | .integer => 58
  | .bulkString => 36
  | .array => 42

/-- The type a byte stands for. -/
def RespType.ofByte (c : UInt8) : Option RespType :=
  if c = 43 then some .simpleString
  else if c = 45 then some .error
  else if c = 58 then some .integer
  else if c = 36 then some .bulkString
  else if c = 42 then some .array
  else none

@[simp] theorem RespType.ofByte_byte (t : RespType) : RespType.ofByte t.byte = some t := by
  cases t <;> decide

/-- A value of the protocol. `none` is the nil bulk string and the nil array. -/
inductive RespValue where
  | simpleString (text : Bytes)
  | error (text : Bytes)
  | integer (i : Int64)
  | bulkString (text : Option Bytes)
  | array (elems : Option (List RespValue))

namespace RespValue

/-- The type of a value. -/
def type : RespValue → RespType
  | simpleString _ => .simpleString
  | error _ => .error
  | integer _ => .integer
  | bulkString _ => .bulkString
  | array _ => .array

/-- The `Text` of a value; nil and empty both read as empty. -/
def text : RespValue → Bytes
  | simpleString t => t
  | error t => t
  | bulkString t => t.getD []
  | integer _ => []
  | array _ => []

/-- The `Array` of a value; nil and empty both read as empty. -/
def elems : RespValue → List RespValue
  | array vs => vs.getD []
  | _ => []

/-! ## Nested values -/

mutual

/-- A value and all values nested in it. -/
def nodes : RespValue → List RespValue
  | array (some vs) => array (some vs) :: nodesList vs
  | simpleString t => [simpleString t]
  | error t => [error t]
  | integer i => [integer i]
  | bulkString t => [bulkString t]
  | array none => [array none]

def nodesList : List RespValue → List RespValue
  | [] => []
  | v :: vs => nodes v ++ nodesList vs

end

theorem mem_nodesList {u : RespValue} {vs : List RespValue} :
    u ∈ nodesList vs ↔ ∃ v ∈ vs, u ∈ nodes v := by
  induction vs with
  | nil => simp [nodesList]
  | cons v vs ih => simp [nodesList, ih]

theorem mem_nodes_self (v : RespValue) : v ∈ nodes v := by
  cases v with
  | array vs => cases vs <;> simp [nodes]
  | _ => simp [nodes]

theorem mem_nodes_array {u : RespValue} {vs : List RespValue} :
    u ∈ nodes (array (some vs)) ↔ u = array (some vs) ∨ ∃ v ∈ vs, u ∈ nodes v := by
  simp [nodes, mem_nodesList]

/-- Induction over values: an array is handled with the hypothesis for each element. -/
theorem inductionOn {p : RespValue → Prop} (v : RespValue)
    (hsimple : ∀ t, p (simpleString t)) (herror : ∀ t, p (error t))
    (hint : ∀ i, p (integer i)) (hbulk : ∀ t, p (bulkString t))
    (hnil : p (array none))
    (harray : ∀ vs, (∀ v ∈ vs, p v) → p (array (some vs))) : p v := by
  refine @RespValue.rec p (fun o => ∀ vs, o = some vs → ∀ v ∈ vs, p v)
    (fun vs => ∀ v ∈ vs, p v) hsimple herror hint hbulk ?_ ?_ ?_ ?_ ?_ v
  · intro o ho
    cases o with
    | none => exact hnil
    | some vs => exact harray vs (ho vs rfl)
  · intro vs h
    cases h
  · intro vs hvs ws h
    cases h
    exact hvs
  · simp
  · intro v vs hv hvs u hu
    rcases List.mem_cons.mp hu with rfl | hu
    · exact hv
    · exact hvs u hu

end RespValue

end Samaritan.Redis
