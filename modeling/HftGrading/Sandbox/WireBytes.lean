/- module: HftGrading/Sandbox/WireBytes
   source: sdk/include/sdk/protocol.hpp, sdk/include/sdk/strategy_sdk.hpp, loadgen/include/loadgen/order_blaster.hpp
   digest: Bytes of a session: message sizes by type, orders as the blaster queues them, contestant responses. -/

import HftGrading.Exchange.WireProtocol
import HftGrading.Lib.StreamFraming

set_option autoImplicit false
set_option relaxedAutoImplicit false

namespace HftGrading.Sandbox.WireBytes

open Exchange.WireProtocol (wrap32 wrap64)
open Lib.StreamFraming

abbrev Byte := UInt8

def littleEndian : List Byte → Nat
  | [] => 0
  | b :: bs => b.toNat + 256 * littleEndian bs

/-- The unsigned word of `width` bytes at an offset of a struct. -/
def word (bytes : List Byte) (offset width : Nat) : Nat :=
  littleEndian ((bytes.drop offset).take width)

/-- The `width` bytes of a number, the lowest first. -/
def encode : Nat → Nat → List Byte
  | 0, _ => []
  | width + 1, value => UInt8.ofNat value :: encode width (value / 256)

@[simp] theorem length_encode (width value : Nat) : (encode width value).length = width := by
  induction width generalizing value with
  | zero => rfl
  | succ width ih => rw [encode, List.length_cons, ih]

theorem littleEndian_encode {width value : Nat} (fits : value < 256 ^ width) :
    littleEndian (encode width value) = value := by
  induction width generalizing value with
  | zero => exact (Nat.lt_one_iff.mp fits).symm
  | succ width ih =>
    rw [Nat.pow_succ'] at fits
    rw [encode, littleEndian, ih (Nat.div_lt_of_lt_mul fits), UInt8.toNat_ofNat']
    exact Nat.mod_add_div value 256

theorem littleEndian_lt (bytes : List Byte) : littleEndian bytes < 256 ^ bytes.length := by
  induction bytes with
  | nil => exact Nat.one_pos
  | cons b bytes ih =>
    have small := b.toNat_lt
    rw [littleEndian, List.length_cons, Nat.pow_succ']
    omega

theorem littleEndian_drop (bytes : List Byte) (k : Nat) :
    littleEndian (bytes.drop k) = littleEndian bytes / 256 ^ k := by
  induction bytes generalizing k with
  | nil => simp [littleEndian]
  | cons b bytes ih =>
    cases k with
    | zero => simp
    | succ k =>
      have small := b.toNat_lt
      rw [List.drop_succ_cons, ih, littleEndian, Nat.pow_succ', ← Nat.div_div_eq_div_mul]
      congr 1
      omega

theorem littleEndian_take (bytes : List Byte) (k : Nat) :
    littleEndian (bytes.take k) = littleEndian bytes % 256 ^ k := by
  induction bytes generalizing k with
  | nil => simp [littleEndian]
  | cons b bytes ih =>
    cases k with
    | zero => simp [littleEndian, Nat.mod_one]
    | succ k =>
      have small := b.toNat_lt
      have low : (b.toNat + 256 * littleEndian bytes) % 256 = b.toNat := by omega
      have high : (b.toNat + 256 * littleEndian bytes) / 256 = littleEndian bytes := by omega
      rw [List.take_succ_cons, littleEndian, ih, littleEndian, Nat.pow_succ', Nat.mod_mul, low,
        high]

theorem word_eq (bytes : List Byte) (offset width : Nat) :
    word bytes offset width = littleEndian bytes / 256 ^ offset % 256 ^ width := by
  rw [word, littleEndian_take, littleEndian_drop]

theorem word_field {bytes front field rest : List Byte} {offset width : Nat}
    (split : bytes = front ++ (field ++ rest)) (lead : front.length = offset)
    (size : field.length = width) : word bytes offset width = littleEndian field := by
  rw [word, split, ← lead, List.drop_left, ← size, List.take_left]

theorem word_byte {bytes front rest : List Byte} {byte : Byte} {offset : Nat}
    (split : bytes = front ++ byte :: rest) (lead : front.length = offset) :
    word bytes offset 1 = byte.toNat := by
  have alone : bytes = front ++ ([byte] ++ rest) := split
  have size : [byte].length = 1 := rfl
  rw [word_field alone lead size, littleEndian, littleEndian, Nat.mul_zero, Nat.add_zero]

theorem word_encode {bytes front rest : List Byte} {offset width value : Nat}
    (split : bytes = front ++ (encode width value ++ rest)) (lead : front.length = offset)
    (fits : value < 256 ^ width) : word bytes offset width = value := by
  rw [word_field split lead (length_encode ..), littleEndian_encode fits]

inductive MsgType where
  | marketUpdate
  | orderAck
  | fill
  | cancelAck
  | orderEntry
  | cancelRequest
  | heartbeat
  | sessionStart
  | sessionEnd
  deriving DecidableEq, Repr

def MsgType.code : MsgType → Byte
  | .marketUpdate => 1
  | .orderAck => 2
  | .fill => 3
  | .cancelAck => 4
  | .orderEntry => 10
  | .cancelRequest => 11
  | .heartbeat => 20
  | .sessionStart => 30
  | .sessionEnd => 31

def peekMsgType (byte : Byte) : Option MsgType :=
  match byte.toNat with
  | 1 => some .marketUpdate
  | 2 => some .orderAck
  | 3 => some .fill
  | 4 => some .cancelAck
  | 10 => some .orderEntry
  | 11 => some .cancelRequest
  | 20 => some .heartbeat
  | 30 => some .sessionStart
  | 31 => some .sessionEnd
  | _ => none

def MsgType.size : MsgType → Nat
  | .marketUpdate => 64
  | .orderAck => 32
  | .fill => 64
  | .cancelAck => 32
  | .orderEntry => 64
  | .cancelRequest => 32
  | .heartbeat => 32
  | .sessionStart => 64
  | .sessionEnd => 64

/-- `msg_size` of the type a first byte names; 0 for a byte that names none. -/
def msgSize (byte : Byte) : Nat :=
  match peekMsgType byte with
  | some type => type.size
  | none => 0

@[simp] theorem msgSize_code (type : MsgType) : msgSize type.code = type.size := by
  cases type <;> rfl

/-- An entry of the blast ring. The generators copy an `OrderEntry` or a `CancelRequest` into
`data` and store its type and size; the bytes behind a `CancelRequest` are whatever the entry
held before. -/
structure BlastOrder where
  data : List Byte
  size : Nat
  type : MsgType
  whole : data.length = 64
  kind : type = .orderEntry ∨ type = .cancelRequest
  sized : size = type.size
  tagged : data.head? = some type.code
  deriving DecidableEq

namespace BlastOrder

variable (order : BlastOrder)

/-- Both structs have `client_order_id` at offset 4. -/
def clientOrderId : Nat := word order.data 4 4

/-- The struct in `data`: the bytes of an `OrderEntry` or of a `CancelRequest`. -/
def message : List Byte := order.data.take order.size

theorem size_le : order.size ≤ order.data.length := by
  rw [order.whole, order.sized]
  rcases order.kind with entry | cancel
  · rw [entry]
    decide
  · rw [cancel]
    decide

theorem size_pos : 0 < order.size := by
  rw [order.sized]
  rcases order.kind with entry | cancel
  · rw [entry]
    decide
  · rw [cancel]
    decide

@[simp] theorem length_message : order.message.length = order.size := by
  rw [message, List.length_take, Nat.min_eq_left order.size_le]

theorem framed_message : Framed msgSize order.message := by
  obtain ⟨rest, shape⟩ := List.head?_eq_some_iff.mp order.tagged
  obtain ⟨n, more⟩ : ∃ n, order.size = n + 1 := ⟨order.size - 1, by have := order.size_pos; omega⟩
  refine ⟨order.type.code, rest.take n, ?_, ?_⟩
  · rw [message, shape, more, List.take_succ_cons]
  · rw [length_message, order.sized, msgSize_code]

end BlastOrder

/-- The platform's view of one `ContestantResponse`. -/
structure ContestantResponse where
  orderId : Nat
  responseType : Byte
  ackStatus : Byte
  numFills : Byte
  fillPrice : Int
  fillQty : Int
  remainingQty : Int
  recvTsc : Nat
  sendTsc : Nat
  padding : List Byte
  deriving DecidableEq, Repr, Inhabited

def responseSize : Nat := 64

namespace ContestantResponse

def ofBytes (bytes : List Byte) : ContestantResponse where
  orderId := word bytes 0 4
  responseType := bytes.getD 4 0
  ackStatus := bytes.getD 5 0
  numFills := bytes.getD 7 0
  fillPrice := wrap64 (word bytes 8 8)
  fillQty := wrap32 (word bytes 16 4)
  remainingQty := wrap32 (word bytes 20 4)
  recvTsc := word bytes 24 8
  sendTsc := word bytes 32 8
  padding := bytes.getD 6 0 :: bytes.drop 40

/-- All of a response but the time stamps, which the platform overwrites. -/
def untimed (resp : ContestantResponse) : ContestantResponse :=
  { resp with recvTsc := 0, sendTsc := 0 }

end ContestantResponse

end HftGrading.Sandbox.WireBytes
