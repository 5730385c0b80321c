/- module: HftGrading/Fpga/Sequencer/LosslessParser
   source: fpga/rtl/order_parser.sv, sdk/include/sdk/protocol.hpp
   digest: What the parser passes on over every trace, what it reports, and the fields of a packed message. -/

import HftGrading.Lib.FlushedPipeline
import HftGrading.Sandbox.WireBytes
import HftGrading.Fpga.Sequencer.OrderParser

set_option autoImplicit false
set_option relaxedAutoImplicit false

namespace HftGrading.Fpga.Sequencer.LosslessParser

open Lib.FlushedPipeline Sandbox.WireBytes OrderParser

variable {dw : Nat}

structure Parsed (dw : Nat) where
  msgType : BitVec 8
  side : BitVec 8
  orderType : BitVec 8
  instrumentId : BitVec 8
  clientOrderId : BitVec 32
  price : BitVec 64
  quantity : BitVec 32
  exchangeOrderId : BitVec 64
  isCancel : Bool
  raw : BitVec dw
  deriving DecidableEq, Repr

def offered (r : Regs dw) : Parsed dw where
  msgType := r.outMsgType
  side := r.outSide
  orderType := r.outOrderType
  instrumentId := r.outInstrumentId
  clientOrderId := r.outClientOrderId
  price := r.outPrice
  quantity := r.outQuantity
  exchangeOrderId := r.outExchangeOrderId
  isCancel := r.outIsCancel
  raw := r.outRaw

def parsed (data : BitVec dw) : Parsed dw := offered (reset.parse data)

structure Trace (dw : Nat) where
  regs : Regs dw
  accepted : List (BitVec dw)
  transferred : List (Parsed dw)

def Trace.tick (t : Trace dw) (i : Inputs dw) : Trace dw where
  regs := t.regs.cycle i
  accepted := t.accepted ++ taken i.inValid (t.regs.inReady i) i.inData
  transferred := t.transferred ++ taken t.regs.outValid i.outReady (offered t.regs)

def trace (is : List (Inputs dw)) : Trace dw := is.foldl Trace.tick ⟨reset, [], []⟩

section Edges

variable {r : Regs dw} {i : Inputs dw}

theorem offered_parse (r : Regs dw) (data : BitVec dw) : offered (r.parse data) = parsed data := rfl

theorem taken_ready (ready : r.inReady i = true) :
    taken r.outValid i.outReady (offered r) = held r.outValid (offered r) := by
  unfold Regs.inReady at ready
  cases valid : r.outValid with
  | false => rfl
  | true =>
    rw [valid, Bool.not_true, Bool.or_false] at ready
    rw [ready]
    rfl

theorem edge_passes (r : Regs dw) (i : Inputs dw) :
    taken r.outValid i.outReady (offered r) ++
        held (r.cycle i).outValid (offered (r.cycle i)) =
      held r.outValid (offered r) ++
        ((taken i.inValid (r.inReady i) i.inData).filter msgValid).map parsed := by
  cases takes : r.takes i with
  | true =>
    have beat : taken i.inValid (r.inReady i) i.inData = [i.inData] := by
      rw [taken, ← Regs.takes, takes, if_pos rfl]
    rw [beat, taken_ready (Bool.and_eq_true_iff.mp takes).2, Regs.cycle, if_pos takes]
    cases known : msgValid i.inData with
    | true => simp [known, held, ← offered_parse r, offered, Regs.parse]
    | false => simp [known, held]
  | false =>
    have none : taken i.inValid (r.inReady i) i.inData = [] := by
      rw [taken, ← Regs.takes, takes]
      rfl
    have kept : offered (r.cycle i) = offered r ∧
        (r.cycle i).outValid = if i.outReady then false else r.outValid := by
      rw [Regs.cycle, takes]
      cases i.outReady <;> exact ⟨rfl, rfl⟩
    rw [none, kept.1, kept.2, taken_held]
    simp

theorem errInvalidMsg_cycle (r : Regs dw) (i : Inputs dw) :
    (r.cycle i).errInvalidMsg = (r.takes i && !msgValid i.inData) := by
  unfold Regs.cycle
  cases r.takes i <;> cases msgValid i.inData <;> cases i.outReady <;> rfl

end Edges

theorem trace_snoc (is : List (Inputs dw)) (i : Inputs dw) :
    trace (is ++ [i]) = (trace is).tick i := by
  simp only [trace, List.foldl_append, List.foldl_cons, List.foldl_nil]

theorem trace_passes (is : List (Inputs dw)) :
    (trace is).transferred ++ held (trace is).regs.outValid (offered (trace is).regs) =
      ((trace is).accepted.filter msgValid).map parsed := by
  induction is using List.reverseRecOn with
  | nil => rfl
  | append_singleton is i ih =>
    rw [trace_snoc]
    simp only [Trace.tick, List.append_assoc, edge_passes, List.filter_append, List.map_append]
    rw [← List.append_assoc, ih]

/-- `OrderEntry` of the protocol. The enums are the bytes they are stored in; `padding` is `_pad`
and the bytes behind it that the alignment adds. -/
structure OrderEntry where
  side : Byte
  orderType : Byte
  instrumentId : Byte
  clientOrderId : UInt32
  price : Int64
  quantity : Int32
  padding : List Byte
  padded : padding.length = 44

/-- `CancelRequest` of the protocol, in a beat of twice its size. -/
structure CancelRequest where
  clientOrderId : UInt32
  exchangeOrderId : UInt64
  pad0 : List Byte
  pad1 : List Byte
  beyond : List Byte
  padded0 : pad0.length = 3
  padded1 : pad1.length = 16
  filled : beyond.length = 32

def OrderEntry.bytes (o : OrderEntry) : List Byte :=
  [MsgType.orderEntry.code, o.side, o.orderType, o.instrumentId] ++
    (encode 4 o.clientOrderId.toNat ++ (encode 8 o.price.toBitVec.toNat ++
      (encode 4 o.quantity.toBitVec.toNat ++ o.padding)))

def CancelRequest.bytes (c : CancelRequest) : List Byte :=
  [MsgType.cancelRequest.code] ++ (c.pad0 ++ (encode 4 c.clientOrderId.toNat ++
    (encode 8 c.exchangeOrderId.toNat ++ (c.pad1 ++ c.beyond))))

def beat (bytes : List Byte) : BitVec dw := BitVec.ofNat dw (littleEndian bytes)

theorem extract_beat {bytes : List Byte} (whole : 8 * bytes.length = dw) (offset width : Nat)
    {field : BitVec (8 * width)} (stored : word bytes offset width = field.toNat) :
    (beat bytes : BitVec dw).extractLsb' (8 * offset) (8 * width) = field := by
  have base : ∀ k, 256 ^ k = 2 ^ (8 * k) := fun k => by rw [Nat.pow_mul]
  have bound := littleEndian_lt bytes
  rw [base, whole] at bound
  refine BitVec.eq_of_toNat_eq ?_
  rw [BitVec.extractLsb'_toNat, beat, BitVec.toNat_ofNat, Nat.mod_eq_of_lt bound, ← stored, word_eq,
    base, base, Nat.shiftRight_eq_div_pow]

section Order

variable (o : OrderEntry)

theorem OrderEntry.length_bytes : 8 * o.bytes.length = 512 := by
  simp [OrderEntry.bytes, o.padded]

def OrderEntry.beat : BitVec 512 := LosslessParser.beat o.bytes

theorem order_header :
    rawMsgType o.beat = 10 ∧ rawSide o.beat = o.side.toBitVec ∧
      rawOrderType o.beat = o.orderType.toBitVec ∧
      rawInstrumentId o.beat = o.instrumentId.toBitVec := by
  refine ⟨extract_beat o.length_bytes 0 1 ?_, extract_beat o.length_bytes 1 1 ?_,
    extract_beat o.length_bytes 2 1 ?_, extract_beat o.length_bytes 3 1 ?_⟩
  · exact word_byte (show o.bytes = [] ++ MsgType.orderEntry.code :: _ from rfl) rfl
  · exact word_byte (show o.bytes = [_] ++ o.side :: _ from rfl) rfl
  · exact word_byte (show o.bytes = [_, _] ++ o.orderType :: _ from rfl) rfl
  · exact word_byte (show o.bytes = [_, _, _] ++ o.instrumentId :: _ from rfl) rfl

theorem order_words :
    rawClientOrderId o.beat = o.clientOrderId.toBitVec ∧
      rawPrice o.beat = o.price.toBitVec ∧ rawQuantity o.beat = o.quantity.toBitVec := by
  have header : [MsgType.orderEntry.code, o.side, o.orderType, o.instrumentId].length = 4 := rfl
  have behind : o.bytes = [MsgType.orderEntry.code, o.side, o.orderType, o.instrumentId] ++
      encode 4 o.clientOrderId.toNat ++ encode 8 o.price.toBitVec.toNat ++
        (encode 4 o.quantity.toBitVec.toNat ++ o.padding) := by
    simp only [OrderEntry.bytes, List.append_assoc]
  refine ⟨extract_beat o.length_bytes 4 4 ?_, extract_beat o.length_bytes 8 8 ?_,
    extract_beat o.length_bytes 16 4 ?_⟩
  · exact word_encode rfl header o.clientOrderId.toBitVec.isLt
  · refine word_encode (List.append_assoc ..).symm ?_ o.price.toBitVec.isLt
    rw [List.length_append, header, length_encode]
  · refine word_encode behind ?_ o.quantity.toBitVec.isLt
    simp only [List.length_append, header, length_encode]

theorem parsed_order :
    parsed o.beat =
      { msgType := 10
        side := o.side.toBitVec
        orderType := o.orderType.toBitVec
        instrumentId := o.instrumentId.toBitVec
        clientOrderId := o.clientOrderId.toBitVec
        price := o.price.toBitVec
        quantity := o.quantity.toBitVec
        exchangeOrderId := 0
        isCancel := false
        raw := o.beat } := by
  obtain ⟨msgType, side, orderType, instrumentId⟩ := order_header o
  obtain ⟨clientOrderId, price, quantity⟩ := order_words o
  have order : isOrder o.beat = true := by
    rw [isOrder, msgType]
    rfl
  have cancel : isCancel o.beat = false := by
    rw [isCancel, msgType]
    rfl
  simp only [parsed, offered, Regs.parse, order, cancel, msgType, side, orderType, instrumentId,
    clientOrderId, price, quantity, if_true]

end Order

section Cancel

variable (c : CancelRequest)

theorem CancelRequest.length_bytes : 8 * c.bytes.length = 512 := by
  simp [CancelRequest.bytes, c.padded0, c.padded1, c.filled]

def CancelRequest.beat : BitVec 512 := LosslessParser.beat c.bytes

theorem cancel_words :
    rawMsgType c.beat = 11 ∧ rawClientOrderId c.beat = c.clientOrderId.toBitVec ∧
      rawExchangeOid c.beat = c.exchangeOrderId.toBitVec := by
  have header : ([MsgType.cancelRequest.code] ++ c.pad0).length = 4 := by
    rw [List.length_append, c.padded0]
    rfl
  have behind : c.bytes = [MsgType.cancelRequest.code] ++ c.pad0 ++
      encode 4 c.clientOrderId.toNat ++ (encode 8 c.exchangeOrderId.toNat ++ (c.pad1 ++ c.beyond)) := by
    simp only [CancelRequest.bytes, List.append_assoc]
  refine ⟨extract_beat c.length_bytes 0 1 ?_, extract_beat c.length_bytes 4 4 ?_,
    extract_beat c.length_bytes 8 8 ?_⟩
  · exact word_byte (show c.bytes = [] ++ MsgType.cancelRequest.code :: _ from rfl) rfl
  · exact word_encode (List.append_assoc ..).symm header c.clientOrderId.toBitVec.isLt
  · refine word_encode behind ?_ c.exchangeOrderId.toBitVec.isLt
    rw [List.length_append, header, length_encode]

theorem parsed_cancel :
    (parsed c.beat).msgType = 11 ∧ (parsed c.beat).isCancel = true ∧
      (parsed c.beat).clientOrderId = c.clientOrderId.toBitVec ∧
      (parsed c.beat).exchangeOrderId = c.exchangeOrderId.toBitVec ∧
      (parsed c.beat).raw = c.beat := by
  obtain ⟨msgType, clientOrderId, exchangeOrderId⟩ := cancel_words c
  have order : isOrder c.beat = false := by
    rw [isOrder, msgType]
    rfl
  have cancel : isCancel c.beat = true := by
    rw [isCancel, msgType]
    rfl
  refine ⟨msgType, cancel, clientOrderId, ?_, rfl⟩
  rw [← exchangeOrderId]
  exact if_neg (by rw [order]; decide)

end Cancel

/-- Over every trace from reset the parser passes on exactly the beats of known type it accepts,
in order and once, the last one perhaps still offered. A beat of another type raises the error
flag for the next cycle, offers nothing and writes no other register, and nothing else raises it.
Packed messages come out with their fields. -/
theorem parser_filters_losslessly (is : List (Inputs dw)) :
    let t := trace is
    t.transferred ++ held t.regs.outValid (offered t.regs) =
        (t.accepted.filter fun data =>
          data.extractLsb' 0 8 == 10#8 || data.extractLsb' 0 8 == 11#8).map parsed ∧
      (∀ i, (t.regs.cycle i).errInvalidMsg = (t.regs.takes i && !msgValid i.inData)) ∧
      (∀ i, t.regs.takes i = true → msgValid i.inData = false →
        t.regs.cycle i = { t.regs with outValid := false, errInvalidMsg := true }) ∧
      (∀ o : OrderEntry, msgValid o.beat = true ∧ parsed o.beat =
        ⟨10, o.side.toBitVec, o.orderType.toBitVec, o.instrumentId.toBitVec,
          o.clientOrderId.toBitVec, o.price.toBitVec, o.quantity.toBitVec, 0, false, o.beat⟩) ∧
      ∀ c : CancelRequest, msgValid c.beat = true ∧ (parsed c.beat).msgType = 11 ∧
        (parsed c.beat).isCancel = true ∧
        (parsed c.beat).clientOrderId = c.clientOrderId.toBitVec ∧
        (parsed c.beat).exchangeOrderId = c.exchangeOrderId.toBitVec ∧
        (parsed c.beat).raw = c.beat := by
  refine ⟨trace_passes is, errInvalidMsg_cycle _, fun i takes unknown => ?_,
    fun o => ⟨?_, parsed_order o⟩, fun c => ⟨?_, parsed_cancel c⟩⟩
  · rw [Regs.cycle, if_pos takes, unknown]
    rfl
  · rw [msgValid, isOrder, (order_header o).1]
    rfl
  · rw [msgValid, isOrder, isCancel, (cancel_words c).1]
    rfl

end HftGrading.Fpga.Sequencer.LosslessParser
