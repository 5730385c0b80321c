/- module: HftGrading/Fpga/Sequencer/OrderParser
   source: fpga/rtl/order_parser.sv
   digest: The parser's output register, its handshake and the fields it cuts from a beat. -/

import Mathlib.Data.BitVec

set_option autoImplicit false
set_option relaxedAutoImplicit false

namespace HftGrading.Fpga.Sequencer.OrderParser

-- `DATA_WIDTH`.
variable {dw : Nat}

def msgOrderEntry : BitVec 8 := 10
def msgCancelRequest : BitVec 8 := 11

structure Inputs (dw : Nat) where
  inValid : Bool
  inData : BitVec dw
  outReady : Bool
  deriving DecidableEq, Repr

structure Regs (dw : Nat) where
  outValid : Bool
  outMsgType : BitVec 8
  outSide : BitVec 8
  outOrderType : BitVec 8
  outInstrumentId : BitVec 8
  outClientOrderId : BitVec 32
  outPrice : BitVec 64
  outQuantity : BitVec 32
  outExchangeOrderId : BitVec 64
  outIsCancel : Bool
  outRaw : BitVec dw
  errInvalidMsg : Bool
  deriving DecidableEq, Repr

def reset : Regs dw := ⟨false, 0, 0, 0, 0, 0, 0, 0, 0, false, 0, false⟩

section Fields

variable (data : BitVec dw)

def rawMsgType : BitVec 8 := data.extractLsb' 0 8
def rawSide : BitVec 8 := data.extractLsb' 8 8
def rawOrderType : BitVec 8 := data.extractLsb' 16 8
def rawInstrumentId : BitVec 8 := data.extractLsb' 24 8
def rawClientOrderId : BitVec 32 := data.extractLsb' 32 32
def rawPrice : BitVec 64 := data.extractLsb' 64 64
def rawQuantity : BitVec 32 := data.extractLsb' 128 32
def rawExchangeOid : BitVec 64 := data.extractLsb' 64 64

def isOrder : Bool := rawMsgType data == msgOrderEntry
def isCancel : Bool := rawMsgType data == msgCancelRequest
def msgValid : Bool := isOrder data || isCancel data

end Fields

namespace Regs

variable (r : Regs dw) (i : Inputs dw)

def inReady : Bool := i.outReady || !r.outValid

def takes : Bool := i.inValid && r.inReady i

def parse (data : BitVec dw) : Regs dw :=
  { r with
    outValid := true
    outMsgType := rawMsgType data
    outSide := rawSide data
    outOrderType := rawOrderType data
    outInstrumentId := rawInstrumentId data
    outClientOrderId := rawClientOrderId data
    outIsCancel := isCancel data
    outRaw := data
    outPrice := if isOrder data then rawPrice data else 0
    outQuantity := if isOrder data then rawQuantity data else 0
    outExchangeOrderId := if isOrder data then 0 else rawExchangeOid data }

def cycle : Regs dw :=
  if r.takes i then
    if msgValid i.inData then { r.parse i.inData with errInvalidMsg := false }
    else { r with outValid := false, errInvalidMsg := true }
  else if i.outReady then { r with outValid := false, errInvalidMsg := false }
  else { r with errInvalidMsg := false }

end Regs

end HftGrading.Fpga.Sequencer.OrderParser
