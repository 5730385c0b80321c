/- module: HftGrading/Fpga/IicpcPkg
   source: fpga/rtl/iicpc_pkg.sv
   digest: The protocol constants the hardware modules share. -/

import Mathlib.Data.BitVec

set_option autoImplicit false
set_option relaxedAutoImplicit false

namespace HftGrading.Fpga.IicpcPkg

def msgOrderEntry : BitVec 8 := 10
def msgCancelReq : BitVec 8 := 11

def sideBuy : BitVec 8 := 0
def sideSell : BitVec 8 := 1

def orderLimit : BitVec 8 := 0
def orderMarket : BitVec 8 := 1
def orderIoc : BitVec 8 := 2

def ackAccepted : BitVec 8 := 0
def ackRejectedUnknown : BitVec 8 := 5
def ackCancelled : BitVec 8 := 6

def maxSweepDepth : Nat := 16

@[simp]
theorem sideSell_ne_sideBuy : sideSell ≠ sideBuy := by decide

@[simp]
theorem sideBuy_ne_sideSell : sideBuy ≠ sideSell := by decide

@[simp]
theorem msgOrderEntry_ne_msgCancelReq : msgOrderEntry ≠ msgCancelReq := by decide

end HftGrading.Fpga.IicpcPkg
