/- module: HftGrading/Fpga/Sequencer/HostReads
   source: fpga/rtl/dma_ring.sv
   digest: Which register a host read returns, and on what the answer depends. -/

import HftGrading.Fpga.Sequencer.DmaRing

set_option autoImplicit false
set_option relaxedAutoImplicit false

namespace HftGrading.Fpga.Sequencer.HostReads

open DmaRing

variable {aw ew : Nat}

inductive HostRegister
  | writePtr | readPtr | capacity | drops | status | unmapped
  deriving DecidableEq, Repr

def registerAt (addr : BitVec 16) : HostRegister :=
  if addr = 0x0000 then .writePtr
  else if addr = 0x0004 then .readPtr
  else if addr = 0x0008 then .capacity
  else if addr = 0x000C then .drops
  else if addr = 0x0010 then .status
  else .unmapped

def contents (r : Regs aw ew) : HostRegister → BitVec 32
  | .writePtr => r.writePtr.setWidth 32
  | .readPtr => r.readPtr.setWidth 32
  | .capacity => BitVec.ofNat 32 (depth aw)
  | .drops => r.dropCount
  | .status => 0#30 ++ BitVec.ofBool r.isFull ++ BitVec.ofBool r.isEmpty
  | .unmapped => 0

theorem hostView_eq (r : Regs aw ew) (addr : BitVec 16) :
    r.hostView addr = contents r (registerAt addr) := by
  unfold Regs.hostView registerAt
  split_ifs <;> rfl

def after (u : Regs aw ew) (is : List (Inputs ew)) : Regs aw ew := is.foldl Regs.cycle (reset u)

/-- A read in this cycle returns the register at its address. -/
def ReadsAddressed (r : Regs aw ew) (i : Inputs ew) : Prop :=
  i.hostRdEn = true → (r.cycle i).hostRdData = contents r (registerAt i.hostRdAddr)

/-- In a read the write address names the register the read address does. -/
def Aligned (i : Inputs ew) : Prop :=
  i.hostRdEn = true → registerAt i.hostWrAddr = registerAt i.hostRdAddr

instance (i : Inputs ew) : Decidable (Aligned i) := inferInstanceAs (Decidable (_ → _))

/-- Two cycles that differ at most in `host_wr_addr`, and only with `host_wr_en` low. -/
def SameButAddress (i j : Inputs ew) : Prop :=
  ∃ addr, j = { i with hostWrAddr := addr } ∧ (i.hostWrEn = true → addr = i.hostWrAddr)

section Reads

variable {r : Regs aw ew} {i j : Inputs ew}

theorem reads_write_address (reads : i.hostRdEn = true) :
    (r.cycle i).hostRdData = contents r (registerAt i.hostWrAddr) := by
  rw [← hostView_eq]
  exact if_pos reads

theorem Aligned.readsAddressed (aligned : Aligned i) : ReadsAddressed r i := by
  intro reads
  rw [reads_write_address reads, aligned reads]

theorem hostRdData_of_aligned (aligned : Aligned i) : (r.cycle i).hostRdData =
    if i.hostRdEn then contents r (registerAt i.hostRdAddr) else r.hostRdData := by
  split_ifs with reads
  · exact aligned.readsAddressed reads
  · exact if_neg reads

theorem cycle_eq_of_sameButAddress (same : SameButAddress i j) (aligned : Aligned i)
    (aligned' : Aligned j) : r.cycle j = r.cycle i := by
  have data : (r.cycle j).hostRdData = (r.cycle i).hostRdData := by
    obtain ⟨addr, rfl, -⟩ := same
    rw [hostRdData_of_aligned aligned, hostRdData_of_aligned aligned']
  obtain ⟨addr, rfl, low⟩ := same
  have read : (r.cycle { i with hostWrAddr := addr }).readPtr = (r.cycle i).readPtr := by
    by_cases enabled : i.hostWrEn = true
    · rw [low enabled]
    · simp only [Regs.cycle, Regs.nextRead, Regs.hostMoves, Bool.eq_false_iff.mpr enabled,
        Bool.false_and]
  exact Regs.mk.injEq .. ▸ ⟨rfl, read, rfl, rfl, data, rfl⟩

theorem after_eq_of_sameButAddress {is js : List (Inputs ew)} (same : List.Forall₂ SameButAddress is js)
    (aligned : ∀ i ∈ is, Aligned i) (aligned' : ∀ j ∈ js, Aligned j) (r : Regs aw ew) :
    js.foldl Regs.cycle r = is.foldl Regs.cycle r := by
  induction same generalizing r with
  | nil => rfl
  | cons here rest ih =>
    rw [List.forall_mem_cons] at aligned aligned'
    rw [List.foldl_cons, List.foldl_cons,
      cycle_eq_of_sameButAddress here aligned.1 aligned'.1]
    exact ih aligned.2 aligned'.2 _

end Reads

section Distinct

/-- A cycle without a read that presents an entry, with or without a host write of `read_ptr`. -/
def presenting (hostWrEn : Bool) : Inputs ew := ⟨true, 0, false, 0, hostWrEn, 0x0004, 4⟩

def telling : List (Inputs ew) := presenting true :: List.replicate 3 (presenting false)

def told (aw : Nat) : HostRegister → Nat
  | .writePtr => 1
  | .readPtr => 4
  | .capacity => 2 ^ aw
  | .drops => 3
  | .status => 2
  | .unmapped => 0

variable {r : Regs aw ew}

theorem cycle_dropped (full : r.isFull = true) :
    r.cycle (presenting false) = { r with dropCount := r.dropCount + 1, hostRdValid := false } := by
  simp only [Regs.cycle, Regs.nextWrite, Regs.nextRead, Regs.stores, Regs.hostMoves, presenting,
    full]
  rfl

theorem foldl_dropped (n : Nat) (full : r.isFull = true) :
    ∃ q, (List.replicate n (presenting false)).foldl Regs.cycle r = q ∧
      q.writePtr = r.writePtr ∧ q.readPtr = r.readPtr ∧
      q.dropCount = r.dropCount + BitVec.ofNat 32 n := by
  induction n generalizing r with
  | zero => exact ⟨r, rfl, rfl, rfl, (BitVec.add_zero _).symm⟩
  | succ n ih =>
    have still : (r.cycle (presenting false)).isFull = true := by
      rw [cycle_dropped full]
      exact full
    obtain ⟨q, reached, write, read, drops⟩ := ih still
    rw [cycle_dropped full] at write read drops
    refine ⟨q, reached, write, read, ?_⟩
    rw [drops, Nat.add_comm, BitVec.ofNat_add, ← BitVec.add_assoc]
    rfl

theorem after_stored (wide : 3 ≤ aw) (u : Regs aw ew) :
    ((reset u).cycle (presenting true)).writePtr.toNat = 1 ∧
      ((reset u).cycle (presenting true)).readPtr.toNat = 4 ∧
      ((reset u).cycle (presenting true)).dropCount = 0 := by
  have large : 8 ≤ 2 ^ aw := Nat.pow_le_pow_right (by omega : 0 < 2) wide
  have empty : (reset u).isFull = false := by
    refine Bool.eq_false_iff.mpr fun full => ?_
    rw [Regs.isFull, fullAt_iff] at full
    simp only [reset, depth, BitVec.ofNat_eq_ofNat, BitVec.toNat_ofNat, Nat.zero_mod] at full
    omega
  have stores : (reset u).stores (presenting true) = true := by
    simp only [Regs.stores, presenting, empty, Bool.not_false, Bool.and_true]
  refine ⟨?_, ?_, ?_⟩
  · show ((reset u).nextWrite (presenting true)).toNat = 1
    rw [Regs.nextWrite, if_pos stores]
    show (0 + BitVec.ofNat aw 1).toNat = 1
    rw [zero_add, BitVec.toNat_ofNat, Nat.mod_eq_of_lt (by omega)]
  · show ((4#32).setWidth aw).toNat = 4
    rw [BitVec.toNat_setWidth, BitVec.toNat_ofNat]
    exact Nat.mod_eq_of_lt (by omega)
  · show (if true && (reset u).isFull then _ else (0 : BitVec 32)) = 0
    rw [empty]
    rfl

theorem contents_telling (wide : 3 ≤ aw) (fits : aw < 32) (u : Regs aw ew)
    (register : HostRegister) : (contents (after u telling) register).toNat = told aw register := by
  obtain ⟨write, read, drops⟩ := after_stored wide u
  have ahead : ((reset u).cycle (presenting true)).isFull = true := by
    rw [Regs.isFull, fullAt_iff]
    omega
  obtain ⟨q, reached, write', read', drops'⟩ := foldl_dropped 3 ahead
  rw [← write'] at write
  rw [← read'] at read
  rw [drops] at drops'
  have full : q.isFull = true := by
    rw [Regs.isFull, fullAt_iff]
    omega
  have bound : 2 ^ aw < 2 ^ 32 := Nat.pow_lt_pow_right (by omega) fits
  have large : 8 ≤ 2 ^ aw := Nat.pow_le_pow_right (by omega : 0 < 2) wide
  rw [after, telling, List.foldl_cons, reached]
  cases register with
  | writePtr =>
    show (q.writePtr.setWidth 32).toNat = 1
    rw [BitVec.toNat_setWidth, write]
  | readPtr =>
    show (q.readPtr.setWidth 32).toNat = 4
    rw [BitVec.toNat_setWidth, read]
  | capacity =>
    show (BitVec.ofNat 32 (2 ^ aw)).toNat = 2 ^ aw
    rw [BitVec.toNat_ofNat, Nat.mod_eq_of_lt bound]
  | drops =>
    show q.dropCount.toNat = 3
    rw [drops']
    rfl
  | status =>
    have partly : q.isEmpty = false := by
      refine beq_eq_false_iff_ne.mpr fun same => ?_
      rw [same] at write
      omega
    show (0#30 ++ BitVec.ofBool q.isFull ++ BitVec.ofBool q.isEmpty).toNat = 2
    rw [full, partly]
    rfl
  | unmapped => rfl

theorem told_injective (wide : 3 ≤ aw) {register register' : HostRegister}
    (same : told aw register = told aw register') : register = register' := by
  have large : 8 ≤ 2 ^ aw := Nat.pow_le_pow_right (by omega : 0 < 2) wide
  cases register <;> cases register' <;> simp only [told] at same <;> first | rfl | omega

theorem aligned_telling : ∀ i ∈ (telling : List (Inputs ew)), Aligned i := by
  intro i listed
  rcases List.mem_cons.mp listed with rfl | later
  · exact fun reads => Bool.noConfusion reads
  · rw [List.eq_of_mem_replicate later]
    exact fun reads => Bool.noConfusion reads

end Distinct

/-- In every trace a read returns the register at its address if the write address names the same
one; two traces of such reads that differ only in idle write addresses give the same read data;
and a read whose addresses name two registers goes wrong in some trace. -/
theorem host_read_addressed_iff_aligned (aw ew : Nat) (u : Regs aw ew) :
    (∀ is i, Aligned i → ReadsAddressed (after u is) i) ∧
    (∀ is js, List.Forall₂ SameButAddress is js → (∀ k ∈ is ++ js, Aligned k) →
      ∀ n, (after u (is.take n)).hostRdData = (after u (js.take n)).hostRdData) ∧
    (3 ≤ aw → aw < 32 → ∀ i, ¬ Aligned i →
      ∃ is, (∀ k ∈ is, Aligned k) ∧ ¬ ReadsAddressed (after u is) i) := by
  refine ⟨?_, ?_, ?_⟩
  · intro is i aligned
    exact aligned.readsAddressed
  · intro is js same aligned n
    have start : List.Forall₂ SameButAddress (is.take n) (js.take n) := List.forall₂_take n same
    have first : ∀ k ∈ is.take n, Aligned k := fun k listed =>
      aligned k (List.mem_append_left js (List.mem_of_mem_take listed))
    have second : ∀ k ∈ js.take n, Aligned k := fun k listed =>
      aligned k (List.mem_append_right is (List.mem_of_mem_take listed))
    unfold after
    rw [after_eq_of_sameButAddress start first second]
  · intro wide fits i misaligned
    obtain ⟨reads, differ⟩ := Classical.not_imp.mp misaligned
    refine ⟨telling, aligned_telling, fun right => differ (told_injective wide ?_)⟩
    rw [← contents_telling wide fits u, ← contents_telling wide fits u, ← right reads,
      reads_write_address reads]

/-- A read of `capacity` with the write address at rest. -/
def readCapacity (hostWrAddr : BitVec 16) : Inputs 1024 :=
  ⟨false, 0, true, 0x0008, false, hostWrAddr, 0⟩

def resting (hostWrAddr : BitVec 16) : Inputs 1024 :=
  { readCapacity hostWrAddr with hostRdEn := false }

theorem capacity_read_addressed :
    let u : Regs 14 1024 := ⟨0, 0, 0, fun _ => 0, 0, false⟩
    ((after u [resting 0x0004]).cycle (readCapacity 0x0008)).hostRdData = 16384 ∧
      (after u [resting 0x0000, readCapacity 0x0008]).hostRdData =
        (after u [resting 0x0004, readCapacity 0x0008]).hostRdData ∧
      ∃ is, (∀ k ∈ is, Aligned k) ∧ ¬ ReadsAddressed (after u is) (readCapacity 0x0000) := by
  intro u
  obtain ⟨right, same, wrong⟩ := host_read_addressed_iff_aligned 14 1024 u
  have idle : ∀ addr addr', SameButAddress (resting addr) (resting addr') := fun addr addr' =>
    ⟨addr', rfl, fun enabled => Bool.noConfusion enabled⟩
  have still : SameButAddress (readCapacity 0x0008) (readCapacity 0x0008) :=
    ⟨0x0008, rfl, fun _ => rfl⟩
  refine ⟨right [resting 0x0004] _ (fun _ => rfl) rfl, ?_, wrong (by decide) (by decide) _ (by decide)⟩
  exact same _ _ (.cons (idle _ _) (.cons still .nil)) (by decide) 2

theorem idle_write_address_selects_register :
    let u : Regs 14 1024 := ⟨0, 0, 0, fun _ => 0, 0, false⟩
    SameButAddress (readCapacity 0x0000) (readCapacity 0x0008) ∧
      ¬ ReadsAddressed (after u []) (readCapacity 0x0000) ∧
      (after u [readCapacity 0x0000]).hostRdData = 0 ∧
      (after u [readCapacity 0x0008]).hostRdData = 16384 := by
  refine ⟨⟨0x0008, rfl, fun enabled => Bool.noConfusion enabled⟩, ?_, rfl, rfl⟩
  intro right
  exact absurd (right rfl) (by decide)

end HftGrading.Fpga.Sequencer.HostReads
