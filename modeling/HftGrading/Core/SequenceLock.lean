/- module: HftGrading/Core/SequenceLock
   source: core/include/core/spinlock.hpp
   digest: The sequence lock, its writer and its readers, one access at a time: snapshots. -/

import HftGrading.Lib.PartialExecution
import Mathlib.Data.UInt

set_option autoImplicit false
set_option relaxedAutoImplicit false

namespace HftGrading.Core.SequenceLock

open Function (update)
open Lib.PartialExecution

universe u

variable {n : Nat} {W : Type u}

structure SeqLock where
  seq : UInt32
  deriving DecidableEq, Repr

/-- Where the writer is: outside, between the load and the store of `write_lock`, updating the
record, or between the load and the store of `write_unlock`. -/
inductive Writer
  | idle
  | locking (loaded : UInt32)
  | writing
  | unlocking (loaded : UInt32)
  deriving DecidableEq, Repr

/-- Where a reader is: outside or in the loop of `read_begin`; copying, with the words copied so
far; or back from `read_valid` with its result. `begun` is the number of writes that were
completed when `read_begin` returned. -/
inductive Reader (n : Nat) (W : Type u)
  | idle
  | reading (startSeq : UInt32) (copy : Fin n → Option W) (begun : Nat)
  | returned (valid : Bool) (copy : Fin n → Option W) (begun : Nat)

/-- The lock, the record it protects, the threads, and the record as it was initially and after
each of the completed writes. -/
structure System (n : Nat) (W : Type u) where
  seqLock : SeqLock
  data : Fin n → W
  writer : Writer
  readers : Nat → Reader n W
  initial : Fin n → W
  written : List (Fin n → W)

def System.init (data : Fin n → W) : System n W :=
  ⟨⟨0⟩, data, .idle, fun _ => .idle, data, []⟩

/-- The accesses of the writer, then those of a reader. -/
inductive Step (n : Nat) (W : Type u)
  | lockLoad
  | lockStore
  | writeWord (i : Fin n) (word : W)
  | unlockLoad
  | unlockStore
  | readBegin (reader : Nat)
  | readWord (reader : Nat) (i : Fin n)
  | readValid (reader : Nat)
  deriving DecidableEq, Repr

namespace System

variable (s : System n W)

def completed : Nat := s.written.length

/-- The record as it was after the first `k` writes. -/
def record (k : Nat) : Option (Fin n → W) := (s.initial :: s.written)[k]?

def lockLoad : Option (System n W) :=
  match s.writer with
  | .idle => some { s with writer := .locking s.seqLock.seq }
  | _ => none

def lockStore : Option (System n W) :=
  match s.writer with
  | .locking loaded => some { s with seqLock := ⟨loaded + 1⟩, writer := .writing }
  | _ => none

def writeWord (i : Fin n) (word : W) : Option (System n W) :=
  match s.writer with
  | .writing => some { s with data := update s.data i word }
  | _ => none

def unlockLoad : Option (System n W) :=
  match s.writer with
  | .writing => some { s with writer := .unlocking s.seqLock.seq }
  | _ => none

def unlockStore : Option (System n W) :=
  match s.writer with
  | .unlocking loaded => some { s with
      seqLock := ⟨loaded + 1⟩
      writer := .idle
      written := s.written ++ [s.data] }
  | _ => none

/-- One round of the loop of `read_begin`, from outside a read. -/
def readBegin (reader : Nat) : Option (System n W) :=
  match s.readers reader with
  | .reading _ _ _ => none
  | _ =>
    if s.seqLock.seq &&& 1 = 0 then
      some { s with
        readers := update s.readers reader (.reading s.seqLock.seq (fun _ => none) s.completed) }
    else some s

def readWord (reader : Nat) (i : Fin n) : Option (System n W) :=
  match s.readers reader with
  | .reading startSeq copy begun => some { s with
      readers := update s.readers reader
        (.reading startSeq (update copy i (some (s.data i))) begun) }
  | _ => none

def readValid (reader : Nat) : Option (System n W) :=
  match s.readers reader with
  | .reading startSeq copy begun => some { s with
      readers := update s.readers reader (.returned (s.seqLock.seq == startSeq) copy begun) }
  | _ => none

def step : Step n W → Option (System n W)
  | .lockLoad => s.lockLoad
  | .lockStore => s.lockStore
  | .writeWord i word => s.writeWord i word
  | .unlockLoad => s.unlockLoad
  | .unlockStore => s.unlockStore
  | .readBegin reader => s.readBegin reader
  | .readWord reader i => s.readWord reader i
  | .readValid reader => s.readValid reader

end System

inductive Moves (s : System n W) : System n W → Prop
  | lockLoads (idle : s.writer = .idle) : Moves s { s with writer := .locking s.seqLock.seq }
  | lockStores {loaded : UInt32} (locking : s.writer = .locking loaded) :
      Moves s { s with seqLock := ⟨loaded + 1⟩, writer := .writing }
  | writes (writing : s.writer = .writing) (i : Fin n) (word : W) :
      Moves s { s with data := update s.data i word }
  | unlockLoads (writing : s.writer = .writing) :
      Moves s { s with writer := .unlocking s.seqLock.seq }
  | unlockStores {loaded : UInt32} (unlocking : s.writer = .unlocking loaded) :
      Moves s { s with
        seqLock := ⟨loaded + 1⟩
        writer := .idle
        written := s.written ++ [s.data] }
  | begins {reader : Nat} (even : s.seqLock.seq &&& 1 = 0) :
      Moves s { s with
        readers := update s.readers reader (.reading s.seqLock.seq (fun _ => none) s.completed) }
  | waits : Moves s s
  | copies {reader : Nat} {startSeq : UInt32} {copy : Fin n → Option W} {begun : Nat}
      (reading : s.readers reader = .reading startSeq copy begun) (i : Fin n) :
      Moves s { s with
        readers := update s.readers reader
          (.reading startSeq (update copy i (some (s.data i))) begun) }
  | validates {reader : Nat} {startSeq : UInt32} {copy : Fin n → Option W} {begun : Nat}
      (reading : s.readers reader = .reading startSeq copy begun) :
      Moves s { s with
        readers := update s.readers reader (.returned (s.seqLock.seq == startSeq) copy begun) }

section Steps

variable {s s' : System n W}

theorem lock_moves (move : s.lockLoad = some s' ∨ s.lockStore = some s') : Moves s s' := by
  rcases move with move | move
  · unfold System.lockLoad at move
    split at move
    · next idle =>
        cases move
        exact .lockLoads idle
    · cases move
  · unfold System.lockStore at move
    split at move
    · next locking =>
        cases move
        exact .lockStores locking
    · cases move

theorem writeWord_moves {i : Fin n} {word : W} (move : s.writeWord i word = some s') :
    Moves s s' := by
  unfold System.writeWord at move
  split at move
  · next writing =>
      cases move
      exact .writes writing i word
  · cases move

theorem unlock_moves (move : s.unlockLoad = some s' ∨ s.unlockStore = some s') : Moves s s' := by
  rcases move with move | move
  · unfold System.unlockLoad at move
    split at move
    · next writing =>
        cases move
        exact .unlockLoads writing
    · cases move
  · unfold System.unlockStore at move
    split at move
    · next unlocking =>
        cases move
        exact .unlockStores unlocking
    · cases move

theorem readBegin_moves {reader : Nat} (move : s.readBegin reader = some s') : Moves s s' := by
  unfold System.readBegin at move
  split at move
  · cases move
  · split_ifs at move with even
    · cases move
      exact .begins even
    · cases move
      exact .waits

theorem readWord_moves {reader : Nat} {i : Fin n} (move : s.readWord reader i = some s') :
    Moves s s' := by
  unfold System.readWord at move
  split at move
  · next reading =>
      cases move
      exact .copies reading i
  · cases move

theorem readValid_moves {reader : Nat} (move : s.readValid reader = some s') : Moves s s' := by
  unfold System.readValid at move
  split at move
  · next reading =>
      cases move
      exact .validates reading
  · cases move

theorem step_moves {a : Step n W} (move : s.step a = some s') : Moves s s' := by
  cases a with
  | lockLoad => exact lock_moves (Or.inl move)
  | lockStore => exact lock_moves (Or.inr move)
  | writeWord i word => exact writeWord_moves move
  | unlockLoad => exact unlock_moves (Or.inl move)
  | unlockStore => exact unlock_moves (Or.inr move)
  | readBegin reader => exact readBegin_moves move
  | readWord reader i => exact readWord_moves move
  | readValid reader => exact readValid_moves move

end Steps

/-- The copied words are those of the record. -/
def Copies (copy : Fin n → Option W) (record : Fin n → W) : Prop :=
  ∀ i, copy i = none ∨ copy i = some (record i)

/-- What the sequence number is ahead of the even one of the last completed write: it is odd
while the record may be changing. -/
def Writer.odd : Writer → Nat
  | .idle => 0
  | .locking _ => 0
  | .writing => 1
  | .unlocking _ => 1

def Writer.Loaded (seq : UInt32) : Writer → Prop
  | .idle => True
  | .locking loaded => loaded = seq
  | .writing => True
  | .unlocking loaded => loaded = seq

def Sampled (s : System n W) : Reader n W → Prop
  | .idle => True
  | .reading startSeq copy begun => startSeq.toNat = 2 * begun ∧ begun ≤ s.completed ∧
      (s.seqLock.seq = startSeq → Copies copy s.data)
  | .returned valid copy begun =>
    valid = true → ∃ record, s.record begun = some record ∧ Copies copy record

structure Sequenced (s : System n W) : Prop where
  counted : s.seqLock.seq.toNat = 2 * s.completed + s.writer.odd
  loaded : s.writer.Loaded s.seqLock.seq
  settled : s.writer.odd = 0 → s.record s.completed = some s.data
  sampled : ∀ r, Sampled s (s.readers r)

theorem sequenced_init (data : Fin n → W) : Sequenced (System.init data) :=
  ⟨rfl, trivial, fun _ => rfl, fun _ => trivial⟩

section Invariant

variable {s s' : System n W}

theorem Sequenced.sampled_of_reader (sequenced : Sequenced s) {reader : Nat} {stage : Reader n W}
    (found : s.readers reader = stage) : Sampled s stage :=
  found ▸ sequenced.sampled reader

/-- A step of the writer leaves a reader what it has, if it only adds records and changes the
record only with the sequence number away from all earlier even ones. -/
theorem Sampled.later {stage : Reader n W} (sampled : Sampled s stage)
    (more : ∃ writes, s'.written = s.written ++ writes) (initial : s'.initial = s.initial)
    (same : ∀ k ≤ s.completed, s'.seqLock.seq.toNat = 2 * k →
      s'.seqLock = s.seqLock ∧ s'.data = s.data) : Sampled s' stage := by
  obtain ⟨writes, written⟩ := more
  cases stage with
  | idle => trivial
  | reading startSeq copy begun =>
    obtain ⟨even, before, copies⟩ := sampled
    refine ⟨even, ?_, fun start => ?_⟩
    · rw [System.completed, written, List.length_append]
      exact Nat.le_add_right_of_le before
    · obtain ⟨seq, data⟩ := same begun before (start ▸ even)
      rw [data]
      exact copies (seq ▸ start)
  | returned valid copy begun =>
    intro success
    obtain ⟨record, found, copies⟩ := sampled success
    refine ⟨record, ?_, copies⟩
    unfold System.record at found ⊢
    obtain ⟨inside, -⟩ := List.getElem?_eq_some_iff.mp found
    rwa [initial, written, ← List.cons_append, List.getElem?_append_left inside]

theorem Sequenced.valid (sequenced : Sequenced s) {reader : Nat} {startSeq : UInt32}
    {copy : Fin n → Option W} {begun : Nat}
    (reading : s.readers reader = .reading startSeq copy begun)
    (unchanged : s.seqLock.seq = startSeq) :
    ∃ record, s.record begun = some record ∧ Copies copy record := by
  obtain ⟨even, before, copies⟩ := sequenced.sampled_of_reader reading
  have counted := sequenced.counted
  rw [unchanged, even] at counted
  -- both numbers are even and the reader's is not larger, so no write is open or completed since
  have still : s.writer.odd = 0 := by omega
  have last : begun = s.completed := by omega
  exact ⟨s.data, last ▸ sequenced.settled still, copies unchanged⟩

theorem Sequenced.lockStores (sequenced : Sequenced s) (few : s.completed < 2 ^ 31)
    {loaded : UInt32} (locking : s.writer = .locking loaded) :
    Sequenced { s with seqLock := ⟨loaded + 1⟩, writer := .writing } := by
  have counted := sequenced.counted
  have found := sequenced.loaded
  simp only [locking, Writer.odd, Writer.Loaded] at counted found
  have odd : (loaded + 1).toNat = 2 * s.completed + 1 := by
    rw [UInt32.toNat_add, UInt32.toNat_one, found]
    omega
  refine ⟨odd, trivial, fun zero => ?_, fun r => (sequenced.sampled r).later ⟨[], by simp⟩ rfl ?_⟩
  · cases zero
  · intro k before even
    simp only [odd] at even
    omega

theorem Sequenced.writes (sequenced : Sequenced s) (writing : s.writer = .writing) (i : Fin n)
    (word : W) : Sequenced { s with data := update s.data i word } := by
  have counted := sequenced.counted
  refine ⟨sequenced.counted, sequenced.loaded, fun zero => ?_,
    fun r => (sequenced.sampled r).later ⟨[], by simp⟩ rfl ?_⟩
  · simp only [writing, Writer.odd] at zero
    cases zero
  · intro k before even
    simp only [writing, Writer.odd] at counted even
    omega

theorem Sequenced.unlockStores (sequenced : Sequenced s) (few : s.completed + 1 < 2 ^ 31)
    {loaded : UInt32} (unlocking : s.writer = .unlocking loaded) :
    Sequenced { s with
      seqLock := ⟨loaded + 1⟩
      writer := .idle
      written := s.written ++ [s.data] } := by
  have counted := sequenced.counted
  have found := sequenced.loaded
  simp only [unlocking, Writer.odd, Writer.Loaded] at counted found
  have even : (loaded + 1).toNat = 2 * (s.completed + 1) := by
    rw [UInt32.toNat_add, UInt32.toNat_one, found]
    omega
  refine ⟨?_, trivial, fun _ => ?_,
    fun r => (sequenced.sampled r).later ⟨[s.data], rfl⟩ rfl ?_⟩
  · simpa [System.completed, Writer.odd] using even
  · simp [System.completed, System.record]
  · intro k before even'
    simp only [even] at even'
    omega

theorem Sequenced.reads (sequenced : Sequenced s) {reader : Nat} {stage : Reader n W}
    (sampled : Sampled s stage) :
    Sequenced { s with readers := update s.readers reader stage } := by
  refine ⟨sequenced.counted, sequenced.loaded, sequenced.settled, ?_⟩
  rw [Function.forall_update_iff]
  exact ⟨sampled, fun r _ => sequenced.sampled r⟩

theorem Sequenced.begins (sequenced : Sequenced s) (even : s.seqLock.seq &&& 1 = 0) :
    Sampled s (.reading s.seqLock.seq (fun _ => none) s.completed) := by
  have low : s.seqLock.seq.toNat % 2 = 0 := by
    rw [← Nat.and_one_is_mod, ← UInt32.toNat_one, ← UInt32.toNat_and, even, UInt32.toNat_zero]
  have counted := sequenced.counted
  have most : s.writer.odd ≤ 1 := by cases s.writer <;> simp [Writer.odd]
  exact ⟨by omega, le_rfl, fun _ i => Or.inl rfl⟩

theorem Copies.update {copy : Fin n → Option W} {record : Fin n → W} (copies : Copies copy record)
    (i : Fin n) : Copies (update copy i (some (record i))) record := by
  refine (Function.forall_update_iff copy fun j word => word = none ∨ word = some (record j)).mpr ?_
  exact ⟨Or.inr rfl, fun j _ => copies j⟩

theorem Sequenced.moves (sequenced : Sequenced s) (move : Moves s s')
    (few : s'.completed < 2 ^ 31) : Sequenced s' := by
  cases move with
  | lockLoads idle =>
    have counted := sequenced.counted
    have settled := sequenced.settled
    rw [idle] at counted settled
    exact ⟨counted, rfl, settled, sequenced.sampled⟩
  | lockStores locking => exact sequenced.lockStores few locking
  | writes writing i word => exact sequenced.writes writing i word
  | unlockLoads writing =>
    have counted := sequenced.counted
    rw [writing] at counted
    exact ⟨counted, rfl, fun zero => absurd zero Nat.one_ne_zero, sequenced.sampled⟩
  | unlockStores unlocking =>
    exact sequenced.unlockStores (by simpa [System.completed] using few) unlocking
  | begins even => exact sequenced.reads (sequenced.begins even)
  | waits => exact sequenced
  | copies reading i =>
    obtain ⟨even, before, copies⟩ := sequenced.sampled_of_reader reading
    exact sequenced.reads ⟨even, before, fun start => (copies start).update i⟩
  | validates reading =>
    exact sequenced.reads fun valid => sequenced.valid reading (beq_iff_eq.mp valid)

theorem Moves.completed_le (move : Moves s s') : s.completed ≤ s'.completed := by
  cases move <;> simp [System.completed]

end Invariant

/-- In every state with fewer than 2^31 completed writes, a read found valid has copied words of
the record as it was after the last write completed when `read_begin` returned. -/
theorem valid_reads_are_snapshots (data : Fin n → W) (steps : List (Step n W)) (s : System n W)
    (reached : run System.step (System.init data) steps = some s) (few : s.completed < 2 ^ 31)
    (reader : Nat) (copy : Fin n → Option W) (begun : Nat)
    (valid : s.readers reader = .returned true copy begun) :
    ∃ record, s.record begun = some record ∧ Copies copy record := by
  have earlier : ∀ s a s', System.step s a = some s' → s'.completed < 2 ^ 31 →
      s.completed < 2 ^ 31 :=
    fun s a (s' : System n W) move few => Nat.lt_of_le_of_lt (step_moves move).completed_le few
  have sequenced : Sequenced s :=
    run_keeps_within earlier (fun _ _ _ sequenced move => sequenced.moves (step_moves move))
      (sequenced_init data) reached few
  exact sequenced.sampled_of_reader valid rfl

def overlapped : List (Step 2 Nat) :=
  [.readBegin 0, .readWord 0 0, .lockLoad, .lockStore, .writeWord 0 5, .writeWord 1 6,
    .readWord 0 1, .readValid 0, .readBegin 0, .unlockLoad, .unlockStore, .readBegin 0,
    .readWord 0 1, .readWord 0 0, .readValid 0]

theorem overlapped_snapshot :
    ∃ s copy, run System.step (System.init fun _ => 0) overlapped = some s ∧
      s.readers 0 = .returned true copy 1 ∧ copy 0 = some 5 ∧ copy 1 = some 6 ∧
      ∃ record, s.record 1 = some record ∧ Copies copy record :=
  ⟨_, _, rfl, rfl, rfl, rfl,
    valid_reads_are_snapshots (fun _ => 0) overlapped _ rfl (by decide) 0 _ 1 rfl⟩

end HftGrading.Core.SequenceLock
