/- module: HftGrading/Fpga/MatchEngine/BestOfLive
   source: fpga/rtl/match_engine_fpga.sv
   digest: When the BBO registers show the best of the live orders. -/

import HftGrading.Fpga.MatchEngine.PipelineFlush

set_option autoImplicit false
set_option relaxedAutoImplicit false

namespace HftGrading.Fpga.MatchEngine.BestOfLive

open Lib.PartialExecution IicpcPkg EngineRegisters ClockedRuns PipelineFlush

def liveQty (side : BookSide) (price : Price) (live : List LiveOrder) : Nat :=
  ((live.filter (fun o => o.side = side ∧ o.price = price)).map LiveOrder.quantity).sum

def NoBetter : BookSide → Price → Price → Prop
  | .bid, price, bestPrice => price ≤ bestPrice
  | .ask, price, bestPrice => bestPrice ≤ price

/-- The registers of a side show the best of the live orders. -/
structure Reflects (b : Bbo) (side : BookSide) (live : List LiveOrder) : Prop where
  flag : b.valid = true ↔ ∃ o ∈ live, o.side = side
  reached : b.valid = true → ∃ o ∈ live, o.side = side ∧ o.price = b.price
  extreme : b.valid = true → ∀ o ∈ live, o.side = side → NoBetter side o.price b.price
  total : b.valid = true → b.qty.toNat = liveQty side b.price live

section Quantities

variable {side : BookSide} {price : Price} {live : List LiveOrder}

theorem liveQty_cons (o : LiveOrder) (os : List LiveOrder) :
    liveQty side price (o :: os) =
      (if o.side = side ∧ o.price = price then o.quantity else 0) + liveQty side price os := by
  unfold liveQty
  by_cases here : o.side = side ∧ o.price = price <;> simp [here]

theorem liveQty_append (os os' : List LiveOrder) :
    liveQty side price (os ++ os') = liveQty side price os + liveQty side price os' := by
  simp [liveQty]

theorem liveQty_eq_zero (none : ∀ o ∈ live, o.side = side → o.price ≠ price) :
    liveQty side price live = 0 := by
  have empty : live.filter (fun o => o.side = side ∧ o.price = price) = [] := by
    simpa [List.filter_eq_nil_iff] using none
  rw [liveQty, empty]
  rfl

theorem liveQty_filter {keep : LiveOrder → Bool}
    (kept : ∀ o ∈ live, o.side = side → o.price = price → keep o = true) :
    liveQty side price (live.filter keep) = liveQty side price live := by
  unfold liveQty
  rw [List.filter_filter]
  congr 2
  refine List.filter_congr fun o listed => ?_
  by_cases here : o.side = side ∧ o.price = price
  · simp [here, kept o listed here.1 here.2]
  · simp [here]

theorem exists_of_liveQty_pos (some : 0 < liveQty side price live) :
    ∃ o ∈ live, o.side = side ∧ o.price = price := by
  by_contra none
  push Not at none
  rw [liveQty_eq_zero none] at some
  exact absurd some (Nat.lt_irrefl 0)

theorem liveQty_pos (positive : ∀ o ∈ live, 0 < o.quantity) {o : LiveOrder} (listed : o ∈ live)
    (here : o.side = side ∧ o.price = price) : 0 < liveQty side price live := by
  induction live with
  | nil => cases listed
  | cons a as ih =>
    rw [liveQty_cons]
    rcases List.mem_cons.mp listed with rfl | later
    · rw [if_pos here]
      have := positive o (List.mem_cons_self ..)
      omega
    · have := ih (fun b old => positive b (List.mem_cons_of_mem _ old)) later
      omega

end Quantities

section Consuming

variable {side : BookSide} {price : Price}

theorem liveQty_consume (qty : Nat) (live : List LiveOrder) :
    liveQty side price (consume side price qty live) = liveQty side price live - qty := by
  induction live generalizing qty with
  | nil => simp [consume, liveQty]
  | cons o os ih =>
    unfold consume
    rw [liveQty_cons o os]
    split_ifs with here more
    · rw [liveQty_cons, if_pos here]
      show o.quantity - qty + _ = _
      omega
    · rw [ih]
      omega
    · rw [liveQty_cons, if_neg here, ih]
      omega

theorem mem_consume_elsewhere {qty : Nat} {live : List LiveOrder} {o : LiveOrder}
    (elsewhere : ¬ (o.side = side ∧ o.price = price)) :
    o ∈ consume side price qty live ↔ o ∈ live := by
  induction live generalizing qty with
  | nil => rfl
  | cons a as ih =>
    unfold consume
    split_ifs with here more
    · have other : o ≠ a ∧ o ≠ { a with quantity := a.quantity - qty } :=
        ⟨fun same => elsewhere (same ▸ here), fun same => elsewhere (same ▸ here)⟩
      simp only [List.mem_cons, other.1, other.2, false_or]
    · have other : o ≠ a := fun same => elsewhere (same ▸ here)
      simp only [List.mem_cons, other, false_or, ih]
    · simp only [List.mem_cons, ih]

theorem liveQty_consume_elsewhere {side' : BookSide} {price' : Price}
    (elsewhere : ¬ (side' = side ∧ price' = price)) (qty : Nat) (live : List LiveOrder) :
    liveQty side' price' (consume side price qty live) = liveQty side' price' live := by
  induction live generalizing qty with
  | nil => rfl
  | cons o os ih =>
    unfold consume
    by_cases here : o.side = side ∧ o.price = price
    · have apart : ¬ (o.side = side' ∧ o.price = price') := fun there =>
        elsewhere ⟨there.1.symm.trans here.1, there.2.symm.trans here.2⟩
      rw [if_pos here, liveQty_cons o os, if_neg apart, Nat.zero_add]
      split_ifs with more
      · rw [liveQty_cons, if_neg apart, Nat.zero_add]
      · exact ih _
    · rw [if_neg here, liveQty_cons, liveQty_cons, ih]

theorem consume_positive {qty : Nat} {live : List LiveOrder}
    (positive : ∀ o ∈ live, 0 < o.quantity) : ∀ o ∈ consume side price qty live, 0 < o.quantity := by
  induction live generalizing qty with
  | nil => exact positive
  | cons a as ih =>
    have later : ∀ o ∈ as, 0 < o.quantity :=
      fun o old => positive o (List.mem_cons_of_mem _ old)
    unfold consume
    split_ifs with here more
    · rintro o listed
      rcases List.mem_cons.mp listed with rfl | old
      · exact Nat.sub_pos_of_lt more
      · exact later o old
    · exact ih later
    · rintro o listed
      rcases List.mem_cons.mp listed with rfl | old
      · exact positive o (List.mem_cons_self ..)
      · exact ih later o old

end Consuming

section Prices

variable {side : BookSide} {p q t : Price}

def better : BookSide → Price → Price → Bool
  | .bid => fun price bestPrice => decide (price > bestPrice)
  | .ask => fun price bestPrice => decide (price < bestPrice)

theorem noBetter_refl : NoBetter side p p := by
  cases side <;> exact BitVec.le_refl p

theorem better_eq_false_iff : better side p q = false ↔ NoBetter side p q := by
  cases side with
  | bid => simp only [better, NoBetter, decide_eq_false_iff_not, gt_iff_lt, BitVec.not_lt]
  | ask => simp only [better, NoBetter, decide_eq_false_iff_not, BitVec.not_lt]

theorem NoBetter.trans (first : NoBetter side p q) (second : NoBetter side q t) :
    NoBetter side p t := by
  cases side with
  | bid => exact BitVec.le_trans first second
  | ask => exact BitVec.le_trans second first

theorem noBetter_of_better (ahead : better side q p = true) : NoBetter side p q ∧ p ≠ q := by
  cases side with
  | bid =>
    simp only [better, decide_eq_true_eq] at ahead
    exact ⟨BitVec.le_of_lt ahead, BitVec.ne_of_lt ahead⟩
  | ask =>
    simp only [better, decide_eq_true_eq] at ahead
    exact ⟨BitVec.le_of_lt ahead, (BitVec.ne_of_lt ahead).symm⟩

end Prices

section Reflecting

variable {b : Bbo} {side : BookSide} {live : List LiveOrder}

theorem reflects_none (empty : b.valid = false) (none : ∀ o ∈ live, o.side ≠ side) :
    Reflects b side live := by
  have down : b.valid ≠ true := Bool.eq_false_iff.mp empty
  exact ⟨⟨fun flag => absurd flag down, fun ⟨o, listed, own⟩ => absurd own (none o listed)⟩,
    fun flag => absurd flag down, fun flag => absurd flag down, fun flag => absurd flag down⟩

theorem Reflects.absent (reflects : Reflects b side live) (empty : b.valid = false) :
    ∀ o ∈ live, o.side ≠ side := fun o listed own =>
  Bool.noConfusion (empty.symm.trans (reflects.flag.mpr ⟨o, listed, own⟩))

theorem Reflects.append_other (reflects : Reflects b side live) {o : LiveOrder}
    (other : o.side ≠ side) : Reflects b side (live ++ [o]) where
  flag := by
    simp only [List.mem_append, List.mem_singleton, or_and_right, exists_or, exists_eq_left, other,
      or_false]
    exact reflects.flag
  reached valid := by
    obtain ⟨a, listed, here⟩ := reflects.reached valid
    exact ⟨a, List.mem_append_left _ listed, here⟩
  extreme valid a listed own := by
    rcases List.mem_append.mp listed with old | new
    · exact reflects.extreme valid a old own
    · rw [List.mem_singleton.mp new] at own
      exact absurd own other
  total valid := by
    have none : liveQty side b.price [o] = 0 := by
      rw [liveQty_cons, if_neg fun here => other here.1]
      rfl
    rw [liveQty_append, none]
    exact reflects.total valid

theorem Reflects.append_own (reflects : Reflects b side live) (valid : b.valid = true)
    {o : LiveOrder} (own : o.side = side) (behind : NoBetter side o.price b.price) {qty : Quantity}
    (sum : qty.toNat = b.qty.toNat + liveQty side b.price [o]) :
    Reflects { b with qty := qty } side (live ++ [o]) where
  flag := ⟨fun _ => ⟨o, by simp, own⟩, fun _ => valid⟩
  reached _ := by
    obtain ⟨a, listed, here⟩ := reflects.reached valid
    exact ⟨a, List.mem_append_left _ listed, here⟩
  extreme _ a listed of := by
    rcases List.mem_append.mp listed with old | new
    · exact reflects.extreme valid a old of
    · rw [List.mem_singleton.mp new]
      exact behind
  total _ := by
    show qty.toNat = _
    rw [liveQty_append, ← reflects.total valid, sum]

theorem reflects_ahead {o : LiveOrder} {qty : Quantity} (slot : Slot) (own : o.side = side)
    (quantity : o.quantity = qty.toNat)
    (ahead : ∀ a ∈ live, a.side = side → NoBetter side a.price o.price ∧ a.price ≠ o.price) :
    Reflects ⟨o.price, qty, slot, true⟩ side (live ++ [o]) where
  flag := ⟨fun _ => ⟨o, by simp, own⟩, fun _ => rfl⟩
  reached _ := ⟨o, by simp, own, rfl⟩
  extreme _ a listed of := by
    rcases List.mem_append.mp listed with old | new
    · exact (ahead a old of).1
    · rw [List.mem_singleton.mp new]
      exact noBetter_refl
  total _ := by
    have none : liveQty side o.price live = 0 :=
      liveQty_eq_zero fun a listed of => (ahead a listed of).2
    rw [liveQty_append, none, liveQty_cons, if_pos ⟨own, rfl⟩, quantity]
    exact (Nat.zero_add _).symm

theorem Reflects.join (reflects : Reflects b side live) {o : LiveOrder} {qty : Quantity}
    (slot : Slot) (own : o.side = side) (quantity : o.quantity = qty.toNat)
    (room : b.valid = true → o.price = b.price → b.qty.toNat + qty.toNat < 2 ^ 32) :
    Reflects (b.join (better side) o.price qty slot) side (live ++ [o]) := by
  unfold Bbo.join
  cases valid : b.valid with
  | false =>
    exact reflects_ahead slot own quantity fun a listed of =>
      absurd of (reflects.absent valid a listed)
  | true =>
    simp only [Bool.not_true, Bool.false_or]
    split_ifs with ahead level
    · refine reflects_ahead slot own quantity fun a listed of => ?_
      have behind := reflects.extreme valid a listed of
      refine ⟨behind.trans (noBetter_of_better ahead).1, fun same => ?_⟩
      rw [same, ← better_eq_false_iff] at behind
      exact Bool.noConfusion (behind.symm.trans ahead)
    · have sum : (b.qty + qty).toNat = b.qty.toNat + liveQty side b.price [o] := by
        rw [liveQty_cons, if_pos ⟨own, level⟩, quantity, BitVec.toNat_add,
          Nat.mod_eq_of_lt (room valid level)]
        rfl
      have joined := reflects.append_own valid own (level ▸ noBetter_refl) sum
      rwa [valid] at joined
    · refine reflects.append_own valid own ?_ ?_
      · exact better_eq_false_iff.mp (Bool.eq_false_iff.mpr ahead)
      · rw [liveQty_cons, if_neg fun here => level here.2]
        rfl

theorem Reflects.filter (reflects : Reflects b side live) {keep : LiveOrder → Bool}
    (kept : ∀ o ∈ live, o.side = side → o.price = b.price → keep o = true) :
    Reflects b side (live.filter keep) where
  flag := by
    constructor
    · intro valid
      obtain ⟨o, listed, own, top⟩ := reflects.reached valid
      exact ⟨o, List.mem_filter.mpr ⟨listed, kept o listed own top⟩, own⟩
    · rintro ⟨o, listed, own⟩
      exact reflects.flag.mpr ⟨o, List.mem_of_mem_filter listed, own⟩
  reached valid := by
    obtain ⟨o, listed, own, top⟩ := reflects.reached valid
    exact ⟨o, List.mem_filter.mpr ⟨listed, kept o listed own top⟩, own, top⟩
  extreme valid o listed own := reflects.extreme valid o (List.mem_of_mem_filter listed) own
  total valid := by
    rw [liveQty_filter kept]
    exact reflects.total valid

theorem Reflects.consume_other (reflects : Reflects b side live) {side' : BookSide}
    (other : side ≠ side') (price : Price) (qty : Nat) :
    Reflects b side (consume side' price qty live) := by
  have same : ∀ o, o.side = side → (o ∈ consume side' price qty live ↔ o ∈ live) := fun o own =>
    mem_consume_elsewhere fun here => other (own.symm.trans here.1)
  constructor
  · rw [reflects.flag]
    constructor
    · rintro ⟨o, listed, own⟩
      exact ⟨o, (same o own).mpr listed, own⟩
    · rintro ⟨o, listed, own⟩
      exact ⟨o, (same o own).mp listed, own⟩
  · intro valid
    obtain ⟨o, listed, own, top⟩ := reflects.reached valid
    exact ⟨o, (same o own).mpr listed, own, top⟩
  · intro valid o listed own
    exact reflects.extreme valid o ((same o own).mp listed) own
  · intro valid
    rw [liveQty_consume_elsewhere fun here => other here.1]
    exact reflects.total valid

theorem Reflects.spend (reflects : Reflects b side live)
    (positive : ∀ o ∈ live, 0 < o.quantity) (valid : b.valid = true) {qty : Quantity}
    (enough : qty ≤ b.qty)
    (alone : b.qty ≤ qty → ∀ o ∈ live, o.side = side → o.price = b.price) :
    Reflects (b.spend qty) side (consume side b.price qty.toNat live) := by
  have left : liveQty side b.price (consume side b.price qty.toNat live) =
      b.qty.toNat - qty.toNat := by
    rw [liveQty_consume, reflects.total valid]
  have fewer : (b.qty - qty).toNat = b.qty.toNat - qty.toNat := by
    rw [BitVec.le_def] at enough
    rw [BitVec.toNat_sub_of_le enough]
  have before : ∀ o ∈ consume side b.price qty.toNat live, o.price ≠ b.price → o ∈ live :=
    fun o listed behind => (mem_consume_elsewhere fun here => behind here.2).mp listed
  by_cases all : b.qty ≤ qty
  · have empty : (b.spend qty).valid = false := if_pos all
    have none : ∀ o ∈ consume side b.price qty.toNat live, o.side ≠ side := by
      intro o listed own
      by_cases top : o.price = b.price
      · have some := liveQty_pos (consume_positive positive) listed ⟨own, top⟩
        rw [BitVec.le_def] at all
        omega
      · exact top (alone all o (before o listed top) own)
    exact reflects_none empty none
  · have flag : (b.spend qty).valid = true := (if_neg all).trans valid
    have some : 0 < liveQty side b.price (consume side b.price qty.toNat live) := by
      rw [BitVec.le_def] at all
      omega
    obtain ⟨o, listed, own, top⟩ := exists_of_liveQty_pos some
    refine ⟨⟨fun _ => ⟨o, listed, own⟩, fun _ => flag⟩, fun _ => ⟨o, listed, own, top⟩, ?_, ?_⟩
    · intro _ a present of
      by_cases level : a.price = b.price
      · exact level ▸ noBetter_refl
      · exact reflects.extreme valid a (before a present level) of
    · intro _
      exact fewer.trans left.symm

end Reflecting

section Bests

variable {b : Book} {m : Message}

theorem best_insertOrder (side : BookSide) :
    best (b.insertOrder m) side =
      if side = ownSide m.side then
        (best b side).join (better side) m.price m.quantity b.nextSlot
      else best b side := by
  by_cases buy : m.side = sideBuy
  · obtain ⟨bid, ask⟩ := insertOrder_buy (b := b) buy
    cases side <;> simp [best, ownSide, buy, bid, ask]
    rfl
  · obtain ⟨bid, ask⟩ := insertOrder_sell (b := b) buy
    cases side <;> simp [best, ownSide, buy, bid, ask]
    rfl

theorem best_executeBook_still (still : ¬ Inserts m) (side : BookSide) :
    best (executeBook m b) side = best b side := by
  obtain ⟨bid, ask⟩ := executeBook_still (b := b) still
  cases side
  · exact bid
  · exact ask

theorem best_spendBest (side : BookSide) (qty : Quantity) :
    best (b.spendBest m.side qty) side =
      if side = otherSide m.side then (best b side).spend qty else best b side := by
  by_cases buy : m.side = sideBuy <;> cases side <;>
    simp [best, otherSide, Book.spendBest, buy]

end Bests

/-- What an edge must not meet: a fill that empties the best level while another one rests
behind it, a level whose total runs over, and a cancel of an order of the best level. -/
structure Undisturbed (s : System) : Prop where
  empties : s.regs.s2State = .fillOut → (facing s.regs.book s.regs.s2).qty ≤ s.regs.sweep.qty →
    ∀ o ∈ s.live, o.side = otherSide s.regs.s2.side →
      o.price = (facing s.regs.book s.regs.s2).price
  joins : s.regs.s2State = .execute → Inserts s.regs.s2 →
    (best s.regs.book (ownSide s.regs.s2.side)).valid = true →
    s.regs.s2.price = (best s.regs.book (ownSide s.regs.s2.side)).price →
    (best s.regs.book (ownSide s.regs.s2.side)).qty.toNat + s.regs.s2.quantity.toNat < 2 ^ 32
  cancels : s.regs.s2State = .execute → s.regs.s2.msgType = msgCancelReq →
    s.regs.book.holdsId s.regs.s2.clientOrderId = true →
    ∀ o ∈ s.live, names (executeAck s.regs.s2 s.regs.book) o = true →
      o.price ≠ (best s.regs.book o.side).price

structure Shows (s : System) : Prop where
  sound : Sound s.regs
  sides : ∀ side, Reflects (best s.regs.book side) side s.live
  positive : ∀ o ∈ s.live, 0 < o.quantity

section Steps

variable {s : System}

theorem liveAfter_still (state : s.regs.s2State = .idle ∨ s.regs.s2State = .crossing) :
    liveAfter s.regs s.live = s.live := by
  rcases state with state | state <;> simp only [liveAfter, state]

theorem liveAfter_inserts (state : s.regs.s2State = .execute) (inserts : Inserts s.regs.s2) :
    liveAfter s.regs s.live = s.live ++ [.of s.regs.s2 s.regs.book.nextSlot] := by
  simp only [liveAfter, state, inserts.1, inserts.2, hasSlot_eq_true, if_false, Bool.and_self,
    if_true]

theorem liveAfter_cancels (state : s.regs.s2State = .execute) (still : ¬ Inserts s.regs.s2) :
    liveAfter s.regs s.live = s.live ∨
      (s.regs.s2.msgType = msgCancelReq ∧ s.regs.book.holdsId s.regs.s2.clientOrderId = true) ∧
        liveAfter s.regs s.live =
          s.live.filter (fun o => !names (executeAck s.regs.s2 s.regs.book) o) := by
  simp only [liveAfter, state]
  split_ifs with cancel acked rests
  · refine .inr ⟨⟨cancel, ?_⟩, rfl⟩
    by_contra missing
    simp [executeAck, cancel, missing, ackRejectedUnknown, ackCancelled] at acked
  · exact .inl rfl
  · exact absurd ⟨cancel, (Bool.and_eq_true_iff.mp rests).1⟩ still
  · exact .inl rfl

theorem Shows.execute (shows : Shows s) (undisturbed : Undisturbed s)
    (state : s.regs.s2State = .execute) :
    (∀ side, Reflects (best (executeBook s.regs.s2 s.regs.book) side) side
      (liveAfter s.regs s.live)) ∧ ∀ o ∈ liveAfter s.regs s.live, 0 < o.quantity := by
  by_cases inserts : Inserts s.regs.s2
  · rw [liveAfter_inserts state inserts, executeBook_inserts inserts]
    constructor
    · intro side
      rw [best_insertOrder]
      split_ifs with own
      · subst own
        exact (shows.sides _).join (o := .of s.regs.s2 s.regs.book.nextSlot) _ rfl rfl
          (undisturbed.joins state inserts)
      · exact (shows.sides side).append_other fun same => own same.symm
    · intro o listed
      rcases List.mem_append.mp listed with old | new
      · exact shows.positive o old
      · rw [List.mem_singleton.mp new]
        have rests := inserts.2
        simp only [Message.rests, Bool.and_eq_true, decide_eq_true_eq] at rests
        exact rests.2
  · rcases liveAfter_cancels state inserts with same | ⟨⟨cancel, held⟩, filtered⟩
    · rw [same]
      refine ⟨fun side => ?_, shows.positive⟩
      rw [best_executeBook_still inserts]
      exact shows.sides side
    · rw [filtered]
      constructor
      · intro side
        rw [best_executeBook_still inserts]
        refine (shows.sides side).filter fun o listed own top => ?_
        subst own
        by_contra named
        simp only [Bool.not_eq_true', Bool.not_eq_false] at named
        exact undisturbed.cancels state cancel held o listed named top
      · exact fun o listed => shows.positive o (List.mem_of_mem_filter listed)

theorem matchOf_le (m : Message) (b : Bbo) : (matchOf m b).qty ≤ b.qty := by
  unfold matchOf
  dsimp only
  split_ifs with less
  · exact BitVec.le_of_lt less
  · exact BitVec.le_refl _

theorem Shows.fillOut (shows : Shows s) (undisturbed : Undisturbed s)
    (state : s.regs.s2State = .fillOut) (flag : (facing s.regs.book s.regs.s2).valid = true)
    (found : s.regs.sweep = matchOf s.regs.s2 (facing s.regs.book s.regs.s2)) :
    (∀ side, Reflects (best (s.regs.book.spendBest s.regs.s2.side s.regs.sweep.qty) side) side
      (liveAfter s.regs s.live)) ∧ ∀ o ∈ liveAfter s.regs s.live, 0 < o.quantity := by
  have level : s.regs.sweep.price = (facing s.regs.book s.regs.s2).price := by rw [found]; rfl
  have enough : s.regs.sweep.qty ≤ (facing s.regs.book s.regs.s2).qty := by
    rw [found]
    exact matchOf_le _ _
  have alone := undisturbed.empties state
  simp only [liveAfter, state, level]
  refine ⟨fun side => ?_, consume_positive shows.positive⟩
  rw [best_spendBest]
  split_ifs with faced
  · subst faced
    exact (shows.sides _).spend shows.positive flag enough alone
  · exact (shows.sides side).consume_other faced _ _

theorem Shows.tick (shows : Shows s) (undisturbed : Undisturbed s) (c : Cycle) :
    Shows (s.tick c) := by
  have edge := shows.sound.edge (s.inputs c)
  suffices kept : (∀ side, Reflects (best (s.regs.cycle (s.inputs c)).book side) side
      (liveAfter s.regs s.live)) ∧ ∀ o ∈ liveAfter s.regs s.live, 0 < o.quantity from
    ⟨edge.sound, kept.1, kept.2⟩
  have still : liveAfter s.regs s.live = s.live →
      (∀ side, Reflects (best s.regs.book side) side (liveAfter s.regs s.live)) ∧
        ∀ o ∈ liveAfter s.regs s.live, 0 < o.quantity :=
    fun same => same.symm ▸ ⟨shows.sides, shows.positive⟩
  generalize s.regs.cycle (s.inputs c) = r' at edge
  cases edge with
  | rests state | starts state => exact still (liveAfter_still (.inl state))
  | completes state | chains state => exact shows.execute undisturbed state
  | strikes state | passes state => exact still (liveAfter_still (.inr state))
  | fills state valid entry round some flag found =>
    have book : (s.regs.deassert (s.inputs c)).fillOut.book =
        s.regs.book.spendBest s.regs.s2.side s.regs.sweep.qty := by
      unfold Regs.fillOut
      split_ifs <;> rfl
    rw [book]
    exact shows.fillOut undisturbed state flag found

end Steps

theorem shows_start (u : Regs) (ms : List Message) : Shows (System.start u ms) where
  sound := .idle rfl
  sides side := by
    refine reflects_none ?_ nofun
    cases side <;> rfl
  positive := nofun

/-- In a run in which no fill uncovers a second level, no total runs over and no order of the
best level is cancelled, the BBO registers show the best of the live orders. -/
theorem undisturbed_runs_show_best (u : Regs) (ms : List Message) (cs : List Cycle)
    (undisturbed : Obeys (always System.tick) (fun s _ => Undisturbed s) (System.start u ms) cs) :
    Reflects ((System.start u ms).after cs).regs.book.bid .bid ((System.start u ms).after cs).live ∧
      Reflects ((System.start u ms).after cs).regs.book.ask .ask
        ((System.start u ms).after cs).live := by
  have keep : ∀ (s : System) (c : Cycle), Shows s → Undisturbed s → Shows (s.tick c) :=
    fun s c shows calm => shows.tick calm c
  have shows := foldl_keeps keep (shows_start u ms) undisturbed
  exact ⟨shows.sides .bid, shows.sides .ask⟩

def undisturbedTest (s : System) : Bool :=
  decide (s.regs.s2State = .fillOut → (facing s.regs.book s.regs.s2).qty ≤ s.regs.sweep.qty →
    ∀ o ∈ s.live, o.side = otherSide s.regs.s2.side →
      o.price = (facing s.regs.book s.regs.s2).price) &&
  decide (s.regs.s2State = .execute → Inserts s.regs.s2 →
    (best s.regs.book (ownSide s.regs.s2.side)).valid = true →
    s.regs.s2.price = (best s.regs.book (ownSide s.regs.s2.side)).price →
    (best s.regs.book (ownSide s.regs.s2.side)).qty.toNat + s.regs.s2.quantity.toNat < 2 ^ 32) &&
  decide (s.regs.s2State = .execute → s.regs.s2.msgType = msgCancelReq →
    s.regs.book.holdsId s.regs.s2.clientOrderId = true →
    ∀ o ∈ s.live, names (executeAck s.regs.s2 s.regs.book) o = true →
      o.price ≠ (best s.regs.book o.side).price)

theorem undisturbed_of_test (s : System) (c : Cycle)
    (passed : (fun s (_ : Cycle) => undisturbedTest s) s c = true) : Undisturbed s := by
  simp only [undisturbedTest, Bool.and_eq_true, decide_eq_true_eq] at passed
  exact ⟨passed.1.1, passed.1.2, passed.2⟩

theorem undisturbed_runs_show_best_two_levels :
    let s := (System.start zeroRegs
      [limitOrder sideSell 1 100 5, limitOrder sideSell 2 101 5, limitOrder sideBuy 3 100 3,
        cancelRequest 2]).after (List.replicate 9 offering)
    s.live.map LiveOrder.quantity = [2] ∧ s.regs.book.ask.valid = true ∧
      Reflects s.regs.book.bid .bid s.live ∧ Reflects s.regs.book.ask .ask s.live :=
  ⟨by decide +kernel, by decide +kernel, undisturbed_runs_show_best zeroRegs _ _
    (obeys_of_test undisturbed_of_test _ _ (by decide +kernel))⟩

/-- A sell takes all of the bid at 100; the live bid at 99 is not shown. A cancel takes the only
bid; it is still shown. -/
theorem best_level_is_lost_or_stale :
    (let ms := [limitOrder sideBuy 1 100 5, limitOrder sideBuy 2 99 5, limitOrder sideSell 3 100 5]
     let s := (System.start zeroRegs ms).after (List.replicate 8 offering)
     (∀ m ∈ ms, IsLegal m) ∧ offering.Ready ∧ s.regs.s2State = .idle ∧ s.waiting = [] ∧
      s.live.map LiveOrder.price = [99] ∧ ¬ Reflects s.regs.book.bid .bid s.live) ∧
    (let ms := [limitOrder sideBuy 1 100 5, cancelRequest 1]
     let s := (System.start zeroRegs ms).after (List.replicate 5 offering)
     (∀ m ∈ ms, IsLegal m) ∧ s.regs.s2State = .idle ∧ s.waiting = [] ∧
      s.acks = [⟨1, 1, ackAccepted⟩, ⟨1, 1, ackCancelled⟩] ∧ s.live = [] ∧
      ¬ Reflects s.regs.book.bid .bid s.live) := by
  refine ⟨⟨by decide +kernel, by decide, by decide +kernel, by decide +kernel, by decide +kernel,
    fun reflects => ?_⟩, by decide +kernel, by decide +kernel, by decide +kernel,
    by decide +kernel, by decide +kernel, fun reflects => ?_⟩
  · have shown := reflects.flag.mpr (by decide +kernel)
    exact absurd shown (by decide +kernel)
  · have present := reflects.flag.mp (by decide +kernel)
    exact absurd present (by decide +kernel)

end HftGrading.Fpga.MatchEngine.BestOfLive
