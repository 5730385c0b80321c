/- module: HftGrading/Exchange/Book/OfferedQuantity
   source: exchange/include/exchange/orderbook.hpp
   digest: What a book offers an order before it is matched, against what the match fills. -/

import HftGrading.Exchange.Book.BookRuns

set_option autoImplicit false
set_option relaxedAutoImplicit false

namespace HftGrading.Exchange.Book.OfferedQuantity

open Function (update)
open Lib.PriceTimePriority WireProtocol PriceMap LimitBook
open LimitBook.OrderBook (Matching MatchResult beyondLimit)
open LevelSearch LevelQueue LevelFilling MatchRounds BookRep BookRuns

/-- The other side has orders and the level its search names is within the limit. -/
def Meets (b : OrderBook) (aggressor : Side) (price : Int) : Prop :=
  ((b.levels aggressor.contra).findBest aggressor.contra).1 ≠ nullIndex ∧
    ¬ beyondLimit aggressor price ((b.levels aggressor.contra).prices
      ((b.levels aggressor.contra).findBest aggressor.contra).1)

instance (b : OrderBook) (aggressor : Side) (price : Int) : Decidable (Meets b aggressor price) :=
  inferInstanceAs (Decidable (_ ∧ _))

/-- The levels once level `i` has been emptied. -/
def passed (L : PriceLevelPool) (i : Nat) : PriceLevelPool :=
  { L with active := update L.active i false, bestIdx := nullIndex }

/-- The sum of the first `room` quantities on the levels within the limit, level after level as
the search names them; `qtys` are the quantities on a level. -/
def offeredBy (qtys : Nat → List Int) (aggressor : Side) (price : Int) :
    Nat → Nat → PriceLevelPool → Int
  | 0, _, _ => 0
  | n + 1, room, L =>
    let best := (L.findBest aggressor.contra).1
    if best = nullIndex ∨ beyondLimit aggressor price (L.prices best) then 0
    else ((qtys best).take room).sum +
      offeredBy qtys aggressor price n (room - (qtys best).length) (passed L best)

def levelQtys (b : OrderBook) (s : Side) (i : Nat) : List Int := (b.queue s i).map (restingQty b)

/-- What the first `room` orders within the limit offer. -/
def offered (b : OrderBook) (aggressor : Side) (price : Int) (room : Nat) : Int :=
  offeredBy (levelQtys b aggressor.contra) aggressor price room room (b.levels aggressor.contra)

section Searches

variable {L L' : PriceLevelPool}

/-- The two pools look the same to a search. -/
structure Alike (L L' : PriceLevelPool) : Prop where
  count : L'.count = L.count
  prices : L'.prices = L.prices
  active : L'.active = L.active
  bestIdx : L'.bestIdx = L.bestIdx
  totalQty : ∀ i, L.active i = true → L'.totalQty i = L.totalQty i

theorem Alike.scanRound (alike : Alike L L') (side : Side) :
    PriceLevelPool.scanRound side L' = PriceLevelPool.scanRound side L := by
  funext best i
  unfold PriceLevelPool.scanRound
  rw [alike.active, alike.prices]
  by_cases active : L.active i = true
  · rw [alike.totalQty i active]
  · rw [if_neg (fun all => active all.1), if_neg (fun all => active all.1)]

theorem Alike.findBest (alike : Alike L L') (side : Side) :
    (L'.findBest side).1 = (L.findBest side).1 := by
  have hits : (L'.bestIdx ≠ nullIndex ∧ L'.active L'.bestIdx = true ∧ 0 < L'.totalQty L'.bestIdx) ↔
      L.bestIdx ≠ nullIndex ∧ L.active L.bestIdx = true ∧ 0 < L.totalQty L.bestIdx := by
    rw [alike.bestIdx, alike.active]
    refine and_congr_right fun _ => and_congr_right fun active => ?_
    rw [alike.totalQty _ active]
  unfold PriceLevelPool.findBest
  by_cases hit : L.bestIdx ≠ nullIndex ∧ L.active L.bestIdx = true ∧ 0 < L.totalQty L.bestIdx
  · rw [if_pos hit, if_pos (hits.mpr hit)]
    exact alike.bestIdx
  · rw [if_neg hit, if_neg (mt hits.mp hit)]
    unfold PriceLevelPool.rebuildBest
    rw [alike.scanRound, alike.count]

end Searches

section Offers

variable {qtys : Nat → List Int} {aggressor : Side} {price : Int}

variable (aggressor price) in
theorem offeredBy_nonneg (nonneg : ∀ i, ∀ q ∈ qtys i, 0 ≤ q) (n room : Nat) (L : PriceLevelPool) :
    0 ≤ offeredBy qtys aggressor price n room L := by
  induction n generalizing room L with
  | zero => exact le_rfl
  | succ n ih =>
    rw [offeredBy]
    split_ifs
    · exact le_rfl
    · refine Int.add_nonneg (List.sum_nonneg fun q member => ?_) (ih _ _)
      exact nonneg _ q (List.mem_of_mem_take member)

theorem offeredBy_no_room (n : Nat) (L : PriceLevelPool) :
    offeredBy qtys aggressor price n 0 L = 0 := by
  induction n generalizing L with
  | zero => rfl
  | succ n ih =>
    rw [offeredBy]
    split_ifs
    · rfl
    · rw [List.take_zero, Nat.zero_sub, ih]
      rfl

theorem offeredBy_blocked (n room : Nat) {L : PriceLevelPool}
    (blocked : (L.findBest aggressor.contra).1 = nullIndex ∨
      beyondLimit aggressor price (L.prices (L.findBest aggressor.contra).1)) :
    offeredBy qtys aggressor price n room L = 0 := by
  cases n with
  | zero => rfl
  | succ n => rw [offeredBy, if_pos blocked]

end Offers

section Matching

variable {b : OrderBook} {aggressor : Side} {price quantity : Int} {cid maxFills : Nat}
  {R : Nat → List Nat} {m m' : Matching}

/-- Whether the match will fill the order is decided, or still the question at the start with
what is wanted now and the levels that are left. -/
inductive Question (b : OrderBook) (aggressor : Side) (price quantity : Int) (maxFills : Nat)
    (R : Nat → List Nat) (m : Matching) : Prop
  | filled (none : m.remaining = 0) (enough : quantity ≤ offered b aggressor price maxFills)
  | spent (wanted : 0 < m.remaining) (out : maxFills ≤ m.fills.length)
      (short : offered b aggressor price maxFills < quantity)
  | pending (n : Nat) (L : PriceLevelPool) (fuel : maxFills - m.fills.length ≤ n)
      (alike : Alike L (m.book.levels aggressor.contra))
      (held : ∀ i, L.active i = true →
        (R i).map (restingQty m.book) = levelQtys b aggressor.contra i)
      (same : quantity ≤ offered b aggressor price maxFills ↔
        m.remaining ≤ offeredBy (levelQtys b aggressor.contra) aggressor price n
          (maxFills - m.fills.length) L)

structure Tally (b : OrderBook) (aggressor : Side) (price quantity : Int) (maxFills : Nat)
    (R : Nat → List Nat) (m : Matching) : Prop where
  ready : Ready m.book aggressor.contra R
  sum : (m.fills.map MatchResult.fillQty).sum + m.remaining = quantity
  left : 0 ≤ m.remaining
  idle : m.fills = [] → m.book = b
  meets : m.fills ≠ [] → Meets b aggressor price
  freed : m.fills ≠ [] → 0 < m.remaining → m.book.pool.freeTop ≠ 0
  question : Question b aggressor price quantity maxFills R m

variable {best : Nat} {gone kept : List Nat} {b₁ : OrderBook}

theorem gone_of_left (tally : Tally b aggressor price quantity maxFills R m)
    (round : Round aggressor price cid maxFills R best gone kept b₁ m m')
    (wanted : 0 < m'.remaining) : gone ≠ [] := by
  intro none
  have split := sweep_split (fun _ : Int => True) (maxFills - m.fills.length) m.remaining
    ((R best).map (lot m.book)) (by rw [round.left] at wanted; exact wanted)
  have progress := tally.ready.progress round
  have all := round.shed.perm.length_eq
  have lengths := congrArg List.length split
  have rest := congrArg List.length round.rest
  rw [round.fills, List.length_append, results, List.length_map] at progress
  rw [none, List.nil_append] at all
  rw [List.length_append, List.length_map] at lengths
  rw [List.length_map] at rest
  unfold levelSweep at progress rest
  omega

theorem alike_passed {L : PriceLevelPool} (alike : Alike L (m.book.levels aggressor.contra))
    (round : Round aggressor price cid maxFills R best gone kept b₁ m m') (emptied : kept = []) :
    Alike (passed L best) (m'.book.levels aggressor.contra) := by
  have frame := round.shed.frame
  have settled := round.settled
  refine ⟨?_, ?_, ?_, ?_, ?_⟩
  · rw [settled.count, frame.count, look_levels]
    exact alike.count
  · rw [settled.prices, frame.prices, look_levels]
    exact alike.prices
  · funext i
    have active := settled.active_iff i
    rw [frame.active, look_levels, emptied] at active
    by_cases here : i = best
    · subst here
      simpa [passed] using active
    · rw [Bool.eq_iff_iff, active]
      simp [passed, here, alike.active]
  · rw [settled.bestIdx, frame.bestIdx, look_levels, if_pos ⟨emptied, round.found⟩]
    rfl
  · intro i active
    have other : i ≠ best := by
      rintro rfl
      simp [passed] at active
    rw [settled.totalQty, frame.totalQty other, look_levels]
    exact alike.totalQty i (by simpa [passed, other] using active)

theorem held_passed (tally : Tally b aggressor price quantity maxFills R m) {L : PriceLevelPool}
    (alike : Alike L (m.book.levels aggressor.contra))
    (held : ∀ i, L.active i = true →
      (R i).map (restingQty m.book) = levelQtys b aggressor.contra i)
    (round : Round aggressor price cid maxFills R best gone kept b₁ m m') (i : Nat)
    (active : (passed L best).active i = true) :
    (update R best kept i).map (restingQty m'.book) = levelQtys b aggressor.contra i := by
  have other : i ≠ best := by
    rintro rfl
    simp [passed] at active
  have old : L.active i = true := by simpa [passed, other] using active
  rw [Function.update_of_ne other, ← held i old]
  refine List.map_congr_left fun x listed => ?_
  have off : x ∉ R best := tally.ready.apart i best (by rw [alike.active]; exact old) round.live
    other x listed
  rw [restingQty, round.settled.pool, round.shed.frame.orders x off, look_pool, restingQty]

theorem Question.round (tally : Tally b aggressor price quantity maxFills R m)
    (nonneg : ∀ i, ∀ q ∈ levelQtys b aggressor.contra i, 0 ≤ q)
    (round : Round aggressor price cid maxFills R best gone kept b₁ m m') :
    Question b aggressor price quantity maxFills (update R best kept) m' := by
  have wanted := round.wanted
  have room := round.room
  cases tally.question with
  | filled none => exact absurd none wanted.ne'
  | spent _ out => exact absurd out (Nat.not_le.mpr room)
  | pending n L fuel alike held same =>
    obtain ⟨k, rfl⟩ : ∃ k, n = k + 1 := ⟨n - 1, by omega⟩
    have found : (L.findBest aggressor.contra).1 = best :=
      (alike.findBest aggressor.contra).symm.trans round.found
    have qtys : ((R best).map (lot m.book)).map Lot.qty = levelQtys b aggressor.contra best := by
      rw [← held best (by rw [← alike.active]; exact round.live), List.map_map]
      rfl
    have open' : ¬ (best = nullIndex ∨ beyondLimit aggressor price (L.prices best)) := by
      rw [← alike.prices]
      exact not_or.mpr ⟨round.real, round.within⟩
    simp only [offeredBy, found, if_neg open', ← qtys] at same
    have fills := congrArg List.length round.fills
    have left := round.left
    have rest := round.rest
    have progress := tally.ready.progress round
    rw [List.length_append, results, List.length_map] at fills
    unfold levelSweep at fills left rest
    generalize lots : (R best).map (lot m.book) = row at same fills left rest qtys
    have lotted : ∀ lot ∈ row, 0 ≤ lot.qty := fun lot member =>
      nonneg best _ (qtys ▸ List.mem_map_of_mem member)
    rw [List.length_map] at same
    cases sweep_ends (fun _ : Int => True) (maxFills - m.fills.length) m.remaining row
      (fun _ => trivial) wanted.le lotted with
    | met none offer =>
      have later := offeredBy_nonneg aggressor price nonneg k
        (maxFills - m.fills.length - row.length) (passed L best)
      exact .filled (left.trans none) (same.mpr (by omega))
    | out more all long offer =>
      refine .spent (left ▸ more) (by omega) (not_le.mp (mt same.mp ?_))
      rw [Nat.sub_eq_zero_of_le long, offeredBy_no_room]
      omega
    | through more fewer emptied long offer =>
      have nothing : kept = [] := by
        rw [emptied] at rest
        exact List.map_eq_nil_iff.mp rest
      have remains : maxFills - m.fills.length - row.length = maxFills - m'.fills.length := by omega
      rw [remains] at same
      refine .pending k (passed L best) (by omega) (alike_passed alike round nothing)
        (held_passed tally alike held round) (same.trans ?_)
      omega

theorem Tally.round (tally : Tally b aggressor price quantity maxFills R m)
    (nonneg : ∀ i, ∀ q ∈ levelQtys b aggressor.contra i, 0 ≤ q)
    (round : Round aggressor price cid maxFills R best gone kept b₁ m m') :
    Tally b aggressor price quantity maxFills (update R best kept) m' := by
  have progress := tally.ready.progress round
  refine ⟨tally.ready.after round, ?_, ?_, ?_, ?_, ?_, Question.round tally nonneg round⟩
  · have sum := sweep_fills_sum (fun _ : Int => True) (maxFills - m.fills.length) m.remaining
      ((R best).map (lot m.book))
    have total := tally.sum
    rw [round.fills, round.left, List.map_append, List.sum_append, results, List.map_map]
    unfold levelSweep
    change _ + (List.map Lot.qty _).sum + _ = _
    omega
  · rw [round.left]
    exact sweep_left_nonneg (fun _ : Int => True) _ _ _ round.wanted.le
  · intro none
    rw [none] at progress
    exact absurd progress.1 (Nat.not_lt_zero _)
  · intro _
    by_cases first : m.fills = []
    · rw [← tally.idle first, Meets, round.found]
      exact ⟨round.real, round.within⟩
    · exact tally.meets first
  · intro _ more none
    have freed := round.shed.freed
    have slots : freeSlots m'.book = freeSlots b₁ := by rw [freeSlots, round.settled.pool, freeSlots]
    have nothing : freeSlots m'.book = [] := by rw [freeSlots, none]; rfl
    rw [slots, freed] at nothing
    exact gone_of_left tally round more (List.append_eq_nil_iff.mp nothing).2

/-- A match fills something exactly when the order meets a level within its limit, and all of the
order exactly when the first `maxFills` orders within the limit offer as much. An order that is
filled in part has left a slot free. -/
theorem matchOrder_offered {Q : Queues} {fills : List MatchResult} {b' : OrderBook} (rep : Rep b Q)
    (wanted : 0 < quantity) (some_room : 0 < maxFills)
    (returns : b.matchOrder aggressor price quantity cid maxFills = some (fills, b')) :
    (fills ≠ [] ↔ Meets b aggressor price) ∧
      (quantity ≤ (fills.map MatchResult.fillQty).sum ↔
        quantity ≤ offered b aggressor price maxFills) ∧
      (fills ≠ [] → (fills.map MatchResult.fillQty).sum < quantity → b'.pool.freeTop ≠ 0) ∧
      (fills = [] → b'.pool.freeTop = b.pool.freeTop) := by
  have queue := rep.queue_eq
  have nonneg : ∀ i, ∀ q ∈ levelQtys b aggressor.contra i, 0 ≤ q := by
    intro i q member
    obtain ⟨x, listed, rfl⟩ := List.mem_map.mp member
    rw [queue] at listed
    exact ((rep.level _ i).resting x listed).le
  have start : Tally b aggressor price quantity maxFills (Q aggressor.contra) ⟨b, [], quantity⟩ := by
    refine ⟨rep.ready _, by simp, wanted.le, fun _ => rfl, fun no => absurd rfl no,
      fun no => absurd rfl no, .pending maxFills (b.levels aggressor.contra) (Nat.sub_le _ _)
        ⟨rfl, rfl, rfl, rfl, fun _ _ => rfl⟩ (fun i _ => ?_) Iff.rfl⟩
    rw [levelQtys, queue]
  obtain ⟨R, m, m', run, tally, exit⟩ := matchOrder_returns
    (Tally b aggressor price quantity maxFills) (fun _ _ tally => tally.ready)
    (fun R m best gone kept b₁ m' tally round => tally.round nonneg round) b quantity
    (Q aggressor.contra) start
  rw [returns] at run
  obtain ⟨rfl, rfl⟩ := Prod.mk.inj (Option.some.inj run)
  have same : m'.fills = m.fills := by cases exit <;> rfl
  have pool : m'.book.pool = m.book.pool := by
    cases exit with
    | sated => rfl
    | blocked => exact look_pool
  have sum := tally.sum
  have left := tally.left
  rw [same]
  refine ⟨⟨tally.meets, fun meets none => ?_⟩, ?_, fun some_fill less => ?_, fun none => ?_⟩
  · have book := tally.idle none
    rw [none] at sum
    simp only [List.map_nil, List.sum_nil] at sum
    cases exit with
    | sated why =>
      rw [none] at why
      simp only [List.length_nil] at why
      omega
    | blocked _ _ why =>
      rw [book] at why
      exact why.elim meets.1 meets.2
  · have ends : quantity ≤ offered b aggressor price maxFills ↔ m.remaining ≤ 0 := by
      cases tally.question with
      | filled none enough => exact iff_of_true enough none.le
      | spent more out short => exact iff_of_false (not_le.mpr short) (not_le.mpr more)
      | pending n L fuel alike held same =>
        refine same.trans ?_
        cases exit with
        | sated why =>
          rcases why with done | out
          · exact iff_of_true (done.trans (offeredBy_nonneg _ _ nonneg n _ L)) done
          · rw [Nat.sub_eq_zero_of_le out, offeredBy_no_room]
        | blocked _ _ why =>
          rw [alike.findBest, alike.prices] at why
          rw [offeredBy_blocked n _ why]
    rw [ends]
    omega
  · show m'.book.pool.freeTop ≠ 0
    rw [pool]
    exact tally.freed some_fill (by omega)
  · show m'.book.pool.freeTop = b.pool.freeTop
    rw [pool, tally.idle none]

end Matching

end HftGrading.Exchange.Book.OfferedQuantity
