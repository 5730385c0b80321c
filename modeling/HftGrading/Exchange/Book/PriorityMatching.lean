/- module: HftGrading/Exchange/Book/PriorityMatching
   source: exchange/include/exchange/orderbook.hpp
   digest: Matching takes the resting orders in price-time priority, and nothing else changes. -/

import HftGrading.Exchange.Book.PriorityResting

set_option autoImplicit false
set_option relaxedAutoImplicit false

namespace HftGrading.Exchange.Book.PriorityMatching

open Function (update)
open Lib.PartialExecution Lib.PriceTimePriority WireProtocol PriceMap LimitBook
open LimitBook.OrderBook (Matching MatchResult beyondLimit)
open LevelSearch LevelQueue LevelFilling MatchRounds BookRep BookRuns PriorityWalk PriorityResting

structure Shown (b : OrderBook) (s : Side) : Prop extends Walkable b s where
  fits : ∀ i, (b.levels s).active i = true →
    ((b.queue s i).map (restingQty b)).sum < 2147483648
  priced : ∀ i, (b.levels s).active i = true → better s ((b.levels s).prices i) (scanStart s)
  cached : Cached s (b.levels s)

section Sides

variable {b b' : OrderBook} {s : Side}

theorem Shown.visible_iff (shown : Shown b s) (i : Nat) :
    Visible (b.levels s) i ↔ (b.levels s).active i = true ∧ b.queue s i ≠ [] := by
  constructor
  · rintro ⟨⟨-, active⟩, stock⟩
    refine ⟨active, fun none => ?_⟩
    rw [(shown.level i active).total, none] at stock
    simp [wrap32] at stock
  · rintro ⟨active, nonempty⟩
    refine ⟨⟨shown.indexed.allocated i active, active⟩, ?_⟩
    rw [(shown.level i active).total_of_fits (shown.fits i active)]
    exact (shown.level i active).sum_pos nonempty

theorem Shown.ready (shown : Shown b s) : Ready b s (b.queue s) where
  mapped := shown.indexed.mapped
  level := shown.level
  apart := by
    intro i j hi hj other x hx hx'
    have price := (shown.level i hi).price x hx
    have price' := (shown.level j hj).price x hx'
    exact other (shown.indexed.distinct hi hj (price.symm.trans price'))

theorem Shown.found (shown : Shown b s) : IsBest s (b.levels s) ((b.levels s).findBest s).1 :=
  findBest_isBest shown.cached (fun i visible => shown.priced i visible.1.2)

theorem Shown.split_found (shown : Shown b s) {best : Nat}
    (found : ((b.levels s).findBest s).1 = best) (active : (b.levels s).active best = true)
    (stock : 0 < (b.levels s).totalQty best) :
    Leads s (b.levels s) best ∧ b.queue s best ≠ [] ∧
      restingLots b s = levelLots b s best ++
        (restingLots b s).filter (fun l => depth s l ≠ rank s ((b.levels s).prices best)) := by
  have here : Visible (b.levels s) best := ⟨⟨shown.indexed.allocated best active, active⟩, stock⟩
  have leads : Leads s (b.levels s) best := by
    have answer := shown.found
    rw [found] at answer
    rcases answer with ⟨-, none⟩ | ⟨-, leads⟩
    · exact absurd here (none best)
    · exact leads
  refine ⟨leads, ((shown.visible_iff best).mp here).2, ?_⟩
  exact shown.restingLots_split active
    (fun i live nonempty => leads i ((shown.visible_iff i).mpr ⟨live, nonempty⟩))

theorem restingLots_congr (levels : activeLevels (b'.levels s) = activeLevels (b.levels s))
    (lots : ∀ i ∈ activeLevels (b.levels s), levelLots b' s i = levelLots b s i) :
    restingLots b' s = restingLots b s := by
  have same : (activeLevels (b.levels s)).flatMap (levelLots b' s) =
      (activeLevels (b.levels s)).flatMap (levelLots b s) := List.flatMap_congr lots
  rw [restingLots, restingLots, levels, same]

theorem restingLots_same_pool (pool : b'.pool = b.pool)
    (levels : ∃ r, b'.levels s = { b.levels s with bestIdx := r }) :
    restingLots b' s = restingLots b s := by
  obtain ⟨r, same⟩ := levels
  apply restingLots_congr
  · rw [same]
    rfl
  · intro i _
    have cells : lot b' = lot b := by
      ext x
      simp [lot, restingQty, pool]
    rw [levelLots, levelLots, cells, OrderBook.queue, OrderBook.queue, pool, same]

theorem Shown.same_pool (shown : Shown b s) (pool : b'.pool = b.pool)
    (levels : ∃ r, b'.levels s = { b.levels s with bestIdx := r })
    (cached : Cached s (b'.levels s)) : Shown b' s := by
  obtain ⟨r, same⟩ := levels
  have queue : b'.queue s = b.queue s := by
    funext i
    rw [OrderBook.queue, OrderBook.queue, pool, same]
  have qty : restingQty b' = restingQty b := by
    funext x
    rw [restingQty, pool, restingQty]
  refine ⟨⟨?_, fun i active => ?_⟩, fun i active => ?_, fun i active => ?_, cached⟩
  · rw [same]
    exact shown.indexed.congr rfl rfl rfl rfl rfl
  · rw [same] at active
    rw [queue]
    apply (shown.level i active).congr (fun x _ => by rw [pool]) <;> rw [same]
  · rw [same] at active
    rw [queue, qty]
    exact shown.fits i active
  · rw [same] at active ⊢
    exact shown.priced i active

end Sides

section Rounds

variable {aggressor : Side} {price : Int} {cid maxFills best : Nat} {Q : Nat → List Nat}
  {gone kept : List Nat} {b₁ : OrderBook} {m m' : Matching}

/-- The part of the walk behind level `best`. -/
def behind (b : OrderBook) (s : Side) (best : Nat) : List (Lot Nat Int) :=
  (restingLots b s).filter (fun l => depth s l ≠ rank s ((b.levels s).prices best))

theorem round_levels (round : Round aggressor price cid maxFills Q best gone kept b₁ m m') :
    (m'.book.levels aggressor.contra).prices = (m.book.levels aggressor.contra).prices ∧
      (m'.book.levels aggressor.contra).count = (m.book.levels aggressor.contra).count ∧
      ∀ j, (m'.book.levels aggressor.contra).active j = true ↔
        (m.book.levels aggressor.contra).active j = true ∧ (j = best → kept ≠ []) := by
  have frame := round.shed.frame
  refine ⟨?_, ?_, fun j => ?_⟩
  · rw [round.settled.prices, frame.prices, look_levels]
  · rw [round.settled.count, frame.count, look_levels]
  · rw [round.settled.active_iff, frame.active, look_levels]

theorem round_cells (round : Round aggressor price cid maxFills Q best gone kept b₁ m m') {x : Nat}
    (away : x ∉ Q best) : m'.book.pool.orders x = m.book.pool.orders x := by
  rw [round.settled.pool, round.shed.frame.orders x away, look_pool]

variable (shown : Shown m.book aggressor.contra)
  (agree : ∀ i, (m.book.levels aggressor.contra).active i = true →
    Q i = m.book.queue aggressor.contra i)
  (round : Round aggressor price cid maxFills Q best gone kept b₁ m m')
include shown agree

theorem Shown.ready_agree : Ready m.book aggressor.contra Q where
  mapped := shown.ready.mapped
  level := fun i active => by
    rw [agree i active]
    exact shown.level i active
  apart := fun i j hi hj other => by
    rw [agree i hi, agree j hj]
    exact shown.ready.apart i j hi hj other

include round

theorem Shown.round_queue {j : Nat} (active : (m'.book.levels aggressor.contra).active j = true) :
    m'.book.queue aggressor.contra j =
      if j = best then kept else m.book.queue aggressor.contra j := by
  rw [(((shown.ready_agree agree).after round).level j active).queue_eq]
  obtain ⟨-, -, live⟩ := round_levels round
  split_ifs with e
  · rw [e, Function.update_self]
  · rw [Function.update_of_ne e, agree j ((live j).mp active).1]

theorem Shown.round_lots {j : Nat} (active : (m'.book.levels aggressor.contra).active j = true) :
    levelLots m'.book aggressor.contra j =
      if j = best then kept.map (lot b₁) else levelLots m.book aggressor.contra j := by
  obtain ⟨-, -, live⟩ := round_levels round
  rw [levelLots, shown.round_queue agree round active]
  split_ifs with e
  · apply List.map_congr_left
    intro x _
    rw [lot, restingQty, round.settled.pool, lot, restingQty]
  · apply List.map_congr_left
    intro x hx
    have away := shown.ready.apart j best ((live j).mp active).1 round.live e x hx
    rw [← agree best round.live] at away
    rw [lot, restingQty, round_cells round away, lot, restingQty]

theorem Shown.after : Shown m'.book aggressor.contra := by
  have ready := (shown.ready_agree agree).after round
  have frame := round.shed.frame
  obtain ⟨prices, count, live⟩ := round_levels round
  have level : ∀ j, (m'.book.levels aggressor.contra).active j = true →
      LevelRep m'.book aggressor.contra j (m'.book.queue aggressor.contra j) := by
    intro j active
    rw [(ready.level j active).queue_eq]
    exact ready.level j active
  have total : ∀ j, (m'.book.levels aggressor.contra).active j = true →
      ((m'.book.queue aggressor.contra j).map (restingQty m'.book)).sum < 2147483648 := by
    intro j active
    obtain ⟨old, -⟩ := (live j).mp active
    have below := shown.fits j old
    have lots := congrArg (List.map Lot.qty) (shown.round_lots agree round active)
    rw [levelLots, List.map_map] at lots
    change (m'.book.queue aggressor.contra j).map (restingQty m'.book) = _ at lots
    rw [lots]
    split_ifs with e
    · subst e
      have less := round.shed.sum_le (look_levelRep ((shown.ready_agree agree).level j round.live))
      rw [agree j old] at less
      rw [List.map_map]
      change (kept.map (restingQty b₁)).sum < _
      have same : restingQty (look m.book aggressor.contra) = restingQty m.book := by
        funext x
        simp [restingQty]
      rw [same] at less
      exact less.trans_lt below
    · rw [levelLots, List.map_map]
      exact below
  refine ⟨⟨?_, level⟩, total, fun j active => ?_, ?_⟩
  · apply Settled.indexed round.settled
    · apply shown.indexed.congr
      · rw [frame.priceMap, look_levels]
      · rw [frame.prices, look_levels]
      · rw [frame.active, look_levels]
      · rw [frame.count, look_levels]
      · rw [frame.levelCapacity, look_levels]
    · rw [frame.active, look_levels]
      exact round.live
  · rw [prices]
    exact shown.priced j ((live j).mp active).1
  · -- The cache names the level of the round, or nothing once that level is closed.
    have cache : (m'.book.levels aggressor.contra).bestIdx = if kept = [] then nullIndex else best := by
      rw [round.settled.bestIdx, frame.bestIdx, look_levels, round.found]
      simp
    obtain ⟨leads, -, -⟩ := shown.split_found round.found round.live round.stock
    rw [Cached, cache]
    split_ifs with empty
    · exact Or.inl rfl
    · refine Or.inr ⟨⟨?_, (live best).mpr ⟨round.live, fun _ => empty⟩⟩, ?_⟩
      · rw [count]
        exact shown.indexed.allocated best round.live
      · intro j visible
        rw [prices]
        by_cases e : j = best
        · rw [e, better_iff]
          exact lt_irrefl _
        · apply leads j
          obtain ⟨⟨range, active⟩, stock⟩ := visible
          rw [count] at range
          refine ⟨⟨range, ((live j).mp active).1⟩, ?_⟩
          rwa [round.settled.totalQty, frame.totalQty e, look_levels] at stock

theorem Shown.round_walk : restingLots m.book aggressor.contra =
      levelLots m.book aggressor.contra best ++ behind m.book aggressor.contra best ∧
    restingLots m'.book aggressor.contra =
      kept.map (lot b₁) ++ behind m.book aggressor.contra best := by
  obtain ⟨prices, -, live⟩ := round_levels round
  have next := shown.after agree round
  obtain ⟨leads, -, split⟩ := shown.split_found round.found round.live round.stock
  have back : ∀ l ∈ behind m.book aggressor.contra best, ∃ i,
      (m'.book.levels aggressor.contra).active i = true ∧
        l.price = (m.book.levels aggressor.contra).prices i ∧ i ≠ best ∧
        l ∈ levelLots m.book aggressor.contra i := by
    intro l hl
    obtain ⟨hl, other⟩ := List.mem_filter.mp hl
    obtain ⟨i, active, hl⟩ := (shown.mem_restingLots l).mp hl
    have price := shown.lot_price active l hl
    have away : i ≠ best := by
      rintro rfl
      simp [depth, price] at other
    exact ⟨i, (live i).mpr ⟨active, fun e => absurd e away⟩, price, away, hl⟩
  have front : ∀ l ∈ kept.map (lot b₁), (m'.book.levels aggressor.contra).active best = true ∧
      l.price = (m.book.levels aggressor.contra).prices best := by
    intro l hl
    have nonempty : kept ≠ [] := by
      rintro rfl
      cases hl
    have active := (live best).mpr ⟨round.live, fun _ => nonempty⟩
    have lots := shown.round_lots agree round active
    rw [if_pos rfl] at lots
    rw [← lots] at hl
    refine ⟨active, ?_⟩
    rw [next.lot_price active l hl, prices]
  have level : ∀ l ∈ kept.map (lot b₁), depth aggressor.contra l =
      rank aggressor.contra ((m.book.levels aggressor.contra).prices best) :=
    fun l hl => congrArg (rank _) (front l hl).2
  refine ⟨split, next.restingLots_unique ?_ ?_ ?_⟩
  · refine (ordered_of_eq level).append ((ordered_restingLots _ _).filter _) ?_
    intro l hl l' hl'
    obtain ⟨i, active, price, -, member⟩ := back l' hl'
    have visible : Visible (m.book.levels aggressor.contra) i := by
      refine (shown.visible_iff i).mpr ⟨((live i).mp active).1, ?_⟩
      obtain ⟨x, hx, -⟩ := List.mem_map.mp member
      exact List.ne_nil_of_mem hx
    have order := leads i visible
    rw [better_iff, not_lt] at order
    rw [level l hl]
    change _ ≤ rank aggressor.contra l'.price
    rwa [price]
  · intro j active
    have old := ((live j).mp active).1
    rw [prices, List.filter_append, shown.round_lots agree round active,
      filter_of_eq level, behind, filter_filter_ne, shown.filter_restingLots old]
    by_cases e : j = best
    · subst e
      simp only [if_true, List.append_nil]
    · have away : rank aggressor.contra ((m.book.levels aggressor.contra).prices best) ≠
          rank aggressor.contra ((m.book.levels aggressor.contra).prices j) := by
        intro same
        exact e (shown.indexed.distinct round.live old ((rank_inj _ _ _).mp same)).symm
      rw [if_neg away, if_neg away, if_neg e, List.nil_append]
  · intro l hl
    rw [prices]
    rcases List.mem_append.mp hl with hl | hl
    · exact ⟨best, front l hl⟩
    · obtain ⟨i, active, price, -, -⟩ := back l hl
      exact ⟨i, active, price⟩

end Rounds

section Changes

/-- What matching on side `c` does to the rest of the book. -/
structure Changes (c : Side) (b b' : OrderBook) : Prop where
  own : b'.levels c.contra = b.levels c.contra
  prices : (b'.levels c).prices = (b.levels c).prices
  static : ∀ x, static (b'.pool.orders x) = static (b.pool.orders x)
  cells : ∀ x, (∀ i, (b.levels c).active i = true → x ∉ b.queue c i) →
    b'.pool.orders x = b.pool.orders x
  shrunk : ∀ i, (b'.levels c).active i = true → (b.levels c).active i = true ∧
    (b'.queue c i).Sublist (b.queue c i) ∧ (b.queue c i ≠ [] → b'.queue c i ≠ [])
  idle : ∀ i, (b.levels c).active i = true → b.queue c i = [] → (b'.levels c).active i = true
  freed : ∃ gone, (restingLots b c).map Lot.ref = gone ++ (restingLots b' c).map Lot.ref ∧
    (freeSlots b').Perm (freeSlots b ++ gone)

theorem Changes.refl (c : Side) (b : OrderBook) : Changes c b b where
  own := rfl
  prices := rfl
  static := fun _ => rfl
  cells := fun _ _ => rfl
  shrunk := fun _ active => ⟨active, List.Sublist.refl _, id⟩
  idle := fun _ active _ => active
  freed := ⟨[], rfl, by rw [List.append_nil]⟩

theorem Changes.same_pool {c : Side} {b b' b'' : OrderBook} (changes : Changes c b b')
    (pool : b''.pool = b'.pool) (contra : b''.levels c.contra = b'.levels c.contra)
    (levels : ∃ r, b''.levels c = { b'.levels c with bestIdx := r }) : Changes c b b'' := by
  have walk := restingLots_same_pool pool levels
  obtain ⟨r, same⟩ := levels
  have queue : b''.queue c = b'.queue c := by
    funext i
    rw [OrderBook.queue, OrderBook.queue, pool, same]
  refine ⟨contra.trans changes.own, ?_, ?_, ?_, ?_, ?_, ?_⟩
  · rw [same]
    exact changes.prices
  · rw [pool]
    exact changes.static
  · rw [pool]
    exact changes.cells
  · rw [same, queue]
    exact changes.shrunk
  · rw [same]
    exact changes.idle
  · rw [walk, freeSlots, pool]
    exact changes.freed

variable {b : OrderBook} {aggressor : Side} {price : Int} {cid maxFills best : Nat}
  {Q : Nat → List Nat} {gone kept : List Nat} {b₁ : OrderBook} {m m' : Matching}

theorem Changes.round (changes : Changes aggressor.contra b m.book)
    (shown : Shown m.book aggressor.contra)
    (agree : ∀ i, (m.book.levels aggressor.contra).active i = true →
      Q i = m.book.queue aggressor.contra i)
    (round : Round aggressor price cid maxFills Q best gone kept b₁ m m') :
    Changes aggressor.contra b m'.book := by
  have frame := round.shed.frame
  have here := agree best round.live
  obtain ⟨prices, -, live⟩ := round_levels round
  obtain ⟨-, nonempty, -⟩ := shown.split_found round.found round.live round.stock
  have listed := (changes.shrunk best round.live).2.1
  refine ⟨?_, prices.trans changes.prices, ?_, ?_, ?_, ?_, ?_⟩
  · rw [round.settled.contra, frame.contra, look_levels_contra]
    exact changes.own
  · intro x
    rw [round.settled.pool, frame.static, look_pool]
    exact changes.static x
  · intro x away
    rw [← changes.cells x away]
    apply round_cells round
    rw [here]
    exact fun hx => away best (changes.shrunk best round.live).1 (listed.subset hx)
  · intro i active
    obtain ⟨old, open_⟩ := (live i).mp active
    obtain ⟨first, sub, some_left⟩ := changes.shrunk i old
    rw [shown.round_queue agree round active]
    split_ifs with e
    · subst e
      refine ⟨first, ?_, fun _ => open_ rfl⟩
      have order := round.shed.order
      rw [here] at order
      exact order.trans sub
    · exact ⟨first, sub, some_left⟩
  · intro i active empty
    refine (live i).mpr ⟨changes.idle i active empty, ?_⟩
    rintro rfl
    rw [empty, List.sublist_nil] at listed
    exact absurd listed nonempty
  · obtain ⟨before, refs, slots⟩ := changes.freed
    obtain ⟨walk, walk'⟩ := shown.round_walk agree round
    obtain ⟨left, cut⟩ := sweep_refs (fun _ : Int => True) (maxFills - m.fills.length) m.remaining
      ((Q best).map (lot m.book))
    change _ = left ++ (levelSweep maxFills m (Q best)).rest.map Lot.ref at cut
    have names : ∀ (c : OrderBook) (l : List Nat), (l.map (lot c)).map Lot.ref = l := by
      intro c l
      rw [List.map_map]
      exact List.map_id l
    rw [← round.rest, names, names] at cut
    -- The slots given back are those of the orders that left the list.
    have same : left.Perm gone := by
      have perm := round.shed.perm
      rw [cut] at perm
      exact (List.perm_append_right_iff kept).mp perm
    refine ⟨before ++ left, ?_, ?_⟩
    · rw [refs, walk, walk', List.map_append, List.map_append, names, levelLots, names, ← here, cut]
      simp only [List.append_assoc]
    · have given : freeSlots m'.book = freeSlots m.book ++ gone := by
        rw [freeSlots, round.settled.pool, ← freeSlots, round.shed.freed, freeSlots_look]
      rw [given, ← List.append_assoc]
      exact slots.append same.symm

end Changes

section Loop

variable {b : OrderBook} {aggressor : Side} {price quantity : Int} {cid maxFills : Nat}

/-- The reference: the resting orders of the other side, best price first and
oldest first, up to the limit, the quantity and the number of fills. -/
def reference (b : OrderBook) (aggressor : Side) (price quantity : Int) (maxFills : Nat) :
    Swept Nat Int :=
  sweep (fun p => ¬ beyondLimit aggressor price p) maxFills quantity (restingLots b aggressor.contra)

structure Walking (aggressor : Side) (price : Int) (cid maxFills : Nat) (ref : Swept Nat Int)
    (Q : Nat → List Nat) (m : Matching) : Prop where
  shown : Shown m.book aggressor.contra
  agree : ∀ i, (m.book.levels aggressor.contra).active i = true →
    Q i = m.book.queue aggressor.contra i
  fills : ∃ old, m.fills = results cid old ∧ ref =
    ⟨old ++ (reference m.book aggressor price m.remaining (maxFills - m.fills.length)).fills,
      (reference m.book aggressor price m.remaining (maxFills - m.fills.length)).left,
      (reference m.book aggressor price m.remaining (maxFills - m.fills.length)).rest⟩

variable {ref : Swept Nat Int} {Q : Nat → List Nat} {m m' : Matching}

theorem Walking.round (walking : Walking aggressor price cid maxFills ref Q m) {best : Nat}
    {gone kept : List Nat} {b₁ : OrderBook}
    (round : Round aggressor price cid maxFills Q best gone kept b₁ m m') :
    Walking aggressor price cid maxFills ref (update Q best kept) m' := by
  obtain ⟨shown, agree, old, made, now⟩ := walking
  have next := shown.after agree round
  obtain ⟨walk, walk'⟩ := shown.round_walk agree round
  refine ⟨next, fun i active => ?_, ?_⟩
  · exact ((((shown.ready_agree agree).after round).level i active).queue_eq).symm
  have inside : ∀ l ∈ levelLots m.book aggressor.contra best,
      ¬ beyondLimit aggressor price l.price := by
    intro l hl
    rw [shown.lot_price round.live l hl]
    exact round.within
  have level : levelSweep maxFills m (Q best) =
      sweep (fun p => ¬ beyondLimit aggressor price p) (maxFills - m.fills.length) m.remaining
        (levelLots m.book aggressor.contra best) := by
    rw [sweep_unbounded _ _ _ _ inside, levelSweep, agree best round.live]
    rfl
  have room : maxFills - m'.fills.length =
      maxFills - m.fills.length - (levelSweep maxFills m (Q best)).fills.length := by
    rw [round.fills, List.length_append, results, List.length_map]
    omega
  have resumed := sweep_resume (fun p => ¬ beyondLimit aggressor price p)
    (maxFills - m.fills.length) m.remaining (levelLots m.book aggressor.contra best)
    (behind m.book aggressor.contra best) inside level.symm rfl
  rw [← walk, ← room, ← round.left, ← round.rest, ← walk'] at resumed
  refine ⟨old ++ (levelSweep maxFills m (Q best)).fills, ?_, ?_⟩
  · rw [round.fills, made, results, results, results, List.map_append]
  · rw [now, reference, resumed, List.append_assoc]
    rfl

theorem Walking.exit (walking : Walking aggressor price cid maxFills ref Q m)
    (exit : Exit aggressor price maxFills m m') :
    m'.fills = results cid ref.fills ∧ m'.remaining = ref.left ∧
      restingLots m'.book aggressor.contra = ref.rest ∧ Shown m'.book aggressor.contra := by
  obtain ⟨shown, agree, old, made, now⟩ := walking
  have ended : reference m.book aggressor price m.remaining (maxFills - m.fills.length) =
      ⟨[], m.remaining, restingLots m.book aggressor.contra⟩ := by
    cases exit with
    | sated why =>
      rcases why with done | out
      · exact sweep_done done
      · rw [reference, Nat.sub_eq_zero_of_le out, sweep_zero]
    | blocked wanted room why =>
      generalize found : ((m.book.levels aggressor.contra).findBest aggressor.contra).1 = best
        at why
      rcases shown.found with ⟨-, none⟩ | ⟨visible, -⟩
      · -- Without a level to show the walk is empty.
        have empty : restingLots m.book aggressor.contra = [] := by
          apply List.eq_nil_iff_forall_not_mem.mpr
          intro l hl
          obtain ⟨i, active, hl⟩ := (shown.mem_restingLots l).mp hl
          obtain ⟨x, hx, -⟩ := List.mem_map.mp hl
          exact none i ((shown.visible_iff i).mpr ⟨active, List.ne_nil_of_mem hx⟩)
        rw [reference, empty, sweep_nil]
      · rw [found] at visible
        obtain ⟨-, nonempty, split⟩ := shown.split_found found visible.1.2 visible.2
        have real : best ≠ nullIndex :=
          (shown.indexed.mapped.lt_nullIndex visible.1.1).ne
        have beyond := why.resolve_left real
        obtain ⟨x, l, list⟩ := List.exists_cons_of_ne_nil nonempty
        rw [levelLots, list, List.map_cons, List.cons_append] at split
        rw [reference, split]
        apply sweep_beyond
        have price := (shown.level best visible.1.2).price x (by simp [list])
        rw [lot, price]
        exact not_not_intro beyond
  rw [ended] at now
  have done : m.fills = results cid ref.fills ∧ m.remaining = ref.left ∧
      restingLots m.book aggressor.contra = ref.rest := by
    rw [made, now, List.append_nil]
    exact ⟨rfl, rfl, rfl⟩
  cases exit with
  | sated => exact ⟨done.1, done.2.1, done.2.2, shown⟩
  | blocked =>
    refine ⟨done.1, done.2.1, ?_, ?_⟩
    · rw [restingLots_same_pool look_pool ⟨_, look_levels⟩]
      exact done.2.2
    · apply shown.same_pool look_pool ⟨_, look_levels⟩
      rw [look_levels]
      exact shown.found.cached

theorem matchOrder_reference (shown : Shown b aggressor.contra) (price quantity : Int)
    (cid maxFills : Nat) :
    ∃ b', b.matchOrder aggressor price quantity cid maxFills =
        some (results cid (reference b aggressor price quantity maxFills).fills, b') ∧
      restingLots b' aggressor.contra = (reference b aggressor price quantity maxFills).rest ∧
      Shown b' aggressor.contra ∧ Changes aggressor.contra b b' := by
  have start : Walking aggressor price cid maxFills
      (reference b aggressor price quantity maxFills) (b.queue aggressor.contra)
      ⟨b, [], quantity⟩ :=
    ⟨shown, fun _ _ => rfl, [], rfl, rfl⟩
  obtain ⟨Q, m, m', returns, ⟨walking, changes⟩, exit⟩ := matchOrder_returns
    (fun Q m => Walking aggressor price cid maxFills
      (reference b aggressor price quantity maxFills) Q m ∧ Changes aggressor.contra b m.book)
    (fun Q m inv => inv.1.shown.ready_agree inv.1.agree)
    (fun Q m best gone kept b₁ m' inv round =>
      ⟨inv.1.round round, inv.2.round inv.1.shown inv.1.agree round⟩)
    b quantity (b.queue aggressor.contra) ⟨start, Changes.refl _ _⟩
  obtain ⟨fills, -, rest, shown'⟩ := walking.exit exit
  have changes' : Changes aggressor.contra b m'.book := by
    cases exit with
    | sated => exact changes
    | blocked => exact changes.same_pool look_pool look_levels_contra ⟨_, look_levels⟩
  rw [fills] at returns
  have tally : ∀ n s, ({ m'.book with totalFills := n } : OrderBook).levels s = m'.book.levels s := by
    intro n s
    cases s <;> rfl
  refine ⟨_, returns, ?_, ?_, ?_⟩
  · rw [← rest]
    exact restingLots_same_pool rfl ⟨_, tally _ _⟩
  · refine shown'.same_pool rfl ⟨_, tally _ _⟩ ?_
    rw [tally]
    exact shown'.cached
  · exact changes'.same_pool rfl (tally _ _) ⟨_, tally _ _⟩

end Loop

section Validity

/-- A book as matching against side `contra` expects it: on both sides lists and
counters agree, the price map holds the prices in use and no level is priced
where a scan starts; the cache of the contra side is empty or right. -/
structure Valid (b : OrderBook) (contra : Side) : Prop where
  level : ∀ s i, (b.levels s).active i = true → LevelRep b s i (b.queue s i)
  fits : ∀ s i, (b.levels s).active i = true →
    ((b.queue s i).map (restingQty b)).sum < 2147483648
  indexed : ∀ s, Indexed (b.levels s)
  priced : ∀ s i, (b.levels s).active i = true → better s ((b.levels s).prices i) (scanStart s)
  cached : Cached contra (b.levels contra)

variable {b b' : OrderBook} {aggressor : Side}

theorem Valid.shown {c : Side} (valid : Valid b c) : Shown b c :=
  ⟨⟨valid.indexed c, valid.level c⟩, valid.fits c, valid.priced c, valid.cached⟩

theorem valid_of_clear {Q : Queues} (clear : Clear b Q) (c : Side) : Valid b c where
  level := fun s i active => (walkable_of_rep clear.rep (clear.indexed s)).level i active
  fits := fun s i _ => by
    rw [clear.rep.queue_eq]
    exact clear.tame s i
  indexed := clear.indexed
  priced := fun s i active => clear.sighted.priced s i ((clear.rep.active s i).mp active)
  cached := clear.sighted.cached clear.rep clear.tame c

private theorem Valid.own_cells (valid : Valid b aggressor.contra)
    (changes : Changes aggressor.contra b b') {i : Nat}
    (active : (b.levels aggressor).active i = true) :
    ∀ x ∈ b.queue aggressor i, b'.pool.orders x = b.pool.orders x := by
  intro x hx
  apply changes.cells
  intro j active' hx'
  have side := (valid.level aggressor i active).side x hx
  have side' := (valid.level aggressor.contra j active').side x hx'
  exact aggressor.contra_ne (side'.symm.trans side)

private theorem Valid.own_queue (valid : Valid b aggressor.contra)
    (changes : Changes aggressor.contra b b') {i : Nat}
    (active : (b.levels aggressor).active i = true) :
    LevelRep b' aggressor i (b.queue aggressor i) ∧ b'.queue aggressor i = b.queue aggressor i := by
  have own := changes.own
  rw [Side.contra_contra] at own
  have rep : LevelRep b' aggressor i (b.queue aggressor i) := by
    apply (valid.level aggressor i active).congr (valid.own_cells changes active) <;> rw [own]
  exact ⟨rep, rep.queue_eq⟩

theorem Valid.changed (valid : Valid b aggressor.contra) (changes : Changes aggressor.contra b b')
    (shown : Shown b' aggressor.contra) : Valid b' aggressor.contra := by
  have own := changes.own
  rw [Side.contra_contra] at own
  refine ⟨fun s i active => ?_, fun s i active => ?_, fun s => ?_, fun s i active => ?_,
    shown.cached⟩
  · rcases Side.eq_or_eq_contra aggressor s with rfl | rfl
    · rw [own] at active
      obtain ⟨rep, queue⟩ := valid.own_queue changes active
      rwa [queue]
    · exact shown.level i active
  · rcases Side.eq_or_eq_contra aggressor s with rfl | rfl
    · rw [own] at active
      rw [(valid.own_queue changes active).2, List.map_congr_left (fun x hx => by
        rw [restingQty, valid.own_cells changes active x hx, ← restingQty])]
      exact valid.fits s i active
    · exact shown.fits i active
  · rcases Side.eq_or_eq_contra aggressor s with rfl | rfl
    · rw [own]
      exact valid.indexed s
    · exact shown.indexed
  · rcases Side.eq_or_eq_contra aggressor s with rfl | rfl
    · rw [own] at active ⊢
      exact valid.priced s i active
    · rw [changes.prices]
      exact valid.priced aggressor.contra i (changes.shrunk i active).1

theorem Valid.own_lots (valid : Valid b aggressor.contra)
    (changes : Changes aggressor.contra b b') :
    restingLots b' aggressor = restingLots b aggressor := by
  have own := changes.own
  rw [Side.contra_contra] at own
  apply restingLots_congr
  · rw [own]
  · intro i hi
    have active := (mem_activeLevels (valid.indexed aggressor) i).mp hi
    rw [levelLots, levelLots, (valid.own_queue changes active).2]
    apply List.map_congr_left
    intro x hx
    rw [lot, restingQty, valid.own_cells changes active x hx, lot, restingQty]

theorem Valid.open_iff {c : Side} (valid : Valid b c) (changes : Changes c b b') (shown : Shown b' c)
    (i : Nat) : (b'.levels c).active i = true ↔ (b.levels c).active i = true ∧
      (b.queue c i ≠ [] → ∃ l ∈ restingLots b' c, l.price = (b.levels c).prices i) := by
  constructor
  · intro active
    obtain ⟨old, -, some_left⟩ := changes.shrunk i active
    refine ⟨old, fun nonempty => ?_⟩
    obtain ⟨x, hx⟩ := List.exists_mem_of_ne_nil _ (some_left nonempty)
    have member : lot b' x ∈ levelLots b' c i := List.mem_map_of_mem hx
    refine ⟨lot b' x, (shown.mem_restingLots _).mpr ⟨i, active, member⟩, ?_⟩
    rw [shown.lot_price active _ member, changes.prices]
  · rintro ⟨old, left⟩
    by_cases empty : b.queue c i = []
    · exact changes.idle i old empty
    · obtain ⟨l, hl, price⟩ := left empty
      obtain ⟨j, active, member⟩ := (shown.mem_restingLots l).mp hl
      have same := shown.lot_price active l member
      rw [changes.prices] at same
      have here : j = i := (valid.indexed c).distinct (changes.shrunk j active).1 old
        (same.symm.trans price)
      exact here ▸ active

/-- Matching a valid book returns, with exactly the fills of price-time priority.
What rests afterwards is what the reference leaves; the slots of the orders it
used up are free, levels it emptied are closed, the other side is untouched and
the book is valid again. -/
theorem match_follows_price_time_priority (b : OrderBook) (aggressor : Side) (price quantity : Int)
    (cid maxFills : Nat) (valid : Valid b aggressor.contra) :
    ∃ b', b.matchOrder aggressor price quantity cid maxFills =
        some (results cid (reference b aggressor price quantity maxFills).fills, b') ∧
      restingLots b' aggressor.contra = (reference b aggressor price quantity maxFills).rest ∧
      (∃ used, (restingLots b aggressor.contra).map Lot.ref =
          used ++ (reference b aggressor price quantity maxFills).rest.map Lot.ref ∧
        (freeSlots b').Perm (freeSlots b ++ used)) ∧
      (∀ i, (b'.levels aggressor.contra).active i = true ↔
        (b.levels aggressor.contra).active i = true ∧ (b.queue aggressor.contra i ≠ [] →
          ∃ l ∈ restingLots b' aggressor.contra,
            l.price = (b.levels aggressor.contra).prices i)) ∧
      (∀ x, static (b'.pool.orders x) = static (b.pool.orders x)) ∧
      b'.levels aggressor = b.levels aggressor ∧
      restingLots b' aggressor = restingLots b aggressor ∧
      Valid b' aggressor.contra := by
  obtain ⟨b', returns, rest, shown, changes⟩ :=
    matchOrder_reference valid.shown price quantity cid maxFills
  have own := changes.own
  have freed := changes.freed
  rw [Side.contra_contra] at own
  rw [rest] at freed
  exact ⟨b', returns, rest, freed, valid.open_iff changes shown, changes.static, own,
    valid.own_lots changes, valid.changed changes shown⟩

theorem match_follows_price_time_priority_two_prices :
    ∃ b b', run BookOp.apply OrderBook.init
        [.addOrder 0 1 .sell 1010000 5 0, .addOrder 0 2 .sell 1000000 3 0,
          .addOrder 1 1 .sell 1000000 2 0] = some b ∧ Valid b .sell ∧
      b.matchOrder .buy 1010000 7 2 64 =
        some ([⟨1, 2, 1000000, 3⟩, ⟨2, 2, 1000000, 2⟩, ⟨0, 2, 1010000, 2⟩], b') ∧
      restingLots b' .sell = [⟨0, 1010000, 3⟩] := by
  obtain ⟨b, returns, Q, clear⟩ := welcoming_runs_clear
    [.addOrder 0 1 .sell 1010000 5 0, .addOrder 0 2 .sell 1000000 3 0,
      .addOrder 1 1 .sell 1000000 2 0]
    (obeys_of_test welcoming_of_test _ _ (by decide +kernel))
  obtain ⟨b', matched, rest, -⟩ :=
    match_follows_price_time_priority b .buy 1010000 7 2 64 (valid_of_clear clear .sell)
  have fills : (run BookOp.apply OrderBook.init
      [.addOrder 0 1 .sell 1010000 5 0, .addOrder 0 2 .sell 1000000 3 0,
        .addOrder 1 1 .sell 1000000 2 0]).map (fun b => reference b .buy 1010000 7 64) =
      some ⟨[⟨1, 1000000, 3⟩, ⟨2, 1000000, 2⟩, ⟨0, 1010000, 2⟩], 0, [⟨0, 1010000, 3⟩]⟩ := by
    decide +kernel
  rw [returns] at fills
  have swept : reference b .buy 1010000 7 64 =
      ⟨[⟨1, 1000000, 3⟩, ⟨2, 1000000, 2⟩, ⟨0, 1010000, 2⟩], 0, [⟨0, 1010000, 3⟩]⟩ :=
    Option.some.inj fills
  rw [swept] at matched rest
  exact ⟨b, b', returns, valid_of_clear clear .sell, matched, rest⟩

end Validity

end HftGrading.Exchange.Book.PriorityMatching
