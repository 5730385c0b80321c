/- module: HftGrading/Exchange/Book/LevelExhaustion
   source: exchange/include/exchange/orderbook.hpp
   digest: Closed levels are never used again; what their exhaustion does to later orders. -/

import HftGrading.Exchange.Book.BookRuns

set_option autoImplicit false
set_option relaxedAutoImplicit false

namespace HftGrading.Exchange.Book.LevelExhaustion

open Lib.PartialExecution WireProtocol PriceMap LimitBook
open LimitBook.OrderBook (MatchResult)
open LevelSearch LevelQueue LevelFilling MatchRounds BookRep BookRuns

variable {b b' : OrderBook} {Q : Queues} {s : Side}

/-- A book that positive orders, matches, searches and cancels of resting orders
lead to. -/
def Reached (b : OrderBook) : Prop :=
  ∃ ops, Obeys BookOp.apply Proper OrderBook.init ops ∧
    run BookOp.apply OrderBook.init ops = some b

theorem Reached.rep (reached : Reached b) : ∃ Q, Rep b Q := by
  obtain ⟨ops, proper, returns⟩ := reached
  obtain ⟨b₁, returns', rep⟩ := run_returns BookOp.apply Proper (fun b => ∃ Q, Rep b Q)
    (fun b op inv legal => by
      obtain ⟨Q, rep⟩ := inv
      obtain ⟨Q', b', step, -, rep'⟩ := apply_effect rep op legal
      exact ⟨b', step, Q', rep'⟩)
    ops OrderBook.init ⟨_, rep_init⟩ proper
  rw [returns] at returns'
  cases returns'
  exact rep

section Refusals

variable {cid ts x : Nat} {client : UInt32} {price quantity : Int}

def activeLevels (L : PriceLevelPool) : List Nat :=
  (List.range L.count).filter (fun i => L.active i)

/-- Every slot of the pool rests, or all levels the side can have hold orders and
none of them is at the price. -/
def Exhausted (b : OrderBook) (side : Side) (price : Int) : Prop :=
  (∀ x < b.pool.capacity, x ∈ listed b) ∨
    (activeLevels (b.levels side)).length = maxPriceLevelsOb ∧
      ∀ i ∈ activeLevels (b.levels side), (b.levels side).prices i ≠ price

/-- The pool has no free slot, the side has opened fewer levels than it may over
its whole life, the map names a level in use for the price, or no level of the
side has been closed and none is at the price. -/
def Provisioned (b : OrderBook) (side : Side) (price : Int) : Prop :=
  b.pool.freeTop = 0 ∨ (b.levels side).count < maxPriceLevelsOb ∨ ¬ Missed (b.levels side) price ∨
    ∀ i < (b.levels side).count, (b.levels side).active i = true ∧ (b.levels side).prices i ≠ price

theorem freeSlots_ne_nil (top : ∃ rest, freeSlots b = rest ++ [x]) : b.pool.freeTop ≠ 0 := by
  intro none
  obtain ⟨rest, split⟩ := top
  simp [freeSlots, none] at split

theorem all_listed_iff (rep : Rep b Q) :
    (∀ x < b.pool.capacity, x ∈ listed b) ↔ b.pool.freeTop = 0 := by
  constructor
  · intro all
    by_contra some_free
    have top : b.pool.freeList 0 ∈ freeSlots b :=
      List.mem_map_of_mem (List.mem_range.mpr (Nat.pos_of_ne_zero some_free))
    obtain ⟨inside, unlisted⟩ := (rep.slots _).mp top
    obtain ⟨s, i, hx⟩ := (mem_listed rep _).mp (all _ inside)
    exact unlisted s i hx
  · intro none x inside
    rw [mem_listed rep]
    by_contra unlisted
    have free : x ∈ freeSlots b :=
      (rep.slots x).mpr ⟨inside, fun s i hx => unlisted ⟨s, i, hx⟩⟩
    simp [freeSlots, none] at free

theorem findOrCreate_full {L : PriceLevelPool} (mapped : Mapped L) (no_room : L.capacity ≤ L.count)
    (missed : Missed L price) : L.findOrCreate price = some (nullIndex, L) := by
  obtain ⟨existing, found, -⟩ := PriceMapProbing.find_returns L.priceMap price
    (by have := mapped.map_room; omega)
  have unnamed := missed existing found
  simp [PriceLevelPool.findOrCreate, found, unnamed, no_room]

variable (cid client quantity ts) in
theorem addOrder_refused (rep : Rep b Q) (free : b.pool.freeTop ≠ 0)
    (no_room : (b.levels s).capacity ≤ (b.levels s).count) (missed : Missed (b.levels s) price) :
    ∃ x, (∃ rest, freeSlots b = rest ++ [x]) ∧
      b.addOrder cid client s price quantity ts =
        some (nullIndex, (stamped b cid client s price quantity ts x).onPool (fun P => P.free x)) := by
  obtain ⟨r, b', run, added⟩ := addOrder_added cid client s price quantity ts rep
  cases added with
  | exhausted none => exact absurd none free
  | unleveled x top => exact ⟨x, top, run⟩
  | rests x i L top located real lookup =>
    rw [findOrCreate_full (rep.mapped s) no_room missed] at lookup
    cases lookup
    exact absurd rfl real

variable (cid client s price quantity ts) in
theorem refused_iff (rep : Rep b Q) : (∃ b', b.addOrder cid client s price quantity ts =
      some (nullIndex, b')) ↔ b.pool.freeTop = 0 ∨
    (b.levels s).capacity ≤ (b.levels s).count ∧ Missed (b.levels s) price := by
  constructor
  · rintro ⟨b', refused⟩
    obtain ⟨r, b₁, run, added⟩ := addOrder_added cid client s price quantity ts rep
    rw [refused] at run
    cases run
    generalize null : nullIndex = r at added
    cases added with
    | exhausted none => exact Or.inl none
    | unleveled x top no_room missed => exact Or.inr ⟨no_room, missed⟩
    | rests x i L top => exact absurd null.symm (rep.top_lt top).ne
  · intro want
    by_cases free : b.pool.freeTop = 0
    · exact ⟨b, by simp [OrderBook.addOrder, OrderPool.alloc, free]⟩
    · obtain ⟨no_room, missed⟩ := want.resolve_left free
      obtain ⟨x, -, run⟩ := addOrder_refused cid ts client quantity rep free no_room missed
      exact ⟨_, run⟩

end Refusals

def churn (n : Nat) : List BookOp :=
  (List.replicate n [BookOp.addOrder 0 1 .buy 1000000 1 0, .cancelOrder 0]).flatten

/-- An empty book that has opened and closed `n` bid levels. -/
structure Churned (n : Nat) (b : OrderBook) : Prop where
  rep : Rep b (fun _ _ => [])
  count : b.bids.count = n
  top : ∃ rest, freeSlots b = rest ++ [0]
  spent : restingQty b 0 = 0

theorem churned_init : Churned 0 OrderBook.init where
  rep := rep_init
  count := rfl
  top := ⟨(List.range (maxOrders * 2 - 1)).map (fun i => maxOrders * 2 - 1 - i), by
    have slots : freeSlots OrderBook.init =
      (List.range (maxOrders * 2 - 1 + 1)).map (fun i => maxOrders * 2 - 1 - i) := rfl
    rw [slots, List.range_succ, List.map_append]
    rfl⟩
  spent := rfl

private theorem churn_round {n : Nat} (churned : Churned n b) (room : n < maxPriceLevelsOb) :
    ∃ b₁ b₂, b.addOrder 0 1 .buy 1000000 1 0 = some (0, b₁) ∧
      (∃ i, 0 ∈ b₁.queue .buy i) ∧ b₁.cancelOrder 0 = some (true, b₂) ∧ Churned (n + 1) b₂ := by
  have rep := churned.rep
  obtain ⟨r, b₁, added_run, added⟩ := addOrder_added 0 1 .buy 1000000 1 0 rep
  cases added with
  | exhausted none => exact absurd none (freeSlots_ne_nil churned.top)
  | unleveled x top no_room =>
    have full : b.bids.capacity ≤ b.bids.count := no_room
    have capacity : b.bids.capacity = maxPriceLevelsOb := (rep.mapped .buy).capacity
    have count := churned.count
    omega
  | rests r i L top located real =>
    -- Slots are handed out last in, first out: the withdrawn slot comes back.
    obtain ⟨rest, zero⟩ := churned.top
    obtain ⟨rest', same⟩ := top
    obtain rfl : r = 0 := by
      rw [zero] at same
      exact (List.singleton_inj.mp (List.append_inj' same rfl).2).symm
    have fresh : L.count = n + 1 ∧ i < L.count := by
      cases located with
      | existing _ active => exact absurd rfl (rep.active_iff.mp active)
      | full => exact absurd rfl real
      | created m => exact ⟨congrArg Nat.succ churned.count, Nat.lt_succ_self _⟩
    have rep₁ : Rep (rested b 0 1 .buy 1000000 1 0 0 i L)
        (place (fun _ _ => []) .buy i ([] ++ [0])) :=
      rep.rests (by decide) ⟨rest', same⟩ located real
    have joined : Joined .buy i L ((rested b 0 1 .buy 1000000 1 0 0 i L).levels .buy) :=
      rested_joined rep ⟨rest', same⟩ located real
    have listed : 0 ∈ place (fun _ _ => []) .buy i ([] ++ [0]) .buy i := by simp
    obtain ⟨b₃, b₂, cancel, shed, settled, -, rep₂⟩ := rep₁.cancelOrder listed
    refine ⟨_, b₂, added_run, ⟨i, by rw [rep₁.queue_eq]; exact listed⟩, cancel, ?_, ?_, ?_, ?_⟩
    · have empty : place (place (fun _ _ => []) .buy i ([] ++ [0])) .buy i
          ((place (fun _ _ => []) .buy i ([] ++ [0]) .buy i).erase 0) = fun _ _ => [] := by
        funext t j
        by_cases here : t = .buy ∧ j = i
        · obtain ⟨rfl, rfl⟩ := here
          simp
        · rw [place_other (not_and_or.mp here), place_other (not_and_or.mp here)]
      rwa [empty] at rep₂
    · have count : b₂.bids.count = L.count :=
        (settled.count.trans shed.frame.count).trans joined.count
      rw [count, fresh.1]
    · refine ⟨freeSlots (rested b 0 1 .buy 1000000 1 0 0 i L), ?_⟩
      rw [← shed.freed, freeSlots, settled.pool, freeSlots]
    · rw [restingQty, settled.pool]
      exact shed.spent 0 (List.mem_singleton_self 0)

theorem churn_runs (n : Nat) (enough : n ≤ maxPriceLevelsOb) :
    ∃ b, Obeys BookOp.apply Proper OrderBook.init (churn n) ∧
      run BookOp.apply OrderBook.init (churn n) = some b ∧ Churned n b := by
  induction n with
  | zero => exact ⟨_, trivial, rfl, churned_init⟩
  | succ n ih =>
    obtain ⟨b, proper, returns, churned⟩ := ih (Nat.le_of_succ_le enough)
    obtain ⟨b₁, b₂, added, listed, cancelled, churned'⟩ := churn_round churned enough
    have extended : churn (n + 1) =
        churn n ++ [.addOrder 0 1 .buy 1000000 1 0, .cancelOrder 0] := by
      simp [churn, List.replicate_succ']
    have round : run BookOp.apply b [.addOrder 0 1 .buy 1000000 1 0, .cancelOrder 0] =
        some b₂ := by
      simp [run, BookOp.apply, added, cancelled]
    rw [extended]
    refine ⟨b₂, proper.append fun b' reached => ?_, ?_, churned'⟩
    · rw [returns] at reached
      cases reached
      refine ⟨Int.one_pos, fun b' move => ⟨?_, fun _ _ => trivial⟩⟩
      obtain rfl : b₁ = b' := by simpa [BookOp.apply, added] using move
      exact ⟨.buy, listed⟩
    · rw [run_append, returns, Option.bind_some, round]

theorem churn_reached : ∃ b, run BookOp.apply OrderBook.init (churn maxPriceLevelsOb) = some b ∧
    Reached b ∧ Churned maxPriceLevelsOb b := by
  obtain ⟨b, proper, returns, churned⟩ := churn_runs maxPriceLevelsOb le_rfl
  exact ⟨b, returns, ⟨_, proper, returns⟩, churned⟩

theorem Churned.inactive {n : Nat} (churned : Churned n b) (s : Side) (i : Nat) :
    (b.levels s).active i = false := by
  have active := churned.rep.active s i
  simpa using active

theorem Churned.refuses (churned : Churned maxPriceLevelsOb b) (price quantity : Int) :
    b.addOrder 0 1 .buy price quantity 0 = some (nullIndex,
      (stamped b 0 1 .buy price quantity 0 0).onPool (fun P => P.free 0)) := by
  have full : (b.levels .buy).capacity ≤ (b.levels .buy).count :=
    (churned.rep.mapped .buy).capacity.trans_le churned.count.ge
  have missed : Missed (b.levels .buy) price := fun v _ named =>
    absurd (churned.inactive .buy v ▸ named.2) Bool.false_ne_true
  obtain ⟨x, ⟨rest', top⟩, run⟩ := addOrder_refused 0 0 1 quantity churned.rep
    (freeSlots_ne_nil churned.top) full missed
  obtain ⟨rest, zero⟩ := churned.top
  rw [zero] at top
  obtain rfl : 0 = x := List.singleton_inj.mp (List.append_inj' top rfl).2
  exact run

theorem Churned.not_exhausted {n : Nat} (churned : Churned n b) (price : Int) :
    ¬ Exhausted b .buy price := by
  rintro (slots | ⟨all, -⟩)
  · exact freeSlots_ne_nil churned.top ((all_listed_iff churned.rep).mp slots)
  · have none : activeLevels (b.levels .buy) = [] :=
      List.filter_eq_nil_iff.mpr (fun i _ => by simp [churned.inactive .buy i])
    rw [none] at all
    exact absurd all (by decide)

/-- Whether a refusal of an order at the price can only mean exhaustion. -/
theorem refusals_mean_exhaustion_iff (b : OrderBook) (reached : Reached b) (cid : Nat)
    (client : UInt32) (side : Side) (price quantity : Int) (ts : Nat) :
    (∀ b', b.addOrder cid client side price quantity ts = some (nullIndex, b') →
        Exhausted b side price) ↔ Provisioned b side price := by
  obtain ⟨Q, rep⟩ := reached.rep
  have capacity := (rep.mapped side).capacity
  have small := (rep.mapped side).small
  constructor
  · intro only
    by_contra unprovisioned
    simp only [Provisioned, not_or, not_not, not_lt] at unprovisioned
    obtain ⟨free, full, missed, some_other⟩ := unprovisioned
    obtain ⟨b', refused⟩ := (refused_iff side cid ts client price quantity rep).mpr
      (Or.inr ⟨capacity.trans_le full, missed⟩)
    rcases only b' refused with slots | ⟨all, elsewhere⟩
    · exact free ((all_listed_iff rep).mp slots)
    · apply some_other
      have active : ∀ i ∈ List.range (b.levels side).count, (b.levels side).active i = true := by
        rw [← List.length_filter_eq_length_iff, ← activeLevels, all, List.length_range]
        omega
      intro i hi
      have live := active i (List.mem_range.mpr hi)
      exact ⟨live, elsewhere i (List.mem_filter.mpr ⟨List.mem_range.mpr hi, live⟩)⟩
  · intro provisioned b' refused
    by_cases free : b.pool.freeTop = 0
    · exact Or.inl ((all_listed_iff rep).mpr free)
    obtain ⟨no_room, missed⟩ :=
      ((refused_iff side cid ts client price quantity rep).mp ⟨b', refused⟩).resolve_left free
    rcases provisioned with none | room | named | intact
    · exact absurd none free
    · omega
    · exact absurd missed named
    · have all : activeLevels (b.levels side) = List.range (b.levels side).count :=
        List.filter_eq_self.mpr (fun i hi => (intact i (List.mem_range.mp hi)).1)
      refine Or.inr ⟨?_, fun i hi => ?_⟩
      · rw [all, List.length_range]
        omega
      · rw [all] at hi
        exact (intact i (List.mem_range.mp hi)).2

/-- With 4095 bid levels opened and closed the next bid still rests; with 4096 it is refused and
nothing is exhausted. -/
theorem refusals_mean_exhaustion_iff_churned :
    (∃ b b₁, run BookOp.apply OrderBook.init (churn 4095) = some b ∧ Provisioned b .buy 1000000 ∧
      b.addOrder 0 1 .buy 1000000 1 0 = some (0, b₁) ∧
      ∀ b', b.addOrder 0 1 .buy 1000000 1 0 = some (nullIndex, b') → Exhausted b .buy 1000000) ∧
    ∃ b b₁, run BookOp.apply OrderBook.init (churn 4096) = some b ∧
      ¬ Provisioned b .buy 1000000 ∧ b.addOrder 0 1 .buy 1000000 1 0 = some (nullIndex, b₁) ∧
      ¬ ∀ b', b.addOrder 0 1 .buy 1000000 1 0 = some (nullIndex, b') → Exhausted b .buy 1000000 := by
  constructor
  · obtain ⟨b, proper, returns, churned⟩ := churn_runs 4095 (by decide)
    obtain ⟨b₁, -, rests, -⟩ := churn_round churned (by decide)
    have provisioned : Provisioned b .buy 1000000 :=
      Or.inr (Or.inl (churned.count.trans_lt (by decide)))
    exact ⟨b, b₁, returns, provisioned, rests, (refusals_mean_exhaustion_iff b ⟨_, proper, returns⟩
      0 1 .buy 1000000 1 0).mpr provisioned⟩
  · obtain ⟨b, returns, reached, churned⟩ := churn_reached
    have refused := churned.refuses 1000000 1
    have spurious : ¬ ∀ b', b.addOrder 0 1 .buy 1000000 1 0 = some (nullIndex, b') →
        Exhausted b .buy 1000000 := fun only => churned.not_exhausted 1000000 (only _ refused)
    exact ⟨b, _, returns, mt (refusals_mean_exhaustion_iff b reached 0 1 .buy 1000000 1 0).mpr
      spurious, refused, spurious⟩

/-- After 4096 bids that were each withdrawn, the empty book refuses the next one. -/
theorem empty_book_refuses_bid : ∃ b b',
    run BookOp.apply OrderBook.init (churn maxPriceLevelsOb) = some b ∧ Reached b ∧
      (∀ s i, (b.levels s).active i = false) ∧ 0 < b.pool.freeTop ∧
      b.addOrder 0 1 .buy 1000000 1 0 = some (nullIndex, b') ∧ ¬ Exhausted b .buy 1000000 := by
  obtain ⟨b, returns, reached, churned⟩ := churn_reached
  exact ⟨b, _, returns, reached, churned.inactive,
    Nat.pos_of_ne_zero (freeSlots_ne_nil churned.top), churned.refuses 1000000 1,
    churned.not_exhausted 1000000⟩

section Traces

inductive Observation
  | added (slot : Nat) (exchangeId : Option Nat)
  | cancelled (done : Bool)
  | matched (fills : List MatchResult)
  | best (value : Int)
  deriving DecidableEq

def BookOp.observe (b : OrderBook) : BookOp → Option (Observation × OrderBook)
  | .addOrder cid client side price quantity ts =>
    (b.addOrder cid client side price quantity ts).map fun (r, b') =>
      (.added r (if r = nullIndex then none else some (b'.pool.orders r).exchangeId), b')
  | .cancelOrder x => (b.cancelOrder x).map fun (done, b') => (.cancelled done, b')
  | .matchOrder aggressor price quantity cid maxFills =>
    (b.matchOrder aggressor price quantity cid maxFills).map fun (fills, b') =>
      (.matched fills, b')
  | .bestBidPrice => some (.best b.bestBidPrice.1, b.bestBidPrice.2)
  | .bestAskPrice => some (.best b.bestAskPrice.1, b.bestAskPrice.2)
  | .bestBidQty => some (.best b.bestBidQty.1, b.bestBidQty.2)
  | .bestAskQty => some (.best b.bestAskQty.1, b.bestAskQty.2)

/-- The observations of a run, up to the first operation that does not return. -/
def observed (b : OrderBook) : List BookOp → List (Option Observation)
  | [] => []
  | op :: ops =>
    match BookOp.observe b op with
    | none => [none]
    | some (seen, b') => some seen :: observed b' ops

/-- A refusal could show at once: the refused order has a quantity and the slot it
was written to had none, or some order would still be accepted. -/
def Revealing (b : OrderBook) (quantity : Int) : Prop :=
  (0 < quantity ∧ restingQty b (b.pool.freeList (b.pool.freeTop - 1)) ≤ 0) ∨
    ∃ cid client side price quantity ts x b', x ≠ nullIndex ∧
      b.addOrder cid client side price quantity ts = some (x, b')

variable {cid ts x : Nat} {client : UInt32} {price quantity : Int}

theorem top_eq (top : ∃ rest, freeSlots b = rest ++ [x]) :
    b.pool.freeList (b.pool.freeTop - 1) = x := by
  obtain ⟨n, positive⟩ := Nat.exists_eq_succ_of_ne_zero (freeSlots_ne_nil top)
  obtain ⟨rest, split⟩ := top
  rw [freeSlots, positive, Nat.succ_eq_add_one, List.range_succ, List.map_append] at split
  rw [positive]
  exact List.singleton_inj.mp (List.append_inj' split rfl).2

theorem observed_cancel_spent (spent : restingQty b x ≤ 0) :
    observed b [.cancelOrder x] = [some (.cancelled false)] := by
  have no : b.cancelOrder x = some (false, b) := by
    simp only [OrderBook.cancelOrder]
    split_ifs with range quantity
    · rfl
    · rfl
    · exact absurd spent quantity
  simp [observed, BookOp.observe, no]

theorem observed_cancel_filled (inside : x < b.pool.capacity) (filled : 0 < restingQty b x) :
    observed b [.cancelOrder x] ≠ [some (.cancelled false)] := by
  have yes := cancelOrder_eq inside filled rfl rfl
  simp only [observed, BookOp.observe, yes]
  cases (withdraw b (b.pool.orders x).side (b.pool.orders x).levelIdx x).closeIfEmpty
      (b.pool.orders x).side (b.pool.orders x).levelIdx with
  | none => simp
  | some b' => simp

theorem restingQty_refused :
    restingQty ((stamped b cid client s price quantity ts x).onPool (fun P => P.free x)) x =
      quantity := by
  simp [restingQty, stamped, OrderPool.free, OrderBook.fillCell]

variable (cid client quantity ts) in
theorem observed_add (rep : Rep b Q) (room : b.pool.freeTop ≠ 0) {i : Nat} {L : PriceLevelPool}
    (lookup : (b.levels s).findOrCreate price = some (i, L)) (real : i ≠ nullIndex) :
    ∃ x, observed b [.addOrder cid client s price quantity ts] =
      [some (.added x (some b.nextExchangeId))] := by
  obtain ⟨r, b', run, added⟩ := addOrder_added cid client s price quantity ts rep
  cases added with
  | exhausted none => exact absurd none room
  | unleveled x top no_room missed =>
    rw [findOrCreate_full (rep.mapped s) no_room missed] at lookup
    cases lookup
    exact absurd rfl real
  | rests x i L top =>
    have id : ((rested b cid client s price quantity ts r i L).pool.orders r).exchangeId =
      b.nextExchangeId := (congrArg Order.exchangeId (rested_self i L) :)
    exact ⟨r, by simp [observed, BookOp.observe, run, (rep.top_lt top).ne, id]⟩

theorem addOrder_lookup (rep : Rep b Q)
    (accepted : b.addOrder cid client s price quantity ts = some (x, b')) (real : x ≠ nullIndex) :
    b.pool.freeTop ≠ 0 ∧ ∃ i L, (b.levels s).findOrCreate price = some (i, L) ∧ i ≠ nullIndex := by
  obtain ⟨r, b₁, run, added⟩ := addOrder_added cid client s price quantity ts rep
  rw [accepted] at run
  cases run
  cases added with
  | exhausted => exact absurd rfl real
  | unleveled => exact absurd rfl real
  | rests _ i L top located named lookup => exact ⟨freeSlots_ne_nil top, i, L, lookup, named⟩

variable (cid client s price ts) in
theorem refusal_shows (rep : Rep b Q) (top : ∃ rest, freeSlots b = rest ++ [x])
    (revealing : Revealing b quantity) :
    ∃ ops, observed ((stamped b cid client s price quantity ts x).onPool (fun P => P.free x)) ops ≠
      observed b ops := by
  rcases revealing with ⟨positive, spent⟩ | ⟨cid', client', s', price', quantity', ts', y, b', real,
    accepted⟩
  · rw [top_eq top] at spent
    refine ⟨[.cancelOrder x], ?_⟩
    rw [observed_cancel_spent spent]
    exact observed_cancel_filled (rep.top_free top).1 (restingQty_refused.symm ▸ positive)
  · obtain ⟨room, i, L, lookup, named⟩ := addOrder_lookup rep accepted real
    refine ⟨[.addOrder cid' client' s' price' quantity' ts'], ?_⟩
    obtain ⟨y₁, without⟩ := observed_add cid' ts' client' quantity' rep room lookup named
    have levels : ((stamped b cid client s price quantity ts x).onPool (fun P => P.free x)).levels s' =
        b.levels s' := by
      cases s' <;> rfl
    have rep' : Rep ((stamped b cid client s price quantity ts x).onPool (fun P => P.free x)) Q :=
      rep.unleveled top
    obtain ⟨y₂, within⟩ := observed_add cid' ts' client' quantity' rep' (Nat.succ_ne_zero _)
      (levels ▸ lookup) named
    rw [without, within]
    intro same
    simp [stamped] at same

/-- A refused order for which the pool had no slot leaves no trace in any later run; one that
found a slot and no level leaves one, wherever it can show. -/
theorem refusal_traceless (b : OrderBook) (reached : Reached b) (cid : Nat) (client : UInt32)
    (side : Side) (price quantity : Int) (ts : Nat) (b' : OrderBook)
    (refused : b.addOrder cid client side price quantity ts = some (nullIndex, b')) :
    (b.pool.freeTop = 0 → ∀ ops, observed b' ops = observed b ops) ∧
      (Revealing b quantity →
        ((∀ ops, observed b' ops = observed b ops) ↔ b.pool.freeTop = 0)) := by
  obtain ⟨Q, rep⟩ := reached.rep
  obtain ⟨r, b₁, run, added⟩ := addOrder_added cid client side price quantity ts rep
  rw [refused] at run
  cases run
  generalize null : nullIndex = r at added
  cases added with
  | exhausted none => exact ⟨fun _ _ => rfl, fun _ => ⟨fun _ => none, fun _ _ => rfl⟩⟩
  | unleveled x top =>
    have some_free := freeSlots_ne_nil top
    refine ⟨fun none => absurd none some_free, fun revealing => ⟨fun same => ?_, fun none =>
      absurd none some_free⟩⟩
    obtain ⟨ops, differ⟩ := refusal_shows side cid ts client price rep top revealing
    exact absurd (same ops) differ
  | rests x i L top => exact absurd null.symm (rep.top_lt top).ne

theorem refusal_traceless_emptied : ∃ b b', Reached b ∧
    b.addOrder 0 1 .buy 1000000 5 0 = some (nullIndex, b') ∧ b.pool.freeTop ≠ 0 ∧ Revealing b 5 ∧
      ¬ ∀ ops, observed b' ops = observed b ops := by
  obtain ⟨b, -, reached, churned⟩ := churn_reached
  have refused := churned.refuses 1000000 5
  have some_free := freeSlots_ne_nil churned.top
  have revealing : Revealing b 5 := Or.inl ⟨by decide, by rw [top_eq churned.top, churned.spent]⟩
  obtain ⟨-, traced⟩ := refusal_traceless b reached 0 1 .buy 1000000 5 0 _ refused
  exact ⟨b, _, reached, refused, some_free, revealing, mt (traced revealing).mp some_free⟩

theorem withdraw_mapped {i : Nat} (mapped : Mapped (b.levels s)) :
    Mapped ((withdraw b s i x).levels s) := by
  have next : Mapped ((b.skipNext s i x).levels s) := by
    unfold OrderBook.skipNext
    split_ifs
    · simpa using mapped
    · exact mapped.congr (by simp) (by simp) (by simp) (by simp)
  have unlinked : Mapped ((b.unlink s i x).levels s) := by
    unfold OrderBook.unlink OrderBook.skipPrev
    split_ifs
    · simpa using next
    · exact next.congr (by simp) (by simp) (by simp) (by simp)
  exact unlinked.congr (by simp [withdraw, OrderBook.takeQty, OrderBook.dropCount])
    (by simp [withdraw, OrderBook.takeQty, OrderBook.dropCount])
    (by simp [withdraw, OrderBook.takeQty, OrderBook.dropCount])
    (by simp [withdraw, OrderBook.takeQty, OrderBook.dropCount])

theorem observed_cancel_done (inside : x < b.pool.capacity) (filled : 0 < restingQty b x)
    (mapped : ∀ s, Mapped (b.levels s)) :
    observed b [.cancelOrder x] = [some (.cancelled true)] := by
  have yes := cancelOrder_eq inside filled rfl rfl
  obtain ⟨m, -, closes, -⟩ := deactivate_returns
    (withdraw_mapped (i := (b.pool.orders x).levelIdx) (x := x) (mapped (b.pool.orders x).side))
    (b.pool.orders x).levelIdx
  simp only [observed, BookOp.observe, yes, OrderBook.closeIfEmpty, closes]
  split_ifs <;> rfl

/-- The bid refused by a book that is empty again: the slot it was written to can
afterwards be cancelled, and its exchange id is gone. -/
theorem refused_bid_can_be_cancelled : ∃ b b', Reached b ∧
    b.addOrder 0 1 .buy 1000000 5 0 = some (nullIndex, b') ∧
      observed b [.cancelOrder 0] = [some (.cancelled false)] ∧
      observed b' [.cancelOrder 0] = [some (.cancelled true)] ∧
      b'.nextExchangeId = b.nextExchangeId + 1 := by
  obtain ⟨b, -, reached, churned⟩ := churn_reached
  refine ⟨b, _, reached, churned.refuses 1000000 5, observed_cancel_spent churned.spent.le, ?_, rfl⟩
  refine observed_cancel_done (churned.rep.top_free churned.top).1 ?_
    (churned.rep.unleveled churned.top).mapped
  rw [restingQty_refused]
  decide

end Traces

end HftGrading.Exchange.Book.LevelExhaustion
