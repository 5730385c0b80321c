/- module: HftGrading/Exchange/Shadow/LockStep
   source: exchange/include/exchange/match_engine.hpp, exchange/include/exchange/shadow_orderbook.hpp
   digest: The exchange engine and the shadow book fed the same orders, in lock step. -/

import HftGrading.Exchange.Book.BookMasks
import HftGrading.Exchange.Engine.EngineSteps
import HftGrading.Exchange.Shadow.ShadowReference

set_option autoImplicit false
set_option relaxedAutoImplicit false

namespace HftGrading.Exchange.Shadow.LockStep

open Lib.PartialExecution Lib.PriceTimePriority WireProtocol Book.PriceMap Book.LimitBook
open Book.LimitBook.OrderBook (MatchResult matchFuel matchRound beyondLimit)
open Book.LevelSearch Book.LevelQueue Book.LevelFilling Book.MatchRounds Book.BookRep Book.BookRuns
open Book.BookMasks Engine.EngineState Engine.EngineSteps ShadowState ShadowReference

section Caches

variable {s : Side} {L L' : PriceLevelPool}

/-- Levels that differ in the cache at most, and then only where the second cache is
empty and the first holds what a scan finds. -/
structure Abreast (s : Side) (L L' : PriceLevelPool) : Prop where
  levels : uncached L = uncached L'
  cache : L.bestIdx = L'.bestIdx ∨
    L'.bestIdx = nullIndex ∧ L.bestIdx = (PriceLevelPool.rebuildBest s L').1

theorem eq_of_uncached (levels : uncached L = uncached L') :
    L = { L' with bestIdx := L.bestIdx } := by
  cases L
  cases L'
  simp only [uncached, PriceLevelPool.mk.injEq] at levels ⊢
  simp [levels]

theorem rebuildBest_uncached (s : Side) (L : PriceLevelPool) (r : Nat) :
    PriceLevelPool.rebuildBest s { L with bestIdx := r } = PriceLevelPool.rebuildBest s L := rfl

theorem Abreast.findBest (abreast : Abreast s L L') : L.findBest s = L'.findBest s := by
  rw [eq_of_uncached abreast.levels]
  rcases abreast.cache with same | ⟨empty, scanned⟩
  · rw [same]
  · have miss : ¬ (L'.bestIdx ≠ nullIndex ∧ L'.active L'.bestIdx = true ∧
        0 < L'.totalQty L'.bestIdx) := fun hit => hit.1 empty
    rw [scanned, PriceLevelPool.findBest, PriceLevelPool.findBest, if_neg miss,
      rebuildBest_uncached]
    split_ifs
    · rfl
    · rfl

theorem Abreast.looked (abreast : Abreast s L L')
    (steady : L'.bestIdx = nullIndex ∨ L'.active L'.bestIdx = true ∧ 0 < L'.totalQty L'.bestIdx) :
    Abreast s { L with bestIdx := (L.findBest s).1 } L' := by
  refine ⟨abreast.levels, ?_⟩
  rw [abreast.findBest]
  by_cases empty : L'.bestIdx = nullIndex
  · right
    refine ⟨empty, ?_⟩
    rw [PriceLevelPool.findBest, if_neg (fun hit => hit.1 empty)]
  · left
    rw [PriceLevelPool.findBest, if_pos ⟨empty, steady.resolve_left empty⟩]

end Caches

section Pointers

variable {b b' : OrderBook} {Q Q' : Queues} {s : Side} {i : Nat}

def Pointed (b : OrderBook) (Q : Queues) : Prop :=
  ∀ s, (b.levels s).bestIdx = nullIndex ∨ Q s (b.levels s).bestIdx ≠ []

theorem Pointed.steady (pointed : Pointed b Q) (rep : Rep b Q) (tame : Tame b Q) (s : Side) :
    (b.levels s).bestIdx = nullIndex ∨
      (b.levels s).active (b.levels s).bestIdx = true ∧
        0 < (b.levels s).totalQty (b.levels s).bestIdx := by
  refine (pointed s).imp_right (fun nonempty => ⟨(rep.active s _).mpr nonempty, ?_⟩)
  rw [tame.total rep]
  exact (rep.level s _).sum_pos nonempty

theorem Pointed.drains (pointed : Pointed b Q) (rep : Rep b Q) (drains : Drains Q b Q' b') :
    Pointed b' Q' := by
  induction drains with
  | refl => exact pointed
  | @look Q₁ b₁ before c ih =>
    intro t
    rcases Side.eq_or_eq_contra c t with rfl | rfl
    · rw [look_levels]
      exact (findBest_live t (b₁.levels t)).imp_right
        (fun live => ((before.rep rep).active t _).mp live.1)
    · rw [look_levels_contra]
      exact ih c.contra
  | tally _ n ih =>
    intro t
    rw [tally_levels]
    exact ih t
  | @shed Q₁ b₁ b₂ b₃ c j gone kept before nonempty shed settled ih =>
    intro t
    rcases Side.eq_or_eq_contra c t with rfl | rfl
    · rw [settled.bestIdx, shed.frame.bestIdx]
      split_ifs with emptied
      · exact Or.inl rfl
      · refine (ih t).imp_right (fun listed => ?_)
        by_cases same : (b₁.levels t).bestIdx = j
        · rw [same, place_self]
          exact fun none => emptied ⟨none, same⟩
        · rwa [place_other (Or.inr same)]
    · rw [settled.contra, shed.frame.contra]
      refine (ih c.contra).imp_right (fun listed => ?_)
      rwa [place_other (Or.inl c.contra_ne)]

theorem Pointed.rests (pointed : Pointed b Q) (rep : Rep b Q) {cid ts x : Nat} {client : UInt32}
    {price quantity : Int} {L : PriceLevelPool} (top : ∃ rest, freeSlots b = rest ++ [x])
    (located : Located (b.levels s) price i L) (real : i ≠ nullIndex) :
    Pointed (rested b cid client s price quantity ts x i L) (place Q s i (Q s i ++ [x])) := by
  have kept : ∀ t j, Q t j ≠ [] → place Q s i (Q s i ++ [x]) t j ≠ [] :=
    fun t j listed => place_append_ne_nil.mpr (Or.inr listed)
  intro t
  rcases Side.eq_or_eq_contra s t with rfl | rfl
  · have joined : Joined t i L ((rested b cid client t price quantity ts x i L).levels t) :=
      rested_joined rep top located real
    rw [joined.bestIdx, PriceLevelPool.updateBest]
    split_ifs with takes
    · right
      rw [place_self]
      simp
    · rw [located_bestIdx located]
      exact (pointed t).imp_right (kept t _)
  · rw [rested_contra_eq]
    exact (pointed s.contra).imp_right (kept s.contra _)

end Pointers

section Books

variable {be bs be' bs' : OrderBook} {s : Side} {Qe Q : Queues}

theorem masked_eq_iff {own : Side} {b b' : OrderBook} : masked own b = masked own b' ↔
    facelessPool b.pool = facelessPool b'.pool ∧ b.nextExchangeId = b'.nextExchangeId ∧
      uncached (b.levels own) = uncached (b'.levels own) ∧
      b.levels own.contra = b'.levels own.contra := by
  constructor
  · intro same
    have own_levels := congrArg (OrderBook.levels · own) same
    have contra_levels := congrArg (OrderBook.levels · own.contra) same
    have ids := congrArg OrderBook.nextExchangeId same
    simp only [masked_levels, masked_levels_contra] at own_levels contra_levels
    refine ⟨congrArg OrderBook.pool same, ?_, own_levels, contra_levels⟩
    cases own <;> exact ids
  · rintro ⟨pool, ids, own_levels, contra_levels⟩
    cases own
    · simp only [OrderBook.levels, Side.contra] at own_levels contra_levels
      simp [masked, OrderBook.withLevels, OrderBook.levels, pool, ids, own_levels, contra_levels]
    · simp only [OrderBook.levels, Side.contra] at own_levels contra_levels
      simp [masked, OrderBook.withLevels, OrderBook.levels, pool, ids, own_levels, contra_levels]

structure Alike (be bs : OrderBook) : Prop where
  pool : facelessPool be.pool = facelessPool bs.pool
  ids : be.nextExchangeId = bs.nextExchangeId
  abreast : ∀ s, Abreast s (be.levels s) (bs.levels s)

theorem alike_init : Alike OrderBook.init OrderBook.init :=
  ⟨rfl, rfl, fun _ => ⟨rfl, Or.inl rfl⟩⟩

theorem Alike.looked_masked (alike : Alike be bs) (own : Side) :
    masked own (look be own.contra) = masked own (look bs own.contra) := by
  have own_levels : ∀ b, (look b own.contra).levels own = b.levels own := by
    intro b
    have other := look_levels_contra (b := b) (c := own.contra)
    rwa [Side.contra_contra] at other
  have searched : ∀ b, (look b own.contra).levels own.contra =
      ((b.levels own.contra).findBest own.contra).2 := by
    intro b
    rw [look_levels, findBest_snd]
  refine masked_eq_iff.mpr ⟨?_, ?_, ?_, ?_⟩
  · rw [look_pool, look_pool, alike.pool]
  · rw [look_nextExchangeId, look_nextExchangeId, alike.ids]
  · rw [own_levels, own_levels]
    exact (alike.abreast own).levels
  · rw [searched, searched, (alike.abreast own.contra).findBest]

theorem Alike.matchOrder (alike : Alike be bs) {price quantity : Int} {cid : Nat}
    {fillsE fillsS : List MatchResult} {Qe₁ Q₁ : Queues} {beforeE beforeS : OrderBook}
    (wanted : 0 < quantity)
    (returnsE : be.matchOrder s price quantity cid 64 = some (fillsE, be'))
    (matchedE : Matched Qe be s price quantity cid 64 Qe₁ fillsE beforeE be')
    (returnsS : bs.matchOrder s price quantity 0 64 = some (fillsS, bs'))
    (matchedS : Matched Q bs s price quantity 0 64 Q₁ fillsS beforeS bs') :
    fillsE.map unowned = fillsS.map unowned ∧ Alike be' bs' := by
  have outcomes := matchOrder_alike (alike.looked_masked s) price quantity cid 0 64
  rw [matchOrder_look wanted (by decide), matchOrder_look wanted (by decide), returnsE,
    returnsS] at outcomes
  obtain ⟨fills, books⟩ := Prod.mk.inj (Option.some.inj outcomes)
  obtain ⟨pool, ids, -, contra⟩ := masked_eq_iff.mp books
  refine ⟨fills, pool, ids, fun t => ?_⟩
  rcases Side.eq_or_eq_contra s t with rfl | rfl
  · rw [matchedE.own_levels, matchedS.own_levels]
    exact alike.abreast t
  · rw [contra]
    exact ⟨rfl, Or.inl rfl⟩

theorem matchOrder_none {b : OrderBook} {price quantity : Int} {cid : Nat}
    (none : ((b.levels s.contra).findBest s.contra).1 = nullIndex) (wanted : 0 < quantity) :
    b.matchOrder s price quantity cid 64 = some ([], look b s.contra) := by
  have first : matchRound s price cid 64 ⟨b, [], quantity⟩ =
      some (.inr ⟨look b s.contra, [], quantity⟩) := by
    have goes : 0 < quantity ∧ ([] : List MatchResult).length < 64 := ⟨wanted, by decide⟩
    unfold matchRound
    rw [if_pos goes]
    simp only [none, true_or, if_true]
    rfl
  rw [OrderBook.matchOrder, matchFuel, loop, first]
  simp only [Option.bind_eq_bind, Option.bind_some, Option.pure_def, List.length_nil, Nat.add_zero]

theorem Alike.look (alike : Alike be bs) (c : Side) : Alike (look be c) (look bs c) := by
  refine ⟨by rw [look_pool, look_pool, alike.pool], ?_, fun t => ?_⟩
  · rw [look_nextExchangeId, look_nextExchangeId, alike.ids]
  · rcases Side.eq_or_eq_contra c t with rfl | rfl
    · rw [look_levels, look_levels, ← findBest_snd, ← findBest_snd, (alike.abreast t).findBest]
      exact ⟨rfl, Or.inl rfl⟩
    · rw [look_levels_contra, look_levels_contra]
      exact alike.abreast c.contra

theorem Alike.settled (alike : Alike be bs)
    (steady : ∀ s, (bs.levels s).bestIdx = nullIndex ∨
      (bs.levels s).active (bs.levels s).bestIdx = true ∧
        0 < (bs.levels s).totalQty (bs.levels s).bestIdx) (fills : List MatchResult) :
    Alike (settledBook fills be) bs := by
  rw [settledBook]
  split_ifs
  · exact alike
  · refine ⟨?_, ?_, fun t => ?_⟩
    · rw [refresh_pool, alike.pool]
    · rw [refresh_nextExchangeId, alike.ids]
    · rw [refresh_levels]
      exact (alike.abreast t).looked (steady t)

def Confirms (b : OrderBook) (side : Side) (price : Int) : Prop :=
  (b.levels side).bestIdx ≠ nullIndex ∨ ∀ j, Visible (b.levels side) j →
    better side price ((b.levels side).prices j) ∨ (b.levels side).priceMap.find price = some j

theorem findOrCreate_found {L : PriceLevelPool} {price : Int} {i j : Nat} {L' : PriceLevelPool}
    (lookup : L.findOrCreate price = some (i, L')) (found : L.priceMap.find price = some j)
    (real : j ≠ nullIndex) (active : L.active j = true) : i = j := by
  have hit : j ≠ nullIndex ∧ L.active j = true := ⟨real, active⟩
  simp only [PriceLevelPool.findOrCreate, found, Option.bind_eq_bind, Option.bind_some,
    if_pos hit, Option.pure_def, Option.some.injEq, Prod.mk.injEq] at lookup
  exact lookup.1.symm

theorem updateBest_takes {L : PriceLevelPool} {i : Nat}
    (takes : L.bestIdx = nullIndex ∨ better s (L.prices i) (L.prices L.bestIdx) ∨ i = L.bestIdx) :
    (L.updateBest s i).bestIdx = i := by
  rw [PriceLevelPool.updateBest]
  split_ifs with new
  · rfl
  · obtain ⟨real, behind⟩ := not_or.mp new
    exact ((takes.resolve_left real).resolve_left behind).symm

theorem Abreast.joined {M M' L L' R R' : PriceLevelPool} {i : Nat} {price : Int}
    (abreast : Abreast s M M') (joined : Joined s i L R) (joined' : Joined s i L' R')
    (levels : uncached R = uncached R') (cache : L.bestIdx = M.bestIdx)
    (cache' : L'.bestIdx = M'.bestIdx) (at_price : L.prices i = price)
    (old : ∀ j, Visible M' j → L.prices j = M'.prices j)
    (confirms : M'.bestIdx ≠ nullIndex ∨
      ∀ j, Visible M' j → better s price (M'.prices j) ∨ i = j) : Abreast s R R' := by
  have prices : L.prices = L'.prices := by
    rw [← joined.prices, ← joined'.prices]
    exact (congrArg PriceLevelPool.prices levels :)
  refine ⟨levels, Or.inl ?_⟩
  rw [joined.bestIdx, joined'.bestIdx]
  rcases abreast.cache with same | ⟨empty, scanned⟩
  · rw [PriceLevelPool.updateBest, PriceLevelPool.updateBest, prices, cache, cache', same]
    split_ifs
    · rfl
    · rw [cache, cache', same]
  · rw [updateBest_takes (Or.inl (cache'.trans empty))]
    apply updateBest_takes
    rw [cache, scanned, at_price]
    rcases rebuildBest_spec s M' with ⟨none, -⟩ | ⟨visible, -⟩
    · exact Or.inl none
    · rw [old _ visible]
      exact Or.inr (confirms.resolve_left (fun h => h empty) _ visible)

section Resting

variable {cid ts tsc r : Nat} {client : UInt32} {price quantity : Int}

theorem added_levels (rep : Rep bs Q)
    (added : Added bs cid client s price quantity ts r bs') :
    bs'.levels s.contra = bs.levels s.contra ∧ (r = nullIndex → bs'.levels s = bs.levels s) := by
  cases added with
  | exhausted => exact ⟨rfl, fun _ => rfl⟩
  | unleveled => exact ⟨by cases s <;> rfl, fun _ => by cases s <;> rfl⟩
  | rests x i L top => exact ⟨rested_contra_eq i L, fun none => absurd none (rep.top_lt top).ne⟩

theorem Alike.added (alike : Alike be bs) (repE : Rep be Qe) (rep : Rep bs Q)
    (confirms : Confirms bs s price) {r' : Nat}
    (returnsE : be.addOrder cid client s price quantity ts = some (r, be'))
    (addedE : Added be cid client s price quantity ts r be')
    (returnsS : bs.addOrder 0 client s price quantity tsc = some (r', bs'))
    (addedS : Added bs 0 client s price quantity tsc r' bs') : Alike be' bs' := by
  have replaced : masked s (be.withLevels s.contra (bs.levels s.contra)) = masked s bs := by
    refine masked_eq_iff.mpr ⟨?_, ?_, ?_, ?_⟩
    · rw [OrderBook.pool_withLevels, alike.pool]
    · rw [OrderBook.nextExchangeId_withLevels, alike.ids]
    · rw [OrderBook.levels_withLevels_contra]
      exact (alike.abreast s).levels
    · rw [OrderBook.levels_withLevels]
  have answers : ((be.withLevels s.contra (bs.levels s.contra)).addOrder cid client s price quantity
      ts).map (maskedAnswer s) = _ := masked_addOrder cid client price quantity ts
  rw [replaced, ← masked_addOrder 0 client price quantity tsc, addOrder_withLevels_contra, returnsE,
    returnsS] at answers
  obtain ⟨index, books⟩ := Prod.mk.inj (Option.some.inj answers)
  obtain ⟨pool, ids, own, -⟩ := masked_eq_iff.mp books
  simp only [OrderBook.pool_withLevels, OrderBook.nextExchangeId_withLevels,
    OrderBook.levels_withLevels_contra] at pool ids own index
  subst index
  obtain ⟨contraE, keptE⟩ := added_levels repE addedE
  obtain ⟨contraS, keptS⟩ := added_levels rep addedS
  refine ⟨pool, ids, fun t => ?_⟩
  rcases Side.eq_or_eq_contra s t with rfl | rfl
  swap
  · rw [contraE, contraS]
    exact alike.abreast s.contra
  by_cases none : r = nullIndex
  · rw [keptE none, keptS none]
    exact alike.abreast t
  cases addedE with
  | exhausted => exact absurd rfl none
  | unleveled => exact absurd rfl none
  | rests x i L topE locatedE real lookupE =>
    cases addedS with
    | exhausted => exact absurd rfl none
    | unleveled => exact absurd rfl none
    | rests x j L' topS locatedS real' lookupS =>
      -- The lookups do not see the caches, so both orders join the same level.
      have lookups := uncached_findOrCreate (be.levels t) price
      rw [(alike.abreast t).levels, uncached_findOrCreate, lookupE, lookupS] at lookups
      obtain ⟨same, -⟩ := Prod.mk.inj (Option.some.inj lookups)
      simp only at same
      subst same
      refine (alike.abreast t).joined (rested_joined repE topE locatedE real)
        (rested_joined rep topS locatedS real') own (located_bestIdx locatedE)
        (located_bestIdx locatedS) (located_price locatedE real) ?_ ?_
      · intro k visible
        have active : (be.levels t).active = (bs.levels t).active :=
          (congrArg PriceLevelPool.active (alike.abreast t).levels :)
        have prices : (be.levels t).prices = (bs.levels t).prices :=
          (congrArg PriceLevelPool.prices (alike.abreast t).levels :)
        have listed := (repE.active t k).mp (by rw [active]; exact visible.1.2)
        rw [(located_listed locatedE repE listed).1, prices]
      · refine confirms.imp_right (fun covers k visible => (covers k visible).imp_right ?_)
        intro found
        exact findOrCreate_found lookupS found ((rep.mapped t).lt_nullIndex visible.1.1).ne
          visible.1.2

end Resting

end Books

section Feeds

/-- A message to both: an order brings the times the engine and the shadow stamp it with. -/
inductive Feed
  | registerContestant (initialCash : Int)
  | orderEntry (contestantId : Nat) (order : OrderEntry) (timestampNs tsc : Nat)
  deriving DecidableEq, Repr

variable {G : Type}

structure Pair (G : Type) where
  engine : MatchEngine G
  shadow : ShadowOrderbook
  fills : List (Lot UInt32 Int)

def aggressorLot (order : OrderEntry) (f : MatchResult) : Lot UInt32 Int :=
  ⟨order.clientOrderId, f.fillPrice, f.fillQty⟩

def Feed.apply (p : Pair G) : Feed → Option (Pair G)
  | .registerContestant cash => some { p with engine := (p.engine.registerContestant cash).2 }
  | .orderEntry cid order ts tsc => do
      let engine ← p.engine.processOrder cid order ts
      let shadow ← p.shadow.processOrder order tsc
      return ⟨engine, shadow, p.fills ++ (fillsOf p.engine cid order).map (aggressorLot order)⟩

structure Comparable (p : Pair G) (cid : Nat) (order : OrderEntry) : Prop where
  registered : cid < p.engine.contestants.count
  accepted : p.engine.orderRejection cid order = none
  market : order.orderType = .market → order.price = 0

structure Coherent (s : ShadowOrderbook) (order : OrderEntry) : Prop where
  market : order.orderType = .market → order.side = .buy →
    ∀ i < (s.book.levels .sell).count, s.book.queue .sell i = []
  room : s.expected.length + min 64 order.quantity.toNat ≤ shadowMaxFills
  fits : order.orderType = .limit → Fits s.book order.side order.price order.quantity
  confirms : order.orderType = .limit → Confirms s.book order.side order.price

def Compared (p : Pair G) : Feed → Prop
  | .registerContestant _ => True
  | .orderEntry cid order _ _ => Comparable p cid order

def Admissible (p : Pair G) (feed : Feed) : Prop :=
  Compared p feed ∧ match feed with
    | .registerContestant _ => True
    | .orderEntry _ order _ _ => Coherent p.shadow order

section Orders

variable {p : Pair G} {cid ts tsc : Nat} {order : OrderEntry} {Qe Q Qe₁ Q₁ : Queues}
  {fillsE fillsS : List MatchResult} {be be₁ bs bs₁ beforeE beforeS : OrderBook}

theorem Alike.orderMatched (alike : Alike be bs) (rep : Rep bs Q) (wanted : 0 < order.quantity)
    (priced : order.orderType = .market → order.price = 0)
    (nothing : order.orderType = .market → order.side = .buy →
      ∀ i < (bs.levels .sell).count, bs.queue .sell i = [])
    (returnsE : be.matchOrder order.side order.price order.quantity cid 64 = some (fillsE, be₁))
    (matchedE : Matched Qe be order.side order.price order.quantity cid 64 Qe₁ fillsE beforeE be₁)
    (returnsS : bs.matchOrder order.side (ShadowOrderbook.matchPrice order) order.quantity 0 64 =
      some (fillsS, bs₁))
    (matchedS : Matched Q bs order.side (ShadowOrderbook.matchPrice order) order.quantity 0 64 Q₁
      fillsS beforeS bs₁) :
    fillsE.map unowned = fillsS.map unowned ∧ Alike be₁ bs₁ := by
  by_cases bought : order.orderType = .market ∧ order.side = .buy
  · obtain ⟨market, buy⟩ := bought
    have none : ((bs.levels order.side.contra).findBest order.side.contra).1 = nullIndex := by
      rw [buy]
      refine (findBest_live .sell (bs.levels .sell)).resolve_right (fun live => ?_)
      have listed := (rep.active .sell _).mp live.1
      have empty := nothing market buy _ (rep.bound .sell _ listed)
      rw [rep.queue_eq] at empty
      exact listed empty
    have noneE := none
    rw [← (alike.abreast order.side.contra).findBest] at noneE
    rw [matchOrder_none noneE wanted] at returnsE
    rw [matchOrder_none none wanted] at returnsS
    obtain ⟨rfl, rfl⟩ := Prod.mk.inj (Option.some.inj returnsE)
    obtain ⟨rfl, rfl⟩ := Prod.mk.inj (Option.some.inj returnsS)
    exact ⟨rfl, alike.look order.side.contra⟩
  · have price : ShadowOrderbook.matchPrice order = order.price := by
      rw [ShadowOrderbook.matchPrice]
      split_ifs with market
      · cases side : order.side with
        | buy => exact absurd ⟨market, side⟩ bought
        | sell => exact (priced market).symm
      · rfl
    rw [price] at returnsS matchedS
    exact alike.matchOrder wanted returnsE matchedE returnsS matchedS

theorem lots_of_unowned (order : OrderEntry) (same : fillsE.map unowned = fillsS.map unowned) :
    fillsE.map (aggressorLot order) =
        (fillsS.map (ShadowOrderbook.expectedFill order)).map entryLot ∧
      filledQty fillsE = (fillsS.map MatchResult.fillQty).sum := by
  have through : ∀ fills : List MatchResult, (fills.map unowned).map (aggressorLot order) =
      fills.map (aggressorLot order) := fun fills => List.map_map
  have sums : ∀ fills : List MatchResult, (fills.map unowned).map MatchResult.fillQty =
      fills.map MatchResult.fillQty := fun fills => List.map_map
  constructor
  · rw [← through, same, through, List.map_map]
    rfl
  · rw [filledQty, ← sums, same, sums]

theorem fits_matched {b b₁ before : OrderBook} {side : Side} {price limit quantity left : Int}
    {fills : List MatchResult} (fits : Fits b side price quantity) (rep : Rep b Q)
    (matched : Matched Q b side limit quantity cid 64 Q₁ fills before b₁) (less : left ≤ quantity) :
    Fits b₁ side price left := by
  have small := fits.1
  refine ⟨by omega, fun i active at_price => ?_⟩
  rw [matched.own_levels] at active at_price
  have room := fits.2 i active at_price
  have lower : levelQty b₁ side i ≤ levelQty b side i := by
    rw [levelQty, levelQty, (matched.drained.rep rep).queue_eq, rep.queue_eq, matched.ownQueues]
    exact List.sum_le_sum (fun x _ => matched.drained.lower x)
  omega

structure Kept (b : OrderBook) (Q : Queues) : Prop where
  rep : Rep b Q
  tame : Tame b Q
  pointed : Pointed b Q

theorem Kept.drains {b' : OrderBook} {Q' : Queues} (kept : Kept bs Q) (drains : Drains Q bs Q' b') :
    Kept b' Q' :=
  ⟨drains.rep kept.rep, kept.tame.drains kept.rep drains, kept.pointed.drains kept.rep drains⟩

theorem Kept.added {b' : OrderBook} {client : UInt32} {side : Side} {price quantity : Int} {r : Nat}
    (kept : Kept bs Q) (positive : 0 < quantity) (fits : Fits bs side price quantity)
    (added : Added bs cid client side price quantity ts r b') : ∃ Q', Kept b' Q' := by
  cases added with
  | exhausted => exact ⟨Q, kept⟩
  | unleveled x top =>
    have unlisted := (kept.rep.top_free top).2
    refine ⟨Q, kept.rep.unleveled top, kept.tame.same ?_, ?_⟩
    · intro t j y hy
      have other : y ≠ x := fun e => unlisted t j (e ▸ hy)
      simp [restingQty, stamped, OrderPool.free, other]
    · intro t
      have levels : ((stamped bs cid client side price quantity ts x).onPool
          (fun P => P.free x)).levels t = bs.levels t := by cases t <;> rfl
      rw [levels]
      exact kept.pointed t
  | rests x i L top located real =>
    exact ⟨_, kept.rep.rests positive top located real,
      kept.tame.rests kept.rep fits top located real,
      kept.pointed.rests kept.rep top located real⟩

structure InStep (p : Pair G) : Prop where
  alike : Alike p.engine.book p.shadow.book
  engine : ∃ Q, Rep p.engine.book Q
  shadow : ∃ Q, Kept p.shadow.book Q
  recorded : p.shadow.expected.map entryLot = p.fills

theorem inStep_init (cfg : MatchEngineConfig) (gen : G) :
    InStep ⟨MatchEngine.init cfg gen, ShadowOrderbook.init, []⟩ where
  alike := alike_init
  engine := ⟨_, rep_init⟩
  shadow := ⟨_, rep_init, fun _ _ => by simp, fun s => Or.inl (by cases s <;> rfl)⟩
  recorded := rfl

theorem InStep.orderEntry (inStep : InStep p) (comparable : Comparable p cid order)
    (coherent : Coherent p.shadow order) :
    ∃ p', (Feed.orderEntry cid order ts tsc).apply p = some p' ∧ InStep p' := by
  obtain ⟨Qe, repE⟩ := inStep.engine
  obtain ⟨Q, kept⟩ := inStep.shadow
  have wanted := (size_of_accepted comparable.accepted).1
  obtain ⟨fillsE, Qe₁, beforeE, be₁, Qe', e', executes, executed, -, -⟩ :=
    executeOrder_executed repE cid order ts
  obtain ⟨Q₁, fillsS, beforeS, bs₁, s', processes, processed⟩ :=
    processOrder_processed kept.rep order tsc
  obtain ⟨same, alike₁⟩ := inStep.alike.orderMatched kept.rep wanted comparable.market
    coherent.market executed.returns executed.matched processed.returns processed.matched
  obtain ⟨lots, filled⟩ := lots_of_unowned order same
  have kept₁ := kept.drains processed.matched.drained
  have alike₂ := alike₁.settled (kept₁.pointed.steady kept₁.rep kept₁.tame) fillsE
  have rep₂ : Rep (settledBook fillsE be₁) Qe₁ :=
    (settledBook_drains fillsE be₁).rep (executed.matched.drained.rep repE)
  have made : fillsOf p.engine cid order = fillsE := by
    rw [fillsOf, if_pos ⟨comparable.registered, comparable.accepted⟩, executed.returns]
    rfl
  have takes : p.engine.processOrder cid order ts = some e' := by
    rw [MatchEngine.processOrder, if_neg (not_le.mpr comparable.registered), comparable.accepted]
    exact executes
  refine ⟨⟨e', s', p.fills ++ fillsE.map (aggressorLot order)⟩, ?_, ?_⟩
  · simp only [Feed.apply, takes, processes, made]
    rfl
  have books : Alike e'.book s'.book ∧ ∃ Q', Kept s'.book Q' := by
    obtain ⟨fills, b₁, again, rests, ended⟩ := executeOrder_book executes
    obtain ⟨rfl, rfl⟩ := Prod.mk.inj (Option.some.inj (executed.returns.symm.trans again))
    rw [filled] at rests ended
    by_cases left : order.quantity - (fillsS.map MatchResult.fillQty).sum > 0 ∧
        order.orderType = .limit
    · obtain ⟨r, addsE⟩ := rests left
      obtain ⟨r₂, b₂, adds₂, addedE⟩ := addOrder_added cid order.clientOrderId order.side
        order.price (order.quantity - (fillsS.map MatchResult.fillQty).sum) ts rep₂
      obtain ⟨rfl, rfl⟩ := Prod.mk.inj (Option.some.inj (addsE.symm.trans adds₂))
      obtain ⟨r', addsS, addedS⟩ := processed.rests left
      have nonneg := processed.matched.filled_nonneg
      have confirms : Confirms bs₁ order.side order.price := by
        rw [Confirms, processed.matched.own_levels]
        exact coherent.confirms left.2
      have fits : Fits bs₁ order.side order.price
          (order.quantity - (fillsS.map MatchResult.fillQty).sum) :=
        fits_matched (coherent.fits left.2) kept.rep processed.matched (by omega)
      exact ⟨alike₂.added rep₂ kept₁.rep confirms addsE addedE addsS addedS,
        kept₁.added left.1 fits addedS⟩
    · rw [ended left, processed.ended left]
      exact ⟨alike₂, Q₁, kept₁⟩
  refine ⟨books.1, ⟨Qe', executed.rep repE⟩, books.2, ?_⟩
  -- The array has room for all of the fills.
  have few : (fillsS.map (ShadowOrderbook.expectedFill order)).length ≤
      shadowMaxFills - p.shadow.expected.length := by
    have room := coherent.room
    have bound := processed.matched.few
    have count := length_le_filledQty processed.matched.positive
    have sum := processed.matched.filled
    rw [filledQty] at count
    rw [List.length_map]
    omega
  show s'.expected.map entryLot = _
  rw [processed.expected, List.take_of_length_le few, List.map_append, inStep.recorded, lots]

end Orders

/-- Fed the same admissible messages, engine and shadow report the same fills. -/
theorem admissible_feeds_agree (cfg : MatchEngineConfig) (gen : G) (feeds : List Feed)
    (admissible : Obeys Feed.apply Admissible
      ⟨MatchEngine.init cfg gen, ShadowOrderbook.init, []⟩ feeds) :
    ∃ p, run Feed.apply ⟨MatchEngine.init cfg gen, ShadowOrderbook.init, []⟩ feeds = some p ∧
      p.shadow.expected.map entryLot = p.fills := by
  have keep : ∀ (p : Pair G) feed, InStep p → Admissible p feed →
      ∃ p', feed.apply p = some p' ∧ InStep p' := by
    intro p feed inStep legal
    cases feed with
    | registerContestant cash =>
      exact ⟨_, rfl, inStep.alike, inStep.engine, inStep.shadow, inStep.recorded⟩
    | orderEntry cid order ts tsc => exact inStep.orderEntry legal.1 legal.2
  obtain ⟨p, returns, inStep⟩ := run_returns Feed.apply Admissible InStep keep feeds _
    (inStep_init cfg gen) admissible
  exact ⟨p, returns, inStep.recorded⟩

def comparableTest (p : Pair G) : Feed → Bool
  | .registerContestant _ => true
  | .orderEntry cid order _ _ => decide (cid < p.engine.contestants.count ∧
      p.engine.orderRejection cid order = none ∧ (order.orderType = .market → order.price = 0))

theorem compared_of_test (p : Pair G) (feed : Feed) (passed : comparableTest p feed = true) :
    Compared p feed := by
  cases feed with
  | registerContestant => trivial
  | orderEntry cid order ts tsc =>
    obtain ⟨registered, accepted, market⟩ := of_decide_eq_true passed
    exact ⟨registered, accepted, market⟩

def admissibleTest (p : Pair G) (feed : Feed) : Bool :=
  comparableTest p feed && match feed with
    | .registerContestant _ => true
    | .orderEntry _ order _ _ =>
      decide (order.orderType = .market → order.side = .buy →
        ∀ i < (p.shadow.book.levels .sell).count, p.shadow.book.queue .sell i = []) &&
      decide (p.shadow.expected.length + min 64 order.quantity.toNat ≤ shadowMaxFills) &&
      decide (order.quantity < 2147483648 ∧ ∀ i < (p.shadow.book.levels order.side).count,
        levelQty p.shadow.book order.side i + order.quantity < 2147483648) &&
      decide (order.orderType = .limit → (p.shadow.book.levels order.side).bestIdx ≠ nullIndex ∨
        (p.shadow.book.levels order.side).count = 0)

theorem admissible_of_test (p : Pair G) (feed : Feed) (passed : admissibleTest p feed = true) :
    Admissible p feed := by
  obtain ⟨compared, rest⟩ := Bool.and_eq_true_iff.mp passed
  refine ⟨compared_of_test p feed compared, ?_⟩
  cases feed with
  | registerContestant => trivial
  | orderEntry cid order ts tsc =>
    simp only [Bool.and_eq_true, decide_eq_true_eq] at rest
    obtain ⟨⟨⟨market, room⟩, small, levels⟩, cache⟩ := rest
    refine ⟨market, room, fun _ => ⟨small, fun i active _ => levels i active.1⟩, fun limit => ?_⟩
    refine (cache limit).imp_right (fun none j visible => ?_)
    have below := visible.1.1
    omega

theorem admissible_feeds_agree_three_trades :
    ∃ p, run Feed.apply ⟨MatchEngine.init .default (), ShadowOrderbook.init, []⟩
        [.registerContestant 0, .registerContestant 0,
          .orderEntry 1 ⟨.buy, .market, 9, 0, 1⟩ 0 0,
          .orderEntry 0 ⟨.sell, .limit, 1, 100, 5⟩ 0 0, .orderEntry 1 ⟨.buy, .limit, 1, 101, 7⟩ 0 0,
          .orderEntry 0 ⟨.sell, .market, 2, 0, 1⟩ 0 0, .orderEntry 0 ⟨.sell, .ioc, 3, 101, 9⟩ 0 0] =
            some p ∧
      p.shadow.expected.map entryLot = p.fills :=
  admissible_feeds_agree .default () _
    (obeys_of_test admissible_of_test _ _ (by decide +kernel))

def marketBuy : List Feed :=
  [.registerContestant 0, .registerContestant 0, .orderEntry 0 ⟨.sell, .limit, 1, 100, 1⟩ 0 0,
    .orderEntry 1 ⟨.buy, .market, 1, 0, 1⟩ 0 0]

/-- The engine matches the market order at its price 0 and makes no fill; the shadow book expects one. -/
theorem market_buy_fills_shadow_only :
    Obeys Feed.apply Compared ⟨MatchEngine.init .default (), ShadowOrderbook.init, []⟩ marketBuy ∧
      (run Feed.apply ⟨MatchEngine.init .default (), ShadowOrderbook.init, []⟩ marketBuy).map
        (fun p => (p.fills, p.shadow.expected.map entryLot)) = some ([], [⟨1, 100, 1⟩]) :=
  ⟨obeys_of_test compared_of_test _ _ (by decide +kernel), by decide +kernel⟩

end Feeds

end HftGrading.Exchange.Shadow.LockStep
