/- module: HftGrading/Exchange/Shadow/ShadowReference
   source: exchange/include/exchange/shadow_orderbook.hpp
   digest: The shadow book against the textbook book of price-time priority. -/

import HftGrading.Exchange.Shadow.ShadowState
import HftGrading.Exchange.Book.OwnedWalk

set_option autoImplicit false
set_option relaxedAutoImplicit false

namespace HftGrading.Exchange.Shadow.ShadowReference

open Function (update)
open Lib.PartialExecution Lib.PriceTimePriority WireProtocol Book.PriceMap Book.LimitBook
open Book.LimitBook.OrderBook (MatchResult beyondLimit)
open Book.LevelSearch Book.LevelQueue Book.LevelFilling Book.MatchRounds Book.BookRep Book.BookRuns
open Book.BestCache Book.PriorityWalk Book.PriorityResting Book.PriorityMatching Book.OwnedWalk
open ShadowState

/-- A message of the stream; an order brings the time stamp its remainder would get. -/
inductive StreamMsg
  | orderEntry (order : OrderEntry) (timestampNs : Nat)
  | cancelRequest (cancel : CancelRequest)
  deriving DecidableEq, Repr

def StreamMsg.apply (s : ShadowOrderbook) : StreamMsg → Option ShadowOrderbook
  | .orderEntry order timestampNs => s.processOrder order timestampNs
  | .cancelRequest cancel => some (s.processCancel cancel)

/-- The textbook book: resting lots per side under their client order ids, best
price first and oldest first, and the fills so far under the aggressor's id. -/
structure Textbook where
  resting : Side → List (Lot UInt32 Int)
  fills : List (Lot UInt32 Int)

namespace Textbook

def init : Textbook := ⟨fun _ => [], []⟩

def Accepts (order : OrderEntry) (p : Int) : Prop :=
  order.orderType = .market ∨ ¬ beyondLimit order.side order.price p

instance (order : OrderEntry) : DecidablePred (Accepts order) :=
  fun p => inferInstanceAs (Decidable (_ ∨ ¬ beyondLimit order.side order.price p))

def swept (t : Textbook) (order : OrderEntry) : Swept UInt32 Int :=
  sweep (Accepts order) (t.resting order.side.contra).length order.quantity
    (t.resting order.side.contra)

def order (t : Textbook) (order : OrderEntry) : Textbook where
  resting :=
    let after := update t.resting order.side.contra (t.swept order).rest
    if 0 < (t.swept order).left ∧ order.orderType = .limit then
      update after order.side (arrive (fun l => rank order.side l.price)
        ⟨order.clientOrderId, order.price, (t.swept order).left⟩ (after order.side))
    else after
  fills := t.fills ++ (t.swept order).fills.map (Lot.rename (fun _ => order.clientOrderId))

def cancel (t : Textbook) (cancel : CancelRequest) : Textbook :=
  { t with resting := fun s => (t.resting s).filter (fun l => l.ref ≠ cancel.clientOrderId) }

def apply (t : Textbook) : StreamMsg → Textbook
  | .orderEntry order _ => t.order order
  | .cancelRequest cancel => t.cancel cancel

def after (msgs : List StreamMsg) : Textbook := msgs.foldl apply init

theorem after_append (msgs : List StreamMsg) (msg : StreamMsg) :
    after (msgs ++ [msg]) = (after msgs).apply msg := by
  rw [after, List.foldl_append]
  rfl

theorem fills_mono (msgs more : List StreamMsg) :
    (after msgs).fills.length ≤ (after (msgs ++ more)).fills.length := by
  induction more using List.reverseRecOn with
  | nil => rw [List.append_nil]
  | append_singleton more msg ih =>
    rw [← List.append_assoc, after_append]
    refine ih.trans ?_
    cases msg with
    | orderEntry o ts =>
      rw [apply, order, List.length_append]
      exact Nat.le_add_right _ _
    | cancelRequest c => exact le_rfl

end Textbook

structure Admits (b : OrderBook) (side : Side) (price : Int) : Prop where
  slot : b.pool.freeTop ≠ 0
  level : (b.levels side).count < (b.levels side).capacity ∨
    ∃ i, (b.levels side).active i = true ∧ (b.levels side).prices i = price
  priced : better side price (scanStart side)
  unobscured : Unobscured b side price
  spread : Spread (insert price (activePrices (b.levels side)))

def onOffer (b : OrderBook) (order : OrderEntry) : List (Lot Nat Int) :=
  (restingLots b order.side.contra).takeWhile (fun l => Textbook.Accepts order l.price)

/-- The 64 fills of one match suffice, a limit order that will rest is admitted,
and a cancel names no resting order. -/
def Manageable (s : ShadowOrderbook) : StreamMsg → Prop
  | .orderEntry order _ =>
    Roomy (Textbook.Accepts order) 64 order.quantity (restingLots s.book order.side.contra) ∧
      (order.orderType = .limit →
        ((onOffer s.book order).map Lot.qty).sum < order.quantity →
        Admits s.book order.side order.price)
  | .cancelRequest cancel => ∀ x ∈ listed s.book,
      (s.book.pool.orders x).clientOrderId ≠ cancel.clientOrderId

section Mirror

def namedLots (b : OrderBook) (s : Side) : List (Lot UInt32 Int) :=
  (restingLots b s).map (Lot.rename (fun x => (b.pool.orders x).clientOrderId))

def entryLot (ef : ExpectedFill) : Lot UInt32 Int := ⟨ef.orderId, ef.fillPrice, ef.fillQty⟩

variable {b : OrderBook} {Q : Queues} {order : OrderEntry}

theorem namedLots_eq (b : OrderBook) (s : Side) :
    namedLots b s = (ownedLots b s).map (Lot.rename Prod.snd) := by
  rw [namedLots, ownedLots, List.map_map]
  rfl

theorem reference_eq_sweep (clear : Clear b Q) (bids : ∀ l ∈ restingLots b .buy, 0 < l.price) :
    reference b order.side (ShadowOrderbook.matchPrice order) order.quantity 64 =
      sweep (Textbook.Accepts order) 64 order.quantity (restingLots b order.side.contra) := by
  apply sweep_congr
  intro l member
  have priced := (lot_listed clear member).2.2
  unfold Textbook.Accepts ShadowOrderbook.matchPrice
  by_cases market : order.orderType = .market
  · rw [if_pos market]
    refine iff_of_true ?_ (Or.inl market)
    cases side : order.side with
    | buy =>
      rw [side] at priced
      exact not_lt.mpr (le_of_lt priced)
    | sell =>
      rw [side] at member
      exact not_lt.mpr (bids l member).le
  · rw [if_neg market, or_iff_right market]

theorem swept_eq {t : Textbook} (named : namedLots b order.side.contra = t.resting order.side.contra)
    (roomy : Roomy (Textbook.Accepts order) 64 order.quantity (restingLots b order.side.contra))
    {r : Swept Nat Int}
    (swept : sweep (Textbook.Accepts order) 64 order.quantity (restingLots b order.side.contra) = r) :
    t.swept order = ⟨r.fills.map (Lot.rename (fun x => (b.pool.orders x).clientOrderId)), r.left,
      r.rest.map (Lot.rename (fun x => (b.pool.orders x).clientOrderId))⟩ := by
  rw [Textbook.swept, ← named, namedLots, sweep_named _ _ roomy, swept]

theorem crossed_of_processed {s s' : ShadowOrderbook} {ts : Nat} {Q₁ : Queues}
    {fills : List MatchResult} {before b₁ : OrderBook} (clear : Clear s.book Q)
    (bids : ∀ l ∈ restingLots s.book .buy, 0 < l.price)
    (processed : Processed Q s order ts Q₁ fills before b₁ s') :
    Crossed s.book order.side 0 (sweep (Textbook.Accepts order) 64 order.quantity
      (restingLots s.book order.side.contra)) Q₁ fills b₁ := by
  rw [← reference_eq_sweep clear bids]
  exact crossed_of_drains clear processed.matched.drained processed.returns

theorem fits_of_walk (clear : Clear b Q) {side : Side} {price quantity : Int}
    (sum : ((restingLots b side).map Lot.qty).sum + quantity < 2147483648) :
    Fits b side price quantity := by
  have walkable := walkable_of_rep clear.rep (clear.indexed side)
  have nonneg : ∀ q ∈ (restingLots b side).map Lot.qty, 0 ≤ q := by
    intro q hq
    obtain ⟨l, member, rfl⟩ := List.mem_map.mp hq
    exact (lot_listed clear member).2.1.le
  have total := List.sum_nonneg nonneg
  refine ⟨by omega, fun i active _ => ?_⟩
  have level : levelQty b side i = ((levelLots b side i).map Lot.qty).sum := by
    rw [levelQty, levelLots, List.map_map]
    rfl
  have part : ((levelLots b side i).map Lot.qty).Sublist ((restingLots b side).map Lot.qty) := by
    rw [← walkable.filter_restingLots active.2]
    exact List.filter_sublist.map _
  have le := part.sum_le_sum nonneg
  omega

theorem rests_named (clear : Clear b Q) {side : Side} {price quantity : Int} {client : UInt32}
    {ts x i : Nat} {L : PriceLevelPool} (welcome : Welcome b side price quantity)
    (top : ∃ rest, freeSlots b = rest ++ [x]) (located : Located (b.levels side) price i L)
    (real : i ≠ nullIndex) :
    namedLots (rested b 0 client side price quantity ts x i L) =
      update (namedLots b) side (arrive (fun l => rank side l.price) ⟨client, price, quantity⟩
        (namedLots b side)) := by
  have owned : ownedLots (rested b 0 client side price quantity ts x i L) = _ :=
    rests_owned clear welcome top located real
  have joins : arrive (fun l => rank side l.price) (Lot.rename Prod.snd ⟨(0, client), price, quantity⟩)
      ((ownedLots b side).map (Lot.rename Prod.snd)) = _ := arrive_map _ (fun _ => rfl) _ _
  funext t
  rw [namedLots_eq, owned]
  rcases Side.eq_or_eq_contra side t with rfl | rfl
  · rw [Function.update_self, Function.update_self, namedLots_eq]
    exact joins.symm
  · rw [Function.update_of_ne side.contra_ne, Function.update_of_ne side.contra_ne, namedLots_eq]

/-- A book whose walks are the textbook's; `total` bounds what rests on a side. -/
structure Mirrors (total : Int) (b : OrderBook) (resting : Side → List (Lot UInt32 Int)) : Prop where
  clear : ∃ Q, Clear b Q
  walks : namedLots b = resting
  bids : ∀ l ∈ restingLots b .buy, 0 < l.price
  sum : ∀ side, ((restingLots b side).map Lot.qty).sum ≤ total

variable {resting : Side → List (Lot UInt32 Int)} {total quantity : Int}

theorem Mirrors.mono {more : Int} (mirrors : Mirrors total b resting) (le : total ≤ more) :
    Mirrors more b resting :=
  ⟨mirrors.clear, mirrors.walks, mirrors.bids, fun side => (mirrors.sum side).trans le⟩

theorem mirrors_init : Mirrors 0 OrderBook.init Textbook.init.resting where
  clear := ⟨_, clear_init⟩
  walks := by
    funext side
    cases side <;> rfl
  bids := fun l member => by cases member
  sum := fun side => by cases side <;> exact le_rfl

theorem Mirrors.rests (mirrors : Mirrors total b resting) (clear : Clear b Q) {side : Side}
    {price : Int} {client : UInt32} {ts x i : Nat} {L : PriceLevelPool} (price_pos : 0 < price)
    (welcome : Welcome b side price quantity) (top : ∃ rest, freeSlots b = rest ++ [x])
    (located : Located (b.levels side) price i L) (real : i ≠ nullIndex) :
    Mirrors (total + quantity) (rested b 0 client side price quantity ts x i L)
      (update resting side (arrive (fun l => rank side l.price) ⟨client, price, quantity⟩
        (resting side))) := by
  have own : restingLots (rested b 0 client side price quantity ts x i L) side =
      arrive (depth side) ⟨x, price, quantity⟩ (restingLots b side) :=
    rests_lots clear.rep top located real welcome.positive (clear.indexed _) welcome.spread
  have contra : restingLots (rested b 0 client side price quantity ts x i L) side.contra =
      restingLots b side.contra :=
    rests_contra_lots clear.rep top located real welcome.positive
  refine ⟨⟨_, clear.rests welcome top located real⟩, ?_, ?_, ?_⟩
  · rw [rests_named clear welcome top located real, mirrors.walks]
  · rcases Side.eq_or_eq_contra side .buy with buy | buy
    · subst buy
      intro l member
      rw [own] at member
      rcases mem_arrive.mp member with rfl | member
      · exact price_pos
      · exact mirrors.bids l member
    · rw [← buy] at contra
      rw [contra]
      exact mirrors.bids
  · intro t
    have before := mirrors.sum t
    have positive := welcome.positive
    rcases Side.eq_or_eq_contra side t with rfl | rfl
    · rw [own, ((arrive_perm _ _).map Lot.qty).sum_eq, List.map_cons, List.sum_cons]
      show quantity + _ ≤ _
      omega
    · rw [contra]
      omega

section Crossing

variable {t : Textbook} {Q₁ : Queues} {fills : List MatchResult} {b₁ : OrderBook} {r : Swept Nat Int}
  (crossed : Crossed b order.side 0 r Q₁ fills b₁)
include crossed

theorem crossed_admitted {remaining : Int} {x ts : Nat} {b' : OrderBook}
    (admits : Admits b order.side order.price)
    (added : Added b₁ 0 order.clientOrderId order.side order.price remaining ts x b') :
    ∃ i L, (∃ rest, freeSlots b₁ = rest ++ [x]) ∧
      Located (b₁.levels order.side) order.price i L ∧ i ≠ nullIndex ∧
      b' = rested b₁ 0 order.clientOrderId order.side order.price remaining ts x i L := by
  cases added with
  | exhausted none_free =>
    have free := crossed.slots
    have slot := admits.slot
    omega
  | unleveled x top no_room missed =>
    rcases admits.level with room | ⟨i, active, at_price⟩
    · rw [crossed.levels] at no_room
      omega
    · rw [← crossed.levels] at active at_price
      exact absurd at_price ((crossed.clear.indexed order.side).not_missed missed active)
  | rests x i L top located real => exact ⟨i, L, top, located, real, rfl⟩

theorem crossed_welcome {remaining : Int} (admits : Admits b order.side order.price)
    (positive : 0 < remaining)
    (sum : ((restingLots b₁ order.side).map Lot.qty).sum + remaining < 2147483648) :
    Welcome b₁ order.side order.price remaining := by
  refine ⟨positive, fits_of_walk crossed.clear sum, admits.priced, ?_, ?_⟩
  · unfold Unobscured
    rw [crossed.levels]
    exact admits.unobscured
  · rw [crossed.levels]
    exact admits.spread

variable (mirrors : Mirrors total b t.resting)
  (roomy : Roomy (Textbook.Accepts order) 64 order.quantity (restingLots b order.side.contra))
  (swept : sweep (Textbook.Accepts order) 64 order.quantity (restingLots b order.side.contra) = r)
include mirrors roomy swept

theorem crossed_follows :
    Mirrors total b₁ (update t.resting order.side.contra (t.swept order).rest) := by
  have clients : (fun x => (b₁.pool.orders x).clientOrderId) =
      fun x => (b.pool.orders x).clientOrderId :=
    funext (fun x => clientOrderId_of_static (crossed.static x))
  refine ⟨⟨Q₁, crossed.clear⟩, ?_, ?_, fun side => ?_⟩
  · funext side
    rcases Side.eq_or_eq_contra order.side side with rfl | rfl
    · rw [Function.update_of_ne order.side.contra_ne.symm, ← mirrors.walks, namedLots, namedLots,
        crossed.own, clients]
    · rw [Function.update_self, swept_eq (congrFun mirrors.walks _) roomy swept, namedLots,
        crossed.rest, clients]
  · rcases Side.eq_or_eq_contra order.side .buy with buy | buy
    · rw [buy, crossed.own, ← buy]
      exact mirrors.bids
    · rw [buy, crossed.rest, ← swept]
      apply sweep_rest_price
      rw [← buy]
      exact mirrors.bids
  · rcases Side.eq_or_eq_contra order.side side with rfl | rfl
    · rw [crossed.own]
      exact mirrors.sum _
    · obtain ⟨Q, clear⟩ := mirrors.clear
      rw [crossed.rest, ← swept]
      refine (sweep_rest_sum _ _ _ _ ?_).trans (mirrors.sum _)
      intro l member
      exact (lot_listed clear member).2.1

theorem crossed_entries : (fills.map (ShadowOrderbook.expectedFill order)).map entryLot =
    (t.swept order).fills.map (Lot.rename (fun _ => order.clientOrderId)) := by
  rw [swept_eq (congrFun mirrors.walks _) roomy swept, crossed.fills, results, List.map_map,
    List.map_map, List.map_map]
  rfl

theorem crossed_left : (t.swept order).left = order.quantity - (fills.map MatchResult.fillQty).sum := by
  rw [swept_eq (congrFun mirrors.walks _) roomy swept]
  apply crossed.left
  rw [← swept]
  exact sweep_fills_sum _ _ _ _

end Crossing

variable {s : ShadowOrderbook} {t : Textbook} {ts : Nat}

theorem Mirrors.orderEntry (mirrors : Mirrors total s.book t.resting)
    (manageable : Manageable s (.orderEntry order ts)) (price_pos : 0 < order.price)
    (qty_pos : 0 < order.quantity) (small : total + order.quantity < 2147483648) :
    ∃ Q Q₁ fills before b₁ s', s.processOrder order ts = some s' ∧
      Processed Q s order ts Q₁ fills before b₁ s' ∧
      Mirrors (total + order.quantity) s'.book (t.order order).resting ∧
      (fills.map (ShadowOrderbook.expectedFill order)).map entryLot =
        (t.swept order).fills.map (Lot.rename (fun _ => order.clientOrderId)) := by
  obtain ⟨Q, clear⟩ := mirrors.clear
  obtain ⟨roomy, admitted⟩ := manageable
  obtain ⟨Q₁, fills, before, b₁, s', returns, processed⟩ := processOrder_processed clear.rep order ts
  have crossed := crossed_of_processed clear mirrors.bids processed
  generalize swept : sweep (Textbook.Accepts order) 64 order.quantity
    (restingLots s.book order.side.contra) = r at crossed
  have mirrors₁ := crossed_follows crossed mirrors roomy swept
  have left := crossed_left crossed mirrors roomy swept
  refine ⟨Q, Q₁, fills, before, b₁, s', returns, processed, ?_, crossed_entries crossed mirrors roomy swept⟩
  by_cases wanted : 0 < (t.swept order).left ∧ order.orderType = .limit
  · -- The remainder rests: nothing within its limit is left on the other side.
    obtain ⟨x, -, added⟩ := processed.rests (by rwa [← left])
    rw [← left] at added
    have unsated : 0 < r.left := by
      have same := swept_eq (congrFun mirrors.walks _) roomy swept
      rw [same] at wanted
      exact wanted.1
    have admits := admitted wanted.2 (sweep_left_pos _ _ _ _ roomy (by rwa [swept]))
    obtain ⟨i, L, top, located, real, book⟩ := crossed_admitted crossed admits added
    have filled := processed.matched.filled_nonneg
    have own := mirrors₁.sum order.side
    have welcome := crossed_welcome crossed admits wanted.1 (by omega)
    rw [book, Textbook.order]
    simp only [if_pos wanted]
    exact (mirrors₁.rests crossed.clear price_pos welcome top located real).mono (by omega)
  · rw [processed.ended (by rwa [← left]), Textbook.order]
    simp only [if_neg wanted]
    exact mirrors₁.mono (by omega)

theorem processed_records {s' : ShadowOrderbook} {Q Q₁ : Queues} {fills : List MatchResult}
    {before b₁ : OrderBook} (processed : Processed Q s order ts Q₁ fills before b₁ s')
    (recorded : s.expected.map entryLot = t.fills)
    (entries : (fills.map (ShadowOrderbook.expectedFill order)).map entryLot =
      (t.swept order).fills.map (Lot.rename (fun _ => order.clientOrderId)))
    (few : (t.order order).fills.length ≤ shadowMaxFills) :
    s'.expected.map entryLot = (t.order order).fills := by
  have room : (fills.map (ShadowOrderbook.expectedFill order)).length ≤
      shadowMaxFills - s.expected.length := by
    have old := congrArg List.length recorded
    have new := congrArg List.length entries
    simp only [Textbook.order, List.length_append, List.length_map] at few old new ⊢
    omega
  rw [processed.expected, List.take_of_length_le room, List.map_append, recorded, entries]
  rfl

theorem Mirrors.cancelRequest (mirrors : Mirrors total s.book t.resting) {cancel : CancelRequest}
    (manageable : Manageable s (.cancelRequest cancel)) :
    Mirrors total s.book (t.cancel cancel).resting := by
  obtain ⟨Q, clear⟩ := mirrors.clear
  refine ⟨⟨Q, clear⟩, ?_, mirrors.bids, mirrors.sum⟩
  funext side
  have none : ∀ l ∈ t.resting side, decide (l.ref ≠ cancel.clientOrderId) = true := by
    rw [← mirrors.walks]
    intro l member
    obtain ⟨l', member', rfl⟩ := List.mem_map.mp member
    obtain ⟨i, here⟩ := (lot_listed clear member').1
    exact decide_eq_true (manageable _ ((mem_listed clear.rep _).mpr ⟨side, i, here⟩))
  rw [mirrors.walks]
  exact (List.filter_eq_self.mpr none).symm

end Mirror

def quantityOf : StreamMsg → Int
  | .orderEntry order _ => order.quantity
  | .cancelRequest _ => 0

def Positive : StreamMsg → Prop
  | .orderEntry order _ => 0 < order.price ∧ 0 < order.quantity
  | .cancelRequest _ => True

instance : DecidablePred Positive
  | .orderEntry order _ => inferInstanceAs (Decidable (0 < order.price ∧ 0 < order.quantity))
  | .cancelRequest _ => inferInstanceAs (Decidable True)

/-- Positive prices and quantities, the quantities below 2^31 in all. -/
structure Regular (msgs : List StreamMsg) : Prop where
  positive : ∀ msg ∈ msgs, Positive msg
  sum : (msgs.map quantityOf).sum < 2147483648

theorem Regular.initial {msgs more : List StreamMsg} (regular : Regular (msgs ++ more)) :
    Regular msgs := by
  refine ⟨fun msg member => regular.positive msg (List.mem_append_left _ member), ?_⟩
  have rest : 0 ≤ (more.map quantityOf).sum := by
    apply List.sum_nonneg
    intro q hq
    obtain ⟨msg, member, rfl⟩ := List.mem_map.mp hq
    have positive := regular.positive msg (List.mem_append_right _ member)
    cases msg with
    | orderEntry => exact positive.2.le
    | cancelRequest => exact le_rfl
  have all := regular.sum
  rw [List.map_append, List.sum_append] at all
  omega

/-- Over a manageable stream the shadow book expects the fills of the textbook. -/
theorem manageable_streams_match_textbook (msgs : List StreamMsg) (regular : Regular msgs)
    (few : (Textbook.after msgs).fills.length < shadowMaxFills)
    (manageable : Obeys StreamMsg.apply Manageable ShadowOrderbook.init msgs) :
    ∃ s, run StreamMsg.apply ShadowOrderbook.init msgs = some s ∧
      s.expected.map entryLot = (Textbook.after msgs).fills := by
  have initial : ∀ h as, Regular (h ++ as) ∧ (Textbook.after (h ++ as)).fills.length < shadowMaxFills →
      Regular h ∧ (Textbook.after h).fills.length < shadowMaxFills := by
    intro h as whole
    exact ⟨whole.1.initial, (Textbook.fills_mono h as).trans_lt whole.2⟩
  have keep : ∀ h (s : ShadowOrderbook) msg,
      Mirrors (h.map quantityOf).sum s.book (Textbook.after h).resting ∧
        s.expected.map entryLot = (Textbook.after h).fills → Manageable s msg →
      Regular (h ++ [msg]) ∧ (Textbook.after (h ++ [msg])).fills.length < shadowMaxFills →
      ∃ s', msg.apply s = some s' ∧
        Mirrors ((h ++ [msg]).map quantityOf).sum s'.book (Textbook.after (h ++ [msg])).resting ∧
        s'.expected.map entryLot = (Textbook.after (h ++ [msg])).fills := by
    rintro h s msg ⟨mirrors, recorded⟩ legal ⟨regular, few⟩
    rw [Textbook.after_append] at few ⊢
    have sum := regular.sum
    rw [List.map_append, List.sum_append, List.map_singleton, List.sum_singleton] at sum ⊢
    cases msg with
    | orderEntry order ts =>
      obtain ⟨price_pos, qty_pos⟩ := regular.positive (.orderEntry order ts) (by simp)
      obtain ⟨Q, Q₁, fills, before, b₁, s', returns, processed, mirrors', entries⟩ :=
        mirrors.orderEntry legal price_pos qty_pos sum
      exact ⟨s', returns, mirrors', processed_records processed recorded entries few.le⟩
    | cancelRequest cancel =>
      exact ⟨s, rfl, (mirrors.cancelRequest legal).mono (Int.add_zero _).ge, recorded⟩
  obtain ⟨s, returns, -, recorded⟩ := run_returns_history StreamMsg.apply Manageable
    (fun h => Regular h ∧ (Textbook.after h).fills.length < shadowMaxFills)
    (fun h s => Mirrors (h.map quantityOf).sum s.book (Textbook.after h).resting ∧
      s.expected.map entryLot = (Textbook.after h).fills) initial keep
    [] msgs ShadowOrderbook.init ⟨mirrors_init, rfl⟩ ⟨regular, few⟩ manageable
  exact ⟨s, returns, recorded⟩

def manageableTest (s : ShadowOrderbook) : StreamMsg → Bool
  | .orderEntry order _ =>
    decide (Roomy (Textbook.Accepts order) 64 order.quantity
      (restingLots s.book order.side.contra)) &&
    decide (s.book.pool.freeTop ≠ 0 ∧
      (s.book.levels order.side).count < (s.book.levels order.side).capacity ∧
      better order.side order.price (scanStart order.side) ∧
      ((s.book.levels order.side).bestIdx ≠ nullIndex ∨ ∀ i < (s.book.levels order.side).count,
        ¬ better order.side ((s.book.levels order.side).prices i) order.price) ∧
      (activeLevels (s.book.levels order.side)).length ≤ 254)
  | .cancelRequest cancel => decide (∀ x ∈ listed s.book,
      (s.book.pool.orders x).clientOrderId ≠ cancel.clientOrderId)

theorem manageable_of_test (s : ShadowOrderbook) (msg : StreamMsg)
    (passed : manageableTest s msg = true) : Manageable s msg := by
  cases msg with
  | orderEntry order ts =>
    obtain ⟨roomy, rest⟩ := Bool.and_eq_true_iff.mp passed
    obtain ⟨slot, level, priced, unobscured, few⟩ := of_decide_eq_true rest
    refine ⟨of_decide_eq_true roomy, fun _ _ => ⟨slot, Or.inl level, priced, ?_, ?_⟩⟩
    · exact unobscured.imp_right (fun behind i active => behind i active.1)
    · exact spread_of_few few order.price
  | cancelRequest cancel =>
    have apart : ∀ x ∈ listed s.book,
        (s.book.pool.orders x).clientOrderId ≠ cancel.clientOrderId := of_decide_eq_true passed
    exact apart

theorem manageable_streams_match_textbook_two_asks :
    ∃ s, run StreamMsg.apply ShadowOrderbook.init
        [.orderEntry ⟨.sell, .limit, 1, 101, 5⟩ 0, .orderEntry ⟨.sell, .limit, 2, 100, 5⟩ 0,
          .orderEntry ⟨.buy, .market, 3, 1, 7⟩ 0, .orderEntry ⟨.buy, .limit, 4, 101, 9⟩ 0,
          .cancelRequest ⟨2, 0⟩] = some s ∧
      s.expected.map entryLot =
        [⟨3, 100, 5⟩, ⟨3, 101, 2⟩, ⟨4, 101, 3⟩] :=
  manageable_streams_match_textbook _ ⟨by decide, by decide⟩ (by decide +kernel)
    (obeys_of_test manageable_of_test _ _ (by decide +kernel))

def cancelledAsk : List StreamMsg :=
  [.orderEntry ⟨.sell, .limit, 1, 100, 10⟩ 0, .cancelRequest ⟨1, 0⟩,
    .orderEntry ⟨.buy, .limit, 2, 100, 10⟩ 0]

/-- The shadow book expects the bid to trade with the cancelled ask. -/
theorem cancelled_ask_still_fills :
    Regular cancelledAsk ∧ (Textbook.after cancelledAsk).fills = [] ∧
      (run StreamMsg.apply ShadowOrderbook.init cancelledAsk).map
        (fun s => s.expected.map entryLot) = some [⟨2, 100, 10⟩] :=
  ⟨⟨by decide, by decide⟩, by decide +kernel, by decide +kernel⟩

end HftGrading.Exchange.Shadow.ShadowReference
