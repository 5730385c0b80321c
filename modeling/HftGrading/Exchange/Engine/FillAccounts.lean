/- module: HftGrading/Exchange/Engine/FillAccounts
   source: exchange/include/exchange/match_engine.hpp, exchange/include/exchange/orderbook.hpp
   digest: The fill messages of an order count its quantity down, as taker first and then as maker. -/

import HftGrading.Exchange.Engine.ZeroSum
import HftGrading.Exchange.Engine.CancelRouting

set_option autoImplicit false
set_option relaxedAutoImplicit false

namespace HftGrading.Exchange.Engine.FillAccounts

open Lib.PartialExecution WireProtocol Book.PriceMap Book.LimitBook
open Book.LimitBook.OrderBook (MatchResult)
open Book.LevelSearch Book.LevelQueue Book.LevelFilling Book.MatchRounds Book.BookRep Book.BookRuns
open Book.Conservation EngineState EngineSteps Settlement OpenInterest ZeroSum CancelRouting

variable {G : Type} {e e' : MatchEngine G} {b b' : OrderBook} {Q Q' : Queues}

structure FillNotice where
  contestantId : Nat
  clientOrderId : UInt32
  fillQty : Int
  remainingQty : Int
  deriving DecidableEq, Repr

def FillNotice.id (n : FillNotice) : Nat × UInt32 := (n.contestantId, n.clientOrderId)

def fillNotice (msg : OutboundMsg) : Option FillNotice :=
  match msg.message with
  | .fill f => some ⟨msg.contestantId, f.clientOrderId, f.fillQty, f.remainingQty⟩
  | _ => none

def noticesOf (id : Nat × UInt32) (l : List FillNotice) : List FillNotice :=
  l.filter (fun n => decide (n.id = id))

def toldQty (l : List FillNotice) : Int := (l.map FillNotice.fillQty).sum

/-- Every notice says what is left of the quantity after it and those before it,
and that is never negative. -/
def Tallies (quantity : Int) (l : List FillNotice) : Prop :=
  ∀ before n after, l = before ++ n :: after →
    n.remainingQty = quantity - toldQty (before ++ [n]) ∧ 0 ≤ n.remainingQty

theorem toldQty_append (l l' : List FillNotice) : toldQty (l ++ l') = toldQty l + toldQty l' := by
  rw [toldQty, List.map_append, List.sum_append]
  rfl

theorem noticesOf_append (id : Nat × UInt32) (l l' : List FillNotice) :
    noticesOf id (l ++ l') = noticesOf id l ++ noticesOf id l' :=
  List.filter_append _ _

theorem tallies_nil (quantity : Int) : Tallies quantity [] := by
  intro before n after split
  simp at split

theorem Tallies.snoc {quantity : Int} {l : List FillNotice} {n : FillNotice}
    (tallies : Tallies quantity l) (counts : n.remainingQty = quantity - toldQty (l ++ [n]))
    (nonneg : 0 ≤ n.remainingQty) : Tallies quantity (l ++ [n]) := by
  intro before m after split
  rcases List.eq_nil_or_concat after with rfl | ⟨after', last, rfl⟩
  · obtain ⟨rfl, same⟩ := List.append_inj' split rfl
    cases same
    exact ⟨counts, nonneg⟩
  · rw [List.concat_eq_append, ← List.cons_append, ← List.append_assoc] at split
    obtain ⟨rfl, -⟩ := List.append_inj' split rfl
    exact tallies before m after' rfl

theorem notices_of_reports {msgs : List OutboundMsg} (none : msgs.filterMap fillReport = []) :
    msgs.filterMap fillNotice = [] := by
  rw [List.filterMap_eq_nil_iff] at none ⊢
  intro msg member
  have silent := none msg member
  rw [fillReport] at silent
  rw [fillNotice]
  cases kind : msg.message with
  | fill f => rw [kind] at silent; cases silent
  | _ => rfl

section FillLoop

variable {contestantId timestampNs : Nat} {order : OrderEntry}

def makerNotice (b : OrderBook) (f : MatchResult) : FillNotice :=
  ⟨(b.pool.orders f.makerIdx).contestantId, (b.pool.orders f.makerIdx).clientOrderId, f.fillQty,
    (b.pool.orders f.makerIdx).remainingQty⟩

def takerNotice (contestantId : Nat) (order : OrderEntry) (filled : Int) (f : MatchResult) :
    FillNotice :=
  ⟨contestantId, order.clientOrderId, f.fillQty, order.quantity - filled - f.fillQty⟩

def loopNotices (b : OrderBook) (contestantId : Nat) (order : OrderEntry) :
    Int → List MatchResult → List FillNotice
  | _, [] => []
  | filled, f :: fills => makerNotice b f :: takerNotice contestantId order filled f ::
      loopNotices b contestantId order (filled + f.fillQty) fills

def takerNotices (contestantId : Nat) (order : OrderEntry) :
    Int → List MatchResult → List FillNotice
  | _, [] => []
  | filled, f :: fills => takerNotice contestantId order filled f ::
      takerNotices contestantId order (filled + f.fillQty) fills

theorem loopNotices_pool (pool : b'.pool = b.pool) (filled : Int) (fills : List MatchResult) :
    loopNotices b' contestantId order filled fills = loopNotices b contestantId order filled fills := by
  induction fills generalizing filled with
  | nil => rfl
  | cons f fills ih => rw [loopNotices, loopNotices, ih, makerNotice, makerNotice, pool]

variable (contestantId timestampNs order) in
theorem settleFill_notices {msgs : List OutboundMsg} (emits : Emits e e' msgs)
    (room : msgs.length + 2 ≤ outboundQueueSize) (filled : Int) (f : MatchResult) :
    ∃ more, Emits e (MatchEngine.settleFill contestantId order timestampNs (e', filled) f).1 more ∧
      more.length = msgs.length + 2 ∧
      more.filterMap fillNotice = msgs.filterMap fillNotice ++
        [makerNotice e'.book f, takerNotice contestantId order filled f] := by
  have paid : Emits e { e' with
      contestants := bookAll e'.contestants (legs e'.book contestantId order.side f) } msgs :=
    emits.same rfl rfl
  have first := paid.sendFill (by omega) (e'.book.pool.orders f.makerIdx).contestantId
    (e'.book.pool.orders f.makerIdx).clientOrderId (e'.book.pool.orders f.makerIdx).exchangeId
    (e'.book.pool.orders f.makerIdx).side f.fillPrice f.fillQty
    (e'.book.pool.orders f.makerIdx).remainingQty timestampNs
  have second := first.sendFill (by rw [List.length_append, List.length_singleton]; omega)
    contestantId order.clientOrderId 0 order.side f.fillPrice f.fillQty
    (order.quantity - filled - f.fillQty) timestampNs
  refine ⟨_, second.same rfl rfl, ?_, ?_⟩
  · simp only [List.length_append, List.length_singleton]
  · rw [List.filterMap_append, List.filterMap_append, List.append_assoc]
    rfl

variable (contestantId timestampNs order) in
theorem settleFills_notices (fills : List MatchResult) (e' : MatchEngine G) (filled : Int)
    {msgs : List OutboundMsg} (emits : Emits e e' msgs)
    (room : msgs.length + 2 * fills.length ≤ outboundQueueSize) :
    ∃ more, Emits e
        (fills.foldl (MatchEngine.settleFill contestantId order timestampNs) (e', filled)).1 more ∧
      more.length = msgs.length + 2 * fills.length ∧
      more.filterMap fillNotice = msgs.filterMap fillNotice ++
        loopNotices e'.book contestantId order filled fills := by
  induction fills generalizing e' filled msgs with
  | nil => exact ⟨msgs, emits, rfl, (List.append_nil _).symm⟩
  | cons f fills ih =>
    rw [List.length_cons] at room
    obtain ⟨more, emits', longer, told⟩ := settleFill_notices contestantId timestampNs order
      emits (by omega) filled f
    obtain ⟨all, emits'', length, told'⟩ := ih
      (MatchEngine.settleFill contestantId order timestampNs (e', filled) f).1
      (filled + f.fillQty) emits' (by omega)
    refine ⟨all, emits'', by rw [length, longer, List.length_cons]; omega, ?_⟩
    have pool : (MatchEngine.settleFill contestantId order timestampNs (e', filled)
        f).1.book.pool = e'.book.pool := by
      rw [(settleFill_spec contestantId order timestampNs (e', filled) f).2.1, refresh_pool]
    rw [told', told, loopNotices_pool pool, List.append_assoc]
    rfl

theorem executeOrder_notices (bounded : e.outboundTail < 4294967296) {fills : List MatchResult}
    {b₁ : OrderBook} (few : fills.length ≤ 64)
    (made : e.book.matchOrder order.side order.price order.quantity contestantId 64 =
      some (fills, b₁))
    (returns : e.executeOrder contestantId order timestampNs = some e') :
    (emitted e e').filterMap fillNotice = loopNotices b₁ contestantId order 0 fills := by
  rw [executeOrder_of_matchOrder made] at returns
  have start : Emits e (afterMatch e contestantId b₁) [] := emits_nil bounded rfl
  obtain ⟨msgs, emits, length, told⟩ := settleFills_notices contestantId timestampNs order fills
    (afterMatch e contestantId b₁) 0 start
    (by unfold outboundQueueSize; simp only [List.length_nil]; omega)
  rw [List.length_nil] at length
  obtain ⟨more, emits', same, longer⟩ := restRemainder_acks e fillNotice (fun _ _ => rfl) returns
    emits (by unfold outboundQueueSize; omega)
  rw [emits'.emitted_eq bounded (by omega), same, told]
  rfl

end FillLoop

section Readings

variable {cid : Nat} {order : OrderEntry}

theorem noticesOf_taker (filled : Int) {fills : List MatchResult}
    (other : ∀ f ∈ fills, (makerNotice b f).id ≠ (cid, order.clientOrderId)) :
    noticesOf (cid, order.clientOrderId) (loopNotices b cid order filled fills) =
      takerNotices cid order filled fills := by
  induction fills generalizing filled with
  | nil => rfl
  | cons f fills ih =>
    have rest := ih (filled + f.fillQty) (fun g hg => other g (List.mem_cons_of_mem f hg))
    rw [loopNotices, noticesOf, List.filter_cons_of_neg (by simpa using other f (by simp)),
      List.filter_cons_of_pos (by simp [takerNotice, FillNotice.id]), ← noticesOf, rest]
    rfl

theorem noticesOf_makers (filled : Int) (fills : List MatchResult) {id : Nat × UInt32}
    (other : id ≠ (cid, order.clientOrderId)) :
    noticesOf id (loopNotices b cid order filled fills) =
      noticesOf id (fills.map (makerNotice b)) := by
  induction fills generalizing filled with
  | nil => rfl
  | cons f fills ih =>
    have taker : (takerNotice cid order filled f).id ≠ id := other.symm
    have rest : noticesOf id (takerNotice cid order filled f ::
        loopNotices b cid order (filled + f.fillQty) fills) =
        noticesOf id (fills.map (makerNotice b)) := by
      rw [noticesOf, List.filter_cons_of_neg (by simpa using taker), ← noticesOf, ih]
    have maker := fun l => noticesOf_append id [makerNotice b f] l
    rw [loopNotices, List.map_cons, ← List.singleton_append, maker, rest, ← maker,
      List.singleton_append]

theorem toldQty_takers (filled : Int) (fills : List MatchResult) :
    toldQty (takerNotices cid order filled fills) = filledQty fills := by
  induction fills generalizing filled with
  | nil => rfl
  | cons f fills ih =>
    rw [takerNotices, toldQty, List.map_cons, List.sum_cons, ← toldQty, ih, filledQty, filledQty,
      List.map_cons, List.sum_cons]
    rfl

theorem tallies_takers {filled : Int} {fills : List MatchResult} {l : List FillNotice}
    (tallies : Tallies order.quantity l) (told : toldQty l = filled)
    (positive : ∀ f ∈ fills, 0 < f.fillQty) (enough : filled + filledQty fills ≤ order.quantity) :
    Tallies order.quantity (l ++ takerNotices cid order filled fills) := by
  induction fills generalizing filled l with
  | nil => rwa [takerNotices, List.append_nil]
  | cons f fills ih =>
    have later : 0 ≤ filledQty fills := (length_le_filledQty (fun g hg =>
      positive g (List.mem_cons_of_mem f hg))).trans' (Int.natCast_nonneg _)
    have sum : filledQty (f :: fills) = f.fillQty + filledQty fills := by
      rw [filledQty, List.map_cons, List.sum_cons]
      rfl
    have next : toldQty (l ++ [takerNotice cid order filled f]) = filled + f.fillQty := by
      rw [toldQty_append, told]
      exact congrArg (filled + ·) (Int.add_zero _)
    have counts : (takerNotice cid order filled f).remainingQty =
        order.quantity - filled - f.fillQty := rfl
    have here := tallies.snoc (n := takerNotice cid order filled f)
      (by rw [next, counts]; omega) (by rw [counts]; omega)
    rw [takerNotices, List.append_cons]
    exact ih here next (fun g hg => positive g (List.mem_cons_of_mem f hg)) (by omega)

theorem noticesOf_distinct {l : List FillNotice} (distinct : (l.map FillNotice.id).Nodup)
    (id : Nat × UInt32) :
    (noticesOf id l = [] ∧ ∀ n ∈ l, n.id ≠ id) ∨ ∃ n ∈ l, n.id = id ∧ noticesOf id l = [n] := by
  induction l with
  | nil => exact Or.inl ⟨rfl, by simp⟩
  | cons n l ih =>
    rw [List.map_cons, List.nodup_cons] at distinct
    by_cases here : n.id = id
    · right
      refine ⟨n, List.mem_cons_self, here, ?_⟩
      have none : noticesOf id l = [] := by
        refine List.filter_eq_nil_iff.mpr (fun m hm same => distinct.1 ?_)
        rw [here, ← of_decide_eq_true same]
        exact List.mem_map_of_mem hm
      rw [noticesOf, List.filter_cons_of_pos (by simpa using here), ← noticesOf, none]
    · rw [noticesOf, List.filter_cons_of_neg (by simpa using here), ← noticesOf]
      rcases ih distinct.2 with ⟨none, others⟩ | ⟨m, hm, same, one⟩
      · refine Or.inl ⟨none, fun m hm => ?_⟩
        rcases List.mem_cons.mp hm with rfl | hm
        exacts [here, others m hm]
      · exact Or.inr ⟨m, List.mem_cons_of_mem n hm, same, one⟩

end Readings

section Runs

def notices (j : Journal G) : List FillNotice := j.log.filterMap fillNotice

/-- The order that the cell of a slot was filled in for. -/
def cellId (b : OrderBook) (x : Nat) : Nat × UInt32 :=
  ((b.pool.orders x).contestantId, (b.pool.orders x).clientOrderId)

theorem cellId_of_static {x : Nat} (same : static (b'.pool.orders x) = static (b.pool.orders x)) :
    cellId b' x = cellId b x := by
  rw [cellId, cellId, contestantId_of_static same, clientOrderId_of_static same]

theorem makerNotice_id {Q Q₁ : Queues} {b₁ : OrderBook} (drains : Drains Q b Q₁ b₁)
    (f : MatchResult) : (makerNotice b₁ f).id = cellId b f.makerIdx :=
  cellId_of_static (drains.static f.makerIdx)

def OnRecord (told : List FillNotice) (b : OrderBook) (Q : Queues) (id : Nat × UInt32)
    (quantity : Int) : Prop :=
  Tallies quantity (noticesOf id told) ∧ ∀ s i, ∀ x ∈ Q s i, cellId b x = id →
    restingQty b x = quantity - toldQty (noticesOf id told)

structure Filed (h : List EngineOp) (Q : Queues) (j : Journal G) : Prop where
  rep : Rep j.engine.book Q
  bounded : j.engine.outboundTail < 4294967296
  spent : Spent j.engine.book Q
  named : ∀ s i, ∀ x ∈ Q s i, cellId j.engine.book x ∈ usedIds h
  distinct : ∀ s i, ∀ x ∈ Q s i, ∀ t k, ∀ y ∈ Q t k,
    cellId j.engine.book x = cellId j.engine.book y → x = y
  known : ∀ n ∈ notices j, n.id ∈ usedIds h
  onRecord : ∀ cid order ts, EngineOp.processOrder cid order ts ∈ h →
    OnRecord (notices j) j.engine.book Q (cid, order.clientOrderId) order.quantity

variable {h : List EngineOp} {j : Journal G} {op : EngineOp}

theorem filed_init (cfg : MatchEngineConfig) (gen : G) :
    Filed [] (fun _ _ => []) ⟨MatchEngine.init cfg gen, []⟩ where
  rep := rep_init
  bounded := show 0 < 4294967296 by decide
  spent := fun _ _ => le_rfl
  named := fun _ _ _ hx => by cases hx
  distinct := fun _ _ _ hx => by cases hx
  known := fun _ hn => by cases hn
  onRecord := fun _ _ _ member => by cases member

theorem usedIds_append (h h' : List EngineOp) : usedIds (h ++ h') = usedIds h ++ usedIds h' :=
  List.filterMap_append

theorem mem_usedIds {cid ts : Nat} {order : OrderEntry}
    (member : EngineOp.processOrder cid order ts ∈ h) : (cid, order.clientOrderId) ∈ usedIds h :=
  List.mem_filterMap.mpr ⟨_, member, rfl⟩

theorem Filed.fresh (filed : Filed h Q j) {id : Nat × UInt32} (unused : id ∉ usedIds h) :
    noticesOf id (notices j) = [] ∧ ∀ s i, ∀ x ∈ Q s i, cellId j.engine.book x ≠ id := by
  constructor
  · refine List.filter_eq_nil_iff.mpr (fun n hn same => unused ?_)
    rw [← of_decide_eq_true same]
    exact filed.known n hn
  · rintro s i x hx rfl
    exact unused (filed.named s i x hx)

theorem unused_of_unique {cid ts : Nat} {order : OrderEntry}
    (unique : (usedIds (h ++ [.processOrder cid order ts])).Nodup) :
    (cid, order.clientOrderId) ∉ usedIds h := by
  intro member
  rw [usedIds_append] at unique
  exact (List.nodup_append.mp unique).2.2 _ member _ (by simp [usedIds]) rfl

theorem Filed.idle (filed : Filed h Q j) (unique : (usedIds (h ++ [op])).Nodup)
    (accounted : Accounted j.engine op e') (none : opReports j.engine op = [])
    (rep : Rep e'.book Q') (spent : Spent e'.book Q')
    (kept : ∀ s i, ∀ x ∈ Q' s i, x ∈ Q s i ∧ cellId e'.book x = cellId j.engine.book x ∧
      restingQty e'.book x = restingQty j.engine.book x) :
    Filed (h ++ [op]) Q' ⟨e', j.log ++ emitted j.engine e'⟩ := by
  have silent : (emitted j.engine e').filterMap fillNotice = [] :=
    notices_of_reports (accounted.told.trans none)
  have same : notices ⟨e', j.log ++ emitted j.engine e'⟩ = notices j := by
    rw [notices, List.filterMap_append, silent, List.append_nil]
    rfl
  have mono : ∀ id ∈ usedIds h, id ∈ usedIds (h ++ [op]) := by
    intro id member
    rw [usedIds_append]
    exact List.mem_append_left _ member
  refine ⟨rep, accounted.bounded, spent, ?_, ?_, ?_, ?_⟩
  · intro s i x hx
    obtain ⟨listed, id, -⟩ := kept s i x hx
    rw [id]
    exact mono _ (filed.named s i x listed)
  · intro s i x hx t k y hy ids
    obtain ⟨listed, id, -⟩ := kept s i x hx
    obtain ⟨listed', id', -⟩ := kept t k y hy
    exact filed.distinct s i x listed t k y listed' (id.symm.trans (ids.trans id'))
  · rw [same]
    exact fun n hn => mono _ (filed.known n hn)
  · intro cid order ts member
    rw [same]
    rcases List.mem_append.mp member with old | new
    · obtain ⟨tallies, rests⟩ := filed.onRecord cid order ts old
      refine ⟨tallies, fun s i x hx named => ?_⟩
      obtain ⟨listed, id, qty⟩ := kept s i x hx
      rw [qty]
      exact rests s i x listed (id.symm.trans named)
    · obtain rfl := List.mem_singleton.mp new
      obtain ⟨unsent, unlisted⟩ := filed.fresh (unused_of_unique unique)
      refine ⟨by rw [unsent]; exact tallies_nil _, fun s i x hx named => ?_⟩
      obtain ⟨listed, id, -⟩ := kept s i x hx
      exact absurd (id.symm.trans named) (unlisted s i x listed)

def AddSucceeds (e : MatchEngine G) : EngineOp → Prop
  | .processOrder cid order ts => Provided e (.processOrder cid order ts)
  | _ => True

section Executed

variable {cid ts : Nat} {order : OrderEntry} {fills : List MatchResult} {Q₁ : Queues}
  {before b₁ : OrderBook}

theorem restingQty_settledBook (x : Nat) : restingQty (settledBook fills b₁) x = restingQty b₁ x := by
  rw [settledBook]
  split_ifs
  · rfl
  · rw [restingQty, refresh_pool, restingQty]

theorem cellId_settledBook (x : Nat) : cellId (settledBook fills b₁) x = cellId b₁ x := by
  rw [settledBook]
  split_ifs
  · rfl
  · rw [cellId, refresh_pool, cellId]

theorem executed_listed (filed : Filed h Q j)
    (executed : Executed Q j.engine cid order ts fills Q₁ before b₁ Q' e')
    (registered : cid < j.engine.contestants.count)
    (accepted : j.engine.orderRejection cid order = none)
    (succeeds : AddSucceeds j.engine (.processOrder cid order ts)) :
    Spent e'.book Q' ∧ ∃ x₀, ∀ s i, ∀ x ∈ Q' s i,
      (x ∈ Q s i ∧ cellId e'.book x = cellId j.engine.book x ∧
          restingQty e'.book x + takenFrom fills x = restingQty j.engine.book x) ∨
        x = x₀ ∧ cellId e'.book x = (cid, order.clientOrderId) ∧
          restingQty e'.book x = order.quantity - filledQty fills := by
  have matched := executed.matched
  have drains : Drains Q j.engine.book Q₁ b₁ := matched.drained
  have settled := settledBook_drains (Q := Q₁) fills b₁
  have taken := succeeds registered accepted fills b₁ executed.returns
  refine ⟨placed_spent executed.placed taken ((filed.spent.drains drains).drains settled), ?_⟩
  obtain ⟨x₀, listed⟩ := placed_listed executed.placed taken (settled.rep (drains.rep filed.rep))
  refine ⟨x₀, fun s i x hx => ?_⟩
  rcases listed s i x hx with ⟨old, cell⟩ | ⟨new, owner, client, qty⟩
  · have was := (drains.sublist s i).subset old
    have id : cellId e'.book x = cellId (settledBook fills b₁) x :=
      congrArg₂ Prod.mk (congrArg Order.contestantId cell :) (congrArg Order.clientOrderId cell :)
    have qty : restingQty e'.book x = restingQty (settledBook fills b₁) x :=
      (congrArg Order.remainingQty cell :)
    refine Or.inl ⟨was, ?_, ?_⟩
    · rw [id, cellId_settledBook, cellId_of_static (drains.static x)]
    · rw [qty, restingQty_settledBook, matched_resting_left filed.rep matched was]
  · exact Or.inr ⟨new, congrArg₂ Prod.mk owner client, qty⟩

theorem makerNotices_distinct (filed : Filed h Q j)
    (matched : Matched Q j.engine.book order.side order.price order.quantity cid 64 Q₁ fills before b₁)
    (once : (fills.map MatchResult.makerIdx).Nodup) :
    ((fills.map (makerNotice b₁)).map FillNotice.id).Nodup := by
  have mapped : (fills.map (makerNotice b₁)).map FillNotice.id =
      (fills.map MatchResult.makerIdx).map (cellId j.engine.book) := by
    rw [List.map_map, List.map_map]
    exact List.map_congr_left (fun f _ => makerNotice_id matched.drained f)
  rw [mapped]
  refine once.map_on (fun x hx y hy same => ?_)
  obtain ⟨f, hf, rfl⟩ := List.mem_map.mp hx
  obtain ⟨g, hg, rfl⟩ := List.mem_map.mp hy
  obtain ⟨i, listed⟩ := matched.makers f hf
  obtain ⟨k, listed'⟩ := matched.makers g hg
  exact filed.distinct _ i _ listed _ k _ listed' same

theorem onRecord_old (filed : Filed h Q j)
    (matched : Matched Q j.engine.book order.side order.price order.quantity cid 64 Q₁ fills before b₁)
    (once : (fills.map MatchResult.makerIdx).Nodup) {id : Nat × UInt32} {quantity : Int}
    (other : id ≠ (cid, order.clientOrderId))
    (record : OnRecord (notices j) j.engine.book Q id quantity)
    (kept : ∀ s i, ∀ x ∈ Q' s i, cellId b' x = id → x ∈ Q s i ∧
      cellId j.engine.book x = id ∧ restingQty b' x + takenFrom fills x = restingQty j.engine.book x) :
    OnRecord (notices j ++ loopNotices b₁ cid order 0 fills) b' Q' id quantity := by
  obtain ⟨tallies, rests⟩ := record
  have ids := makerNotice_id matched.drained
  have distinct := makerNotices_distinct filed matched once
  rw [OnRecord, noticesOf_append, noticesOf_makers 0 fills other]
  rcases noticesOf_distinct distinct id with ⟨none, others⟩ | ⟨n, hn, named, one⟩
  · rw [none, List.append_nil]
    refine ⟨tallies, fun s i x hx same => ?_⟩
    obtain ⟨listed, was, left⟩ := kept s i x hx same
    have untouched : takenFrom fills x = 0 := takenFrom_eq_zero (fun f hf maker =>
      others _ (List.mem_map_of_mem hf) (by rw [ids, maker, was]))
    rw [untouched, Int.add_zero] at left
    rw [left]
    exact rests s i x listed was
  · obtain ⟨f, hf, rfl⟩ := List.mem_map.mp hn
    rw [ids] at named
    obtain ⟨k, listed⟩ := matched.makers f hf
    have left := matched_resting_left filed.rep matched listed
    rw [takenFrom_maker once hf, rests _ k _ listed named] at left
    have remaining : (makerNotice b₁ f).remainingQty = restingQty b₁ f.makerIdx := rfl
    have told : toldQty (noticesOf id (notices j) ++ [makerNotice b₁ f]) =
        toldQty (noticesOf id (notices j)) + f.fillQty := by
      rw [toldQty_append]
      exact congrArg (_ + ·) (Int.add_zero _)
    rw [one]
    refine ⟨tallies.snoc ?_ ?_, fun s i x hx same => ?_⟩
    · rw [told, remaining]
      omega
    · rw [remaining]
      exact matched_left_nonneg filed.rep matched listed
    · obtain ⟨listed', was, left'⟩ := kept s i x hx same
      obtain rfl : x = f.makerIdx :=
        filed.distinct s i x listed' _ k _ listed (was.trans named.symm)
      rw [takenFrom_maker once hf, rests _ k _ listed named] at left'
      rw [told]
      omega

theorem onRecord_new (filed : Filed h Q j)
    (matched : Matched Q j.engine.book order.side order.price order.quantity cid 64 Q₁ fills before b₁)
    (enough : filledQty fills ≤ order.quantity) (unused : (cid, order.clientOrderId) ∉ usedIds h)
    (kept : ∀ s i, ∀ x ∈ Q' s i, cellId b' x = (cid, order.clientOrderId) →
      restingQty b' x = order.quantity - filledQty fills) :
    OnRecord (notices j ++ loopNotices b₁ cid order 0 fills) b' Q' (cid, order.clientOrderId)
      order.quantity := by
  obtain ⟨unsent, unlisted⟩ := filed.fresh unused
  have makers : ∀ f ∈ fills, (makerNotice b₁ f).id ≠ (cid, order.clientOrderId) := by
    intro f hf
    obtain ⟨i, listed⟩ := matched.makers f hf
    rw [makerNotice_id matched.drained]
    exact unlisted _ i _ listed
  rw [OnRecord, noticesOf_append, unsent, noticesOf_taker 0 makers, List.nil_append, toldQty_takers]
  refine ⟨?_, kept⟩
  have counted : Tallies order.quantity ([] ++ takerNotices cid order 0 fills) :=
    tallies_takers (tallies_nil order.quantity) rfl matched.positive (by omega)
  rwa [List.nil_append] at counted

theorem loopNotices_known (filed : Filed h Q j)
    (matched : Matched Q j.engine.book order.side order.price order.quantity cid 64 Q₁ fills before b₁)
    {n : FillNotice} (hn : n ∈ loopNotices b₁ cid order 0 fills) :
    n.id ∈ usedIds h ++ [(cid, order.clientOrderId)] := by
  by_cases taker : n.id = (cid, order.clientOrderId)
  · rw [taker]
    exact List.mem_append_right _ (List.mem_singleton_self _)
  · have maker : n ∈ noticesOf n.id (loopNotices b₁ cid order 0 fills) :=
      List.mem_filter.mpr ⟨hn, by simp⟩
    rw [noticesOf_makers 0 fills taker] at maker
    obtain ⟨f, hf, rfl⟩ := List.mem_map.mp (List.mem_filter.mp maker).1
    obtain ⟨i, resting⟩ := matched.makers f hf
    rw [makerNotice_id matched.drained]
    exact List.mem_append_left _ (filed.named _ i _ resting)

theorem Filed.executed (filed : Filed h Q j)
    (unique : (usedIds (h ++ [.processOrder cid order ts])).Nodup)
    (executed : Executed Q j.engine cid order ts fills Q₁ before b₁ Q' e')
    (returns : j.engine.executeOrder cid order ts = some e')
    (accounted : Accounted j.engine (.processOrder cid order ts) e')
    (registered : cid < j.engine.contestants.count)
    (accepted : j.engine.orderRejection cid order = none)
    (succeeds : AddSucceeds j.engine (.processOrder cid order ts)) :
    Filed (h ++ [.processOrder cid order ts]) Q' ⟨e', j.log ++ emitted j.engine e'⟩ := by
  have matched := executed.matched
  have unused := unused_of_unique unique
  obtain ⟨unsent, unlisted⟩ := filed.fresh unused
  obtain ⟨spent, x₀, listed⟩ := executed_listed filed executed registered accepted succeeds
  have wanted := (size_of_accepted accepted).1
  have sent : notices ⟨e', j.log ++ emitted j.engine e'⟩ =
      notices j ++ loopNotices b₁ cid order 0 fills := by
    rw [notices, List.filterMap_append,
      executeOrder_notices filed.bounded matched.few executed.returns returns]
    rfl
  have used : usedIds (h ++ [.processOrder cid order ts]) =
      usedIds h ++ [(cid, order.clientOrderId)] := usedIds_append _ _
  refine ⟨executed.rep filed.rep, accounted.bounded, spent, ?_, ?_, ?_, ?_⟩
  · intro s i x hx
    rw [used]
    rcases listed s i x hx with ⟨old, id, -⟩ | ⟨-, id, -⟩
    · rw [id]
      exact List.mem_append_left _ (filed.named s i x old)
    · rw [id]
      exact List.mem_append_right _ (List.mem_singleton_self _)
  · intro s i x hx t k y hy same
    rcases listed s i x hx with ⟨old, id, -⟩ | ⟨new, id, -⟩
    · rcases listed t k y hy with ⟨old', id', -⟩ | ⟨-, id', -⟩
      · exact filed.distinct s i x old t k y old' (id.symm.trans (same.trans id'))
      · exact absurd (id.symm.trans (same.trans id')) (unlisted s i x old)
    · rcases listed t k y hy with ⟨old', id', -⟩ | ⟨new', -⟩
      · exact absurd (id'.symm.trans (same.symm.trans id)) (unlisted t k y old')
      · rw [new, new']
  · intro n hn
    rw [sent] at hn
    rw [used]
    rcases List.mem_append.mp hn with old | new
    · exact List.mem_append_left _ (filed.known n old)
    · exact loopNotices_known filed matched new
  · intro cid' order' ts' member
    rw [sent]
    rcases List.mem_append.mp member with old | new
    · have other : (cid', order'.clientOrderId) ≠ (cid, order.clientOrderId) := fun same =>
        unused (same ▸ mem_usedIds old)
      refine onRecord_old filed matched (matchOrder_once filed.rep order.price executed.returns)
        other (filed.onRecord cid' order' ts' old) (fun s i x hx same => ?_)
      rcases listed s i x hx with ⟨was, id, left⟩ | ⟨-, id, -⟩
      · exact ⟨was, id.symm.trans same, left⟩
      · exact absurd (same.symm.trans id) other
    · cases List.mem_singleton.mp new
      refine onRecord_new filed matched (executed_filled wanted executed).2 unused
        (fun s i x hx same => ?_)
      rcases listed s i x hx with ⟨was, id, -⟩ | ⟨-, -, qty⟩
      · exact absurd (id.symm.trans same) (unlisted s i x was)
      · exact qty

end Executed

theorem Filed.findsResting (filed : Filed h Q j) {cid : Nat} {cancel : CancelRequest}
    (owned : j.engine.cancellable cid (cancelTarget j.engine cid cancel)) :
    ∃ s i, cancelTarget j.engine cid cancel ∈ Q s i := by
  by_contra unlisted
  have spent := filed.spent (cancelTarget j.engine cid cancel) (fun s i listed =>
    unlisted ⟨s, i, listed⟩)
  exact absurd owned.2.2 (not_lt.mpr spent)

theorem Filed.quiet (filed : Filed h Q j) (unique : (usedIds (h ++ [op])).Nodup)
    (nextTick : G → Nat → MarketUpdate × G) (returns : op.apply nextTick j.engine = some e')
    (none : opReports j.engine op = []) (drains : Drains Q j.engine.book Q e'.book)
    (pool : e'.book.pool = j.engine.book.pool) :
    Filed (h ++ [op]) Q ⟨e', j.log ++ emitted j.engine e'⟩ := by
  refine filed.idle unique (apply_accounted nextTick filed.rep filed.bounded returns) none
    (drains.rep filed.rep) (filed.spent.drains drains) (fun s i x hx => ⟨hx, ?_, ?_⟩)
  · rw [cellId, pool, cellId]
  · rw [restingQty, pool, restingQty]

theorem Filed.cancelled (filed : Filed h Q j) (nextTick : G → Nat → MarketUpdate × G) {cid ts : Nat}
    {cancel : CancelRequest} (unique : (usedIds (h ++ [.processCancel cid cancel ts])).Nodup)
    (owned : j.engine.cancellable cid (cancelTarget j.engine cid cancel)) :
    ∃ e', j.engine.processCancel cid cancel ts = some e' ∧
      ∃ Q', Filed (h ++ [.processCancel cid cancel ts]) Q' ⟨e', j.log ++ emitted j.engine e'⟩ := by
  obtain ⟨s, i, listed⟩ := filed.findsResting owned
  obtain ⟨b₁, b', run, shed, settled, others, rep'⟩ := filed.rep.cancelOrder listed
  have drains := Drains.shed .refl (List.ne_nil_of_mem listed) shed settled
  have returns : EngineOp.apply nextTick j.engine (.processCancel cid cancel ts) = some _ :=
    processCancel_cancels ts owned run
  refine ⟨_, returns, _, filed.idle unique
    (apply_accounted nextTick filed.rep filed.bounded returns) rfl rep' (filed.spent.drains drains)
    (fun t k x hx => ?_)⟩
  refine ⟨(drains.sublist t k).subset hx, cellId_of_static (drains.static x), others x ?_⟩
  rintro rfl
  revert hx
  refine place_forall (C := fun t k l => cancelTarget j.engine cid cancel ∉ l) ?_ ?_ t k
  · exact (filed.rep.level s i).nodup.not_mem_erase
  · exact fun t k other hx => filed.rep.not_mem other hx listed

theorem Filed.step (filed : Filed h Q j) (nextTick : G → Nat → MarketUpdate × G) (op : EngineOp)
    (unique : (usedIds (h ++ [op])).Nodup) (succeeds : AddSucceeds j.engine op) :
    ∃ j', j.apply nextTick op = some j' ∧ ∃ Q', Filed (h ++ [op]) Q' j' := by
  have log : ∀ {e'}, op.apply nextTick j.engine = some e' →
      j.apply nextTick op = some ⟨e', j.log ++ emitted j.engine e'⟩ := by
    intro e' returns
    rw [Journal.apply, returns]
    rfl
  cases op with
  | registerContestant cash =>
    exact ⟨_, log rfl, Q, filed.quiet unique nextTick rfl rfl .refl rfl⟩
  | generateTick ts =>
    refine ⟨_, log rfl, Q, filed.quiet unique nextTick rfl rfl
      (generateTick_drains nextTick j.engine ts) ?_⟩
    simp only [MatchEngine.generateTick]
    split_ifs <;> simp [OrderBook.bestBidPrice, OrderBook.bestAskPrice, OrderBook.bestBidQty,
      OrderBook.bestAskQty, OrderBook.bestField]
  | popOutbound =>
    have same : j.engine.popOutbound.2.book = j.engine.book := by
      rw [MatchEngine.popOutbound]
      split_ifs <;> rfl
    exact ⟨_, log rfl, Q, filed.quiet unique nextTick rfl rfl
      (by rw [same]; exact .refl) (by rw [same])⟩
  | processOrder cid order ts =>
    by_cases legal : cid < j.engine.contestants.count ∧ j.engine.orderRejection cid order = none
    · obtain ⟨fills, Q₁, before, b₁, Q', e', run, executed, -⟩ :=
        executeOrder_executed filed.rep cid order ts
      have returns : EngineOp.apply nextTick j.engine (.processOrder cid order ts) = some e' := by
        rw [EngineOp.apply, MatchEngine.processOrder, if_neg (not_le.mpr legal.1), legal.2]
        exact run
      exact ⟨_, log returns, Q', filed.executed unique executed run
        (apply_accounted nextTick filed.rep filed.bounded returns) legal.1 legal.2 succeeds⟩
    · have none : opReports j.engine (.processOrder cid order ts) = [] := by
        rw [opReports, fillsOf, if_neg legal]
        rfl
      have returns : ∃ e', EngineOp.apply nextTick j.engine (.processOrder cid order ts) = some e' ∧
          e'.book = j.engine.book := by
        rw [EngineOp.apply, MatchEngine.processOrder]
        split_ifs with unknown
        · exact ⟨_, rfl, rfl⟩
        · cases rejection : j.engine.orderRejection cid order with
          | none => exact absurd ⟨Nat.lt_of_not_le unknown, rejection⟩ legal
          | some status => exact ⟨_, rfl, rfl⟩
      obtain ⟨e', returns, same⟩ := returns
      exact ⟨_, log returns, Q, filed.quiet unique nextTick returns none
        (by rw [same]; exact .refl) (by rw [same])⟩
  | processCancel cid cancel ts =>
    by_cases owned : j.engine.cancellable cid (cancelTarget j.engine cid cancel)
    · obtain ⟨e', returns, Q', filed'⟩ := filed.cancelled nextTick unique owned
      exact ⟨_, log returns, Q', filed'⟩
    · have returns : EngineOp.apply nextTick j.engine (.processCancel cid cancel ts) = some _ :=
        processCancel_rejects ts owned
      exact ⟨_, log returns, Q, filed.quiet unique nextTick returns rfl .refl rfl⟩

/-- Where every id is used once and no `add_order` fails, the fill messages of an order, as taker
and then as maker, count its quantity down; what rests of it is what the last one says. -/
theorem fill_messages_count_down (nextTick : G → Nat → MarketUpdate × G) (gen : G)
    (cfg : MatchEngineConfig) (ops : List EngineOp) (unique : (usedIds ops).Nodup)
    (succeeds : Obeys (EngineOp.apply nextTick) AddSucceeds (MatchEngine.init cfg gen) ops) :
    ∃ j, run (Journal.apply nextTick) ⟨MatchEngine.init cfg gen, []⟩ ops = some j ∧
      run (EngineOp.apply nextTick) (MatchEngine.init cfg gen) ops = some j.engine ∧
      (∀ n ∈ notices j, n.id ∈ usedIds ops) ∧
      ∀ cid order ts, EngineOp.processOrder cid order ts ∈ ops →
        Tallies order.quantity (noticesOf (cid, order.clientOrderId) (notices j)) ∧
        ∀ s x, Resting j.engine.book s x → cellId j.engine.book x = (cid, order.clientOrderId) →
          restingQty j.engine.book x =
            order.quantity - toldQty (noticesOf (cid, order.clientOrderId) (notices j)) := by
  have watches : ∀ (j : Journal G) op,
      (j.apply nextTick op).map Journal.engine = op.apply nextTick j.engine := by
    intro j op
    rw [Journal.apply]
    cases op.apply nextTick j.engine <;> rfl
  obtain ⟨j, returns, Q, filed⟩ := run_returns_history (Journal.apply nextTick)
    (fun j => AddSucceeds j.engine) (fun h => (usedIds h).Nodup) (fun h j => ∃ Q, Filed h Q j)
    (fun h as unique => by
      rw [usedIds_append] at unique
      exact (List.nodup_append.mp unique).1)
    (fun h j op inv legal unique => by
      obtain ⟨Q, filed⟩ := inv
      exact filed.step nextTick op unique legal)
    [] ops ⟨MatchEngine.init cfg gen, []⟩ ⟨_, filed_init cfg gen⟩ unique
    (Obeys.lift (f := Journal.engine) (t := ⟨MatchEngine.init cfg gen, []⟩) watches succeeds)
  refine ⟨j, returns, ?_, filed.known, fun cid order ts member => ?_⟩
  · have engine := run_map watches ⟨MatchEngine.init cfg gen, []⟩ ops
    rw [returns] at engine
    exact engine.symm
  · obtain ⟨tallies, rests⟩ := filed.onRecord cid order ts member
    refine ⟨tallies, fun s x resting named => ?_⟩
    obtain ⟨i, listed⟩ := resting
    rw [filed.rep.queue_eq] at listed
    exact rests s i x listed named

def addSucceedsTest (e : MatchEngine G) : EngineOp → Bool
  | .processOrder cid order ts => providedTest e (.processOrder cid order ts)
  | _ => true

theorem addSucceeds_of_test (e : MatchEngine G) (op : EngineOp)
    (passed : addSucceedsTest e op = true) : AddSucceeds e op := by
  cases op with
  | processOrder cid order ts => exact provided_of_test e (.processOrder cid order ts) passed
  | _ => trivial

def takerThenMaker : List EngineOp :=
  [.registerContestant 0, .registerContestant 0, .processOrder 0 ⟨.sell, .limit, 1, 100, 2⟩ 0,
    .processOrder 1 ⟨.buy, .limit, 1, 100, 5⟩ 0, .processOrder 0 ⟨.sell, .ioc, 2, 100, 2⟩ 0]

theorem fill_messages_count_down_taker_maker :
    ∃ j, run (Journal.apply silentTick) ⟨MatchEngine.init .default (), []⟩ takerThenMaker = some j ∧
      run (EngineOp.apply silentTick) (MatchEngine.init .default ()) takerThenMaker =
        some j.engine ∧
      (∀ n ∈ notices j, n.id ∈ usedIds takerThenMaker) ∧
      ∀ cid order ts, EngineOp.processOrder cid order ts ∈ takerThenMaker →
        Tallies order.quantity (noticesOf (cid, order.clientOrderId) (notices j)) ∧
        ∀ s x, Resting j.engine.book s x → cellId j.engine.book x = (cid, order.clientOrderId) →
          restingQty j.engine.book x =
            order.quantity - toldQty (noticesOf (cid, order.clientOrderId) (notices j)) :=
  fill_messages_count_down silentTick () .default takerThenMaker (by decide)
    (obeys_of_test addSucceeds_of_test _ _ (by decide +kernel))

example : (run (Journal.apply silentTick) ⟨MatchEngine.init .default (), []⟩ takerThenMaker).map
    (fun j => noticesOf (1, 1) (notices j)) = some [⟨1, 1, 2, 3⟩, ⟨1, 1, 2, 1⟩] := by decide +kernel

end Runs

end HftGrading.Exchange.Engine.FillAccounts
