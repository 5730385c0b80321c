/- module: HftGrading/Exchange/Book/BookMasks
   source: exchange/include/exchange/orderbook.hpp
   digest: What matching and adding do not look at: owners, times, totals and the cache of the own side. -/

import HftGrading.Exchange.Book.MatchRounds

set_option autoImplicit false
set_option relaxedAutoImplicit false

namespace HftGrading.Exchange.Book.BookMasks

open Lib.PartialExecution WireProtocol PriceMap LimitBook LimitBook.OrderBook LevelSearch
open MatchRounds

def faceless (o : Order) : Order := { o with contestantId := 0, timestampNs := 0 }

def facelessPool (P : OrderPool) : OrderPool := { P with orders := fun x => faceless (P.orders x) }

def uncached (L : PriceLevelPool) : PriceLevelPool := { L with bestIdx := nullIndex }

/-- The book as an aggressor on side `own` sees it. -/
def masked (own : Side) (b : OrderBook) : OrderBook :=
  { b.withLevels own (uncached (b.levels own)) with
    pool := facelessPool b.pool
    totalOrders := 0
    totalFills := 0 }

def unowned (f : MatchResult) : MatchResult := { f with takerContestantId := 0 }

def maskedMatching (own : Side) (m : Matching) : Matching :=
  ⟨masked own m.book, m.fills.map unowned, m.remaining⟩

variable {own s : Side} {b : OrderBook}

@[simp] theorem masked_levels : (masked own b).levels own = uncached (b.levels own) := by
  cases own <;> rfl

@[simp] theorem masked_levels_contra : (masked own b).levels own.contra = b.levels own.contra := by
  cases own <;> rfl

@[simp] theorem masked_pool : (masked own b).pool = facelessPool b.pool := rfl

theorem masked_withLevels (L : PriceLevelPool) :
    masked own (b.withLevels own L) = (masked own b).withLevels own (uncached L) := by
  cases own <;> rfl

theorem masked_withLevels_contra (L : PriceLevelPool) :
    masked own (b.withLevels own.contra L) = (masked own b).withLevels own.contra L := by
  cases own <;> rfl

@[simp] theorem masked_masked : masked own (masked own b) = masked own b := by cases own <;> rfl

theorem masked_tally (n : Nat) : masked own { b with totalFills := n } = masked own b := by
  cases own <;> rfl

theorem masked_count (n : Nat) : masked own { b with totalOrders := n } = masked own b := by
  cases own <;> rfl

theorem masked_onPool {f g : OrderPool → OrderPool}
    (through : facelessPool (f b.pool) = g (facelessPool b.pool)) :
    masked own (b.onPool f) = (masked own b).onPool g := by
  cases own <;> simp [masked, onPool, withLevels, levels, through]

theorem facelessPool_modify (P : OrderPool) (x : Nat) {f g : Order → Order}
    (through : ∀ o, faceless (f o) = g (faceless o)) :
    facelessPool (P.modify x f) = (facelessPool P).modify x g := by
  unfold facelessPool OrderPool.modify
  congr 1
  funext y
  by_cases here : y = x
  · subst here
    simp [through]
  · simp [here]

theorem masked_free (x : Nat) :
    masked own (b.onPool (fun P => P.free x)) = (masked own b).onPool (fun P => P.free x) := by
  cases own <;> rfl

theorem masked_takeQty (lidx : Nat) (qty : Int) :
    masked own (b.takeQty s lidx qty) = (masked own b).takeQty s lidx qty := by
  cases own <;> cases s <;> rfl

theorem masked_dropCount (lidx : Nat) :
    masked own (b.dropCount s lidx) = (masked own b).dropCount s lidx := by
  cases own <;> cases s <;> rfl

theorem masked_skipNext (lidx oidx : Nat) :
    masked own (b.skipNext s lidx oidx) = (masked own b).skipNext s lidx oidx := by
  unfold skipNext
  by_cases inner : (b.pool.orders oidx).prev ≠ nullIndex
  · have inner' : ((masked own b).pool.orders oidx).prev ≠ nullIndex := inner
    rw [if_pos inner, if_pos inner']
    exact masked_onPool (facelessPool_modify b.pool _ (fun _ => rfl))
  · have inner' : ¬ ((masked own b).pool.orders oidx).prev ≠ nullIndex := inner
    rw [if_neg inner, if_neg inner']
    cases own <;> cases s <;> rfl

theorem masked_skipPrev (lidx oidx : Nat) :
    masked own (b.skipPrev s lidx oidx) = (masked own b).skipPrev s lidx oidx := by
  unfold skipPrev
  by_cases inner : (b.pool.orders oidx).next ≠ nullIndex
  · have inner' : ((masked own b).pool.orders oidx).next ≠ nullIndex := inner
    rw [if_pos inner, if_pos inner']
    exact masked_onPool (facelessPool_modify b.pool _ (fun _ => rfl))
  · have inner' : ¬ ((masked own b).pool.orders oidx).next ≠ nullIndex := inner
    rw [if_neg inner, if_neg inner']
    cases own <;> cases s <;> rfl

theorem masked_unlink (lidx oidx : Nat) :
    masked own (b.unlink s lidx oidx) = (masked own b).unlink s lidx oidx := by
  rw [unlink, masked_skipPrev, masked_skipNext, unlink]

theorem masked_hookLast (lidx oidx : Nat) :
    masked own (b.hookLast s lidx oidx) = (masked own b).hookLast s lidx oidx := by
  have tail : ((masked own b).levels s).tail = (b.levels s).tail := by cases own <;> cases s <;> rfl
  unfold hookLast
  rw [tail]
  by_cases nonempty : (b.levels s).tail lidx ≠ nullIndex
  · rw [if_pos nonempty, if_pos nonempty]
    apply masked_onPool
    have first : facelessPool (b.pool.modify ((b.levels s).tail lidx) (fun o => { o with next := oidx })) =
        (facelessPool b.pool).modify ((b.levels s).tail lidx) (fun o => { o with next := oidx }) :=
      facelessPool_modify _ _ (fun _ => rfl)
    rw [← first]
    exact facelessPool_modify _ _ (fun _ => rfl)
  · rw [if_neg nonempty, if_neg nonempty]
    cases own <;> cases s <;> rfl

theorem masked_append (lidx oidx : Nat) (quantity : Int) :
    masked own (b.append s lidx oidx quantity) = (masked own b).append s lidx oidx quantity := by
  unfold append
  rw [← masked_hookLast]
  cases own <;> cases s <;> rfl

theorem masked_closeIfEmpty (own : Side) (b : OrderBook) (lidx : Nat) :
    (b.closeIfEmpty own.contra lidx).map (masked own) =
      (masked own b).closeIfEmpty own.contra lidx := by
  unfold closeIfEmpty
  rw [masked_levels_contra]
  split_ifs
  · cases (b.levels own.contra).deactivate lidx with
    | none => rfl
    | some L => exact congrArg some (masked_withLevels_contra L)
  · rfl

theorem masked_fillStep (best cid oidx : Nat) (m : Matching) :
    maskedMatching own (fillStep s best cid oidx m) =
      fillStep s best 0 oidx (maskedMatching own m) := by
  generalize take : (if m.remaining < (m.book.pool.orders oidx).remainingQty then m.remaining
    else (m.book.pool.orders oidx).remainingQty) = qty
  have consumed : masked own ((m.book.onPool (fun P => P.modify oidx
      (fun o => { o with remainingQty := o.remainingQty - qty }))).takeQty s best qty) =
      ((masked own m.book).onPool (fun P => P.modify oidx
        (fun o => { o with remainingQty := o.remainingQty - qty }))).takeQty s best qty := by
    rw [masked_takeQty]
    exact congrArg (fun c => takeQty c s best qty)
      (masked_onPool (facelessPool_modify _ _ (fun _ => rfl)))
  have taken : (if (maskedMatching own m).remaining <
      ((maskedMatching own m).book.pool.orders oidx).remainingQty then (maskedMatching own m).remaining
      else ((maskedMatching own m).book.pool.orders oidx).remainingQty) = qty := take
  simp only [fillStep, take, taken]
  generalize used : (m.book.onPool (fun P => P.modify oidx
    (fun o => { o with remainingQty := o.remainingQty - qty }))).takeQty s best qty = b at consumed
  have cells : (masked own b).pool.orders oidx = faceless (b.pool.orders oidx) := rfl
  show maskedMatching own _ = (⟨_, _, _⟩ : Matching)
  unfold maskedMatching
  simp only [← consumed, List.map_append, List.map_cons, List.map_nil]
  congr 1
  by_cases gone : (b.pool.orders oidx).remainingQty = 0
  · have gone' : ((masked own b).pool.orders oidx).remainingQty = 0 := gone
    rw [if_pos gone, if_pos gone', masked_free, masked_dropCount, masked_unlink]
  · have gone' : ¬ ((masked own b).pool.orders oidx).remainingQty = 0 := gone
    rw [if_neg gone, if_neg gone']

theorem masked_matchLevel (own : Side) (best cid room oidx : Nat) (m : Matching) :
    maskedMatching own (matchLevel s best cid room oidx m) =
      matchLevel s best 0 room oidx (maskedMatching own m) := by
  induction room generalizing oidx m with
  | zero => rfl
  | succ room ih =>
    unfold matchLevel
    by_cases goes : oidx ≠ nullIndex ∧ 0 < m.remaining
    · have goes' : oidx ≠ nullIndex ∧ 0 < (maskedMatching own m).remaining := goes
      rw [if_pos goes, if_pos goes', ih, masked_fillStep]
      rfl
    · have goes' : ¬ (oidx ≠ nullIndex ∧ 0 < (maskedMatching own m).remaining) := goes
      rw [if_neg goes, if_neg goes']

theorem masked_matchRound (price : Int) (cid maxFills : Nat) (m : Matching) :
    (matchRound own price cid maxFills m).map (Sum.map (maskedMatching own) (maskedMatching own)) =
      matchRound own price 0 maxFills (maskedMatching own m) := by
  have made : (maskedMatching own m).fills.length = m.fills.length := List.length_map _
  have contra : (maskedMatching own m).book.levels own.contra = m.book.levels own.contra :=
    masked_levels_contra
  unfold matchRound
  rw [made, contra]
  by_cases goes : 0 < m.remaining ∧ m.fills.length < maxFills
  swap
  · have goes' : ¬ (0 < (maskedMatching own m).remaining ∧ m.fills.length < maxFills) := goes
    rw [if_neg goes, if_neg goes']
    rfl
  have goes' : 0 < (maskedMatching own m).remaining ∧ m.fills.length < maxFills := goes
  rw [if_pos goes, if_pos goes']
  obtain ⟨best, L⟩ := (m.book.levels own.contra).findBest own.contra
  simp only
  have looked : maskedMatching own ⟨m.book.withLevels own.contra L, m.fills, m.remaining⟩ =
      ⟨(maskedMatching own m).book.withLevels own.contra L, (maskedMatching own m).fills,
        (maskedMatching own m).remaining⟩ := by
    unfold maskedMatching
    rw [masked_withLevels_contra]
  split_ifs
  · exact congrArg (fun x => some (Sum.inr x)) looked
  · have walked := masked_matchLevel own (s := own.contra) best cid (maxFills - m.fills.length)
      (L.head best) ⟨m.book.withLevels own.contra L, m.fills, m.remaining⟩
    rw [made, ← looked, ← walked]
    generalize matchLevel own.contra best cid (maxFills - m.fills.length) (L.head best)
      ⟨m.book.withLevels own.contra L, m.fills, m.remaining⟩ = m₁
    have closes := masked_closeIfEmpty own m₁.book best
    show Option.map _ (Option.bind _ _) = Option.bind ((masked own m₁.book).closeIfEmpty _ _) _
    rw [← closes]
    cases m₁.book.closeIfEmpty own.contra best <;> rfl

/-- What a caller of `match` sees of the outcome, less the owners. -/
def maskedOutcome (own : Side) (r : List MatchResult × OrderBook) : List MatchResult × OrderBook :=
  (r.1.map unowned, masked own r.2)

theorem masked_matchOrder (price quantity : Int) (cid maxFills : Nat) :
    (b.matchOrder own price quantity cid maxFills).map (maskedOutcome own) =
      ((masked own b).matchOrder own price quantity 0 maxFills).map (maskedOutcome own) := by
  have fuel : (masked own b).matchFuel own maxFills = b.matchFuel own maxFills := by
    unfold matchFuel
    rw [masked_levels_contra]
  have loops := loop_map (matchRound own price cid maxFills) (matchRound own price 0 maxFills)
    (maskedMatching own) (maskedMatching own) (masked_matchRound price cid maxFills)
    (b.matchFuel own maxFills) ⟨b, [], quantity⟩
  unfold matchOrder
  rw [fuel]
  show Option.map _ (Option.bind _ _) =
    Option.map _ (Option.bind (loop _ _ (maskedMatching own ⟨b, [], quantity⟩)) _)
  rw [← loops]
  cases loop (matchRound own price cid maxFills) (b.matchFuel own maxFills) ⟨b, [], quantity⟩ with
  | none => rfl
  | some m =>
    simp only [Option.bind_some, Option.map_some, Option.pure_def, maskedOutcome, maskedMatching,
      masked_tally, masked_masked, List.map_map]
    rfl

theorem matchOrder_alike {b' : OrderBook} (alike : masked own b = masked own b')
    (price quantity : Int) (cid cid' maxFills : Nat) :
    (b.matchOrder own price quantity cid maxFills).map (maskedOutcome own) =
      (b'.matchOrder own price quantity cid' maxFills).map (maskedOutcome own) := by
  rw [masked_matchOrder price quantity cid, alike]
  exact (masked_matchOrder price quantity cid' maxFills).symm

theorem look_findBest (c : Side) :
    ((look b c).levels c).findBest c = (b.levels c).findBest c := by
  have best : (((look b c).levels c).findBest c).1 = ((b.levels c).findBest c).1 := by
    rw [look_levels]
    exact findBest_again c (b.levels c)
  refine Prod.ext best ?_
  rw [findBest_snd, best, look_levels, findBest_snd]

theorem matchOrder_look {price quantity : Int} {cid maxFills : Nat} (wanted : 0 < quantity)
    (room : 0 < maxFills) : (look b own.contra).matchOrder own price quantity cid maxFills =
      b.matchOrder own price quantity cid maxFills := by
  have fuel : (look b own.contra).matchFuel own maxFills = b.matchFuel own maxFills := by
    unfold matchFuel
    rw [look_levels]
  have again : ∀ L, (look b own.contra).withLevels own.contra L = b.withLevels own.contra L := by
    intro L
    cases own <;> rfl
  have first : matchRound own price cid maxFills ⟨look b own.contra, [], quantity⟩ =
      matchRound own price cid maxFills ⟨b, [], quantity⟩ := by
    have goes : 0 < quantity ∧ ([] : List MatchResult).length < maxFills := ⟨wanted, room⟩
    unfold matchRound
    rw [if_pos goes, if_pos goes]
    simp only [look_findBest, again]
  unfold matchOrder
  rw [fuel, matchFuel, loop, loop, first]

theorem uncached_updateBest (L : PriceLevelPool) (i : Nat) :
    uncached (L.updateBest s i) = uncached L := by
  unfold PriceLevelPool.updateBest
  split_ifs <;> rfl

theorem uncached_findOrCreate (L : PriceLevelPool) (price : Int) :
    (uncached L).findOrCreate price =
      (L.findOrCreate price).map (fun r => (r.1, uncached r.2)) := by
  unfold PriceLevelPool.findOrCreate
  show Option.bind (L.priceMap.find price) _ = Option.map _ (Option.bind (L.priceMap.find price) _)
  cases L.priceMap.find price with
  | none => rfl
  | some existing =>
    simp only [Option.bind_some]
    by_cases found : existing ≠ nullIndex ∧ L.active existing = true
    · rw [if_pos found, if_pos (show existing ≠ nullIndex ∧ (uncached L).active existing = true
        from found)]
      rfl
    · rw [if_neg found, if_neg (show ¬ (existing ≠ nullIndex ∧ (uncached L).active existing = true)
        from found)]
      by_cases full : L.capacity ≤ L.count
      · rw [if_pos full, if_pos (show (uncached L).capacity ≤ (uncached L).count from full)]
        rfl
      · rw [if_neg full, if_neg (show ¬ (uncached L).capacity ≤ (uncached L).count from full)]
        show Option.bind (L.priceMap.insert price L.count) _ =
          Option.map _ (Option.bind (L.priceMap.insert price L.count) _)
        cases L.priceMap.insert price L.count <;> rfl

theorem masked_updateBest (i : Nat) :
    masked own (b.onLevels own (fun L => L.updateBest own i)) = masked own b := by
  rw [onLevels_eq, masked_withLevels, uncached_updateBest]
  cases own <;> rfl

/-- What a caller of `add_order` sees of the outcome, less the owners. -/
def maskedAnswer (own : Side) (r : Nat × OrderBook) : Nat × OrderBook := (r.1, masked own r.2)

theorem masked_addOrder (cid : Nat) (client : UInt32) (price quantity : Int) (ts : Nat) :
    (b.addOrder cid client own price quantity ts).map (maskedAnswer own) =
      ((masked own b).addOrder 0 client own price quantity 0).map (maskedAnswer own) := by
  have alloc : (masked own b).pool.alloc = (b.pool.alloc.1, facelessPool b.pool.alloc.2) := by
    rw [masked_pool]
    unfold OrderPool.alloc
    by_cases empty : b.pool.freeTop = 0
    · rw [if_pos empty, if_pos (show (facelessPool b.pool).freeTop = 0 from empty)]
    · rw [if_neg empty, if_neg (show ¬ (facelessPool b.pool).freeTop = 0 from empty)]
      rfl
  unfold addOrder
  rw [alloc]
  obtain ⟨x, P⟩ := b.pool.alloc
  simp only
  by_cases exhausted : x = nullIndex
  · rw [if_pos exhausted, if_pos exhausted]
    simp only [Option.pure_def, Option.map_some, maskedAnswer, masked_masked]
  rw [if_neg exhausted, if_neg exhausted]
  generalize stampedCell : ({ b with
    pool := P.modify x (fillCell b.nextExchangeId cid client own price quantity ts)
    nextExchangeId := b.nextExchangeId + 1 } : OrderBook) = b₁
  have cells : facelessPool (P.modify x (fillCell b.nextExchangeId cid client own price quantity ts)) =
      (facelessPool P).modify x (fillCell b.nextExchangeId 0 client own price quantity 0) :=
    facelessPool_modify _ _ (fun _ => rfl)
  have stamped' : ({ masked own b with
      pool := (facelessPool P).modify x
        (fillCell (masked own b).nextExchangeId 0 client own price quantity 0)
      nextExchangeId := (masked own b).nextExchangeId + 1 } : OrderBook) = masked own b₁ := by
    rw [← stampedCell]
    cases own <;> simp [masked, withLevels, levels, cells]
  rw [stamped', masked_levels, uncached_findOrCreate]
  show Option.map _ (Option.bind _ _) = Option.map _ (Option.bind (Option.map _ _) _)
  cases (b₁.levels own).findOrCreate price with
  | none => rfl
  | some r =>
    obtain ⟨i, L⟩ := r
    simp only [Option.bind_some, Option.map_some]
    by_cases none : i = nullIndex
    · rw [if_pos none, if_pos none, ← masked_free]
      simp only [Option.pure_def, Option.map_some, maskedAnswer, masked_masked]
    · rw [if_neg none, if_neg none, ← masked_withLevels]
      have placed : masked own (((b₁.withLevels own L).onPool (fun P => P.modify x
          (fun o => { o with levelIdx := i }))).append own i x quantity) =
          ((masked own (b₁.withLevels own L)).onPool (fun P => P.modify x
            (fun o => { o with levelIdx := i }))).append own i x quantity := by
        rw [masked_append]
        exact congrArg (fun c => append c own i x quantity)
          (masked_onPool (facelessPool_modify _ _ (fun _ => rfl)))
      simp only [Option.pure_def, Option.map_some, maskedAnswer, masked_count, masked_updateBest]
      rw [← placed, masked_masked]

theorem append_withLevels_contra (L : PriceLevelPool) (lidx oidx : Nat) (quantity : Int) :
    (b.withLevels own.contra L).append own lidx oidx quantity =
      (b.append own lidx oidx quantity).withLevels own.contra L := by
  unfold append hookLast
  rw [levels_withLevels_contra]
  by_cases nonempty : (b.levels own).tail lidx ≠ nullIndex
  · rw [if_pos nonempty, if_pos nonempty]
    cases own <;> rfl
  · rw [if_neg nonempty, if_neg nonempty]
    cases own <;> rfl

theorem addOrder_withLevels_contra (L : PriceLevelPool) (cid : Nat) (client : UInt32)
    (price quantity : Int) (ts : Nat) :
    (b.withLevels own.contra L).addOrder cid client own price quantity ts =
      (b.addOrder cid client own price quantity ts).map
        (fun r => (r.1, r.2.withLevels own.contra L)) := by
  unfold addOrder
  rw [pool_withLevels]
  obtain ⟨x, P⟩ := b.pool.alloc
  simp only [nextExchangeId_withLevels]
  by_cases exhausted : x = nullIndex
  · rw [if_pos exhausted, if_pos exhausted]
    rfl
  rw [if_neg exhausted, if_neg exhausted]
  have levels : ({ b.withLevels own.contra L with
      pool := P.modify x (fillCell b.nextExchangeId cid client own price quantity ts)
      nextExchangeId := b.nextExchangeId + 1 } : OrderBook).levels own =
      ({ b with
        pool := P.modify x (fillCell b.nextExchangeId cid client own price quantity ts)
        nextExchangeId := b.nextExchangeId + 1 } : OrderBook).levels own := by
    cases own <;> rfl
  rw [levels]
  show Option.bind _ _ = Option.map _ (Option.bind _ _)
  cases PriceLevelPool.findOrCreate _ price with
  | none => rfl
  | some r =>
    obtain ⟨i, L'⟩ := r
    simp only [Option.bind_some]
    by_cases none : i = nullIndex
    · rw [if_pos none, if_pos none]
      cases own <;> rfl
    · rw [if_neg none, if_neg none]
      have placed : (((({ b.withLevels own.contra L with
          pool := P.modify x (fillCell b.nextExchangeId cid client own price quantity ts)
          nextExchangeId := b.nextExchangeId + 1 } : OrderBook).withLevels own L').onPool
            (fun P => P.modify x (fun o => { o with levelIdx := i }))).append own i x quantity) =
          (((({ b with
            pool := P.modify x (fillCell b.nextExchangeId cid client own price quantity ts)
            nextExchangeId := b.nextExchangeId + 1 } : OrderBook).withLevels own L').onPool
              (fun P => P.modify x (fun o => { o with levelIdx := i }))).append own i x
                quantity).withLevels own.contra L := by
        rw [← append_withLevels_contra]
        cases own <;> rfl
      simp only [placed]
      cases own <;> rfl

end HftGrading.Exchange.Book.BookMasks
