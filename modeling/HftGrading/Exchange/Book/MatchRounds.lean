/- module: HftGrading/Exchange/Book/MatchRounds
   source: exchange/include/exchange/orderbook.hpp
   digest: One round of the matching loop, and the invariant rule for the whole loop. -/

import HftGrading.Exchange.Book.LevelFilling
import HftGrading.Exchange.Book.LevelSearch

set_option autoImplicit false
set_option relaxedAutoImplicit false

namespace HftGrading.Exchange.Book.MatchRounds

open Function (update)
open Lib.PartialExecution Lib.PriceTimePriority WireProtocol PriceMap LimitBook
open LimitBook.OrderBook (Matching matchLevel matchRound beyondLimit)
open LevelSearch LevelQueue LevelFilling

variable {b b₁ b' : OrderBook} {c : Side} {i : Nat} {kept : List Nat}

def look (b : OrderBook) (c : Side) : OrderBook := b.withLevels c ((b.levels c).findBest c).2

@[simp] theorem look_levels :
    (look b c).levels c = { b.levels c with bestIdx := ((b.levels c).findBest c).1 } := by
  rw [look, OrderBook.levels_withLevels, findBest_snd]

@[simp] theorem look_levels_contra : (look b c).levels c.contra = b.levels c.contra := by
  simp [look]

@[simp] theorem look_pool : (look b c).pool = b.pool := by simp [look]

@[simp] theorem look_nextExchangeId : (look b c).nextExchangeId = b.nextExchangeId := by
  simp [look]

theorem freeSlots_look : freeSlots (look b c) = freeSlots b := by simp [freeSlots]

theorem lot_look : lot (look b c) = lot b := by
  funext x
  simp [lot, restingQty]

theorem look_levelRep {t : Side} {l : List Nat} (rep : LevelRep b t i l) :
    LevelRep (look b c) t i l := by
  rcases Side.eq_or_eq_contra c t with rfl | rfl <;> apply rep.congr <;> simp

theorem look_again (b : OrderBook) (c : Side) : look (look b c) c = look b c := by
  have same : (((look b c).levels c).findBest c).2 = (look b c).levels c := by
    rw [findBest_snd, look_levels]
    exact congrArg (fun r => { b.levels c with bestIdx := r }) (findBest_again c (b.levels c))
  rw [look, same]
  cases c <;> rfl

section Settling

/-- A level is closed exactly when its list has become empty. -/
inductive Settled (c : Side) (i : Nat) (kept : List Nat) (b₁ : OrderBook) : OrderBook → Prop
  | opened (some_left : kept ≠ []) : Settled c i kept b₁ b₁
  | closed (m : PriceHashMap) (none_left : kept = [])
      (removed : (b₁.levels c).priceMap.remove ((b₁.levels c).prices i) = some m)
      (mapped : Mapped (closed (b₁.levels c) i m)) :
      Settled c i kept b₁ (b₁.withLevels c (closed (b₁.levels c) i m))

theorem closeIfEmpty_settled (rep : LevelRep b₁ c i kept) (mapped : Mapped (b₁.levels c)) :
    ∃ b', b₁.closeIfEmpty c i = some b' ∧ Settled c i kept b₁ b' := by
  unfold OrderBook.closeIfEmpty
  split_ifs with empty
  · rw [rep.count, List.length_eq_zero_iff] at empty
    obtain ⟨m, removed, closing, mapped'⟩ := deactivate_returns mapped i
    exact ⟨_, by simp [closing], .closed m empty removed mapped'⟩
  · rw [rep.count, List.length_eq_zero_iff] at empty
    exact ⟨b₁, rfl, .opened empty⟩

variable (settled : Settled c i kept b₁ b')
include settled

theorem Settled.pool : b'.pool = b₁.pool := by
  cases settled <;> simp

theorem Settled.nextExchangeId : b'.nextExchangeId = b₁.nextExchangeId := by
  cases settled <;> simp

theorem Settled.contra : b'.levels c.contra = b₁.levels c.contra := by
  cases settled <;> simp

theorem Settled.levelRep {t : Side} {j : Nat} {l : List Nat} (rep : LevelRep b₁ t j l) :
    LevelRep b' t j l := by
  cases settled with
  | opened => exact rep
  | closed m =>
    rcases Side.eq_or_eq_contra c t with rfl | rfl
    · apply rep.congr <;> simp [LevelSearch.closed]
    · apply rep.congr <;> simp

theorem Settled.active_iff (j : Nat) : (b'.levels c).active j = true ↔
    (b₁.levels c).active j = true ∧ (j = i → kept ≠ []) := by
  cases settled with
  | opened some_left => simp [some_left]
  | closed m none_left =>
    by_cases e : j = i <;> simp [LevelSearch.closed, e, none_left]

theorem Settled.mapped (mapped : Mapped (b₁.levels c)) : Mapped (b'.levels c) := by
  cases settled with
  | opened => exact mapped
  | closed m _ _ mapped' => simpa using mapped'

theorem Settled.prices : (b'.levels c).prices = (b₁.levels c).prices := by
  cases settled <;> simp [LevelSearch.closed]

theorem Settled.totalQty : (b'.levels c).totalQty = (b₁.levels c).totalQty := by
  cases settled <;> simp [LevelSearch.closed]

theorem Settled.count : (b'.levels c).count = (b₁.levels c).count := by
  cases settled <;> simp [LevelSearch.closed]

theorem Settled.bestIdx : (b'.levels c).bestIdx =
    if kept = [] ∧ (b₁.levels c).bestIdx = i then nullIndex else (b₁.levels c).bestIdx := by
  cases settled with
  | opened some_left => simp [some_left]
  | closed m none_left => simp [LevelSearch.closed, none_left]

end Settling

section Rounds

variable {aggressor : Side} {price : Int} {cid maxFills : Nat} {Q : Nat → List Nat}
  {m m' : Matching}

/-- What a matching loop needs of the side it works on. -/
structure Ready (b : OrderBook) (c : Side) (Q : Nat → List Nat) : Prop where
  mapped : Mapped (b.levels c)
  level : ∀ i, (b.levels c).active i = true → LevelRep b c i (Q i)
  apart : ∀ i j, (b.levels c).active i = true → (b.levels c).active j = true → i ≠ j →
    ∀ x ∈ Q i, x ∉ Q j

def levelSweep (maxFills : Nat) (m : Matching) (l : List Nat) : Swept Nat Int :=
  sweep (fun _ => True) (maxFills - m.fills.length) m.remaining (l.map (lot m.book))

/-- A round that goes on: it has walked the list of level `best` and settled it. -/
structure Round (aggressor : Side) (price : Int) (cid maxFills : Nat) (Q : Nat → List Nat)
    (best : Nat) (gone kept : List Nat) (b₁ : OrderBook) (m m' : Matching) : Prop where
  wanted : 0 < m.remaining
  room : m.fills.length < maxFills
  found : ((m.book.levels aggressor.contra).findBest aggressor.contra).1 = best
  real : best ≠ nullIndex
  live : (m.book.levels aggressor.contra).active best = true
  stock : 0 < (m.book.levels aggressor.contra).totalQty best
  within : ¬ beyondLimit aggressor price ((m.book.levels aggressor.contra).prices best)
  shed : Shed aggressor.contra best (Q best) gone kept (look m.book aggressor.contra) b₁
  settled : Settled aggressor.contra best kept b₁ m'.book
  fills : m'.fills = m.fills ++ results cid (levelSweep maxFills m (Q best)).fills
  left : m'.remaining = (levelSweep maxFills m (Q best)).left
  rest : kept.map (lot b₁) = (levelSweep maxFills m (Q best)).rest

inductive Exit (aggressor : Side) (price : Int) (maxFills : Nat) (m : Matching) : Matching → Prop
  | sated (why : m.remaining ≤ 0 ∨ maxFills ≤ m.fills.length) : Exit aggressor price maxFills m m
  | blocked (wanted : 0 < m.remaining) (room : m.fills.length < maxFills)
      (why : ((m.book.levels aggressor.contra).findBest aggressor.contra).1 = nullIndex ∨
        beyondLimit aggressor price ((m.book.levels aggressor.contra).prices
          ((m.book.levels aggressor.contra).findBest aggressor.contra).1)) :
      Exit aggressor price maxFills m { m with book := look m.book aggressor.contra }

variable (ready : Ready m.book aggressor.contra Q)
include ready

theorem Ready.after {best : Nat} {gone : List Nat}
    (round : Round aggressor price cid maxFills Q best gone kept b₁ m m') :
    Ready m'.book aggressor.contra (update Q best kept) := by
  have frame := round.shed.frame
  have live : ∀ j, (m'.book.levels aggressor.contra).active j = true →
      (m.book.levels aggressor.contra).active j = true ∧ (j = best → kept ≠ []) := by
    intro j active
    obtain ⟨active, open_⟩ := (round.settled.active_iff j).mp active
    rw [frame.active, look_levels] at active
    exact ⟨active, open_⟩
  have sub : ∀ x ∈ kept, x ∈ Q best := fun x hx => round.shed.order.subset hx
  refine ⟨?_, ?_, ?_⟩
  · apply round.settled.mapped
    apply ready.mapped.congr
    · rw [frame.priceMap, look_levels]
    · rw [frame.count, look_levels]
    · rw [frame.prices, look_levels]
    · rw [frame.levelCapacity, look_levels]
  · intro j active
    obtain ⟨active, -⟩ := live j active
    apply round.settled.levelRep
    by_cases e : j = best
    · subst e
      rw [Function.update_self]
      exact round.shed.rep
    · rw [Function.update_of_ne e]
      refine frame.levelRep (look_levelRep (ready.level j active)) (Or.inr e) ?_
      exact ready.apart j best active round.live e
  · intro j k active active' other x hx hx'
    obtain ⟨active, -⟩ := live j active
    obtain ⟨active', -⟩ := live k active'
    refine ready.apart j k active active' other x ?_ ?_
    · by_cases e : j = best
      · subst e
        exact sub x (by simpa using hx)
      · simpa [e] using hx
    · by_cases e : k = best
      · subst e
        exact sub x (by simpa using hx')
      · simpa [e] using hx'

variable (price cid maxFills) in
theorem matchRound_spec :
    (∃ m', matchRound aggressor price cid maxFills m = some (.inr m') ∧
        Exit aggressor price maxFills m m') ∨
      ∃ best gone kept b₁ m', matchRound aggressor price cid maxFills m = some (.inl m') ∧
        Round aggressor price cid maxFills Q best gone kept b₁ m m' := by
  by_cases go : 0 < m.remaining ∧ m.fills.length < maxFills
  swap
  · refine Or.inl ⟨m, by simp only [matchRound, if_neg go], .sated ?_⟩
    omega
  generalize found : ((m.book.levels aggressor.contra).findBest aggressor.contra).1 = best
  have pair : (m.book.levels aggressor.contra).findBest aggressor.contra =
      (best, { m.book.levels aggressor.contra with bestIdx := best }) := by
    rw [← found, ← findBest_snd]
  have looked : m.book.withLevels aggressor.contra
      { m.book.levels aggressor.contra with bestIdx := best } = look m.book aggressor.contra := by
    rw [look, pair]
  by_cases stop : best = nullIndex ∨
      beyondLimit aggressor price ((m.book.levels aggressor.contra).prices best)
  · left
    refine ⟨{ m with book := look m.book aggressor.contra }, ?_, .blocked go.1 go.2 ?_⟩
    · simp only [matchRound, if_pos go, pair, if_pos stop, looked]
    · rw [found]
      exact stop
  right
  obtain ⟨real, within⟩ := not_or.mp stop
  obtain ⟨live, stock⟩ := (findBest_live aggressor.contra
    (m.book.levels aggressor.contra)).resolve_left (found ▸ real)
  rw [found] at live stock
  have rep := look_levelRep (c := aggressor.contra) (ready.level best live)
  have mapped : Mapped ((look m.book aggressor.contra).levels aggressor.contra) := by
    rw [look_levels]
    exact ready.mapped.congr rfl rfl rfl rfl
  have head : (m.book.levels aggressor.contra).head best = (Q best).headD nullIndex :=
    (ready.level best live).head
  obtain ⟨fills, left, gone, kept, shed, rest⟩ := matchLevel_sweep cid
    (maxFills - m.fills.length) ⟨look m.book aggressor.contra, m.fills, m.remaining⟩ (Q best) rep
  rw [lot_look] at fills left rest
  have frame := shed.frame
  obtain ⟨b', closing, settled⟩ := closeIfEmpty_settled shed.rep
    (mapped.congr frame.priceMap frame.count frame.prices frame.levelCapacity)
  refine ⟨best, gone, kept, _, ⟨b', _, _⟩, ?_, go.1, go.2, found, real, live, stock, within,
    shed, settled, fills, left, rest⟩
  simp only [matchRound, if_pos go, pair, if_neg stop, looked, head, closing]
  rfl

theorem Ready.nonempty {best : Nat} {gone : List Nat}
    (round : Round aggressor price cid maxFills Q best gone kept b₁ m m') : Q best ≠ [] := by
  intro none
  have stock := round.stock
  rw [(ready.level best round.live).total, none] at stock
  simp [wrap32] at stock

theorem Ready.progress {best : Nat} {gone : List Nat}
    (round : Round aggressor price cid maxFills Q best gone kept b₁ m m') :
    m.fills.length < m'.fills.length ∧ m'.fills.length ≤ maxFills := by
  have room := round.room
  have bound := sweep_fills_length (fun _ : Int => True) (maxFills - m.fills.length) m.remaining
    ((Q best).map (lot m.book))
  have some_fill : 0 < (levelSweep maxFills m (Q best)).fills.length := by
    obtain ⟨n, hn⟩ : ∃ n, maxFills - m.fills.length = n + 1 :=
      ⟨maxFills - m.fills.length - 1, by omega⟩
    obtain ⟨x, l, list⟩ := List.exists_cons_of_ne_nil (ready.nonempty round)
    rw [levelSweep, hn, list, List.map_cons]
    exact sweep_progress round.wanted trivial
  rw [round.fills, List.length_append, results, List.length_map]
  unfold levelSweep at some_fill ⊢
  omega

end Rounds

section Loop

variable {aggressor : Side} {price : Int} {cid maxFills : Nat}

theorem matchOrder_returns (I : (Nat → List Nat) → Matching → Prop)
    (ready : ∀ Q m, I Q m → Ready m.book aggressor.contra Q)
    (keep : ∀ Q m best gone kept b₁ m', I Q m →
      Round aggressor price cid maxFills Q best gone kept b₁ m m' → I (update Q best kept) m')
    (b : OrderBook) (quantity : Int) (Q : Nat → List Nat) (start : I Q ⟨b, [], quantity⟩) :
    ∃ Q' m m', b.matchOrder aggressor price quantity cid maxFills =
        some (m'.fills, { m'.book with totalFills := m'.book.totalFills + m'.fills.length }) ∧
      I Q' m ∧ Exit aggressor price maxFills m m' := by
  have round : ∀ m, (∃ Q, I Q m) →
      (∃ m', matchRound aggressor price cid maxFills m = some (.inl m') ∧ (∃ Q, I Q m') ∧
          maxFills - m'.fills.length < maxFills - m.fills.length) ∨
        ∃ r, matchRound aggressor price cid maxFills m = some (.inr r) ∧
          ∃ Q m, I Q m ∧ Exit aggressor price maxFills m r := by
    rintro m ⟨Q, inv⟩
    rcases matchRound_spec price cid maxFills (ready Q m inv) with ⟨m', leave, exit⟩ | ⟨best, gone, kept, b₁, m', move, round⟩
    · exact Or.inr ⟨m', leave, Q, m, inv, exit⟩
    · have progress := (ready Q m inv).progress round
      exact Or.inl ⟨m', move, ⟨_, keep Q m best gone kept b₁ m' inv round⟩, by omega⟩
  obtain ⟨r, run, Q', m, inv, exit⟩ := loop_returns (matchRound aggressor price cid maxFills)
    (fun m => ∃ Q, I Q m) (fun m => maxFills - m.fills.length) _ round
    (b.matchFuel aggressor maxFills) ⟨b, [], quantity⟩ ⟨Q, start⟩
    (by simp only [OrderBook.matchFuel, List.length_nil]; omega)
  exact ⟨Q', m, r, by simp [OrderBook.matchOrder, run], inv, exit⟩

end Loop

end HftGrading.Exchange.Book.MatchRounds
