/- module: HftGrading/Exchange/Book/Conservation
   source: exchange/include/exchange/orderbook.hpp
   digest: What is added to a side still rests there, has been filled or has been cancelled. -/

import HftGrading.Exchange.Book.BookRuns
import Mathlib.Algebra.Order.BigOperators.Group.Finset
import Mathlib.Algebra.Order.Ring.Int

set_option autoImplicit false
set_option relaxedAutoImplicit false

namespace HftGrading.Exchange.Book.Conservation

open Function (update)
open Lib.PartialExecution Lib.PriceTimePriority WireProtocol PriceMap LimitBook
open LimitBook.OrderBook (MatchResult)
open LevelSearch LevelQueue LevelFilling MatchRounds BookRep BookRuns
open scoped BigOperators

variable {b b' : OrderBook} {Q Q' : Queues} {s t : Side} {w : Nat → Int}

theorem weighed_nonneg (rep : Rep b Q) (nonneg : ∀ x, 0 ≤ w x) : 0 ≤ weighed b Q s w := by
  refine Finset.sum_nonneg (fun i _ => List.sum_nonneg ?_)
  intro q hq
  obtain ⟨x, hx, rfl⟩ := List.mem_map.mp hq
  exact mul_nonneg (nonneg x) ((rep.level s i).resting x hx).le

theorem weighed_drains (rep : Rep b Q) (nonneg : ∀ x, 0 ≤ w x) (drains : Drains Q b Q' b') (t : Side) :
    weighed b' Q' t w ≤ weighed b Q t w := by
  induction drains with
  | refl => exact le_rfl
  | look _ c ih =>
    rw [weighed_look]
    exact ih
  | tally _ n ih =>
    rw [weighed_tally]
    exact ih
  | @shed Q₁ b₁ b₂ b₃ c i gone kept before nonempty shed settled ih =>
    have rep₁ := before.rep rep
    rcases Side.eq_or_eq_contra c t with rfl | rfl
    · have settle := weighed_settle (w := w) rep₁ shed settled nonempty
      have less : (kept.map (fun x => w x * restingQty b₃ x)).sum ≤
          ((Q₁ t i).map (fun x => w x * restingQty b₁ x)).sum := by
        calc (kept.map (fun x => w x * restingQty b₃ x)).sum
            ≤ (kept.map (fun x => w x * restingQty b₁ x)).sum := by
              refine List.sum_le_sum (fun x hx => ?_)
              have lower := shed.lower x (shed.order.subset hx)
              rw [restingQty, ← settled.pool] at lower
              exact mul_le_mul_of_nonneg_left lower (nonneg x)
          _ ≤ ((Q₁ t i).map (fun x => w x * restingQty b₁ x)).sum := by
              apply (shed.order.map _).sum_le_sum
              intro q hq
              obtain ⟨x, hx, rfl⟩ := List.mem_map.mp hq
              exact mul_nonneg (nonneg x) ((rep₁.level t i).resting x hx).le
      omega
    · rw [weighed_settle_contra rep₁ shed settled]
      exact ih

theorem weighed_range (rep : Rep b Q) {n : Nat} (enough : (b.levels s).count ≤ n) :
    weighed b Q s w = ∑ i ∈ Finset.range n, ((Q s i).map (fun x => w x * restingQty b x)).sum := by
  refine Finset.sum_subset (Finset.range_subset_range.mpr enough) (fun i _ beyond => ?_)
  have empty : Q s i = [] := by
    by_contra listed
    exact beyond (Finset.mem_range.mpr (rep.bound s i listed))
  rw [empty]
  rfl

section Resting

variable {cid ts x i : Nat} {client : UInt32} {price quantity : Int} {L : PriceLevelPool}
  {w' : Nat → Int} (rep : Rep b Q) (top : ∃ rest, freeSlots b = rest ++ [x])
  (located : Located (b.levels s) price i L) (real : i ≠ nullIndex)
  (same : ∀ y, y ≠ x → w' y = w y)
include rep top same

theorem rests_old (t : Side) (j : Nat) : (Q t j).map
      (fun y => w' y * restingQty (rested b cid client s price quantity ts x i L) y) =
    (Q t j).map (fun y => w y * restingQty b y) := by
  refine List.map_congr_left (fun y hy => ?_)
  have other : y ≠ x := fun e => (rep.top_free top).2 t j (e ▸ hy)
  rw [rested_qty, if_neg other, same y other]

theorem weighed_rests_contra : weighed (rested b cid client s price quantity ts x i L)
      (place Q s i (Q s i ++ [x])) s.contra w' = weighed b Q s.contra w := by
  rw [weighed, weighed, rested_contra_eq]
  refine Finset.sum_congr rfl (fun j _ => ?_)
  rw [place_other (Or.inl s.contra_ne), rests_old rep top same]

include located real

theorem weighed_rests : weighed (rested b cid client s price quantity ts x i L)
      (place Q s i (Q s i ++ [x])) s w' = weighed b Q s w + w' x * quantity := by
  have joined : Joined s i L ((rested b cid client s price quantity ts x i L).levels s) :=
    rested_joined rep top located real
  have member : i ∈ Finset.range L.count := Finset.mem_range.mpr (located_active located real).1
  rw [weighed_range rep (located_count located), weighed, joined.count,
    ← Finset.add_sum_erase _ _ member, ← Finset.add_sum_erase _ _ member, place_self]
  have others : ∑ j ∈ (Finset.range L.count).erase i, ((place Q s i (Q s i ++ [x]) s j).map
      (fun y => w' y * restingQty (rested b cid client s price quantity ts x i L) y)).sum =
      ∑ j ∈ (Finset.range L.count).erase i, ((Q s j).map (fun y => w y * restingQty b y)).sum := by
    refine Finset.sum_congr rfl (fun j hj => ?_)
    rw [place_other (Or.inr (Finset.mem_erase.mp hj).1), rests_old rep top same]
  rw [others, List.map_append, List.sum_append, rests_old rep top same]
  simp only [List.map_cons, List.map_nil, List.sum_cons, List.sum_nil, rested_qty, if_true]
  omega

end Resting

theorem weighed_refused (rep : Rep b Q) {cid ts x : Nat} {client : UInt32} {price quantity : Int}
    (top : ∃ rest, freeSlots b = rest ++ [x]) (t : Side) :
    weighed ((stamped b cid client s price quantity ts x).onPool (fun P => P.free x)) Q t w =
      weighed b Q t w := by
  refine weighed_congr (by cases t <;> rfl) (fun _ => rfl) (fun i y hy => ?_)
  have other : y ≠ x := fun e => (rep.top_free top).2 t i (e ▸ hy)
  simp [restingQty, stamped, other]

theorem weighed_erase {b₁ : OrderBook} {i x : Nat} (rep : Rep b Q) (hx : x ∈ Q s i)
    (shed : Shed s i (Q s i) [x] ((Q s i).erase x) b b₁)
    (settled : Settled s i ((Q s i).erase x) b₁ b')
    (others : ∀ y, y ≠ x → restingQty b' y = restingQty b y) :
    weighed b' (place Q s i ((Q s i).erase x)) s w + w x * restingQty b x = weighed b Q s w := by
  have settle := weighed_settle (w := w) rep shed settled (List.ne_nil_of_mem hx)
  have taken := List.sum_map_erase (fun y => w y * restingQty b y) hx
  have kept : ((Q s i).erase x).map (fun y => w y * restingQty b' y) =
      ((Q s i).erase x).map (fun y => w y * restingQty b y) := by
    refine List.map_congr_left (fun y hy => ?_)
    have other : y ≠ x := by
      rintro rfl
      exact (rep.level s i).nodup.not_mem_erase hy
    rw [others y other]
  rw [kept] at settle
  omega

section Makers

variable {aggressor : Side} {price quantity : Int} {cid maxFills x i : Nat}
  {fills : List MatchResult} {before : OrderBook}

def single (x y : Nat) : Int := if y = x then 1 else 0

theorem weighed_single (rep : Rep b Q) (hx : x ∈ Q s i) :
    weighed b Q s (single x) = restingQty b x := by
  have own : ((Q s i).map (fun y => single x y * restingQty b y)).sum = restingQty b x := by
    have taken := List.sum_map_erase (fun y => single x y * restingQty b y) hx
    have others : (((Q s i).erase x).map (fun y => single x y * restingQty b y)).sum = 0 := by
      refine List.sum_eq_zero (fun q hq => ?_)
      obtain ⟨y, hy, rfl⟩ := List.mem_map.mp hq
      have other : y ≠ x := by
        rintro rfl
        exact (rep.level s i).nodup.not_mem_erase hy
      rw [single, if_neg other, zero_mul]
    rw [others, single, if_pos rfl, one_mul, add_zero] at taken
    exact taken.symm
  rw [weighed, Finset.sum_eq_single i, own]
  · intro j _ other
    refine List.sum_eq_zero (fun q hq => ?_)
    obtain ⟨y, hy, rfl⟩ := List.mem_map.mp hq
    have apart : y ≠ x := by
      rintro rfl
      exact other (rep.apart hx hy).2
    rw [single, if_neg apart, zero_mul]
  · intro beyond
    exact absurd (Finset.mem_range.mpr (rep.bound s i (List.ne_nil_of_mem hx))) beyond

theorem weighed_absent (absent : ∀ i, x ∉ Q s i) : weighed b Q s (single x) = 0 := by
  refine Finset.sum_eq_zero (fun i _ => List.sum_eq_zero (fun q hq => ?_))
  obtain ⟨y, hy, rfl⟩ := List.mem_map.mp hq
  have apart : y ≠ x := by
    rintro rfl
    exact absent i hy
  rw [single, if_neg apart, zero_mul]

def takenFrom (fills : List MatchResult) (x : Nat) : Int :=
  (fills.map (fun f => single x f.makerIdx * f.fillQty)).sum

theorem takenFrom_eq_zero (other : ∀ f ∈ fills, f.makerIdx ≠ x) : takenFrom fills x = 0 := by
  refine List.sum_eq_zero (fun q hq => ?_)
  obtain ⟨f, hf, rfl⟩ := List.mem_map.mp hq
  rw [single, if_neg (other f hf), zero_mul]

theorem matched_resting_left (rep : Rep b Q)
    (matched : Matched Q b aggressor price quantity cid maxFills Q' fills before b')
    (hx : x ∈ Q s i) : restingQty b' x + takenFrom fills x = restingQty b x := by
  have rep' := matched.drained.rep rep
  rcases Side.eq_or_eq_contra aggressor s with rfl | rfl
  · have none : takenFrom fills x = 0 := by
      refine takenFrom_eq_zero (fun f hf => ?_)
      obtain ⟨j, maker⟩ := matched.makers f hf
      rintro rfl
      exact Side.contra_ne s (rep.apart hx maker).1
    have own := matched.ownWeight (single x)
    rw [weighed_single rep hx, weighed_single rep' (matched.ownQueues ▸ hx)] at own
    rw [none, own, add_zero]
  · have balance := matched.balance (single x)
    rw [weighed_single rep hx, ← takenFrom] at balance
    by_cases listed : ∃ j, x ∈ Q' aggressor.contra j
    · obtain ⟨j, hj⟩ := listed
      rwa [weighed_single rep' hj] at balance
    · have absent : ∀ j, x ∉ Q' aggressor.contra j := fun j hj => listed ⟨j, hj⟩
      have unlisted : ∀ t j, x ∉ Q' t j := by
        intro t j hj
        rcases Side.eq_or_eq_contra aggressor t with rfl | rfl
        · rw [matched.ownQueues] at hj
          exact Side.contra_ne t (rep.apart hj hx).1
        · exact absent j hj
      have nothing : restingQty b' x = 0 :=
        (matched.drained.unlisted x unlisted).resolve_right (fun h => h.1 _ i hx)
      rw [weighed_absent absent] at balance
      rw [nothing, balance]

theorem matched_left_nonneg (rep : Rep b Q)
    (matched : Matched Q b aggressor price quantity cid maxFills Q' fills before b')
    (hx : x ∈ Q s i) : 0 ≤ restingQty b' x := by
  by_cases listed : ∃ t k, x ∈ Q' t k
  · obtain ⟨t, k, hk⟩ := listed
    exact (((matched.drained.rep rep).level t k).resting x hk).le
  · have nothing := (matched.drained.unlisted x (fun t k hk => listed ⟨t, k, hk⟩)).resolve_right
      (fun h => h.1 s i hx)
    exact nothing.ge

private structure Once (Q : Queues) (aggressor : Side) (R : Nat → List Nat)
    (m : OrderBook.Matching) : Prop where
  rep : Rep m.book (update Q aggressor.contra R)
  nodup : (m.fills.map MatchResult.makerIdx).Nodup
  gone : 0 < m.remaining → ∀ f ∈ m.fills, ∀ j, f.makerIdx ∉ R j

private theorem once_round {R : Nat → List Nat} {m m' : OrderBook.Matching} {best : Nat}
    {gone kept : List Nat} {b₁ : OrderBook} (once : Once Q aggressor R m)
    (round : Round aggressor price cid maxFills R best gone kept b₁ m m') :
    Once Q aggressor (update R best kept) m' := by
  have level : LevelRep m.book aggressor.contra best (R best) := by
    have := once.rep.level aggressor.contra best
    simpa using this
  have refs : ∀ c : OrderBook, ∀ l : List Nat, (l.map (lot c)).map Lot.ref = l := by
    intro c l
    rw [List.map_map]
    exact List.map_id l
  have made : (results cid (levelSweep maxFills m (R best)).fills).map MatchResult.makerIdx =
      (levelSweep maxFills m (R best)).fills.map Lot.ref := by
    rw [results, List.map_map]
    rfl
  have front := sweep_fills_front (fun _ : Int => True) (maxFills - m.fills.length) m.remaining
    ((R best).map (lot m.book))
  rw [refs, ← levelSweep, ← made] at front
  have old := once.gone round.wanted
  refine ⟨once.rep.round round, ?_, ?_⟩
  · rw [round.fills, List.map_append]
    refine List.nodup_append.mpr ⟨once.nodup, front.sublist.nodup level.nodup, ?_⟩
    intro x hx y hy
    obtain ⟨f, hf, rfl⟩ := List.mem_map.mp hx
    rintro rfl
    exact old f hf best (front.subset hy)
  · intro wanted f hf j
    rw [round.fills, List.mem_append] at hf
    by_cases here : j = best
    · subst here
      rw [Function.update_self]
      rcases hf with hf | hf
      · exact fun hk => old f hf j (round.shed.order.subset hk)
      · -- More is wanted, so the new makers are the front part that has gone.
        rw [round.left] at wanted
        have split := congrArg (List.map Lot.ref) (sweep_split (fun _ : Int => True)
          (maxFills - m.fills.length) m.remaining ((R j).map (lot m.book)) wanted)
        rw [List.map_append, refs, ← levelSweep, ← made, ← round.rest, refs] at split
        have nodup := level.nodup
        rw [← split] at nodup
        intro hk
        exact (List.nodup_append.mp nodup).2.2 _ (List.mem_map_of_mem hf) _ hk rfl
    · rw [Function.update_of_ne here]
      rcases hf with hf | hf
      · exact old f hf j
      · intro hj
        have hf' := front.subset (List.mem_map_of_mem hf)
        have both := once.rep.apart (s := aggressor.contra) (t := aggressor.contra) (i := best)
          (j := j) (by simpa using hf') (by simpa using hj)
        exact here both.2

theorem matchOrder_once (rep : Rep b Q) (price : Int)
    (returns : b.matchOrder aggressor price quantity cid maxFills = some (fills, b')) :
    (fills.map MatchResult.makerIdx).Nodup := by
  have start : Once Q aggressor (Q aggressor.contra) ⟨b, [], quantity⟩ :=
    ⟨by simpa using rep, List.nodup_nil, by simp⟩
  obtain ⟨R, m, m', run, once, exit⟩ := matchOrder_returns (Once Q aggressor)
    (fun R m once => by simpa using once.rep.ready aggressor.contra)
    (fun R m best gone kept b₁ m' once round => once_round once round)
    b quantity (Q aggressor.contra) start
  rw [returns] at run
  cases run
  cases exit <;> exact once.nodup

theorem takenFrom_maker (once : (fills.map MatchResult.makerIdx).Nodup) {f : MatchResult}
    (hf : f ∈ fills) : takenFrom fills f.makerIdx = f.fillQty := by
  induction fills with
  | nil => cases hf
  | cons g fills ih =>
    rw [List.map_cons, List.nodup_cons] at once
    rw [takenFrom, List.map_cons, List.sum_cons, ← takenFrom]
    rcases List.mem_cons.mp hf with rfl | hf
    · have none : takenFrom fills f.makerIdx = 0 := takenFrom_eq_zero (fun g hg same =>
        once.1 (same ▸ List.mem_map_of_mem hg))
      rw [none, single, if_pos rfl, one_mul, add_zero]
    · have other : g.makerIdx ≠ f.makerIdx := fun same =>
        once.1 (same ▸ List.mem_map_of_mem hf)
      rw [ih once.2 hf, single, if_neg other, zero_mul, zero_add]

end Makers

section Ledgers

theorem sideQty_eq (rep : Rep b Q) (s : Side) : sideQty b s = weighed b Q s (fun _ => 1) := by
  have level : levelQty b s = fun i => ((Q s i).map (fun x => 1 * restingQty b x)).sum := by
    funext i
    rw [levelQty, rep.queue_eq]
    simp only [one_mul]
  rw [sideQty, level]
  rfl

structure Ledger where
  book : OrderBook
  added : Side → Int
  filled : Side → Int
  cancelled : Side → Int

def Ledger.init : Ledger := ⟨OrderBook.init, fun _ => 0, fun _ => 0, fun _ => 0⟩

def makerSideQty (b : OrderBook) (fills : List MatchResult) (s : Side) : Int :=
  ((fills.filter (fun f => decide ((b.pool.orders f.makerIdx).side = s))).map
    MatchResult.fillQty).sum

/-- One operation on the book, entered in the ledger: successful orders with their
quantity, fills under the side of their maker, cancelled orders with what they
had left. -/
def Ledger.apply (l : Ledger) : BookOp → Option Ledger
  | .addOrder cid client side price quantity ts => do
      let (r, book) ← l.book.addOrder cid client side price quantity ts
      return { l with
        book := book
        added := if r = nullIndex then l.added
          else update l.added side (l.added side + quantity) }
  | .cancelOrder x => do
      let (done, book) ← l.book.cancelOrder x
      let o := l.book.pool.orders x
      return { l with
        book := book
        cancelled := if done then update l.cancelled o.side (l.cancelled o.side + o.remainingQty)
          else l.cancelled }
  | .matchOrder aggressor price quantity cid maxFills => do
      let (fills, book) ← l.book.matchOrder aggressor price quantity cid maxFills
      return { l with
        book := book
        filled := fun s => l.filled s + makerSideQty l.book fills s }
  | op => do
      let book ← op.apply l.book
      return { l with book := book }

theorem ledger_book (l : Ledger) (op : BookOp) : (l.apply op).map Ledger.book = op.apply l.book := by
  cases op with
  | addOrder cid client side price quantity ts =>
    simp only [Ledger.apply, BookOp.apply]
    cases l.book.addOrder cid client side price quantity ts <;> rfl
  | cancelOrder x =>
    simp only [Ledger.apply, BookOp.apply]
    cases l.book.cancelOrder x <;> rfl
  | matchOrder aggressor price quantity cid maxFills =>
    simp only [Ledger.apply, BookOp.apply]
    cases l.book.matchOrder aggressor price quantity cid maxFills <;> rfl
  | _ => rfl

def Balanced (l : Ledger) (Q : Queues) : Prop :=
  ∀ s, l.added s = weighed l.book Q s (fun _ => 1) + l.filled s + l.cancelled s

variable {l : Ledger}

theorem makerSideQty_matched {aggressor : Side} {price quantity : Int} {cid maxFills : Nat}
    {fills : List MatchResult} {before : OrderBook} (rep : Rep b Q)
    (matched : Matched Q b aggressor price quantity cid maxFills Q' fills before b') (s : Side) :
    makerSideQty b fills s =
      if s = aggressor.contra then (fills.map MatchResult.fillQty).sum else 0 := by
  have side : ∀ f ∈ fills, (b.pool.orders f.makerIdx).side = aggressor.contra := by
    intro f hf
    obtain ⟨i, listed⟩ := matched.makers f hf
    exact (rep.level _ i).side _ listed
  unfold makerSideQty
  split_ifs with same
  · subst same
    rw [List.filter_eq_self.mpr (fun f hf => decide_eq_true (side f hf))]
  · rw [List.filter_eq_nil_iff.mpr (fun f hf => by simpa [side f hf] using Ne.symm same)]
    rfl

private theorem balanced_add (rep : Rep l.book Q) (balanced : Balanced l Q) (cid : Nat)
    (client : UInt32) (side : Side) (price quantity : Int) (ts : Nat) (positive : 0 < quantity) :
    ∃ l', l.apply (.addOrder cid client side price quantity ts) = some l' ∧
      ∃ Q', Rep l'.book Q' ∧ Balanced l' Q' := by
  obtain ⟨r, b', run, added⟩ := addOrder_added cid client side price quantity ts rep
  refine ⟨_, by simp [Ledger.apply, run]; rfl, ?_⟩
  cases added with
  | exhausted => exact ⟨Q, rep, by simpa using balanced⟩
  | unleveled x top =>
    refine ⟨Q, rep.unleveled top, fun s => ?_⟩
    simp only [if_true, weighed_refused rep top]
    exact balanced s
  | rests x i L top located real =>
    refine ⟨_, rep.rests positive top located real, fun s => ?_⟩
    have here := balanced s
    simp only [(rep.top_lt top).ne, if_false]
    rcases Side.eq_or_eq_contra side s with rfl | rfl
    · rw [Function.update_self, weighed_rests rep top located real (w := fun _ => 1)
        (fun _ _ => rfl)]
      omega
    · rw [Function.update_of_ne side.contra_ne, weighed_rests_contra rep top (w := fun _ => 1)
        (fun _ _ => rfl)]
      exact here

private theorem balanced_cancel (rep : Rep l.book Q) (balanced : Balanced l Q) {i x : Nat}
    (hx : x ∈ Q s i) :
    ∃ l', l.apply (.cancelOrder x) = some l' ∧ ∃ Q', Rep l'.book Q' ∧ Balanced l' Q' := by
  obtain ⟨b₁, b', run, shed, settled, others, rep'⟩ := rep.cancelOrder hx
  have side := (rep.level s i).side x hx
  refine ⟨_, by simp [Ledger.apply, run, side]; rfl, _, rep', fun t => ?_⟩
  have here := balanced t
  rcases Side.eq_or_eq_contra s t with rfl | rfl
  · have taken := weighed_erase (w := fun _ => 1) rep hx shed settled others
    simp only [Function.update_self]
    change _ = _ + _ + (_ + restingQty l.book x)
    omega
  · have kept := weighed_settle_contra (w := fun _ => 1) rep shed settled
    simp only [Function.update_of_ne s.contra_ne, kept]
    exact here

private theorem balanced_match (rep : Rep l.book Q) (balanced : Balanced l Q) (aggressor : Side)
    (price quantity : Int) (cid maxFills : Nat) :
    ∃ l', l.apply (.matchOrder aggressor price quantity cid maxFills) = some l' ∧
      ∃ Q', Rep l'.book Q' ∧ Balanced l' Q' := by
  obtain ⟨Q', fills, before, b', run, matched⟩ :=
    matchOrder_matched rep aggressor price quantity cid maxFills
  refine ⟨_, by simp [Ledger.apply, run]; rfl, Q', matched.drained.rep rep, fun s => ?_⟩
  have here := balanced s
  simp only [makerSideQty_matched rep matched]
  rcases Side.eq_or_eq_contra aggressor s with rfl | rfl
  · have own := matched.ownWeight (fun _ => 1)
    rw [if_neg (Side.contra_ne s).symm, own]
    omega
  · have balance := matched.balance (fun _ => 1)
    simp only [one_mul] at balance
    rw [if_pos rfl]
    change _ = _ + (_ + (fills.map (fun f => f.fillQty)).sum) + _
    omega

private theorem balanced_look (rep : Rep l.book Q) (balanced : Balanced l Q) (s : Side) :
    ∃ Q', Rep (look l.book s) Q' ∧ Balanced { l with book := look l.book s } Q' := by
  refine ⟨Q, rep.look s, fun t => ?_⟩
  rw [weighed_look]
  exact balanced t

theorem balanced_step (rep : Rep l.book Q) (balanced : Balanced l Q) (op : BookOp)
    (proper : Proper l.book op) :
    ∃ l', l.apply op = some l' ∧ ∃ Q', Rep l'.book Q' ∧ Balanced l' Q' := by
  cases op with
  | addOrder cid client side price quantity ts =>
    exact balanced_add rep balanced cid client side price quantity ts proper
  | cancelOrder x =>
    obtain ⟨s, i, hx⟩ := proper
    rw [rep.queue_eq] at hx
    exact balanced_cancel rep balanced hx
  | matchOrder aggressor price quantity cid maxFills =>
    exact balanced_match rep balanced aggressor price quantity cid maxFills
  | bestBidPrice => exact ⟨_, rfl, balanced_look rep balanced .buy⟩
  | bestAskPrice => exact ⟨_, rfl, balanced_look rep balanced .sell⟩
  | bestBidQty => exact ⟨_, rfl, balanced_look rep balanced .buy⟩
  | bestAskQty => exact ⟨_, rfl, balanced_look rep balanced .sell⟩

/-- In every run, what was added to a side rests there, has been filled or was cancelled. -/
theorem book_conserves_quantity (ops : List BookOp)
    (proper : Obeys BookOp.apply Proper OrderBook.init ops) :
    ∃ l, run Ledger.apply Ledger.init ops = some l ∧
      run BookOp.apply OrderBook.init ops = some l.book ∧
      ∀ s, l.added s = sideQty l.book s + l.filled s + l.cancelled s := by
  have start : ∃ Q, Rep Ledger.init.book Q ∧ Balanced Ledger.init Q :=
    ⟨_, rep_init, fun s => by simp [Ledger.init, weighed]⟩
  obtain ⟨l, returns, Q, rep, balanced⟩ := run_returns Ledger.apply (fun l => Proper l.book)
    (fun l => ∃ Q, Rep l.book Q ∧ Balanced l Q)
    (fun l op inv legal => by
      obtain ⟨Q, rep, balanced⟩ := inv
      exact balanced_step rep balanced op legal)
    ops Ledger.init start (Obeys.lift ledger_book proper)
  refine ⟨l, returns, ?_, fun s => ?_⟩
  · have book := run_map ledger_book Ledger.init ops
    rw [returns] at book
    exact book.symm
  · rw [sideQty_eq rep]
    exact balanced s

theorem book_conserves_quantity_partial_fill :
    ∃ l, run Ledger.apply Ledger.init [.addOrder 0 1 .buy 1000000 5 0,
          .matchOrder .sell 990000 2 1 64, .cancelOrder 0] = some l ∧
      run BookOp.apply OrderBook.init [.addOrder 0 1 .buy 1000000 5 0,
          .matchOrder .sell 990000 2 1 64, .cancelOrder 0] = some l.book ∧
      ∀ s, l.added s = sideQty l.book s + l.filled s + l.cancelled s :=
  book_conserves_quantity _ (obeys_of_test proper_of_test _ _ (by decide +kernel))

end Ledgers

end HftGrading.Exchange.Book.Conservation
