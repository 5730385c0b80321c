/- module: HftGrading/Fpga/MatchEngine/MarketableOrders
   source: fpga/rtl/match_engine_fpga.sv
   digest: When an order that crosses the opposite best level trades with it. -/

import HftGrading.Fpga.MatchEngine.PipelineFlush

set_option autoImplicit false
set_option relaxedAutoImplicit false

namespace HftGrading.Fpga.MatchEngine.MarketableOrders

open Lib.FlushedPipeline IicpcPkg EngineRegisters ClockedRuns PipelineFlush

def PriceCrosses (b : Book) (m : Message) : Prop :=
  m.side = sideBuy ∧ b.ask.valid = true ∧ m.price ≥ b.ask.price ∨
    m.side = sideSell ∧ b.bid.valid = true ∧ m.price ≤ b.bid.price

instance (b : Book) (m : Message) : Decidable (PriceCrosses b m) :=
  inferInstanceAs (Decidable (_ ∨ _))

/-- The book a message taken at `r` meets: what is executing commits at the same edge. -/
def bookAtAcceptance (r : Regs) : Book :=
  match r.s2State with
  | .execute => executeBook r.s2 r.book
  | _ => r.book

/-- An order entry that could trade on acceptance at `r`. -/
structure Marketable (r : Regs) (m : Message) : Prop where
  entry : m.msgType = msgOrderEntry
  some : 0 < m.quantity
  price : PriceCrosses (bookAtAcceptance r) m

/-- The states of stage 2 from `r` on until its message leaves it. -/
inductive Serves (r : Regs) : Regs → Prop
  | refl : Serves r r
  | tail {s : Regs} (served : Serves r s) (busy : s.s2State ≠ .execute) (i : Inputs) :
      Serves r (s.cycle i)

def RestsCrossing (r : Regs) : Prop :=
  r.s2State = .execute ∧ Inserts r.s2 ∧ PriceCrosses r.book r.s2

/-- The engine has just taken `m` in. The first thing it writes is a fill at the best price,
of as much as both have, and it rests nothing across a valid opposite best. -/
structure Trades (r : Regs) (best : Bbo) (m : Message) : Prop where
  first : ∀ i, written r = [] ∧ ∃ f, written (r.cycle i) = [.fill f] ∧
    f.aggressorOid = m.clientOrderId ∧ f.aggressorCid = m.contestantId ∧
    f.aggressorSide = m.side ∧ f.price = best.price ∧
    f.qty.toNat = min m.quantity.toNat best.qty.toNat
  clean : ∀ s, Serves r s → ¬ RestsCrossing s

section Acceptance

variable {r : Regs} {i : Inputs}

theorem crosses_of_priceCrosses {b : Book} {m : Message} (price : PriceCrosses b m) :
    crosses m (facing b m) = true := by
  rcases price with ⟨buy, valid, reaches⟩ | ⟨sell, valid, reaches⟩
  · simp [crosses, facing, otherSide, best, buy, valid, reaches]
  · simp [crosses, facing, otherSide, best, sell, valid, reaches]

theorem facing_valid_of_priceCrosses {b : Book} {m : Message} (price : PriceCrosses b m) :
    (facing b m).valid = true := by
  have reaches := crosses_of_priceCrosses price
  simp only [crosses, Bool.and_eq_true] at reaches
  exact reaches.1

theorem matchOf_qty (m : Message) (b : Bbo) :
    (matchOf m b).qty.toNat = min m.quantity.toNat b.qty.toNat := by
  unfold matchOf
  dsimp only
  split_ifs with less <;> rw [BitVec.lt_def] at less <;> omega

theorem accepting (takes : accept r i = true) :
    ∃ q : Regs, r.cycle i = q.latch i r ∧ q.book = bookAtAcceptance r ∧ q.sweep = r.sweep ∧
      q.fillValid = false := by
  have empty := accept_clears takes
  cases state : r.s2State with
  | idle =>
    refine ⟨r.deassert i, ?_, ?_, rfl, empty⟩
    · simp only [Regs.cycle, state, takes, if_true]
    · simp only [bookAtAcceptance, state, Regs.deassert]
  | execute =>
    refine ⟨(r.deassert i).execute, ?_, ?_, rfl, empty⟩
    · simp only [Regs.cycle, state, takes, if_true]
    · simp only [bookAtAcceptance, state, Regs.deassert, Regs.execute]
  | crossing => exact Bool.noConfusion ((accept_sweeping (.inl state)).symm.trans takes)
  | fillOut => exact Bool.noConfusion ((accept_sweeping (.inr state)).symm.trans takes)

theorem cycle_crossing (sound : Sound r) (state : r.s2State = .crossing) :
    hits r.sweep r.book r.s2 = true ∧
        r.cycle i = (r.deassert i).beginFill (facing r.book r.s2) ∨
      hits r.sweep r.book r.s2 = false ∧ r.cycle i = (r.deassert i).endSweep := by
  have edge := sound.edge i
  generalize r.cycle i = r' at edge ⊢
  cases edge with
  | rests other => exact S2State.noConfusion (state.symm.trans other)
  | starts other => exact S2State.noConfusion (state.symm.trans other)
  | completes other => exact S2State.noConfusion (state.symm.trans other)
  | chains other => exact S2State.noConfusion (state.symm.trans other)
  | strikes _ valid entry round hit => exact .inl ⟨hit, rfl⟩
  | passes _ valid entry miss => exact .inr ⟨miss, rfl⟩
  | fills other => exact S2State.noConfusion (state.symm.trans other)

end Acceptance

/-- A served message on its way to a clean end. -/
structure Clean (s : Regs) : Prop where
  sound : Sound s
  busy : s.s2State ≠ .idle
  crossing : s.s2State = .crossing →
    hits s.sweep s.book s.s2 = true ∨ (facing s.book s.s2).valid = false
  execute : s.s2State = .execute →
    ¬ 0 < s.s2.quantity ∨ (facing s.book s.s2).valid = false

theorem clean_of_fillOut {s : Regs} (sound : Sound s) (state : s.s2State = .fillOut) : Clean s :=
  ⟨sound, by rw [state]; decide, fun other => S2State.noConfusion (state.symm.trans other),
    fun other => S2State.noConfusion (state.symm.trans other)⟩

theorem clean_of_crossing {s : Regs} (sound : Sound s) (state : s.s2State = .crossing)
    (ready : hits s.sweep s.book s.s2 = true ∨ (facing s.book s.s2).valid = false) : Clean s :=
  ⟨sound, by rw [state]; decide, fun _ => ready,
    fun other => S2State.noConfusion (state.symm.trans other)⟩

theorem clean_of_execute {s : Regs} (sound : Sound s) (state : s.s2State = .execute)
    (done : ¬ 0 < s.s2.quantity ∨ (facing s.book s.s2).valid = false) : Clean s :=
  ⟨sound, by rw [state]; decide, fun other => S2State.noConfusion (state.symm.trans other),
    fun _ => done⟩

theorem Clean.cycle {s : Regs} (clean : Clean s) (busy : s.s2State ≠ .execute) (i : Inputs) :
    Clean (s.cycle i) := by
  have edge := clean.sound.edge i
  have sound := edge.sound
  generalize s.cycle i = s' at edge sound
  cases edge with
  | rests state => exact absurd state clean.busy
  | starts state => exact absurd state clean.busy
  | completes state => exact absurd state busy
  | chains state => exact absurd state busy
  | strikes state valid entry round hit => exact clean_of_fillOut sound rfl
  | passes state valid entry miss =>
    have gone := (clean.crossing state).resolve_left (Bool.eq_false_iff.mp miss)
    exact clean_of_execute sound rfl (.inr gone)
  | fills state valid entry round some flag found =>
    by_cases left : 0 < s.s2.quantity - s.sweep.qty
    · refine clean_of_crossing sound ?_ (.inr ?_) <;>
        simp only [Regs.fillOut, Regs.deassert, left, if_true]
      exact facing_gone found left
    · refine clean_of_execute sound ?_ (.inl ?_) <;>
        simp only [Regs.fillOut, Regs.deassert, left, if_false]
      exact not_false

theorem Clean.serves {r s : Regs} (clean : Clean r) (serves : Serves r s) : Clean s := by
  induction serves with
  | refl => exact clean
  | tail served busy i ih => exact ih.cycle busy i

theorem Clean.not_restsCrossing {s : Regs} (clean : Clean s) : ¬ RestsCrossing s := by
  rintro ⟨state, inserts, price⟩
  rcases clean.execute state with none | gone
  · have rests := inserts.2
    simp only [Message.rests, Bool.and_eq_true, decide_eq_true_eq] at rests
    exact none rests.2
  · exact Bool.noConfusion (gone.symm.trans (facing_valid_of_priceCrosses price))

/-- A marketable order trades exactly if the forwarded BBO shows the crossing and the quantity
left in the sweep registers by the last match is smaller than what the best level has. -/
theorem marketable_trades_iff (r : Regs) (i : Inputs) (takes : accept r i = true)
    (marketable : Marketable r i.message) :
    Trades (r.cycle i) (facing (bookAtAcceptance r) i.message) i.message ↔
      s1IsCrossing r i = true ∧
        r.sweep.qty < (facing (bookAtAcceptance r) i.message).qty := by
  obtain ⟨q, next, book, sweep, empty⟩ := accepting takes
  have price := marketable.price
  rw [← book] at price
  rw [next, ← book, ← sweep]
  have sound : Sound (q.latch i r) := sound_latch empty
  have state : (q.latch i r).s2State = if s1IsCrossing r i then .crossing else .execute := rfl
  have hit : hits q.sweep q.book i.message = decide (q.sweep.qty < (facing q.book i.message).qty) := by
    simp only [hits, marketable.some, crosses_of_priceCrosses price, decide_true, Bool.true_and]
  constructor
  · intro trades
    have first := trades.first i
    cases crossing : s1IsCrossing r i with
    | false =>
      -- Not seen to cross, the order is executed and acked at once.
      rw [crossing] at state
      simp [written, state] at first
    | true =>
      rw [crossing] at state
      rcases cycle_crossing (i := i) sound state with ⟨strikes, -⟩ | ⟨-, passes⟩
      · exact ⟨rfl, of_decide_eq_true (hit.symm.trans strikes)⟩
      · obtain ⟨-, f, wrote, -⟩ := first
        rw [passes] at wrote
        simp [written, Regs.endSweep] at wrote
  · rintro ⟨crossing, fresh⟩
    replace state : (q.latch i r).s2State = .crossing := by rw [state, crossing, if_pos rfl]
    have strikes : hits q.sweep q.book i.message = true := hit.trans (decide_eq_true fresh)
    have clean : Clean (q.latch i r) := clean_of_crossing sound state (.inl strikes)
    refine ⟨fun j => ⟨by simp only [written, state], ?_⟩,
      fun s serves => (clean.serves serves).not_restsCrossing⟩
    rcases cycle_crossing (i := j) sound state with ⟨-, fills⟩ | ⟨misses, -⟩
    · refine ⟨fillOf i.message (matchOf i.message (facing q.book i.message)), ?_, rfl, rfl, rfl, rfl,
        matchOf_qty _ _⟩
      rw [fills]
      rfl
    · exact Bool.noConfusion (misses.symm.trans strikes)

theorem marketable_trades_iff_small_buy :
    let s := (System.start zeroRegs
      [limitOrder sideSell 1 100 5, limitOrder sideBuy 2 100 3]).after [offering]
    let i := s.inputs offering
    s.regs.sweep.qty < (facing (bookAtAcceptance s.regs) i.message).qty ∧
      Trades (s.regs.cycle i) (facing (bookAtAcceptance s.regs) i.message) i.message := by
  intro s i
  have fresh : s1IsCrossing s.regs i = true ∧
      s.regs.sweep.qty < (facing (bookAtAcceptance s.regs) i.message).qty := by decide +kernel
  have marketable : Marketable s.regs i.message :=
    ⟨by decide +kernel, by decide +kernel, by decide +kernel⟩
  exact ⟨fresh.2, (marketable_trades_iff s.regs i (by decide +kernel) marketable).mpr fresh⟩

/-- After a match of five, a sell of three rests at 100 and a buy of three comes in at 100. The
engine takes the sell for used up, emits no fill, and rests the buy at the price of the sell. -/
theorem leftover_match_hides_level :
    let s := (System.start zeroRegs
      [limitOrder sideSell 1 100 5, limitOrder sideBuy 2 100 5, limitOrder sideSell 3 100 3,
        limitOrder sideBuy 4 100 3]).after (List.replicate 5 offering)
    let i := s.inputs offering
    let t := s.after (List.replicate 4 offering)
    (i.message = limitOrder sideBuy 4 100 3 ∧ accept s.regs i = true ∧
      Marketable s.regs i.message) ∧
    ¬ Trades (s.regs.cycle i) (facing (bookAtAcceptance s.regs) i.message) i.message ∧
    (t.fills.length = 1 ∧ (t.regs.book.bid.valid = true ∧ t.regs.book.bid.price = 100) ∧
      t.regs.book.ask.valid = true ∧ t.regs.book.ask.price = 100) := by
  intro s i t
  have marketable : Marketable s.regs i.message :=
    ⟨by decide +kernel, by decide +kernel, by decide +kernel⟩
  refine ⟨⟨by decide +kernel, by decide +kernel, marketable⟩, fun trades => ?_, by decide +kernel⟩
  obtain ⟨-, f, wrote, -⟩ := trades.first i
  have acked : written ((s.regs.cycle i).cycle i) = [.ack ⟨4, 1, ackAccepted⟩] := by
    decide +kernel
  rw [acked] at wrote
  cases wrote

end HftGrading.Fpga.MatchEngine.MarketableOrders
