/- module: HftGrading/Lib/PriceTimePriority
   scope: library
   digest: Sweeping a queue of lots, and lists kept in order of a key and then of arrival. -/

import Mathlib.Algebra.Order.BigOperators.Group.List
import Mathlib.Algebra.Order.Group.Int
import Mathlib.Algebra.Ring.Int.Defs
import Mathlib.Algebra.Ring.Nat
import Mathlib.Data.List.Sort

set_option autoImplicit false
set_option relaxedAutoImplicit false

namespace HftGrading.Lib.PriceTimePriority

universe u v w

section Keyed

variable {α : Type u} {K : Type v} [LinearOrder K] {key : α → K} {l l₁ l₂ : List α}

def Ordered (key : α → K) (l : List α) : Prop := l.Pairwise (fun a b => key a ≤ key b)

def arrive (key : α → K) (x : α) : List α → List α
  | [] => [x]
  | a :: l => if key a ≤ key x then a :: arrive key x l else x :: a :: l

def arriveAll (key : α → K) (l : List α) : List α := l.foldl (fun w x => arrive key x w) []

theorem mem_arrive {x a : α} : a ∈ arrive key x l ↔ a = x ∨ a ∈ l := by
  induction l with
  | nil => simp [arrive]
  | cons b l ih =>
    unfold arrive
    split_ifs
    · simp only [List.mem_cons, ih]
      tauto
    · simp

theorem arrive_perm (x : α) (l : List α) : (arrive key x l).Perm (x :: l) := by
  induction l with
  | nil => exact List.Perm.refl _
  | cons a l ih =>
    unfold arrive
    split_ifs
    · exact (ih.cons a).trans (List.Perm.swap x a l)
    · exact List.Perm.refl _

theorem Ordered.arrive (x : α) (ordered : Ordered key l) : Ordered key (arrive key x l) := by
  induction l with
  | nil => exact List.pairwise_singleton _ x
  | cons a l ih =>
    obtain ⟨first, rest⟩ := List.pairwise_cons.mp ordered
    unfold PriceTimePriority.arrive
    split_ifs with behind
    · refine List.pairwise_cons.mpr ⟨fun b hb => ?_, ih rest⟩
      rcases mem_arrive.mp hb with rfl | hb
      exacts [behind, first b hb]
    · refine List.pairwise_cons.mpr ⟨fun b hb => ?_, ordered⟩
      have before : key x < key a := lt_of_not_ge behind
      rcases List.mem_cons.mp hb with rfl | hb
      exacts [before.le, before.le.trans (first b hb)]

theorem filter_arrive (x : α) (ordered : Ordered key l) (k : K) :
    (arrive key x l).filter (fun a => key a = k) =
      l.filter (fun a => key a = k) ++ if key x = k then [x] else [] := by
  induction l with
  | nil => by_cases h : key x = k <;> simp [arrive, h]
  | cons a l ih =>
    obtain ⟨first, rest⟩ := List.pairwise_cons.mp ordered
    unfold arrive
    split_ifs with behind same same
    · simp only [List.filter_cons, ih rest, if_pos same]
      split_ifs <;> simp
    · simp only [List.filter_cons, ih rest, if_neg same]
      split_ifs <;> simp
    · -- Everything behind the newcomer has a larger key.
      have none : (a :: l).filter (fun a => key a = k) = [] := by
        apply List.filter_eq_nil_iff.mpr
        intro b hb
        have before : key x < key a := lt_of_not_ge behind
        have larger : key x < key b := by
          rcases List.mem_cons.mp hb with rfl | hb
          exacts [before, before.trans_le (first b hb)]
        rw [same] at larger
        simpa using larger.ne'
      rw [List.filter_cons, if_pos (by simpa using same), none]
      rfl
    · rw [List.filter_cons, if_neg (by simpa using same), List.append_nil]

theorem arrive_map {β : Type w} {key' : β → K} (g : α → β) (keys : ∀ a, key' (g a) = key a) (x : α)
    (l : List α) : arrive key' (g x) (l.map g) = (arrive key x l).map g := by
  induction l with
  | nil => rfl
  | cons a l ih =>
    rw [List.map_cons, arrive, arrive, keys, keys, ih]
    split_ifs <;> rfl

private theorem arriveAll_aux (w : List α) (ordered : Ordered key w) :
    Ordered key (l.foldl (fun w x => arrive key x w) w) ∧
      ∀ k, (l.foldl (fun w x => arrive key x w) w).filter (fun a => key a = k) =
        w.filter (fun a => key a = k) ++ l.filter (fun a => key a = k) := by
  induction l generalizing w with
  | nil => exact ⟨ordered, fun k => by simp⟩
  | cons x l ih =>
    obtain ⟨keep, filters⟩ := ih (arrive key x w) (ordered.arrive x)
    refine ⟨keep, fun k => ?_⟩
    rw [List.foldl_cons, filters k, filter_arrive x ordered k, List.filter_cons]
    by_cases same : key x = k <;> simp [same]

theorem ordered_arriveAll (key : α → K) (l : List α) : Ordered key (arriveAll key l) :=
  (arriveAll_aux [] List.Pairwise.nil).1

theorem filter_arriveAll (key : α → K) (l : List α) (k : K) :
    (arriveAll key l).filter (fun a => key a = k) = l.filter (fun a => key a = k) :=
  (arriveAll_aux [] List.Pairwise.nil).2 k

theorem Ordered.eq_of_filter_eq (ordered₁ : Ordered key l₁) (ordered₂ : Ordered key l₂)
    (filters : ∀ k, l₁.filter (fun a => key a = k) = l₂.filter (fun a => key a = k)) :
    l₁ = l₂ := by
  induction l₁ generalizing l₂ with
  | nil =>
    cases l₂ with
    | nil => rfl
    | cons b l₂ =>
      have := filters (key b)
      simp at this
  | cons a l₁ ih =>
    cases l₂ with
    | nil =>
      have := filters (key a)
      simp at this
    | cons b l₂ =>
      obtain ⟨first₁, rest₁⟩ := List.pairwise_cons.mp ordered₁
      obtain ⟨first₂, rest₂⟩ := List.pairwise_cons.mp ordered₂
      have a_mem : a ∈ b :: l₂ := by
        have : a ∈ (b :: l₂).filter (fun c => key c = key a) := by
          rw [← filters (key a)]
          simp
        exact (List.mem_filter.mp this).1
      have b_mem : b ∈ a :: l₁ := by
        have : b ∈ (a :: l₁).filter (fun c => key c = key b) := by
          rw [filters (key b)]
          simp
        exact (List.mem_filter.mp this).1
      have same : key a = key b := by
        apply le_antisymm
        · rcases List.mem_cons.mp b_mem with rfl | h
          exacts [le_rfl, first₁ b h]
        · rcases List.mem_cons.mp a_mem with rfl | h
          exacts [le_rfl, first₂ a h]
      have heads := filters (key a)
      simp only [List.filter_cons, decide_true, if_true, same] at heads
      obtain ⟨rfl, -⟩ := List.cons.inj heads
      refine congrArg _ (ih rest₁ rest₂ (fun k => ?_))
      have tails := filters k
      simp only [List.filter_cons] at tails
      split_ifs at tails with hk
      · exact (List.cons.inj tails).2
      · exact tails

theorem Ordered.append (ordered₁ : Ordered key l₁) (ordered₂ : Ordered key l₂)
    (apart : ∀ a ∈ l₁, ∀ b ∈ l₂, key a ≤ key b) : Ordered key (l₁ ++ l₂) :=
  List.pairwise_append.mpr ⟨ordered₁, ordered₂, apart⟩

theorem Ordered.filter (ordered : Ordered key l) (p : α → Bool) : Ordered key (l.filter p) :=
  List.Pairwise.filter p ordered

theorem ordered_of_eq {k : K} (same : ∀ a ∈ l, key a = k) : Ordered key l := by
  refine List.pairwise_of_forall_mem_list (fun a ha b hb => ?_)
  rw [same a ha, same b hb]

theorem filter_of_eq {k : K} (same : ∀ a ∈ l, key a = k) (k' : K) :
    l.filter (fun a => key a = k') = if k = k' then l else [] := by
  split_ifs with e
  · apply List.filter_eq_self.mpr
    intro a ha
    exact decide_eq_true ((same a ha).trans e)
  · apply List.filter_eq_nil_iff.mpr
    intro a ha here
    exact e ((same a ha).symm.trans (of_decide_eq_true here))

theorem filter_filter_ne (l : List α) (k k' : K) :
    (l.filter (fun a => key a ≠ k)).filter (fun a => key a = k') =
      if k = k' then [] else l.filter (fun a => key a = k') := by
  rw [List.filter_filter]
  split_ifs with e
  · apply List.filter_eq_nil_iff.mpr
    intro a _
    simp [e]
  · apply List.filter_congr
    intro a _
    by_cases here : key a = k'
    · simp [here, Ne.symm e]
    · simp [here]

theorem Ordered.split_least {k : K} (ordered : Ordered key l) (least : ∀ a ∈ l, k ≤ key a) :
    l = l.filter (fun a => key a = k) ++ l.filter (fun a => key a ≠ k) := by
  apply ordered.eq_of_filter_eq
  · refine (ordered.filter _).append (ordered.filter _) ?_
    intro a ha b hb
    have here : key a = k := by simpa using (List.mem_filter.mp ha).2
    rw [here]
    exact least b (List.mem_filter.mp hb).1
  · intro k'
    have own : ∀ a ∈ l.filter (fun a => key a = k), key a = k := by
      intro a ha
      exact of_decide_eq_true (List.mem_filter.mp ha).2
    rw [List.filter_append, filter_of_eq own, filter_filter_ne]
    split_ifs with same
    · rw [List.append_nil, same]
    · rw [List.nil_append]

end Keyed

/-- A quantity that somebody offers, or takes, at a price. -/
structure Lot (ι : Type u) (P : Type v) where
  ref : ι
  price : P
  qty : Int
  deriving DecidableEq, Repr

structure Swept (ι : Type u) (P : Type v) where
  fills : List (Lot ι P)
  left : Int
  rest : List (Lot ι P)
  deriving DecidableEq, Repr

def Lot.rename {ι : Type u} {κ : Type w} {P : Type v} (f : ι → κ) (l : Lot ι P) : Lot κ P :=
  ⟨f l.ref, l.price, l.qty⟩

section Sweep

variable {ι : Type u} {P : Type v} (within : P → Prop) [DecidablePred within]

/-- Take from the lots in order, at most `room` times, until the wanted quantity
is reached or a price is out of bounds. -/
def sweep : Nat → Int → List (Lot ι P) → Swept ι P
  | 0, want, lots => ⟨[], want, lots⟩
  | _, want, [] => ⟨[], want, []⟩
  | room + 1, want, m :: lots =>
    if want ≤ 0 ∨ ¬ within m.price then ⟨[], want, m :: lots⟩
    else if want < m.qty then ⟨[⟨m.ref, m.price, want⟩], 0, { m with qty := m.qty - want } :: lots⟩
    else
      let later := sweep room (want - m.qty) lots
      ⟨m :: later.fills, later.left, later.rest⟩

variable {within} {room : Nat} {want : Int} {lots : List (Lot ι P)}

@[simp] theorem sweep_zero : sweep within 0 want lots = ⟨[], want, lots⟩ := by
  cases lots <;> rfl

@[simp] theorem sweep_nil : sweep within room want ([] : List (Lot ι P)) = ⟨[], want, []⟩ := by
  cases room <;> rfl

theorem sweep_done (done : want ≤ 0) : sweep within room want lots = ⟨[], want, lots⟩ := by
  cases room with
  | zero => exact sweep_zero
  | succ room =>
    cases lots with
    | nil => rfl
    | cons m lots => simp only [sweep, if_pos (Or.inl done : want ≤ 0 ∨ ¬ within m.price)]

theorem sweep_beyond {m : Lot ι P} (beyond : ¬ within m.price) :
    sweep within room want (m :: lots) = ⟨[], want, m :: lots⟩ := by
  cases room with
  | zero => exact sweep_zero
  | succ room => simp only [sweep, if_pos (Or.inr beyond : want ≤ 0 ∨ ¬ within m.price)]

theorem sweep_part {m : Lot ι P} (wanted : 0 < want) (inside : within m.price)
    (part : want < m.qty) : sweep within (room + 1) want (m :: lots) =
      ⟨[⟨m.ref, m.price, want⟩], 0, { m with qty := m.qty - want } :: lots⟩ := by
  have go : ¬ (want ≤ 0 ∨ ¬ within m.price) := by
    rintro (done | beyond)
    exacts [absurd wanted done.not_gt, beyond inside]
  simp only [sweep, if_neg go, if_pos part]

theorem sweep_whole {m : Lot ι P} (wanted : 0 < want) (inside : within m.price)
    (whole : m.qty ≤ want) : sweep within (room + 1) want (m :: lots) =
      ⟨m :: (sweep within room (want - m.qty) lots).fills,
        (sweep within room (want - m.qty) lots).left,
        (sweep within room (want - m.qty) lots).rest⟩ := by
  have go : ¬ (want ≤ 0 ∨ ¬ within m.price) := by
    rintro (done | beyond)
    exacts [absurd wanted done.not_gt, beyond inside]
  simp only [sweep, if_neg go, if_neg whole.not_gt]

theorem sweep_progress {m : Lot ι P} (wanted : 0 < want) (inside : within m.price) :
    0 < (sweep within (room + 1) want (m :: lots)).fills.length := by
  by_cases part : want < m.qty
  · simp [sweep_part wanted inside part]
  · simp [sweep_whole wanted inside (le_of_not_gt part)]

variable (within)

theorem sweep_induction {C : Nat → Int → List (Lot ι P) → Swept ι P → Prop}
    (stop : ∀ room want lots, (room = 0 ∨ want ≤ 0 ∨ lots = [] ∨
      ∃ m rest, lots = m :: rest ∧ ¬ within m.price) → C room want lots ⟨[], want, lots⟩)
    (part : ∀ room want m lots, 0 < want → within m.price → want < m.qty →
      C (room + 1) want (m :: lots)
        ⟨[⟨m.ref, m.price, want⟩], 0, { m with qty := m.qty - want } :: lots⟩)
    (whole : ∀ room want m lots s, 0 < want → within m.price → m.qty ≤ want →
      C room (want - m.qty) lots s →
      C (room + 1) want (m :: lots) ⟨m :: s.fills, s.left, s.rest⟩)
    (room : Nat) (want : Int) (lots : List (Lot ι P)) :
    C room want lots (sweep within room want lots) := by
  induction room generalizing want lots with
  | zero =>
    rw [sweep_zero]
    exact stop 0 want lots (Or.inl rfl)
  | succ room ih =>
    cases lots with
    | nil =>
      rw [sweep_nil]
      exact stop _ want [] (Or.inr (Or.inr (Or.inl rfl)))
    | cons m lots =>
      by_cases done : want ≤ 0
      · rw [sweep_done done]
        exact stop _ want _ (Or.inr (Or.inl done))
      have wanted : 0 < want := lt_of_not_ge done
      by_cases inside : within m.price
      swap
      · rw [sweep_beyond inside]
        exact stop _ want _ (Or.inr (Or.inr (Or.inr ⟨m, lots, rfl, inside⟩)))
      by_cases less : want < m.qty
      · rw [sweep_part wanted inside less]
        exact part room want m lots wanted inside less
      · rw [sweep_whole wanted inside (le_of_not_gt less)]
        exact whole room want m lots _ wanted inside (le_of_not_gt less) (ih _ _)

variable (room want lots)

theorem sweep_fills_length :
    (sweep within room want lots).fills.length ≤ room := by
  induction room, want, lots using sweep_induction within with
  | stop => exact Nat.zero_le _
  | part room => exact Nat.succ_le_succ (Nat.zero_le room)
  | whole room want m lots s _ _ _ ih => exact Nat.succ_le_succ ih

theorem sweep_fills_sum :
    ((sweep within room want lots).fills.map Lot.qty).sum +
      (sweep within room want lots).left = want := by
  induction room, want, lots using sweep_induction within with
  | stop => simp
  | part => simp
  | whole room want m lots s _ _ _ ih =>
    simp only [List.map_cons, List.sum_cons]
    omega

theorem sweep_weighed (w : ι → Int) :
    ((sweep within room want lots).fills.map (fun l => w l.ref * l.qty)).sum +
        ((sweep within room want lots).rest.map (fun l => w l.ref * l.qty)).sum =
      (lots.map (fun l => w l.ref * l.qty)).sum := by
  induction room, want, lots using sweep_induction within with
  | stop => simp
  | part room want m lots =>
    simp only [List.map_cons, List.map_nil, List.sum_cons, List.sum_nil, Int.mul_sub]
    omega
  | whole room want m lots s _ _ _ ih =>
    simp only [List.map_cons, List.sum_cons]
    omega

theorem sweep_fills_of : ∀ f ∈ (sweep within room want lots).fills, within f.price ∧
    ∃ m ∈ lots, f.ref = m.ref ∧ f.price = m.price ∧ (0 < m.qty → 0 < f.qty) := by
  induction room, want, lots using sweep_induction within with
  | stop => simp
  | part room want m lots wanted inside =>
    intro f hf
    rw [List.mem_singleton.mp hf]
    exact ⟨inside, m, List.mem_cons_self, rfl, rfl, fun _ => wanted⟩
  | whole room want m lots s _ inside _ ih =>
    intro f hf
    rcases List.mem_cons.mp hf with rfl | hf
    · exact ⟨inside, f, List.mem_cons_self, rfl, rfl, id⟩
    · obtain ⟨inside, m', member, same⟩ := ih f hf
      exact ⟨inside, m', List.mem_cons_of_mem m member, same⟩

theorem sweep_rest_sum (positive : ∀ m ∈ lots, 0 < m.qty) :
    ((sweep within room want lots).rest.map Lot.qty).sum ≤ (lots.map Lot.qty).sum := by
  have balance := sweep_weighed within room want lots (fun _ => 1)
  have taken : 0 ≤ ((sweep within room want lots).fills.map Lot.qty).sum := by
    refine List.sum_nonneg (List.forall_mem_map.mpr fun f hf => ?_)
    obtain ⟨-, m, member, -, -, grows⟩ := sweep_fills_of within room want lots f hf
    exact (grows (positive m member)).le
  simp only [Int.one_mul] at balance
  exact balance ▸ Int.le_add_of_nonneg_left taken

theorem sweep_fills_front :
    (sweep within room want lots).fills.map Lot.ref <+: lots.map Lot.ref := by
  induction room, want, lots using sweep_induction within with
  | stop => exact List.nil_prefix
  | part room want m lots => exact ⟨lots.map Lot.ref, rfl⟩
  | whole room want m lots s _ _ _ ih => exact List.cons_prefix_cons.mpr ⟨rfl, ih⟩

theorem sweep_split (wanted : 0 < (sweep within room want lots).left) :
    (sweep within room want lots).fills ++ (sweep within room want lots).rest = lots := by
  induction room, want, lots using sweep_induction within with
  | stop => rfl
  | part => exact absurd wanted (lt_irrefl 0)
  | whole room want m lots s _ _ _ ih => exact congrArg (m :: ·) (ih wanted)

theorem sweep_fills_le (nonneg : ∀ m ∈ lots, 0 ≤ m.qty) :
    ((sweep within room want lots).fills.map Lot.qty).sum ≤
      ((lots.take room).map Lot.qty).sum := by
  induction room, want, lots using sweep_induction within with
  | stop room want lots =>
    refine List.sum_nonneg (List.forall_mem_map.mpr fun m member => ?_)
    exact nonneg m (List.mem_of_mem_take member)
  | part room want m lots _ _ part =>
    have later : 0 ≤ ((lots.take room).map Lot.qty).sum := by
      refine List.sum_nonneg (List.forall_mem_map.mpr fun m' member => ?_)
      exact nonneg m' (List.mem_cons_of_mem m (List.mem_of_mem_take member))
    simp only [List.take_succ_cons, List.map_cons, List.map_nil, List.sum_cons, List.sum_nil]
    omega
  | whole room want m lots s _ _ _ ih =>
    have later := ih (fun m' member => nonneg m' (List.mem_cons_of_mem m member))
    simp only [List.take_succ_cons, List.map_cons, List.sum_cons]
    omega

theorem sweep_left_nonneg (wanted : 0 ≤ want) :
    0 ≤ (sweep within room want lots).left := by
  induction room, want, lots using sweep_induction within with
  | stop => exact wanted
  | part => exact le_rfl
  | whole room want m lots s _ _ enough ih => exact ih (by omega)

theorem sweep_exit :
    (sweep within room want lots).left ≤ 0 ∨
      (sweep within room want lots).fills.length = room ∨
      (sweep within room want lots).rest = [] ∨
      ∃ m rest, (sweep within room want lots).rest = m :: rest ∧ ¬ within m.price := by
  induction room, want, lots using sweep_induction within with
  | stop room want lots why =>
    rcases why with rfl | done | none | ⟨m, rest, rfl, beyond⟩
    · exact Or.inr (Or.inl rfl)
    · exact Or.inl done
    · exact Or.inr (Or.inr (Or.inl none))
    · exact Or.inr (Or.inr (Or.inr ⟨m, rest, rfl, beyond⟩))
  | part => exact Or.inl le_rfl
  | whole room want m lots s _ _ _ ih =>
    rcases ih with done | out | none | beyond
    · exact Or.inl done
    · exact Or.inr (Or.inl (congrArg Nat.succ out))
    · exact Or.inr (Or.inr (Or.inl none))
    · exact Or.inr (Or.inr (Or.inr beyond))

/-- How a sweep ends that turns nobody down: with what it wanted, out of fills, or through the
whole list; and what the lots it may take offer. -/
inductive Ended (room : Nat) (want : Int) (lots : List (Lot ι P)) (s : Swept ι P) : Prop
  | met (none : s.left = 0) (offer : want ≤ ((lots.map Lot.qty).take room).sum)
  | out (more : 0 < s.left) (all : s.fills.length = room) (long : room ≤ lots.length)
      (offer : ((lots.map Lot.qty).take room).sum = want - s.left)
  | through (more : 0 < s.left) (fewer : s.fills.length < room) (emptied : s.rest = [])
      (long : lots.length = s.fills.length)
      (offer : ((lots.map Lot.qty).take room).sum = want - s.left)

theorem sweep_ends (admits : ∀ p, within p) (wanted : 0 ≤ want)
    (nonneg : ∀ m ∈ lots, 0 ≤ m.qty) :
    Ended room want lots (sweep within room want lots) := by
  have sum := sweep_fills_sum within room want lots
  have few := sweep_fills_length within room want lots
  have left := sweep_left_nonneg within room want lots wanted
  by_cases done : (sweep within room want lots).left = 0
  · have below := sweep_fills_le within room want lots nonneg
    refine .met done ?_
    rw [← List.map_take]
    omega
  have more : 0 < (sweep within room want lots).left := by omega
  have split := sweep_split within room want lots more
  have long := congrArg List.length split
  rw [List.length_append] at long
  by_cases all : (sweep within room want lots).fills.length = room
  · refine .out more all (by omega) ?_
    have front : lots.take room = (sweep within room want lots).fills := by
      conv_lhs => rw [← split]
      exact List.take_left' all
    rw [← List.map_take, front]
    omega
  · have emptied : (sweep within room want lots).rest = [] := by
      rcases sweep_exit within room want lots with no | full | none | ⟨m, _, -, beyond⟩
      · omega
      · exact absurd full all
      · exact none
      · exact absurd (admits m.price) beyond
    rw [emptied, List.append_nil] at split
    rw [emptied, List.length_nil] at long
    refine .through more (by omega) emptied (by omega) ?_
    rw [← List.map_take, List.take_of_length_le (by omega)]
    rw [split] at sum
    omega

theorem sweep_congr (within' : P → Prop) [DecidablePred within']
    (agree : ∀ m ∈ lots, within m.price ↔ within' m.price) :
    sweep within room want lots = sweep within' room want lots := by
  induction room generalizing want lots with
  | zero => simp
  | succ room ih =>
    cases lots with
    | nil => rfl
    | cons m lots =>
      have here := agree m (by simp)
      have later := fun want' => ih want' lots (fun m' hm' => agree m' (List.mem_cons_of_mem m hm'))
      simp only [sweep, here, later]

theorem sweep_unbounded (inside : ∀ m ∈ lots, within m.price) :
    sweep within room want lots = sweep (fun _ => True) room want lots :=
  sweep_congr within room want lots _ (fun m hm => iff_true_intro (inside m hm))

theorem sweep_refs :
    ∃ gone, lots.map Lot.ref = gone ++ (sweep within room want lots).rest.map Lot.ref := by
  induction room, want, lots using sweep_induction within with
  | stop => exact ⟨[], rfl⟩
  | part => exact ⟨[], rfl⟩
  | whole room want m lots s _ _ _ ih =>
    obtain ⟨gone, split⟩ := ih
    exact ⟨m.ref :: gone, by simp [split]⟩

theorem sweep_rest_price (C : P → Prop) (all : ∀ m ∈ lots, C m.price) :
    ∀ m ∈ (sweep within room want lots).rest, C m.price := by
  induction room, want, lots using sweep_induction within with
  | stop => exact all
  | part room want m lots =>
    intro m' hm'
    rcases List.mem_cons.mp hm' with rfl | hm'
    · exact all m (by simp)
    · exact all m' (List.mem_cons_of_mem m hm')
  | whole room want m lots s _ _ _ ih =>
    exact ih (fun m' hm' => all m' (List.mem_cons_of_mem m hm'))

theorem sweep_append (front back : List (Lot ι P))
    (inside : ∀ m ∈ front, within m.price) :
    sweep within room want (front ++ back) =
      ⟨(sweep within room want front).fills ++
          (sweep within (room - (sweep within room want front).fills.length)
            (sweep within room want front).left back).fills,
        (sweep within (room - (sweep within room want front).fills.length)
            (sweep within room want front).left back).left,
        (sweep within room want front).rest ++
          (sweep within (room - (sweep within room want front).fills.length)
            (sweep within room want front).left back).rest⟩ := by
  induction front generalizing room want with
  | nil => simp
  | cons m front ih =>
    cases room with
    | zero => simp
    | succ room =>
      by_cases done : want ≤ 0
      · simp [sweep_done done]
      have wanted : 0 < want := lt_of_not_ge done
      have here := inside m (by simp)
      by_cases less : want < m.qty
      · simp [sweep_part wanted here less, sweep_done]
      · have whole := le_of_not_gt less
        rw [List.cons_append, sweep_whole wanted here whole, sweep_whole wanted here whole,
          ih room (want - m.qty) (fun m' hm' => inside m' (List.mem_cons_of_mem m hm'))]
        simp

theorem sweep_resume (front back : List (Lot ι P)) {first next : Swept ι P}
    (inside : ∀ m ∈ front, within m.price) (start : sweep within room want front = first)
    (resume : sweep within (room - first.fills.length) first.left (first.rest ++ back) = next) :
    sweep within room want (front ++ back) = ⟨first.fills ++ next.fills, next.left, next.rest⟩ := by
  subst start resume
  rw [sweep_append within room want front back inside]
  rcases sweep_exit within room want front with done | full | none | ⟨m, rest, stuck, beyond⟩
  · rw [sweep_done done, sweep_done done]
  · rw [full, Nat.sub_self, sweep_zero, sweep_zero]
  · rw [none, List.nil_append, List.nil_append]
  · -- The front part has no lot beyond the bound, so the sweep did not stop at one.
    exact absurd (sweep_rest_price within room want front within inside m (by simp [stuck])) beyond

theorem sweep_rename {κ : Type w} (f : ι → κ) :
    sweep within room want (lots.map (Lot.rename f)) =
      ⟨(sweep within room want lots).fills.map (Lot.rename f), (sweep within room want lots).left,
        (sweep within room want lots).rest.map (Lot.rename f)⟩ := by
  induction room generalizing want lots with
  | zero => simp
  | succ room ih =>
    cases lots with
    | nil => rfl
    | cons m lots =>
      rw [List.map_cons]
      by_cases done : want ≤ 0
      · rw [sweep_done done, sweep_done done]
        rfl
      have wanted : 0 < want := lt_of_not_ge done
      by_cases inside : within m.price
      swap
      · rw [sweep_beyond inside, sweep_beyond (show ¬ within (Lot.rename f m).price from inside)]
        rfl
      have inside' : within (Lot.rename f m).price := inside
      by_cases less : want < m.qty
      · rw [sweep_part wanted inside less, sweep_part wanted inside' less]
        rfl
      · have whole := le_of_not_gt less
        rw [sweep_whole wanted inside whole, sweep_whole wanted inside' whole,
          show (Lot.rename f m).qty = m.qty from rfl, ih]
        rfl

variable {room want lots}

/-- Room for every lot within bounds, or for as many as the quantity takes. -/
def Roomy (room : Nat) (want : Int) (lots : List (Lot ι P)) : Prop :=
  (lots.takeWhile (fun m => within m.price)).length ≤ room ∨ want ≤ ((lots.take room).map Lot.qty).sum

instance (room : Nat) (want : Int) (lots : List (Lot ι P)) : Decidable (Roomy within room want lots) :=
  inferInstanceAs (Decidable (_ ∨ _))

variable {within} in
theorem Roomy.tail {m : Lot ι P} (roomy : Roomy within (room + 1) want (m :: lots))
    (inside : within m.price) : Roomy within room (want - m.qty) lots := by
  rcases roomy with all | most
  · left
    rw [List.takeWhile_cons_of_pos (by simpa using inside), List.length_cons] at all
    exact Nat.le_of_succ_le_succ all
  · right
    rw [List.take_succ_cons, List.map_cons, List.sum_cons] at most
    omega

variable {within} in
theorem Roomy.none (roomy : Roomy within 0 want lots) :
    want ≤ 0 ∨ lots.takeWhile (fun m => within m.price) = [] := by
  rcases roomy with all | most
  · exact Or.inr (List.length_eq_zero_iff.mp (Nat.le_zero.mp all))
  · exact Or.inl (by simpa using most)

theorem sweep_roomy (room more : Nat) (want : Int) (lots : List (Lot ι P))
    (roomy : Roomy within room want lots) :
    sweep within (room + more) want lots = sweep within room want lots := by
  induction room generalizing want lots with
  | zero =>
    rw [sweep_zero]
    rcases roomy.none with done | none
    · exact sweep_done done
    · cases lots with
      | nil => exact sweep_nil
      | cons m lots =>
        apply sweep_beyond
        intro inside
        rw [List.takeWhile_cons_of_pos (by simpa using inside)] at none
        cases none
  | succ room ih =>
    rw [Nat.add_right_comm]
    cases lots with
    | nil => rfl
    | cons m lots =>
      by_cases done : want ≤ 0
      · rw [sweep_done done, sweep_done done]
      have wanted : 0 < want := lt_of_not_ge done
      by_cases inside : within m.price
      swap
      · rw [sweep_beyond inside, sweep_beyond inside]
      by_cases less : want < m.qty
      · rw [sweep_part wanted inside less, sweep_part wanted inside less]
      · have whole := le_of_not_gt less
        rw [sweep_whole wanted inside whole, sweep_whole wanted inside whole,
          ih _ _ (roomy.tail inside)]

theorem length_le_sum (positive : ∀ m ∈ lots, 0 < m.qty) :
    (lots.length : Int) ≤ (lots.map Lot.qty).sum := by
  induction lots with
  | nil => simp
  | cons m lots ih =>
    have first := positive m List.mem_cons_self
    have rest := ih (fun m' hm' => positive m' (List.mem_cons_of_mem m hm'))
    rw [List.length_cons, List.map_cons, List.sum_cons]
    omega

theorem roomy_of_want_le (positive : ∀ m ∈ lots, 0 < m.qty) (few : want ≤ room) :
    Roomy within room want lots := by
  by_cases long : room ≤ lots.length
  · right
    have sum := length_le_sum (fun m hm => positive m (List.mem_of_mem_take (i := room) hm))
    rw [List.length_take, min_eq_left long] at sum
    exact few.trans sum
  · left
    have inside := (List.takeWhile_prefix (fun m : Lot ι P => decide (within m.price))
      (l := lots)).length_le
    omega

theorem sweep_named {κ : Type w} (f : ι → κ) (roomy : Roomy within room want lots) :
    sweep within (lots.map (Lot.rename f)).length want (lots.map (Lot.rename f)) =
      ⟨(sweep within room want lots).fills.map (Lot.rename f), (sweep within room want lots).left,
        (sweep within room want lots).rest.map (Lot.rename f)⟩ := by
  have all : Roomy within lots.length want lots := Or.inl (List.takeWhile_prefix _).length_le
  have same : sweep within lots.length want lots = sweep within room want lots := by
    rw [← sweep_roomy _ _ room _ _ all, Nat.add_comm, sweep_roomy _ _ _ _ _ roomy]
  rw [List.length_map, sweep_rename, same]

theorem sweep_left_pos (room : Nat) (want : Int) (lots : List (Lot ι P))
    (roomy : Roomy within room want lots) (left : 0 < (sweep within room want lots).left) :
    ((lots.takeWhile (fun m => within m.price)).map Lot.qty).sum < want := by
  induction room, want, lots using sweep_induction within with
  | stop room want lots why =>
    have none : lots.takeWhile (fun m => within m.price) = [] := by
      rcases why with rfl | done | rfl | ⟨m, rest, rfl, beyond⟩
      · exact roomy.none.resolve_left left.not_ge
      · exact absurd done left.not_ge
      · rfl
      · exact List.takeWhile_cons_of_neg (by simpa using beyond)
    rw [none]
    exact left
  | part => exact absurd left (lt_irrefl 0)
  | whole room want m lots s _ inside _ ih =>
    rw [List.takeWhile_cons_of_pos (by simpa using inside), List.map_cons, List.sum_cons]
    have rest := ih (roomy.tail inside) left
    omega

end Sweep

end HftGrading.Lib.PriceTimePriority
