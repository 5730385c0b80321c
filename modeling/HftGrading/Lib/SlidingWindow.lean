/- module: HftGrading/Lib/SlidingWindow
   scope: library
   digest: Events of which at most so many may fall into any window of a width, on an ordered time. -/

import Mathlib.Algebra.Order.Group.Defs
import Mathlib.Algebra.Order.Sub.Basic
import Mathlib.Data.List.Basic

set_option autoImplicit false
set_option relaxedAutoImplicit false

namespace HftGrading.Lib.SlidingWindow

universe u

variable {T : Type u} [AddCommGroup T] [LinearOrder T]

/-- The events that at `now` are less than `width` old. -/
def recent (width now : T) (events : List T) : List T :=
  events.filter fun t => decide (now - t < width)

/-- When each event came, fewer than `limit` of those before it were recent. -/
inductive Rationed (limit : Nat) (width : T) : List T → Prop
  | nil : Rationed limit width []
  | snoc {events : List T} {t : T} (before : Rationed limit width events)
      (room : (recent width t events).length < limit) : Rationed limit width (events ++ [t])

variable {limit : Nat} {width now later : T} {events : List T}

theorem recent_append (events events' : List T) :
    recent width now (events ++ events') = recent width now events ++ recent width now events' :=
  List.filter_append ..

theorem recent_recent [IsOrderedAddMonoid T] (order : now ≤ later) :
    recent width later (recent width now events) = recent width later events := by
  unfold recent
  rw [List.filter_filter]
  refine List.filter_congr fun t _ => ?_
  have forgets : later - t < width → now - t < width := (sub_le_sub_right order t).trans_lt
  by_cases young : later - t < width
  · simp [young, forgets young]
  · simp [young]

theorem Rationed.window_le (rationed : Rationed limit width events) (inside : T → Bool)
    (short : ∀ s t, inside s = true → inside t = true → t - s < width) :
    (events.filter inside).length ≤ limit := by
  induction rationed with
  | nil => exact Nat.zero_le limit
  | @snoc events t before room ih =>
    rw [List.filter_append, List.length_append]
    cases last : inside t with
    | false =>
      rw [List.filter_singleton, last]
      exact ih
    | true =>
      have counted : (events.filter inside).length ≤ (recent width t events).length := by
        refine (List.monotone_filter_right events fun s inWindow => ?_).length_le
        exact decide_eq_true (short s t inWindow last)
      rw [List.filter_singleton, last]
      exact Nat.succ_le_of_lt (counted.trans_lt room)

end HftGrading.Lib.SlidingWindow
