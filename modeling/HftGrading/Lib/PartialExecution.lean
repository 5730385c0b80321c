/- module: HftGrading/Lib/PartialExecution
   scope: library
   digest: Fuelled while loops, runs of partial steps, and the invariant rules for both. -/

import Mathlib.Data.List.Basic
import Mathlib.Data.Option.Basic

set_option autoImplicit false
set_option relaxedAutoImplicit false

namespace HftGrading.Lib.PartialExecution

universe u v

section Loops

variable {S : Type u} {R : Type v}

/-- A `while` loop cut after `fuel` rounds. One round either continues with a
new state or leaves the loop with a result; `none` is a loop that has not
returned. -/
def loop (body : S → Option (S ⊕ R)) : Nat → S → Option R
  | 0, _ => none
  | fuel + 1, s =>
    match body s with
    | none => none
    | some (.inl s') => loop body fuel s'
    | some (.inr r) => some r

theorem loop_returns (body : S → Option (S ⊕ R)) (Inv : S → Prop) (measure : S → Nat)
    (Post : R → Prop)
    (round : ∀ s, Inv s →
      (∃ s', body s = some (.inl s') ∧ Inv s' ∧ measure s' < measure s) ∨
        ∃ r, body s = some (.inr r) ∧ Post r)
    (fuel : Nat) (s : S) (start : Inv s) (enough : measure s < fuel) :
    ∃ r, loop body fuel s = some r ∧ Post r := by
  induction fuel generalizing s with
  | zero => omega
  | succ fuel ih =>
    rcases round s start with ⟨s', next, keep, less⟩ | ⟨r, leave, post⟩
    · obtain ⟨r, run, post⟩ := ih s' keep (by omega)
      exact ⟨r, by simp only [loop, next, run], post⟩
    · exact ⟨r, by simp only [loop, leave], post⟩

theorem loop_keeps (body : S → Option (S ⊕ R)) (Inv : S → Prop) (Post : R → Prop)
    (next : ∀ s s', Inv s → body s = some (.inl s') → Inv s')
    (leave : ∀ s r, Inv s → body s = some (.inr r) → Post r)
    {fuel : Nat} {s : S} {r : R} (start : Inv s) (returns : loop body fuel s = some r) : Post r := by
  induction fuel generalizing s with
  | zero => cases returns
  | succ fuel ih =>
    rw [loop] at returns
    cases round : body s with
    | none =>
      rw [round] at returns
      cases returns
    | some outcome =>
      rw [round] at returns
      cases outcome with
      | inl s' => exact ih (next s s' start round) returns
      | inr r' =>
        cases returns
        exact leave s r start round

theorem loop_returned (body : S → Option (S ⊕ R)) (Inv : S → Prop) (measure : S → Nat)
    (Post : R → Prop)
    (round : ∀ s, Inv s →
      (∃ s', body s = some (.inl s') ∧ Inv s' ∧ measure s' < measure s) ∨
        ∃ r, body s = some (.inr r) ∧ Post r)
    {fuel : Nat} {s : S} {r : R} (start : Inv s) (returns : loop body fuel s = some r) : Post r := by
  refine loop_keeps body Inv Post (fun s s' inv move => ?_) (fun s r inv move => ?_) start returns
  · rcases round s inv with ⟨t, next, keep, -⟩ | ⟨r, leave, -⟩
    · cases next.symm.trans move
      exact keep
    · cases leave.symm.trans move
  · rcases round s inv with ⟨t, next, -⟩ | ⟨r', leave, post⟩
    · cases next.symm.trans move
    · cases leave.symm.trans move
      exact post

theorem loop_map {S' : Type u} {R' : Type v} (body : S → Option (S ⊕ R))
    (body' : S' → Option (S' ⊕ R')) (f : S → S') (g : R → R')
    (commutes : ∀ s, (body s).map (Sum.map f g) = body' (f s)) (fuel : Nat) (s : S) :
    (loop body fuel s).map g = loop body' fuel (f s) := by
  induction fuel generalizing s with
  | zero => rfl
  | succ fuel ih =>
    rw [loop, loop, ← commutes]
    cases body s with
    | none => rfl
    | some next =>
      cases next with
      | inl s' => exact ih s'
      | inr r => rfl

end Loops

section Runs

variable {S : Type u} {A : Type v}

def run (step : S → A → Option S) : S → List A → Option S
  | s, [] => some s
  | s, a :: as => (step s a).bind (fun s' => run step s' as)

/-- Every operation of the list is admissible in the state it meets. -/
def Obeys (step : S → A → Option S) (ok : S → A → Prop) : S → List A → Prop
  | _, [] => True
  | s, a :: as => ok s a ∧ ∀ s', step s a = some s' → Obeys step ok s' as

theorem obeys_of_mem {step : S → A → Option S} {ok : S → A → Prop} {as : List A}
    (always : ∀ a ∈ as, ∀ s, ok s a) (s : S) : Obeys step ok s as := by
  induction as generalizing s with
  | nil => trivial
  | cons a as ih =>
    exact ⟨always a (List.mem_cons_self ..) s,
      fun s' _ => ih (fun b later => always b (List.mem_cons_of_mem _ later)) s'⟩

theorem obeys_of_forall {step : S → A → Option S} {ok : S → A → Prop}
    (always : ∀ s a, ok s a) (s : S) (as : List A) : Obeys step ok s as :=
  obeys_of_mem (fun a _ s => always s a) s

def obeysTest (step : S → A → Option S) (test : S → A → Bool) : S → List A → Bool
  | _, [] => true
  | s, a :: as => test s a && (step s a).all (fun s' => obeysTest step test s' as)

theorem obeys_of_test {step : S → A → Option S} {ok : S → A → Prop} {test : S → A → Bool}
    (sound : ∀ s a, test s a = true → ok s a) (s : S) (as : List A)
    (passed : obeysTest step test s as = true) : Obeys step ok s as := by
  induction as generalizing s with
  | nil => trivial
  | cons a as ih =>
    obtain ⟨here, later⟩ := Bool.and_eq_true_iff.mp passed
    refine ⟨sound s a here, fun s' move => ih s' ?_⟩
    rwa [move] at later

theorem Obeys.split {step : S → A → Option S} {ok : S → A → Prop} {s : S} {as bs : List A}
    (obeys : Obeys step ok s (as ++ bs)) :
    Obeys step ok s as ∧ ∀ s', run step s as = some s' → Obeys step ok s' bs := by
  induction as generalizing s with
  | nil =>
    refine ⟨trivial, fun s' same => ?_⟩
    cases same
    exact obeys
  | cons a as ih =>
    refine ⟨⟨obeys.1, fun s' move => (ih (obeys.2 s' move)).1⟩, fun t whole => ?_⟩
    obtain ⟨s', move, rest⟩ := Option.bind_eq_some_iff.mp whole
    exact (ih (obeys.2 s' move)).2 t rest

theorem Obeys.append {step : S → A → Option S} {ok : S → A → Prop} {s : S} {as bs : List A}
    (first : Obeys step ok s as) (second : ∀ s', run step s as = some s' → Obeys step ok s' bs) :
    Obeys step ok s (as ++ bs) := by
  induction as generalizing s with
  | nil => exact second s rfl
  | cons a as ih =>
    refine ⟨first.1, fun s' move => ih (first.2 s' move) fun t rest => second t ?_⟩
    simp only [run, move, Option.bind_some, rest]

theorem run_returns_history (step : S → A → Option S) (ok : S → A → Prop)
    (Hist : List A → Prop) (Inv : List A → S → Prop)
    (initial : ∀ h as, Hist (h ++ as) → Hist h)
    (keep : ∀ h s a, Inv h s → ok s a → Hist (h ++ [a]) →
      ∃ s', step s a = some s' ∧ Inv (h ++ [a]) s')
    (h as : List A) (s : S) (start : Inv h s) (history : Hist (h ++ as))
    (obeys : Obeys step ok s as) :
    ∃ s', run step s as = some s' ∧ Inv (h ++ as) s' := by
  induction as generalizing h s with
  | nil => exact ⟨s, rfl, by simpa using start⟩
  | cons a as ih =>
    have split : h ++ a :: as = (h ++ [a]) ++ as := by simp
    rw [split] at history
    obtain ⟨s', move, next⟩ := keep h s a start obeys.1 (initial _ as history)
    obtain ⟨t, rest, final⟩ := ih (h ++ [a]) s' next history (obeys.2 s' move)
    exact ⟨t, by simp only [run, move, Option.bind_some, rest], by rwa [split]⟩

theorem run_returns (step : S → A → Option S) (ok : S → A → Prop) (Inv : S → Prop)
    (keep : ∀ s a, Inv s → ok s a → ∃ s', step s a = some s' ∧ Inv s')
    (as : List A) (s : S) (start : Inv s) (obeys : Obeys step ok s as) :
    ∃ s', run step s as = some s' ∧ Inv s' :=
  run_returns_history step ok (fun _ => True) (fun _ => Inv) (fun _ _ _ => trivial)
    (fun _ s a inv legal _ => keep s a inv legal) [] as s start trivial obeys

theorem run_keeps {step : S → A → Option S} {ok : S → A → Prop} {Inv : S → Prop}
    (keep : ∀ s a s', Inv s → ok s a → step s a = some s' → Inv s') {as : List A} {s s' : S}
    (start : Inv s) (obeys : Obeys step ok s as) (returns : run step s as = some s') : Inv s' := by
  induction as generalizing s with
  | nil =>
    cases returns
    exact start
  | cons a as ih =>
    obtain ⟨s₁, move, rest⟩ := Option.bind_eq_some_iff.mp returns
    exact ih (keep s a s₁ start obeys.1 move) (obeys.2 s₁ move) rest

theorem run_keeps_within {step : S → A → Option S} {Within Inv : S → Prop}
    (earlier : ∀ s a s', step s a = some s' → Within s' → Within s)
    (keep : ∀ s a s', Inv s → step s a = some s' → Within s' → Inv s') {as : List A} {s s' : S}
    (start : Inv s) (returns : run step s as = some s') (within : Within s') : Inv s' := by
  have implied : ∀ t a t', (Within t → Inv t) → True → step t a = some t' → Within t' → Inv t' :=
    fun t a t' inv _ move within' => keep t a t' (inv (earlier t a t' move within')) move within'
  exact run_keeps implied (fun _ => start) (obeys_of_forall (fun _ _ => trivial) s as) returns
    within

theorem run_append (step : S → A → Option S) (s : S) (as bs : List A) :
    run step s (as ++ bs) = (run step s as).bind (fun s' => run step s' bs) := by
  induction as generalizing s with
  | nil => rfl
  | cons a as ih =>
    simp only [List.cons_append, run]
    cases step s a with
    | none => rfl
    | some s' => exact ih s'

section Projection

variable {T : Type u} {step : S → A → Option S} {step' : T → A → Option T} {f : T → S}
  (commutes : ∀ t a, (step' t a).map f = step (f t) a)
include commutes

theorem run_map (t : T) (as : List A) : (run step' t as).map f = run step (f t) as := by
  induction as generalizing t with
  | nil => rfl
  | cons a as ih =>
    rw [run, run, ← commutes]
    cases step' t a with
    | none => rfl
    | some t' => exact ih t'

theorem Obeys.lift {ok : S → A → Prop} {t : T} {as : List A} (obeys : Obeys step ok (f t) as) :
    Obeys step' (fun t => ok (f t)) t as := by
  induction as generalizing t with
  | nil => trivial
  | cons a as ih =>
    refine ⟨obeys.1, fun t' move => ih (obeys.2 (f t') ?_)⟩
    rw [← commutes, move]
    rfl

end Projection

def always (step : S → A → S) : S → A → Option S := fun s a => some (step s a)

theorem run_always (step : S → A → S) (s : S) (as : List A) :
    run (always step) s as = some (as.foldl step s) := by
  induction as generalizing s with
  | nil => rfl
  | cons a as ih => exact ih (step s a)

theorem foldl_keeps {step : S → A → S} {ok : S → A → Prop} {Inv : S → Prop}
    (keep : ∀ s a, Inv s → ok s a → Inv (step s a)) {as : List A} {s : S} (start : Inv s)
    (obeys : Obeys (always step) ok s as) : Inv (as.foldl step s) := by
  refine run_keeps (fun s a s' inv legal move => ?_) start obeys (run_always step s as)
  cases move
  exact keep s a inv legal

theorem forall_reached_iff_obeys {step : S → A → Option S} {ok : S → A → Prop}
    {Inv Good : S → Prop} (good : ∀ s, Inv s → Good s)
    (keep : ∀ s a s', Inv s → ok s a → step s a = some s' → Inv s')
    (needs : ∀ s a, Inv s → (∀ s', step s a = some s' → Good s') → ok s a) (as : List A) (s : S)
    (start : Inv s) :
    (∀ first, first <+: as → ∀ s', run step s first = some s' → Good s') ↔
      Obeys step ok s as := by
  induction as generalizing s with
  | nil =>
    refine ⟨fun _ => trivial, fun _ first initial s' reached => ?_⟩
    rw [List.prefix_nil.mp initial] at reached
    cases reached
    exact good s start
  | cons a as ih =>
    constructor
    · intro holds
      have legal : ok s a := needs s a start fun s' move =>
        holds [a] ⟨as, rfl⟩ s' (by simp only [run, move, Option.bind_some])
      refine ⟨legal, fun s' move => ?_⟩
      refine (ih s' (keep s a s' start legal move)).mp fun first initial t reached => ?_
      refine holds (a :: first) (List.cons_prefix_cons.mpr ⟨rfl, initial⟩) t ?_
      simp only [run, move, Option.bind_some, reached]
    · intro obeys first initial t reached
      cases first with
      | nil =>
        cases reached
        exact good s start
      | cons b first =>
        obtain ⟨rfl, initial'⟩ := List.cons_prefix_cons.mp initial
        obtain ⟨s', move, rest⟩ := Option.bind_eq_some_iff.mp reached
        exact (ih s' (keep s b s' start obeys.1 move)).mpr (obeys.2 s' move) first initial' t
          rest

end Runs

end HftGrading.Lib.PartialExecution
