/- module: HftGrading/Lib/FlushedPipeline
   scope: library
   digest: Pipelines read through their flushed state, and output registers with a handshake. -/

import Mathlib.Data.List.Basic

set_option autoImplicit false
set_option relaxedAutoImplicit false

namespace HftGrading.Lib.FlushedPipeline

universe u v w x

variable {Q : Type u} {O : Type v} {M : Type w} {S : Type x}

@[ext]
structure Outcome (Q : Type u) (O : Type v) where
  after : Q
  out : List O

def Outcome.prepend (o : Outcome Q O) (earlier : List O) : Outcome Q O :=
  ⟨o.after, earlier ++ o.out⟩

@[simp]
theorem Outcome.prepend_after (o : Outcome Q O) (earlier : List O) :
    (o.prepend earlier).after = o.after := rfl

@[simp]
theorem Outcome.prepend_out (o : Outcome Q O) (earlier : List O) :
    (o.prepend earlier).out = earlier ++ o.out := rfl

@[simp]
theorem Outcome.prepend_nil (o : Outcome Q O) : o.prepend [] = o := rfl

theorem Outcome.prepend_append (o : Outcome Q O) (first second : List O) :
    o.prepend (first ++ second) = (o.prepend second).prepend first := by
  ext1
  · rfl
  · simp only [prepend_out, List.append_assoc]

section Feeding

variable (process : Q → M → Outcome Q O)

def feed : Outcome Q O → List M → Outcome Q O
  | o, [] => o
  | o, m :: ms => feed ((process o.after m).prepend o.out) ms

theorem feed_append (o : Outcome Q O) (ms ms' : List M) :
    feed process o (ms ++ ms') = feed process (feed process o ms) ms' := by
  induction ms generalizing o with
  | nil => rfl
  | cons m ms ih => exact ih _

theorem feed_prepend (o : Outcome Q O) (earlier : List O) (ms : List M) :
    feed process (o.prepend earlier) ms = (feed process o ms).prepend earlier := by
  induction ms generalizing o with
  | nil => rfl
  | cons m ms ih =>
    simp only [feed, Outcome.prepend_after, Outcome.prepend_out, Outcome.prepend_append, ih]

theorem out_begins_feed (o : Outcome Q O) (ms : List M) :
    o.out <+: (feed process o ms).out := by
  have grown : feed process o ms = (feed process ⟨o.after, []⟩ ms).prepend o.out := by
    rw [← feed_prepend]
    congr 1
    ext1
    · rfl
    · simp only [Outcome.prepend_out, List.append_nil]
  rw [grown]
  exact List.prefix_append _ _

variable (flush : S → Outcome Q O)

/-- Completing what is under way in `s` gives what the messages `done` give one at a time
from `q`, the outputs already `written` first. -/
def Tracks (q : Q) (done : List M) (written : List O) (s : S) : Prop :=
  feed process ⟨q, []⟩ done = (flush s).prepend written

variable {process flush} {q : Q} {done : List M} {written : List O} {s s' : S}

theorem Tracks.step (tracks : Tracks process flush q done written s) {next : List M}
    {out : List O} (commutes : feed process (flush s) next = (flush s').prepend out) :
    Tracks process flush q (done ++ next) (written ++ out) s' := by
  unfold Tracks at *
  rw [feed_append, tracks, feed_prepend, commutes, Outcome.prepend_append]

theorem Tracks.written_begins {done' : List M} {written' : List O}
    (tracks : Tracks process flush q done written s)
    (tracks' : Tracks process flush q done' written' s') (rest : (flush s').out = [])
    (earlier : done <+: done') : written <+: written' := by
  obtain ⟨later, rfl⟩ := earlier
  have whole : (feed process ⟨q, []⟩ (done ++ later)).out = written' := by
    rw [show feed process ⟨q, []⟩ (done ++ later) = (flush s').prepend written' from tracks',
      Outcome.prepend_out, rest, List.append_nil]
  rw [feed_append, show feed process ⟨q, []⟩ done = (flush s).prepend written from tracks]
    at whole
  have grows := out_begins_feed process ((flush s).prepend written) later
  rw [whole] at grows
  exact (List.prefix_append _ _).trans grows

end Feeding

section OutputRegister

variable {α : Type u}

def held (valid : Bool) (data : α) : List α := if valid then [data] else []

def taken (valid ready : Bool) (data : α) : List α := if valid && ready then [data] else []

theorem taken_held (valid ready : Bool) (data : α) :
    taken valid ready data ++ held (if ready then false else valid) data = held valid data := by
  cases valid <;> cases ready <;> rfl

theorem taken_written (valid ready : Bool) (data new : α) (room : ¬ (valid = true ∧ ready = false)) :
    taken valid ready data ++ held true new = held valid data ++ [new] := by
  cases valid <;> cases ready <;> simp_all [taken, held]

end OutputRegister

end HftGrading.Lib.FlushedPipeline
