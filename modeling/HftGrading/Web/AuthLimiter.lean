/- module: HftGrading/Web/AuthLimiter
   source: web/backend/main.py
   digest: The limiter in front of the auth endpoints, and why it is a sliding window. -/

import HftGrading.Lib.SlidingWindow
import Mathlib.Data.List.Induction
import Mathlib.Tactic.Linarith

set_option autoImplicit false
set_option relaxedAutoImplicit false

namespace HftGrading.Web.AuthLimiter

open Function (update)
open Lib.SlidingWindow

structure HTTPException where
  statusCode : Nat
  detail : String
  deriving DecidableEq, Repr

def authRateLimit : Nat := 10

/-- `AUTH_RATE_WINDOW`, in seconds. -/
def authRateWindow : ℚ := 300

/-- `_auth_attempts`; an address that is not in the dictionary has none. -/
abbrev AuthAttempts := String → List ℚ

/-- `request.client.host`, if the request has a client. -/
def clientAddress (client : Option String) : String := client.getD "unknown"

/-- `_check_auth_rate_limit` at the time `now`. -/
def checkAuthRateLimit (authAttempts : AuthAttempts) (client : Option String) (now : ℚ) :
    Except HTTPException AuthAttempts :=
  let ip := clientAddress client
  let attempts := (authAttempts ip).filter fun t => decide (now - t < authRateWindow)
  if authRateLimit ≤ attempts.length then
    .error ⟨429, "Too many auth attempts. Try again later."⟩
  else .ok (update authAttempts ip (attempts ++ [now]))

structure AuthRequest where
  client : Option String
  now : ℚ
  deriving DecidableEq

def AuthRequest.address (r : AuthRequest) : String := clientAddress r.client

/-- The dictionary, and all requests that have been admitted. -/
structure Served where
  authAttempts : AuthAttempts
  admitted : List AuthRequest

namespace Served

variable (s : Served)

def init : Served := ⟨fun _ => [], []⟩

def rejects (r : AuthRequest) : Bool :=
  match checkAuthRateLimit s.authAttempts r.client r.now with
  | .ok _ => false
  | .error _ => true

def serve (r : AuthRequest) : Served :=
  match checkAuthRateLimit s.authAttempts r.client r.now with
  | .ok authAttempts => ⟨authAttempts, s.admitted ++ [r]⟩
  | .error _ => s

/-- The times at which requests of an address have been admitted. -/
def admittedOf (address : String) : List ℚ :=
  (s.admitted.filter fun r => r.address == address).map AuthRequest.now

def after (rs : List AuthRequest) : Served := rs.foldl serve s

end Served

section Steps

variable {s : Served} {r : AuthRequest} {address : String}

/-- The attempts of the request's address that still count. -/
def Served.counted (s : Served) (r : AuthRequest) : List ℚ :=
  recent authRateWindow r.now (s.authAttempts r.address)

theorem check_of_full (full : authRateLimit ≤ (s.counted r).length) :
    checkAuthRateLimit s.authAttempts r.client r.now =
      .error ⟨429, "Too many auth attempts. Try again later."⟩ :=
  if_pos full

theorem check_of_room (room : ¬ authRateLimit ≤ (s.counted r).length) :
    checkAuthRateLimit s.authAttempts r.client r.now =
      .ok (update s.authAttempts r.address (s.counted r ++ [r.now])) :=
  if_neg room

theorem rejects_iff : s.rejects r = true ↔ authRateLimit ≤ (s.counted r).length := by
  by_cases full : authRateLimit ≤ (s.counted r).length
  · simp only [Served.rejects, check_of_full full, full]
  · simp only [Served.rejects, check_of_room full, full, Bool.false_eq_true]

theorem serve_of_full (full : authRateLimit ≤ (s.counted r).length) : s.serve r = s := by
  simp only [Served.serve, check_of_full full]

theorem serve_of_room (room : ¬ authRateLimit ≤ (s.counted r).length) :
    s.serve r =
      ⟨update s.authAttempts r.address (s.counted r ++ [r.now]), s.admitted ++ [r]⟩ := by
  simp only [Served.serve, check_of_room room]

theorem authAttempts_of_room (room : ¬ authRateLimit ≤ (s.counted r).length) :
    (s.serve r).authAttempts = update s.authAttempts r.address (s.counted r ++ [r.now]) := by
  rw [serve_of_room room]

theorem admittedOf_of_room (room : ¬ authRateLimit ≤ (s.counted r).length) (address : String) :
    (s.serve r).admittedOf address =
      s.admittedOf address ++ if r.address = address then [r.now] else [] := by
  rw [serve_of_room room]
  unfold Served.admittedOf
  rw [List.filter_append, List.map_append, List.filter_singleton]
  by_cases own : r.address = address
  · simp only [own, beq_self_eq_true, cond_true, if_true, List.map_cons, List.map_nil]
  · simp only [own, beq_eq_false_iff_ne.mpr own, cond_false, if_false, List.map_nil]

end Steps

/-- At a time the dictionary gives of every address the admitted requests that still count, and
no request has been admitted beyond the limit. -/
structure Tracks (s : Served) (now : ℚ) : Prop where
  counts : ∀ address later, now ≤ later →
    recent authRateWindow later (s.authAttempts address) =
      recent authRateWindow later (s.admittedOf address)
  past : ∀ address, ∀ t ∈ s.admittedOf address, t ≤ now
  rationed : ∀ address, Rationed authRateLimit authRateWindow (s.admittedOf address)

section Invariant

variable {s : Served} {r : AuthRequest} {now : ℚ}

theorem tracks_init (now : ℚ) : Tracks Served.init now :=
  ⟨fun _ _ _ => rfl, fun _ _ none => absurd none List.not_mem_nil, fun _ => .nil⟩

theorem Tracks.later (tracks : Tracks s now) {next : ℚ} (order : now ≤ next) : Tracks s next where
  counts address later passed := tracks.counts address later (order.trans passed)
  past address t listed := (tracks.past address t listed).trans order
  rationed := tracks.rationed

theorem Tracks.counted_eq (tracks : Tracks s r.now) :
    s.counted r = recent authRateWindow r.now (s.admittedOf r.address) :=
  tracks.counts r.address r.now le_rfl

theorem Tracks.counted_le (tracks : Tracks s r.now) : (s.counted r).length ≤ authRateLimit := by
  have young : s.counted r = (s.admittedOf r.address).filter
      fun t => decide (r.now - t < authRateWindow) && decide (t ≤ r.now) := by
    rw [tracks.counted_eq]
    refine List.filter_congr fun t listed => ?_
    simp only [tracks.past r.address t listed, decide_true, Bool.and_true]
  rw [young]
  refine (tracks.rationed r.address).window_le _ fun t t' first second => ?_
  simp only [Bool.and_eq_true, decide_eq_true_eq] at first second
  exact (sub_le_sub_right second.2 t).trans_lt first.1

theorem Tracks.serve (tracks : Tracks s r.now) : Tracks (s.serve r) r.now := by
  by_cases full : authRateLimit ≤ (s.counted r).length
  · rw [serve_of_full full]
    exact tracks
  · constructor
    · intro address later passed
      rw [admittedOf_of_room full, authAttempts_of_room full]
      by_cases own : r.address = address
      · subst own
        -- What the pruning forgets is not recent at any later time either.
        rw [Function.update_self, if_pos rfl, recent_append, recent_append, Served.counted,
          recent_recent passed, tracks.counts r.address later passed]
      · rw [Function.update_of_ne (Ne.symm own), if_neg own, List.append_nil]
        exact tracks.counts address later passed
    · intro address t listed
      rw [admittedOf_of_room full, List.mem_append] at listed
      rcases listed with earlier | new
      · exact tracks.past address t earlier
      · split_ifs at new with own
        · exact (List.mem_singleton.mp new).le
        · cases new
    · intro address
      rw [admittedOf_of_room full]
      by_cases own : r.address = address
      · subst own
        rw [if_pos rfl]
        refine (tracks.rationed r.address).snoc ?_
        rw [← tracks.counted_eq]
        exact Nat.lt_of_not_le full
      · rw [if_neg own, List.append_nil]
        exact tracks.rationed address

theorem tracks_after (rs : List AuthRequest) (clock : rs.Pairwise fun r r' => r.now ≤ r'.now)
    (passed : ∀ r ∈ rs, r.now ≤ now) : Tracks (Served.init.after rs) now := by
  induction rs using List.reverseRecOn generalizing now with
  | nil => exact tracks_init now
  | append_singleton rs r ih =>
    obtain ⟨order, -, last⟩ := List.pairwise_append.mp clock
    have before : Tracks (Served.init.after rs) r.now :=
      ih order fun r' listed => last r' listed r (List.mem_singleton_self r)
    unfold Served.after at before ⊢
    rw [List.foldl_append]
    exact before.serve.later (passed r (List.mem_append_right rs (List.mem_singleton_self r)))

theorem rationed_after {rs : List AuthRequest} (clock : rs.Pairwise fun r r' => r.now ≤ r'.now)
    (address : String) :
    Rationed authRateLimit authRateWindow ((Served.init.after rs).admittedOf address) := by
  rcases List.eq_nil_or_concat rs with rfl | ⟨before, r, rfl⟩
  · exact .nil
  · rw [List.concat_eq_append] at clock ⊢
    have passed : ∀ r' ∈ before ++ [r], r'.now ≤ r.now := by
      intro r' listed
      rcases List.mem_append.mp listed with earlier | last
      · exact (List.pairwise_append.mp clock).2.2 r' earlier r (List.mem_singleton_self r)
      · exact (congrArg AuthRequest.now (List.mem_singleton.mp last)).le
    exact (tracks_after _ clock passed).rationed address

end Invariant

section Independence

variable {s s' : Served} {r : AuthRequest} {address : String}

structure SameFor (address : String) (s s' : Served) : Prop where
  attempts : s.authAttempts address = s'.authAttempts address
  admitted : s.admittedOf address = s'.admittedOf address

theorem SameFor.serve_own (same : SameFor address s s') (own : r.address = address) :
    SameFor address (s.serve r) (s'.serve r) := by
  subst own
  have counted : s.counted r = s'.counted r := by
    rw [Served.counted, Served.counted, same.attempts]
  by_cases full : authRateLimit ≤ (s.counted r).length
  · rw [serve_of_full full, serve_of_full (counted ▸ full)]
    exact same
  · have full' : ¬ authRateLimit ≤ (s'.counted r).length := counted ▸ full
    constructor
    · rw [authAttempts_of_room full, authAttempts_of_room full', Function.update_self,
        Function.update_self, counted]
    · rw [admittedOf_of_room full, admittedOf_of_room full', same.admitted]

theorem SameFor.serve_other (same : SameFor address s s') (other : r.address ≠ address) :
    SameFor address (s.serve r) s' := by
  by_cases full : authRateLimit ≤ (s.counted r).length
  · rw [serve_of_full full]
    exact same
  · constructor
    · rw [authAttempts_of_room full, Function.update_of_ne other.symm, same.attempts]
    · rw [admittedOf_of_room full, if_neg other, List.append_nil, same.admitted]

theorem SameFor.after (same : SameFor address s s') (rs : List AuthRequest) :
    SameFor address (s.after rs) (s'.after (rs.filter fun r => r.address == address)) := by
  induction rs generalizing s s' with
  | nil => exact same
  | cons r rs ih =>
    by_cases own : r.address = address
    · rw [List.filter_cons_of_pos (by simpa using own)]
      exact ih (same.serve_own own)
    · rw [List.filter_cons_of_neg (by simpa using own)]
      exact ih (same.serve_other own)

end Independence

/-- A request is refused exactly when its address has used up the window that ends with it; so
every half-open interval of that length has at most the limit of admitted requests of an address,
and what is admitted of an address does not depend on the others. -/
theorem auth_limit_is_sliding_window (rs : List AuthRequest)
    (clock : rs.Pairwise fun r r' => r.now ≤ r'.now) :
    (∀ before r later, rs = before ++ r :: later →
      ((Served.init.after before).rejects r = true ↔
        (((Served.init.after before).admittedOf r.address).filter
          fun t => decide (r.now - t < authRateWindow)).length = authRateLimit)) ∧
    (∀ address start,
      (((Served.init.after rs).admittedOf address).filter
        fun t => decide (start ≤ t ∧ t < start + authRateWindow)).length ≤ authRateLimit ∧
      (((Served.init.after rs).admittedOf address).filter
        fun t => decide (start < t ∧ t ≤ start + authRateWindow)).length ≤ authRateLimit) ∧
    ∀ address, (Served.init.after rs).admittedOf address =
      (Served.init.after (rs.filter fun r => r.address == address)).admittedOf address := by
  refine ⟨?_, ?_, fun address => (SameFor.after ⟨rfl, rfl⟩ rs).admitted⟩
  · rintro before r later rfl
    obtain ⟨order, -, last⟩ := List.pairwise_append.mp clock
    have tracks : Tracks (Served.init.after before) r.now :=
      tracks_after before order fun r' listed => last r' listed r (List.mem_cons_self ..)
    have bound := tracks.counted_le
    rw [tracks.counted_eq] at bound
    rw [rejects_iff, tracks.counted_eq]
    exact ⟨fun full => le_antisymm bound full, ge_of_eq⟩
  · intro address start
    have rationed := rationed_after clock address
    constructor
    · refine rationed.window_le _ fun t t' first second => ?_
      simp only [decide_eq_true_eq] at first second
      linarith
    · refine rationed.window_le _ fun t t' first second => ?_
      simp only [decide_eq_true_eq] at first second
      linarith

def burst : List AuthRequest := (List.range 11).map fun k => ⟨some "10.0.0.1", k⟩

theorem burst_refuses_eleventh :
    (burst.Pairwise fun r r' => r.now ≤ r'.now) ∧
      (Served.init.after (burst.take 10)).rejects ⟨some "10.0.0.1", 10⟩ = true :=
  have clock : burst.Pairwise fun r r' => r.now ≤ r'.now := by decide +kernel
  ⟨clock, ((auth_limit_is_sliding_window burst clock).1 (burst.take 10) ⟨some "10.0.0.1", 10⟩ []
    (by decide +kernel)).mpr (by decide +kernel)⟩

end HftGrading.Web.AuthLimiter
