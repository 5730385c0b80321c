/- module: HftGrading/Web/BlendedScores
   source: web/backend/main.py, orchestrator/include/orchestrator/post_contest_validator.hpp
   digest: Leaderboard scores after any number of system-test passes. -/

import HftGrading.Web.SystemTests
import Mathlib.Tactic.Ring
import Mathlib.Tactic.Linarith

set_option autoImplicit false
set_option relaxedAutoImplicit false

namespace HftGrading.Web.BlendedScores

open Function (update)
open SystemTests

theorem blend_eq_min (c s : ℚ) : blend c s = min c (3 / 5 * c + 2 / 5 * s) := by
  simp only [blend]
  split_ifs with lower
  · exact (min_eq_right lower.le).symm
  · exact (min_eq_left (not_lt.mp lower)).symm

theorem blend_of_le {c s : ℚ} (confirmed : c ≤ s) : blend c s = c := by
  rw [blend_eq_min]
  exact min_eq_left (by linarith)

theorem blend_of_lt {c s : ℚ} (ahead : s < c) : blend c s = s + 3 / 5 * (c - s) := by
  rw [blend_eq_min, min_eq_right (by linarith)]
  ring

theorem iterate_blend_of_le {c s : ℚ} (confirmed : c ≤ s) (n : Nat) :
    (blend · s)^[n] c = c := by
  have fixed : (fun x => blend x s) c = c := blend_of_le confirmed
  exact Function.iterate_fixed fixed n

theorem iterate_blend_of_lt {c s : ℚ} (ahead : s < c) (n : Nat) :
    (blend · s)^[n] c = s + (3 / 5) ^ n * (c - s) := by
  induction n with
  | zero => simp
  | succ n ih =>
    have still : s < s + (3 / 5) ^ n * (c - s) := by
      have positive : (0 : ℚ) < (3 / 5) ^ n * (c - s) :=
        mul_pos (by positivity) (sub_pos.mpr ahead)
      linarith
    rw [Function.iterate_succ_apply', ih, blend_of_lt still]
    ring

theorem iterate_blend_eq_iff {c s : ℚ} {n : Nat} :
    (blend · s)^[n] c = min c (3 / 5 * c + 2 / 5 * s) ↔ n = 1 ∨ c ≤ s := by
  rw [← blend_eq_min]
  by_cases confirmed : c ≤ s
  · simp only [iterate_blend_of_le confirmed, blend_of_le confirmed, confirmed, or_true]
  · have ahead := not_le.mp confirmed
    have gap : c - s ≠ 0 := (sub_pos.mpr ahead).ne'
    rw [iterate_blend_of_lt ahead, blend_of_lt ahead, add_right_inj, mul_left_inj' gap]
    constructor
    · intro same
      have injective := pow_right_injective₀ (show (0 : ℚ) < 3 / 5 by norm_num) (by norm_num)
      exact .inl (injective (same.trans (pow_one _).symm))
    · rintro (once | le)
      · rw [once, pow_one]
      · exact absurd le confirmed

variable {Team : Type} [LinearOrder Team]

theorem mem_zrevrange (board : Leaderboard Team) (team : Team) (score : ℚ) :
    (team, score) ∈ zrevrange board ↔ zscore board team = some score := by
  rw [zscore, ← Option.mem_def, AList.mem_lookup_iff, zrevrange, List.mem_map]
  constructor
  · rintro ⟨entry, listed, same⟩
    rw [List.mem_insertionSort] at listed
    cases same
    exact listed
  · intro listed
    exact ⟨⟨team, score⟩, (List.mem_insertionSort _).mpr listed, rfl⟩

theorem zrevrange_distinct (board : Leaderboard Team) :
    ((zrevrange board).map Prod.fst).Nodup := by
  have sorted := (List.perm_insertionSort ranks board.entries).map Sigma.fst
  rw [zrevrange, List.map_map]
  exact sorted.nodup_iff.mpr board.nodupKeys

section Passes

variable (measure : Team → ℚ)

/-- A team's test and the `zadd` of its final score, when `run_contest` measures `measure`. -/
def testActions (entry : Team × ℚ) : List Action :=
  [.test (.reported (blend entry.2 (measure entry.1))), .record]

def passActions (s : System Team) : List Action :=
  .start :: (zrevrange s.leaderboard).flatMap (testActions measure)

def afterPasses : Nat → System Team → System Team
  | 0, s => s
  | n + 1, s => (passActions measure (afterPasses n s)).foldl step (afterPasses n s)

theorem test_runs (s : System Team) (entry : Team × ℚ) (rest : List (Team × ℚ))
    (pass : s.pass = .next (entry :: rest)) :
    ((testActions measure entry).foldl step s).pass = .next rest ∧
      ((testActions measure entry).foldl step s).leaderboard =
        zadd s.leaderboard entry.1 (blend entry.2 (measure entry.1)) := by
  have here : s.pass = .testing entry.1 entry.2 rest := pass
  simp only [testActions, List.foldl_cons, List.foldl_nil, step, here, TestOutcome.finalScore]
  exact ⟨trivial, trivial⟩

theorem tests_run (s : System Team) (teams : List (Team × ℚ))
    (distinct : (teams.map Prod.fst).Nodup) (pass : s.pass = .next teams) :
    let final := (teams.flatMap (testActions measure)).foldl step s
    final.pass = .over ∧
      (∀ entry ∈ teams,
        zscore final.leaderboard entry.1 = some (blend entry.2 (measure entry.1))) ∧
      ∀ team, team ∉ teams.map Prod.fst →
        zscore final.leaderboard team = zscore s.leaderboard team := by
  induction teams generalizing s with
  | nil => exact ⟨pass, by simp, fun _ _ => rfl⟩
  | cons entry rest ih =>
    obtain ⟨next, board⟩ := test_runs measure s entry rest pass
    rw [List.map_cons, List.nodup_cons] at distinct
    obtain ⟨finished, tested, others⟩ := ih _ distinct.2 next
    simp only [List.flatMap_cons, List.foldl_append]
    refine ⟨finished, fun other listed => ?_, fun team unlisted => ?_⟩
    · rcases List.mem_cons.mp listed with rfl | later
      · rw [others _ distinct.1, board, zscore_zadd]
      · exact tested other later
    · rw [List.map_cons, List.mem_cons, not_or] at unlisted
      rw [others team unlisted.2, board, zscore_zadd_of_ne _ unlisted.1]

theorem pass_runs (s : System Team) (idle : s.pass = .over) :
    ((passActions measure s).foldl step s).pass = .over ∧
      ∀ team, zscore ((passActions measure s).foldl step s).leaderboard team =
        (zscore s.leaderboard team).map (blend · (measure team)) := by
  have started : step s .start = { s with pass := .next (zrevrange s.leaderboard) } := by
    simp only [step, idle]
  obtain ⟨finished, tested, others⟩ := tests_run measure (step s .start) (zrevrange s.leaderboard)
    (zrevrange_distinct s.leaderboard) (by rw [started])
  rw [passActions, List.foldl_cons]
  refine ⟨finished, fun team => ?_⟩
  cases known : zscore s.leaderboard team with
  | none =>
    have unlisted : team ∉ (zrevrange s.leaderboard).map Prod.fst := by
      intro listed
      obtain ⟨entry, mem, rfl⟩ := List.mem_map.mp listed
      rw [(mem_zrevrange s.leaderboard entry.1 entry.2).mp mem] at known
      cases known
    rw [others team unlisted, started]
    exact known
  | some score => exact tested (team, score) ((mem_zrevrange s.leaderboard team score).mpr known)

theorem afterPasses_runs (s : System Team) (idle : s.pass = .over) (n : Nat) :
    (afterPasses measure n s).pass = .over ∧
      ∀ team, zscore (afterPasses measure n s).leaderboard team =
        (zscore s.leaderboard team).map (blend · (measure team))^[n] := by
  induction n with
  | zero => exact ⟨idle, fun team => Option.map_id'.symm⟩
  | succ n ih =>
    obtain ⟨finished, blended⟩ := pass_runs measure (afterPasses measure n s) ih.1
    refine ⟨finished, fun team => ?_⟩
    rw [afterPasses, blended team, ih.2 team, Option.map_map, Function.iterate_succ']

end Passes

/-- After `n` passes that measure the same system score, a team's leaderboard score is the blend
of the contest score once, or when the tests confirm the contest score. -/
theorem passes_keep_blend_iff (measure : Team → ℚ) (s : System Team) (idle : s.pass = .over)
    (team : Team) (c : ℚ) (scored : zscore s.leaderboard team = some c) (n : Nat) :
    zscore (afterPasses measure n s).leaderboard team =
        some (min c (3 / 5 * c + 2 / 5 * measure team)) ↔
      n = 1 ∨ c ≤ measure team := by
  rw [(afterPasses_runs measure s idle n).2 team, scored, Option.map_some, Option.some_inj]
  exact iterate_blend_eq_iff

theorem passes_keep_blend_iff_once :
    zscore (afterPasses (fun _ => 1 / 4) 1 queued).leaderboard 7 =
      some (min (1 / 2) (3 / 5 * (1 / 2) + 2 / 5 * (1 / 4))) :=
  (passes_keep_blend_iff (fun _ => 1 / 4) queued rfl 7 (1 / 2) (by decide +kernel) 1).mpr
    (.inl rfl)

/-- A second pass blends the blend. -/
theorem second_pass_lowers_blend :
    zscore (afterPasses (fun _ => 1 / 4) 2 queued).leaderboard 7 = some (17 / 50) ∧
      min (1 / 2) (3 / 5 * (1 / 2) + 2 / 5 * (1 / 4) : ℚ) = 2 / 5 := by
  decide +kernel

end HftGrading.Web.BlendedScores
