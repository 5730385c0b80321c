/- module: HftGrading/Sandbox/JsonEscape
   source: sandbox/include/sandbox/firecracker_manager.hpp
   digest: The escaping of a string for JSON, and for which strings it is safe and can be undone. -/

import Mathlib.Algebra.Order.BigOperators.Group.List
import Mathlib.Algebra.Order.Group.Nat

set_option autoImplicit false
set_option relaxedAutoImplicit false

namespace HftGrading.Sandbox.JsonEscape

open List

abbrev Byte := BitVec 8

abbrev Memory := Nat → Byte

def store (dst : Memory) (start : Nat) (bytes : List Byte) : Memory := fun k =>
  if start ≤ k then (bytes[k - start]?).getD (dst k) else dst k

/-- The text of `"\\u%04x"` for `static_cast<unsigned>(c)`, where `c` is a signed `char`. -/
def unicodeEscape (c : Byte) : List Byte :=
  92 :: 117 :: ((Nat.toDigits 16 (c.signExtend 32).toNat).leftpad 4 '0').map
    fun digit => .ofNat 8 digit.toNat

/-- One round of the loop on the buffer and `j`. -/
def escapeRound (dstSize : Nat) (c : Byte) (dst : Memory) (j : Nat) : Memory × Nat :=
  if c = 34 ∨ c = 92 then
    if j + 1 < dstSize - 1 then (store (store dst j [92]) (j + 1) [c], j + 2)
    else (store dst j [92], j + 1)
  -- the comparison is signed
  else if c.toInt < 0x20 then
    if j + 6 < dstSize then
      -- `snprintf` cuts the text to the room, but returns its whole length
      (store dst j ((unicodeEscape c).take (dstSize - j - 1) ++ [0]), j + (unicodeEscape c).length)
    else (dst, j)
  else (store dst j [c], j + 1)

def escapeLoop (dstSize : Nat) : List Byte → Memory → Nat → Memory × Nat
  | [], dst, j => (dst, j)
  | c :: src, dst, j =>
    if j < dstSize - 2 then
      escapeLoop dstSize src (escapeRound dstSize c dst j).1 (escapeRound dstSize c dst j).2
    else (dst, j)

/-- The buffer after `json_escape` of the bytes before the NUL of `src`. -/
def jsonEscape (dst : Memory) (dstSize : Nat) (src : List Byte) : Memory :=
  store (escapeLoop dstSize src dst 0).1 (escapeLoop dstSize src dst 0).2 [0]

section Json

def hexValue (c : Byte) : Option Nat :=
  if 48 ≤ c ∧ c ≤ 57 then some (c.toNat - 48)
  else if 97 ≤ c ∧ c ≤ 102 then some (c.toNat - 87)
  else if 65 ≤ c ∧ c ≤ 70 then some (c.toNat - 55)
  else none

/-- The UTF-8 bytes of a code unit. -/
def utf8 (n : Nat) : List Byte :=
  if n < 0x80 then [.ofNat 8 n]
  else if n < 0x800 then [.ofNat 8 (0xC0 + n / 64), .ofNat 8 (0x80 + n % 64)]
  else [.ofNat 8 (0xE0 + n / 4096), .ofNat 8 (0x80 + n / 64 % 64), .ofNat 8 (0x80 + n % 64)]

/-- A byte that stands for itself. -/
def Plain (c : Byte) : Prop := 32 ≤ c ∧ c ≠ 34 ∧ c ≠ 92

instance (c : Byte) : Decidable (Plain c) := inferInstanceAs (Decidable (_ ∧ _))

def simpleEscapes : List (Byte × Byte) :=
  [(34, 34), (92, 92), (47, 47), (98, 8), (102, 12), (110, 10), (114, 13), (116, 9)]

/-- The code unit of four hexadecimal digits. -/
def decodeUnit : List Byte → Option (List Byte × List Byte)
  | a :: b :: c :: d :: rest => do
    let n := 4096 * (← hexValue a) + 256 * (← hexValue b) + 16 * (← hexValue c) + (← hexValue d)
    return (utf8 n, rest)
  | _ => none

def decodeEscape : List Byte → Option (List Byte × List Byte)
  | [] => none
  | e :: rest =>
    if e = 117 then decodeUnit rest else (simpleEscapes.lookup e).map fun c => ([c], rest)

/-- One character of the body of a JSON string: its bytes, and the rest. -/
def decodeOne : List Byte → Option (List Byte × List Byte)
  | [] => none
  | c :: rest => if c = 92 then decodeEscape rest else if Plain c then some ([c], rest) else none

/-- The text is the body of a JSON string with this value. -/
inductive Decodes : List Byte → List Byte → Prop
  | nil : Decodes [] []
  | cons {text bytes rest value : List Byte} (first : decodeOne text = some (bytes, rest))
      (others : Decodes rest value) : Decodes text (bytes ++ value)

end Json

/-- The memory holds a string that ends with its first NUL. -/
def IsString (m : Memory) (text : List Byte) : Prop :=
  (range text.length).map m = text ∧ m text.length = 0 ∧ 0 ∉ text

/-- Only the buffer is written, it holds a string, and with room enough for every byte to become
six the string is a JSON body with the source as its value. -/
def Escapes (dst : Memory) (dstSize : Nat) (src : List Byte) : Prop :=
  (∀ k, dstSize ≤ k → jsonEscape dst dstSize src k = dst k) ∧
    ∃ text, IsString (jsonEscape dst dstSize src) text ∧ text.length < dstSize ∧
      (6 * src.length + 2 < dstSize → Decodes text src)

section Decoding

variable {text bytes rest : List Byte}

theorem decodeUnit_append (first : decodeUnit text = some (bytes, rest)) (more : List Byte) :
    decodeUnit (text ++ more) = some (bytes, rest ++ more) := by
  rcases text with _ | ⟨a, _ | ⟨b, _ | ⟨c, _ | ⟨d, tail⟩⟩⟩⟩
  all_goals try cases first
  simp only [decodeUnit, Option.bind_eq_bind, Option.bind_eq_some_iff] at first
  obtain ⟨_, ha, _, hb, _, hc, _, hd, same⟩ := first
  cases same
  simp [decodeUnit, ha, hb, hc, hd]

theorem decodeEscape_append (first : decodeEscape text = some (bytes, rest))
    (more : List Byte) : decodeEscape (text ++ more) = some (bytes, rest ++ more) := by
  rcases text with _ | ⟨e, tail⟩
  · cases first
  rw [decodeEscape] at first
  rw [cons_append, decodeEscape]
  split_ifs at first ⊢
  · exact decodeUnit_append first more
  · obtain ⟨c, found, same⟩ := Option.map_eq_some_iff.1 first
    cases same
    rw [found, Option.map_some]

theorem decodeOne_append (first : decodeOne text = some (bytes, rest)) (more : List Byte) :
    decodeOne (text ++ more) = some (bytes, rest ++ more) := by
  rcases text with _ | ⟨c, tail⟩
  · cases first
  rw [decodeOne] at first
  rw [cons_append, decodeOne]
  split_ifs at first ⊢
  · exact decodeEscape_append first more
  · cases first
    rfl

theorem Decodes.append {text value text' value' : List Byte} (head : Decodes text value)
    (tail : Decodes text' value') : Decodes (text ++ text') (value ++ value') := by
  induction head with
  | nil => exact tail
  | cons first _ ih =>
    rw [append_assoc]
    exact .cons (decodeOne_append first _) ih

theorem Decodes.unique {text value value' : List Byte} (here : Decodes text value)
    (there : Decodes text value') : value = value' := by
  induction here generalizing value' with
  | nil =>
    cases there with
    | nil => rfl
    | cons first _ => simp [decodeOne] at first
  | cons first _ ih =>
    cases there with
    | nil => simp [decodeOne] at first
    | cons first' others' =>
      rw [first] at first'
      cases first'
      rw [ih others']

theorem decodes_plain {text : List Byte} (plain : ∀ c ∈ text, Plain c) : Decodes text text := by
  induction text with
  | nil => exact .nil
  | cons c text ih =>
    obtain ⟨here, others⟩ := forall_mem_cons.1 plain
    refine @Decodes.cons (c :: text) [c] text text ?_ (ih others)
    rw [decodeOne, if_neg here.2.2, if_pos here]

end Decoding

def escaped (c : Byte) : List Byte :=
  if c = 34 ∨ c = 92 then [92, c]
  else if c.toInt < 0x20 then unicodeEscape c
  else [c]

/-- What the text of a byte denotes: a byte above 127 is written with eight digits, and JSON reads
the first four. -/
def denoted (c : Byte) : List Byte :=
  if 128 ≤ c then utf8 0xFFFF ++ (escaped c).drop 6 else [c]

def hexDigit (n : Nat) : Byte := .ofNat 8 (Nat.digitChar n).toNat

theorem plain_hexDigit : ∀ n < 16, Plain (hexDigit n) := by decide

theorem escaped_low : ∀ c < 128, (escaped c).length ≤ 6 ∧ 0 ∉ escaped c ∧
    decodeOne (escaped c) = some ([c], []) := by
  decide +kernel

/-- The digits of a high byte that JSON takes for text. -/
def surplus (c : Byte) : List Byte := [102, 102, hexDigit (c.toNat / 16), hexDigit (c.toNat % 16)]

theorem plain_surplus (c : Byte) : ∀ d ∈ surplus c, Plain d := by
  have small : c.toNat < 256 := c.isLt
  simp only [surplus, forall_mem_cons]
  exact ⟨by decide, by decide, plain_hexDigit _ (by omega), plain_hexDigit _ (by omega), by simp⟩

theorem escaped_high {c : Byte} (high : 128 ≤ c) :
    escaped c = [92, 117, 102, 102, 102, 102] ++ surplus c := by
  have big : 128 ≤ c.toNat := high
  have small : c.toNat < 256 := c.isLt
  have negative : c.toInt < 0x20 := by
    rw [BitVec.toInt_eq_toNat_cond]
    split_ifs <;> omega
  have quoted : ¬ (c = 34 ∨ c = 92) := by
    rintro (rfl | rfl) <;> exact absurd high (by decide)
  have value : (c.signExtend 32).toNat =
      16 * (16 * 0xFFFFFF + c.toNat / 16) + c.toNat % 16 := by
    rw [BitVec.toNat_signExtend, BitVec.msb_eq_decide, decide_eq_true big, if_pos rfl,
      BitVec.toNat_setWidth]
    omega
  rw [escaped, if_neg quoted, if_pos negative, unicodeEscape, value,
    ← Nat.toDigits_append_toDigits (by decide) (by omega) (by omega),
    ← Nat.toDigits_append_toDigits (by decide) (by decide) (by omega),
    Nat.toDigits_of_lt_base (show c.toNat / 16 < 16 by omega),
    Nat.toDigits_of_lt_base (show c.toNat % 16 < 16 by omega)]
  rfl

theorem escaped_nonzero (c : Byte) : 0 ∉ escaped c := by
  by_cases high : 128 ≤ c
  · rw [escaped_high high]
    exact not_mem_append (by decide) fun zero => absurd (plain_surplus c 0 zero) (by decide)
  · exact (escaped_low c (BitVec.not_le.1 high)).2.1

theorem length_denoted (c : Byte) : (denoted c).length = 1 + if 128 ≤ c then 6 else 0 := by
  unfold denoted
  split_ifs with high
  · rw [escaped_high high]
    rfl
  · rfl

theorem decodes_escaped (c : Byte) : Decodes (escaped c) (denoted c) := by
  unfold denoted
  split_ifs with high
  · have unit : decodeOne [92, 117, 102, 102, 102, 102] = some (utf8 0xFFFF, []) := by decide
    rw [escaped_high high]
    exact .cons (decodeOne_append unit _) (decodes_plain (plain_surplus c))
  · exact .cons (escaped_low c (BitVec.not_le.1 high)).2.2 .nil

theorem decodes_flatMap (src : List Byte) :
    Decodes (src.flatMap escaped) (src.flatMap denoted) := by
  induction src with
  | nil => exact .nil
  | cons c src ih =>
    rw [flatMap_cons, flatMap_cons]
    exact (decodes_escaped c).append ih

theorem length_flatMap_denoted (src : List Byte) :
    (src.flatMap denoted).length = src.length + 6 * src.countP (128 ≤ ·) := by
  induction src with
  | nil => rfl
  | cons c src ih =>
    rw [flatMap_cons, length_append, ih, length_denoted, length_cons, countP_cons]
    simp only [decide_eq_true_eq]
    split_ifs <;> omega

theorem decodes_iff (src : List Byte) :
    Decodes (src.flatMap escaped) src ↔ ∀ c ∈ src, c < 128 := by
  constructor
  · intro same
    have lengths := length_flatMap_denoted src
    rw [← same.unique (decodes_flatMap src)] at lengths
    have none : (src.countP (128 ≤ ·)) = 0 := by omega
    simpa [countP_eq_zero] using none
  · intro ascii
    have same : src.flatMap denoted = src := by
      rw [flatMap_congr fun c listed => show denoted c = [c] from
        if_neg (BitVec.not_le.2 (ascii c listed))]
      exact flatMap_singleton' src
    have whole := decodes_flatMap src
    rwa [same] at whole

section Buffer

variable {dst : Memory} {dstSize j : Nat} {c : Byte}

theorem store_nil (dst : Memory) (j : Nat) : store dst j [] = dst := by
  funext k
  simp [store]

theorem store_outside {bytes : List Byte} {k : Nat} (beyond : j + bytes.length ≤ k) :
    store dst j bytes k = dst k := by
  unfold store
  split_ifs
  · rw [getElem?_eq_none (by omega), Option.getD_none]
  · rfl

theorem map_store (dst : Memory) (j : Nat) (bytes more : List Byte) :
    (range (j + bytes.length)).map (store dst j (bytes ++ more)) =
      (range j).map dst ++ bytes := by
  refine List.ext_getElem (by simp) fun k inside _ => ?_
  simp only [length_map, length_range] at inside
  rw [getElem_map, getElem_range, store]
  split_ifs with late
  · rw [getElem?_append_left (by omega), getElem?_eq_getElem (by omega), Option.getD_some,
      getElem_append_right (by simpa using late)]
    simp
  · rw [getElem_append_left (by simpa using late)]
    simp

theorem store_store (dst : Memory) (j : Nat) (a b : Byte) :
    store (store dst j [a]) (j + 1) [b] = store dst j [a, b] := by
  funext k
  rcases lt_trichotomy k j with early | rfl | late
  · simp [store, show ¬ j + 1 ≤ k by omega, show ¬ j ≤ k by omega]
  · simp [store]
  · obtain ⟨n, rfl⟩ := Nat.exists_eq_add_of_lt late
    simp [store, show j + 1 ≤ j + n + 1 by omega, show j ≤ j + n + 1 by omega,
      show j + n + 1 - (j + 1) = n by omega, show j + n + 1 - j = n + 1 by omega]

theorem six_le_length_unicodeEscape (c : Byte) : 6 ≤ (unicodeEscape c).length := by
  simp only [unicodeEscape, length_cons, length_map, length_leftpad]
  omega

/-- A round stores the text of its byte, or nothing where a control byte has no room. -/
theorem escapeRound_eq (dst : Memory) (room : j < dstSize - 2)
    (fits : (escaped c).length ≤ 6 ∨ j + (escaped c).length + 2 < dstSize) :
    ∃ wrote more, escapeRound dstSize c dst j = (store dst j (wrote ++ more), j + wrote.length) ∧
      j + (wrote ++ more).length ≤ dstSize ∧ j + wrote.length < dstSize ∧ 0 ∉ wrote ∧
      (j + (escaped c).length + 2 < dstSize → wrote = escaped c) := by
  have nonzero := escaped_nonzero c
  unfold escapeRound
  revert fits nonzero
  unfold escaped
  split_ifs with quote _ control enough
  · intro _ nonzero
    exact ⟨[92, c], [], by simp [store_store], by simp; omega, by simp; omega, nonzero,
      fun _ => rfl⟩
  · omega
  · intro fits nonzero
    refine ⟨unicodeEscape c, [0], ?_, by simp; omega, by omega, nonzero, fun _ => rfl⟩
    rw [take_of_length_le (by omega)]
  · intro _ _
    have long := six_le_length_unicodeEscape c
    exact ⟨[], [], by simp [store_nil], by simp; omega, by simp; omega, by simp, by omega⟩
  · intro _ nonzero
    exact ⟨[c], [], rfl, by simp; omega, by simp; omega, nonzero, fun _ => rfl⟩

theorem escapeLoop_eq (dst : Memory) (src : List Byte) (inside : j < dstSize)
    (fits : (∀ c ∈ src, (escaped c).length ≤ 6) ∨ j + (src.flatMap escaped).length + 2 < dstSize) :
    ∃ wrote, (range (escapeLoop dstSize src dst j).2).map (escapeLoop dstSize src dst j).1 =
        (range j).map dst ++ wrote ∧
      (escapeLoop dstSize src dst j).2 < dstSize ∧ 0 ∉ wrote ∧
      (∀ k, dstSize ≤ k → (escapeLoop dstSize src dst j).1 k = dst k) ∧
      (j + (src.flatMap escaped).length + 2 < dstSize → wrote = src.flatMap escaped) := by
  induction src generalizing dst j with
  | nil => exact ⟨[], by simp [escapeLoop], inside, by simp, fun _ _ => rfl, fun _ => rfl⟩
  | cons c src ih =>
    rw [flatMap_cons, length_append] at fits ⊢
    unfold escapeLoop
    split_ifs with room
    · obtain ⟨wrote, more, round, within, next, nonzero, whole⟩ :=
        escapeRound_eq dst room (fits.imp (· c mem_cons_self) (by omega))
      rw [round]
      obtain ⟨others, filled, last, nonzeros, kept, wholes⟩ :=
        ih (store dst j (wrote ++ more)) next
          (fits.imp (fun short d later => short d (mem_cons_of_mem c later))
            fun enough => by rw [whole (by omega)]; omega)
      refine ⟨wrote ++ others, ?_, last, ?_, ?_, ?_⟩
      · rw [filled, map_store, append_assoc]
      · exact not_mem_append nonzero nonzeros
      · intro k beyond
        rw [kept k beyond, store_outside (by omega)]
      · intro enough
        rw [whole (by omega), wholes (by rw [whole (by omega)]; omega)]
    · refine ⟨[], by simp, inside, by simp, fun _ _ => rfl, ?_⟩
      intro enough
      omega

end Buffer

theorem jsonEscape_eq {dst : Memory} {dstSize : Nat} {src : List Byte} (nonempty : 0 < dstSize)
    (fits : (∀ c ∈ src, (escaped c).length ≤ 6) ∨ (src.flatMap escaped).length + 2 < dstSize) :
    (∀ k, dstSize ≤ k → jsonEscape dst dstSize src k = dst k) ∧
      ∃ text, IsString (jsonEscape dst dstSize src) text ∧ text.length < dstSize ∧
        ((src.flatMap escaped).length + 2 < dstSize → text = src.flatMap escaped) := by
  obtain ⟨text, filled, last, nonzero, kept, whole⟩ :=
    escapeLoop_eq dst src nonempty (by simpa using fits)
  rw [range_zero, map_nil, nil_append] at filled
  have size : (escapeLoop dstSize src dst 0).2 = text.length := by
    simpa using congrArg length filled
  rw [size] at filled last
  refine ⟨fun k beyond => ?_, text, ⟨?_, ?_, nonzero⟩, last, by simpa using whole⟩
  · rw [jsonEscape, size, store_outside (show text.length + 1 ≤ k by omega), kept k beyond]
  · rw [jsonEscape, size]
    exact (map_store _ text.length [] [0]).trans (by rw [append_nil, filled])
  · rw [jsonEscape, size]
    simp [store]

theorem IsString.length_le {m : Memory} {text text' : List Byte} (here : IsString m text)
    (there : IsString m text') : text.length ≤ text'.length := by
  by_contra longer
  refine here.2.2 ?_
  rw [← here.1, ← there.2.1]
  exact mem_map_of_mem (mem_range.2 (by omega))

theorem IsString.unique {m : Memory} {text text' : List Byte} (here : IsString m text)
    (there : IsString m text') : text = text' := by
  rw [← here.1, ← there.1, Nat.le_antisymm (here.length_le there) (there.length_le here)]

end HftGrading.Sandbox.JsonEscape
