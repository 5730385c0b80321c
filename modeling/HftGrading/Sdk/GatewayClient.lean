/- module: HftGrading/Sdk/GatewayClient
   source: sdk/include/sdk/gateway_client.hpp, sdk/include/sdk/protocol.hpp
   digest: The event loop of a contestant's engine makes the callbacks of the stream however recv splits it. -/

import HftGrading.Lib.PartialExecution
import HftGrading.Sandbox.WireBytes

set_option autoImplicit false
set_option relaxedAutoImplicit false

namespace HftGrading.Sdk.GatewayClient

open HftGrading.Lib.PartialExecution HftGrading.Lib.StreamFraming
open Sandbox.WireBytes

/-- The calls of `IStrategy`, each with the bytes of its message. -/
inductive Callback
  | onSessionStart (session : List Byte)
  | onOrder (order : List Byte)
  | onCancel (cancel : List Byte)
  | onSessionEnd (session : List Byte)
  deriving DecidableEq, Repr

def bufSize : Nat := 65536

structure Scan where
  offset : Nat
  made : List Callback

/-- One round of the inner loop over the used part of the buffer. It is left with `true` if
`run` returns. -/
def Scan.round (buf : List Byte) (s : Scan) : Option (Scan ⊕ (Scan × Bool)) :=
  match buf.drop s.offset with
  | [] => some (.inr (s, false))
  | byte :: rest =>
    let msize := msgSize byte
    if msize = 0 ∨ rest.length + 1 < msize then some (.inr (s, false))
    else
      let msg := (byte :: rest).take msize
      match peekMsgType byte with
      | some .sessionStart => some (.inl ⟨s.offset + msize, s.made ++ [.onSessionStart msg]⟩)
      | some .orderEntry => some (.inl ⟨s.offset + msize, s.made ++ [.onOrder msg]⟩)
      | some .cancelRequest => some (.inl ⟨s.offset + msize, s.made ++ [.onCancel msg]⟩)
      | some .sessionEnd => some (.inr (⟨s.offset, s.made ++ [.onSessionEnd msg]⟩, true))
      -- Heartbeats, and messages that only the exchange sends, are passed over.
      | _ => some (.inl ⟨s.offset + msize, s.made⟩)

/-- `memmove` of the unread bytes to the start of the buffer. -/
def moveDown (buf : List Byte) (offset : Nat) : List Byte :=
  if 0 < offset ∧ offset < buf.length then buf.drop offset
  else if buf.length ≤ offset then []
  else buf

/-- The client between two calls of `recv`: the used part of its buffer, the bytes of the host it
has not received, and the calls made so far. -/
structure Client where
  buf : List Byte
  inbound : List Byte
  received : Nat
  made : List Callback

/-- What a `recv` returns: at least one byte if there is one and a place for it, and otherwise as
many as the kernel likes. -/
def recv (split : Nat → Nat) (c : Client) : List Byte :=
  c.inbound.take (min (split c.received + 1) (bufSize - c.buf.length))

def Client.round (split : Nat → Nat) (c : Client) : Option (Client ⊕ List Callback) :=
  let chunk := recv split c
  if chunk = [] then some (.inr c.made)
  else
    let buf := c.buf ++ chunk
    match loop (Scan.round buf) (buf.length + 1) ⟨0, c.made⟩ with
    | none => none
    | some (s, true) => some (.inr s.made)
    | some (s, false) => some (.inl
        { buf := moveDown buf s.offset
          inbound := c.inbound.drop chunk.length
          received := c.received + 1
          made := s.made })

/-- The calls of a session in which the host sends `stream` and closes the connection. Every round
but the last receives a byte. -/
def run (split : Nat → Nat) (stream : List Byte) : Option (List Callback) :=
  loop (Client.round split) (stream.length + 1) ⟨[], stream, 0, []⟩

def callbacks : List (List Byte) → List Callback
  | [] => []
  | msg :: later =>
    match msg.head?.bind peekMsgType with
    | some .sessionStart => .onSessionStart msg :: callbacks later
    | some .orderEntry => .onOrder msg :: callbacks later
    | some .cancelRequest => .onCancel msg :: callbacks later
    | some .sessionEnd => [.onSessionEnd msg]
    | _ => callbacks later

def callbacksOf (stream : List Byte) : List Callback := callbacks (frames msgSize stream)

theorem callbacksOf_of_stuck {stream : List Byte} (stuck : frames msgSize stream = []) :
    callbacksOf stream = [] := by
  rw [callbacksOf, stuck, callbacks]

section Scanning

variable {buf : List Byte}

structure Reads (buf : List Byte) (s s' : Scan) : Prop where
  forward : s.offset < s'.offset
  within : s'.offset ≤ buf.length
  calls : ∀ later, s.made ++ callbacksOf (buf.drop s.offset ++ later) =
    s'.made ++ callbacksOf (buf.drop s'.offset ++ later)

theorem Scan.round_cases (s : Scan) :
    (∃ s', Scan.round buf s = some (.inl s') ∧ Reads buf s s') ∨
      (∃ s', Scan.round buf s = some (.inr (s', true)) ∧
        ∀ later, s.made ++ callbacksOf (buf.drop s.offset ++ later) = s'.made) ∨
      Scan.round buf s = some (.inr (s, false)) ∧ frames msgSize (buf.drop s.offset) = [] := by
  rw [Scan.round]
  cases unread : buf.drop s.offset with
  | nil => exact Or.inr (Or.inr ⟨rfl, rfl⟩)
  | cons byte rest =>
    by_cases stop : msgSize byte = 0 ∨ rest.length + 1 < msgSize byte
    · simp only [if_pos stop]
      exact Or.inr (Or.inr ⟨trivial, frames_eq_nil_iff.mpr stop⟩)
    obtain ⟨some, whole⟩ := not_or.mp stop
    rw [Nat.not_lt] at whole
    have length := congrArg List.length unread
    rw [List.length_drop, List.length_cons] at length
    have next : buf.drop (s.offset + msgSize byte) = (byte :: rest).drop (msgSize byte) := by
      rw [← List.drop_drop, unread]
    have tagged : ((byte :: rest).take (msgSize byte)).head? = Option.some byte := by
      rw [List.head?_take, if_neg some, List.head?_cons]
    -- The call of the message, in front of those of the bytes behind it.
    have step : ∀ made, (∀ fs, s.made ++ callbacks ((byte :: rest).take (msgSize byte) :: fs) =
        made ++ callbacks fs) → Reads buf s ⟨s.offset + msgSize byte, made⟩ := by
      intro made call
      refine ⟨by show s.offset < s.offset + msgSize byte; omega,
        by show s.offset + msgSize byte ≤ buf.length; omega, fun later => ?_⟩
      rw [next, unread, callbacksOf, frames_append_of_whole some whole, call, callbacksOf]
    simp only [if_neg stop]
    cases type : peekMsgType byte with
    | none =>
      refine Or.inl ⟨_, rfl, step _ fun fs => ?_⟩
      simp only [callbacks, tagged, Option.bind_some, type]
    | some type' =>
      cases type' with
      | sessionEnd =>
        refine Or.inr (Or.inl ⟨_, rfl, fun later => ?_⟩)
        rw [callbacksOf, frames_append_of_whole some whole]
        simp only [callbacks, tagged, Option.bind_some, type]
      | sessionStart | orderEntry | cancelRequest =>
        refine Or.inl ⟨_, rfl, step _ fun fs => ?_⟩
        simp only [callbacks, tagged, Option.bind_some, type, List.append_assoc,
          List.singleton_append]
      | _ =>
        refine Or.inl ⟨_, rfl, step _ fun fs => ?_⟩
        simp only [callbacks, tagged, Option.bind_some, type]

theorem scan_returns (buf : List Byte) (made : List Callback) :
    ∃ r, loop (Scan.round buf) (buf.length + 1) ⟨0, made⟩ = some r ∧
      (r.2 = true → ∀ later, made ++ callbacksOf (buf ++ later) = r.1.made) ∧
      (r.2 = false → frames msgSize (buf.drop r.1.offset) = [] ∧
        ∀ later, made ++ callbacksOf (buf ++ later) =
          r.1.made ++ callbacksOf (buf.drop r.1.offset ++ later)) := by
  let Inv (s : Scan) : Prop := ∀ later,
    made ++ callbacksOf (buf ++ later) = s.made ++ callbacksOf (buf.drop s.offset ++ later)
  refine loop_returns (Scan.round buf) Inv (fun s => buf.length - s.offset) _ ?_ _ ⟨0, made⟩
    (fun later => rfl) (Nat.lt_succ_of_le (Nat.sub_le _ _))
  intro s calls
  rcases s.round_cases with ⟨s', next, reads⟩ | ⟨s', ended, calls'⟩ | ⟨stopped, stuck⟩
  · refine Or.inl ⟨s', next, fun later => (calls later).trans (reads.calls later), ?_⟩
    have := reads.forward
    have := reads.within
    show buf.length - s'.offset < buf.length - s.offset
    omega
  · refine Or.inr ⟨_, ended, fun _ later => (calls later).trans (calls' later), fun no => ?_⟩
    cases no
  · refine Or.inr ⟨_, stopped, fun yes => ?_, fun _ => ⟨stuck, calls⟩⟩
    cases yes

theorem moveDown_eq (offset : Nat) : moveDown buf offset = buf.drop offset := by
  rw [moveDown]
  split_ifs with moves done
  · rfl
  · rw [List.drop_eq_nil_of_le done]
  · have start : offset = 0 := by omega
    rw [start, List.drop_zero]

end Scanning

section Receiving

variable (split : Nat → Nat)

structure Following (stream : List Byte) (c : Client) : Prop where
  calls : c.made ++ callbacksOf (c.buf ++ c.inbound) = callbacksOf stream
  stuck : frames msgSize c.buf = []

theorem size_le_of_msgSize (byte : Byte) : msgSize byte ≤ 64 := by
  rw [msgSize]
  cases peekMsgType byte with
  | none => exact Nat.zero_le _
  | some type => cases type <;> decide

theorem stuck_of_full {buf : List Byte} (stuck : frames msgSize buf = [])
    (full : bufSize ≤ buf.length) (later : List Byte) : frames msgSize (buf ++ later) = [] := by
  cases buf with
  | nil => exact absurd full (by decide)
  | cons byte rest =>
    have short := size_le_of_msgSize byte
    rw [bufSize, List.length_cons] at full
    rcases frames_eq_nil_iff.mp stuck with unknown | incomplete
    · exact frames_eq_nil_iff.mpr (Or.inl unknown)
    · omega

variable {split} {stream : List Byte} {c : Client}

theorem Following.done (following : Following stream c) (none : recv split c = []) :
    c.made = callbacksOf stream := by
  have rest : frames msgSize (c.buf ++ c.inbound) = [] := by
    rcases List.take_eq_nil_iff.mp none with space | closed
    · exact stuck_of_full following.stuck (by omega) c.inbound
    · rw [closed, List.append_nil]
      exact following.stuck
  rw [← following.calls, callbacksOf_of_stuck rest, List.append_nil]

theorem recv_append (split : Nat → Nat) (c : Client) :
    recv split c ++ c.inbound.drop (recv split c).length = c.inbound := by
  obtain ⟨rest, whole⟩ : recv split c <+: c.inbound := List.take_prefix _ _
  rw [← whole, List.drop_left]

theorem Following.round (following : Following stream c) :
    (∃ c', Client.round split c = some (.inl c') ∧ Following stream c' ∧
        c'.inbound.length < c.inbound.length) ∨
      ∃ made, Client.round split c = some (.inr made) ∧ made = callbacksOf stream := by
  rw [Client.round]
  by_cases none : recv split c = []
  · exact Or.inr ⟨c.made, if_pos none, following.done none⟩
  obtain ⟨r, scanned, ended, stopped⟩ := scan_returns (c.buf ++ recv split c) c.made
  have calls := following.calls
  rw [← recv_append split c, ← List.append_assoc] at calls
  simp only [if_neg none, scanned]
  obtain ⟨s, returned⟩ := r
  cases returned with
  | true => exact Or.inr ⟨s.made, rfl, (ended rfl _).symm.trans calls⟩
  | false =>
    obtain ⟨stuck, rest⟩ := stopped rfl
    refine Or.inl ⟨_, rfl, ⟨?_, ?_⟩, ?_⟩
    · rw [moveDown_eq, ← rest, calls]
    · rw [moveDown_eq]
      exact stuck
    · have some : 0 < (recv split c).length := List.length_pos_iff.mpr none
      have all := congrArg List.length (recv_append split c)
      rw [List.length_append] at all
      show (c.inbound.drop (recv split c).length).length < c.inbound.length
      omega

end Receiving

/-- However `recv` splits the stream, the strategy is called for its messages in order, up to the
end of the session, the first byte that names no message, or the last complete message. -/
theorem run_calls_stream (split : Nat → Nat) (stream : List Byte) :
    run split stream = some (callbacksOf stream) := by
  have start : Following stream ⟨[], stream, 0, []⟩ := ⟨rfl, rfl⟩
  obtain ⟨made, ran, same⟩ := loop_returns (Client.round split) (Following stream)
    (fun c => c.inbound.length) (fun made => made = callbacksOf stream)
    (fun c following => following.round) (stream.length + 1) _ start (Nat.lt_succ_self _)
  rw [run, ran, same]

end HftGrading.Sdk.GatewayClient
