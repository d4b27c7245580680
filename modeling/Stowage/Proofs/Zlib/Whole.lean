import Stowage.Proofs.Zlib.Run

/-!
# Streams decoded in one piece

A stream that is there as a whole is decoded by running the machine on it with all the
room that it takes (`Machine.runAll`).  `decode` says how this ends and what has been
written.  Nothing in it depends on chunks, windows or room, so it is what the work of a
decoder that is called piece by piece is measured by.

A run in pieces, cut anywhere, leads to where the whole run leads (`Runs.resumes`).  Hence
what is written for the start of some input is the start of what is written for all of it
(`output_isPrefix_append`), and what follows the end of a stream makes no difference
(`decode_append`).
-/

namespace Stowage.Zlib
namespace Machine

variable {m m' : Machine} {input later rest data : Bytes} {room : Nat}

/-! ## Runs with all the room they take -/

/-- More than how often the machine can write before it reads again. -/
def writesAhead (m : Machine) : Nat :=
  match m.phase with
  | .byte _ => 1
  | .copy _ left => left + 1
  | _ => 0

theorem hand_emit (m : Machine) : m.emit.hand = m.hand := by
  unfold emit
  repeat' split
  all_goals rfl

theorem writesAhead_emit_lt (h : m.Emits) : m.emit.writesAhead < m.writesAhead := by
  rcases h with ⟨value, h⟩ | ⟨distance, left, h⟩
  · rw [emit, writesAhead, writesAhead, h]
    exact Nat.zero_lt_one
  · rw [emit, writesAhead, writesAhead, h]
    by_cases hlast : left ≤ 1
    · simp only [hlast, if_true, readWord, enter]
      omega
    · simp only [hlast, if_false, enter]
      omega

/-- Runs on some input until the stream ends or breaks, or more input is needed.  Returns
what is left of the input. -/
def runAll (m : Machine) (input : Bytes) : Machine × Bytes :=
  match _hphase : m.phase with
  | .ended => (m, input)
  | .broken => (m, input)
  | .byte _ => m.emit.runAll input
  | .copy _ _ => m.emit.runAll input
  | .stored left =>
    match input with
    | b :: rest => (m.onStored left b).runAll rest
    | [] => (m, [])
  | .field .. | .word .. =>
    match _h : m.hand with
    | bit :: hand => ({ m with hand }.onBit bit).runAll input
    | [] =>
      match input with
      | b :: rest => { m with hand := bitsOf b }.runAll rest
      | [] => (m, [])
  termination_by (9 * input.length + m.hand.length, m.writesAhead)
  decreasing_by
    all_goals first
      | -- writing leaves the input and the bits in hand alone
        rw [hand_emit]
        exact .right _ (writesAhead_emit_lt (by first
          | exact .inl ⟨_, _hphase⟩
          | exact .inr ⟨_, _, _hphase⟩))
      | have := m.hand_onStored_le left b
        refine .left _ _ ?_
        simp only [List.length_cons]
        omega
      | have := ({ m with hand }).hand_onBit_le bit
        refine .left _ _ ?_
        simp only [_h, List.length_cons] at this ⊢
        omega
      | refine .left _ _ ?_
        simp only [length_bitsOf, _h, List.length_cons, List.length_nil]
        omega

theorem runAll_of_over (h : m.phase = .ended ∨ m.phase = .broken) (input : Bytes) :
    m.runAll input = (m, input) := by
  rcases h with h | h <;> rw [runAll.eq_def, h]

theorem runAll_emit (h : m.Emits) (input : Bytes) : m.runAll input = m.emit.runAll input := by
  rcases h with ⟨value, h⟩ | ⟨distance, left, h⟩ <;> rw [runAll.eq_def, h]

theorem runAll_pass {left : Nat} (h : m.phase = .stored left) (b : UInt8) (input : Bytes) :
    m.runAll (b :: input) = (m.onStored left b).runAll input := by
  rw [runAll.eq_def, h]

theorem runAll_bit {bit : Bool} {hand : List Bool} (h : m.Reads) (hhand : m.hand = bit :: hand)
    (input : Bytes) : m.runAll input = ({ m with hand }.onBit bit).runAll input := by
  rcases h with ⟨f, got, value, h⟩ | ⟨use, place, h⟩
  all_goals
    rw [runAll.eq_def, h]
    dsimp only
    split
    · rename_i bit' hand' hhand'
      rw [hhand] at hhand'
      cases hhand'
      rfl
    · rename_i hhand'
      rw [hhand] at hhand'
      cases hhand'

theorem runAll_take (h : m.Reads) (hhand : m.hand = []) (b : UInt8) (input : Bytes) :
    m.runAll (b :: input) = { m with hand := bitsOf b }.runAll input := by
  rcases h with ⟨f, got, value, h⟩ | ⟨use, place, h⟩
  all_goals
    rw [runAll.eq_def, h]
    dsimp only
    split
    · rename_i hhand'
      rw [hhand] at hhand'
      cases hhand'
    · rfl

/-- Enough room is as good as all room. -/
theorem exists_runs (m : Machine) (input : Bytes) :
    ∃ room, Runs m room input (m.runAll input).1 (m.runAll input).2 := by
  fun_induction runAll m input with
  | case1 m input h => exact ⟨0, .stop (.ended h)⟩
  | case2 m input h => exact ⟨0, .stop (.broken h)⟩
  | case3 m input value h ih =>
    obtain ⟨room, ih⟩ := ih
    exact ⟨room + 1, .emit (.inl ⟨value, h⟩) ih⟩
  | case4 m input distance left h ih =>
    obtain ⟨room, ih⟩ := ih
    exact ⟨room + 1, .emit (.inr ⟨distance, left, h⟩) ih⟩
  | case5 m left h b rest ih =>
    obtain ⟨room, ih⟩ := ih
    exact ⟨room + 1, .pass h ih⟩
  | case6 m left h => exact ⟨0, .stop (.notPassed h (.inr rfl))⟩
  | case7 m input f got value h bit hand hhand ih =>
    obtain ⟨room, ih⟩ := ih
    exact ⟨room, .bit (.inl ⟨f, got, value, h⟩) hhand ih⟩
  | case8 m f got value h hhand b rest ih =>
    obtain ⟨room, ih⟩ := ih
    exact ⟨room, .take (.inl ⟨f, got, value, h⟩) hhand ih⟩
  | case9 m f got value h hhand => exact ⟨0, .stop (.noInput (.inl ⟨f, got, value, h⟩) hhand)⟩
  | case10 m input use place h bit hand hhand ih =>
    obtain ⟨room, ih⟩ := ih
    exact ⟨room, .bit (.inr ⟨use, place, h⟩) hhand ih⟩
  | case11 m use place h hhand b rest ih =>
    obtain ⟨room, ih⟩ := ih
    exact ⟨room, .take (.inr ⟨use, place, h⟩) hhand ih⟩
  | case12 m use place h hhand => exact ⟨0, .stop (.noInput (.inr ⟨use, place, h⟩) hhand)⟩

/-- **A run in pieces** leads to where the whole run leads: a machine that has taken a
piece of its input goes on as if it had not been interrupted, whatever comes next. -/
theorem Runs.resumes (h : Runs m room input m' rest) :
    ∃ read, input = read ++ rest ∧ ∀ later, m.runAll (read ++ later) = m'.runAll later := by
  induction h with
  | stop _ => exact ⟨[], rfl, fun _ => rfl⟩
  | emit hemits _ ih =>
    obtain ⟨read, rfl, hresumes⟩ := ih
    exact ⟨read, rfl, fun later => by rw [runAll_emit hemits, hresumes]⟩
  | @pass m m' room left b input rest hphase _ ih =>
    obtain ⟨read, rfl, hresumes⟩ := ih
    exact ⟨b :: read, rfl, fun later => by rw [List.cons_append, runAll_pass hphase, hresumes]⟩
  | bit hreads hhand _ ih =>
    obtain ⟨read, rfl, hresumes⟩ := ih
    exact ⟨read, rfl, fun later => by rw [runAll_bit hreads hhand, hresumes]⟩
  | @take m m' room b input rest hreads hhand _ ih =>
    obtain ⟨read, rfl, hresumes⟩ := ih
    exact ⟨b :: read, rfl, fun later => by
      rw [List.cons_append, runAll_take hreads hhand, hresumes]⟩

theorem Runs.runAll_append (h : Runs m room input m' rest) (later : Bytes) :
    m.runAll (input ++ later) = m'.runAll (rest ++ later) := by
  obtain ⟨read, rfl, hresumes⟩ := h.resumes
  rw [List.append_assoc, hresumes]

theorem runAll_append (m : Machine) (input later : Bytes) :
    m.runAll (input ++ later) = (m.runAll input).1.runAll ((m.runAll input).2 ++ later) := by
  obtain ⟨room, h⟩ := m.exists_runs input
  exact h.runAll_append later

/-- What has been written stays. -/
theorem history_isPrefix_runAll (m : Machine) (input : Bytes) :
    m.history.toList <+: (m.runAll input).1.history.toList := by
  obtain ⟨room, h⟩ := m.exists_runs input
  obtain ⟨written, heq, -⟩ := h.history
  exact ⟨written, heq.symm⟩

/-- A machine that pauses does not come to the end on no input. -/
theorem Pausing.not_ended_runAll (h : m.Pausing) : (m.runAll []).1.phase ≠ .ended := by
  obtain ⟨room, hruns⟩ := m.exists_runs []
  exact h.not_ended_of_runs hruns

/-- What leads to the end in some room leads there in all room. -/
theorem Finishes.runAll (h : m.Finishes input data) :
    (m.runAll input).1.phase = .ended ∧ (m.runAll input).1.history.toList = data := by
  obtain ⟨room, hended, hdata⟩ := h
  have happend := (runs_run m room input).runAll_append []
  rw [List.append_nil, runAll_of_over (.inl hended)] at happend
  rw [happend]
  exact ⟨hended, hdata⟩

/-! ## Decoding -/

end Machine

/-- How the decoding of some input ends. -/
inductive Outcome where
  /-- The stream is over; what follows it is not looked at. -/
  | complete
  /-- The input breaks the format. -/
  | corrupt
  /-- More input is needed. -/
  | incomplete
  deriving DecidableEq, Repr

/-- What decoding some input in one piece gives. -/
structure Decoded where
  outcome : Outcome
  /-- What is written before the end, the break, or the need for more. -/
  output : Bytes
  deriving DecidableEq, Repr

/-- How far a machine has come. -/
def Machine.outcome (m : Machine) : Outcome :=
  match m.phase with
  | .ended => .complete
  | .broken => .corrupt
  | _ => .incomplete

/-- **Decodes some input in one piece.** -/
def decode (input : Bytes) : Decoded :=
  let m := (Machine.start.runAll input).1
  ⟨m.outcome, m.history.toList⟩

/-- Some input holds a whole stream that stands for a number of bytes. -/
def Yields (input : Bytes) (length : Nat) : Prop :=
  (decode input).outcome = .complete ∧ (decode input).output.length = length

namespace Machine

theorem outcome_eq_complete_iff {m : Machine} : m.outcome = .complete ↔ m.phase = .ended := by
  rw [outcome]
  cases m.phase with
  | ended => exact ⟨fun _ => rfl, fun _ => rfl⟩
  | _ => exact ⟨nofun, nofun⟩

theorem outcome_eq_corrupt_iff {m : Machine} : m.outcome = .corrupt ↔ m.phase = .broken := by
  rw [outcome]
  cases m.phase with
  | broken => exact ⟨fun _ => rfl, fun _ => rfl⟩
  | _ => exact ⟨nofun, nofun⟩

end Machine

variable {input later data : Bytes}

/-- A stream that leads to the end in some room decodes to what is written on the way. -/
theorem decode_of_finishes (h : Machine.start.Finishes input data) :
    decode input = ⟨.complete, data⟩ := by
  obtain ⟨hended, hdata⟩ := h.runAll
  rw [decode, hdata, Machine.outcome_eq_complete_iff.mpr hended]

/-- What is written for the start of some input is the start of what is written. -/
theorem output_isPrefix_append (input later : Bytes) :
    (decode input).output <+: (decode (input ++ later)).output := by
  show (Machine.start.runAll input).1.history.toList <+: _
  rw [decode, Machine.runAll_append]
  exact Machine.history_isPrefix_runAll _ _

/-- **What follows** the end of a stream, or the place where it breaks, makes no
difference. -/
theorem decode_append (h : (decode input).outcome ≠ .incomplete) (later : Bytes) :
    decode (input ++ later) = decode input := by
  have hover : (Machine.start.runAll input).1.phase = .ended ∨
      (Machine.start.runAll input).1.phase = .broken := by
    have h : (Machine.start.runAll input).1.outcome ≠ .incomplete := h
    rw [← Machine.outcome_eq_complete_iff, ← Machine.outcome_eq_corrupt_iff]
    cases hm : (Machine.start.runAll input).1.outcome with
    | complete => exact .inl rfl
    | corrupt => exact .inr rfl
    | incomplete => exact absurd hm h
  rw [decode, decode, Machine.runAll_append, Machine.runAll_of_over hover]

theorem decode_append_of_complete {data : Bytes} (h : decode input = ⟨.complete, data⟩)
    (later : Bytes) : decode (input ++ later) = ⟨.complete, data⟩ := by
  rw [decode_append (by simp [h]), h]

theorem decode_append_of_corrupt (h : (decode input).outcome = .corrupt) (later : Bytes) :
    (decode (input ++ later)).outcome = .corrupt := by
  rw [decode_append (by simp [h]), h]

theorem decode_nil : (decode []).outcome = .incomplete := by
  have hreads : Machine.start.runAll [] = (Machine.start, []) := by
    rw [Machine.runAll.eq_def]
    rfl
  rw [decode, hreads]
  rfl

end Stowage.Zlib
