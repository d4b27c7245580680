import Stowage.Zlib.Machine

/-!
# Runs of the zlib machine

A run of the machine is taken apart into its steps (`Runs`).  What is written only grows,
by one byte for each byte of room, and a run that does not come to an end has used up its
input or its room (`Runs.used_up`).

The stream ends in a checksum that starts at a whole byte.  A machine that is not over
when its input is used up therefore cannot come to the end without more input, however
much room it is given (`Pausing.not_ended_of_runs`).

`Finishes` says that some input leads a machine to the end of its stream.  It is what is
assumed of a compressor.
-/

namespace Stowage.Zlib.Machine

variable {m : Machine}

/-! ## What a transition does -/

/-- The machine is not over, and has used up its byte if the checksum comes next. -/
structure Pausing (m : Machine) : Prop where
  not_ended : m.phase ≠ .ended
  trailer : ∀ got value, m.phase = .field .trailer got value → m.hand = []

/-- A transition that writes nothing and does not come to the end. -/
structure Continues (m m' : Machine) : Prop where
  history : m'.history = m.history
  pausing : m'.Pausing

theorem history_enter (m : Machine) (phase : Phase) : (m.enter phase).history = m.history := rfl

theorem pausing_of_phase (hended : m.phase ≠ .ended)
    (htrailer : ∀ got value, m.phase ≠ .field .trailer got value) : m.Pausing :=
  ⟨hended, fun got value h => absurd h (htrailer got value)⟩

theorem continues_enter (m : Machine) {phase : Phase} (hended : phase ≠ .ended)
    (htrailer : ∀ got value, phase ≠ .field .trailer got value) : m.Continues (m.enter phase) :=
  ⟨rfl, pausing_of_phase hended htrailer⟩

theorem continues_broken (m : Machine) : m.Continues (m.enter .broken) :=
  m.continues_enter nofun nofun

theorem continues_readWord (m : Machine) (use : CodeUse) : m.Continues (m.readWord use) :=
  m.continues_enter nofun nofun

theorem continues_endBlock (m : Machine) : m.Continues m.endBlock := by
  rw [endBlock]
  split
  · exact ⟨rfl, nofun, fun _ _ _ => rfl⟩
  · exact m.continues_enter nofun nofun

theorem continues_readStored (m : Machine) (left : Nat) : m.Continues (m.readStored left) := by
  rw [readStored]
  split
  · exact m.continues_endBlock
  · exact m.continues_enter nofun nofun

theorem continues_readLengths (m : Machine) (a : Announcement) : m.Continues (m.readLengths a) := by
  rw [readLengths]
  split
  · exact m.continues_readWord _
  · split
    · rw [startBlock]
      split
      · exact ⟨rfl, pausing_of_phase nofun nofun⟩
      · exact m.continues_broken
    · exact m.continues_broken

theorem continues_onBlockHeader (m : Machine) (value : Nat) :
    m.Continues (m.onBlockHeader value) := by
  rw [onBlockHeader]
  split
  all_goals exact ⟨rfl, pausing_of_phase nofun nofun⟩

theorem continues_onMetaLength (m : Machine) (lengthCount distanceCount remaining : Nat)
    (found : List Nat) :
    m.Continues (m.onMetaLength lengthCount distanceCount remaining found) := by
  rw [onMetaLength]
  split
  · exact m.continues_enter nofun nofun
  · split
    · exact m.continues_readLengths _
    · exact m.continues_broken

theorem continues_onField (m : Machine) {f : Field} (hf : f ≠ .trailer) (value : Nat) :
    m.Continues (m.onField f value) := by
  cases f with
  | streamHeader =>
    show m.Continues (m.onStreamHeader value)
    rw [onStreamHeader]
    split
    · exact m.continues_enter nofun nofun
    · exact m.continues_broken
  | blockHeader => exact m.continues_onBlockHeader value
  | storedLength =>
    show m.Continues (m.onStoredLength value)
    rw [onStoredLength]
    split
    · exact m.continues_readStored _
    · exact m.continues_broken
  | codeCounts =>
    show m.Continues (m.onCodeCounts value)
    rw [onCodeCounts]
    split
    · exact m.continues_broken
    · exact m.continues_enter nofun nofun
  | metaLength => exact m.continues_onMetaLength ..
  | repetition => exact m.continues_readLengths _
  | lengthRest => exact m.continues_readWord _
  | distanceRest => exact m.continues_enter nofun nofun
  | trailer => exact absurd rfl hf

theorem continues_readField (m : Machine) {f : Field} (hf : f ≠ .trailer) :
    m.Continues (m.readField f) := by
  rw [readField]
  split
  · exact m.continues_onField hf 0
  · refine m.continues_enter nofun fun got value h => hf ?_
    cases h
    rfl

theorem continues_onSymbol (m : Machine) (use : CodeUse) (symbol : Nat) :
    m.Continues (m.onSymbol use symbol) := by
  unfold onSymbol
  repeat' split
  all_goals first
    | exact m.continues_broken
    | exact m.continues_readLengths _
    | exact m.continues_readField nofun
    | exact m.continues_endBlock
    | exact m.continues_enter nofun nofun

/-- A bit that is no part of the checksum. -/
theorem continues_onBit (m : Machine) (bit : Bool) (hended : m.phase ≠ .ended)
    (htrailer : ∀ got value, m.phase ≠ .field .trailer got value) :
    m.Continues (m.onBit bit) := by
  unfold onBit
  split
  · rename_i f got value hphase
    have hf : f ≠ .trailer := by
      rintro rfl
      exact htrailer got value hphase
    dsimp only
    split
    · exact m.continues_onField hf _
    · refine m.continues_enter nofun fun got' value' h => hf ?_
      cases h
      rfl
  · split
    · exact m.continues_onSymbol _ _
    · exact m.continues_enter nofun nofun
    · exact m.continues_broken
  · exact ⟨rfl, pausing_of_phase hended htrailer⟩

/-! ## What is written -/

/-- Reading a bit writes nothing. -/
theorem history_onBit (m : Machine) (bit : Bool) : (m.onBit bit).history = m.history := by
  by_cases htrailer : ∃ got value, m.phase = .field .trailer got value
  · obtain ⟨got, value, hphase⟩ := htrailer
    rw [onBit, hphase]
    dsimp only
    by_cases hdone : got + 1 = Field.trailer.width
    · rw [if_pos hdone, onField, onTrailer]
      exact history_enter ..
    · rw [if_neg hdone]
      exact history_enter ..
  · by_cases hended : m.phase = .ended
    · unfold onBit
      rw [hended]
    · exact (m.continues_onBit bit hended fun got value h => htrailer ⟨got, value, h⟩).history

/-- The machine is about to write a byte of its own. -/
def Emits (m : Machine) : Prop := (∃ value, m.phase = .byte value) ∨ ∃ d left, m.phase =
    .copy d left

theorem emit_eq (h : m.Emits) : m.emit.Pausing ∧ ∃ b, m.emit.history = m.history.push b := by
  rw [emit]
  rcases h with ⟨value, h⟩ | ⟨distance, left, h⟩
  · rw [h]
    exact ⟨((m.write value).continues_readWord _).pausing, value, rfl⟩
  · rw [h]
    dsimp only
    split
    · exact ⟨(continues_readWord _ _).pausing, _, rfl⟩
    · exact ⟨pausing_of_phase nofun nofun, _, rfl⟩

/-- The machine is about to read a bit. -/
def Reads (m : Machine) : Prop :=
  (∃ f got value, m.phase = .field f got value) ∨ ∃ use place, m.phase = .word use place

theorem onStored_eq (m : Machine) (left : Nat) (b : UInt8) :
    (m.onStored left b).history = m.history.push b :=
  ((m.write b).continues_readStored (left - 1)).history

/-! ## Runs as derivations -/

/-- Why a run stops. -/
inductive Stops (m : Machine) : Nat → Bytes → Prop
  | ended {room : Nat} {input : Bytes} : m.phase = .ended → m.Stops room input
  | broken {room : Nat} {input : Bytes} : m.phase = .broken → m.Stops room input
  | noRoom {input : Bytes} : m.Emits → m.Stops 0 input
  | notPassed {room left : Nat} {input : Bytes} : m.phase = .stored left →
      (room = 0 ∨ input = []) → m.Stops room input
  | noInput {room : Nat} : m.Reads → m.hand = [] → m.Stops room []

/-- A run, step by step: with some room, some input leads to a machine and leaves a rest
of the input. -/
inductive Runs : Machine → Nat → Bytes → Machine → Bytes → Prop
  | stop {m : Machine} {room : Nat} {input : Bytes} : m.Stops room input →
      Runs m room input m input
  | emit {m m' : Machine} {room : Nat} {input rest : Bytes} : m.Emits →
      Runs m.emit room input m' rest → Runs m (room + 1) input m' rest
  | pass {m m' : Machine} {room left : Nat} {b : UInt8} {input rest : Bytes} :
      m.phase = .stored left → Runs (m.onStored left b) room input m' rest →
      Runs m (room + 1) (b :: input) m' rest
  | bit {m m' : Machine} {room : Nat} {bit : Bool} {hand : List Bool} {input rest : Bytes} :
      m.Reads → m.hand = bit :: hand →
      Runs ({ m with hand }.onBit bit) room input m' rest → Runs m room input m' rest
  | take {m m' : Machine} {room : Nat} {b : UInt8} {input rest : Bytes} : m.Reads →
      m.hand = [] → Runs { m with hand := bitsOf b } room input m' rest →
      Runs m room (b :: input) m' rest

theorem runs_run (m : Machine) (room : Nat) (input : Bytes) :
    Runs m room input (m.run room input).1 (m.run room input).2 := by
  fun_induction Machine.run m room input with
  | case1 m room input h => exact .stop (.ended h)
  | case2 m room input h => exact .stop (.broken h)
  | case3 m input value h => exact .stop (.noRoom (.inl ⟨value, h⟩))
  | case4 m input value h room ih => exact .emit (.inl ⟨value, h⟩) ih
  | case5 m input distance left h => exact .stop (.noRoom (.inr ⟨distance, left, h⟩))
  | case6 m input distance left h room ih => exact .emit (.inr ⟨distance, left, h⟩) ih
  | case7 m left h room b rest ih => exact .pass h ih
  | case8 m room input left h hstuck =>
    refine .stop (.notPassed h ?_)
    cases room with
    | zero => exact .inl rfl
    | succ room =>
      cases input with
      | nil => exact .inr rfl
      | cons b rest => exact absurd rfl (hstuck room b rest rfl)
  | case9 m room input f got value h bit hand hhand ih =>
    exact .bit (.inl ⟨f, got, value, h⟩) hhand ih
  | case10 m room f got value h hhand b rest ih => exact .take (.inl ⟨f, got, value, h⟩) hhand ih
  | case11 m room f got value h hhand => exact .stop (.noInput (.inl ⟨f, got, value, h⟩) hhand)
  | case12 m room input use place h bit hand hhand ih => exact .bit (.inr ⟨use, place, h⟩) hhand ih
  | case13 m room use place h hhand b rest ih => exact .take (.inr ⟨use, place, h⟩) hhand ih
  | case14 m room use place h hhand => exact .stop (.noInput (.inr ⟨use, place, h⟩) hhand)

theorem run_of_stops {room : Nat} {input : Bytes} (h : m.Stops room input) :
    m.run room input = (m, input) := by
  cases h with
  | ended h => rw [run.eq_def, h]
  | broken h => rw [run.eq_def, h]
  | noRoom h => rcases h with ⟨value, h⟩ | ⟨distance, left, h⟩ <;> rw [run.eq_def, h]
  | notPassed h hstuck =>
    rw [run.eq_def, h]
    rcases hstuck with rfl | rfl
    · rfl
    · cases room <;> rfl
  | noInput h hhand =>
    rcases h with ⟨f, got, value, h⟩ | ⟨use, place, h⟩
    all_goals
      rw [run.eq_def, h]
      dsimp only
      split
      · rename_i hhand'
        rw [hhand] at hhand'
        cases hhand'
      · rfl

theorem run_emit (h : m.Emits) (room : Nat) (input : Bytes) :
    m.run (room + 1) input = m.emit.run room input := by
  rcases h with ⟨value, h⟩ | ⟨distance, left, h⟩ <;> rw [run.eq_def, h]

theorem run_pass {left : Nat} (h : m.phase = .stored left) (room : Nat) (b : UInt8)
    (input : Bytes) : m.run (room + 1) (b :: input) = (m.onStored left b).run room input := by
  rw [run.eq_def, h]

theorem run_bit {bit : Bool} {hand : List Bool} (h : m.Reads) (hhand : m.hand = bit :: hand)
    (room : Nat) (input : Bytes) :
    m.run room input = ({ m with hand }.onBit bit).run room input := by
  rcases h with ⟨f, got, value, h⟩ | ⟨use, place, h⟩
  all_goals
    rw [run.eq_def, h]
    dsimp only
    split
    · rename_i bit' hand' hhand'
      rw [hhand] at hhand'
      cases hhand'
      rfl
    · rename_i hhand'
      rw [hhand] at hhand'
      cases hhand'

theorem run_take (h : m.Reads) (hhand : m.hand = []) (room : Nat) (b : UInt8) (input : Bytes) :
    m.run room (b :: input) = { m with hand := bitsOf b }.run room input := by
  rcases h with ⟨f, got, value, h⟩ | ⟨use, place, h⟩
  all_goals
    rw [run.eq_def, h]
    dsimp only
    split
    · rename_i hhand'
      rw [hhand] at hhand'
      cases hhand'
    · rfl

/-! ## What a run does -/

section Runs
variable {m' : Machine} {room : Nat} {input rest : Bytes}

/-- What has been written stays, and a run writes no more than it has room for. -/
theorem Runs.history (h : Runs m room input m' rest) :
    ∃ written, m'.history.toList = m.history.toList ++ written ∧ written.length ≤ room := by
  induction h with
  | stop _ => exact ⟨[], (List.append_nil _).symm, Nat.zero_le _⟩
  | emit hemits _ ih =>
    obtain ⟨written, heq, hle⟩ := ih
    obtain ⟨-, b, hb⟩ := emit_eq hemits
    refine ⟨b :: written, ?_, Nat.succ_le_succ hle⟩
    rw [heq, hb, Array.toList_push, List.append_assoc]
    rfl
  | @pass m m' room left b input rest _ _ ih =>
    obtain ⟨written, heq, hle⟩ := ih
    refine ⟨b :: written, ?_, Nat.succ_le_succ hle⟩
    rw [heq, onStored_eq, Array.toList_push, List.append_assoc]
    rfl
  | bit _ _ _ ih =>
    obtain ⟨written, heq, hle⟩ := ih
    exact ⟨written, by rw [heq, history_onBit], hle⟩
  | take _ _ _ ih => exact ih

theorem Runs.size_le (h : Runs m room input m' rest) :
    m.history.size ≤ m'.history.size ∧ m'.history.size ≤ m.history.size + room := by
  obtain ⟨written, heq, hle⟩ := h.history
  have hsize := congrArg List.length heq
  rw [List.length_append, Array.length_toList, Array.length_toList] at hsize
  omega

/-- Where a run stops, the machine is over, or is not about to be. -/
theorem Runs.pausing (h : Runs m room input m' rest) : m'.phase = .ended ∨ m'.Pausing := by
  induction h with
  | stop hstops =>
    cases hstops with
    | ended h => exact .inl h
    | broken h => exact .inr (pausing_of_phase (by rw [h]; nofun) (by rw [h]; nofun))
    | noRoom h =>
      rcases h with ⟨value, h⟩ | ⟨distance, left, h⟩
      · exact .inr (pausing_of_phase (by rw [h]; nofun) (by rw [h]; nofun))
      · exact .inr (pausing_of_phase (by rw [h]; nofun) (by rw [h]; nofun))
    | notPassed h _ => exact .inr (pausing_of_phase (by rw [h]; nofun) (by rw [h]; nofun))
    | noInput h hhand =>
      refine .inr ⟨?_, fun _ _ _ => hhand⟩
      rcases h with ⟨f, got, value, h⟩ | ⟨use, place, h⟩ <;> (rw [h]; nofun)
  | emit _ _ ih => exact ih
  | pass _ _ ih => exact ih
  | bit _ _ _ ih => exact ih
  | take _ _ _ ih => exact ih

/-- A run that does not come to an end uses up its input or its room. -/
theorem Runs.used_up (h : Runs m room input m' rest) :
    m'.phase = .ended ∨ m'.phase = .broken ∨ rest = [] ∨
      m'.history.size = m.history.size + room := by
  induction h with
  | stop hstops =>
    cases hstops with
    | ended h => exact .inl h
    | broken h => exact .inr (.inl h)
    | noRoom _ => exact .inr (.inr (.inr rfl))
    | notPassed _ hstuck =>
      rcases hstuck with rfl | rfl
      · exact .inr (.inr (.inr rfl))
      · exact .inr (.inr (.inl rfl))
    | noInput _ _ => exact .inr (.inr (.inl rfl))
  | emit hemits _ ih =>
    obtain ⟨-, b, hb⟩ := emit_eq hemits
    rw [hb, Array.size_push] at ih
    rcases ih with h | h | h | h
    · exact .inl h
    · exact .inr (.inl h)
    · exact .inr (.inr (.inl h))
    · exact .inr (.inr (.inr (by omega)))
  | pass _ _ ih =>
    rw [onStored_eq, Array.size_push] at ih
    rcases ih with h | h | h | h
    · exact .inl h
    · exact .inr (.inl h)
    · exact .inr (.inr (.inl h))
    · exact .inr (.inr (.inr (by omega)))
  | bit _ _ _ ih => rwa [history_onBit] at ih
  | take _ _ _ ih => exact ih

/-- **No end without input**: a machine that pauses does not come to the end on no input. -/
theorem Pausing.not_ended_of_runs (hm : m.Pausing) (h : Runs m room [] m' rest) :
    m'.phase ≠ .ended := by
  generalize hinput : ([] : Bytes) = input at h
  induction h with
  | stop _ => exact hm.not_ended
  | emit hemits _ ih => exact ih (emit_eq hemits).1 hinput
  | pass _ _ _ => cases hinput
  | @bit m m' room bit hand input rest hreads hhand _ ih =>
    have htrailer (got value : Nat) : m.phase ≠ .field .trailer got value := by
      intro hphase
      have := hm.trailer got value hphase
      rw [hhand] at this
      cases this
    exact ih (continues_onBit { m with hand } bit hm.not_ended htrailer).pausing hinput
  | take _ _ _ _ => cases hinput

end Runs

/-! ## Streams that come to their end -/

/-- Some input leads the machine to the end of its stream, with the given bytes written. -/
def Finishes (m : Machine) (input data : Bytes) : Prop :=
  ∃ room, (m.run room input).1.phase = .ended ∧ (m.run room input).1.history.toList = data

theorem finishes_of_ended {input : Bytes} (h : m.phase = .ended) :
    m.Finishes input m.history.toList := by
  refine ⟨0, ?_⟩
  rw [run_of_stops (.ended h)]
  exact ⟨h, rfl⟩

end Stowage.Zlib.Machine
